import Docstore.Proofs.Collection.Calls

set_option autoImplicit false

namespace Docstore

namespace Index

theorem name_eq (index : Index) : index.name = nameOf index.attributes := by
  cases index <;> rfl

end Index

namespace Collection

variable {collection between after : Collection}

def shapes (collection : Collection) : List (IndexKind × List String) :=
  collection.store.indices.map Index.shape

/-- One change of a collection, as far as identities and the shapes of indices go. -/
inductive Change (before after : Collection) : Prop
  | stored (id : DocId) (free : id ∉ before.ids) (ids : after.ids = before.ids ++ [id])
      (nextId : after.nextId = max before.nextId (successor id))
      (shapes : after.shapes = before.shapes)
  | dropped (id : DocId) (ids : after.ids = before.ids.filter (· ≠ id))
      (nextId : after.nextId = before.nextId) (shapes : after.shapes = before.shapes)
  | registered (attributes : List String) (kind : IndexKind) (given : attributes ≠ [])
      (free : ∀ shape ∈ before.shapes, Index.nameOf shape.2 ≠ Index.nameOf attributes)
      (ids : after.ids = before.ids) (nextId : after.nextId = before.nextId)
      (shapes : after.shapes = before.shapes ++ [(kind, attributes)])
  | kept (ids : after.ids = before.ids) (nextId : after.nextId = before.nextId)
      (shapes : after.shapes = before.shapes)

abbrev Changes : Collection → Collection → Prop :=
  Relation.ReflTransGen Change

theorem Changes.invariant {holds : Collection → Prop}
    (step : ∀ before after, Change before after → holds before → holds after)
    (changes : Changes collection after) (initial : holds collection) : holds after := by
  induction changes with
  | refl => exact initial
  | tail _ last ih => exact step _ _ last ih

theorem change_insert (sound : collection.Sound) {doc : Json} {id : DocId}
    (ran : collection.insert doc = (.ok id, after)) : Change collection after := by
  obtain ⟨fault, -, refused⟩ | ⟨other, members, -, -, refused⟩ |
    ⟨other, members, after', stated, free, ran', -, same, -, order⟩ := insert_spec sound doc
  · rw [refused] at ran
    cases ran
  · rw [refused] at ran
    cases ran
  · rw [ran] at ran'
    obtain ⟨rfl, rfl⟩ : id = other ∧ after = after' := by simpa using ran'
    refine .stored id free order ?_ same.shapes
    -- The next identity is set in the last step of an insertion.
    simp only [insert, stated] at ran
    split at ran
    · cases ran
    · split at ran
      · cases ran
      · obtain rfl := congrArg Prod.snd ran
        rfl

theorem changes_insertMany (sound : collection.Sound) (docs : List Json) :
    Changes collection (collection.insertMany docs).2 := by
  induction docs generalizing collection with
  | nil => exact .refl
  | cons doc rest ih =>
      obtain ⟨fault, -, ran⟩ | ⟨id, members, -, -, ran⟩ |
        ⟨id, members, after, -, -, ran, sound', -⟩ := insert_spec sound doc
      · simp only [insertMany, ran]
        exact .refl
      · simp only [insertMany, ran]
        exact .refl
      · simp only [insertMany, ran]
        exact .head (change_insert sound ran) (ih sound')

theorem change_remove (sound : collection.Sound) {id : DocId} {doc : Json}
    (ran : collection.remove id = (.ok doc, after)) : Change collection after := by
  obtain ⟨-, refused⟩ | ⟨doc', after', -, ran', -, same, -, order⟩ := remove_spec sound id
  · rw [refused] at ran
    cases ran
  · rw [ran] at ran'
    obtain rfl : after = after' := congrArg Prod.snd ran'
    have nextId : collection.nextId = after.nextId := congrArg (·.2.nextId) ran
    exact .dropped id order nextId.symm same.shapes

theorem changes_removeAll (sound : collection.Sound) (ids : List DocId) :
    Changes collection (collection.removeAll ids).2 := by
  induction ids generalizing collection with
  | nil => exact .refl
  | cons id rest ih =>
      obtain ⟨-, ran⟩ | ⟨doc, after, -, ran, sound', -⟩ := remove_spec sound id
      · simp only [removeAll, ran]
        exact .refl
      · simp only [removeAll, ran]
        exact .head (change_remove sound ran) (ih sound')

/-- To plan a request changes the programs that are kept and nothing else. -/
theorem change_keep (collection : Collection) (request : Request)
    (program : Except Error Program) :
    Change collection (collection.keep request program).2 := by
  cases kept : collection.programs with
  | none =>
      simp only [keep, kept]
      exact .kept rfl rfl rfl
  | some cache =>
      simp only [keep, kept]
      exact .kept rfl rfl rfl

theorem change_run (sound : collection.Sound) (program : Program) {mutation : Option Program}
    (proper : ∀ p, mutation = some p → Machine.Proper p) (upsert : Bool) :
    Change collection (collection.run program mutation upsert).2 := by
  obtain ⟨-, schema, order⟩ := run_sound sound program proper upsert
  exact .kept order rfl schema.shapes

theorem changes_findIds (sound : collection.Sound) (predicate : Json) (conditions : Conditions) :
    Changes collection (collection.findIds predicate conditions).2 := by
  obtain ⟨planned, -, -⟩ := plan_spec sound predicate conditions
  have kept : Change collection (collection.plan predicate conditions).2 := change_keep _ _ _
  unfold findIds
  cases made : collection.plan predicate conditions with
  | mk outcome between =>
      rw [made] at planned kept
      cases outcome with
      | error error => exact .single kept
      | ok program =>
          refine .head kept (.single ?_)
          exact change_run planned program (fun _ absent => by cases absent) false

theorem changes_update (sound : collection.Sound) (predicate mutation : Json) (upsert : Bool) :
    Changes collection (collection.update predicate mutation upsert).2 := by
  obtain ⟨planned, -, -⟩ := plan_spec sound predicate Conditions.none
  have kept : Change collection (collection.plan predicate Conditions.none).2 := change_keep _ _ _
  cases made : collection.plan predicate Conditions.none with
  | mk outcome between =>
      rw [made] at planned kept
      cases outcome with
      | error error =>
          simp only [update, made]
          exact .single kept
      | ok program =>
          obtain ⟨planned', -, proper⟩ := planMutation_spec planned mutation
          have kept' : Change between (between.planMutation mutation).2 := change_keep _ _ _
          cases made' : between.planMutation mutation with
          | mk outcome' between' =>
              rw [made'] at planned' proper kept'
              cases outcome' with
              | error error =>
                  simp only [update, made, made']
                  exact .head kept (.single kept')
              | ok mutations =>
                  simp only [update, made, made']
                  refine .head kept (.head kept' (.single (change_run planned' program ?_ upsert)))
                  intro p same
                  exact proper p (congrArg Except.ok (Option.some.inj same))

theorem changes_delete (sound : collection.Sound) (predicate : Json) :
    Changes collection (collection.delete predicate).2 := by
  have found := findIds_sound sound predicate Conditions.none
  have changes := changes_findIds sound predicate Conditions.none
  unfold delete
  cases ran : collection.findIds predicate Conditions.none with
  | mk outcome between =>
      rw [ran] at found changes
      cases outcome with
      | error error => exact changes
      | ok ids => exact changes.trans (changes_removeAll found ids)

theorem changes_ensureIndex (sound : collection.Sound) (attributes : List String)
    (kind : IndexKind) : Changes collection (collection.ensureIndex attributes kind).2 := by
  by_cases nothing : attributes = []
  · simp only [ensureIndex, nothing, List.isEmpty_nil, if_true]
    exact .refl
  · have given : attributes.isEmpty = false := by simpa using nothing
    cases named : collection.index? (Index.nameOf attributes) with
    | some present =>
        simp only [ensureIndex, given, named, Bool.false_eq_true, if_false]
        split
        all_goals exact .refl
    | none =>
        obtain ⟨-, -, refused⟩ | ⟨index, shape, -, ran⟩ := ensureIndex_new sound nothing kind named
        · rw [refused]
        · rw [ran]
          refine .single (.registered attributes kind nothing ?_ rfl rfl ?_)
          · intro other there same
            obtain ⟨present, member, rfl⟩ := List.mem_map.1 there
            have absent := List.find?_eq_none.1 named present member
            exact absent (beq_iff_eq.2 (present.name_eq.trans same))
          · simp only [shapes, List.map_append, List.map_cons, List.map_nil, shape]

/-- A call, whether it fails or not, is a sequence of changes. -/
theorem changes_perform (sound : collection.Sound) (call : Call) :
    Changes collection (collection.perform call).2 := by
  cases call with
  | insert doc =>
      obtain ⟨_, -, ran⟩ | ⟨_, _, -, -, ran⟩ | ⟨_, _, after, -, -, ran, -⟩ := insert_spec sound doc
      · rw [perform, ran]
        exact .refl
      · rw [perform, ran]
        exact .refl
      · rw [perform, ran]
        exact .single (change_insert sound ran)
  | insertMany docs => exact changes_insertMany sound docs
  | remove id =>
      obtain ⟨-, ran⟩ | ⟨doc, after, -, ran, -⟩ := remove_spec sound id
      · rw [perform, ran]
        exact .refl
      · rw [perform, ran]
        exact .single (change_remove sound ran)
  | update predicate mutation upsert => exact changes_update sound predicate mutation upsert
  | delete predicate => exact changes_delete sound predicate
  | ensureIndex attributes kind => exact changes_ensureIndex sound attributes kind

theorem changes_performAll (sound : collection.Sound) (calls : List Call) :
    Changes collection (collection.performAll calls) := by
  induction calls generalizing collection with
  | nil => exact .refl
  | cons call rest ih =>
      exact (changes_perform sound call).trans (ih (perform_sound sound call))

end Collection
end Docstore
