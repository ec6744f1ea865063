import Docstore.Proofs.Collection.Queries
import Docstore.Proofs.Index.Dropping

set_option autoImplicit false

namespace Docstore

namespace Store

variable {after before : Store} {gone : List DocId} {refs : List IndexRef}

/-- A store without some documents of another. What is left is in the same order, among the
documents and in what every lookup finds. -/
structure Lacks (gone : List DocId) (after before : Store) : Prop where
  order : after.order = before.order.filter fun id => decide (id ∉ gone)
  documents : ∀ id ∉ gone, after.document? id = before.document? id
  found : ∀ ref, after.found ref = (before.found ref).filter fun id => decide (id ∉ gone)

namespace Lacks

theorem of_content (content : SameContent after before) : Lacks [] after before := by
  constructor
  · rw [content.order]
    exact (List.filter_eq_self.2 fun _ _ => rfl).symm
  · intro id _
    rw [document?, document?, content.documents]
  · intro ref
    rw [content.found]
    exact (List.filter_eq_self.2 fun _ _ => rfl).symm

/-- A removal that succeeds takes the document out everywhere. -/
theorem of_remove (sound : before.Sound none) {id : DocId} {doc : Json}
    (removed : before.remove id = (.ok doc, after)) : Lacks [id] after before := by
  have only : ∀ other : DocId, decide (other ∉ [id]) = decide (other ≠ id) := by
    intro other
    simp
  unfold Store.remove at removed
  cases stored : before.document? id with
  | none =>
      rw [stored] at removed
      cases congrArg Prod.fst removed
  | some doc' =>
      rcases ran : Index.each (·.remove id) before.indices with ⟨outcome, indices⟩
      rw [stored, ran] at removed
      cases outcome with
      | error failure => cases congrArg Prod.fst removed
      | ok _ =>
          obtain ⟨-, rfl⟩ := Prod.mk.inj removed
          refine ⟨by simp only [only], ?_, ?_⟩
          · intro other left
            have apart : id ≠ other := fun same => left (List.mem_singleton.2 same.symm)
            simp only [Store.document?, Table.get?_erase, if_neg apart]
          · intro ref
            simp only [only]
            unfold Store.found
            obtain ⟨missing, missing'⟩ | ⟨index, index', here, here', step⟩ :=
              forall₂_getElem? (Index.forall₂_of_each ran) ref.position
            · simp only [missing, missing', List.filter_nil]
            · simp only [here, here']
              have files := sound.filed index (List.mem_of_getElem? here)
              exact Index.found_remove files.sound step ref.lookup

theorem trans {gone' : List DocId} {last : Store} (first : Lacks gone after before)
    (rest : Lacks gone' last after) : Lacks (gone ++ gone') last before := by
  have both : ∀ id : DocId, (decide (id ∉ gone') && decide (id ∉ gone)) =
      decide (id ∉ gone ++ gone') := by
    intro id
    simp [Bool.and_comm]
  constructor
  · simp only [rest.order, first.order, List.filter_filter, both]
  · intro id left
    obtain ⟨left, left'⟩ := not_or.1 (mt List.mem_append.2 left)
    rw [rest.documents id left', first.documents id left]
  · intro ref
    simp only [rest.found, first.found, List.filter_filter, both]

variable (lacks : Lacks gone after before)

include lacks

theorem candidates (refs : List IndexRef) :
    after.candidates refs = (before.candidates refs).filter fun id => decide (id ∉ gone) := by
  cases refs with
  | nil => exact lacks.order
  | cons first others =>
      simp only [Store.candidates, lacks.found, List.filter_filter]
      apply List.filter_congr
      intro id _
      by_cases left : id ∉ gone
      · simp [left, List.all_eq]
      · simp [left]

theorem entries : after.entries =
    before.entries.filter fun entry => decide (entry.1 ∉ gone) := by
  rw [Store.entries, Store.entries, lacks.order, List.filterMap_filter, List.filter_filterMap]
  apply List.filterMap_congr
  intro id _
  by_cases left : id ∉ gone
  · rw [if_pos (decide_eq_true left), lacks.documents id left]
    cases before.document? id with
    | none => rfl
    | some doc => exact (if_pos (decide_eq_true left)).symm
  · rw [if_neg (by simpa using left)]
    cases before.document? id with
    | none => rfl
    | some doc => exact (if_neg (by simpa using left)).symm

theorem holdsOf {id : DocId} (left : id ∉ gone) (nodes : List QueryNode) :
    after.holdsOf nodes id = before.holdsOf nodes id := by
  rw [Store.holdsOf, Store.holdsOf, lacks.documents id left]

theorem answer (refs : List IndexRef) (nodes : List QueryNode) :
    after.answer refs nodes Conditions.none =
      (before.answer refs nodes Conditions.none).filter fun id => decide (id ∉ gone) := by
  change (after.candidates refs).filter (after.holdsOf nodes) =
    ((before.candidates refs).filter (before.holdsOf nodes)).filter _
  rw [lacks.candidates, List.filter_filter, List.filter_filter]
  apply List.filter_congr
  intro id _
  by_cases left : id ∉ gone
  · rw [lacks.holdsOf left, Bool.and_comm]
  · simp [left]

end Lacks

end Store

namespace Collection

variable {collection after : Collection} {made : List Request} {predicate : Json}
  {refs : List IndexRef} {residual : List QueryNode}

theorem remove_lacks (sound : collection.Sound) {id : DocId} {doc : Json}
    (stored : collection.get? id = some doc) :
    ∃ after, collection.remove id = (.ok doc, after) ∧ after.Sound ∧
      after.SameSchema collection ∧ Store.Lacks [id] after.store collection.store := by
  obtain ⟨absent, -⟩ | ⟨doc', after, stored', ran, sound', same, -⟩ := remove_spec sound id
  · exact absurd ((sound.store.listed id).2 ⟨doc, stored⟩) absent
  · obtain rfl : doc = doc' := Option.some.inj (stored.symm.trans stored')
    obtain ⟨removed, rfl⟩ := Prod.mk.inj ran
    exact ⟨_, ran, sound', same, .of_remove sound.store (Prod.ext removed rfl)⟩

/-- Stored documents can be removed one after the other. -/
theorem removeAll_lacks (sound : collection.Sound) {ids : List DocId} (nodup : ids.Nodup)
    (stored : ∀ id ∈ ids, ∃ doc, collection.get? id = some doc) :
    ∃ after, collection.removeAll ids = (.ok (), after) ∧ after.Sound ∧
      after.SameSchema collection ∧ Store.Lacks ids after.store collection.store := by
  induction ids generalizing collection with
  | nil => exact ⟨collection, rfl, sound, .refl collection, .of_content (.refl collection.store)⟩
  | cons id rest ih =>
      obtain ⟨fresh, nodup'⟩ := List.nodup_cons.1 nodup
      obtain ⟨⟨doc, here⟩, others⟩ := List.forall_mem_cons.1 stored
      obtain ⟨between, ran, sound', same, lacks⟩ := remove_lacks sound here
      have stored' : ∀ other ∈ rest, ∃ doc, between.get? other = some doc := by
        intro other there
        have left : other ∉ [id] := fun same => fresh (List.mem_singleton.1 same ▸ there)
        rw [get?, lacks.documents other left]
        exact others other there
      obtain ⟨after, ran', sound'', same', lacks'⟩ := ih sound' nodup' stored'
      refine ⟨after, ?_, sound'', ⟨same'.name.trans same.name, same'.shapes.trans same.shapes,
        same'.programs.trans same.programs⟩, lacks.trans lacks'⟩
      simp only [removeAll, ran, ran']

/-- A sound collection for which a predicate is compiled to the program of these lookups and other
nodes. -/
structure Ready (made : List Request) (predicate : Json) (refs : List IndexRef)
    (residual : List QueryNode) (collection : Collection) : Prop where
  sound : collection.Sound
  remembers : collection.Remembers made
  formed : QueryNode.AllFormed (fun _ => True) residual
  serves : ∀ ref ∈ refs, ref.Serves collection.store.indices
  compiles : ∃ program, collection.compileQuery predicate Conditions.none = .ok program ∧
    Program.ofQuery ⟨refs.map .lookup ++ residual⟩ Conditions.none collection.store.name =
      .ok program

namespace Ready

variable (ready : collection.Ready made predicate refs residual)

include ready

theorem change {made' : List Request} (sound : after.Sound) (remembers : after.Remembers made')
    (name : after.store.name = collection.store.name)
    (shapes : after.store.indices.map Index.shape = collection.store.indices.map Index.shape) :
    after.Ready made' predicate refs residual where
  sound := sound
  remembers := remembers
  formed := ready.formed
  serves ref there := (ready.serves ref there).congr shapes.symm
  compiles := by
    have same : after.compileQuery predicate Conditions.none =
        collection.compileQuery predicate Conditions.none :=
      fresh_congr name shapes (.query predicate Conditions.none)
    rw [same, name]
    exact ready.compiles

theorem findIds (distinct : Request.Distinct (.query predicate Conditions.none :: made)) :
    ∃ after, collection.findIds predicate Conditions.none =
        (.ok (collection.store.answer refs residual Conditions.none), after) ∧
      after.Ready (.query predicate Conditions.none :: made) predicate refs residual ∧
      Store.SameContent after.store collection.store := by
  obtain ⟨program, compiles, compiled⟩ := ready.compiles
  obtain ⟨after, answered, sound, remembers, name, shapes, content⟩ :=
    findIds_compiled ready.sound ready.remembers distinct ready.formed ready.serves compiles
    compiled
      (Store.arrangeable_unsorted _ _ _)
  exact ⟨after, answered, ready.change sound remembers name shapes, content⟩

theorem findIds_lacks {gone : List DocId} (sound : after.Sound) (same : after.SameSchema collection)
    (lacks : Store.Lacks gone after.store collection.store)
    (distinct : Request.Distinct (.query predicate Conditions.none :: made)) :
    (after.findIds predicate Conditions.none).1 =
      .ok ((collection.store.answer refs residual Conditions.none).filter
        fun id => decide (id ∉ gone)) := by
  have ready' : after.Ready made predicate refs residual :=
    ready.change sound (ready.remembers.of_schema same) same.name same.shapes
  obtain ⟨last, answered, -⟩ := ready'.findIds distinct
  rw [answered, lacks.answer]

/-- A removal takes the document out of the answer, which is that of any collection of the same
content. -/
theorem findIds_remove {first : Collection}
    (content : Store.SameContent collection.store first.store)
    (distinct : Request.Distinct (.query predicate Conditions.none :: made)) {id : DocId}
    {doc : Json} (stored : first.get? id = some doc) :
    ∃ after, collection.remove id = (.ok doc, after) ∧
      (after.findIds predicate Conditions.none).1 =
        .ok ((first.store.answer refs residual Conditions.none).filter (· ≠ id)) := by
  have stored' : collection.get? id = some doc := by
    rw [get?, Store.document?, content.documents]
    exact stored
  obtain ⟨after, removed, sound, same, lacks⟩ := remove_lacks ready.sound stored'
  refine ⟨after, removed, ?_⟩
  have left := ready.findIds_lacks sound same lacks distinct
  rw [left, (Store.Lacks.of_content content).answer, List.filter_filter]
  congr 2
  funext other
  simp

/-- Deletion removes what the predicate selects and no more, and then nothing is selected. -/
theorem delete (distinct : Request.Distinct (.query predicate Conditions.none ::
      .query predicate Conditions.none :: made)) :
    ∃ after, collection.delete predicate =
        (.ok (collection.store.answer refs residual Conditions.none).length, after) ∧
      after.store.entries = collection.store.entries.filter
        (fun entry => decide (entry.1 ∉ collection.store.answer refs residual Conditions.none)) ∧
      after.ids = collection.ids.filter
        (fun id => decide (id ∉ collection.store.answer refs residual Conditions.none)) ∧
      (after.findIds predicate Conditions.none).1 = .ok [] := by
  obtain ⟨between, answered, ready', content⟩ :=
    ready.findIds (distinct.mono (List.subset_cons_self _ _))
  obtain ⟨nodup, stored⟩ :=
    Store.answer_spec ready.sound.store ready.serves residual Conditions.none
  have stored' : ∀ id ∈ collection.store.answer refs residual Conditions.none,
      ∃ doc, between.get? id = some doc := by
    intro id there
    rw [get?, Store.document?, content.documents]
    exact stored id there
  obtain ⟨after, removed, sound, same, lacks⟩ := removeAll_lacks ready'.sound nodup stored'
  have left := ready'.findIds_lacks sound same lacks distinct
  refine ⟨after, ?_, ?_, ?_, ?_⟩
  · simp only [Collection.delete, answered, removed, Except.map]
  · rw [lacks.entries, content.entries]
  · rw [ids, lacks.order, content.order]
    rfl
  · rw [left, (Store.Lacks.of_content content).answer]
    congr 1
    apply List.filter_eq_nil_iff.2
    intro id there
    simpa using (List.mem_filter.1 there).1

end Ready

/-- Where no index repeats an attribute, every predicate that can be read is compiled. -/
theorem ready_of_parse (lawful : collection.Lawful made)
    (attributes : ∀ index ∈ collection.store.indices, index.attributes.Nodup) {query : Query}
    (read : Query.parse predicate = .ok query) :
    ∃ refs residual, collection.Ready made predicate refs residual := by
  obtain ⟨formed, -, -⟩ := Query.parse_spec Json.inherited_any trivial read
  obtain ⟨-, repeated⟩ | ⟨refs, residual, chosen, selected⟩ :=
    Query.select_spec collection.store.indices formed
  · exact absurd attributes repeated
  · obtain ⟨program, compiled⟩ :=
      ofQuery_ok refs selected.formed Conditions.none collection.store.name
    refine ⟨refs, residual, lawful.sound, lawful.remembers, selected.formed, selected.serves,
      program, ?_, compiled⟩
    simp only [compileQuery, read, ok_bind, chosen]
    exact compiled_eq_ok.2 compiled

/-- Removing a document takes it out of the answer to every predicate and leaves the others in their
order. Deleting what a predicate selects removes just that, and nothing more is selected then. -/
theorem removal_is_local (reached : Reached made collection)
    (attributes : ∀ index ∈ collection.store.indices, index.attributes.Nodup) {query : Query}
    (read : Query.parse predicate = .ok query)
    (distinct : Request.Distinct (.query predicate Conditions.none :: made)) :
    ∃ ids between, collection.findIds predicate Conditions.none = (.ok ids, between) ∧
      (∀ start ∈ [collection, between], ∀ id doc, collection.get? id = some doc →
        ∃ after, start.remove id = (.ok doc, after) ∧
          (after.findIds predicate Conditions.none).1 = .ok (ids.filter (· ≠ id))) ∧
      (collection.delete predicate).1 = .ok ids.length ∧
      (collection.delete predicate).2.store.entries =
        collection.store.entries.filter (fun entry => decide (entry.1 ∉ ids)) ∧
      (collection.delete predicate).2.ids =
        collection.ids.filter (fun id => decide (id ∉ ids)) ∧
      ((collection.delete predicate).2.findIds predicate Conditions.none).1 = .ok [] := by
  -- A removal changes no schema, so one plan serves before it and after it.
  obtain ⟨refs, residual, ready⟩ := ready_of_parse reached.lawful attributes read
  obtain ⟨between, answered, ready', content⟩ := ready.findIds distinct
  have distinct' : Request.Distinct (.query predicate Conditions.none ::
      .query predicate Conditions.none :: made) := by
    apply distinct.mono
    simp
  obtain ⟨last, deleted, entries, order, gone⟩ := ready.delete distinct'
  rw [deleted]
  refine ⟨_, between, answered, fun start either id doc stored => ?_, rfl, entries, order, gone⟩
  obtain rfl | rfl : start = collection ∨ start = between := by simpa using either
  · exact ready.findIds_remove (.refl start.store) distinct stored
  · exact ready'.findIds_remove content distinct' stored

/-- Of the people behind "ann" one leaves, and then the others. -/
theorem people_leave :
    let predicate : Json := .object [("name", .object [("$gt", .string "ann")])]
    ∃ between, peopleByName.findIds predicate Conditions.none = (.ok [2, 3], between) ∧
      (∃ doc after, peopleByName.remove 2 = (.ok doc, after) ∧
        (after.findIds predicate Conditions.none).1 = .ok [3]) ∧
      (peopleByName.delete predicate).1 = .ok 2 ∧
      ((peopleByName.delete predicate).2.findIds predicate Conditions.none).1 = .ok [] := by
  intro predicate
  have attributes : ∀ index ∈ peopleByName.store.indices, index.attributes.Nodup :=
    inScope_peopleByName.attributes
  have read : Query.parse predicate = .ok ⟨[.field "name" [⟨.gt, .literal (.string "ann")⟩]]⟩ := rfl
  have found : (peopleByName.findIds predicate Conditions.none).1 = .ok [2, 3] := rfl
  obtain ⟨ids, between, answered, removed, deleted, -, -, gone⟩ := removal_is_local
    reached_peopleByName attributes read (Request.distinct_singleton _)
  rw [answered] at found
  obtain rfl := Except.ok.inj found
  obtain ⟨after, ran, left⟩ := removed peopleByName List.mem_cons_self 2 _ rfl
  exact ⟨between, answered, ⟨_, after, ran, left⟩, deleted, gone⟩

end Collection

end Docstore
