import Docstore.Proofs.Collection.Changes

set_option autoImplicit false

namespace Docstore
namespace Collection

def lastIdentity : DocId := 0xFFFFFFFFFFFFFFFF

/-- The next identity is not below the successor of one that was in use or is. -/
def Beyond (past : List DocId) (collection : Collection) : Prop :=
  ∀ id, id ∈ past ∨ id ∈ collection.ids → successor id ≤ collection.nextId

variable {collection after : Collection} {past : List DocId}

theorem le_max_first (a b : DocId) : a ≤ max a b := by
  rw [max_eq]
  split
  · assumption
  · exact UInt64.le_refl a

theorem le_max_second (a b : DocId) : b ≤ max a b := by
  rw [max_eq]
  split
  · exact UInt64.le_refl b
  · rename_i above
    exact (UInt64.le_total a b).resolve_left above

theorem le_lastIdentity (id : DocId) : id ≤ lastIdentity := by
  have below := id.toNat_lt
  have last : lastIdentity.toNat = 2 ^ 64 - 1 := rfl
  rw [UInt64.le_iff_toNat_le]
  omega

/-- An identity whose successor is not above another is below it, or both are the last. -/
theorem lt_or_last {id next : DocId} (bound : successor id ≤ next) :
    id < next ∨ id = lastIdentity ∧ next = lastIdentity := by
  by_cases last : id = lastIdentity
  · rw [last] at bound
    exact .inr ⟨last, UInt64.le_antisymm (le_lastIdentity next) bound⟩
  · exact .inl (UInt64.lt_of_lt_of_le (lt_successor last) bound)

theorem Beyond.change (change : Change collection after) (beyond : collection.Beyond past) :
    after.Beyond past := by
  intro other either
  cases change with
  | stored id _ ids nextId _ =>
      rw [nextId]
      obtain there | there := either
      · exact UInt64.le_trans (beyond other (.inl there)) (le_max_first _ _)
      · rw [ids] at there
        obtain there | there := List.mem_append.1 there
        · exact UInt64.le_trans (beyond other (.inr there)) (le_max_first _ _)
        · rw [List.mem_singleton.1 there]
          exact le_max_second _ _
  | dropped id ids nextId _ =>
      rw [nextId]
      refine beyond other (either.imp_right fun there => ?_)
      rw [ids] at there
      exact List.mem_of_mem_filter there
  | registered _ _ _ _ ids nextId _ =>
      rw [nextId]
      exact beyond other (by rwa [ids] at either)
  | kept ids nextId _ =>
      rw [nextId]
      exact beyond other (by rwa [ids] at either)

/-- Calls keep the next identity beyond all that are in use and all that were at the start. -/
theorem Beyond.performAll (sound : collection.Sound) (beyond : collection.Beyond past)
    (calls : List Call) : (collection.performAll calls).Beyond past :=
  (changes_performAll sound calls).invariant (fun _ _ => Beyond.change) beyond

theorem Beyond.present (beyond : collection.Beyond past) : collection.Beyond collection.ids :=
  fun used either => beyond used (.inr (either.elim id id))

theorem performAll_append (collection : Collection) (first second : List Call) :
    collection.performAll (first ++ second) = (collection.performAll first).performAll second :=
  List.foldl_append

/-- The next identity is beyond every one that was in use after any of the calls so far. -/
theorem successor_le_nextId {start : Collection} (sound : start.Sound)
    (empty : start.ids = []) {earlier calls : List Call} (sooner : earlier <+: calls) {id : DocId}
    (used : id ∈ (start.performAll earlier).ids) :
    successor id ≤ (start.performAll calls).nextId := by
  obtain ⟨later, rfl⟩ := sooner
  have initial : start.Beyond [] := by
    intro other either
    rw [empty] at either
    cases either with
    | inl absent => cases absent
    | inr absent => cases absent
  have before := (initial.performAll sound earlier).present
  rw [performAll_append]
  exact before.performAll (performAll_sound sound earlier) later id (.inl used)

theorem identify_unnamed {members : Members} (unnamed : members.get? Mutation.identity = none) :
    collection.identify (.object members) = .ok (collection.nextId,
      members.put Mutation.identity (.number (Number.ofWord collection.nextId))) := by
  simp only [identify, unnamed]

/-- A document without an identity is stored under the next one, unless that is in use. -/
theorem insert_unnamed (sound : collection.Sound) {members : Members}
    (unnamed : members.get? Mutation.identity = none) :
    (collection.nextId ∈ collection.ids ∧ collection.insert (.object members) =
      (.error (.invalidDocument (.duplicateIdentity collection.nextId)), collection)) ∨
    ∃ after, collection.nextId ∉ collection.ids ∧
      collection.insert (.object members) = (.ok collection.nextId, after) ∧
      after.get? collection.nextId = some (.object
        (members.put Mutation.identity (.number (Number.ofWord collection.nextId)))) := by
  have stated : collection.identify (.object members) = _ := identify_unnamed unnamed
  obtain ⟨fault, unfit, -⟩ | ⟨id, members', stated', taken, ran⟩ |
    ⟨id, members', after, stated', free, ran, -, -, documents, -⟩ :=
    insert_spec sound (.object members)
  · rw [stated] at unfit
    cases unfit
  · obtain ⟨rfl, rfl⟩ := Prod.mk.inj (Except.ok.inj (stated.symm.trans stated'))
    exact .inl ⟨taken, ran⟩
  · obtain ⟨rfl, rfl⟩ := Prod.mk.inj (Except.ok.inj (stated.symm.trans stated'))
    refine .inr ⟨after, free, ran, ?_⟩
    rw [get?, Store.document?, documents, Table.get?_put, if_pos rfl]

/-- After any calls, a document without an identity is stored unless the last identity is in use,
and then it is refused as a second document of that identity. The identity that it gets is above
every one that was in use after any of the calls, except that the last identity may come again. -/
theorem assigned_identities_ascend {config : Config} {name : String} {start : Collection}
    (valid : config.validate = .ok ()) (created : Collection.create name config = .ok start)
    (calls : List Call) {members : Members} (unnamed : members.get? Mutation.identity = none) :
    let collection := start.performAll calls
    (lastIdentity ∈ collection.ids → collection.insert (.object members) =
      (.error (.invalidDocument (.duplicateIdentity lastIdentity)), collection)) ∧
    (lastIdentity ∉ collection.ids → ∃ id after,
      collection.insert (.object members) = (.ok id, after) ∧
      after.get? id = some (.object
        (members.put Mutation.identity (.number (Number.ofWord id)))) ∧
      ∀ earlier, earlier <+: calls → ∀ used ∈ (start.performAll earlier).ids,
        used < id ∨ used = lastIdentity ∧ id = lastIdentity) := by
  intro collection
  have sound := sound_create valid created
  have sound' : collection.Sound := performAll_sound sound calls
  have empty : start.ids = [] := by rw [(create_spec created).1]; rfl
  have ascend : ∀ earlier, earlier <+: calls → ∀ used ∈ (start.performAll earlier).ids,
      used < collection.nextId ∨ used = lastIdentity ∧ collection.nextId = lastIdentity :=
    fun earlier sooner used there => lt_or_last (successor_le_nextId sound empty sooner there)
  have present : ∀ used ∈ collection.ids,
      used < collection.nextId ∨ used = lastIdentity ∧ collection.nextId = lastIdentity :=
    ascend calls (List.prefix_refl calls)
  obtain ⟨taken, ran⟩ | ⟨after, free, ran, there⟩ := insert_unnamed sound' unnamed
  · -- The next identity is in use, so it is the last.
    have last : collection.nextId = lastIdentity :=
      (present _ taken).elim (fun below => absurd below (UInt64.lt_irrefl _)) And.right
    rw [last] at taken ran
    exact ⟨fun _ => ran, fun absent => absurd taken absent⟩
  · refine ⟨fun used => ?_, fun _ => ⟨collection.nextId, after, ran, there, ascend⟩⟩
    have last : collection.nextId = lastIdentity := by
      obtain above | ⟨-, last⟩ := present _ used
      · exact absurd above (UInt64.not_lt.2 (le_lastIdentity _))
      · exact last
    exact absurd (last ▸ used) free

def named (id : DocId) : Json :=
  .object [("_id", .number (Number.ofWord id))]

/-- After a document of identity 7 has come and gone, the next one gets an identity above 7. -/
theorem assigned_above_removed : ∃ start : Collection,
    Collection.create "people" Config.default = .ok start ∧
    (start.performAll [.insert (named 7)]).ids = [7] ∧
    lastIdentity ∉ (start.performAll [.insert (named 7), .remove 7]).ids ∧
    ∃ id after, (start.performAll [.insert (named 7), .remove 7]).insert (.object []) =
      (.ok id, after) ∧ 7 < id := by
  have created : Collection.create "people" Config.default =
      .ok ⟨Store.empty "people", Config.default, 1, some ⟨Recent.empty 256, 0, 0⟩⟩ := rfl
  have unnamed : Members.get? Mutation.identity [] = none := rfl
  obtain ⟨-, stored⟩ := assigned_identities_ascend (by rfl) created
    [.insert (named 7), .remove 7] unnamed
  have free : lastIdentity ∉ (performAll ⟨Store.empty "people", Config.default, 1,
      some ⟨Recent.empty 256, 0, 0⟩⟩ [.insert (named 7), .remove 7]).ids := by
    decide +kernel
  obtain ⟨id, after, ran, -, ascend⟩ := stored free
  have above := ascend [.insert (named 7)] ⟨[.remove 7], rfl⟩ 7 (by decide +kernel)
  exact ⟨_, created, by decide +kernel, free, id, after, ran,
    above.resolve_right fun last => absurd last.1 (by decide)⟩

/-- While the last identity is in use a document without one is refused, and when it is free again
it is given a second time. -/
theorem last_identity_comes_again : ∃ start : Collection,
    Collection.create "people" Config.default = .ok start ∧
    (start.performAll [.insert (named lastIdentity)]).ids = [lastIdentity] ∧
    ((start.performAll [.insert (named lastIdentity)]).insert (.object [])).1 =
      .error (.invalidDocument (.duplicateIdentity lastIdentity)) ∧
    ∃ after, (start.performAll [.insert (named lastIdentity), .remove lastIdentity]).insert
      (.object []) = (.ok lastIdentity, after) :=
  ⟨_, rfl, by decide +kernel, by rfl, _, by rfl⟩

end Collection
end Docstore
