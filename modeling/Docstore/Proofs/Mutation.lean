import Docstore.Mutation
import Docstore.Proofs.Json.Walks

set_option autoImplicit false

namespace Docstore

namespace Path

theorem splitDots_ne_nil (chars : List Char) : splitDots chars ≠ [] := by
  induction chars with
  | nil => exact List.cons_ne_nil _ _
  | cons c rest ih =>
      by_cases dot : c = '.'
      · simp [splitDots, dot]
      · cases pieces : splitDots rest with
        | nil => simp [splitDots, dot, pieces]
        | cons piece pieces' => simp [splitDots, dot, pieces]

theorem eq_of_splitDots {chars piece : List Char} (one : splitDots chars = [piece]) :
    piece = chars := by
  induction chars generalizing piece with
  | nil => simpa [splitDots, eq_comm] using one
  | cons c rest ih =>
      by_cases dot : c = '.'
      · have nonempty := splitDots_ne_nil rest
        simp [splitDots, dot, nonempty] at one
      · cases pieces : splitDots rest with
        | nil => exact absurd pieces (splitDots_ne_nil rest)
        | cons first others =>
            simp only [splitDots, if_neg dot, pieces, List.cons.injEq] at one
            obtain ⟨rfl, rfl⟩ := one
            rw [ih pieces]

theorem leaf_of_walk_nil {path : String} (short : walk path = []) : leaf path = path := by
  unfold walk segments at short
  unfold leaf segments
  obtain ⟨first, others, pieces⟩ :=
    List.exists_cons_of_ne_nil (splitDots_ne_nil path.toList)
  rw [pieces] at short ⊢
  obtain rfl : others = [] := by
    cases others with
    | nil => rfl
    | cons second rest => simp at short
  rw [eq_of_splitDots pieces]
  simp

end Path

namespace Members

theorem get?_erase_of_ne {key other : String} (distinct : key ≠ other) (members : Members) :
    (members.erase key).get? other = members.get? other := by
  induction members with
  | nil => rfl
  | cons member rest ih =>
      obtain ⟨k, v⟩ := member
      by_cases here : k = key
      · have elsewhere : k ≠ other := fun same => distinct (here.symm.trans same)
        simp only [erase, if_pos here, get?, if_neg elsewhere]
      · simp only [erase, if_neg here, get?, ih]

end Members

namespace Json

theorem atContainer_number {α : Type} (create : Bool) (edit : Members → α × Members)
    (walk : List String) (n : Number) :
    atContainer create edit walk (.number n) = (none, .number n) := by
  cases walk with
  | nil => rfl
  | cons segment rest => exact atContainer_stuck rfl rest

/-- A member that is a number stays, unless the edit itself changes it. -/
theorem atContainer_keeps {α : Type} (create : Bool) {edit : Members → α × Members}
    {walk : List String} {key : String} {n : Number} {members : Members}
    (there : members.get? key = some (.number n))
    (keeps : walk = [] → (edit members).2.get? key = some (.number n)) :
    ∃ members' : Members,
      (atContainer create edit walk (.object members)).2 = .object members' ∧
      Members.get? key members' = some (.number n) := by
  cases walk with
  | nil => exact ⟨_, rfl, keeps rfl⟩
  | cons segment rest =>
      cases step : (object members).onward? create segment with
      | none => exact ⟨members, by rw [atContainer_stuck step], there⟩
      | some child =>
          rw [atContainer_step step]
          refine ⟨Members.put segment (atContainer create edit rest child).2 members, rfl, ?_⟩
          rw [Members.get?_put]
          by_cases same : segment = key
          · have number : (object members).onward? create segment = some (.number n) :=
              onward?_of_child (same ▸ there)
            obtain rfl := Option.some.inj (step.symm.trans number)
            rw [if_pos same, atContainer_number]
          · rw [if_neg same, there]

end Json

namespace Mutation

theorem editMembers_keeps {mutation : Mutation} {key : String} {members : Members}
    (distinct : Path.leaf mutation.path ≠ key) :
    (mutation.editMembers members).2.get? key = members.get? key := by
  unfold editMembers
  cases edited : mutation.editValue (Members.get? (Path.leaf mutation.path) members) with
  | error fault => simp only [edited]
  | ok value =>
      cases value with
      | none => simp only [edited, Members.get?_erase_of_ne distinct]
      | some value => simp only [edited, Members.get?_put, if_neg distinct]

/-- No mutation changes the identity of a document, whether it fails or not. -/
theorem apply_keeps_identity (mutation : Mutation) (upsert : Bool) {members : Members} {n : Number}
    (there : members.get? identity = some (.number n)) :
    ∃ members' : Members, (mutation.apply upsert (.object members)).2 = .object members' ∧
      Members.get? identity members' = some (.number n) := by
  unfold apply
  cases checked : mutation.check with
  | error fault => exact ⟨members, rfl, there⟩
  | ok _ =>
      refine Json.atContainer_keeps _ there fun short => ?_
      have other : mutation.path ≠ identity := by
        intro same
        simp [check, same] at checked
      rw [editMembers_keeps, there]
      rw [Path.leaf_of_walk_nil short]
      exact other

end Mutation

end Docstore
