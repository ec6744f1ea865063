import Docstore.Proofs.PageTree.Calls

set_option autoImplicit false

namespace Docstore

namespace KeyRange

variable {K : Type} [Ord K]

/-- A key between the bounds that are set. A bound lies in the range if it is included. -/
def Contains (range : KeyRange K) (key : K) : Prop :=
  (∀ min ∈ range.min, compare min key = .lt ∨ range.includeMin = true ∧ key = min) ∧
    ∀ max ∈ range.max, compare key max = .lt ∨ range.includeMax = true ∧ key = max

instance [DecidableEq K] (range : KeyRange K) : DecidablePred range.Contains :=
  fun _ => inferInstanceAs (Decidable (_ ∧ _))

variable [Std.TransOrd K] [Std.LawfulEqOrd K] {range : KeyRange K} {key : K}

theorem not_isBelow_iff : range.isBelow key = false ↔
    ∀ min ∈ range.min, compare min key = .lt ∨ range.includeMin = true ∧ key = min := by
  unfold isBelow
  cases range.min with
  | none => simp
  | some min =>
      simp only [Option.mem_def, Option.some.injEq, forall_eq']
      rw [← Std.OrientedCmp.gt_iff_lt]
      cases order : compare key min with
      | lt =>
          have apart : key ≠ min := fun same => by simp [same] at order
          simp [apart]
      | eq => simp [Std.LawfulEqOrd.eq_of_compare order]
      | gt => simp

omit [Std.TransOrd K] in
theorem not_isAbove_iff : range.isAbove key = false ↔
    ∀ max ∈ range.max, compare key max = .lt ∨ range.includeMax = true ∧ key = max := by
  unfold isAbove
  cases range.max with
  | none => simp
  | some max =>
      simp only [Option.mem_def, Option.some.injEq, forall_eq']
      cases order : compare key max with
      | lt => simp
      | eq => simp [Std.LawfulEqOrd.eq_of_compare order]
      | gt =>
          have apart : key ≠ max := fun same => by simp [same] at order
          simp [apart]

theorem admits_iff : range.admits key = true ↔ range.Contains key := by
  rw [admits, Bool.and_eq_true, Bool.not_eq_true', Bool.not_eq_true', not_isBelow_iff,
    not_isAbove_iff, Contains]

end KeyRange

namespace PageTree

variable {K V : Type} [Ord K] [DecidableEq K] [Std.TransOrd K] [Std.LawfulEqOrd K]

/-- Whatever calls have shaped a tree, a range has the entries between its bounds, in the order in
which the tree has them, and none of its readings fails. -/
theorem ranges_select_entries {order threshold capacity : Nat} {fresh : PageTree K V}
    (created : create order threshold capacity = .ok fresh) (calls : List (Call K V)) :
    ∃ answers tree entries, performAll fresh calls = .ok (answers, tree) ∧
      tree.toEntries = .ok entries ∧
      ∀ range : KeyRange K,
        tree.rangeEntries range = .ok (entries.filter fun e => range.Contains e.1) ∧
        tree.rangeValues range =
          .ok ((entries.filter fun e => range.Contains e.1).map Prod.snd) := by
  obtain ⟨tree, span, ran, sound, -⟩ :=
    performAll_spec (sound_create created) (fun _ => none) (fun _ => rfl) calls
  refine ⟨_, tree, span.entries, ran, toEntries_spec sound, fun range => ?_⟩
  have selected : tree.rangeEntries range =
      .ok (span.entries.filter fun e => range.Contains e.1) := by
    rw [rangeEntries_spec sound range]
    congr 2
    funext e
    exact Bool.eq_iff_iff.2 (by rw [KeyRange.admits_iff, decide_eq_true_iff])
  refine ⟨selected, ?_⟩
  rw [rangeValues, selected]
  rfl

/-- Two of three keys lie behind a lower bound that is not among them, the second of them at the
upper bound; and no key lies in a range whose lower bound is above the upper one. -/
theorem two_keys_selected :
    let calls : List (Call Nat Nat) :=
      [.insert 4 40, .insert 1 10, .insert 6 60, .insert 9 90, .remove 9]
    ∃ answers tree, performAll (empty 3 1 (Recent.empty 1)) calls = .ok (answers, tree) ∧
      tree.rangeEntries ⟨some 2, some 6, false, true⟩ = .ok [(4, 40), (6, 60)] ∧
      tree.rangeValues ⟨some 2, some 6, false, true⟩ = .ok [40, 60] ∧
      tree.rangeEntries ⟨some 6, some 2, true, true⟩ = .ok [] := by
  intro calls
  obtain ⟨answers, tree, entries, ran, all, ranges⟩ := ranges_select_entries
    (show create 3 1 1 = .ok (empty 3 1 (Recent.empty 1)) from rfl) calls
  have listed : (performAll (empty 3 1 (Recent.empty 1)) calls >>= fun after => after.2.toEntries) =
      .ok [(1, 10), (4, 40), (6, 60)] := rfl
  rw [ran, ok_bind, all] at listed
  obtain rfl := Except.ok.inj listed
  exact ⟨answers, tree, ran, (ranges _).1, (ranges _).2, (ranges _).1⟩

end PageTree
end Docstore
