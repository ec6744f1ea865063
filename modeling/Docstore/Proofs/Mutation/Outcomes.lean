import Docstore.Proofs.Json.Walks
import Docstore.Proofs.Number.Integers
import Docstore.Update

set_option autoImplicit false

namespace Docstore

namespace Number

theorem isFinite_toBinary64 (n : Number) : n.toBinary64.isFinite = true := by
  cases n with
  | int value lower upper => exact Binary64.isFinite_ofInt (by omega)
  | float value finite => exact finite

end Number

namespace Mutation

variable {mutation : Mutation} {upsert : Bool} {doc : Json}

theorem sum_zero (n : Number) : ∃ total, sum .zero n = .ok total := by
  have zero : Number.zero.signed? = some 0 := rfl
  cases count : n.signed? with
  | some k =>
      have range : -0x8000000000000000 ≤ 0 + k ∧ 0 + k < 0x8000000000000000 := by
        cases n with
        | int value lower upper =>
            simp only [Number.signed?, Option.ite_none_right_eq_some, Option.some.injEq] at count
            omega
        | float value finite => cases count
      have word : -0x8000000000000000 ≤ 0 + k ∧ 0 + k < 0x10000000000000000 := by omega
      simp only [sum, zero, count, if_pos range, Number.ofInt?, dif_pos word]
      exact ⟨_, rfl⟩
  | none =>
      have finite : (Number.zero.toBinary64.add n.toBinary64).isFinite = true :=
        Binary64.isFinite_zero_add n.isFinite_toBinary64
      simp only [sum, zero, count, Number.ofFloat?, dif_pos finite]
      exact ⟨_, rfl⟩

/-- On new members no mutation that creates fails. -/
theorem editMembers_new (creates : mutation.op.creates = true) (checked : mutation.check = .ok ()) :
    (mutation.editMembers []).1 = .ok () := by
  obtain ⟨op, path, operand⟩ := mutation
  cases op with
  | set => rfl
  | push => rfl
  | pushAll => rfl
  | inc =>
      unfold check at checked
      split at checked
      · cases checked
      · cases operand with
        | number n =>
            obtain ⟨total, added⟩ := sum_zero n
            have value : editValue ⟨.inc, path, .number n⟩ none = .ok (some (.number total)) := by
              simp only [editValue, Option.getD_none, increment, added]
              rfl
            have absent : Members.get? (Path.leaf path) [] = none := rfl
            simp only [editMembers, absent, value]
        | _ => simp [Json.number?] at checked
  | _ => cases creates

theorem editMembers_failed {members : Members} {fault : ExecutionFault}
    (failed : (mutation.editMembers members).1 = .error fault) :
    (mutation.editMembers members).2 = members := by
  unfold editMembers at failed ⊢
  cases edited : mutation.editValue (Members.get? (Path.leaf mutation.path) members) with
  | error other => simp only [edited]
  | ok value =>
      simp only [edited] at failed
      cases value with
      | none => cases failed
      | some value => cases failed

theorem apply_refused {fault : ExecutionFault} (refused : mutation.check = .error fault) :
    mutation.apply upsert doc = (.error fault, doc) := by
  simp only [apply, refused]

theorem apply_checked (checked : mutation.check = .ok ()) : mutation.apply upsert doc =
    (((doc.container? (upsert && mutation.op.creates) (Path.walk mutation.path)).map
        fun members => (mutation.editMembers members).1).getD (.ok ()),
      (doc.atContainer (upsert && mutation.op.creates) mutation.editMembers
        (Path.walk mutation.path)).2) := by
  simp only [apply, checked, Json.atContainer_result]

/-- A mutation that fails leaves its document as it was. -/
theorem apply_failed (ordered : doc.Ordered) {fault : ExecutionFault}
    (failed : (mutation.apply upsert doc).1 = .error fault) :
    (mutation.apply upsert doc).2 = doc := by
  cases checked : mutation.check with
  | error other => rw [apply_refused checked]
  | ok _ =>
      rw [apply_checked checked] at failed ⊢
      have gave : (doc.atContainer (upsert && mutation.op.creates) mutation.editMembers
          (Path.walk mutation.path)).1 = some (.error fault) := by
        rw [Json.atContainer_result]
        cases reached : doc.container? (upsert && mutation.op.creates)
            (Path.walk mutation.path) with
        | none => simp [reached] at failed
        | some members => simpa [reached] using failed
      apply Json.atContainer_unchanged _ _ ordered gave
      · intro members failed
        exact editMembers_failed failed
      · intro creates same
        rw [editMembers_new (Bool.and_eq_true_iff.1 creates).2 checked] at same
        cases same

theorem editItems_ordered {op : MutationOperator} {operand : Json} {items : List Json}
    (fit : operand.Ordered) (ordered : ∀ item ∈ items, item.Ordered) :
    ∀ item ∈ editItems op operand items, item.Ordered := by
  unfold editItems
  split
  · intro item there
    obtain there | there := List.mem_append.1 there
    · exact ordered item there
    · exact Json.orderedItems_iff.1 fit item there
  · rw [List.forall_mem_append, List.forall_mem_singleton]
    exact ⟨ordered, fit⟩
  · rw [List.forall_mem_append, List.forall_mem_singleton]
    exact ⟨ordered, fit⟩
  · intro item there
    exact ordered item (List.mem_of_mem_filter there)
  · intro item there
    exact ordered item (List.mem_of_mem_filter there)
  · intro item there
    split at there
    · exact ordered item (List.mem_of_mem_tail there)
    · exact ordered item (List.dropLast_subset items there)
  · exact ordered

/-- A new value is the operand, a sum, or an array with its items edited. -/
theorem editValue_cases {present : Option Json} {value : Json}
    (edited : mutation.editValue present = .ok (some value)) :
    value = mutation.operand ∨ (∃ n, value = .number n) ∨
      ∃ items, present.getD (.array []) = .array items ∧
        value = .array (editItems mutation.op mutation.operand items) := by
  obtain ⟨op, path, operand⟩ := mutation
  cases op with
  | set => exact .inl (Option.some.inj (Except.ok.inj edited)).symm
  | unset => cases edited
  | inc =>
      right
      left
      cases target : present.getD (.number .zero) with
      | number a =>
          cases operand with
          | number b =>
              cases added : sum a b with
              | error fault => simp [editValue, target, increment, added, Except.map] at edited
              | ok total =>
                  simp only [editValue, target, increment, added, Except.map, Except.ok.injEq,
                    Option.some.injEq] at edited
                  exact ⟨total, edited.symm⟩
          | _ => simp [editValue, target, increment, Except.map] at edited
      | _ => simp [editValue, target, increment, Except.map] at edited
  | push | pushAll =>
      right
      right
      cases target : present.getD (.array []) with
      | array items =>
          simp only [editValue, target, Except.ok.injEq, Option.some.injEq] at edited
          exact ⟨items, rfl, edited.symm⟩
      | _ => simp [editValue, target] at edited
  | pull | pullAll | pop =>
      right
      right
      cases present with
      | none => cases edited
      | some found =>
          cases found with
          | array items => exact ⟨items, rfl, (Option.some.inj (Except.ok.inj edited)).symm⟩
          | _ => cases edited

theorem editValue_ordered (fit : mutation.operand.Ordered) {present : Option Json} {value : Json}
    (ordered : (present.getD (.array [])).Ordered)
    (edited : mutation.editValue present = .ok (some value)) : value.Ordered := by
  obtain rfl | ⟨n, rfl⟩ | ⟨items, target, rfl⟩ := editValue_cases edited
  · exact fit
  · trivial
  · rw [target] at ordered
    apply Json.orderedItems_iff.2
    exact editItems_ordered fit (Json.orderedItems_iff.1 ordered)

/-- Mutations with operands in order keep a document in order. -/
theorem apply_ordered (upsert : Bool) (fit : mutation.operand.Ordered) (ordered : doc.Ordered) :
    (mutation.apply upsert doc).2.Ordered := by
  cases checked : mutation.check with
  | error fault =>
      rw [apply_refused checked]
      exact ordered
  | ok _ =>
      rw [apply_checked checked]
      apply Json.atContainer_ordered _ ordered
      intro members ordered
      unfold editMembers
      cases edited : mutation.editValue (Members.get? (Path.leaf mutation.path) members) with
      | error fault =>
          simp only [edited]
          exact ordered
      | ok value =>
          cases value with
          | none =>
              simp only [edited]
              exact Json.ordered_erase ordered _
          | some value =>
              simp only [edited]
              apply Json.ordered_put ordered
              apply editValue_ordered fit _ edited
              cases found : Members.get? (Path.leaf mutation.path) members with
              | none => trivial
              | some present =>
                  exact Json.orderedMembers_iff.1 ordered.2 _ (Members.mem_of_get? found)

end Mutation

end Docstore
