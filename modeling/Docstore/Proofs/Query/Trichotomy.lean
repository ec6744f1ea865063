import Docstore.Proofs.Index.Bounds
import Docstore.Proofs.Number.Order

set_option autoImplicit false

namespace Docstore

theorem Binary64.sameValue_iff_eq_or {x y : Binary64} :
    x.sameValue y = true ↔ x = y ∨ ZerosApart x y := by
  rw [sameValue, Bool.or_eq_true, Bool.and_eq_true, beq_iff_eq, ZerosApart]
  by_cases same : x = y
  · simp only [same, or_true, true_or]
  · simp only [same, or_false, false_or, ne_eq, not_false_eq_true, and_true]

namespace Number

variable {n m : Number}

/-- Different integers of one nearest double, not both of 64 signed bits. -/
def Merges (n m : Number) : Prop :=
  n.isInteger = true ∧ m.isInteger = true ∧ (n.signed? = none ∨ m.signed? = none) ∧ n ≠ m ∧
    n.toBinary64 = m.toBinary64

instance (n m : Number) : Decidable (n.Merges m) :=
  inferInstanceAs (Decidable (_ ∧ _))

theorem equal_integers (integer : n.isInteger = true) (integer' : m.isInteger = true) :
    n.equal m = true ↔ n = m := by
  obtain ⟨a, lower, upper, rfl⟩ := isInteger_iff.1 integer
  obtain ⟨b, lower', upper', rfl⟩ := isInteger_iff.1 integer'
  rw [equal, beq_iff_eq, int.injEq]

theorem of_double (double : ¬ (n.isInteger = true ∧ m.isInteger = true)) :
    n.equal m = n.toBinary64.sameValue m.toBinary64 ∧ (n.signed? = none ∨ m.signed? = none) := by
  cases n with
  | float x finite => exact ⟨by cases m <;> rfl, .inl rfl⟩
  | int a lower upper =>
      cases m with
      | float y finite => exact ⟨rfl, .inr rfl⟩
      | int b lower' upper' => exact absurd ⟨rfl, rfl⟩ double

theorem equal_iff_compare_of_integers (integer : n.isInteger = true)
    (integer' : m.isInteger = true) : (n.equal m = true ↔ n.compare m = .eq) ↔ ¬ n.Merges m := by
  rw [equal_integers integer integer']
  by_cases unsigned : n.signed? = none ∨ m.signed? = none
  · rw [compare_eq_of_unsigned unsigned]
    constructor
    · rintro agree ⟨-, -, -, distinct, same⟩
      exact distinct (agree.2 same)
    · intro plain
      refine ⟨congrArg toBinary64, fun same => ?_⟩
      by_contra distinct
      exact plain ⟨integer, integer', unsigned, distinct, same⟩
  · refine iff_of_true ?_ fun merges => unsigned merges.2.2.1
    rw [not_or, ← ne_eq, ← ne_eq, Option.ne_none_iff_exists', Option.ne_none_iff_exists']
      at unsigned
    obtain ⟨⟨a, signed⟩, b, signed'⟩ := unsigned
    exact (compare_eq_of_signed signed signed').symm

/-- Numbers are equal just if neither is before the other, with two exceptions. -/
theorem equal_iff_compare_iff :
    (n.equal m = true ↔ n.compare m = .eq) ↔ ¬ (n.ZerosApart m ∨ n.Merges m) := by
  by_cases integers : n.isInteger = true ∧ m.isInteger = true
  · rw [equal_iff_compare_of_integers integers.1 integers.2,
      or_iff_right (not_zerosApart_of_integers integers.1 integers.2)]
  · have parted : ¬ n.Merges m := fun merges => integers ⟨merges.1, merges.2.1⟩
    obtain ⟨alike, unsigned⟩ := of_double integers
    rw [or_iff_left parted, alike, compare_eq_of_unsigned unsigned, Binary64.sameValue_iff_eq_or]
    constructor
    · intro agree apart
      exact apart.2.2 (agree.1 (.inr apart))
    · intro plain
      exact ⟨fun same => same.resolve_right plain, .inl⟩

end Number

namespace Json

variable {value literal : Json}

/-- What an operator says of a value that is there and of a literal. -/
def meets (value : Json) (op : Operator) (literal : Json) : Bool :=
  Clause.evaluate op (some value) (.literal literal)

/-- The value is one of below, equal to and above the literal, and at most or at least the literal
just if it is equal to it or on that side. -/
def Trichotomous (value literal : Json) : Prop :=
  [Operator.lt, .eq, .gt].countP (value.meets · literal) = 1 ∧
    value.meets .lte literal = (value.meets .lt literal || value.meets .eq literal) ∧
    value.meets .gte literal = (value.meets .gt literal || value.meets .eq literal)

/-- Both numbers or both texts. The numbers are neither zeros of different signs nor different
integers of one nearest double. -/
def Orderly : Json → Json → Prop
  | .number n, .number m => ¬ (n.ZerosApart m ∨ n.Merges m)
  | .string _, .string _ => True
  | _, _ => False

/-- Values in an order are trichotomous just if equality is the order of equals. -/
theorem trichotomous_iff_of_compared {order : Ordering}
    (compared : value.compare? literal = some order) :
    Trichotomous value literal ↔ (value.equal literal = true ↔ order = .eq) := by
  have ordered : ∀ orderings,
      Clause.isOrdered orderings value literal = orderings.contains order := by
    intro orderings
    simp only [Clause.isOrdered, compared]
  have below : value.meets .lt literal = [Ordering.lt].contains order := ordered _
  have above : value.meets .gt literal = [Ordering.gt].contains order := ordered _
  have atMost : value.meets .lte literal = [Ordering.lt, .eq].contains order := ordered _
  have atLeast : value.meets .gte literal = [Ordering.gt, .eq].contains order := ordered _
  have alike : value.meets .eq literal = value.equal literal := rfl
  simp only [Trichotomous, List.countP_cons, List.countP_nil, below, above, atMost, atLeast, alike]
  rcases Bool.eq_false_or_eq_true (value.equal literal) with equal | equal
  · cases order <;> simp [equal]
  · cases order <;> simp [equal]

/-- Where nothing is below or above, equality alone does not make up for it. -/
theorem not_trichotomous_of_incomparable (incomparable : value.compare? literal = none) :
    ¬ Trichotomous value literal := by
  have unordered : ∀ orderings, Clause.isOrdered orderings value literal = false := by
    intro orderings
    simp only [Clause.isOrdered, incomparable]
  have below : value.meets .lt literal = false := unordered _
  have above : value.meets .gt literal = false := unordered _
  have atMost : value.meets .lte literal = false := unordered _
  rintro ⟨one, most, -⟩
  rw [atMost, below, Bool.false_or] at most
  simp [below, above, ← most] at one

/-- The operators agree on just the orderly values and literals. -/
theorem trichotomous_iff_orderly (value literal : Json) :
    Trichotomous value literal ↔ Orderly value literal := by
  cases value with
  | number n =>
      cases literal with
      | number m =>
          rw [trichotomous_iff_of_compared rfl, equal]
          exact Number.equal_iff_compare_iff
      | _ => exact iff_of_false (not_trichotomous_of_incomparable rfl) id
  | string s =>
      cases literal with
      | string t =>
          rw [trichotomous_iff_of_compared rfl, equal, beq_iff_eq,
            Std.LawfulEqOrd.compare_eq_iff_eq]
          exact iff_of_true Iff.rfl trivial
      | _ => exact iff_of_false (not_trichotomous_of_incomparable rfl) id
  | _ => exact iff_of_false (not_trichotomous_of_incomparable (by cases literal <;> rfl)) id

/-- Neighbours beyond 64 signed bits are neither equal nor in order, and zero is both equal to the
negative zero and above it. -/
theorem neighbours_neither_zeros_both :
    let power := Json.number (.int 9223372036854775808 (by decide) (by decide))
    let successor := Json.number (.int 9223372036854775809 (by decide) (by decide))
    let negative := Json.number (.float (.signedZero true) rfl)
    power.meets .lt successor = false ∧ power.meets .eq successor = false ∧
      power.meets .gt successor = false ∧ power.meets .lte successor = true ∧
      power.meets .gte successor = true ∧
      (Json.number .zero).meets .eq negative = true ∧
      (Json.number .zero).meets .gt negative = true := by
  decide +kernel

end Json
end Docstore
