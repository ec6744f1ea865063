import Mathlib
import Docstore.Number.Decimal

set_option autoImplicit false

namespace Docstore

open Decimal (Interval)

namespace Binary64

variable {x y : Binary64}

theorem units_eq (x : Binary64) : x.units = x.significand * 2 ^ x.scale := by
  rw [units, Nat.shiftLeft_eq]

theorem significand_lt (x : Binary64) : x.significand < 2 * leadingBit := by
  unfold significand leadingBit
  split
  · omega
  · omega

/-- The significand and the scale of the next double. -/
theorem next_cases (next : y.magnitude = x.magnitude + 1) :
    (y.significand = x.significand + 1 ∧ y.scale = x.scale ∧
      (y.significand = leadingBit → y.scale = 0)) ∨
    (x.significand + 1 = 2 * leadingBit ∧ y.significand = leadingBit ∧
      y.scale = x.scale + 1) := by
  unfold significand scale leadingBit
  rw [next]
  by_cases below : x.magnitude + 1 < 0x10000000000000
  · have before : x.magnitude < 0x10000000000000 := by omega
    rw [if_pos before, if_pos below]
    left
    omega
  · rw [if_neg below]
    by_cases before : x.magnitude < 0x10000000000000
    · rw [if_pos before]
      left
      omega
    · rw [if_neg before]
      by_cases carry : (x.magnitude + 1) % 0x10000000000000 = 0
      · right
        omega
      · left
        omega

theorem units_next (next : y.magnitude = x.magnitude + 1) : y.units = x.units + 2 ^ x.scale := by
  rw [units_eq, units_eq]
  obtain ⟨significand, scale, -⟩ | ⟨last, first, scale⟩ := next_cases next
  · rw [significand, scale]
    ring
  · have top : x.significand = 2 * leadingBit - 1 := by omega
    rw [top, first, scale, pow_succ]
    unfold leadingBit
    omega

theorem units_lt_of_magnitude (below : x.magnitude < y.magnitude) : x.units < y.units := by
  obtain ⟨gap, far⟩ : ∃ gap, y.magnitude = x.magnitude + gap + 1 :=
    ⟨y.magnitude - x.magnitude - 1, by omega⟩
  induction gap generalizing y with
  | zero =>
      have step := units_next (x := x) (y := y) far
      have positive : 0 < 2 ^ x.scale := by positivity
      omega
  | succ gap ih =>
      have fits := y.le_infinity
      have before : x.units < units ⟨false, x.magnitude + gap + 1, by omega⟩ :=
        ih (by simp only; omega) rfl
      have step : y.units = units ⟨false, x.magnitude + gap + 1, by omega⟩ + _ :=
        units_next (by simp only; omega)
      exact before.trans_le (step ▸ Nat.le_add_right _ _)

theorem units_lt_iff : x.units < y.units ↔ x.magnitude < y.magnitude := by
  refine ⟨fun below => ?_, units_lt_of_magnitude⟩
  by_contra above
  rcases Nat.lt_or_eq_of_le (Nat.le_of_not_lt above) with behind | same
  · have := units_lt_of_magnitude behind
    omega
  · have same : x.units = y.units := by
      unfold units significand scale
      rw [same]
    omega

theorem units_eq_iff : x.units = y.units ↔ x.magnitude = y.magnitude := by
  have below : x.units < y.units ↔ x.magnitude < y.magnitude := units_lt_iff
  have above : y.units < x.units ↔ y.magnitude < x.magnitude := units_lt_iff
  omega

theorem units_eq_zero_iff : x.units = 0 ↔ x.magnitude = 0 := by
  have zero : Binary64.zero.units = 0 := rfl
  rw [← zero, units_eq_iff]
  rfl

/-- The distance from a double down to the end of its interval, in quarter steps. -/
def gapBelow (x : Binary64) : Nat :=
  if x.significand = leadingBit ∧ 0 < x.scale then 2 ^ x.scale else 2 * 2 ^ x.scale

theorem around_eq (x : Binary64) :
    Interval.around x = ⟨4 * x.units - x.gapBelow, 4 * x.units + 2 * 2 ^ x.scale,
      x.significand % 2 == 0⟩ := by
  simp only [Interval.around, gapBelow, Nat.one_shiftLeft]

theorem gapBelow_pos (x : Binary64) : 0 < x.gapBelow := by
  unfold gapBelow
  split
  · positivity
  · positivity

/-- An interval ends where the next one begins, and only one of them has that end. -/
theorem around_next (next : y.magnitude = x.magnitude + 1) :
    (Interval.around x).high = (Interval.around y).low ∧
      ((Interval.around x).closed = true → (Interval.around y).closed = false) := by
  rw [around_eq, around_eq]
  have step := units_next next
  obtain ⟨significand, scale, plain⟩ | ⟨last, first, scale⟩ := next_cases next
  · have gap : y.gapBelow = 2 * 2 ^ x.scale := by
      rw [gapBelow, if_neg, scale]
      rintro ⟨leading, positive⟩
      have := plain leading
      omega
    refine ⟨by simp only [gap]; omega, fun even => ?_⟩
    simp only [beq_iff_eq, beq_eq_false_iff_ne] at even ⊢
    omega
  · have gap : y.gapBelow = 2 * 2 ^ x.scale := by
      rw [gapBelow, if_pos ⟨first, by omega⟩, scale, pow_succ, mul_comm]
    refine ⟨by simp only [gap]; omega, fun even => ?_⟩
    have odd : x.significand = 2 * leadingBit - 1 := by omega
    simp only [beq_iff_eq, odd] at even
    exact absurd even (by decide)

theorem low_lt_high (x : Binary64) : (Interval.around x).low < (Interval.around x).high := by
  rw [around_eq]
  have positive : 0 < 2 ^ x.scale := by positivity
  simp only
  omega

/-- Intervals of different doubles have at most an end in common, which at most one of them has. -/
theorem around_of_lt (below : x.magnitude < y.magnitude) :
    (Interval.around x).high ≤ (Interval.around y).low ∧
      ((Interval.around x).high = (Interval.around y).low → (Interval.around x).closed = true →
        (Interval.around y).closed = false) := by
  obtain ⟨gap, far⟩ : ∃ gap, y.magnitude = x.magnitude + gap + 1 :=
    ⟨y.magnitude - x.magnitude - 1, by omega⟩
  induction gap generalizing y with
  | zero =>
      obtain ⟨meet, parity⟩ := around_next far
      exact ⟨Nat.le_of_eq meet, fun _ => parity⟩
  | succ gap ih =>
      have fits := y.le_infinity
      have before : (Interval.around x).high ≤
          (Interval.around ⟨false, x.magnitude + gap + 1, by omega⟩).low :=
        (ih (by simp only; omega) rfl).1
      have meet : (Interval.around ⟨false, x.magnitude + gap + 1, by omega⟩).high =
          (Interval.around y).low := (around_next (by simp only; omega)).1
      have proper := low_lt_high ⟨false, x.magnitude + gap + 1, by omega⟩
      exact ⟨by omega, fun same => by omega⟩

end Binary64

def Decimal.Interval.Contains (i : Interval) (q : ℚ) : Prop :=
  if i.closed then i.low ≤ q ∧ q ≤ i.high else i.low < q ∧ q < i.high

theorem Decimal.Interval.Contains.bounds {i : Interval} {q : ℚ} (inside : i.Contains q) :
    i.low ≤ q ∧ q ≤ i.high := by
  unfold Contains at inside
  split at inside
  · exact inside
  · exact ⟨inside.1.le, inside.2.le⟩

namespace Binary64

variable {x y : Binary64} {v : ℚ}

def Rounds (x : Binary64) (v : ℚ) : Prop :=
  (Interval.around x).Contains (v * (4 * unitsInOne))

theorem rounds_self (x : Binary64) : x.Rounds (x.units / unitsInOne) := by
  have positive : (0 : ℚ) < unitsInOne := by norm_num [unitsInOne]
  have scaled : (x.units / unitsInOne : ℚ) * (4 * unitsInOne) = (4 * x.units : ℕ) := by
    push_cast
    field_simp
  rw [Rounds, scaled, around_eq, Interval.Contains]
  have gap := x.gapBelow_pos
  have up : 0 < 2 ^ x.scale := by positivity
  by_cases even : x.significand % 2 = 0
  · rw [if_pos (by simpa using even)]
    exact ⟨by exact_mod_cast Nat.sub_le _ _, by exact_mod_cast Nat.le_add_right _ _⟩
  · rw [if_neg (by simpa using even)]
    have nonzero : 0 < x.significand := by omega
    have units : 0 < x.units := by
      rw [units_eq]
      positivity
    refine ⟨by exact_mod_cast Nat.sub_lt (by omega) gap, ?_⟩
    exact_mod_cast Nat.lt_add_of_pos_right (by omega)

theorem magnitude_eq_of_rounds (first : x.Rounds v) (second : y.Rounds v) :
    x.magnitude = y.magnitude := by
  suffices never : ∀ a b : Binary64, a.Rounds v → b.Rounds v → ¬ a.magnitude < b.magnitude by
    have := never x y first second
    have := never y x second first
    omega
  intro a b inA inB below
  obtain ⟨apart, parity⟩ := around_of_lt below
  have apart : ((Interval.around a).high : ℚ) ≤ (Interval.around b).low := by exact_mod_cast apart
  have upper := inA.bounds.2
  have lower := inB.bounds.1
  have meet : (Interval.around a).high = (Interval.around b).low := by
    have : ((Interval.around a).high : ℚ) = (Interval.around b).low := by linarith
    exact_mod_cast this
  unfold Rounds Interval.Contains at inA inB
  by_cases closed : (Interval.around a).closed = true
  · rw [if_neg (by simp [parity meet closed])] at inB
    linarith [inB.1]
  · rw [if_neg closed] at inA
    linarith [inA.2]

end Binary64
end Docstore
