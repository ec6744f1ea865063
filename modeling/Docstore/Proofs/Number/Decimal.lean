import Docstore.Proofs.Number.Integers

set_option autoImplicit false

namespace Docstore

open Decimal (Interval)

namespace Decimal

variable {tie : DecimalTie} {x : Binary64} {i : Interval} {d : Decimal} {e : Int}

def value (d : Decimal) : ℚ :=
  d.digits * (10 : ℚ) ^ d.exponent

theorem ten_zpow (e : Int) : (10 : ℚ) ^ e = powerOfTen e.toNat / powerOfTen (-e).toNat := by
  have power : ∀ n : Nat, ((powerOfTen n : ℕ) : ℚ) = 10 ^ n := fun n => by
    rw [show powerOfTen n = 10 ^ n from rfl]
    push_cast
    rfl
  rw [power, power]
  rcases Int.le_total 0 e with positive | negative
  · rw [show (-e).toNat = 0 by omega, pow_zero, div_one, ← zpow_natCast,
      Int.toNat_of_nonneg positive]
  · rw [show e.toNat = 0 by omega, pow_zero, one_div, ← zpow_natCast,
      Int.toNat_of_nonneg (by omega), ← zpow_neg, neg_neg]

theorem powerOfTen_pos (n : Nat) : 0 < powerOfTen n :=
  show 0 < 10 ^ n by positivity

theorem holds_iff {scale : Nat} (positive : 0 < scale) (point : Nat) :
    i.holds scale point = true ↔ i.Contains (point / scale) := by
  have positive : (0 : ℚ) < scale := by exact_mod_cast positive
  unfold Interval.holds Interval.Contains
  split
  · rw [Bool.and_eq_true, decide_eq_true_iff, decide_eq_true_iff, le_div_iff₀ positive,
      div_le_iff₀ positive]
    norm_cast
  · rw [Bool.and_eq_true, decide_eq_true_iff, decide_eq_true_iff, lt_div_iff₀ positive,
      div_lt_iff₀ positive]
    norm_cast

theorem grid_point (k : Nat) (e : Int) :
    ((k * (4 * Binary64.unitsInOne * powerOfTen e.toNat) : ℕ) : ℚ) / powerOfTen (-e).toNat =
      value ⟨k, e⟩ * (4 * Binary64.unitsInOne) := by
  rw [value, ten_zpow]
  push_cast
  ring

/-- What is found on a grid lies in the interval. -/
theorem onGrid_spec (hit : onGrid tie x i e = some d) :
    i.Contains (d.value * (4 * Binary64.unitsInOne)) := by
  have inside : ∀ k, i.holds (powerOfTen (-e).toNat)
      (k * (4 * Binary64.unitsInOne * powerOfTen e.toNat)) = true →
      i.Contains (value ⟨k, e⟩ * (4 * Binary64.unitsInOne)) := fun k holds => by
    rw [← grid_point]
    exact (holds_iff (powerOfTen_pos _) _).1 holds
  dsimp only [onGrid] at hit
  generalize 4 * x.units * powerOfTen (-e).toNat /
    (4 * Binary64.unitsInOne * powerOfTen e.toNat) = lower at hit
  cases low : i.holds (powerOfTen (-e).toNat)
      (lower * (4 * Binary64.unitsInOne * powerOfTen e.toNat)) with
  | false =>
      cases high : i.holds (powerOfTen (-e).toNat)
          ((lower + 1) * (4 * Binary64.unitsInOne * powerOfTen e.toNat)) with
      | false => simp [low, high] at hit
      | true =>
          simp only [low, high, Option.some.injEq] at hit
          exact hit ▸ inside _ high
  | true =>
      cases high : i.holds (powerOfTen (-e).toNat)
          ((lower + 1) * (4 * Binary64.unitsInOne * powerOfTen e.toNat)) with
      | false =>
          simp only [low, high, Option.some.injEq] at hit
          exact hit ▸ inside _ low
      | true =>
          have either : ∀ upper : Bool, i.Contains
              (value ⟨if upper then lower + 1 else lower, e⟩ * (4 * Binary64.unitsInOne)) :=
            fun upper => by
              cases upper with
              | false => exact inside _ low
              | true => exact inside _ high
          simp only [low, high, Option.some.injEq] at hit
          exact hit ▸ either _

/-- The word lies between the neighbouring points of a grid that its quotient gives. -/
theorem quotient_bounds (x : Binary64) (e : Int) {lower : Nat}
    (quotient : 4 * x.units * powerOfTen (-e).toNat /
      (4 * Binary64.unitsInOne * powerOfTen e.toNat) = lower) :
    ((lower * (4 * Binary64.unitsInOne * powerOfTen e.toNat) : ℕ) : ℚ) /
        powerOfTen (-e).toNat ≤ 4 * x.units ∧
      (4 * x.units : ℚ) < (((lower + 1) * (4 * Binary64.unitsInOne * powerOfTen e.toNat) : ℕ) : ℚ) /
        powerOfTen (-e).toNat := by
  have scale : (0 : ℚ) < powerOfTen (-e).toNat := by exact_mod_cast powerOfTen_pos (-e).toNat
  have unit : 0 < 4 * Binary64.unitsInOne * powerOfTen e.toNat :=
    Nat.mul_pos (Nat.mul_pos (by decide) Binary64.unitsInOne_pos) (powerOfTen_pos _)
  rw [div_le_iff₀ scale, lt_div_iff₀ scale, ← quotient]
  constructor
  · exact_mod_cast Nat.div_mul_le_self _ _
  · rw [mul_comm (_ + 1)]
    exact_mod_cast Nat.lt_mul_div_succ _ unit

theorem low_le_high_lt (x : Binary64) :
    ((Interval.around x).low : ℚ) ≤ 4 * x.units ∧ (4 * x.units : ℚ) < (Interval.around x).high := by
  have up : 0 < 2 ^ x.scale := by positivity
  rw [Binary64.around_eq]
  constructor
  · exact_mod_cast Nat.sub_le _ _
  · exact_mod_cast Nat.lt_add_of_pos_right (by omega)

theorem outside_interval {interval : Interval} {q : ℚ} (out : ¬ interval.Contains q) :
    q ≤ interval.low ∨ interval.high ≤ q := by
  by_contra inside
  rw [not_or, not_le, not_le] at inside
  apply out
  unfold Interval.Contains
  split
  · exact ⟨inside.1.le, inside.2.le⟩
  · exact inside

/-- A grid that is finer than the interval is wide has a point in it. -/
theorem onGrid_isSome (fine : (4 * Binary64.unitsInOne : ℚ) * 10 ^ e <
    (Interval.around x).high - (Interval.around x).low) :
    (onGrid tie x (Interval.around x) e).isSome = true := by
  dsimp only [onGrid]
  generalize quotient : 4 * x.units * powerOfTen (-e).toNat /
    (4 * Binary64.unitsInOne * powerOfTen e.toNat) = lower
  cases low : (Interval.around x).holds (powerOfTen (-e).toNat)
      (lower * (4 * Binary64.unitsInOne * powerOfTen e.toNat)) with
  | true => split <;> simp_all
  | false =>
      cases high : (Interval.around x).holds (powerOfTen (-e).toNat)
          ((lower + 1) * (4 * Binary64.unitsInOne * powerOfTen e.toNat)) with
      | true => rfl
      | false =>
          -- Neighbouring points on both sides of the interval would be too far apart.
          exfalso
          rw [← Bool.not_eq_true, holds_iff (powerOfTen_pos _)] at low high
          obtain ⟨before, after⟩ := quotient_bounds x e quotient
          obtain ⟨inner, inner'⟩ := low_le_high_lt x
          have below := (outside_interval low).resolve_right (by linarith)
          have above := (outside_interval high).resolve_left (by linarith)
          rw [grid_point] at below above
          have apart : value ⟨lower + 1, e⟩ = value ⟨lower, e⟩ + 10 ^ e := by
            simp only [value]
            push_cast
            ring
          rw [apart] at above
          linarith

/-- The search finds a point of the interval if one of its grids has one. -/
theorem search_spec (grids : Nat) (e : Int)
    (hit : ∃ j : Nat, j < grids ∧ (onGrid tie x i (e - j)).isSome = true) :
    i.Contains ((search tie x i grids e).value * (4 * Binary64.unitsInOne)) := by
  induction grids generalizing e with
  | zero =>
      obtain ⟨j, impossible, -⟩ := hit
      exact absurd impossible (Nat.not_lt_zero j)
  | succ grids ih =>
      rw [search]
      cases here : onGrid tie x i e with
      | some d => exact onGrid_spec here
      | none =>
          obtain ⟨j, bound, there⟩ := hit
          cases j with
          | zero =>
              rw [Nat.cast_zero, sub_zero, here] at there
              cases there
          | succ j =>
              refine ih (e - 1) ⟨j, by omega, ?_⟩
              rwa [show e - 1 - (j : Int) = e - ((j + 1 : ℕ) : Int) by push_cast; ring]

theorem dropTrailingZeros_value (fuel : Nat) (d : Decimal) :
    (dropTrailingZeros fuel d).value = d.value := by
  induction fuel generalizing d with
  | zero => rfl
  | succ fuel ih =>
      rw [dropTrailingZeros]
      split
      · rename_i zero
        obtain ⟨k, same⟩ := Nat.dvd_of_mod_eq_zero zero.2
        have quotient : d.digits / 10 = k := by omega
        rw [ih, quotient, value, value, same]
        simp only
        rw [zpow_add₀ (by norm_num : (10 : ℚ) ≠ 0)]
        push_cast
        ring
      · rfl

/-- The exponent of the leading digit. -/
theorem leadingExponent_spec (nonzero : 0 < x.units) :
    (10 : ℚ) ^ leadingExponent x ≤ x.units / Binary64.unitsInOne := by
  have positive := Binary64.unitsInOne_pos
  have unitsQ : (0 : ℚ) < Binary64.unitsInOne := by exact_mod_cast positive
  have large : Binary64.unitsInOne ≤ powerOfTen 400 := by
    rw [Binary64.unitsInOne_eq]
    calc 2 ^ 1074 ≤ 2 ^ (3 * 400) := Nat.pow_le_pow_right (by decide) (by decide)
      _ = (2 ^ 3) ^ 400 := pow_mul 2 3 400
      _ ≤ 10 ^ 400 := Nat.pow_le_pow_left (by decide) 400
  generalize scaled : x.units * powerOfTen 400 / Binary64.unitsInOne = n
  have nonzero : 1 ≤ n := by
    rw [← scaled, Nat.le_div_iff_mul_le positive, one_mul]
    exact large.trans (Nat.le_mul_of_pos_left _ nonzero)
  have count : digitCount n ≠ 0 := by
    have : 0 < (Nat.toDigits 10 n).length := Nat.length_toDigits_pos
    unfold digitCount
    omega
  have least : 10 ^ (digitCount n - 1) ≤ n := by
    by_contra below
    rcases Nat.eq_zero_or_pos (digitCount n - 1) with zero | more
    · rw [zero] at below
      omega
    · have := (Nat.length_toDigits_le_iff (by decide) more).2 (Nat.lt_of_not_le below)
      unfold digitCount at this count more
      omega
  have bound : n * Binary64.unitsInOne ≤ x.units * powerOfTen 400 := by
    rw [← scaled]
    exact Nat.div_mul_le_self _ _
  have bound' : 10 ^ (digitCount n - 1) * Binary64.unitsInOne ≤ x.units * 10 ^ 400 :=
    (Nat.mul_le_mul_right _ least).trans bound
  have exponent : leadingExponent x = ((digitCount n - 1 : ℕ) : Int) - (400 : ℕ) := by
    rw [leadingExponent, scaled]
    omega
  rw [exponent, zpow_sub₀ (by norm_num), zpow_natCast, zpow_natCast,
    div_le_div_iff₀ (by positivity) unitsQ]
  exact_mod_cast bound'

/-- Seventeen digits are fine enough for every double. -/
theorem fine_enough (nonzero : 0 < x.units) :
    (4 * Binary64.unitsInOne : ℚ) * 10 ^ (leadingExponent x - (16 : ℕ)) <
      (Interval.around x).high - (Interval.around x).low := by
  have positive : (0 : ℚ) < Binary64.unitsInOne := by exact_mod_cast Binary64.unitsInOne_pos
  have leading := leadingExponent_spec nonzero
  rw [le_div_iff₀ positive] at leading
  have step : (0 : ℚ) < 2 ^ x.scale := by positivity
  have spacing : (4 * Binary64.unitsInOne : ℚ) * 10 ^ (leadingExponent x - (16 : ℕ)) * 10 ^ 16 ≤
      4 * (x.significand * 2 ^ x.scale) := by
    rw [zpow_sub₀ (by norm_num), zpow_natCast, Binary64.units_eq] at *
    push_cast at leading
    rw [mul_div_assoc', div_mul_cancel₀ _ (by positivity)]
    linarith
  have gap : x.gapBelow ≤ 4 * x.units := by
    have nonzero : 0 < x.significand := by
      rw [Binary64.units_eq] at nonzero
      exact Nat.pos_of_mul_pos_right nonzero
    have : 2 ^ x.scale ≤ x.units := by
      rw [Binary64.units_eq]
      exact Nat.le_mul_of_pos_left _ nonzero
    unfold Binary64.gapBelow
    split <;> omega
  rw [Binary64.around_eq]
  simp only
  rw [Nat.cast_sub gap]
  push_cast
  have width :
      4 * (x.significand * 2 ^ x.scale : ℚ) < (2 * 2 ^ x.scale + x.gapBelow) * 10 ^ 16 := by
    unfold Binary64.gapBelow
    split
    · rename_i leadingBit
      rw [leadingBit.1, show Binary64.leadingBit = 2 ^ 52 from rfl]
      push_cast
      nlinarith
    · have small : (x.significand : ℚ) < 2 ^ 53 := by
        exact_mod_cast x.significand_lt
      push_cast
      nlinarith
  push_cast at spacing
  linarith

theorem shortest_rounds (tie : DecimalTie) (x : Binary64) : x.Rounds (shortest tie x).value := by
  unfold shortest
  by_cases zero : x.isZero = true
  · rw [if_pos zero]
    have vanishes : x.units = 0 :=
      Binary64.units_eq_zero_iff.2 (by simpa [Binary64.isZero] using zero)
    have self := x.rounds_self
    rw [vanishes] at self
    simpa [value] using self
  · rw [if_neg zero, Binary64.Rounds, dropTrailingZeros_value]
    have nonzero : 0 < x.units := by
      rw [Nat.pos_iff_ne_zero, Ne, Binary64.units_eq_zero_iff]
      simpa [Binary64.isZero] using zero
    exact search_spec 17 _ ⟨16, by decide, onGrid_isSome (fine_enough nonzero)⟩

end Decimal
end Docstore
