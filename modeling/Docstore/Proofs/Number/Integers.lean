import Docstore.Number
import Docstore.Proofs.Index.KeyOrder
import Docstore.Proofs.Number.Rounding

set_option autoImplicit false

namespace Docstore

namespace Binary64

variable {x : Binary64} {n a b : Int}

theorem unitsInOne_eq : unitsInOne = 2 ^ 1074 := by
  exact Nat.one_shiftLeft _

theorem unitsInOne_pos : 0 < unitsInOne := by
  rw [unitsInOne_eq]
  positivity

theorem log2_eq {m k : Nat} (low : 2 ^ k ≤ m) (high : m < 2 ^ (k + 1)) : m.log2 = k := by
  have positive : 0 < 2 ^ k := by positivity
  exact (Nat.log2_eq_iff (by omega)).2 ⟨low, high⟩

theorem le_roundHalfEven (num den : Nat) : num / den ≤ roundHalfEven num den := by
  unfold roundHalfEven
  dsimp only
  split
  · omega
  · split
    · omega
    · omega

theorem nearestWord_exact {q shift : Nat} (low : leadingBit ≤ q) (high : q < 2 * leadingBit) :
    nearestWord (q * 2 ^ shift) 1 = shift * leadingBit + q := by
  have positive : 0 < 2 ^ shift := by positivity
  have log : (q * 2 ^ shift / 1).log2 = 52 + shift := by
    rw [Nat.div_one]
    apply log2_eq
    · rw [pow_add]
      exact Nat.mul_le_mul_right _ low
    · rw [show 52 + shift + 1 = 53 + shift by omega, pow_add]
      exact Nat.mul_lt_mul_of_pos_right high positive
  simp only [nearestWord, log, Nat.add_sub_cancel_left, Nat.one_shiftLeft, roundHalfEven,
    Nat.mul_mod_left, Nat.mul_div_cancel _ positive, Nat.mul_zero, if_pos positive]

theorem parts_of_word {q shift : Nat} (word : x.magnitude = shift * leadingBit + q)
    (low : leadingBit ≤ q) (high : q < 2 * leadingBit) :
    x.scale = shift ∧ x.significand = q := by
  unfold leadingBit at low high word
  constructor
  · rw [Binary64.scale, word]
    unfold leadingBit
    omega
  · rw [Binary64.significand, word]
    unfold leadingBit
    rw [if_neg (by omega)]
    omega

theorem units_of_word {q shift : Nat} (word : x.magnitude = shift * leadingBit + q)
    (low : leadingBit ≤ q) (high : q < 2 * leadingBit) : x.units = q * 2 ^ shift := by
  obtain ⟨scale, significand⟩ := parts_of_word word low high
  rw [units_eq, scale, significand]

/-- A small integer is a significand at some scale. -/
theorem exists_significand {k : Nat} (positive : 0 < k) (small : k ≤ 2 ^ 53) :
    ∃ q shift, k * unitsInOne = q * 2 ^ shift ∧ leadingBit ≤ q ∧ q < 2 * leadingBit ∧
      shift ≤ 1075 := by
  rw [unitsInOne_eq]
  rcases Nat.lt_or_eq_of_le small with below | rfl
  · have least : 2 ^ k.log2 ≤ k := Nat.log2_self_le (by omega)
    have most : k < 2 ^ (k.log2 + 1) := Nat.lt_log2_self
    have bound : k.log2 < 53 := (Nat.log2_lt (by omega)).2 below
    have split : 52 - k.log2 + (1022 + k.log2) = 1074 := by omega
    refine ⟨k * 2 ^ (52 - k.log2), 1022 + k.log2, ?_, ?_, ?_, by omega⟩
    · rw [mul_assoc, ← pow_add, split]
    · have same : leadingBit = 2 ^ k.log2 * 2 ^ (52 - k.log2) := by
        rw [← pow_add, show k.log2 + (52 - k.log2) = 52 by omega]
        rfl
      rw [same]
      exact Nat.mul_le_mul_right _ least
    · have same : 2 * leadingBit = 2 ^ (k.log2 + 1) * 2 ^ (52 - k.log2) := by
        rw [← pow_add, show k.log2 + 1 + (52 - k.log2) = 53 by omega]
        rfl
      rw [same]
      exact Nat.mul_lt_mul_of_pos_right most (by positivity)
  · refine ⟨leadingBit, 1075, ?_, le_refl _, by decide, by decide⟩
    rw [show leadingBit = 2 ^ 52 from rfl, ← pow_add, ← pow_add]

theorem magnitude_ofInt (n : Int) :
    (ofInt n).magnitude = min (nearestWord (n.natAbs * unitsInOne) 1) infinityWord := rfl

theorem units_ofInt (small : n.natAbs ≤ 2 ^ 53) : (ofInt n).units = n.natAbs * unitsInOne := by
  rcases Nat.eq_zero_or_pos n.natAbs with zero | positive
  · obtain rfl := Int.natAbs_eq_zero.1 zero
    rw [Int.natAbs_zero, Nat.zero_mul, units_eq_zero_iff, magnitude_ofInt, Int.natAbs_zero,
      Nat.zero_mul]
    rfl
  · obtain ⟨q, shift, exact, low, high, bound⟩ := exists_significand positive small
    rw [exact]
    refine units_of_word ?_ low high
    rw [magnitude_ofInt, exact, nearestWord_exact low high]
    apply Nat.min_eq_left
    unfold infinityWord leadingBit at *
    omega

/-- Beyond `2 ^ 53` the nearest double is not below it. -/
theorem units_ofInt_large (large : 2 ^ 53 ≤ n.natAbs) :
    2 ^ 53 * unitsInOne ≤ (ofInt n).units := by
  have bound : 2 ^ (53 + 1074) ≤ n.natAbs * unitsInOne := by
    rw [unitsInOne_eq, pow_add]
    exact Nat.mul_le_mul_right _ large
  have word : 1076 * leadingBit ≤ (ofInt n).magnitude := by
    rw [magnitude_ofInt, Nat.le_min]
    refine ⟨?_, by decide⟩
    generalize n.natAbs * unitsInOne = num at bound
    have nonzero : num ≠ 0 := by
      have : 0 < 2 ^ (53 + 1074) := by positivity
      omega
    have high : 53 + 1074 ≤ num.log2 := (Nat.le_log2 nonzero).2 bound
    have quotient : leadingBit ≤ num / 2 ^ (num.log2 - 52) := by
      rw [Nat.le_div_iff_mul_le (by positivity), show leadingBit = 2 ^ 52 from rfl, ← pow_add,
        show 52 + (num.log2 - 52) = num.log2 by omega]
      exact Nat.log2_self_le nonzero
    have rounded := le_roundHalfEven num (2 ^ (num.log2 - 52))
    simp only [nearestWord, Nat.div_one, Nat.one_shiftLeft]
    have shifted : 1075 * leadingBit ≤ (num.log2 - 52) * leadingBit :=
      Nat.mul_le_mul_right _ (by omega)
    omega
  have least : units ⟨false, 1076 * leadingBit, by decide⟩ = leadingBit * 2 ^ 1075 :=
    units_of_word rfl (le_refl _) (by decide)
  have same : 2 ^ 53 * unitsInOne = leadingBit * 2 ^ 1075 := by
    rw [unitsInOne_eq, show leadingBit = 2 ^ 52 from rfl, ← pow_add, ← pow_add]
  rw [same, ← least]
  by_contra above
  have := units_lt_iff.1 (Nat.lt_of_not_le above)
  simp only at this
  omega

theorem negative_ofInt (n : Int) : (ofInt n).negative = decide (n < 0) := rfl

theorem belowExactBound_ofInt : (ofInt n).belowExactBound = true ↔ n.natAbs < 2 ^ 53 := by
  have positive := unitsInOne_pos
  rw [belowExactBound, decide_eq_true_iff, show 2 * leadingBit = 2 ^ 53 from rfl]
  by_cases small : n.natAbs < 2 ^ 53
  · rw [units_ofInt small.le]
    exact iff_of_true (Nat.mul_lt_mul_of_pos_right small positive) small
  · have := units_ofInt_large (Nat.le_of_not_lt small)
    exact iff_of_false (by omega) small

/-- Absolute values and their doubles compare alike where one of them is small. -/
theorem magnitude_ofInt_lt_iff (small : a.natAbs < 2 ^ 53 ∨ b.natAbs < 2 ^ 53) :
    (ofInt a).magnitude < (ofInt b).magnitude ↔ a.natAbs < b.natAbs := by
  have positive := unitsInOne_pos
  rw [← units_lt_iff]
  have scaled : ∀ k l : Nat, k * unitsInOne < l * unitsInOne ↔ k < l := fun k l =>
    Nat.mul_lt_mul_right positive
  by_cases smallA : a.natAbs ≤ 2 ^ 53
  · by_cases smallB : b.natAbs ≤ 2 ^ 53
    · rw [units_ofInt smallA, units_ofInt smallB, scaled]
    · have far := units_ofInt_large (n := b) (by omega)
      have near : a.natAbs * unitsInOne < 2 ^ 53 * unitsInOne := (scaled _ _).2 (by omega)
      rw [units_ofInt smallA]
      exact iff_of_true (by omega) (by omega)
  · have far := units_ofInt_large (n := a) (by omega)
    have near : b.natAbs * unitsInOne < 2 ^ 53 * unitsInOne := (scaled _ _).2 (by omega)
    rw [units_ofInt (n := b) (by omega)]
    exact iff_of_false (by omega) (by omega)

/-- An integer compares with a small one as their doubles do. -/
theorem compareTotal_ofInt (small : b.natAbs < 2 ^ 53) :
    (ofInt a).compareTotal (ofInt b) = compare a b := by
  have below := magnitude_ofInt_lt_iff (a := a) (b := b) (.inr small)
  have above := magnitude_ofInt_lt_iff (a := b) (b := a) (.inl small)
  have order : (ofInt a).place < (ofInt b).place ↔ a < b := by
    unfold place
    rw [negative_ofInt, negative_ofInt]
    split <;> split <;> simp only [decide_eq_true_eq, not_lt] at * <;> omega
  have order' : (ofInt b).place < (ofInt a).place ↔ b < a := by
    unfold place
    rw [negative_ofInt, negative_ofInt]
    split <;> split <;> simp only [decide_eq_true_eq, not_lt] at * <;> omega
  rw [compareTotal_eq, Int.compare_eq_ite_lt, Int.compare_eq_ite_lt]
  simp only [order, order']

theorem ofInt_eq_iff (small : b.natAbs < 2 ^ 53) : ofInt a = ofInt b ↔ a = b := by
  refine ⟨fun same => ?_, fun same => same ▸ rfl⟩
  have equal := compareTotal_ofInt (a := a) small
  rw [same, compareTotal_eq, Std.ReflOrd.compare_self] at equal
  exact Std.LawfulEqOrd.eq_of_compare equal.symm

theorem roundHalfEven_le (num den : Nat) : roundHalfEven num den ≤ num / den + 1 := by
  unfold roundHalfEven
  dsimp only
  split
  · omega
  · split
    · omega
    · omega

/-- The word of the double nearest to fewer than `2 ^ (k + 53)` steps. -/
theorem nearestWord_le {m k : Nat} (bound : m < 2 ^ (k + 53)) :
    nearestWord m 1 ≤ (k + 2) * leadingBit := by
  have log : m.log2 - 52 ≤ k := by
    by_cases zero : m = 0
    · rw [zero, Nat.log2_zero]
      omega
    · have below := (Nat.log2_lt zero).2 bound
      omega
  have quotient : m / 2 ^ (m.log2 - 52) < 2 ^ 53 := by
    rw [Nat.div_lt_iff_lt_mul (by positivity), ← pow_add]
    apply Nat.lt_of_lt_of_le (Nat.lt_log2_self (n := m))
    exact Nat.pow_le_pow_right (by decide) (by omega)
  have rounded := roundHalfEven_le m (2 ^ (m.log2 - 52))
  rw [nearestWord, Nat.div_one, Nat.one_shiftLeft]
  unfold leadingBit
  omega

theorem isFinite_ofUnits (negative : Bool) {m : Nat} (bound : m < 2 ^ 2097) :
    (ofUnits negative m 1).isFinite = true := by
  have word : nearestWord m 1 ≤ 2046 * leadingBit := nearestWord_le bound
  rw [isFinite, decide_eq_true_eq]
  apply Nat.lt_of_le_of_lt (Nat.min_le_left _ _)
  unfold infinityWord
  unfold leadingBit at word
  omega

theorem units_of_int64_lt (small : n.natAbs < 2 ^ 64) : n.natAbs * unitsInOne < 2 ^ 1138 := by
  rw [unitsInOne_eq, show 1138 = 64 + 1074 from rfl, pow_add]
  exact Nat.mul_lt_mul_of_pos_right small (by positivity)

theorem isFinite_ofInt (small : n.natAbs < 2 ^ 64) : (ofInt n).isFinite = true := by
  apply isFinite_ofUnits
  apply (units_of_int64_lt small).trans
  exact Nat.pow_lt_pow_right (by decide) (by decide)

theorem units_lt_of_word {k : Nat} (word : x.magnitude ≤ (k + 2) * leadingBit) :
    x.units < 2 ^ (k + 54) := by
  have scale : x.scale ≤ k + 1 := by
    unfold Binary64.scale
    unfold leadingBit at word ⊢
    omega
  have significand : x.significand < 2 ^ 53 := significand_lt x
  rw [units_eq, show k + 54 = 53 + (k + 1) by omega, pow_add]
  calc x.significand * 2 ^ x.scale
      < 2 ^ 53 * 2 ^ x.scale := Nat.mul_lt_mul_of_pos_right significand (by positivity)
    _ ≤ 2 ^ 53 * 2 ^ (k + 1) :=
        Nat.mul_le_mul_left _ (Nat.pow_le_pow_right (by decide) scale)

theorem natAbs_signedUnits (x : Binary64) : x.signedUnits.natAbs = x.units := by
  unfold signedUnits
  split
  · rw [Int.natAbs_neg, Int.natAbs_natCast]
  · rw [Int.natAbs_natCast]

/-- The sum of the doubles of two integers of 64 bits is finite. -/
theorem isFinite_add_ofInt (small : a.natAbs < 2 ^ 64) (small' : b.natAbs < 2 ^ 64) :
    ((ofInt a).add (ofInt b)).isFinite = true := by
  have few : ∀ n : Int, n.natAbs < 2 ^ 64 → (ofInt n).units < 2 ^ 1139 := by
    intro n small
    apply units_lt_of_word (k := 1085)
    exact (Nat.min_le_left _ _).trans (nearestWord_le (units_of_int64_lt small))
  have first := few a small
  have second := few b small'
  have triangle := Int.natAbs_add_le (ofInt a).signedUnits (ofInt b).signedUnits
  rw [natAbs_signedUnits, natAbs_signedUnits] at triangle
  unfold add
  dsimp only
  split
  · rfl
  · apply isFinite_ofUnits
    have twice : 2 ^ 1140 = 2 ^ 1139 + 2 ^ 1139 := by rw [pow_succ, Nat.mul_two]
    calc ((ofInt a).signedUnits + (ofInt b).signedUnits).natAbs
        < 2 ^ 1140 := by omega
      _ < 2 ^ 2097 := Nat.pow_lt_pow_right (by decide) (by decide)

/-- Every double is the one nearest to its own value. -/
theorem nearestWord_units (x : Binary64) : nearestWord x.units 1 = x.magnitude := by
  rw [units_eq]
  by_cases subnormal : x.magnitude < leadingBit
  · have scale : x.scale = 0 := by
      rw [Binary64.scale, Nat.div_eq_of_lt subnormal]
    have significand : x.significand = x.magnitude := if_pos subnormal
    have log : x.magnitude.log2 - 52 = 0 := by
      by_cases zero : x.magnitude = 0
      · rw [zero]
        rfl
      · have below : x.magnitude.log2 < 52 := (Nat.log2_lt zero).2 subnormal
        omega
    rw [scale, significand, pow_zero, Nat.mul_one]
    simp [nearestWord, log, roundHalfEven, Nat.mod_one]
  · have significand : x.significand = leadingBit + x.magnitude % leadingBit := if_neg subnormal
    have low : leadingBit ≤ x.significand := by
      rw [significand]
      exact Nat.le_add_right _ _
    rw [nearestWord_exact low (significand_lt x), significand, Binary64.scale]
    unfold leadingBit at subnormal ⊢
    omega

theorem isFinite_zero_add {y : Binary64} (finite : y.isFinite = true) :
    ((ofInt 0).add y).isFinite = true := by
  have zero : (ofInt 0).signedUnits = 0 := by decide +kernel
  unfold add
  rw [zero, Int.zero_add]
  by_cases none : y.signedUnits = 0
  · simp only [if_pos none]
    rfl
  · simp only [if_neg none]
    have word : (ofUnits (decide (y.signedUnits < 0)) y.units 1).magnitude =
        min y.magnitude infinityWord := congrArg (min · infinityWord) (nearestWord_units y)
    rw [isFinite, decide_eq_true_eq] at finite ⊢
    rw [natAbs_signedUnits, word]
    exact Nat.lt_of_le_of_lt (Nat.min_le_left _ _) finite

end Binary64
end Docstore
