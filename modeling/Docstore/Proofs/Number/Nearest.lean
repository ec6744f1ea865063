import Docstore.Proofs.Number.Equality

set_option autoImplicit false

namespace Docstore

namespace Binary64

open Decimal (Interval)

variable {x : Binary64} {n : Int}

/-- A quotient is at most half a unit from its rounding, and less than that where it is odd. -/
theorem roundHalfEven_spec (num den : Nat) (positive : 0 < den) :
    2 * (roundHalfEven num den * den) ≤ 2 * num + den ∧
      2 * num ≤ 2 * (roundHalfEven num den * den) + den ∧
      (roundHalfEven num den % 2 = 1 →
        2 * (roundHalfEven num den * den) < 2 * num + den ∧
          2 * num < 2 * (roundHalfEven num den * den) + den) := by
  obtain ⟨quotient, rest, split, bound, div, mod⟩ : ∃ quotient rest, num = quotient * den + rest ∧
      rest < den ∧ num / den = quotient ∧ num % den = rest :=
    ⟨num / den, num % den, (Nat.div_add_mod' num den).symm, Nat.mod_lt _ positive, rfl, rfl⟩
  simp only [roundHalfEven, div, mod]
  split
  · omega
  · split
    · rw [Nat.add_mul, Nat.one_mul]
      omega
    · rcases Nat.mod_two_eq_zero_or_one quotient with even | odd
      · rw [even, Nat.add_zero]
        omega
      · rw [odd, Nat.add_mul, Nat.one_mul]
        omega

/-- Steps that are at most half a unit from a word round to its double. -/
theorem contains_of_word {num shift q : Nat} (word : x.magnitude = shift * leadingBit + q)
    (low : leadingBit ≤ q) (high : q ≤ 2 * leadingBit)
    (least : q = leadingBit → q * 2 ^ shift ≤ num)
    (below : 2 * (q * 2 ^ shift) ≤ 2 * num + 2 ^ shift)
    (above : 2 * num ≤ 2 * (q * 2 ^ shift) + 2 ^ shift)
    (odd : q % 2 = 1 → 2 * (q * 2 ^ shift) < 2 * num + 2 ^ shift ∧
      2 * num < 2 * (q * 2 ^ shift) + 2 ^ shift) :
    (Interval.around x).Contains (4 * num : ℕ) := by
  have step : 0 < 2 ^ shift := by positivity
  have unit : leadingBit = 2 ^ 52 := rfl
  rw [around_eq, Interval.Contains]
  simp only [beq_iff_eq, Nat.cast_le, Nat.cast_lt]
  rcases Nat.lt_or_eq_of_le high with inside | carry
  · obtain ⟨scale, significand⟩ := parts_of_word word low inside
    rw [units_of_word word low inside, gapBelow, scale, significand]
    by_cases even : q % 2 = 0
    · rw [if_pos even]
      split
      · rename_i leading
        have := least leading.1
        omega
      · omega
    · rw [if_neg even]
      have := odd (by omega)
      have := Nat.le_mul_of_pos_left (2 ^ shift) (show 0 < q by omega)
      have plain : ¬ (q = leadingBit ∧ 0 < shift) := by omega
      rw [if_neg plain]
      omega
  · -- The carry makes the next power of two, whose step is twice as long.
    have word : x.magnitude = (shift + 1) * leadingBit + leadingBit := by
      rw [word, carry]
      ring
    have units := units_of_word word (le_refl _) (by decide)
    have double : leadingBit * 2 ^ (shift + 1) = q * 2 ^ shift := by
      rw [carry, pow_succ]
      ring
    obtain ⟨scale, significand⟩ := parts_of_word word (le_refl _) (by decide)
    rw [units, double, gapBelow, scale, significand,
      if_pos (show leadingBit % 2 = 0 by decide),
      if_pos (show leadingBit = leadingBit ∧ 0 < shift + 1 from ⟨rfl, Nat.succ_pos _⟩), pow_succ]
    omega

theorem quotient_lt (num : Nat) : num / 2 ^ (num.log2 - 52) < 2 * leadingBit := by
  have step : 0 < 2 ^ (num.log2 - 52) := by positivity
  rw [Nat.div_lt_iff_lt_mul step, show 2 * leadingBit = 2 ^ 53 from rfl, ← pow_add]
  have bound : num < 2 ^ (num.log2 + 1) := Nat.lt_log2_self
  exact bound.trans_le (Nat.pow_le_pow_right (by omega) (by omega))

theorem le_quotient {num : Nat} (large : leadingBit ≤ num) :
    leadingBit ≤ num / 2 ^ (num.log2 - 52) := by
  have step : 0 < 2 ^ (num.log2 - 52) := by positivity
  have positive : num ≠ 0 := Nat.ne_of_gt (Nat.lt_of_lt_of_le (by decide) large)
  have log : 52 ≤ num.log2 := (Nat.le_log2 positive).2 large
  rw [Nat.le_div_iff_mul_le step, show leadingBit = 2 ^ 52 from rfl, ← pow_add,
    Nat.add_sub_cancel' log]
  exact Nat.log2_self_le positive

/-- Steps round to the double of the word that is nearest to them. -/
theorem contains_of_nearestWord {num : Nat} (large : leadingBit ≤ num)
    (word : x.magnitude = nearestWord num 1) : (Interval.around x).Contains (4 * num : ℕ) := by
  have positive : num ≠ 0 := Nat.ne_of_gt (Nat.lt_of_lt_of_le (by decide) large)
  have log : 52 ≤ num.log2 := (Nat.le_log2 positive).2 large
  obtain ⟨shift, split⟩ : ∃ shift, num.log2 = 52 + shift := ⟨num.log2 - 52, by omega⟩
  have step : 0 < 2 ^ shift := by positivity
  have least := le_quotient large
  have most := quotient_lt num
  rw [split, Nat.add_sub_cancel_left] at least most
  have rounded := le_roundHalfEven num (2 ^ shift)
  have rounded' := roundHalfEven_le num (2 ^ shift)
  have bounds := roundHalfEven_spec num (2 ^ shift) step
  rw [nearestWord, Nat.div_one, split, Nat.add_sub_cancel_left, Nat.one_shiftLeft] at word
  apply contains_of_word word (by omega) (by omega)
  · intro same
    rw [same]
    exact (Nat.mul_le_mul_right _ least).trans (Nat.div_mul_le_self num _)
  · exact bounds.1
  · exact bounds.2.1
  · exact bounds.2.2

theorem rounds_ofInt (bounded : n.natAbs < 2 ^ 64) : (ofInt n).Rounds n.natAbs := by
  have positive := unitsInOne_pos
  rcases Nat.eq_zero_or_pos n.natAbs with zero | nonzero
  · have self := (ofInt n).rounds_self
    rw [units_ofInt (by omega), zero, Nat.zero_mul] at self
    rw [zero]
    simpa using self
  · have large : leadingBit ≤ n.natAbs * unitsInOne := by
      have one : leadingBit ≤ unitsInOne := by decide +kernel
      exact one.trans (Nat.le_mul_of_pos_left _ nonzero)
    have finite := isFinite_ofInt bounded
    have word := magnitude_ofInt n
    rw [isFinite, decide_eq_true_eq, word, min_lt_iff] at finite
    rw [Nat.min_eq_left (finite.resolve_right (lt_irrefl _)).le] at word
    have scaled : (n.natAbs : ℚ) * (4 * unitsInOne) = (4 * (n.natAbs * unitsInOne) : ℕ) := by
      push_cast
      ring
    rw [Rounds, scaled]
    exact contains_of_nearestWord large word

end Binary64

namespace Number

variable {n m : Number}

theorem natAbs_lt {a : Int} (lower : -0x8000000000000000 ≤ a) (upper : a < 0x10000000000000000) :
    a.natAbs < 2 ^ 64 := by
  omega

theorem sameValue_of_integerText {x : Binary64} {a : Int} (finite : x.isFinite = true)
    (bounded : a.natAbs < 2 ^ 64) (same : canonicalText (.float x finite) = integerText a) :
    x.sameValue (Binary64.ofInt a) = true := by
  obtain ⟨text, form, unsigned, rounds⟩ := canonicalText_float x finite
  rw [form, integerText_eq] at same
  obtain ⟨sign, rfl⟩ := signed_injective unsigned (unsigned_toDigits _) same
  rw [reading_toDigits] at rounds
  exact Binary64.sameValue_iff.2
    ⟨Binary64.magnitude_eq_of_rounds rounds (Binary64.rounds_ofInt bounded),
    by rw [sign, sign_ofInt]⟩

theorem equal_comm (n m : Number) : n.equal m = m.equal n := by
  cases n with
  | int a lower upper =>
      cases m with
      | int b lower' upper' => exact Bool.beq_comm
      | float y finite' => exact Binary64.sameValue_comm _ _
  | float x finite => cases m <;> exact Binary64.sameValue_comm _ _

theorem equal_of_canonicalText (same : n.canonicalText = m.canonicalText) : n.equal m = true := by
  cases n with
  | int a lower upper =>
      cases m with
      | int b lower' upper' => exact beq_iff_eq.2 (integerText_injective same)
      | float y finite' =>
          rw [equal_comm]
          exact sameValue_of_integerText finite' (natAbs_lt lower upper) same.symm
  | float x finite =>
      cases m with
      | int b lower' upper' => exact sameValue_of_integerText finite (natAbs_lt lower' upper') same
      | float y finite' =>
          obtain ⟨text, form, unsigned, rounds⟩ := canonicalText_float x finite
          obtain ⟨text', form', unsigned', rounds'⟩ := canonicalText_float y finite'
          rw [form, form'] at same
          obtain ⟨sign, rfl⟩ := signed_injective unsigned unsigned' same
          exact Binary64.sameValue_iff.2 ⟨Binary64.magnitude_eq_of_rounds rounds rounds', sign⟩

def Splits (n m : Number) : Prop :=
  n.equal m = true ∧ n.canonicalText ≠ m.canonicalText

instance (n m : Number) : Decidable (n.Splits m) :=
  inferInstanceAs (Decidable (_ ∧ _))

theorem canonicalText_eq_iff_splits :
    n.canonicalText = m.canonicalText ↔ n.equal m = true ∧ ¬ n.Splits m := by
  constructor
  · intro same
    exact ⟨equal_of_canonicalText same, fun splits => splits.2 same⟩
  · rintro ⟨equal, whole⟩
    by_contra apart
    exact whole ⟨equal, apart⟩

def isInteger : Number → Bool
  | .int _ _ _ => true
  | .float _ _ => false

theorem isInteger_iff : n.isInteger = true ↔ ∃ a lower upper, n = .int a lower upper := by
  cases n with
  | int a lower upper => exact iff_of_true rfl ⟨a, lower, upper, rfl⟩
  | float x finite =>
      refine iff_of_false Bool.false_ne_true ?_
      rintro ⟨a, lower, upper, same⟩
      cases same

/-- Only an integer and a double are written differently, and only if neither is small. -/
theorem Splits.spec (splits : n.Splits m) :
    ¬ n.IsSmall ∧ ¬ m.IsSmall ∧ n.isInteger ≠ m.isInteger := by
  obtain ⟨equal, apart⟩ := splits
  have large : ¬ m.IsSmall := fun small => apart ((canonicalText_eq_iff small).2 equal)
  have large' : ¬ n.IsSmall := fun small =>
    apart ((canonicalText_eq_iff small).2 (equal_comm n m ▸ equal)).symm
  refine ⟨large', large, fun alike => apart ?_⟩
  cases n with
  | int a lower upper =>
      cases m with
      | int b lower' upper' => exact congrArg integerText (beq_iff_eq.1 equal)
      | float y finite' => cases alike
  | float x finite =>
      cases m with
      | int b lower' upper' => cases alike
      | float y finite' =>
          have nonzero : x.isZero = false := by
            rw [Bool.eq_false_iff]
            intro zero
            rw [isSmall_iff, show toBinary64 (.float x finite) = x from rfl,
              Binary64.isZero_iff.1 zero] at large'
            exact large' (Nat.mul_pos (by positivity) Binary64.unitsInOne_pos)
          have same : x = y := by
            simpa [Number.equal, toBinary64, Binary64.sameValue, nonzero] using equal
          subst same
          rfl

end Number
end Docstore
