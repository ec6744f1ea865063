import Docstore.Proofs.Number.Nearest

set_option autoImplicit false

namespace Docstore

namespace Decimal

variable {tie : DecimalTie} {x : Binary64} {i : Interval} {d : Decimal} {e : Int} {n : Nat}

/-- Dropping trailing zeros brings a whole number to an exponent that is not negative, if it is
allowed as many steps as there are places behind the point. -/
theorem dropTrailingZeros_exponent (fuel : Nat) {d : Decimal} (whole : d.value = n)
    (positive : n ≠ 0) (few : -(fuel : Int) ≤ d.exponent) :
    0 ≤ (dropTrailingZeros fuel d).exponent := by
  induction fuel generalizing d with
  | zero => simpa [dropTrailingZeros] using few
  | succ fuel ih =>
      rw [dropTrailingZeros]
      split
      · refine ih ?_ (by simp only; push_cast at few; omega)
        rename_i zero
        rw [← whole, value, value, ← Nat.div_mul_cancel (Nat.dvd_of_mod_eq_zero zero.2)]
        simp only [Nat.mul_div_cancel _ (show 0 < 10 by decide)]
        rw [zpow_add₀ (by norm_num)]
        push_cast
        ring
      · rename_i last
        by_contra below
        obtain ⟨places, exponent⟩ : ∃ places : Nat, d.exponent = -((places + 1 : Nat) : Int) :=
          ⟨(-d.exponent).toNat - 1, by omega⟩
        have digits : d.digits = n * 10 ^ (places + 1) := by
          rw [value, exponent, zpow_neg, zpow_natCast, ← div_eq_mul_inv,
            div_eq_iff (by positivity)] at whole
          exact_mod_cast whole
        refine last ⟨?_, ?_⟩
        · rw [digits]
          positivity
        · rw [digits, pow_succ, ← Nat.mul_assoc, Nat.mul_mod_left]

theorem onGrid_exponent (hit : onGrid tie x i e = some d) : d.exponent = e := by
  dsimp only [onGrid] at hit
  split at hit
  · cases hit
  · exact (Option.some.inj hit) ▸ rfl
  · exact (Option.some.inj hit) ▸ rfl
  · exact (Option.some.inj hit) ▸ rfl

theorem search_exponent (grids : Nat) (e : Int) :
    e - grids ≤ (search tie x i grids e).exponent := by
  induction grids generalizing e with
  | zero => simp [search]
  | succ grids ih =>
      rw [search]
      cases here : onGrid tie x i e with
      | some d =>
          rw [Option.getD_some, onGrid_exponent here]
          omega
      | none =>
          have := ih (e - 1)
          rw [Option.getD_none]
          push_cast
          omega

theorem lt_digitCount {places : Nat} (positive : 0 < places) (least : powerOfTen places ≤ n) :
    places < digitCount n := by
  by_contra few
  exact absurd ((Nat.length_toDigits_le_iff (by decide) positive).1 (Nat.le_of_not_lt few))
    (Nat.not_lt.2 least)

/-- A double that is not below one has a leading digit in front of the point. -/
theorem leadingExponent_nonneg (one : Binary64.unitsInOne ≤ x.units) : 0 ≤ leadingExponent x := by
  have least : powerOfTen 400 ≤ x.units * powerOfTen 400 / Binary64.unitsInOne := by
    rw [Nat.le_div_iff_mul_le Binary64.unitsInOne_pos, Nat.mul_comm]
    exact Nat.mul_le_mul_right _ one
  have count := lt_digitCount (by decide) least
  unfold leadingExponent
  omega

/-- Where the shortest decimal of a double is whole, nothing is left behind the point. -/
theorem shortest_exponent (one : Binary64.unitsInOne ≤ x.units)
    (whole : (shortest tie x).value = n) (positive : n ≠ 0) : 0 ≤ (shortest tie x).exponent := by
  have nonzero : ¬ x.isZero = true := by
    have := Binary64.unitsInOne_pos
    rw [Binary64.isZero_iff]
    omega
  have leading := leadingExponent_nonneg one
  have searched : leadingExponent x - (17 : Nat) ≤
      (search tie x (.around x) 17 (leadingExponent x)).exponent := search_exponent 17 _
  rw [shortest, if_neg nonzero] at whole ⊢
  rw [dropTrailingZeros_value] at whole
  exact dropTrailingZeros_exponent 20 whole positive (by push_cast at searched ⊢; omega)

/-- A power of ten behind a number is as many zeros behind its digits. -/
theorem toDigits_shift (positive : 0 < n) (zeros : Nat) :
    Nat.toDigits 10 (n * 10 ^ zeros) = Nat.toDigits 10 n ++ List.replicate zeros '0' := by
  induction zeros with
  | zero => simp
  | succ zeros ih =>
      have shifted : n * 10 ^ (zeros + 1) = 10 * (n * 10 ^ zeros) + 0 := by ring
      rw [shifted, ← Nat.toDigits_append_toDigits (by decide) (by positivity) (by decide), ih,
        List.append_assoc, List.replicate_succ']
      rfl

/-- The digits of a whole decimal are those of its number, but for zeros at the end. -/
theorem toDigits_whole {d : Decimal} (whole : d.value = n) (positive : n ≠ 0)
    (exponent : 0 ≤ d.exponent) : ∃ zeros : Nat, d.exponent = zeros ∧
      Nat.toDigits 10 n = Nat.toDigits 10 d.digits ++ List.replicate zeros '0' := by
  obtain ⟨zeros, same⟩ : ∃ zeros : Nat, d.exponent = zeros := ⟨d.exponent.toNat, by omega⟩
  have number : n = d.digits * 10 ^ zeros := by
    rw [value, same, zpow_natCast] at whole
    exact_mod_cast whole.symm
  have nonzero : 0 < d.digits := by
    apply Nat.pos_of_ne_zero
    intro vanishes
    rw [vanishes, Nat.zero_mul] at number
    exact positive number
  exact ⟨zeros, same, by rw [number, toDigits_shift nonzero]⟩

end Decimal

namespace Binary64

variable {x : Binary64} {n : Nat} {a : Int}

/-- A double whose shortest decimal is whole is written as that number. -/
theorem plainText_whole (one : unitsInOne ≤ x.units)
    (whole : (Decimal.shortest .away x).value = n) (positive : n ≠ 0) (bound : n < 2 ^ 64) :
    x.plainText = Number.signed x.negative (Nat.toDigits 10 n) := by
  have exponent := Decimal.shortest_exponent one whole positive
  obtain ⟨zeros, same, digits⟩ := Decimal.toDigits_whole whole positive exponent
  have nonempty : 0 < (Nat.toDigits 10 (Decimal.shortest .away x).digits).length :=
    Nat.length_toDigits_pos
  have few : (Nat.toDigits 10 n).length ≤ 20 :=
    (Nat.length_toDigits_le_iff (by decide) (by decide)).2 (bound.trans (by decide))
  rw [digits, List.length_append, List.length_replicate] at few
  have place : -400 ≤ (Decimal.shortest .away x).exponent +
        (Nat.toDigits 10 (Decimal.shortest .away x).digits).length - 1 ∧
      (Decimal.shortest .away x).exponent +
        (Nat.toDigits 10 (Decimal.shortest .away x).digits).length - 1 < 400 := by
    omega
  have laid : FloatLayout.positional false (Nat.toDigits 10 (Decimal.shortest .away x).digits)
      ((Decimal.shortest .away x).exponent +
        (Nat.toDigits 10 (Decimal.shortest .away x).digits).length - 1 + 1) =
      Nat.toDigits 10 n := by
    rw [FloatLayout.positional, if_neg (by omega), if_pos (by omega), digits, same,
      if_neg Bool.false_ne_true, List.append_nil]
    congr 2
    omega
  dsimp only [plainText, FloatLayout.render]
  rw [if_pos place, laid, Number.signed]

/-- A double that is equal to an integer and not small is written as the integer just if that is its
shortest decimal. -/
theorem plainText_eq_integerText_iff (same : x.sameValue (ofInt a) = true)
    (large : ¬ x.units < 2 ^ 53 * unitsInOne) (bound : a.natAbs < 2 ^ 64) :
    x.plainText = Number.integerText a ↔ (Decimal.shortest .away x).value = a.natAbs := by
  have one : unitsInOne ≤ x.units :=
    (Nat.le_mul_of_pos_left _ (by positivity)).trans (Nat.le_of_not_lt large)
  have nonzero : x.isZero = false := by
    have := unitsInOne_pos
    rw [Bool.eq_false_iff, Ne, isZero_iff]
    omega
  obtain ⟨magnitude, sign⟩ := sameValue_iff.1 same
  rw [nonzero, Bool.not_false, Bool.and_true, Number.sign_ofInt] at sign
  have units : a.natAbs ≠ 0 := by
    intro zero
    rw [isZero, magnitude, Int.natAbs_eq_zero.1 zero] at nonzero
    cases nonzero
  rw [Number.integerText_eq, ← sign]
  constructor
  · intro written
    obtain ⟨text, form, unsigned, reads⟩ := FloatLayout.render_reading ⟨-400, 400, false, .away⟩ x
    have digits := (Number.signed_injective unsigned (Number.unsigned_toDigits _)
      (form.symm.trans written)).2
    rw [← reads, digits, Number.reading_toDigits]
  · intro whole
    exact plainText_whole one whole units bound

end Binary64

namespace Number

variable {n m : Number}

/-- An integer beside a double that is not small and has another number for its shortest decimal. -/
def StraysFrom : Number → Number → Prop
  | .int a _ _, .float x _ =>
    ¬ x.units < 2 ^ 53 * Binary64.unitsInOne ∧
      (Decimal.shortest .away x).value ≠ (a.natAbs : ℚ)
  | _, _ => False

/-- Equal numbers of which one is an integer and the other a double that is not small and has
another number for its shortest decimal. -/
def Strays (n m : Number) : Prop :=
  n.equal m = true ∧ (n.StraysFrom m ∨ m.StraysFrom n)

theorem canonicalText_ne_iff_straysFrom {a : Int} {x : Binary64}
    {lower : -0x8000000000000000 ≤ a} {upper : a < 0x10000000000000000}
    {finite : x.isFinite = true} (same : x.sameValue (Binary64.ofInt a) = true) :
    canonicalText (.float x finite) ≠ integerText a ↔
      (Number.int a lower upper).StraysFrom (.float x finite) := by
  by_cases small : x.units < 2 ^ 53 * Binary64.unitsInOne
  · refine iff_of_false (not_not.2 ?_) fun strays => strays.1 small
    exact (canonicalText_eq_integerText_iff finite (.inl small)).2 same
  · have above : ¬ x.belowExactBound = true := mt Binary64.belowExactBound_iff.1 small
    have plain : canonicalText (.float x finite) = x.plainText := by
      cases integer : x.integer? with
      | none => simp only [canonicalText, integer]
      | some k => simp only [canonicalText, integer, if_neg above]
    rw [plain, Ne, Binary64.plainText_eq_integerText_iff same small (natAbs_lt lower upper)]
    exact (and_iff_right small).symm

/-- Equal numbers are written differently just where the integer of the two is not what the digits
of the double say. -/
theorem splits_iff_strays : n.Splits m ↔ n.Strays m := by
  refine and_congr_right fun equal => ?_
  cases n with
  | int a lower upper =>
      cases m with
      | int b lower' upper' =>
          exact iff_of_false (not_not.2 (congrArg integerText (beq_iff_eq.1 equal)))
            (not_or.2 ⟨id, id⟩)
      | float y finite =>
          rw [ne_comm, or_iff_left (show ¬ (float y finite).StraysFrom (int a lower upper) from id)]
          exact canonicalText_ne_iff_straysFrom (Binary64.sameValue_comm _ _ ▸ equal)
  | float x finite =>
      cases m with
      | int b lower' upper' =>
          rw [or_iff_right (show ¬ (float x finite).StraysFrom (int b lower' upper') from id)]
          exact canonicalText_ne_iff_straysFrom equal
      | float y finite' =>
          refine iff_of_false (fun apart => ?_) (not_or.2 ⟨id, id⟩)
          exact absurd rfl (Splits.spec ⟨equal, apart⟩).2.2

end Number

end Docstore
