import Docstore.Proofs.Number.Text

set_option autoImplicit false

namespace Docstore

open Decimal (Unsigned reading)

namespace Binary64

variable {x y : Binary64}

/-- Equal values have one magnitude, and one sign unless they are zero. -/
theorem sameValue_iff : x.sameValue y = true ↔ x.magnitude = y.magnitude ∧
    (x.negative && !x.isZero) = (y.negative && !y.isZero) := by
  obtain ⟨sx, mx, hx⟩ := x
  obtain ⟨sy, my, hy⟩ := y
  by_cases same : mx = my
  · subst same
    by_cases zero : mx = 0
    · simp [sameValue, isZero, zero]
    · simp [sameValue, isZero, beq_eq_false_iff_ne.2 zero]
  · have apart : ¬ (mx = 0 ∧ my = 0) := by omega
    simp [sameValue, isZero, same, apart]

theorem sameValue_comm (x y : Binary64) : x.sameValue y = y.sameValue x := by
  rw [Bool.eq_iff_iff, sameValue_iff, sameValue_iff]
  exact ⟨fun same => ⟨same.1.symm, same.2.symm⟩, fun same => ⟨same.1.symm, same.2.symm⟩⟩

theorem unsignedZero_eq_iff : x.unsignedZero = y.unsignedZero ↔ x.sameValue y = true := by
  obtain ⟨sx, mx, hx⟩ := x
  obtain ⟨sy, my, hy⟩ := y
  by_cases zeroX : mx = 0
  · by_cases zeroY : my = 0
    · simp [sameValue, unsignedZero, isZero, zeroX, zeroY]
    · simp [sameValue, unsignedZero, isZero, zeroX, zeroY, zero, signedZero, Ne.symm zeroY]
  · by_cases zeroY : my = 0
    · simp [sameValue, unsignedZero, isZero, zeroX, zeroY, zero, signedZero]
    · simp [sameValue, unsignedZero, isZero, zeroX, zeroY]

theorem units_unsignedZero (x : Binary64) : x.unsignedZero.units = x.units := by
  unfold unsignedZero
  split
  · rename_i isZero
    rw [units_eq_zero_iff.2 (show x.magnitude = 0 by simpa [Binary64.isZero] using isZero)]
    rfl
  · rfl

theorem unsignedZero_of_not (proper : ¬ (x.negative = true ∧ x.isZero = true)) :
    x.unsignedZero = x := by
  obtain ⟨sign, magnitude, bound⟩ := x
  unfold unsignedZero
  split
  · rename_i isZero
    have vanishes : magnitude = 0 := by simpa [Binary64.isZero] using isZero
    cases sign with
    | false => simp [zero, signedZero, vanishes]
    | true => exact absurd ⟨rfl, isZero⟩ proper
  · rfl

theorem belowExactBound_iff : x.belowExactBound = true ↔ x.units < 2 ^ 53 * unitsInOne := by
  rw [belowExactBound, decide_eq_true_iff]
  rfl

theorem isZero_iff : x.isZero = true ↔ x.units = 0 := by
  rw [units_eq_zero_iff, isZero, beq_iff_eq]

/-- A double is an integer when its units are those of the integer and, zero apart, its sign is. -/
theorem integer?_eq_some {k : Int} : x.integer? = some k ↔
    x.units = k.natAbs * unitsInOne ∧ (k ≠ 0 → x.negative = decide (k < 0)) := by
  have positive := unitsInOne_pos
  unfold integer?
  split
  · rename_i whole
    obtain ⟨q, form⟩ : ∃ q, x.units = q * unitsInOne :=
      ⟨_, (Nat.div_mul_cancel (Nat.dvd_of_mod_eq_zero whole)).symm⟩
    rw [form, Nat.mul_div_cancel _ positive, Nat.mul_right_cancel_iff positive, Option.some.injEq]
    cases x.negative with
    | false =>
        rw [if_neg (by decide), eq_comm (a := false), decide_eq_false_iff_not]
        omega
    | true =>
        rw [if_pos rfl, eq_comm (a := true), decide_eq_true_iff]
        omega
  · rename_i part
    refine ⟨nofun, fun ⟨exact, _⟩ => absurd ?_ part⟩
    rw [exact, Nat.mul_mod_left]

theorem integer?_of_isZero (zero : x.isZero = true) : x.integer? = some 0 :=
  integer?_eq_some.2 ⟨by rw [isZero_iff.1 zero, Int.natAbs_zero, Nat.zero_mul], absurd rfl⟩

theorem sign_of_integer? {k : Int} (integer : x.integer? = some k) :
    decide (k < 0) = (x.negative && !x.isZero) := by
  by_cases zero : x.isZero = true
  · rw [integer?_of_isZero zero, Option.some.injEq] at integer
    subst integer
    rw [zero, Bool.not_true, Bool.and_false, decide_eq_false (lt_irrefl 0)]
  · obtain ⟨exact, sign⟩ := integer?_eq_some.1 integer
    have nonzero : k ≠ 0 := by
      rintro rfl
      rw [Int.natAbs_zero, Nat.zero_mul] at exact
      exact zero (isZero_iff.2 exact)
    rw [Bool.eq_false_iff.2 zero, Bool.not_false, Bool.and_true, sign nonzero]

/-- An integer that rounds to a small double is not beyond `2 ^ 53`. -/
theorem Rounds.le_of_small {k : Nat} (rounds : x.Rounds k)
    (small : x.units < 2 ^ 53 * unitsInOne) : k ≤ 2 ^ 53 := by
  have positive : (0 : ℚ) < unitsInOne := by exact_mod_cast unitsInOne_pos
  have bound : (ofInt (2 ^ 53)).units = 2 ^ 53 * unitsInOne := units_ofInt (by decide)
  have below : x.magnitude < (ofInt (2 ^ 53)).magnitude := by
    rw [← units_lt_iff, bound]
    exact small
  have apart : (Decimal.Interval.around x).high ≤ 4 * (2 ^ 53 * unitsInOne) := by
    refine (around_of_lt below).1.trans ?_
    rw [around_eq, bound]
    exact Nat.sub_le _ _
  have upper := rounds.bounds.2.trans (Nat.cast_le.2 apart)
  have scaled : (k : ℚ) * (4 * unitsInOne) ≤ 2 ^ 53 * (4 * unitsInOne) := by
    push_cast at upper
    linarith
  exact_mod_cast le_of_mul_le_mul_right scaled (by linarith)

end Binary64

namespace Number

variable {n m : Number} {a b : Int} {x y : Binary64}

def signed (negative : Bool) (text : List Char) : List Char :=
  (if negative then ['-'] else []) ++ text

theorem signed_injective {negative negative' : Bool} {text text' : List Char}
    (first : Unsigned text) (second : Unsigned text')
    (same : signed negative text = signed negative' text') :
    negative = negative' ∧ text = text' := by
  have plain : ∀ {t : List Char}, Unsigned t → ∀ rest, '-' :: rest ≠ t := by
    rintro t ⟨⟨c, rest', rfl, digit⟩, -⟩ rest same
    rw [← (List.cons.inj same).1] at digit
    cases digit
  unfold signed at same
  cases negative with
  | false =>
      cases negative' with
      | false => exact ⟨rfl, same⟩
      | true => exact absurd same.symm (plain first _)
  | true =>
      cases negative' with
      | false => exact absurd same (plain second _)
      | true => exact ⟨rfl, (List.cons.inj same).2⟩

theorem pointed_toDigits (k : Nat) : Decimal.Pointed (Nat.toDigits 10 k) := by
  have all := Decimal.isDigit_toDigits k
  obtain ⟨first, others, form⟩ :=
    List.exists_cons_of_ne_nil (Nat.toDigits_ne_nil (b := 10) (n := k))
  exact ⟨⟨first, others, form, all first (form ▸ List.mem_cons_self)⟩,
    fun c there => .inl (all c there)⟩

theorem unsigned_toDigits (k : Nat) : Unsigned (Nat.toDigits 10 k) :=
  (pointed_toDigits k).unsigned

theorem reading_toDigits (k : Nat) : reading (Nat.toDigits 10 k) = k := by
  rw [Decimal.reading_plain (pointed_toDigits k).no_power,
    Decimal.plainReading_digits (Decimal.isDigit_toDigits k), Nat.ofDigitChars_ten_toDigits]

theorem integerText_eq (a : Int) :
    integerText a = signed (decide (a < 0)) (Nat.toDigits 10 a.natAbs) := by
  simp only [integerText, signed, decide_eq_true_eq]

theorem integerText_injective (same : integerText a = integerText b) : a = b := by
  rw [integerText_eq, integerText_eq] at same
  obtain ⟨sign, digits⟩ := signed_injective (unsigned_toDigits _) (unsigned_toDigits _) same
  have value : (a.natAbs : ℚ) = b.natAbs := by
    rw [← reading_toDigits, ← reading_toDigits, digits]
  have value : a.natAbs = b.natAbs := by exact_mod_cast value
  have sign : a < 0 ↔ b < 0 := decide_eq_decide.1 sign
  omega

/-- The canonical text of a double has its sign, unless it is zero, and rounds to it. -/
theorem canonicalText_float (x : Binary64) (finite : x.isFinite = true) :
    ∃ text, canonicalText (.float x finite) = signed (x.negative && !x.isZero) text ∧
      Unsigned text ∧ x.Rounds (reading text) := by
  have plain (nonzero : ¬ x.isZero = true) : ∃ text,
      x.plainText = signed (x.negative && !x.isZero) text ∧
        Unsigned text ∧ x.Rounds (reading text) := by
    obtain ⟨text, form, unsigned, rounds⟩ := FloatLayout.render_spec ⟨-400, 400, false, .away⟩ x
    refine ⟨text, ?_, unsigned, rounds⟩
    rw [Bool.eq_false_iff.2 nonzero, Bool.not_false, Bool.and_true]
    exact form
  cases integer : x.integer? with
  | none =>
      simp only [canonicalText, integer]
      refine plain fun zero => ?_
      rw [Binary64.integer?_of_isZero zero] at integer
      cases integer
  | some k =>
      simp only [canonicalText, integer]
      split
      · refine ⟨_, by rw [integerText_eq, Binary64.sign_of_integer? integer],
          unsigned_toDigits _, ?_⟩
        have positive : (Binary64.unitsInOne : ℚ) ≠ 0 := by
          exact_mod_cast Binary64.unitsInOne_pos.ne'
        have exact : (x.units : ℚ) = k.natAbs * Binary64.unitsInOne := by
          exact_mod_cast (Binary64.integer?_eq_some.1 integer).1
        have rounds := x.rounds_self
        rwa [exact, mul_div_cancel_right₀ _ positive, ← reading_toDigits] at rounds
      · rename_i large
        refine plain fun zero => large ?_
        rw [Binary64.belowExactBound_iff, Binary64.isZero_iff.1 zero]
        exact Nat.mul_pos (by positivity) Binary64.unitsInOne_pos

/-- The canonical text of a double that is a small integer is that of the integer. -/
theorem canonicalText_integral (finite : x.isFinite = true)
    (exact : x.units = a.natAbs * Binary64.unitsInOne) (small : a.natAbs < 2 ^ 53)
    (sign : a ≠ 0 → x.negative = decide (a < 0)) :
    canonicalText (.float x finite) = integerText a := by
  have below : x.belowExactBound = true := by
    rw [Binary64.belowExactBound_iff, exact]
    exact Nat.mul_lt_mul_of_pos_right small Binary64.unitsInOne_pos
  simp only [canonicalText, Binary64.integer?_eq_some.2 ⟨exact, sign⟩, below, if_true]

theorem units_magnitudeKey (n : Number) : n.magnitudeKey.units = n.toBinary64.units :=
  n.toBinary64.units_unsignedZero

def IsSmall (n : Number) : Prop :=
  n.magnitudeKey.belowExactBound = true

theorem isSmall_iff : n.IsSmall ↔ n.toBinary64.units < 2 ^ 53 * Binary64.unitsInOne := by
  rw [IsSmall, Binary64.belowExactBound_iff, units_magnitudeKey]

theorem isSmall_int {lower : -0x8000000000000000 ≤ a} {upper : a < 0x10000000000000000} :
    (int a lower upper).IsSmall ↔ a.natAbs < 2 ^ 53 := by
  rw [isSmall_iff, ← Binary64.belowExactBound_iff]
  exact Binary64.belowExactBound_ofInt

theorem isZero_ofInt (a : Int) : (Binary64.ofInt a).isZero = decide (a = 0) := by
  by_cases zero : a = 0
  · subst zero
    rfl
  · have nonzero : (Binary64.ofInt a).units ≠ 0 := by
      have positive := Binary64.unitsInOne_pos
      by_cases small : a.natAbs ≤ 2 ^ 53
      · rw [Binary64.units_ofInt small]
        exact (Nat.mul_pos (by omega) positive).ne'
      · have := Binary64.units_ofInt_large (n := a) (by omega)
        have : 0 < 2 ^ 53 * Binary64.unitsInOne := Nat.mul_pos (by positivity) positive
        omega
    rw [decide_eq_false zero, Bool.eq_false_iff]
    exact fun isZero => nonzero (Binary64.isZero_iff.1 isZero)

theorem sign_ofInt (a : Int) :
    ((Binary64.ofInt a).negative && !(Binary64.ofInt a).isZero) = decide (a < 0) := by
  rw [isZero_ofInt, Binary64.negative_ofInt, Bool.eq_iff_iff]
  simp
  omega

/-- A small double has the text of an integer just if it equals it. -/
theorem canonicalText_eq_integerText_iff (finite : x.isFinite = true)
    (small : x.units < 2 ^ 53 * Binary64.unitsInOne ∨ a.natAbs < 2 ^ 53) :
    canonicalText (.float x finite) = integerText a ↔ x.sameValue (Binary64.ofInt a) = true := by
  constructor
  · intro same
    obtain ⟨text, form, unsigned, rounds⟩ := canonicalText_float x finite
    rw [form, integerText_eq] at same
    obtain ⟨sign, rfl⟩ := signed_injective unsigned (unsigned_toDigits _) same
    rw [reading_toDigits] at rounds
    have bound : a.natAbs ≤ 2 ^ 53 := small.elim rounds.le_of_small Nat.le_of_lt
    have self := (Binary64.ofInt a).rounds_self
    rw [Binary64.units_ofInt bound, Nat.cast_mul, mul_div_cancel_right₀ _ (by
      exact_mod_cast Binary64.unitsInOne_pos.ne')] at self
    exact Binary64.sameValue_iff.2
      ⟨Binary64.magnitude_eq_of_rounds rounds self, by rw [sign, sign_ofInt]⟩
  · intro same
    obtain ⟨magnitude, sign⟩ := Binary64.sameValue_iff.1 same
    have units := Binary64.units_eq_iff.2 magnitude
    have smallA : a.natAbs < 2 ^ 53 := by
      refine small.elim (fun small => ?_) id
      rw [units, ← Binary64.belowExactBound_iff] at small
      exact Binary64.belowExactBound_ofInt.1 small
    rw [Binary64.units_ofInt smallA.le] at units
    refine canonicalText_integral finite units smallA fun nonzero => ?_
    have apart : x.isZero = false := by
      have zero := isZero_ofInt a
      rw [decide_eq_false nonzero] at zero
      rw [← zero, Binary64.isZero, Binary64.isZero, magnitude]
    rwa [apart, Bool.not_false, Bool.and_true, sign_ofInt] at sign

/-- The canonical text of a small number is that of the numbers equal to it and of no other. -/
theorem canonicalText_eq_iff (small : m.IsSmall) :
    n.canonicalText = m.canonicalText ↔ n.equal m = true := by
  cases n with
  | int a lower upper =>
      cases m with
      | int b lower' upper' =>
          rw [equal, beq_iff_eq]
          exact ⟨integerText_injective, fun same => congrArg integerText same⟩
      | float y finite =>
          rw [eq_comm, show canonicalText (.int a lower upper) = integerText a from rfl,
            canonicalText_eq_integerText_iff finite (.inl (isSmall_iff.1 small)),
            Binary64.sameValue_comm]
          rfl
  | float x finite =>
      cases m with
      | int b lower' upper' =>
          exact canonicalText_eq_integerText_iff finite (.inr (isSmall_int.1 small))
      | float y finite' =>
          rw [show equal (.float x finite) (.float y finite') = x.sameValue y from rfl]
          constructor
          · intro same
            obtain ⟨text, form, unsigned, rounds⟩ := canonicalText_float x finite
            obtain ⟨text', form', unsigned', rounds'⟩ := canonicalText_float y finite'
            rw [form, form'] at same
            obtain ⟨sign, rfl⟩ := signed_injective unsigned unsigned' same
            exact Binary64.sameValue_iff.2 ⟨Binary64.magnitude_eq_of_rounds rounds rounds', sign⟩
          · intro same
            by_cases zero : x.isZero = true
            · have magnitude := (Binary64.sameValue_iff.1 same).1
              have zero' : y.isZero = true := by
                rwa [Binary64.isZero, ← magnitude]
              rw [canonicalText_integral (a := 0) finite, canonicalText_integral (a := 0) finite']
              · simp [Binary64.isZero_iff.1 zero']
              · decide
              · exact fun absurd => (absurd rfl).elim
              · simp [Binary64.isZero_iff.1 zero]
              · decide
              · exact fun absurd => (absurd rfl).elim
            · have identical : x = y := by
                simpa [Binary64.sameValue, zero] using same
              subst identical
              rfl

/-- The key of a small number is that of the numbers equal to it and of no other. -/
theorem magnitudeKey_eq_iff (small : m.IsSmall) :
    n.magnitudeKey = m.magnitudeKey ↔ n.equal m = true := by
  rw [magnitudeKey, magnitudeKey, Binary64.unsignedZero_eq_iff]
  cases n with
  | int a lower upper =>
      cases m with
      | int b lower' upper' =>
          have small := isSmall_int.1 small
          rw [equal, beq_iff_eq, Binary64.sameValue_iff, ← Binary64.ofInt_eq_iff small]
          constructor
          · rintro ⟨magnitude, sign⟩
            have sign : decide (a < 0) = decide (b < 0) := by
              rwa [← sign_ofInt, ← sign_ofInt]
            have magnitude : (Binary64.ofInt a).magnitude = (Binary64.ofInt b).magnitude :=
              magnitude
            apply Binary64.place_injective
            unfold Binary64.place
            rw [Binary64.negative_ofInt, Binary64.negative_ofInt, sign, magnitude]
          · intro same
            rw [show toBinary64 (.int a lower upper) = Binary64.ofInt a from rfl, same]
            exact ⟨rfl, rfl⟩
      | float y finite => rfl
  | float x finite =>
      cases m with
      | int b lower' upper' => rfl
      | float y finite' => rfl

def isNegativeZero (n : Number) : Bool :=
  n.toBinary64.negative && n.toBinary64.isZero

/-- A number compares with a small one as their keys do, unless one is the negative zero. -/
theorem compareTotal_magnitudeKey (small : m.IsSmall) (proper : n.isNegativeZero = false)
    (proper' : m.isNegativeZero = false) :
    n.magnitudeKey.compareTotal m.magnitudeKey = n.compare m := by
  have same : ∀ {k : Number}, k.isNegativeZero = false → k.magnitudeKey = k.toBinary64 :=
    fun {k} proper => Binary64.unsignedZero_of_not (by
      simpa [isNegativeZero] using proper)
  rw [same proper, same proper']
  cases signedN : n.signed? with
  | none => simp only [compare, signedN]
  | some a =>
      cases signedM : m.signed? with
      | none => simp only [compare, signedN, signedM]
      | some b =>
          simp only [compare, signedN, signedM]
          cases n with
          | float x finite => cases signedN
          | int a' lower upper =>
              cases m with
              | float y finite' => cases signedM
              | int b' lower' upper' =>
                  obtain rfl : a' = a := by
                    simp only [signed?] at signedN
                    split at signedN
                    · exact Option.some.inj signedN
                    · cases signedN
                  obtain rfl : b' = b := by
                    simp only [signed?] at signedM
                    split at signedM
                    · exact Option.some.inj signedM
                    · cases signedM
                  exact Binary64.compareTotal_ofInt (isSmall_int.1 small)

end Number
end Docstore
