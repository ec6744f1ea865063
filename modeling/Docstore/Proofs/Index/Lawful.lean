import Docstore.Proofs.Index.KeyOrder
import Docstore.Proofs.Number.Equality

set_option autoImplicit false

namespace Docstore

namespace Binary64

variable {x y : Binary64}

theorem bits_injective (same : x.bits = y.bits) : x = y := by
  obtain ⟨sx, mx, hx⟩ := x
  obtain ⟨sy, my, hy⟩ := y
  have words := congrArg UInt64.toNat same
  simp only [bits, UInt64.toNat_ofNat'] at words
  have parts : sx = sy ∧ mx = my := by
    cases sx <;> cases sy <;> simp at words ⊢ <;> omega
  obtain ⟨rfl, rfl⟩ := parts
  rfl

theorem signedUnits_eq_iff : x.signedUnits = y.signedUnits ↔ x.sameValue y = true := by
  have zeroX : x.isZero = true ↔ x.units = 0 := isZero_iff
  have zeroY : y.isZero = true ↔ y.units = 0 := isZero_iff
  rw [sameValue_iff, ← units_eq_iff, signedUnits, signedUnits]
  generalize x.units = a at zeroX ⊢
  generalize y.units = b at zeroY ⊢
  cases x.negative <;> cases y.negative <;> cases zx : x.isZero <;> cases zy : y.isZero <;>
    simp [zx, zy] at zeroX zeroY ⊢ <;> omega

theorem signedUnits_eq_zero_iff : x.signedUnits = 0 ↔ x.isZero = true := by
  rw [isZero_iff, ← natAbs_signedUnits, Int.natAbs_eq_zero]

theorem signedUnits_ofInt {a : Int} (small : a.natAbs ≤ 2 ^ 53) :
    (ofInt a).signedUnits = a * unitsInOne := by
  rw [signedUnits, units_ofInt small, negative_ofInt]
  generalize unitsInOne = one
  by_cases below : a < 0
  · rw [decide_eq_true below, if_pos rfl, Nat.cast_mul, ← Int.neg_mul]
    congr 1
    omega
  · rw [decide_eq_false below, if_neg (by decide), Nat.cast_mul]
    congr 1
    omega

end Binary64

namespace Number

variable {n m : Number}

def value : Number → ℚ
  | .int a _ _ => a
  | .float x _ => x.signedUnits / Binary64.unitsInOne

theorem unitsInOne_ne_zero : (Binary64.unitsInOne : ℚ) ≠ 0 := by
  exact_mod_cast Binary64.unitsInOne_pos.ne'

theorem IsSmall.value_eq (small : n.IsSmall) :
    n.value = n.toBinary64.signedUnits / Binary64.unitsInOne := by
  cases n with
  | int a lower upper =>
      have exact := Binary64.signedUnits_ofInt (isSmall_int.1 small).le
      rw [value, toBinary64, exact, Int.cast_mul, Int.cast_natCast,
        mul_div_cancel_right₀ _ unitsInOne_ne_zero]
  | float x finite => rfl

theorem IsSmall.magnitudeKey_eq_iff_value (smallN : n.IsSmall) (smallM : m.IsSmall) :
    n.magnitudeKey = m.magnitudeKey ↔ n.value = m.value := by
  rw [smallN.value_eq, smallM.value_eq, div_left_inj' unitsInOne_ne_zero, Int.cast_inj,
    Binary64.signedUnits_eq_iff]
  exact Binary64.unsignedZero_eq_iff

theorem magnitudeKey_of_value_zero (worthless : n.value = 0) : n.magnitudeKey = Binary64.zero := by
  have zero : n.toBinary64.isZero = true := by
    cases n with
    | int a lower upper =>
        have vanishes : a = 0 := Int.cast_eq_zero.1 worthless
        rw [toBinary64, isZero_ofInt, decide_eq_true vanishes]
    | float x finite =>
        have vanishes := (div_eq_zero_iff.1 worthless).resolve_right unitsInOne_ne_zero
        exact Binary64.signedUnits_eq_zero_iff.1 (Int.cast_eq_zero.1 vanishes)
  rw [magnitudeKey, Binary64.unsignedZero, if_pos zero]

end Number

namespace Key

variable {a b c : Key}

theorem compare_of_rank_lt (lower : a.rank < b.rank) : Ord.compare a b = .lt := by
  rw [compare_eq_lex]
  simp only [compareLex, compareOn, Nat.compare_eq_lt.2 lower, Ordering.lt_then]

theorem rank_lt_byte (key : Key) : key.rank < 256 := by
  cases key <;> simp only [rank] <;> decide

theorem hashed_injective (same : a.hashed = b.hashed) : a = b := by
  obtain ⟨kinds, content⟩ := List.cons.inj same
  have kinds : a.rank = b.rank := by
    have bytes := congrArg UInt8.toNat (HashPiece.byte.inj kinds)
    rwa [UInt8.toNat_ofNat_of_lt' a.rank_lt_byte, UInt8.toNat_ofNat_of_lt' b.rank_lt_byte] at bytes
  cases a with
  | null =>
      cases b with
      | null => rfl
      | _ => cases kinds
  | bool p =>
      cases b with
      | bool q => cases p <;> cases q <;> first | rfl | cases content
      | _ => cases kinds
  | number x =>
      cases b with
      | number y =>
          have words := HashPiece.word.inj (List.cons.inj content).1
          exact congrArg Key.number (Binary64.bits_injective words)
      | _ => cases kinds
  | text s =>
      cases b with
      | text t => exact congrArg Key.text (HashPiece.text.inj (List.cons.inj content).1)
      | _ => cases kinds
  | json s =>
      cases b with
      | json t => exact congrArg Key.json (HashPiece.text.inj (List.cons.inj content).1)
      | _ => cases kinds

/-- The order of keys is linear and goes by kind first, a key equals and hashes like the keys that
compare as equal to it and no others, and exact numbers have one key just if they are equal in
value; zeros have one key. -/
theorem keys_are_lawful :
    (∀ a b : Key, Ord.compare b a = (Ord.compare a b).swap) ∧
    (∀ a b : Key, (Ord.compare a b).isLE = true → (Ord.compare b a).isLE = true → a = b) ∧
    (∀ a b c : Key, (Ord.compare a b).isLE = true → (Ord.compare b c).isLE = true →
      (Ord.compare a c).isLE = true) ∧
    (∀ a b : Key, (Ord.compare a b).isLE = true ∨ (Ord.compare b a).isLE = true) ∧
    (∀ a b : Key, a.rank < b.rank → Ord.compare a b = .lt) ∧
    (∀ a b : Key, (a == b) = true ↔ Ord.compare a b = .eq) ∧
    (∀ a b : Key, a.hashed = b.hashed ↔ Ord.compare a b = .eq) ∧
    (∀ n m : Number, isExact (.number n) = true → isExact (.number m) = true →
      (ofValue (some (.number n)) = ofValue (some (.number m)) ↔ n.value = m.value)) ∧
    (∀ n : Number, n.value = 0 → ofValue (some (.number n)) = .number Binary64.zero) := by
  have swap (a b : Key) : Ord.compare b a = (Ord.compare a b).swap := Std.OrientedOrd.eq_swap
  have equal (a b : Key) : Ord.compare a b = .eq ↔ a = b := Std.LawfulEqOrd.compare_eq_iff_eq
  refine ⟨swap, fun a b below above => ?_, fun a b c => Std.TransOrd.isLE_trans, fun a b => ?_,
    fun a b => compare_of_rank_lt, fun a b => ?_, fun a b => ?_, fun n m exactN exactM => ?_,
    fun n worthless => ?_⟩
  · rw [swap a b] at above
    rw [← equal]
    cases order : Ord.compare a b with
    | eq => rfl
    | lt => rw [order] at above; cases above
    | gt => rw [order] at below; cases below
  · rw [swap a b]
    cases Ord.compare a b with
    | gt => exact .inr rfl
    | _ => exact .inl rfl
  · rw [beq_iff_eq, equal]
  · rw [equal]
    exact ⟨hashed_injective, fun same => congrArg hashed same⟩
  · have keys := Number.IsSmall.magnitudeKey_eq_iff_value (n := n) (m := m) exactN exactM
    rw [← keys]
    exact ⟨Key.number.inj, congrArg Key.number⟩
  · exact congrArg Key.number (Number.magnitudeKey_of_value_zero worthless)

def negativeZero : Number := .float (Binary64.signedZero true) rfl

/-- The integer zero and the negative zero are equal in value and have one key, which comes before
the key of the blank text. -/
theorem zeros_share_a_key :
    isExact (.number .zero) = true ∧ isExact (.number negativeZero) = true ∧
    ofValue (some (.number .zero)) = ofValue (some (.number negativeZero)) ∧
    Ord.compare (ofValue (some (.number negativeZero))) (ofValue (some (.string ""))) = .lt := by
  obtain ⟨-, -, -, -, kinds, -, -, exact, -⟩ := keys_are_lawful
  have exactZero : isExact (.number .zero) = true := by decide +kernel
  have exactNegative : isExact (.number negativeZero) = true := by decide +kernel
  have worth : Number.zero.value = negativeZero.value := by
    have units : (Binary64.signedZero true).signedUnits = 0 := rfl
    rw [show Number.zero.value = ((0 : Int) : ℚ) from rfl, show negativeZero.value =
      (Binary64.signedZero true).signedUnits / Binary64.unitsInOne from rfl, units, Int.cast_zero,
      zero_div]
  exact ⟨exactZero, exactNegative, (exact _ _ exactZero exactNegative).2 worth,
    kinds _ _ (by decide +kernel)⟩

end Key

end Docstore
