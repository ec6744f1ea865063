import Docstore.Proofs.Number.Nearest

set_option autoImplicit false

namespace Docstore

namespace Binary64

variable {m n den : Nat} {a b : Int}

theorem roundHalfEven_mono (le : m ≤ n) : roundHalfEven m den ≤ roundHalfEven n den := by
  have quotients : m / den ≤ n / den := Nat.div_le_div_right le
  by_cases same : m / den = n / den
  · have rests : m % den ≤ n % den := by
      have split := Nat.div_add_mod m den
      have split' := Nat.div_add_mod n den
      rw [same] at split
      omega
    simp only [roundHalfEven, same]
    split_ifs <;> omega
  · have below := roundHalfEven_le m den
    have above := le_roundHalfEven n den
    omega

theorem nearestWord_mono (le : m ≤ n) : nearestWord m 1 ≤ nearestWord n 1 := by
  have logs : m.log2 ≤ n.log2 := by
    by_cases zero : m = 0
    · rw [zero]
      exact Nat.zero_le _
    · exact (Nat.le_log2 (by omega)).2 ((Nat.log2_self_le zero).trans le)
  have form : ∀ num, nearestWord num 1 =
      (num.log2 - 52) * leadingBit + roundHalfEven num (2 ^ (num.log2 - 52)) := by
    intro num
    rw [nearestWord, Nat.div_one, Nat.one_shiftLeft]
  rw [form, form]
  by_cases same : m.log2 - 52 = n.log2 - 52
  · rw [same]
    exact Nat.add_le_add_left (roundHalfEven_mono le) _
  · -- A larger exponent leaves room for the whole significand, even if it is rounded up.
    have large : leadingBit ≤ n := by
      by_contra small
      have few : n.log2 < 53 := by
        by_cases zero : n = 0
        · rw [zero]
          decide
        · refine (Nat.log2_lt zero).2 ?_
          unfold leadingBit at small
          omega
      omega
    have most := quotient_lt m
    have most' := roundHalfEven_le m (2 ^ (m.log2 - 52))
    have least := (le_quotient large).trans (le_roundHalfEven n (2 ^ (n.log2 - 52)))
    have exponents : (m.log2 - 52 + 1) * leadingBit ≤ (n.log2 - 52) * leadingBit :=
      Nat.mul_le_mul_right _ (by omega)
    rw [Nat.add_mul, Nat.one_mul] at exponents
    omega

theorem place_ofInt_mono (le : a ≤ b) : (ofInt a).place ≤ (ofInt b).place := by
  have words : ∀ {k l : Int}, k.natAbs ≤ l.natAbs → (ofInt k).magnitude ≤ (ofInt l).magnitude := by
    intro k l le
    rw [magnitude_ofInt, magnitude_ofInt]
    have scaled := nearestWord_mono (Nat.mul_le_mul_right unitsInOne le)
    omega
  unfold place
  rw [negative_ofInt, negative_ofInt]
  by_cases negative : a < 0
  · by_cases negative' : b < 0
    · have := words (show b.natAbs ≤ a.natAbs by omega)
      simp only [negative, negative', decide_true, if_true]
      omega
    · simp only [negative, negative', decide_true, decide_false, if_true, Bool.false_eq_true,
        if_false]
      omega
  · have := words (show a.natAbs ≤ b.natAbs by omega)
    have positive : ¬ b < 0 := by omega
    simp only [negative, positive, decide_false, Bool.false_eq_true, if_false]
    omega

end Binary64

namespace Number

variable {n m k : Number} {a b : Int}

theorem int_of_signed (signed : n.signed? = some a) : ∃ lower upper, n = .int a lower upper := by
  cases n with
  | float x finite => cases signed
  | int b lower upper =>
      rw [signed?, Option.ite_none_right_eq_some, Option.some.injEq] at signed
      obtain ⟨-, rfl⟩ := signed
      exact ⟨lower, upper, rfl⟩

theorem toBinary64_of_signed (signed : n.signed? = some a) : n.toBinary64 = Binary64.ofInt a := by
  obtain ⟨lower, upper, rfl⟩ := int_of_signed signed
  rfl

theorem signed?_injective (first : n.signed? = some a) (second : m.signed? = some a) : n = m := by
  obtain ⟨lower, upper, rfl⟩ := int_of_signed first
  obtain ⟨lower', upper', rfl⟩ := int_of_signed second
  rfl

theorem compare_signed (first : n.signed? = some a) (second : m.signed? = some b) :
    n.compare m = Ord.compare a b := by
  simp only [compare, first, second]

theorem compare_unsigned (unsigned : n.signed? = none ∨ m.signed? = none) :
    n.compare m = Ord.compare n.toBinary64.place m.toBinary64.place := by
  rw [← Binary64.compareTotal_eq]
  rcases unsigned with absent | absent
  · simp only [compare, absent]
  · cases first : n.signed? with
    | none => simp only [compare, first]
    | some a => simp only [compare, first, absent]

theorem compare_eq_of_signed (signed : n.signed? = some a) (signed' : m.signed? = some b) :
    n.compare m = .eq ↔ n = m := by
  rw [compare_signed signed signed', compare_eq_iff_eq]
  constructor
  · rintro rfl
    exact signed?_injective signed signed'
  · rintro rfl
    exact Option.some.inj (signed.symm.trans signed')

theorem compare_eq_of_unsigned (unsigned : n.signed? = none ∨ m.signed? = none) :
    n.compare m = .eq ↔ n.toBinary64 = m.toBinary64 := by
  rw [compare_unsigned unsigned, compare_eq_iff_eq]
  exact ⟨Binary64.place_injective, congrArg Binary64.place⟩

theorem compare_swap (n m : Number) : m.compare n = (n.compare m).swap := by
  cases first : n.signed? with
  | none =>
      rw [compare_unsigned (.inl first), compare_unsigned (.inr first)]
      exact Std.OrientedOrd.eq_swap
  | some a =>
      cases second : m.signed? with
      | none =>
          rw [compare_unsigned (.inl second), compare_unsigned (.inr second)]
          exact Std.OrientedOrd.eq_swap
      | some b =>
          rw [compare_signed first second, compare_signed second first]
          exact Std.OrientedOrd.eq_swap

theorem place_le_of_compare (le : n.compare m ≠ .gt) : n.toBinary64.place ≤ m.toBinary64.place := by
  cases first : n.signed? with
  | none => exact compare_le_iff_le.1 (compare_unsigned (.inl first) ▸ le)
  | some a =>
      cases second : m.signed? with
      | none => exact compare_le_iff_le.1 (compare_unsigned (.inr second) ▸ le)
      | some b =>
          rw [toBinary64_of_signed first, toBinary64_of_signed second]
          exact Binary64.place_ofInt_mono
            (compare_le_iff_le.1 (compare_signed first second ▸ le))

/-- The number is no integer of 64 signed bits, and two different ones have its nearest double. -/
def Hides (m n k : Number) : Prop :=
  m.signed? = none ∧ n.signed?.isSome = true ∧ k.signed?.isSome = true ∧ n ≠ k ∧
    n.toBinary64 = m.toBinary64 ∧ k.toBinary64 = m.toBinary64

instance (m n k : Number) : Decidable (m.Hides n k) :=
  inferInstanceAs (Decidable (_ ∧ _))

/-- The order goes on past a number that does not hide its neighbours from each other. -/
theorem compare_trans (plain : ¬ m.Hides n k) (first : n.compare m ≠ .gt)
    (second : m.compare k ≠ .gt) : n.compare k ≠ .gt := by
  have places := place_le_of_compare first
  have places' := place_le_of_compare second
  cases signed : n.signed? with
  | none =>
      rw [compare_unsigned (.inl signed)]
      exact compare_le_iff_le.2 (places.trans places')
  | some a =>
      cases signed' : k.signed? with
      | none =>
          rw [compare_unsigned (.inr signed')]
          exact compare_le_iff_le.2 (places.trans places')
      | some b =>
          rw [compare_signed signed signed', compare_le_iff_le]
          cases middle : m.signed? with
          | some c =>
              rw [compare_signed signed middle, compare_le_iff_le] at first
              rw [compare_signed middle signed', compare_le_iff_le] at second
              exact first.trans second
          | none =>
              -- The ends have their doubles on both sides of that of the middle. Were they in the
              -- other order themselves, all three doubles would be one.
              by_contra above
              have back := Binary64.place_ofInt_mono (le_of_not_ge above)
              rw [← toBinary64_of_signed signed, ← toBinary64_of_signed signed'] at back
              refine plain ⟨middle, by rw [signed]; rfl, by rw [signed']; rfl, ?_,
                Binary64.place_injective (by omega), Binary64.place_injective (by omega)⟩
              rintro rfl
              rw [signed, Option.some.injEq] at signed'
              omega

theorem Hides.compare_eq (hides : m.Hides n k) : n.compare m = .eq ∧ m.compare k = .eq := by
  obtain ⟨middle, -, -, -, same, same'⟩ := hides
  exact ⟨(compare_eq_of_unsigned (.inr middle)).2 same,
    (compare_eq_of_unsigned (.inl middle)).2 same'.symm⟩

/-- Three numbers are out of order just if the one in the middle hides the others, and these are in
the wrong order. -/
theorem compare_trans_iff : (n.compare m ≠ .gt → m.compare k ≠ .gt → n.compare k ≠ .gt) ↔
    ¬ (m.Hides n k ∧ n.compare k = .gt) := by
  constructor
  · rintro transitive ⟨hides, above⟩
    obtain ⟨first, second⟩ := hides.compare_eq
    exact transitive (by simp [first]) (by simp [second]) above
  · intro plain first second above
    exact compare_trans (fun hides => plain ⟨hides, above⟩) first second above

theorem Hides.large (hides : m.Hides n k) : ¬ m.IsSmall ∧ ¬ n.IsSmall ∧ ¬ k.IsSmall := by
  obtain ⟨-, signed, signed', apart, same, same'⟩ := hides
  have middle : n.IsSmall ↔ m.IsSmall := by rw [isSmall_iff, isSmall_iff, same]
  have middle' : k.IsSmall ↔ m.IsSmall := by rw [isSmall_iff, isSmall_iff, same']
  suffices large : ¬ k.IsSmall from ⟨mt middle'.2 large, mt (middle'.2 ∘ middle.1) large, large⟩
  intro small
  obtain ⟨a, first⟩ := Option.isSome_iff_exists.1 signed
  obtain ⟨b, second⟩ := Option.isSome_iff_exists.1 signed'
  obtain ⟨lower, upper, rfl⟩ := int_of_signed first
  obtain ⟨lower', upper', rfl⟩ := int_of_signed second
  obtain rfl := (Binary64.ofInt_eq_iff (isSmall_int.1 small)).1 (same.trans same'.symm)
  exact apart rfl

/-- One of three numbers hides the two others from each other. -/
def Blurred (n m k : Number) : Prop :=
  m.Hides n k ∨ k.Hides m n ∨ n.Hides k m

theorem Blurred.large (blurred : Blurred n m k) : ¬ n.IsSmall ∧ ¬ m.IsSmall ∧ ¬ k.IsSmall := by
  obtain hides | hides | hides := blurred
  · exact ⟨hides.large.2.1, hides.large.1, hides.large.2.2⟩
  · exact ⟨hides.large.2.2, hides.large.2.1, hides.large.1⟩
  · exact ⟨hides.large.1, hides.large.2.2, hides.large.2.1⟩

end Number
end Docstore
