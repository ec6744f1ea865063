import Docstore.Proofs.Number.Decimal

set_option autoImplicit false

namespace Docstore

namespace Decimal

def plainReading (text : List Char) : ℚ :=
  Nat.ofDigitChars 10 (text.filter (· ≠ '.')) 0 / 10 ^ ((text.dropWhile (· ≠ '.')).length - 1)

def exponentReading : List Char → Int
  | [] => 0
  | sign :: digits =>
    if sign = '-' then -(Nat.ofDigitChars 10 digits 0) else Nat.ofDigitChars 10 digits 0

def reading (text : List Char) : ℚ :=
  plainReading (text.takeWhile (· ≠ 'e')) *
    10 ^ exponentReading ((text.dropWhile (· ≠ 'e')).drop 1)

def Numeric (c : Char) : Prop :=
  c.isDigit = true ∨ c = '-' ∨ c = '.' ∨ c = 'e' ∨ c = '+'

/-- A text that begins with a digit and has only characters of numbers. -/
structure Unsigned (text : List Char) : Prop where
  head : ∃ c rest, text = c :: rest ∧ c.isDigit = true
  all : ∀ c ∈ text, Numeric c

/-- A text that begins with a digit and has only digits and points. -/
structure Pointed (text : List Char) : Prop where
  head : ∃ c rest, text = c :: rest ∧ c.isDigit = true
  all : ∀ c ∈ text, c.isDigit = true ∨ c = '.'

variable {digits front back text : List Char}

theorem Pointed.unsigned (pointed : Pointed text) : Unsigned text :=
  ⟨pointed.head, fun c there => (pointed.all c there).imp_right fun point => .inr (.inl point)⟩

theorem Pointed.no_power (pointed : Pointed text) : 'e' ∉ text := by
  intro there
  have := pointed.all 'e' there
  simp at this

theorem isDigit_toDigits (k : Nat) : ∀ c ∈ Nat.toDigits 10 k, c.isDigit = true :=
  fun _ there => Nat.isDigit_of_mem_toDigits (by decide) (by decide) there

theorem ne_of_isDigit {c other : Char} (digit : c.isDigit = true) (plain : other.isDigit = false) :
    c ≠ other := by
  rintro rfl
  rw [plain] at digit
  cases digit

theorem plainReading_digits (all : ∀ c ∈ digits, c.isDigit = true) :
    plainReading digits = Nat.ofDigitChars 10 digits 0 := by
  have plain : ∀ c ∈ digits, (c ≠ '.') := fun c there => ne_of_isDigit (all c there) rfl
  rw [plainReading, List.filter_eq_self.2 (by simpa using plain),
    List.dropWhile_eq_nil_iff.2 (by simpa using plain)]
  simp

theorem plainReading_point (allFront : ∀ c ∈ front, c.isDigit = true)
    (allBack : ∀ c ∈ back, c.isDigit = true) :
    plainReading (front ++ '.' :: back) =
      Nat.ofDigitChars 10 (front ++ back) 0 / 10 ^ back.length := by
  have plainFront : ∀ c ∈ front, (c ≠ '.') := fun c there => ne_of_isDigit (allFront c there) rfl
  have plainBack : ∀ c ∈ back, (c ≠ '.') := fun c there => ne_of_isDigit (allBack c there) rfl
  have kept : (front ++ '.' :: back).filter (· ≠ '.') = front ++ back := by
    rw [List.filter_append, List.filter_cons_of_neg (by simp),
      List.filter_eq_self.2 (by simpa using plainFront),
      List.filter_eq_self.2 (by simpa using plainBack)]
  have dropped : (front ++ '.' :: back).dropWhile (· ≠ '.') = '.' :: back := by
    rw [List.dropWhile_append_of_pos (by simpa using plainFront)]
    simp
  rw [plainReading, kept, dropped, List.length_cons, Nat.add_sub_cancel]

theorem reading_plain (unmarked : 'e' ∉ text) : reading text = plainReading text := by
  have all : ∀ c ∈ text, decide (c ≠ 'e') = true := fun c there =>
    decide_eq_true fun same => unmarked (same ▸ there)
  rw [reading, List.takeWhile_eq_self_iff.2 all, List.dropWhile_eq_nil_iff.2 all]
  simp [exponentReading]

theorem reading_power (unmarked : 'e' ∉ front) :
    reading (front ++ 'e' :: back) = plainReading front * 10 ^ exponentReading back := by
  have all : ∀ c ∈ front, decide (c ≠ 'e') = true := fun c there =>
    decide_eq_true fun same => unmarked (same ▸ there)
  rw [reading, List.takeWhile_append_of_pos all, List.dropWhile_append_of_pos all]
  simp

/-- Digits with a point somewhere read as the digits at that power of ten. -/
theorem positional_reading (mark : Bool) (all : ∀ c ∈ digits, c.isDigit = true) (places : Int) :
    plainReading (FloatLayout.positional mark digits places) =
      Nat.ofDigitChars 10 digits 0 * (10 : ℚ) ^ (places - digits.length) := by
  have zeros : ∀ n : Nat, ∀ c ∈ List.replicate n '0', c.isDigit = true := fun n c there => by
    rw [(List.mem_replicate.1 there).2]
    rfl
  have zero : ∀ c ∈ ['0'], c.isDigit = true := zeros 1
  have both : ∀ n : Nat, ∀ c ∈ digits ++ List.replicate n '0', c.isDigit = true :=
    fun n c there => (List.mem_append.1 there).elim (all c) (zeros n c)
  unfold FloatLayout.positional
  by_cases small : places ≤ 0
  · rw [if_pos small, show ∀ tail : List Char, '0' :: '.' :: tail = ['0'] ++ '.' :: tail from
      fun _ => rfl, plainReading_point zero
        (fun c there => (List.mem_append.1 there).elim (zeros _ c) (all c)),
      Nat.ofDigitChars_append, Nat.ofDigitChars_append, Nat.ofDigitChars_replicate_zero]
    rw [show Nat.ofDigitChars 10 ['0'] 0 = 0 from rfl, Nat.mul_zero, List.length_append,
      List.length_replicate, div_eq_mul_inv, ← zpow_natCast, ← zpow_neg]
    congr 2
    push_cast
    omega
  · rw [if_neg small]
    by_cases integral : digits.length ≤ places.toNat
    · have shifted : (Nat.ofDigitChars 10 (digits ++ List.replicate (places.toNat - digits.length)
          '0') 0 : ℚ) = Nat.ofDigitChars 10 digits 0 * (10 : ℚ) ^ (places - digits.length) := by
        rw [Nat.ofDigitChars_append, Nat.ofDigitChars_replicate_zero,
          show places - (digits.length : Int) = ((places.toNat - digits.length : ℕ) : Int) by omega,
          zpow_natCast]
        push_cast
        ring
      rw [if_pos integral]
      cases mark with
      | false =>
          rw [if_neg (by decide), List.append_nil, plainReading_digits (both _), shifted]
      | true =>
          rw [if_pos rfl, plainReading_point (both _) zero, Nat.ofDigitChars_append,
            ← shifted, Nat.ofDigitChars_cons]
          simp
    · rw [if_neg integral, plainReading_point (fun c there => all c (List.mem_of_mem_take there))
        (fun c there => all c (List.mem_of_mem_drop there)), List.take_append_drop,
        List.length_drop, div_eq_mul_inv, ← zpow_natCast, ← zpow_neg]
      congr 2
      omega

theorem positional_pointed (mark : Bool) (nonempty : digits ≠ [])
    (all : ∀ c ∈ digits, c.isDigit = true) (places : Int) :
    Pointed (FloatLayout.positional mark digits places) := by
  obtain ⟨first, others, rfl⟩ := List.exists_cons_of_ne_nil nonempty
  have zero : ∀ c, c = '0' → c.isDigit = true := fun c same => same ▸ rfl
  have zeros : ∀ n c, c ∈ List.replicate n '0' → c.isDigit = true := fun n c there =>
    zero c (List.mem_replicate.1 there).2
  unfold FloatLayout.positional
  split
  · refine ⟨⟨'0', _, rfl, rfl⟩, fun c there => ?_⟩
    rw [List.mem_cons, List.mem_cons, List.mem_append] at there
    rcases there with same | point | inZeros | inDigits
    · exact .inl (zero c same)
    · exact .inr point
    · exact .inl (zeros _ c inZeros)
    · exact .inl (all c inDigits)
  · split
    · refine ⟨⟨first, _, rfl, all first List.mem_cons_self⟩, fun c there => ?_⟩
      rw [List.mem_append, List.mem_append] at there
      rcases there with (inDigits | inZeros) | inTail
      · exact .inl (all c inDigits)
      · exact .inl (zeros _ c inZeros)
      · cases mark with
        | false => cases inTail
        | true =>
            rcases List.mem_cons.1 inTail with point | last
            · exact .inr point
            · exact .inl (zero c (List.mem_singleton.1 last))
    · obtain ⟨n, positive⟩ : ∃ n, places.toNat = n + 1 := ⟨places.toNat - 1, by omega⟩
      rw [positive]
      refine ⟨⟨first, _, rfl, all first List.mem_cons_self⟩, fun c there => ?_⟩
      rcases List.mem_append.1 there with inFront | inBack
      · exact .inl (all c (List.mem_of_mem_take inFront))
      · rcases List.mem_cons.1 inBack with point | inDrop
        · exact .inr point
        · exact .inl (all c (List.mem_of_mem_drop inDrop))

/-- The digits in front of a power of ten: one, and the others after a point. -/
def mantissa (digits : List Char) : List Char :=
  digits.take 1 ++ if digits.length ≤ 1 then [] else '.' :: digits.drop 1

def signedExponent (leading : Int) : List Char :=
  (if leading < 0 then '-' else '+') :: Nat.toDigits 10 leading.natAbs

theorem scientific_eq (digits : List Char) (leading : Int) :
    FloatLayout.scientific digits leading = mantissa digits ++ 'e' :: signedExponent leading := rfl

theorem exponentReading_signed (leading : Int) :
    exponentReading (signedExponent leading) = leading := by
  rw [signedExponent, exponentReading, Nat.ofDigitChars_ten_toDigits]
  by_cases below : leading < 0
  · rw [if_pos below, if_pos rfl]
    omega
  · rw [if_neg below, if_neg (by decide)]
    omega

theorem numeric_signedExponent (leading : Int) : ∀ c ∈ signedExponent leading, Numeric c := by
  intro c there
  rcases List.mem_cons.1 there with rfl | inDigits
  · split
    · exact .inr (.inl rfl)
    · exact .inr (.inr (.inr (.inr rfl)))
  · exact .inl (isDigit_toDigits _ c inDigits)

theorem mantissa_pointed (nonempty : digits ≠ []) (all : ∀ c ∈ digits, c.isDigit = true) :
    Pointed (mantissa digits) := by
  obtain ⟨first, others, rfl⟩ := List.exists_cons_of_ne_nil nonempty
  refine ⟨⟨first, _, rfl, all first List.mem_cons_self⟩, fun c there => ?_⟩
  rcases List.mem_append.1 there with inFront | inBack
  · exact .inl (all c (List.mem_of_mem_take inFront))
  · split at inBack
    · cases inBack
    · rcases List.mem_cons.1 inBack with point | inDrop
      · exact .inr point
      · exact .inl (all c (List.mem_of_mem_drop inDrop))

theorem mantissa_reading (nonempty : digits ≠ []) (all : ∀ c ∈ digits, c.isDigit = true) :
    plainReading (mantissa digits) =
      Nat.ofDigitChars 10 digits 0 * (10 : ℚ) ^ (1 - (digits.length : Int)) := by
  obtain ⟨first, others, rfl⟩ := List.exists_cons_of_ne_nil nonempty
  have front : ∀ c ∈ [first], c.isDigit = true := fun c there =>
    all c (List.mem_cons.2 (.inl (List.mem_singleton.1 there)))
  unfold mantissa
  split
  · rename_i short
    obtain rfl : others = [] := by simpa using short
    rw [List.append_nil, List.take_succ_cons, List.take_zero, plainReading_digits front]
    simp
  · rw [List.take_succ_cons, List.take_zero, List.drop_succ_cons, List.drop_zero,
      plainReading_point front fun c there => all c (List.mem_cons_of_mem _ there),
      List.singleton_append, div_eq_mul_inv, ← zpow_natCast, ← zpow_neg, List.length_cons]
    congr 2
    push_cast
    ring

theorem scientific_unsigned (nonempty : digits ≠ []) (all : ∀ c ∈ digits, c.isDigit = true)
    (leading : Int) : Unsigned (FloatLayout.scientific digits leading) := by
  have pointed := mantissa_pointed nonempty all
  obtain ⟨first, others, form, digit⟩ := pointed.head
  rw [scientific_eq]
  refine ⟨⟨first, others ++ 'e' :: signedExponent leading, by rw [form]; rfl, digit⟩,
    fun c there => ?_⟩
  rcases List.mem_append.1 there with inFront | inBack
  · exact pointed.unsigned.all c inFront
  · rcases List.mem_cons.1 inBack with rfl | inExponent
    · exact .inr (.inr (.inr (.inl rfl)))
    · exact numeric_signedExponent leading c inExponent

/-- One digit, a point and a power of ten read as the digits at that power. -/
theorem scientific_reading (nonempty : digits ≠ []) (all : ∀ c ∈ digits, c.isDigit = true)
    (leading : Int) :
    reading (FloatLayout.scientific digits leading) =
      Nat.ofDigitChars 10 digits 0 * (10 : ℚ) ^ (leading - digits.length + 1) := by
  rw [scientific_eq, reading_power (mantissa_pointed nonempty all).no_power,
    mantissa_reading nonempty all, exponentReading_signed, mul_assoc, ← zpow_add₀ (by norm_num)]
  congr 2
  ring

end Decimal

/-- What is written of a double reads back as its shortest decimal. -/
theorem FloatLayout.render_reading (layout : FloatLayout) (x : Binary64) :
    ∃ text, layout.render x = (if x.negative then ['-'] else []) ++ text ∧
      Decimal.Unsigned text ∧
      Decimal.reading text = (Decimal.shortest layout.tie x).value := by
  have nonempty : Nat.toDigits 10 (Decimal.shortest layout.tie x).digits ≠ [] := Nat.toDigits_ne_nil
  have all := Decimal.isDigit_toDigits (Decimal.shortest layout.tie x).digits
  refine ⟨_, rfl, ?_⟩
  split
  · have pointed := Decimal.positional_pointed layout.markIntegral nonempty all
      ((Decimal.shortest layout.tie x).exponent +
        (Nat.toDigits 10 (Decimal.shortest layout.tie x).digits).length - 1 + 1)
    refine ⟨pointed.unsigned, ?_⟩
    rw [Decimal.reading_plain pointed.no_power, Decimal.positional_reading _ all,
      Nat.ofDigitChars_ten_toDigits, Decimal.value]
    congr 2
    ring
  · refine ⟨Decimal.scientific_unsigned nonempty all _, ?_⟩
    rw [Decimal.scientific_reading nonempty all, Nat.ofDigitChars_ten_toDigits, Decimal.value]
    congr 2
    ring

theorem FloatLayout.render_spec (layout : FloatLayout) (x : Binary64) :
    ∃ text, layout.render x = (if x.negative then ['-'] else []) ++ text ∧
      Decimal.Unsigned text ∧ x.Rounds (Decimal.reading text) := by
  obtain ⟨text, form, unsigned, reads⟩ := layout.render_reading x
  exact ⟨text, form, unsigned, reads ▸ Decimal.shortest_rounds layout.tie x⟩

end Docstore
