import Docstore.Program.Cache
import Docstore.Proofs.Json.Equality

set_option autoImplicit false

namespace Docstore

namespace FloatLayout

theorem marked_positional (digits : List Char) (places : Int) :
    '.' ∈ positional true digits places := by
  unfold positional
  split
  · exact List.mem_cons_of_mem _ List.mem_cons_self
  · split
    · exact List.mem_append_right _ List.mem_cons_self
    · exact List.mem_append_right _ List.mem_cons_self

theorem power_scientific (digits : List Char) (leading : Int) : 'e' ∈ scientific digits leading :=
  List.mem_append_right _ List.mem_cons_self

theorem marked_render (layout : FloatLayout) (marks : layout.markIntegral = true) (x : Binary64) :
    ∃ c ∈ layout.render x, c = '.' ∨ c = 'e' := by
  have behind : ∀ front back : List Char, (∃ c ∈ back, c = '.' ∨ c = 'e') →
      ∃ c ∈ front ++ back, c = '.' ∨ c = 'e' := by
    rintro front back ⟨c, there, mark⟩
    exact ⟨c, List.mem_append_right _ there, mark⟩
  refine behind _ _ ?_
  rw [marks]
  split
  · exact ⟨_, marked_positional _ _, .inl rfl⟩
  · exact ⟨_, power_scientific _ _, .inr rfl⟩

end FloatLayout

namespace Number

variable {n m : Number} {x : Binary64}

/-- The JSON text of a double is not that of an integer. -/
theorem text_float_ne {finite : x.isFinite = true} (a : Int) :
    text (.float x finite) ≠ integerText a := by
  intro same
  have plain : ∀ c, c = '.' ∨ c = 'e' → c ∉ integerText a := by
    intro c mark there
    rw [integerText_eq, signed] at there
    obtain sign | digit := List.mem_append.1 there
    · split at sign
      · obtain rfl := List.mem_singleton.1 sign
        simp at mark
      · cases sign
    · have isDigit := Decimal.isDigit_toDigits _ _ digit
      obtain rfl | rfl := mark
      · simp at isDigit
      · simp at isDigit
  obtain ⟨c, there, mark⟩ := FloatLayout.marked_render jsonLayout rfl x
  exact plain c mark (same ▸ there)

theorem digital_text : Json.Digital text := by
  refine digital_of_signed fun n => ?_
  cases n with
  | int a lower upper => exact ⟨_, _, integerText_eq a, unsigned_toDigits _⟩
  | float x finite =>
      obtain ⟨digits, same, unsigned, -⟩ := FloatLayout.render_spec jsonLayout x
      exact ⟨_, digits, same, unsigned⟩

/-- Different numbers have different JSON texts. -/
theorem text_injective (same : n.text = m.text) : n = m := by
  cases n with
  | int a lower upper =>
      cases m with
      | int b lower' upper' =>
          obtain rfl := integerText_injective same
          rfl
      | float y finite => exact absurd same.symm (text_float_ne a)
  | float x finite =>
      cases m with
      | int b lower upper => exact absurd same (text_float_ne b)
      | float y finite' =>
          obtain ⟨digits, form, unsigned, rounds⟩ := FloatLayout.render_spec jsonLayout x
          obtain ⟨digits', form', unsigned', rounds'⟩ := FloatLayout.render_spec jsonLayout y
          have renders : jsonLayout.render x = jsonLayout.render y := same
          rw [form, form'] at renders
          obtain ⟨sign, rfl⟩ := signed_injective unsigned unsigned' renders
          have magnitude := Binary64.magnitude_eq_of_rounds rounds rounds'
          obtain ⟨negative, word, bound⟩ := x
          obtain ⟨negative', word', bound'⟩ := y
          obtain rfl : negative = negative' := sign
          obtain rfl : word = word' := magnitude
          rfl

end Number

namespace Json

variable {number : Number → List Char}

mutual

/-- Where numbers have texts of their own, values that are alike are one. -/
theorem eq_of_alike (injective : ∀ n m, number n = number m → n = m) : ∀ (a b : Json),
    Alike number a b → a = b
  | .null, b, alike => by
      cases b with
      | null => rfl
      | _ => simp only [Alike] at alike
  | .bool x, b, alike => by
      cases b with
      | bool y => rw [show x = y by simpa only [Alike] using alike]
      | _ => simp only [Alike] at alike
  | .number n, b, alike => by
      cases b with
      | number m => rw [injective n m (by simpa only [Alike] using alike)]
      | _ => simp only [Alike] at alike
  | .string x, b, alike => by
      cases b with
      | string y => rw [show x = y by simpa only [Alike] using alike]
      | _ => simp only [Alike] at alike
  | .array items, b, alike => by
      cases b with
      | array others =>
          simp only [Alike] at alike
          rw [items_eq_of_alike injective items others alike]
      | _ => simp only [Alike] at alike
  | .object members, b, alike => by
      cases b with
      | object others =>
          simp only [Alike] at alike
          rw [members_eq_of_alike injective members others alike]
      | _ => simp only [Alike] at alike

theorem items_eq_of_alike (injective : ∀ n m, number n = number m → n = m) :
    ∀ (as bs : List Json), AlikeItems number as bs → as = bs
  | [], bs, alike => by
      cases bs with
      | nil => rfl
      | cons b bs => simp only [AlikeItems] at alike
  | a :: as, bs, alike => by
      cases bs with
      | nil => simp only [AlikeItems] at alike
      | cons b bs =>
          simp only [AlikeItems] at alike
          rw [eq_of_alike injective a b alike.1, items_eq_of_alike injective as bs alike.2]

theorem members_eq_of_alike (injective : ∀ n m, number n = number m → n = m) :
    ∀ (as bs : List (String × Json)), AlikeMembers number as bs → as = bs
  | [], bs, alike => by
      cases bs with
      | nil => rfl
      | cons b bs => simp only [AlikeMembers] at alike
  | (key, a) :: as, bs, alike => by
      cases bs with
      | nil => simp only [AlikeMembers] at alike
      | cons member bs =>
          obtain ⟨key', b⟩ := member
          simp only [AlikeMembers] at alike
          obtain ⟨rfl, alike, others⟩ := alike
          rw [eq_of_alike injective a b alike, members_eq_of_alike injective as bs others]

end

/-- The text of a value ends before anything that is no part of a number, and belongs to no other
value. -/
theorem textChars_injective {a b : Json} {rest rest' : List Char} (stops : Stops rest)
    (stops' : Stops rest') (same : a.textChars ++ rest = b.textChars ++ rest') :
    a = b ∧ rest = rest' := by
  obtain ⟨alike, left⟩ := alike_of_text Number.digital_text a b stops stops' same
  exact ⟨eq_of_alike (fun _ _ => Number.text_injective) a b alike, left⟩

end Json

theorem SortOrder.word_injective {a b : SortOrder} (same : a.word = b.word) : a = b := by
  cases a <;> cases b <;> first | rfl | (simp [word] at same)

theorem SortSpec.requestText_form : ∃ front between, ∀ spec : SortSpec, spec.requestText =
    front ++ Json.quoted spec.path ++ between ++ Json.quoted spec.order.word ++ ['\x7d'] :=
  ⟨_, _, fun _ => rfl⟩

theorem SortSpec.requestText_injective {a b : SortSpec} {rest rest' : List Char}
    (same : a.requestText ++ rest = b.requestText ++ rest') : a = b ∧ rest = rest' := by
  obtain ⟨front, between, form⟩ := requestText_form
  obtain ⟨path, order⟩ := a
  obtain ⟨path', order'⟩ := b
  rw [form, form] at same
  simp only [List.append_assoc, List.append_cancel_left_eq] at same
  obtain ⟨rfl, orders⟩ := Json.quoted_injective same
  rw [List.append_cancel_left_eq] at orders
  obtain ⟨words, left⟩ := Json.quoted_injective orders
  obtain rfl := SortOrder.word_injective words
  exact ⟨rfl, List.append_cancel_left left⟩

theorem SortSpec.requestText_ne_null (spec : SortSpec) (rest rest' : List Char) :
    spec.requestText ++ rest ≠ Json.nullText ++ rest' := by
  intro same
  have head := congrArg List.head? same
  have first : (spec.requestText ++ rest).head? = some '\x7b' := rfl
  rw [first, Json.nullText] at head
  cases head

theorem toDigits_injective {n m : Nat} (same : Nat.toDigits 10 n = Nat.toDigits 10 m) : n = m := by
  rw [← Nat.ofDigitChars_ten_toDigits (n := n), same, Nat.ofDigitChars_ten_toDigits]

theorem toDigits_ne_null (n : Nat) (rest rest' : List Char) :
    Nat.toDigits 10 n ++ rest ≠ Json.nullText ++ rest' := by
  intro same
  obtain ⟨c, others, form, digit⟩ := (Number.unsigned_toDigits n).head
  rw [form, Json.nullText] at same
  rw [(List.cons.inj same).1] at digit
  cases digit

theorem Conditions.requestText_form : ∃ front between, ∀ conditions : Conditions,
    conditions.requestText =
      front ++ (conditions.sort.map SortSpec.requestText).getD Json.nullText ++ between ++
        (conditions.limit.map (Nat.toDigits 10)).getD Json.nullText ++ ['\x7d'] :=
  ⟨_, _, fun _ => rfl⟩

theorem Conditions.requestText_injective {a b : Conditions}
    (same : a.requestText = b.requestText) : a = b := by
  obtain ⟨front, between, form⟩ := requestText_form
  obtain ⟨sort, limit⟩ := a
  obtain ⟨sort', limit'⟩ := b
  rw [form, form] at same
  simp only [List.append_assoc, List.append_cancel_left_eq] at same
  obtain ⟨rfl, limits⟩ : sort = sort' ∧
      (limit.map (Nat.toDigits 10)).getD Json.nullText ++ ['\x7d'] =
        (limit'.map (Nat.toDigits 10)).getD Json.nullText ++ ['\x7d'] := by
    cases sort with
    | none =>
        cases sort' with
        | none =>
            rw [Option.map_none, List.append_cancel_left_eq, List.append_cancel_left_eq] at same
            exact ⟨rfl, same⟩
        | some spec => exact absurd same.symm (spec.requestText_ne_null _ _)
    | some spec =>
        cases sort' with
        | none => exact absurd same (spec.requestText_ne_null _ _)
        | some spec' =>
            obtain ⟨rfl, left⟩ := SortSpec.requestText_injective same
            rw [List.append_cancel_left_eq] at left
            exact ⟨rfl, left⟩
  cases limit with
  | none =>
      cases limit' with
      | none => rfl
      | some count => exact absurd limits.symm (toDigits_ne_null count _ _)
  | some count =>
      cases limit' with
      | none => exact absurd limits (toDigits_ne_null count _ _)
      | some count' =>
          obtain rfl := toDigits_injective (List.append_cancel_right limits)
          rfl

theorem Request.chars_form : ∃ front front' : List Char, front.head? ≠ front'.head? ∧
    front ≠ [] ∧ front' ≠ [] ∧
    (∀ predicate conditions, (Request.query predicate conditions).chars =
      front ++ predicate.textChars ++ '|' :: conditions.requestText) ∧
    ∀ source, (Request.mutation source).chars = front' ++ source.textChars :=
  ⟨"query:".toList, "mutate:".toList, by decide, by decide, by decide, fun _ _ => rfl,
    fun _ => rfl⟩

/-- Different requests have different texts. -/
theorem Request.text_injective {first second : Request} (same : first.text = second.text) :
    first = second := by
  obtain ⟨front, front', apart, full, full', query, mutation⟩ := chars_form
  have same : first.chars = second.chars := String.ofList_injective same
  have other : ∀ back back', front ++ back ≠ front' ++ back' := by
    intro back back' same
    have heads := congrArg List.head? same
    rw [List.head?_append_of_ne_nil _ full, List.head?_append_of_ne_nil _ full'] at heads
    exact apart heads
  cases first with
  | query predicate conditions =>
      cases second with
      | query predicate' conditions' =>
          rw [query, query] at same
          simp only [List.append_assoc, List.append_cancel_left_eq] at same
          have stops : ∀ text, Json.Stops ('|' :: text) := by
            intro text c there
            obtain rfl := Option.some.inj there
            simp [Decimal.Numeric]
          obtain ⟨rfl, left⟩ := Json.textChars_injective (stops _) (stops _) same
          obtain rfl := Conditions.requestText_injective (List.cons.inj left).2
          rfl
      | mutation source =>
          rw [query, mutation, List.append_assoc] at same
          exact absurd same (other _ _)
  | mutation source =>
      cases second with
      | query predicate conditions =>
          rw [query, mutation, List.append_assoc] at same
          exact absurd same.symm (other _ _)
      | mutation source' =>
          have stops : Json.Stops [] := fun c there => by cases there
          rw [mutation, mutation, List.append_cancel_left_eq] at same
          exact congrArg Request.mutation
            (Json.textChars_injective stops stops (congrArg (· ++ []) same)).1

end Docstore
