import Docstore.Json.Compare
import Docstore.Proofs.Number.Text

set_option autoImplicit false

namespace Docstore
namespace Json

open Decimal (Numeric)

def hexValue (c : Char) : Nat :=
  if c.isDigit then c.toNat - 48 else c.toNat - 87

/-- The first character of the content of a string and what follows it. -/
def unescape : List Char → Option (Char × List Char)
  | '\\' :: 'b' :: rest => some ('\x08', rest)
  | '\\' :: 'f' :: rest => some ('\x0c', rest)
  | '\\' :: 'n' :: rest => some ('\n', rest)
  | '\\' :: 'r' :: rest => some ('\r', rest)
  | '\\' :: 't' :: rest => some ('\t', rest)
  | '\\' :: 'u' :: _ :: _ :: high :: low :: rest =>
    some (Char.ofNat (16 * hexValue high + hexValue low), rest)
  | '\\' :: c :: rest => some (c, rest)
  | '"' :: _ => none
  | c :: rest => some (c, rest)
  | [] => none

theorem control_digits : ∀ n : Nat, n < 0x20 →
    Char.ofNat (16 * hexValue (hexDigit (n / 16)) + hexValue (hexDigit (n % 16))) =
      Char.ofNat n := by
  decide

theorem unescape_escapeChar (c : Char) (rest : List Char) :
    unescape (escapeChar c ++ rest) = some (c, rest) := by
  unfold escapeChar
  split
  · rename_i quote
    subst quote
    rfl
  · rename_i notQuote
    split
    · rename_i backslash
      subst backslash
      rfl
    · rename_i notBackslash
      split
      · rename_i same
        subst same
        rfl
      · split
        · rename_i same
          subst same
          rfl
        · split
          · rename_i same
            subst same
            rfl
          · split
            · rename_i same
              subst same
              rfl
            · split
              · rename_i same
                subst same
                rfl
              · split
                · rename_i control
                  have value := control_digits c.toNat control
                  rw [Char.ofNat_toNat] at value
                  simp only [List.cons_append, List.nil_append, unescape, value]
                · simp only [List.cons_append, List.nil_append]
                  unfold unescape
                  grind

/-- The content of a string ends at its closing quote. -/
theorem escape_injective {first second rest rest' : List Char}
    (same : escape first ++ '"' :: rest = escape second ++ '"' :: rest') :
    first = second ∧ rest = rest' := by
  have closed : ∀ tail, unescape ('"' :: tail) = none := fun _ => rfl
  have step : ∀ c cs tail, unescape (escape (c :: cs) ++ tail) = some (c, escape cs ++ tail) :=
    fun c cs tail => by
      rw [escape, List.flatMap_cons, List.append_assoc, unescape_escapeChar]
      rfl
  induction first generalizing second with
  | nil =>
      cases second with
      | nil => exact ⟨rfl, (List.cons.inj same).2⟩
      | cons d ds =>
          have read := congrArg unescape same
          rw [step, show escape [] ++ '"' :: rest = '"' :: rest from rfl, closed] at read
          cases read
  | cons c cs ih =>
      cases second with
      | nil =>
          have read := congrArg unescape same
          rw [step, show escape [] ++ '"' :: rest' = '"' :: rest' from rfl, closed] at read
          cases read
      | cons d ds =>
          have read := congrArg unescape same
          rw [step, step, Option.some.injEq, Prod.mk.injEq] at read
          obtain ⟨rfl, tail⟩ := read
          obtain ⟨rfl, left⟩ := ih tail
          exact ⟨rfl, left⟩

theorem quoted_injective {first second : String} {rest rest' : List Char}
    (same : quoted first ++ rest = quoted second ++ rest') : first = second ∧ rest = rest' := by
  simp only [quoted, List.cons_append, List.append_assoc, List.nil_append, List.cons.injEq,
    true_and] at same
  obtain ⟨chars, left⟩ := escape_injective same
  exact ⟨String.toList_inj.1 chars, left⟩

mutual

def Alike (number : Number → List Char) : Json → Json → Prop
  | .null, .null => True
  | .bool a, .bool b => a = b
  | .number a, .number b => number a = number b
  | .string a, .string b => a = b
  | .array a, .array b => AlikeItems number a b
  | .object a, .object b => AlikeMembers number a b
  | _, _ => False

def AlikeItems (number : Number → List Char) : List Json → List Json → Prop
  | [], [] => True
  | a :: as, b :: bs => Alike number a b ∧ AlikeItems number as bs
  | _, _ => False

def AlikeMembers (number : Number → List Char) :
    List (String × Json) → List (String × Json) → Prop
  | [], [] => True
  | (key, a) :: as, (key', b) :: bs => key = key' ∧ Alike number a b ∧ AlikeMembers number as bs
  | _, _ => False

end

/-- Texts of numbers that have characters of numbers only, one at least. -/
structure Digital (number : Number → List Char) : Prop where
  head : ∀ n, ∃ c rest, number n = c :: rest
  all : ∀ n, ∀ c ∈ number n, Numeric c

def Stops (rest : List Char) : Prop :=
  ∀ c ∈ rest.head?, ¬ Numeric c

theorem stops_of_comma (rest : List Char) : Stops (',' :: rest) := by
  intro c there
  obtain rfl := Option.some.inj there
  simp [Numeric]

theorem stops_of_bracket (rest : List Char) : Stops (']' :: rest) := by
  intro c there
  obtain rfl := Option.some.inj there
  simp [Numeric]

theorem stops_of_brace (rest : List Char) : Stops ('\x7d' :: rest) := by
  intro c there
  obtain rfl := Option.some.inj there
  simp [Numeric]

/-- Two runs of characters of numbers end at the same place. -/
theorem numeric_injective {first second rest rest' : List Char} (all : ∀ c ∈ first, Numeric c)
    (all' : ∀ c ∈ second, Numeric c) (stops : Stops rest) (stops' : Stops rest')
    (same : first ++ rest = second ++ rest') : first = second ∧ rest = rest' := by
  induction first generalizing second with
  | nil =>
      cases second with
      | nil => exact ⟨rfl, same⟩
      | cons d ds =>
          refine absurd (all' d List.mem_cons_self) (stops d ?_)
          rw [show rest = d :: (ds ++ rest') from same]
          rfl
  | cons c cs ih =>
      cases second with
      | nil =>
          refine absurd (all c List.mem_cons_self) (stops' c ?_)
          rw [show rest' = c :: (cs ++ rest) from same.symm]
          rfl
      | cons d ds =>
          obtain ⟨rfl, tail⟩ := List.cons.inj same
          obtain ⟨rfl, left⟩ := ih (fun c there => all c (List.mem_cons_of_mem _ there))
            (fun c there => all' c (List.mem_cons_of_mem _ there)) tail
          exact ⟨rfl, left⟩

def kindOf (c : Char) : Nat :=
  if c = 'n' then 0 else if c = 't' ∨ c = 'f' then 1 else if c = '"' then 3 else if c = '[' then 4
  else if c = '\x7b' then 5 else if c = ']' ∨ c = '\x7d' then 6 else 2

variable {number : Number → List Char}

theorem kindOf_numeric {c : Char} (numeric : Numeric c) : kindOf c = 2 := by
  have plain : ∀ other : Char, ¬ Numeric other → c ≠ other := by
    rintro other not rfl
    exact not numeric
  unfold kindOf
  rw [if_neg (plain _ (by simp [Numeric])), if_neg (not_or.2 ⟨plain _ (by simp [Numeric]),
    plain _ (by simp [Numeric])⟩), if_neg (plain _ (by simp [Numeric])),
    if_neg (plain _ (by simp [Numeric])), if_neg (plain _ (by simp [Numeric])),
    if_neg (not_or.2 ⟨plain _ (by simp [Numeric]), plain _ (by simp [Numeric])⟩)]

theorem kindOf_head (digital : Digital number) (value : Json) :
    ∃ c rest, value.textWith number = c :: rest ∧ kindOf c = value.rank := by
  cases value with
  | bool b =>
      cases b with
      | false => exact ⟨_, _, rfl, rfl⟩
      | true => exact ⟨_, _, rfl, rfl⟩
  | number n =>
      obtain ⟨c, rest, form⟩ := digital.head n
      exact ⟨c, rest, form, kindOf_numeric (digital.all n c (form ▸ List.mem_cons_self))⟩
  | _ => exact ⟨_, _, rfl, rfl⟩

theorem rank_eq_of_text (digital : Digital number) {a b : Json} {rest rest' : List Char}
    (same : a.textWith number ++ rest = b.textWith number ++ rest') : a.rank = b.rank := by
  obtain ⟨c, tail, form, kind⟩ := kindOf_head digital a
  obtain ⟨c', tail', form', kind'⟩ := kindOf_head digital b
  rw [form, form'] at same
  rw [← kind, ← kind', (List.cons.inj same).1]

theorem ne_end_of_text (digital : Digital number) {a : Json} {rest rest' : List Char} {c : Char}
    (last : kindOf c = 6) : a.textWith number ++ rest ≠ c :: rest' := by
  intro same
  obtain ⟨c', tail, form, kind⟩ := kindOf_head digital a
  rw [form] at same
  rw [(List.cons.inj same).1, last] at kind
  cases a <;> simp [rank] at kind

def afterItem (number : Number → List Char) (items : List Json) (rest : List Char) : List Char :=
  if items.isEmpty then ']' :: rest else ',' :: (itemsText number items ++ ']' :: rest)

theorem itemsText_cons (item : Json) (items : List Json) (rest : List Char) :
    itemsText number (item :: items) ++ ']' :: rest =
      item.textWith number ++ afterItem number items rest := by
  cases items with
  | nil => simp [itemsText, afterItem]
  | cons next others => simp [itemsText, afterItem]

theorem stops_afterItem (items : List Json) (rest : List Char) :
    Stops (afterItem number items rest) := by
  unfold afterItem
  split
  · exact stops_of_bracket rest
  · exact stops_of_comma _

def afterMember (number : Number → List Char) (members : List (String × Json))
    (rest : List Char) : List Char :=
  if members.isEmpty then '\x7d' :: rest else ',' :: (membersText number members ++ '\x7d' :: rest)

theorem membersText_cons (key : String) (value : Json) (members : List (String × Json))
    (rest : List Char) :
    membersText number ((key, value) :: members) ++ '\x7d' :: rest =
      quoted key ++ ':' :: (value.textWith number ++ afterMember number members rest) := by
  cases members with
  | nil => simp [membersText, afterMember]
  | cons next others => simp [membersText, afterMember]

theorem stops_afterMember (members : List (String × Json)) (rest : List Char) :
    Stops (afterMember number members rest) := by
  unfold afterMember
  split
  · exact stops_of_brace rest
  · exact stops_of_comma _

mutual

/-- The text of a value and what follows it are told apart, and the text determines the value. -/
theorem alike_of_text (digital : Digital number) : ∀ (a b : Json) {rest rest' : List Char},
    Stops rest → Stops rest' → a.textWith number ++ rest = b.textWith number ++ rest' →
      Alike number a b ∧ rest = rest'
  | .null, b, rest, rest', _, _, same => by
      have kinds := rank_eq_of_text digital same
      cases b with
      | null => exact ⟨trivial, List.append_cancel_left same⟩
      | _ => simp [rank] at kinds
  | .bool x, b, rest, rest', _, _, same => by
      have kinds := rank_eq_of_text digital same
      cases b with
      | bool y =>
          simp only [Alike]
          cases x with
          | false =>
              cases y with
              | false => exact ⟨rfl, List.append_cancel_left same⟩
              | true => simp [textWith, wordText] at same
          | true =>
              cases y with
              | false => simp [textWith, wordText] at same
              | true => exact ⟨rfl, List.append_cancel_left same⟩
      | _ => simp [rank] at kinds
  | .number n, b, rest, rest', stops, stops', same => by
      have kinds := rank_eq_of_text digital same
      cases b with
      | number m => exact numeric_injective (digital.all n) (digital.all m) stops stops' same
      | _ => simp [rank] at kinds
  | .string x, b, rest, rest', _, _, same => by
      have kinds := rank_eq_of_text digital same
      cases b with
      | string y => exact quoted_injective same
      | _ => simp [rank] at kinds
  | .array items, b, rest, rest', _, _, same => by
      have kinds := rank_eq_of_text digital same
      cases b with
      | array others =>
          simp only [textWith, List.cons_append, List.append_assoc, List.nil_append,
            List.cons.injEq, true_and] at same
          exact alikeItems_of_text digital items others same
      | _ => simp [rank] at kinds
  | .object members, b, rest, rest', _, _, same => by
      have kinds := rank_eq_of_text digital same
      cases b with
      | object others =>
          simp only [textWith, List.cons_append, List.append_assoc, List.nil_append,
            List.cons.injEq, true_and] at same
          exact alikeMembers_of_text digital members others same
      | _ => simp [rank] at kinds

theorem alikeItems_of_text (digital : Digital number) :
    ∀ (as bs : List Json) {rest rest' : List Char},
      itemsText number as ++ ']' :: rest = itemsText number bs ++ ']' :: rest' →
      AlikeItems number as bs ∧ rest = rest'
  | [], [], rest, rest', same => ⟨trivial, (List.cons.inj same).2⟩
  | [], b :: bs, rest, rest', same => by
      rw [itemsText_cons] at same
      exact absurd same.symm (ne_end_of_text digital rfl)
  | a :: as, [], rest, rest', same => by
      rw [itemsText_cons] at same
      exact absurd same (ne_end_of_text digital rfl)
  | a :: as, b :: bs, rest, rest', same => by
      rw [itemsText_cons, itemsText_cons] at same
      obtain ⟨alike, left⟩ :=
        alike_of_text digital a b (stops_afterItem as rest) (stops_afterItem bs rest') same
      have others : itemsText number as ++ ']' :: rest = itemsText number bs ++ ']' :: rest' := by
        cases as with
        | nil =>
            cases bs with
            | nil => exact left
            | cons d ds => simp [afterItem] at left
        | cons c cs =>
            cases bs with
            | nil => simp [afterItem] at left
            | cons d ds => simpa [afterItem] using left
      obtain ⟨alike', left'⟩ := alikeItems_of_text digital as bs others
      exact ⟨⟨alike, alike'⟩, left'⟩

theorem alikeMembers_of_text (digital : Digital number) :
    ∀ (as bs : List (String × Json)) {rest rest' : List Char},
      membersText number as ++ '\x7d' :: rest = membersText number bs ++ '\x7d' :: rest' →
      AlikeMembers number as bs ∧ rest = rest'
  | [], [], rest, rest', same => ⟨trivial, (List.cons.inj same).2⟩
  | [], (key, b) :: bs, rest, rest', same => by
      rw [membersText_cons] at same
      simp [membersText, quoted] at same
  | (key, a) :: as, [], rest, rest', same => by
      rw [membersText_cons] at same
      simp [membersText, quoted] at same
  | (key, a) :: as, (key', b) :: bs, rest, rest', same => by
      rw [membersText_cons, membersText_cons] at same
      obtain ⟨sameKey, value⟩ := quoted_injective same
      obtain ⟨alike, left⟩ := alike_of_text digital a b (stops_afterMember as rest)
        (stops_afterMember bs rest') (List.cons.inj value).2
      have others : membersText number as ++ '\x7d' :: rest =
          membersText number bs ++ '\x7d' :: rest' := by
        cases as with
        | nil =>
            cases bs with
            | nil => exact left
            | cons d ds => simp [afterMember] at left
        | cons c cs =>
            cases bs with
            | nil => simp [afterMember] at left
            | cons d ds => simpa [afterMember] using left
      obtain ⟨alike', left'⟩ := alikeMembers_of_text digital as bs others
      exact ⟨⟨sameKey, alike, alike'⟩, left'⟩

end

mutual

theorem textWith_congr : ∀ (a b : Json), Alike number a b →
    a.textWith number = b.textWith number
  | .null, b, alike => by
      cases b with
      | null => rfl
      | _ => simp only [Alike] at alike
  | .bool x, b, alike => by
      cases b with
      | bool y => rw [show x = y by simpa only [Alike] using alike]
      | _ => simp only [Alike] at alike
  | .number n, b, alike => by
      cases b with
      | number m => simpa only [Alike, textWith] using alike
      | _ => simp only [Alike] at alike
  | .string x, b, alike => by
      cases b with
      | string y => rw [show x = y by simpa only [Alike] using alike]
      | _ => simp only [Alike] at alike
  | .array items, b, alike => by
      cases b with
      | array others =>
          simp only [Alike] at alike
          rw [textWith, textWith, itemsText_congr items others alike]
      | _ => simp only [Alike] at alike
  | .object members, b, alike => by
      cases b with
      | object others =>
          simp only [Alike] at alike
          rw [textWith, textWith, membersText_congr members others alike]
      | _ => simp only [Alike] at alike

theorem itemsText_congr : ∀ (as bs : List Json), AlikeItems number as bs →
    itemsText number as = itemsText number bs
  | [], bs, alike => by
      cases bs with
      | nil => rfl
      | cons b bs => simp only [AlikeItems] at alike
  | a :: as, bs, alike => by
      cases bs with
      | nil => simp only [AlikeItems] at alike
      | cons b bs =>
          simp only [AlikeItems] at alike
          have first := textWith_congr a b alike.1
          have others := itemsText_congr as bs alike.2
          cases as with
          | nil =>
              cases bs with
              | nil => exact first
              | cons d ds => simp [AlikeItems] at alike
          | cons c cs =>
              cases bs with
              | nil => simp [AlikeItems] at alike
              | cons d ds => rw [itemsText, itemsText, first, others]

theorem membersText_congr : ∀ (as bs : List (String × Json)), AlikeMembers number as bs →
    membersText number as = membersText number bs
  | [], bs, alike => by
      cases bs with
      | nil => rfl
      | cons b bs => simp only [AlikeMembers] at alike
  | (key, a) :: as, bs, alike => by
      cases bs with
      | nil => simp only [AlikeMembers] at alike
      | cons member bs =>
          obtain ⟨key', b⟩ := member
          simp only [AlikeMembers] at alike
          obtain ⟨rfl, alike, alike'⟩ := alike
          have first := textWith_congr a b alike
          have others := membersText_congr as bs alike'
          cases as with
          | nil =>
              cases bs with
              | nil => rw [membersText, membersText, first]
              | cons d ds => simp [AlikeMembers] at alike'
          | cons c cs =>
              cases bs with
              | nil => simp [AlikeMembers] at alike'
              | cons d ds => rw [membersText, membersText, first, others]

end

theorem textWith_eq_iff (digital : Digital number) {a b : Json} :
    a.textWith number = b.textWith number ↔ Alike number a b := by
  refine ⟨fun same => ?_, textWith_congr a b⟩
  have stops : Stops [] := fun c there => by cases there
  exact (alike_of_text digital a b stops stops (by rw [same])).1

end Json
end Docstore
