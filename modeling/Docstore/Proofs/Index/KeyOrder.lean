import Mathlib
import Docstore.Index.Key

set_option autoImplicit false

namespace Docstore

namespace Binary64

/-- The place of a double among all doubles, negative zero before zero. -/
def place (x : Binary64) : Int :=
  if x.negative then -(x.magnitude : Int) - 1 else x.magnitude

theorem compareTotal_eq (x y : Binary64) : x.compareTotal y = compare x.place y.place := by
  obtain ⟨sx, mx, hx⟩ := x
  obtain ⟨sy, my, hy⟩ := y
  rw [Int.compare_eq_ite_lt]
  cases sx with
  | false =>
      cases sy with
      | false => simp only [compareTotal, place, Nat.compare_eq_ite_lt]; grind
      | true => simp only [compareTotal, place]; grind
  | true =>
      cases sy with
      | false => simp only [compareTotal, place]; grind
      | true => simp only [compareTotal, place, Nat.compare_eq_ite_lt]; grind

theorem place_injective {x y : Binary64} (same : x.place = y.place) : x = y := by
  obtain ⟨sx, mx, hx⟩ := x
  obtain ⟨sy, my, hy⟩ := y
  cases sx with
  | false =>
      cases sy with
      | false => simp only [place] at same; grind
      | true => simp only [place] at same; grind
  | true =>
      cases sy with
      | false => simp only [place] at same; grind
      | true => simp only [place] at same; grind

end Binary64

namespace Key

/-- What a key holds besides its kind, as a number and a text of which one is blank. -/
def content : Key → Int × String
  | .null => (0, "")
  | .bool b => (if b then 1 else 0, "")
  | .number x => (x.place, "")
  | .text s => (0, s)
  | .json s => (0, s)

/-- Keys are compared by kind, then by number, then by text. -/
theorem compare_eq_lex : (Ord.compare : Key → Key → Ordering) =
    compareLex (compareOn rank) (compareLex (compareOn fun key => key.content.1)
      (compareOn fun key => key.content.2)) := by
  funext a b
  have unfolded : Ord.compare a b = Key.compare a b := rfl
  rw [unfolded]
  cases a with
  | null => cases b <;> rfl
  | bool x =>
      cases b with
      | bool y => cases x <;> cases y <;> rfl
      | _ => rfl
  | number x =>
      cases b with
      | number y =>
          simp [Key.compare, compareLex, compareOn, rank, content, Binary64.compareTotal_eq]
      | _ => rfl
  | text x =>
      cases b with
      | text y => simp [Key.compare, compareLex, compareOn, rank, content]
      | _ => rfl
  | json x =>
      cases b with
      | json y => simp [Key.compare, compareLex, compareOn, rank, content]
      | _ => rfl

/-- The kind and the content tell a key. -/
theorem eq_of_content {a b : Key} (kinds : a.rank = b.rank) (same : a.content = b.content) :
    a = b := by
  have numbers := congrArg Prod.fst same
  have texts := congrArg Prod.snd same
  cases a with
  | null =>
      cases b with
      | null => rfl
      | _ => cases kinds
  | bool x =>
      cases b with
      | bool y => cases x <;> cases y <;> first | rfl | cases numbers
      | _ => cases kinds
  | number x =>
      cases b with
      | number y => exact congrArg Key.number (Binary64.place_injective numbers)
      | _ => cases kinds
  | text x =>
      cases b with
      | text y => exact congrArg Key.text texts
      | _ => cases kinds
  | json x =>
      cases b with
      | json y => exact congrArg Key.json texts
      | _ => cases kinds

instance : Std.TransOrd Key := by
  unfold Std.TransOrd
  rw [compare_eq_lex]
  infer_instance

instance : Std.LawfulEqOrd Key where
  eq_of_compare {a b} same := by
    rw [compare_eq_lex] at same
    simp only [compareLex, Ordering.then_eq_eq, compareOn] at same
    obtain ⟨kinds, numbers, texts⟩ := same
    exact eq_of_content (Std.LawfulEqOrd.eq_of_compare kinds)
      (Prod.ext (Std.LawfulEqOrd.eq_of_compare numbers) (Std.LawfulEqOrd.eq_of_compare texts))

end Key

end Docstore
