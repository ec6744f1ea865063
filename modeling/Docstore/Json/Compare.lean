import Docstore.Json.Text

set_option autoImplicit false

namespace Docstore
namespace Json

mutual

/-- Equality of values at any depth. -/
def equal : Json → Json → Bool
  | .null, .null => true
  | .bool a, .bool b => a == b
  | .number a, .number b => a.equal b
  | .string a, .string b => a == b
  | .array a, .array b => equalItems a b
  | .object a, .object b => a.length == b.length && equalMembers a b
  | _, _ => false

def equalItems : List Json → List Json → Bool
  | [], [] => true
  | a :: as, b :: bs => equal a b && equalItems as bs
  | _, _ => false

/-- Every member has an equal member of the same key on the other side. -/
def equalMembers : List (String × Json) → List (String × Json) → Bool
  | [], _ => true
  | (key, value) :: rest, other =>
    (match Members.get? key other with
      | some found => equal value found
      | none => false) && equalMembers rest other

end

mutual

/-- Equality of literals at any depth. -/
def sameLiteral : Json → Json → Bool
  | .null, .null => true
  | .bool a, .bool b => a == b
  | .number a, .number b => a.sameLiteral b
  | .string a, .string b => a == b
  | .array a, .array b => sameItems a b
  | .object a, .object b => sameMembers a b
  | _, _ => false

def sameItems : List Json → List Json → Bool
  | [], [] => true
  | a :: as, b :: bs => sameLiteral a b && sameItems as bs
  | _, _ => false

def sameMembers : List (String × Json) → List (String × Json) → Bool
  | [], [] => true
  | (key, value) :: rest, (key', value') :: rest' =>
    key == key' && sameLiteral value value' && sameMembers rest rest'
  | _, _ => false

end

/-- The order of range predicates. Values of different kinds are not comparable. -/
def compare? : Json → Json → Option Ordering
  | .number a, .number b => some (a.compare b)
  | .string a, .string b => some (Ord.compare a b)
  | _, _ => none

/-- The place of the kind of a value in the canonical order. -/
def rank : Json → Nat
  | .null => 0
  | .bool _ => 1
  | .number _ => 2
  | .string _ => 3
  | .array _ => 4
  | .object _ => 5

mutual

/-- The canonical order: by kind, arrays item by item, objects by their canonical texts. -/
def compare : Json → Json → Ordering
  | .bool a, .bool b => Ord.compare a b
  | .number a, .number b => a.compare b
  | .string a, .string b => Ord.compare a b
  | .array a, .array b => compareItems a b
  | .object a, .object b =>
    Ord.compare (Json.object a).canonicalText (Json.object b).canonicalText
  | a, b => Ord.compare a.rank b.rank

/-- Lexicographic, a beginning before its continuations. -/
def compareItems : List Json → List Json → Ordering
  | [], [] => .eq
  | [], _ :: _ => .lt
  | _ :: _, [] => .gt
  | a :: as, b :: bs => (compare a b).then (compareItems as bs)

end

end Json

end Docstore
