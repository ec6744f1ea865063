import Docstore.Json

set_option autoImplicit false

namespace Docstore
namespace Path

/-- The pieces between the dots; a text without dots is one piece. -/
def splitDots : List Char → List (List Char)
  | [] => [[]]
  | c :: rest =>
    if c = '.' then [] :: splitDots rest
    else match splitDots rest with
      | [] => [[c]]
      | piece :: pieces => (c :: piece) :: pieces

def segments (path : String) : List String :=
  (splitDots path.toList).map String.ofList

/-- The segments before the last one. -/
def walk (path : String) : List String :=
  (segments path).dropLast

/-- The last segment. -/
def leaf (path : String) : String :=
  (segments path).getLast?.getD ""

/-- A segment read as an array position: decimal digits, perhaps after a plus sign. -/
def position? (segment : String) : Option Nat :=
  let digits := match segment.toList with
    | '+' :: rest => rest
    | chars => chars
  if digits.isEmpty || !digits.all Char.isDigit then none
  else some (digits.foldl (fun n c => 10 * n + (c.toNat - 48)) 0)

end Path

namespace Json

/-- The value one segment further. -/
def child? (segment : String) : Json → Option Json
  | .object members => Members.get? segment members
  | .array items => (Path.position? segment).bind (items[·]?)
  | _ => none

def follow : List String → Json → Option Json
  | [], value => some value
  | segment :: rest, value => (value.child? segment).bind (follow rest)

/-- The value at a path, if every segment is there. -/
def lookup (doc : Json) (path : String) : Option Json :=
  doc.follow (Path.segments path)

/-- Edits the members of the object at the end of a walk. Where `create` is set, a missing member
on the way becomes an empty object. Without an object at the end there is no result of the edit. -/
def atContainer {α : Type} (create : Bool) (edit : Members → α × Members) :
    List String → Json → Option α × Json
  | [], .object members =>
    let edited := edit members
    (some edited.1, .object edited.2)
  | [], value => (none, value)
  | segment :: rest, .object members =>
    match Members.get? segment members with
    | some child =>
      let inner := atContainer create edit rest child
      (inner.1, .object (Members.put segment inner.2 members))
    | none =>
      if create then
        let inner := atContainer create edit rest (.object [])
        (inner.1, .object (Members.put segment inner.2 members))
      else (none, .object members)
  | segment :: rest, .array items =>
    match Path.position? segment with
    | none => (none, .array items)
    | some i =>
      match items[i]? with
      | none => (none, .array items)
      | some child =>
        let inner := atContainer create edit rest child
        (inner.1, .array (items.set i inner.2))
  | _ :: _, value => (none, value)

end Json
end Docstore
