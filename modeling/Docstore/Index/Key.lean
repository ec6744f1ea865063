import Docstore.Json.Path
import Docstore.Json.Text
import Docstore.Text.Quoted

set_option autoImplicit false

namespace Docstore

inductive Key
  | null
  | bool (value : Bool)
  | number (value : Binary64)
  | text (value : String)
  | json (canonical : String)
deriving DecidableEq

/-- A piece of what is given to a hash function. -/
inductive HashPiece
  | byte (value : UInt8)
  | word (value : UInt64)
  | text (value : String)
deriving DecidableEq

namespace Key

def rank : Key → Nat
  | .null => 0
  | .bool _ => 1
  | .number _ => 2
  | .text _ => 3
  | .json _ => 4

def compare : Key → Key → Ordering
  | .bool a, .bool b => Ord.compare a b
  | .number a, .number b => a.compareTotal b
  | .text a, .text b => Ord.compare a b
  | .json a, .json b => Ord.compare a b
  | a, b => Ord.compare a.rank b.rank

instance : Ord Key := ⟨Key.compare⟩

def sameKind (a b : Key) : Bool :=
  a.rank == b.rank

/-- What a key holds besides its kind, for a hash function. -/
def hashedContent : Key → List HashPiece
  | .null => []
  | .bool b => [.byte (if b then 1 else 0)]
  | .number x => [.word x.bits]
  | .text s => [.text s]
  | .json s => [.text s]

/-- What a key gives to a hash function: its kind, and then what it holds. -/
def hashed (key : Key) : List HashPiece :=
  .byte (UInt8.ofNat key.rank) :: key.hashedContent

/-- The key of one value; a missing value is filed like a null. -/
def ofValue : Option Json → Key
  | none => .null
  | some .null => .null
  | some (.bool b) => .bool b
  | some (.number n) => .number n.magnitudeKey
  | some (.string s) => .text s
  | some value => .json value.canonicalText

def partText (value : Option Json) : List Char :=
  match value with
  | some value => value.canonicalChars
  | none => Json.nullText

/-- The canonical literals with commas between them. -/
def joinParts : List (List Char) → List Char
  | [] => []
  | [part] => part
  | part :: next :: rest => part ++ ',' :: joinParts (next :: rest)

def composite (values : List (Option Json)) : Key :=
  .text (String.ofList (joinParts (values.map partText)))

/-- The key of the values at the attributes of an index: of one value alone, or composite. -/
def ofValues : List (Option Json) → Key
  | [value] => ofValue value
  | values => composite values

def ofDocument (doc : Json) (attributes : List String) : Key :=
  ofValues (attributes.map doc.lookup)

def ofOperands (operands : List Json) : Key :=
  ofValues (operands.map some)

/-- Whether the key of a value tells it from every other value. Numbers do so below `2 ^ 53`. -/
def isExact : Json → Bool
  | .number n => n.magnitudeKey.belowExactBound
  | _ => true

/-- The key in listings. -/
def shown : Key → List Char
  | .null => Json.nullText
  | .bool b => Json.wordText b
  | .number x => x.plainText
  | .text s => Text.quoted s
  | .json s => s.toList

end Key
end Docstore
