import Docstore.Number.Decimal

set_option autoImplicit false

namespace Docstore

inductive Number
  | int (value : Int) (lower : -0x8000000000000000 ≤ value) (upper : value < 0x10000000000000000)
  | float (value : Binary64) (finite : value.isFinite = true)
deriving DecidableEq

namespace Number

def ofInt? (value : Int) : Option Number :=
  if h : -0x8000000000000000 ≤ value ∧ value < 0x10000000000000000 then
    some (.int value h.1 h.2)
  else none

def ofFloat? (value : Binary64) : Option Number :=
  if h : value.isFinite = true then some (.float value h) else none

def ofWord (word : UInt64) : Number :=
  .int word.toNat (Int.le_trans (by decide) (Int.natCast_nonneg _))
    (by have := word.toNat_lt; omega)

def zero : Number := .int 0 (by decide) (by decide)

/-- The value as an integer of 64 signed bits, for integer literals only. -/
def signed? : Number → Option Int
  | .int value _ _ => if value < 0x8000000000000000 then some value else none
  | .float _ _ => none

/-- The value as an integer of 64 unsigned bits, for integer literals only. -/
def unsigned? : Number → Option Nat
  | .int value _ _ => if 0 ≤ value then some value.toNat else none
  | .float _ _ => none

/-- The nearest double. -/
def toBinary64 : Number → Binary64
  | .int value _ _ => Binary64.ofInt value
  | .float value _ => value

/-- The nearest double, with one zero. -/
def magnitudeKey (n : Number) : Binary64 :=
  n.toBinary64.unsignedZero

/-- Equality of numbers: exact between integers, and between doubles as soon as one is a double. -/
def equal : Number → Number → Bool
  | .int a _ _, .int b _ _ => a == b
  | a, b => a.toBinary64.sameValue b.toBinary64

/-- Order of numbers: exact between integers of 64 signed bits, and otherwise the order of the
encodings of the nearest doubles. -/
def compare (a b : Number) : Ordering :=
  match a.signed?, b.signed? with
  | some m, some n => Ord.compare m n
  | _, _ => a.toBinary64.compareTotal b.toBinary64

/-- Equality of literals, under which the two zeros of the doubles are one. -/
def sameLiteral : Number → Number → Bool
  | .int a _ _, .int b _ _ => a == b
  | .float a _, .float b _ => a.sameValue b
  | _, _ => false

def integerText (value : Int) : List Char :=
  (if value < 0 then ['-'] else []) ++ Nat.toDigits 10 value.natAbs

/-- Doubles in JSON text keep a point or an exponent, so they read back as doubles. -/
def jsonLayout : FloatLayout := ⟨-5, 16, true, .even⟩

/-- The number as a JSON literal. -/
def text : Number → List Char
  | .int value _ _ => integerText value
  | .float value _ => jsonLayout.render value

/-- One text for numbers of one value: integral doubles below `2 ^ 53` are written as integers. -/
def canonicalText : Number → List Char
  | .int value _ _ => integerText value
  | .float value _ =>
    match value.integer? with
    | some n => if value.belowExactBound then integerText n else value.plainText
    | none => value.plainText

end Number
end Docstore
