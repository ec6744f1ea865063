set_option autoImplicit false

/-!
Doubles other than NaN, as a sign and a magnitude word. The magnitude word is the low 63 bits of
the interchange encoding, so its order is the order of absolute values.

`units` gives the exact absolute value in steps of the least positive double, and `ofUnits` is the
nearest double to a quotient of such steps. All arithmetic is exact on naturals.
-/
namespace Docstore

structure Binary64 where
  negative : Bool
  /-- Eleven exponent bits above fifty-two fraction bits. -/
  magnitude : Nat
  le_infinity : magnitude ≤ 0x7FF0000000000000
deriving DecidableEq

namespace Binary64

/-- The magnitude word of infinity: all exponent bits set, the fraction clear. -/
def infinityWord : Nat := 0x7FF0000000000000

/-- The bit that a normal significand has above its fifty-two fraction bits. -/
def leadingBit : Nat := 0x10000000000000

/-- The number one in steps of `2 ^ (-1074)`, the least positive double. -/
def unitsInOne : Nat := 1 <<< 1074

def isFinite (x : Binary64) : Bool :=
  x.magnitude < infinityWord

def isZero (x : Binary64) : Bool :=
  x.magnitude == 0

def signedZero (negative : Bool) : Binary64 := ⟨negative, 0, by decide⟩

def zero : Binary64 := signedZero false

def infinity (negative : Bool) : Binary64 := ⟨negative, infinityWord, by decide⟩

/-- Negative zero becomes positive zero; every other double stays. -/
def unsignedZero (x : Binary64) : Binary64 :=
  if x.isZero then zero else x

/-- Number of doublings of the step size above the subnormal step. -/
def scale (x : Binary64) : Nat :=
  x.magnitude / leadingBit - 1

/-- The integer that multiplies the step size. -/
def significand (x : Binary64) : Nat :=
  if x.magnitude < leadingBit then x.magnitude else leadingBit + x.magnitude % leadingBit

/-- The absolute value in steps of `2 ^ (-1074)`. -/
def units (x : Binary64) : Nat :=
  x.significand <<< x.scale

/-- The value in steps of `2 ^ (-1074)`. -/
def signedUnits (x : Binary64) : Int :=
  if x.negative then -(x.units : Int) else x.units

/-- The order of the encodings: negative before positive, and negative zero before zero. -/
def compareTotal (x y : Binary64) : Ordering :=
  match x.negative, y.negative with
  | true, false => .lt
  | false, true => .gt
  | false, false => compare x.magnitude y.magnitude
  | true, true => compare y.magnitude x.magnitude

/-- Equality of values: the two zeros are one number. -/
def sameValue (x y : Binary64) : Bool :=
  (x.isZero && y.isZero) || x == y

/-- The quotient rounded to the nearest integer, a half to the even one. -/
def roundHalfEven (num den : Nat) : Nat :=
  let quotient := num / den
  let rest := num % den
  if 2 * rest < den then quotient
  else if den < 2 * rest then quotient + 1
  else quotient + quotient % 2

/-- The magnitude word nearest to `num / den` steps. A carry out of the fraction lands in the
exponent field, which is the next power of two, so no case is special. -/
def nearestWord (num den : Nat) : Nat :=
  let shift := (num / den).log2 - 52
  shift * leadingBit + roundHalfEven num (den <<< shift)

/-- The double nearest to `num / den` steps, infinite where that is beyond the largest double. -/
def ofUnits (negative : Bool) (num den : Nat) : Binary64 :=
  ⟨negative, min (nearestWord num den) infinityWord, Nat.min_le_right _ _⟩

/-- The double nearest to `num / den`. -/
def ofRatio (negative : Bool) (num den : Nat) : Binary64 :=
  ofUnits negative (num * unitsInOne) den

def ofInt (value : Int) : Binary64 :=
  ofRatio (value < 0) value.natAbs 1

/-- The sum of two finite doubles, rounded once. A sum of zero is negative only when both terms
are. -/
def add (x y : Binary64) : Binary64 :=
  let sum := x.signedUnits + y.signedUnits
  if sum = 0 then signedZero (x.negative && y.negative)
  else ofUnits (sum < 0) sum.natAbs 1

/-- The integer that a double is, if it is one. -/
def integer? (x : Binary64) : Option Int :=
  if x.units % unitsInOne = 0 then
    some (if x.negative then -(x.units / unitsInOne : Nat) else (x.units / unitsInOne : Nat))
  else none

/-- Every integer of smaller absolute value than `2 ^ 53` is a double, with its own neighbours. -/
def belowExactBound (x : Binary64) : Bool :=
  x.units < 2 * leadingBit * unitsInOne

def bits (x : Binary64) : UInt64 :=
  UInt64.ofNat (x.magnitude + if x.negative then 0x8000000000000000 else 0)

def toFloat (x : Binary64) : Float :=
  Float.ofBits x.bits

end Binary64
end Docstore
