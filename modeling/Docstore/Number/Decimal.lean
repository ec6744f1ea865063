import Docstore.Number.Binary64

set_option autoImplicit false

/-!
Decimal text of finite doubles. `Decimal.shortest` is the decimal with the fewest digits among
those that read back as the double, and of these the nearest; `FloatLayout` says how its digits
are laid out. All comparisons are exact, in quarters of the least positive double.
-/
namespace Docstore

/-- The number `digits * 10 ^ exponent`. -/
structure Decimal where
  digits : Nat
  exponent : Int
deriving DecidableEq

/-- Which of two equally near decimals is taken. -/
inductive DecimalTie
  | even
  | away
deriving DecidableEq

namespace Decimal

def powerOfTen (n : Nat) : Nat :=
  Nat.pow 10 n

def dropTrailingZeros : Nat → Decimal → Decimal
  | 0, d => d
  | fuel + 1, d =>
    if d.digits ≠ 0 ∧ d.digits % 10 = 0 then dropTrailingZeros fuel ⟨d.digits / 10, d.exponent + 1⟩
    else d

def digitCount (n : Nat) : Nat :=
  (Nat.toDigits 10 n).length

/-- The reals that round to a double, as closed or open ends in quarter steps. -/
structure Interval where
  low : Nat
  high : Nat
  closed : Bool

/-- Halfway to both neighbours. The gap below a power of two is half the gap above it. Both ends
round to the double exactly when its significand is even. -/
def Interval.around (x : Binary64) : Interval :=
  let step := 1 <<< x.scale
  let below := if x.significand = Binary64.leadingBit ∧ 0 < x.scale then step else 2 * step
  ⟨4 * x.units - below, 4 * x.units + 2 * step, x.significand % 2 == 0⟩

def Interval.holds (i : Interval) (scale point : Nat) : Bool :=
  if i.closed then decide (i.low * scale ≤ point) && decide (point ≤ i.high * scale)
  else decide (i.low * scale < point) && decide (point < i.high * scale)

/-- The nearer of the two neighbours of `x` on the grid of multiples of `10 ^ exponent` that lie
in the interval. -/
def onGrid (tie : DecimalTie) (x : Binary64) (i : Interval) (exponent : Int) : Option Decimal :=
  let scale := powerOfTen (-exponent).toNat
  let unit := 4 * Binary64.unitsInOne * powerOfTen exponent.toNat
  let value := 4 * x.units * scale
  let lower := value / unit
  let upper := lower + 1
  let takeUpper :=
    if 2 * (value - lower * unit) < unit then false
    else if unit < 2 * (value - lower * unit) then true
    else match tie with
      | .even => lower % 2 == 1
      | .away => true
  match i.holds scale (lower * unit), i.holds scale (upper * unit) with
  | false, false => none
  | true, false => some ⟨lower, exponent⟩
  | false, true => some ⟨upper, exponent⟩
  | true, true => some ⟨if takeUpper then upper else lower, exponent⟩

/-- The first hit on ever finer grids. -/
def search (tie : DecimalTie) (x : Binary64) (i : Interval) : Nat → Int → Decimal
  | 0, exponent =>
    ⟨x.units * powerOfTen (-exponent).toNat / (Binary64.unitsInOne * powerOfTen exponent.toNat),
      exponent⟩
  | grids + 1, exponent =>
    (onGrid tie x i exponent).getD (search tie x i grids (exponent - 1))

/-- The exponent of the leading decimal digit. -/
def leadingExponent (x : Binary64) : Int :=
  (digitCount (x.units * powerOfTen 400 / Binary64.unitsInOne) : Int) - 401

/-- The shortest decimal that reads back as the absolute value; seventeen digits always do. -/
def shortest (tie : DecimalTie) (x : Binary64) : Decimal :=
  if x.isZero then ⟨0, 0⟩
  else dropTrailingZeros 20 (search tie x (Interval.around x) 17 (leadingExponent x))

end Decimal

/-- How the digits of a double are laid out. -/
structure FloatLayout where
  /-- The least exponent of the leading digit that is written positionally. -/
  positionalFrom : Int
  /-- The exponent of the leading digit from which a power of ten is written. -/
  positionalBelow : Int
  /-- An integral value ends in `.0`. -/
  markIntegral : Bool
  tie : DecimalTie

namespace FloatLayout

/-- Digits with a point after the first `places` of them; `places` may lie outside the digits. -/
def positional (markIntegral : Bool) (digits : List Char) (places : Int) : List Char :=
  if places ≤ 0 then
    '0' :: '.' :: (List.replicate (-places).toNat '0' ++ digits)
  else if digits.length ≤ places.toNat then
    digits ++ List.replicate (places.toNat - digits.length) '0' ++
      (if markIntegral then ['.', '0'] else [])
  else
    digits.take places.toNat ++ '.' :: digits.drop places.toNat

/-- One digit, the rest after a point, and a signed power of ten. -/
def scientific (digits : List Char) (leading : Int) : List Char :=
  digits.take 1 ++ (if digits.length ≤ 1 then [] else '.' :: digits.drop 1) ++
    'e' :: (if leading < 0 then '-' else '+') :: Nat.toDigits 10 leading.natAbs

def render (layout : FloatLayout) (x : Binary64) : List Char :=
  let shortest := Decimal.shortest layout.tie x
  let digits := Nat.toDigits 10 shortest.digits
  let leading := shortest.exponent + digits.length - 1
  (if x.negative then ['-'] else []) ++
    if layout.positionalFrom ≤ leading ∧ leading < layout.positionalBelow then
      positional layout.markIntegral digits (leading + 1)
    else
      scientific digits leading

end FloatLayout

/-- Plain digits whatever the size, and no point behind an integer. -/
def Binary64.plainText (x : Binary64) : List Char :=
  FloatLayout.render ⟨-400, 400, false, .away⟩ x

end Docstore
