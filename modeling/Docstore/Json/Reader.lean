import Docstore.Json

set_option autoImplicit false

/-!
Reading JSON text. The characters are cut into tokens in one pass, and a stack of open containers
turns the tokens into a literal in another, so both passes are recursions on their input. A literal
keeps the members of an object as they are written; `Literal.value?` orders them, and of members
with one key the last wins.
-/
namespace Docstore
namespace Json

/-- What is written. A scalar can be well formed and yet say no value: a number outside the range
of the doubles, or a text with half of a surrogate pair. So can a key. -/
inductive Literal
  | scalar (value : Option Json)
  | array (items : List Literal)
  | object (members : List (Option String × Literal))

inductive Token
  | arrayStart
  | arrayEnd
  | objectStart
  | objectEnd
  | comma
  | colon
  | text (value : Option String)
  | scalar (value : Option Json)

/-- The parts of a number literal. -/
structure NumberParts where
  negative : Bool
  whole : List Char
  fraction : Option (List Char)
  exponent : Option (Bool × List Char)

def digitsValue (digits : List Char) : Nat :=
  digits.foldl (fun n c => 10 * n + (c.toNat - 48)) 0

def exponentParts? : List Char → Option (Option (Bool × List Char))
  | [] => some none
  | mark :: rest =>
    if mark = 'e' ∨ mark = 'E' then
      let signed := match rest with
        | '-' :: digits => (true, digits)
        | '+' :: digits => (false, digits)
        | digits => (false, digits)
      if signed.2.isEmpty || !signed.2.all Char.isDigit then none else some (some signed)
    else none

def numberParts? (chars : List Char) : Option NumberParts := do
  let (negative, unsigned) := match chars with
    | '-' :: rest => (true, rest)
    | rest => (false, rest)
  let whole := unsigned.takeWhile Char.isDigit
  let rest := unsigned.dropWhile Char.isDigit
  if whole.isEmpty || (whole.head? == some '0' && whole.length != 1) then none
  else
    match rest with
    | '.' :: tail =>
      let fraction := tail.takeWhile Char.isDigit
      if fraction.isEmpty then none
      else
        let exponent ← exponentParts? (tail.dropWhile Char.isDigit)
        some ⟨negative, whole, some fraction, exponent⟩
    | tail =>
      let exponent ← exponentParts? tail
      some ⟨negative, whole, none, exponent⟩

/-- The double nearest to a decimal. Far outside the range of the doubles the power of ten is not
worked out. -/
def nearestDouble (negative : Bool) (digits : Nat) (exponent : Int) : Binary64 :=
  let leading := exponent + (Nat.toDigits 10 digits).length
  if digits = 0 ∨ leading < -400 then Binary64.signedZero negative
  else if 400 < leading then Binary64.infinity negative
  else Binary64.ofRatio negative (digits * Decimal.powerOfTen exponent.toNat)
    (Decimal.powerOfTen (-exponent).toNat)

/-- An integer literal that fits 64 bits is an integer, except for the negative zero. Any other
number is a double, if it is in their range. -/
def NumberParts.number? (parts : NumberParts) : Option Number :=
  let fraction := parts.fraction.getD []
  let written := digitsValue (parts.whole ++ fraction)
  let float :=
    let power : Int := match parts.exponent with
      | some (true, digits) => -(digitsValue digits : Int)
      | some (false, digits) => digitsValue digits
      | none => 0
    Number.ofFloat? (nearestDouble parts.negative written (power - fraction.length))
  if parts.fraction.isSome || parts.exponent.isSome then float
  else if parts.negative then
    if written = 0 then float else (Number.ofInt? (-(written : Int))).or float
  else (Number.ofInt? written).or float

/-- The token of a word or of a number. -/
def wordToken? (chars : List Char) : Option Token :=
  if chars = ['n', 'u', 'l', 'l'] then some (.scalar (some .null))
  else if chars = ['t', 'r', 'u', 'e'] then some (.scalar (some (.bool true)))
  else if chars = ['f', 'a', 'l', 's', 'e'] then some (.scalar (some (.bool false)))
  else (numberParts? chars).map fun parts => .scalar (parts.number?.map .number)

/-- The characters of a text so far, in reverse, unless it says no value, and a high surrogate that
waits for its low one. -/
structure PartialText where
  chars : Option (List Char)
  high : Option Nat

/-- What the characters before have left unfinished. -/
inductive Unfinished
  | nothing
  | word (chars : List Char)
  | text (text : PartialText)
  | escape (text : PartialText)
  | unit (text : PartialText) (digits : Nat) (value : Nat)

def hexValue? (c : Char) : Option Nat :=
  if c.isDigit then some (c.toNat - 48)
  else if 'a' ≤ c ∧ c ≤ 'f' then some (c.toNat - 87)
  else if 'A' ≤ c ∧ c ≤ 'F' then some (c.toNat - 55)
  else none

def simpleEscape? : Char → Option Char
  | '"' => some '"'
  | '\\' => some '\\'
  | '/' => some '/'
  | 'b' => some '\x08'
  | 'f' => some '\x0c'
  | 'n' => some '\n'
  | 'r' => some '\r'
  | 't' => some '\t'
  | _ => none

namespace PartialText

def empty : PartialText := ⟨some [], none⟩

/-- A character joins the text. It cannot follow a high surrogate. -/
def add (text : PartialText) (c : Char) : PartialText :=
  match text.high with
  | none => ⟨text.chars.map (c :: ·), none⟩
  | some _ => ⟨none, none⟩

/-- A sixteen-bit unit joins the text: alone, as a high surrogate that waits, or as the low one
that completes a character. -/
def addUnit (text : PartialText) (unit : Nat) : PartialText :=
  let isHigh := 0xD800 ≤ unit ∧ unit < 0xDC00
  let isLow := 0xDC00 ≤ unit ∧ unit < 0xE000
  match text.high with
  | none =>
    if isHigh then ⟨text.chars, some unit⟩
    else if isLow then ⟨none, none⟩
    else text.add (Char.ofNat unit)
  | some first =>
    if isLow then
      let code := 0x10000 + (first - 0xD800) * 0x400 + (unit - 0xDC00)
      ⟨text.chars.map (Char.ofNat code :: ·), none⟩
    else ⟨none, none⟩

/-- The finished text. -/
def token (text : PartialText) : Token :=
  match text.high with
  | none => .text (text.chars.map fun chars => String.ofList chars.reverse)
  | some _ => .text none

end PartialText

def isBlank (c : Char) : Bool :=
  c == ' ' || c == '\t' || c == '\n' || c == '\r'

def punctuation? : Char → Option Token
  | '[' => some .arrayStart
  | ']' => some .arrayEnd
  | '\x7b' => some .objectStart
  | '\x7d' => some .objectEnd
  | ',' => some .comma
  | ':' => some .colon
  | _ => none

/-- The state and the finished tokens after one more character. -/
def Unfinished.advance : Unfinished → Char → Option (List Token × Unfinished)
  | .nothing, c =>
    if isBlank c then some ([], .nothing)
    else if c = '"' then some ([], .text .empty)
    else match punctuation? c with
      | some token => some ([token], .nothing)
      | none => some ([], .word [c])
  | .word chars, c =>
    if isBlank c then (wordToken? chars.reverse).map fun word => ([word], .nothing)
    else match punctuation? c with
      | some token => (wordToken? chars.reverse).map fun word => ([word, token], .nothing)
      | none => some ([], .word (c :: chars))
  | .text sofar, c =>
    if c = '"' then some ([sofar.token], .nothing)
    else if c = '\\' then some ([], .escape sofar)
    else if c.toNat < 0x20 then none
    else some ([], .text (sofar.add c))
  | .escape sofar, c =>
    if c = 'u' then some ([], .unit sofar 0 0)
    else (simpleEscape? c).map fun e => ([], .text (sofar.add e))
  | .unit sofar digits value, c => do
    let digit ← hexValue? c
    let value := 16 * value + digit
    if digits = 3 then some ([], .text (sofar.addUnit value))
    else some ([], .unit sofar (digits + 1) value)

def tokensFrom : Unfinished → List Char → Option (List Token)
  | .nothing, [] => some []
  | .word chars, [] => (wordToken? chars.reverse).map fun word => [word]
  | _, [] => none
  | state, c :: rest => do
    let (tokens, next) ← state.advance c
    let more ← tokensFrom next rest
    some (tokens ++ more)

/-- An open container with what it holds so far, in reverse. -/
inductive Open
  | array (items : List Literal)
  | object (members : List (Option String × Literal)) (key : Option String)

/-- What may come next. -/
inductive Expected
  | value
  | valueOrEnd
  | key
  | keyOrEnd
  | colon
  | separator
  | nothing (result : Literal)

/-- A finished value goes into the innermost open container, or is the result. -/
def supply (value : Literal) : List Open → List Open × Expected
  | [] => ([], .nothing value)
  | .array items :: outer => (.array (value :: items) :: outer, .separator)
  | .object members key :: outer => (.object ((key, value) :: members) key :: outer, .separator)

def closeArray : List Open → Option (List Open × Expected)
  | .array items :: outer => some (supply (.array items.reverse) outer)
  | _ => none

def closeObject : List Open → Option (List Open × Expected)
  | .object members _ :: outer => some (supply (.object members.reverse) outer)
  | _ => none

def startValue (token : Token) (stack : List Open) : Option (List Open × Expected) :=
  match token with
  | .scalar value => some (supply (.scalar value) stack)
  | .text value => some (supply (.scalar (value.map .string)) stack)
  | .arrayStart => some (.array [] :: stack, .valueOrEnd)
  | .objectStart => some (.object [] none :: stack, .keyOrEnd)
  | _ => none

def nameMember (token : Token) (stack : List Open) : Option (List Open × Expected) :=
  match token, stack with
  | .text key, .object members _ :: outer => some (.object members key :: outer, .colon)
  | _, _ => none

def accept : List Open → Expected → Token → Option (List Open × Expected)
  | stack, .value, token => startValue token stack
  | stack, .valueOrEnd, .arrayEnd => closeArray stack
  | stack, .valueOrEnd, token => startValue token stack
  | stack, .key, token => nameMember token stack
  | stack, .keyOrEnd, .objectEnd => closeObject stack
  | stack, .keyOrEnd, token => nameMember token stack
  | stack, .colon, .colon => some (stack, .value)
  | stack, .separator, .arrayEnd => closeArray stack
  | stack, .separator, .objectEnd => closeObject stack
  | .array items :: outer, .separator, .comma => some (.array items :: outer, .value)
  | .object members key :: outer, .separator, .comma => some (.object members key :: outer, .key)
  | _, _, _ => none

def build : List Open → Expected → List Token → Option Literal
  | _, .nothing result, [] => some result
  | _, _, [] => none
  | stack, expected, token :: rest => do
    let (stack, expected) ← accept stack expected token
    build stack expected rest

mutual

/-- The value that a literal says, if every part of it says one. -/
def Literal.value? : Literal → Option Json
  | .scalar value => value
  | .array items => do return .array (← itemValues? items)
  | .object members => do return .object (Members.ofList (← memberValues? members))

def itemValues? : List Literal → Option (List Json)
  | [] => some []
  | item :: rest => do
    let value ← item.value?
    let values ← itemValues? rest
    return value :: values

def memberValues? : List (Option String × Literal) → Option (List (String × Json))
  | [] => some []
  | (key, literal) :: rest => do
    let key ← key
    let value ← literal.value?
    let values ← memberValues? rest
    return (key, value) :: values

end

def readLiteral? (text : String) : Option Literal := do
  let tokens ← tokensFrom .nothing text.toList
  build [] .value tokens

/-- The value that a text says. -/
def read? (text : String) : Option Json :=
  (readLiteral? text).bind Literal.value?

end Json
end Docstore
