import Docstore.Json

set_option autoImplicit false

namespace Docstore
namespace Json

def hexDigit (n : Nat) : Char :=
  if n < 10 then Char.ofNat (48 + n) else Char.ofNat (87 + n)

/-- A character inside a JSON string. Only quotes, backslashes and control characters change. -/
def escapeChar (c : Char) : List Char :=
  if c = '"' then ['\\', '"']
  else if c = '\\' then ['\\', '\\']
  else if c = '\x08' then ['\\', 'b']
  else if c = '\x0c' then ['\\', 'f']
  else if c = '\n' then ['\\', 'n']
  else if c = '\r' then ['\\', 'r']
  else if c = '\t' then ['\\', 't']
  else if c.toNat < 0x20 then
    ['\\', 'u', '0', '0', hexDigit (c.toNat / 16), hexDigit (c.toNat % 16)]
  else [c]

def escape (chars : List Char) : List Char :=
  chars.flatMap escapeChar

def quoted (text : String) : List Char :=
  '"' :: (escape text.toList ++ ['"'])

def wordText : Bool → List Char
  | true => ['t', 'r', 'u', 'e']
  | false => ['f', 'a', 'l', 's', 'e']

def nullText : List Char := ['n', 'u', 'l', 'l']

mutual

/-- The text of a value, its numbers written by `number`. -/
def textWith (number : Number → List Char) : Json → List Char
  | .null => nullText
  | .bool b => wordText b
  | .number n => number n
  | .string s => quoted s
  | .array items => '[' :: (itemsText number items ++ [']'])
  | .object members => '\x7b' :: (membersText number members ++ ['\x7d'])

/-- The texts of the items with commas between them. -/
def itemsText (number : Number → List Char) : List Json → List Char
  | [] => []
  | [item] => textWith number item
  | item :: next :: rest => textWith number item ++ ',' :: itemsText number (next :: rest)

def membersText (number : Number → List Char) : List (String × Json) → List Char
  | [] => []
  | [(key, value)] => quoted key ++ ':' :: textWith number value
  | (key, value) :: next :: rest =>
    quoted key ++ ':' :: (textWith number value ++ ',' :: membersText number (next :: rest))

end

def textChars (value : Json) : List Char :=
  value.textWith Number.text

/-- The JSON text of the value. -/
def text (value : Json) : String :=
  String.ofList value.textChars

def canonicalChars (value : Json) : List Char :=
  value.textWith Number.canonicalText

/-- The canonical text of a literal: one text for the literals of a value. -/
def canonicalText (value : Json) : String :=
  String.ofList value.canonicalChars

end Json
end Docstore
