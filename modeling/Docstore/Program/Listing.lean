import Docstore.Program

set_option autoImplicit false

namespace Docstore

/-- A count in four digits at least. -/
def fourDigits (n : Nat) : String :=
  let digits := toString n
  String.ofList (List.replicate (4 - digits.length) '0') ++ digits

/-- The name of an operation, in ten columns, and its arguments. -/
def withArguments (opcode : Opcode) (arguments : String) : String :=
  let name := opcode.mnemonic
  name ++ String.ofList (List.replicate (10 - name.length) ' ') ++ " " ++ arguments

def Operand.listing : Operand → String
  | .literal value => value.text
  | .items values => (Json.array values).text
  | .area a =>
    "(" ++ String.ofList a.lat.plainText ++ ", " ++ String.ofList a.lon.plainText ++ ") r=" ++
      String.ofList a.distance.plainText ++ "km"

def boundListing (unbounded : String) : Option Key → String
  | none => unbounded
  | some key => String.ofList key.shown

def IndexLookup.listing : IndexLookup → String
  | .exact key => String.ofList key.shown
  | .range r =>
    (if r.includeMin then "[" else "(") ++ boundListing "-inf" r.min ++ ", " ++
      boundListing "+inf" r.max ++ (if r.includeMax then "]" else ")")

/-- The arguments of an instruction, if it has any. -/
def Instruction.arguments? : Instruction → Option String
  | .join _ count => some (toString count)
  | .limit n => some (toString n)
  | .jump target => some (fourDigits target)
  | .goto target => some (fourDigits target)
  | .test path clause => some (path ++ " " ++ clause.operand.listing)
  | .mutate mutation => some (mutation.path ++ " " ++ mutation.operand.text)
  | .lookup ref => some (ref.name ++ " " ++ ref.lookup.listing)
  | .scan collection => some collection
  | .sort s => some (s.path ++ " " ++ toString s.order.sign)
  | _ => none

def Instruction.listing (instruction : Instruction) : String :=
  match instruction.arguments? with
  | some arguments => withArguments instruction.opcode arguments
  | none => instruction.opcode.mnemonic

namespace Program

/-- The lines of instructions from a position on. -/
def linesFrom (position : Nat) : List Instruction → String
  | [] => ""
  | instruction :: rest =>
    fourDigits position ++ "  " ++ instruction.listing ++ "\n" ++ linesFrom (position + 1) rest

def listing (program : Program) : String :=
  linesFrom 0 program

end Program
end Docstore
