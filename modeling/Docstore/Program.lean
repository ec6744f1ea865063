import Docstore.Error
import Docstore.Mutation
import Docstore.Query.Conditions
import Docstore.Query.Tree

set_option autoImplicit false

namespace Docstore

inductive Instruction
  | halt
  /-- Replaces so many truth values by one. -/
  | join (connective : Connective) (count : Nat)
  | test (path : String) (clause : Clause)
  | mutate (mutation : Mutation)
  | break
  | lookup (ref : IndexRef)
  | scan (collection : String)
  | shift
  | store
  | intersect
  | start
  /-- Branches when the document pointer is at the end of the working documents. -/
  | jump (target : Nat)
  | goto (target : Nat)
  | read
  | transpose
  | limit (count : Nat)
  | sort (spec : SortSpec)
  | readResult
  | reindex

abbrev Program := List Instruction

def Connective.opcode : Connective → Opcode
  | .and => .and
  | .or => .or

namespace Instruction

def opcode : Instruction → Opcode
  | .halt => .halt
  | .join connective _ => connective.opcode
  | .test _ clause => clause.op.opcode
  | .mutate mutation => mutation.op.opcode
  | .break => .break
  | .lookup ref => ref.lookup.opcode
  | .scan _ => .scan
  | .shift => .shift
  | .store => .store
  | .intersect => .intersect
  | .start => .start
  | .jump _ => .jump
  | .goto _ => .goto
  | .read => .read
  | .transpose => .transpose
  | .limit _ => .limit
  | .sort _ => .sort
  | .readResult => .readResult
  | .reindex => .reindex

end Instruction

namespace Program

def opcodes (program : Program) : List Opcode :=
  program.map Instruction.opcode

def contains (program : Program) (opcode : Opcode) : Bool :=
  program.opcodes.contains opcode

end Program
end Docstore
