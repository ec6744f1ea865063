import Docstore.Error
import Docstore.Json.Compare
import Docstore.Json.Path

set_option autoImplicit false

namespace Docstore

structure Mutation where
  op : MutationOperator
  path : String
  operand : Json

namespace Mutation

/-- The member that holds the identity of a document. -/
def identity : String := "_id"

def check (mutation : Mutation) : Except ExecutionFault Unit :=
  if mutation.path = identity then .error .fixedIdentity
  else match mutation.op with
    | .pushAll | .pullAll =>
      if mutation.operand.items?.isSome then .ok () else .error .operandNotArray
    | .inc => if mutation.operand.number?.isSome then .ok () else .error .operandNotNumber
    | .pop =>
      match mutation.operand.number?.bind Number.signed? with
      | some 1 | some (-1) => .ok ()
      | _ => .error .operandNotUnit
    | _ => .ok ()

/-- The sum of two numbers: exact between integers of 64 signed bits, and otherwise the sum of
the nearest doubles. -/
def sum (a b : Number) : Except ExecutionFault Number :=
  match a.signed?, b.signed? with
  | some m, some n =>
    if -0x8000000000000000 ≤ m + n ∧ m + n < 0x8000000000000000 then
      match Number.ofInt? (m + n) with
      | some total => .ok total
      | none => .error .integerOverflow
    else .error .integerOverflow
  | _, _ =>
    match Number.ofFloat? (a.toBinary64.add b.toBinary64) with
    | some total => .ok total
    | none => .error .sumNotFinite

def increment (present operand : Json) : Except ExecutionFault Json :=
  match present, operand with
  | .number a, .number b => (sum a b).map .number
  | _, _ => .error .targetNotNumber

/-- The items of an array after an operator on arrays. -/
def editItems (op : MutationOperator) (operand : Json) (items : List Json) : List Json :=
  match op, operand with
  | .pushAll, .array added => items ++ added
  | .push, _ | .pushAll, _ => items ++ [operand]
  | .pull, _ => items.filter fun item => !item.equal operand
  | .pullAll, .array pulled => items.filter fun item => !pulled.any fun value => item.equal value
  | .pop, _ =>
    if operand.number?.bind Number.signed? = some (-1) then items.tail else items.dropLast
  | _, _ => items

/-- The value of a member after the mutation, if the member is to be there. -/
def editValue (mutation : Mutation) (present : Option Json) :
    Except ExecutionFault (Option Json) :=
  match mutation.op with
  | .set => .ok (some mutation.operand)
  | .unset => .ok none
  | .inc => (increment (present.getD (.number .zero)) mutation.operand).map some
  | .push | .pushAll =>
    match present.getD (.array []) with
    | .array items => .ok (some (.array (editItems mutation.op mutation.operand items)))
    | _ => .error (.targetNotArray mutation.path)
  | .pull | .pullAll | .pop =>
    match present with
    | none => .ok none
    | some (.array items) => .ok (some (.array (editItems mutation.op mutation.operand items)))
    | some _ => .error (.targetNotArray mutation.path)

/-- The members of an object after the mutation of the member at the end of the path. -/
def editMembers (mutation : Mutation) (members : Members) :
    Except ExecutionFault Unit × Members :=
  let leaf := Path.leaf mutation.path
  match mutation.editValue (Members.get? leaf members) with
  | .ok (some value) => (.ok (), Members.put leaf value members)
  | .ok none => (.ok (), Members.erase leaf members)
  | .error fault => (.error fault, members)

/-- The outcome on a document, and the document after it. Where no object holds the end of the
path nothing happens; with `upsert`, operators that create make the missing objects on the way. -/
def apply (mutation : Mutation) (upsert : Bool) (doc : Json) : Except ExecutionFault Unit × Json :=
  match mutation.check with
  | .error fault => (.error fault, doc)
  | .ok () =>
    let edited := Json.atContainer (upsert && mutation.op.creates) mutation.editMembers
      (Path.walk mutation.path) doc
    (edited.1.getD (.ok ()), edited.2)

/-- The mutations of one operator, a path each. -/
def ofPaths (op : MutationOperator) (paths : Members) : List Mutation :=
  paths.map fun entry => ⟨op, entry.1, entry.2⟩

/-- The mutations of one member of a mutation object. -/
def ofMember (source : Json) (symbol : String) (value : Json) :
    Except CompileFault (List Mutation) :=
  match MutationOperator.ofSymbol? symbol with
  | none => .error (.unknownMutation symbol source)
  | some op =>
    match value with
    | .object paths => .ok (ofPaths op paths)
    | _ => .error (.pathsNotObject symbol source)

/-- Reads an object of operators, each with an object of paths and operands. -/
def parse (source : Json) : Except CompileFault (List Mutation) :=
  match source with
  | .object members => do
    return (← members.mapM fun member => ofMember source member.1 member.2).flatten
  | _ => .error (.mutationNotObject source)

end Mutation
end Docstore
