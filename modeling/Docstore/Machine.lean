import Docstore.Program
import Docstore.StableSort
import Docstore.Store

set_option autoImplicit false

namespace Docstore

/-- An entry of the stack. -/
inductive Cell
  | truth (value : Bool)
  | documents (ids : List DocId)

inductive Phase
  | query
  | mutate
deriving DecidableEq

structure Machine where
  running : Bool
  halted : Bool
  upsert : Bool
  /-- The position of the next instruction. -/
  ip : Nat
  /-- The number of documents read from the working documents or from the result. -/
  docptr : Nat
  phase : Phase
  /-- The working documents. -/
  documents : List DocId
  /-- The document under test. -/
  current : Option DocId
  program : Option Program
  /-- The top comes first. -/
  stack : List Cell
  result : List DocId
  /-- The mutation program that follows the query program. -/
  pending : Option Program

namespace Machine

def initial : Machine :=
  { running := false, halted := false, upsert := false, ip := 0, docptr := 0, phase := .query,
    documents := [], current := none, program := none, stack := [], result := [], pending := none }

/-- Stopped with work left. -/
def isSuspended (machine : Machine) : Bool :=
  !machine.running && !machine.halted && machine.program.isSome

def next (machine : Machine) : Machine :=
  { machine with ip := machine.ip + 1 }

def halt (machine : Machine) : Machine :=
  { machine with running := false, halted := true }

def push (machine : Machine) (cell : Cell) : Machine :=
  { machine with stack := cell :: machine.stack }

def currentFor (machine : Machine) (opcode : Opcode) : Except Error DocId :=
  match machine.current with
  | some id => .ok id
  | none => .error (.inOpcode opcode .noCurrentDocument)

def popTruth (opcode : Opcode) : List Cell → Except Error (Bool × List Cell)
  | .truth value :: rest => .ok (value, rest)
  | .documents _ :: _ => .error (.inOpcode opcode .notBoolean)
  | [] => .error (.inOpcode opcode .stackUnderflow)

def popTruths (opcode : Opcode) : Nat → List Cell → Except Error (List Bool × List Cell)
  | 0, stack => .ok ([], stack)
  | count + 1, stack => do
    let (value, stack) ← popTruth opcode stack
    let (values, stack) ← popTruths opcode count stack
    return (value :: values, stack)

def popDocuments (opcode : Opcode) : List Cell → Except Error (List DocId × List Cell)
  | .documents ids :: rest => .ok (ids, rest)
  | .truth _ :: _ => .error (.inOpcode opcode .notDocuments)
  | [] => .error (.inOpcode opcode .stackUnderflow)

/-- The lists of documents on a stack that holds nothing else. -/
def popAllDocuments (opcode : Opcode) : List Cell → Except Error (List (List DocId))
  | [] => .ok []
  | .documents ids :: rest => do return ids :: (← popAllDocuments opcode rest)
  | .truth _ :: _ => .error (.inOpcode opcode .notDocuments)

def joinTruths : Connective → List Bool → Bool
  | .and, values => values.all id
  | .or, values => values.any id

/-- The documents of the list pushed first that are in every other list, in the order of the
first. -/
def intersection (lists : List (List DocId)) : Option (List DocId) :=
  lists.getLast?.map fun first => first.filter fun id => lists.dropLast.all (·.contains id)

def join (machine : Machine) (connective : Connective) (count : Nat) : Except Error Machine := do
  let (values, stack) ← popTruths connective.opcode count machine.stack
  return { machine with stack := .truth (joinTruths connective values) :: stack }

def test (machine : Machine) (store : Store) (path : String) (clause : Clause) :
    Except Error Machine := do
  let id ← machine.currentFor clause.op.opcode
  let doc ← store.document id
  return machine.push (.truth (clause.holds (doc.lookup path)))

/-- Keeps the current document if the top of the stack is true. -/
def shift (machine : Machine) : Except Error Machine := do
  let (keep, stack) ← popTruth .shift machine.stack
  if keep then
    let id ← machine.currentFor .shift
    return { machine with stack, result := machine.result ++ [id] }
  else
    return { machine with stack }

def storeDocuments (machine : Machine) : Except Error Machine := do
  let (documents, stack) ← popDocuments .store machine.stack
  return { machine with documents, stack, docptr := 0 }

def pushOrHalt (machine : Machine) (ids : List DocId) : Machine :=
  if ids.isEmpty then machine.halt else machine.push (.documents ids)

def intersect (machine : Machine) : Except Error Machine := do
  let lists ← popAllDocuments .intersect machine.stack
  match intersection lists with
  | none => .error (.inOpcode .intersect .stackUnderflow)
  | some ids => return { machine with stack := [] }.pushOrHalt ids

def scan (machine : Machine) (store : Store) (collection : String) : Except Error Machine :=
  if collection ≠ store.name then
    .error (.inOpcode .scan (.otherCollection collection store.name))
  else .ok (machine.pushOrHalt store.order)

def readFrom (machine : Machine) (ids : List DocId) : Machine :=
  match ids[machine.docptr]? with
  | some id => { machine with current := some id, docptr := machine.docptr + 1 }
  | none => machine.halt

/-- The value by which a result is sorted: a missing document or value counts as null. -/
def sortKey (store : Store) (path : String) (id : DocId) : Json :=
  ((store.document? id).bind fun doc => doc.lookup path).getD .null

def sortBy (store : Store) (spec : SortSpec) (ids : List DocId) : Option (List DocId) :=
  let keyed := ids.map fun id => (sortKey store spec.path id, id)
  (sort? (fun a b => spec.order.direct (a.1.compare b.1)) keyed).map (List.map Prod.snd)

def sort (machine : Machine) (store : Store) (spec : SortSpec) : Except Error Machine :=
  match sortBy store spec machine.result with
  | some result => .ok { machine with result }
  | none => .error .unrankedValues

/-- Refuses what changes documents or files them outside the phase for it. -/
def requireMutatePhase (machine : Machine) (opcode : Opcode) : Except Error Unit :=
  if machine.phase = .mutate then .ok () else .error (.inOpcode opcode .outsideMutatePhase)

/-- The current document, for an instruction of the mutate phase. -/
def documentToMutate (machine : Machine) (store : Store) (opcode : Opcode) :
    Except Error (DocId × Json) := do
  machine.requireMutatePhase opcode
  let id ← machine.currentFor opcode
  return (id, ← store.document id)

def mutate (machine : Machine) (store : Store) (mutation : Mutation) :
    Except Error Machine × Store :=
  match machine.documentToMutate store mutation.op.opcode with
  | .error error => (.error error, store)
  | .ok (id, doc) =>
    match mutation.apply machine.upsert doc with
    | (.ok (), doc) => (.ok machine, store.write id doc)
    | (.error fault, doc) => (.error (.inOpcode mutation.op.opcode fault), store.write id doc)

/-- The current document, for filing it anew. -/
def documentToFile (machine : Machine) : Except Error DocId := do
  machine.requireMutatePhase .reindex
  machine.currentFor .reindex

def reindex (machine : Machine) (store : Store) : Except Error Machine × Store :=
  match machine.documentToFile with
  | .error error => (.error error, store)
  | .ok id =>
    let done := store.reindex id
    (done.1.map fun _ => machine, done.2)

def fetch (machine : Machine) (store : Store) (ref : IndexRef) :
    Except Error (Machine × Store) := do
  let (ids, store) ← store.fetch ref
  return (machine.push (.documents ids), store)

/-- The store is as before where an instruction failed. -/
def orKeep (store : Store) : Except Error (Machine × Store) → Except Error Machine × Store
  | .ok (machine, store) => (.ok machine, store)
  | .error error => (.error error, store)

/-- What an instruction does, apart from moving on to the next. -/
def effect (machine : Machine) (store : Store) : Instruction → Except Error Machine × Store
  | .halt => (.ok machine.halt, store)
  | .join connective count => (machine.join connective count, store)
  | .test path clause => (machine.test store path clause, store)
  | .mutate mutation => machine.mutate store mutation
  | .break => (.ok { machine with running := false }, store)
  | .lookup ref => orKeep store (machine.fetch store ref)
  | .scan collection => (machine.scan store collection, store)
  | .shift => (machine.shift, store)
  | .store => (machine.storeDocuments, store)
  | .intersect => (machine.intersect, store)
  | .start => (.ok { machine with running := true }, store)
  | .jump _ => (.ok machine, store)
  | .goto _ => (.ok machine, store)
  | .read => (.ok (machine.readFrom machine.documents), store)
  | .transpose => (.ok { machine with result := machine.result ++ machine.documents }, store)
  | .limit count => (.ok { machine with result := machine.result.take count }, store)
  | .sort spec => (machine.sort store spec, store)
  | .readResult => (.ok (machine.readFrom machine.result), store)
  | .reindex => machine.reindex store

/-- Where the machine goes on after an instruction. -/
def advance (machine : Machine) : Instruction → Machine
  | .jump target =>
    if machine.documents.length ≤ machine.docptr then { machine with ip := target }
    else machine.next
  | .goto target => { machine with ip := target }
  | _ => machine.next

def step (machine : Machine) (store : Store) (instruction : Instruction) :
    Except Error Machine × Store :=
  let after := machine.effect store instruction
  (after.1.map fun machine => machine.advance instruction, after.2)

def instruction (machine : Machine) : Except Error Instruction :=
  match machine.program with
  | none => .error (.execution "fetch" .noProgram)
  | some program =>
    match program[machine.ip]? with
    | some instruction => .ok instruction
    | none => .error (.execution "fetch" (.pointerOutOfBounds machine.ip))

/-- Steps until the machine stops or fails, but so many times at most. -/
def runPhase : Nat → Machine → Store → Option Error × Machine × Store
  | 0, machine, store =>
    (if machine.running then some (.execution "run" .stepLimit) else none, machine, store)
  | fuel + 1, machine, store =>
    if machine.running then
      match machine.instruction with
      | .error error => (some error, machine, store)
      | .ok instruction =>
        match machine.step store instruction with
        | (.ok machine, store) => runPhase fuel machine store
        | (.error error, store) => (some error, machine, store)
    else (none, machine, store)

/-- Begins the mutation program on the result. -/
def enterMutate (machine : Machine) (program : Program) : Machine :=
  { machine with
    running := true, halted := false, phase := .mutate, program := some program, current := none,
    stack := [], ip := 0, docptr := 0, pending := none }

/-- Runs the loaded program, and the pending one if the query program halts. -/
def run (fuel : Nat) (machine : Machine) (store : Store) : Option Error × Machine × Store :=
  match runPhase fuel machine store with
  | (some error, machine, store) => (some error, machine, store)
  | (none, machine, store) =>
    match machine.halted, machine.phase, machine.pending with
    | true, .query, some program => runPhase fuel (machine.enterMutate program) store
    | _, _, _ => (none, machine, store)

/-- A failed machine is halted and has no result. -/
def fail (machine : Machine) : Machine :=
  { machine with running := false, halted := true, stack := [], result := [] }

/-- Files the current document anew if it may have been changed before a failure. -/
def settleFailure (machine : Machine) (store : Store) : Store :=
  match machine.phase, machine.current with
  | .mutate, some id => (store.reindex id).2
  | _, _ => store

/-- Runs the machine and answers with the result, or with the failure. A breakdown settles
nothing. -/
def drive (fuel : Nat) (machine : Machine) (store : Store) :
    Except Error (List DocId) × Machine × Store :=
  match run fuel machine store with
  | (none, machine, store) => (.ok machine.result, machine, store)
  | (some error, machine, store) =>
    if error.isBreakdown then (.error error, machine, store)
    else (.error error, machine.fail, machine.settleFailure store)

/-- A machine about to run a program, and then a mutation program if there is one. -/
def load (program : Program) (pending : Option Program) (upsert : Bool) : Machine :=
  { initial with running := true, program := some program, pending, upsert }

def execute (fuel : Nat) (store : Store) (program : Program) (pending : Option Program)
    (upsert : Bool) : Except Error (List DocId) × Machine × Store :=
  drive fuel (load program pending upsert) store

/-- Goes on after a break. -/
def resume (fuel : Nat) (machine : Machine) (store : Store) :
    Except Error (List DocId) × Machine × Store :=
  if machine.halted then (.ok machine.result, machine, store)
  else if machine.program.isNone then (.error (.execution "resume" .noProgram), machine, store)
  else drive fuel { machine with running := true } store

end Machine
end Docstore
