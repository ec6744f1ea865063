import Docstore.Program

set_option autoImplicit false

namespace Docstore
namespace Program

/-- The code that leaves a truth value. -/
abbrev Block := List Instruction

/-- Blocks one after the other, and behind two or more the operation that joins their values. -/
def joined (connective : Connective) (blocks : List Block) : Block :=
  blocks.flatten ++ if 1 < blocks.length then [.join connective blocks.length] else []

/-- The blocks of one branch of an alternative, as one block. -/
def branchOf (blocks : List Block) : Except CompileFault Block :=
  match blocks with
  | [] => .error .emptyAlternative
  | [only] => .ok only
  | first :: second :: rest => .ok (joined .and (first :: second :: rest))

mutual

def blocksOf : QueryNode → Except CompileFault (List Block)
  | .field path clauses => .ok (clauses.map fun clause => [.test path clause])
  | .group .and children => do return [joined .and (← blocksOfAll children)]
  | .group .or children => do return [joined .or (← branchesOf children)]
  | .lookup ref => .error (.misplacedLookup ref.name)

/-- The blocks of all nodes of a conjunction. -/
def blocksOfAll : List QueryNode → Except CompileFault (List Block)
  | [] => .ok []
  | node :: rest => do
    let first ← blocksOf node
    let others ← blocksOfAll rest
    return first ++ others

/-- One block for each node of an alternative. -/
def branchesOf : List QueryNode → Except CompileFault (List Block)
  | [] => .ok []
  | node :: rest => do
    let first ← branchOf (← blocksOf node)
    let others ← branchesOf rest
    return first :: others

end

/-- Fetches the candidates: the documents of every lookup, or else of the whole collection. -/
def source (lookups : List IndexRef) (collection : String) : List Instruction :=
  match lookups with
  | [] => [.scan collection]
  | [only] => [.lookup only]
  | first :: second :: rest => (first :: second :: rest).map .lookup ++ [.intersect]

/-- The loop over the candidates, with its own position. -/
def loop (position : Nat) (body : Block) : List Instruction :=
  .read :: (body ++ [.shift, .jump (position + body.length + 4), .goto position])

/-- Keeps the candidates on which every block leaves true. -/
def filter (position : Nat) (blocks : List Block) : List Instruction :=
  if blocks.isEmpty then [.transpose] else loop position (joined .and blocks)

def closing (conditions : Conditions) : List Instruction :=
  (conditions.sort.map Instruction.sort).toList ++
    ((conditions.limit.map Instruction.limit).toList ++ [.halt])

/-- The program of a query on a collection. -/
def ofQuery (query : Query) (conditions : Conditions) (collection : String) :
    Except CompileFault Program := do
  let lookups := Query.leadingLookups query.root
  let blocks ← blocksOfAll (query.root.drop lookups.length)
  let candidates := source lookups collection ++ [.store]
  return candidates ++ (filter candidates.length blocks ++ closing conditions)

/-- The first fault of mutations that would fail on every document. -/
def checkMutations (request : Json) (mutations : List Mutation) : Except CompileFault Unit :=
  mutations.forM fun mutation =>
    match mutation.check with
    | .ok () => .ok ()
    | .error fault => .error (.badMutation mutation.op.opcode fault request)

/-- The program that carries out mutations on every document of a result. -/
def ofMutations (mutations : List Mutation) : Program :=
  .readResult :: (mutations.map Instruction.mutate ++ [.reindex, .goto 0, .halt])

/-- The program of a mutation object. -/
def ofMutation (request : Json) : Except CompileFault Program := do
  let mutations ← Mutation.parse request
  checkMutations request mutations
  return ofMutations mutations

end Program
end Docstore
