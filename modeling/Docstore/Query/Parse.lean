import Docstore.Error
import Docstore.Query.Normal
import Docstore.Table

set_option autoImplicit false

namespace Docstore

/-- A conjunction in the making: its nodes, the position of the node of each path among them, and
the `$or` groups that will follow. -/
structure Conjunction where
  nodes : List QueryNode
  positions : Table String Nat
  alternatives : List QueryNode

namespace Conjunction

def empty : Conjunction := ⟨[], Table.empty, []⟩

/-- Adds clauses to the node of their path, or begins a node for the path. -/
def addClauses (conjunction : Conjunction) (path : String) (clauses : List Clause) :
    Except QueryFault Conjunction :=
  match conjunction.positions.get? path with
  | some position =>
    match conjunction.nodes[position]? with
    | some (.field name present) =>
      .ok { conjunction with
        nodes := conjunction.nodes.set position (.field name (present ++ clauses)) }
    | _ => .error (.misplacedAttribute path)
  | none =>
    .ok { conjunction with
      nodes := conjunction.nodes ++ [.field path clauses]
      positions := conjunction.positions.put path conjunction.nodes.length }

/-- The nodes, and behind them the `$or` groups in one `$and` group. -/
def finish (conjunction : Conjunction) : List QueryNode :=
  if conjunction.alternatives.isEmpty then conjunction.nodes
  else conjunction.nodes ++ [.group .and conjunction.alternatives]

end Conjunction

def isOperatorKey (key : String) : Bool :=
  key.toList.head? == some '$'

/-- An item of a group is an object that is not empty and does not have the same group as a
member. -/
def checkGroupItem (connective : Connective) (item : Json) : Except QueryFault Unit :=
  match item with
  | .object members =>
    if Members.contains connective.symbol members then .error (.groupInItself connective)
    else if members.isEmpty then .error (.groupItemEmpty connective)
    else .ok ()
  | _ => .error (.groupItemNotObject connective)

/-- A group needs an array of two items at least. -/
def checkGroup (connective : Connective) (value : Json) : Except QueryFault Unit :=
  match value with
  | .array items =>
    if items.length < 2 then .error (.groupTooSmall connective)
    else items.forM (checkGroupItem connective)
  | _ => .error (.groupNotArray connective)

/-- A centre and a distance that is not negative. -/
def areaOf? (value : Json) : Option Geo.Area := do
  let lat ← (value.get? "lat").bind Geo.coordinate?
  let lon ← (value.get? "lon").bind Geo.coordinate?
  let distance ← (value.get? "distance").bind Geo.coordinate?
  if distance.negative && !distance.isZero then none else some ⟨lat, lon, distance⟩

/-- The operand that a value gives an operator, if it has the right shape. -/
def operandOf (path : String) (op : Operator) (value : Json) : Except QueryFault Operand :=
  match op.shape with
  | .list =>
    match value with
    | .array items => .ok (.items items)
    | _ => .error (.operandNotArray op.symbol path)
  | .area =>
    match areaOf? value with
    | some area => .ok (.area area)
    | none => .error (.operandNotArea op.symbol path)
  | .single =>
    if op = .size ∧ value.unsigned? = none then .error (.sizeNotCount path)
    else if op = .present ∧ value.bool? = none then .error (.presenceNotBoolean path)
    else .ok (.literal value)
  | .bound => .ok (.literal value)

def clauseOf (path symbol : String) (value : Json) : Except QueryFault Clause :=
  match Operator.ofSymbol? symbol with
  | some op => do return ⟨op, ← operandOf path op value⟩
  | none =>
    if symbol = Connective.and.symbol ∨ symbol = Connective.or.symbol then
      .error (.groupInAttribute symbol path)
    else .error (.unknownOperator symbol)

/-- The clauses on a path. An object of operators has a clause for each; any other value is
compared for equality. -/
def clausesOf (path : String) (value : Json) : Except QueryFault (List Clause) :=
  let equality : List Clause := [⟨.eq, .literal value⟩]
  match value with
  | .object members =>
    if members.any fun member => isOperatorKey member.1 then
      if members.all fun member => isOperatorKey member.1 then
        members.mapM fun member => clauseOf path member.1 member.2
      else .error (.mixedFields path)
    else .ok equality
  | _ => .ok equality

mutual

/-- Adds one member of a predicate object to a conjunction. -/
def addMember (conjunction : Conjunction) (key : String) (value : Json) :
    Except QueryFault Conjunction :=
  if key = Connective.and.symbol then do
    checkGroup .and value
    match value with
    | .array items => addItems conjunction items
    | _ => .error (.groupNotArray .and)
  else if key = Connective.or.symbol then do
    checkGroup .or value
    match value with
    | .array items =>
      let branches ← branchesOf items
      return { conjunction with
        alternatives := conjunction.alternatives ++ [.group .or branches] }
    | _ => .error (.groupNotArray .or)
  else if isOperatorKey key then .error (.unknownTopLevel key)
  else do conjunction.addClauses key (← clausesOf key value)

def addMembers (conjunction : Conjunction) :
    List (String × Json) → Except QueryFault Conjunction
  | [] => .ok conjunction
  | (key, value) :: rest => do
    let conjunction ← addMember conjunction key value
    addMembers conjunction rest

/-- Adds the members of every item of an `$and`. -/
def addItems (conjunction : Conjunction) : List Json → Except QueryFault Conjunction
  | [] => .ok conjunction
  | .object members :: rest => do
    let conjunction ← addMembers conjunction members
    addItems conjunction rest
  | _ :: _ => .error (.groupItemNotObject .and)

/-- The items of an `$or`, each as a conjunction of its own. -/
def branchesOf : List Json → Except QueryFault (List QueryNode)
  | [] => .ok []
  | .object members :: rest => do
    let conjunction ← addMembers .empty members
    let branches ← branchesOf rest
    return .group .and conjunction.finish :: branches
  | _ :: _ => .error (.groupItemNotObject .or)

end

/-- The nodes of a predicate before they are brought to normal form. -/
def Query.nodesOf (predicate : Json) : Except QueryFault (List QueryNode) :=
  match predicate with
  | .object members => do return (← addMembers .empty members).finish
  | _ => .error .predicateNotObject

/-- The query that a predicate states, in normal form. -/
def Query.parse (predicate : Json) : Except Error Query :=
  match Query.nodesOf predicate with
  | .ok nodes => .ok ⟨QueryNode.normalizeAll nodes⟩
  | .error fault => .error (.query fault predicate)

end Docstore
