import Docstore.Geo
import Docstore.Json.Compare
import Docstore.Index.Key
import Docstore.PageTree.Entries
import Docstore.Query.Operator

set_option autoImplicit false

namespace Docstore

/-- What an operator is applied with. The items of a list stand for a set of values. -/
inductive Operand
  | literal (value : Json)
  | items (items : List Json)
  | area (area : Geo.Area)

structure Clause where
  op : Operator
  operand : Operand

/-- What an index is asked for. -/
inductive IndexLookup
  | exact (key : Key)
  | range (range : KeyRange Key)
deriving DecidableEq

def IndexLookup.opcode : IndexLookup → Opcode
  | .exact _ => .find
  | .range _ => .range

/-- A lookup in the index at a position in its collection. -/
structure IndexRef where
  position : Nat
  name : String
  lookup : IndexLookup
deriving DecidableEq

inductive QueryNode
  /-- Every clause holds of the value at a path. -/
  | field (path : String) (clauses : List Clause)
  | group (connective : Connective) (children : List QueryNode)
  | lookup (ref : IndexRef)

structure Query where
  root : List QueryNode

/-- Whether a value is among the items of a set. Items are told apart by their canonical texts. -/
def memberOf (items : List Json) (value : Json) : Bool :=
  items.any fun item => item.canonicalText == value.canonicalText

/-- A value is in a set if it is among the items, or is an array with an item among them. -/
def inSet (items : List Json) (value : Json) : Bool :=
  memberOf items value ||
    match value with
    | .array inner => inner.any (memberOf items)
    | _ => false

namespace Clause

def isOrdered (orderings : List Ordering) (a b : Json) : Bool :=
  match a.compare? b with
  | some ordering => orderings.contains ordering
  | none => false

/-- Whether the value at a path satisfies an operator. A missing value reads as null, and an
operand of a shape that the operator does not take is never satisfied. -/
def evaluate (op : Operator) (value : Option Json) (operand : Operand) : Bool :=
  let present := value.getD .null
  match op, operand with
  | .eq, .literal v => present.equal v
  | .ne, .literal v => !present.equal v
  | .gt, .literal v => isOrdered [.gt] present v
  | .gte, .literal v => isOrdered [.gt, .eq] present v
  | .lt, .literal v => isOrdered [.lt] present v
  | .lte, .literal v => isOrdered [.lt, .eq] present v
  | .isIn, .items items => inSet items present
  | .notIn, .items items => !inSet items present
  | .all, .items items =>
    match present with
    | .array found => items.all fun wanted => found.any fun item => item.equal wanted
    | _ => false
  | .size, .literal v =>
    match present with
    | .array found => v.unsigned? == some found.length
    | _ => false
  | .present, .literal (.bool wanted) => value.isSome == wanted
  | .near, .area area => (Geo.Point.ofJson? present).any area.isNear
  | .within, .area area => (Geo.Point.ofJson? present).any area.isWithin
  | _, _ => false

def holds (clause : Clause) (value : Option Json) : Bool :=
  evaluate clause.op value clause.operand

end Clause

namespace QueryNode

mutual

/-- Whether a node holds of a document. A lookup stands for documents that an index has already
chosen, so it asks nothing. -/
def holds (doc : Json) : QueryNode → Bool
  | .field path clauses => clauses.all fun clause => clause.holds (doc.lookup path)
  | .group .and children => allHold doc children
  | .group .or children => anyHolds doc children
  | .lookup _ => true

def allHold (doc : Json) : List QueryNode → Bool
  | [] => true
  | node :: rest => holds doc node && allHold doc rest

def anyHolds (doc : Json) : List QueryNode → Bool
  | [] => false
  | node :: rest => holds doc node || anyHolds doc rest

end

def lookup? : QueryNode → Option IndexRef
  | .lookup ref => some ref
  | _ => none

end QueryNode

namespace Query

def holds (query : Query) (doc : Json) : Bool :=
  QueryNode.allHold doc query.root

def isEmpty (query : Query) : Bool :=
  query.root.isEmpty

/-- The lookups before the first other node. -/
def leadingLookups : List QueryNode → List IndexRef
  | .lookup ref :: rest => ref :: leadingLookups rest
  | _ => []

/-- The clauses of the first root node on a path. -/
def clausesOn (path : String) : List QueryNode → Option (List Clause)
  | [] => none
  | .field p clauses :: rest => if p = path then some clauses else clausesOn path rest
  | _ :: rest => clausesOn path rest

end Query

/-- Equality of operands: literals as literals, sets as sets of keys, areas by their numbers. -/
def Operand.same : Operand → Operand → Bool
  | .literal a, .literal b => a.sameLiteral b
  | .items a, .items b => a.all (memberOf b) && b.all (memberOf a)
  | .area a, .area b => a.same b
  | _, _ => false

def Clause.same (a b : Clause) : Bool :=
  a.op == b.op && a.operand.same b.operand

def Clause.sameAll : List Clause → List Clause → Bool
  | [], [] => true
  | a :: as, b :: bs => a.same b && sameAll as bs
  | _, _ => false

namespace QueryNode

mutual

def same : QueryNode → QueryNode → Bool
  | .field p a, .field q b => p == q && Clause.sameAll a b
  | .group c a, .group d b => c == d && sameAll a b
  | .lookup a, .lookup b => a == b
  | _, _ => false

def sameAll : List QueryNode → List QueryNode → Bool
  | [], [] => true
  | a :: as, b :: bs => same a b && sameAll as bs
  | _, _ => false

end

end QueryNode

def Query.same (a b : Query) : Bool :=
  QueryNode.sameAll a.root b.root

end Docstore
