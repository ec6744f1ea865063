import Docstore.Index
import Docstore.Query.Tree
import Docstore.StableSort

set_option autoImplicit false

/-!
Index selection. Each index in turn takes over clauses of the root nodes that it can answer: one
equality per attribute, or else a lower and an upper bound of its only attribute. The lookups come
first, those of later indices before those of earlier ones, and a node left without clauses goes.
-/
namespace Docstore
namespace Query

/-- What the root of a query offers to indices: the position of the last node on each path, the
paths with an equality, and the paths with a bound. -/
structure Offer where
  positions : Table String Nat
  exact : List String
  bounded : List String

def Clause.isEquality (clause : Clause) : Bool :=
  match clause.op, clause.operand with
  | .eq, .literal _ => true
  | _, _ => false

def Offer.add (offer : Offer) (position : Nat) (path : String) (clauses : List Clause) : Offer :=
  ⟨offer.positions.put path position,
    if clauses.any Clause.isEquality then path :: offer.exact else offer.exact,
    if clauses.any fun clause => clause.op.shape == .bound then path :: offer.bounded
    else offer.bounded⟩

/-- The offer of nodes of which the first has the given position. -/
def offerFrom (offer : Offer) (position : Nat) : List QueryNode → Offer
  | [] => offer
  | .field path clauses :: rest =>
    offerFrom (offer.add position path clauses) (position + 1) rest
  | _ :: rest => offerFrom offer (position + 1) rest

def offerOf (root : List QueryNode) : Offer :=
  offerFrom ⟨Table.empty, [], []⟩ 0 root

/-- Why an index takes over nothing, and no other index does either. -/
inductive Refusal
  /-- The index has no attributes, so the query stays as it is. -/
  | noAttributes
  /-- A path of the index has no node of its own. -/
  | noNode
  /-- A clause to be taken out is not there. -/
  | clauseOutOfRange

/-- The position and the clauses of the node on a path. -/
def nodeOn (root : List QueryNode) (offer : Offer) (path : String) :
    Except Refusal (Nat × List Clause) :=
  match offer.positions.get? path with
  | none => .error .noNode
  | some position =>
    match root[position]? with
    | some (.field _ clauses) => .ok (position, clauses)
    | _ => .error .noNode

/-- The first clause that an exact lookup can stand for, with its position and its literal. -/
def firstExact (clauses : List Clause) (position : Nat) : Option (Nat × Json) :=
  match clauses with
  | [] => none
  | ⟨.eq, .literal value⟩ :: rest =>
    if Key.isExact value then some (position, value) else firstExact rest (position + 1)
  | _ :: rest => firstExact rest (position + 1)

/-- A clause of a root node, by the positions of both. -/
abbrev ClausePosition := Nat × Nat

def takeOut (root : List QueryNode) (clause : ClausePosition) :
    Except Refusal (List QueryNode) :=
  match root[clause.1]? with
  | some (.field path clauses) =>
    if clause.2 < clauses.length then
      .ok (root.set clause.1 (.field path (clauses.eraseIdx clause.2)))
    else .error .clauseOutOfRange
  | _ => .ok root

def comparePositions (a b : ClausePosition) : Ordering :=
  (compare a.1 b.1).then (compare a.2 b.2)

/-- Takes out clauses, the last one first. -/
def takeOutAll (root : List QueryNode) (clauses : List ClausePosition) :
    Except Refusal (List QueryNode) :=
  (stableSort comparePositions clauses).reverse.foldlM takeOut root

/-- The exact clauses for the attributes of an index, as far as there are any. -/
def exactClauses (root : List QueryNode) (offer : Offer) :
    List String → Except Refusal (List (ClausePosition × Json))
  | [] => .ok []
  | path :: rest => do
    let (position, clauses) ← nodeOn root offer path
    let others ← exactClauses root offer rest
    match firstExact clauses 0 with
    | some (clause, value) => return ((position, clause), value) :: others
    | none => return others

/-- An exact lookup, if every attribute of the index still has an exact clause. -/
def takeExact (root : List QueryNode) (offer : Offer) (index : Index) :
    Except Refusal (Option (IndexLookup × List QueryNode)) := do
  if index.attributes.isEmpty then .error .noAttributes
  else
    let found ← exactClauses root offer index.attributes
    if found.length ≠ index.attributes.length then return none
    else
      let root ← takeOutAll root (found.map Prod.fst)
      return some (.exact (Key.ofOperands (found.map Prod.snd)), root)

/-- The key of a literal that can bound a range: an exact number, or a string. -/
def boundKey? (value : Json) : Option Key :=
  match value with
  | .number _ | .string _ => if Key.isExact value then some (Key.ofValue (some value)) else none
  | _ => none

/-- A bound of a range with the position of its clause. -/
structure Bound where
  clause : Nat
  key : Key
  inclusive : Bool

/-- The first bound that one of two operators sets. -/
def firstBound (strict inclusive : Operator) (clauses : List Clause) (position : Nat) :
    Option Bound :=
  match clauses with
  | [] => none
  | clause :: rest =>
    match clause.operand with
    | .literal value =>
      match boundKey? value with
      | some key =>
        if clause.op = strict ∨ clause.op = inclusive then
          some ⟨position, key, clause.op == inclusive⟩
        else firstBound strict inclusive rest (position + 1)
      | none => firstBound strict inclusive rest (position + 1)
    | _ => firstBound strict inclusive rest (position + 1)

/-- A range lookup, if the attribute of the index still has a bound, and if two bounds are of one
kind. -/
def takeRange (root : List QueryNode) (offer : Offer) (path : String) :
    Except Refusal (Option (IndexLookup × List QueryNode)) := do
  let (position, clauses) ← nodeOn root offer path
  let low := firstBound .gt .gte clauses 0
  let high := firstBound .lt .lte clauses 0
  let bounds := low.toList ++ high.toList
  if bounds.isEmpty then return none
  else if !(low.all fun l => high.all fun h => l.key.sameKind h.key) then return none
  else
    let root ← takeOutAll root (bounds.map fun bound => (position, bound.clause))
    return some
      (.range ⟨low.map Bound.key, high.map Bound.key, low.all Bound.inclusive,
        high.all Bound.inclusive⟩, root)

/-- What one index takes over: equalities before bounds. -/
def takeFor (root : List QueryNode) (offer : Offer) (index : Index) :
    Except Refusal (Option (IndexLookup × List QueryNode)) :=
  if index.applies offer.exact false then takeExact root offer index
  else if index.applies offer.bounded true then
    match index.attributes with
    | [path] => takeRange root offer path
    | _ => .error .noAttributes
  else .ok none

/-- Lets the indices from a position on take over clauses, given the lookups so far. -/
def takeAll (offer : Offer) : Nat → List Index → List QueryNode → List QueryNode →
    Except Refusal (List QueryNode × List QueryNode)
  | _, [], lookups, root => .ok (lookups, root)
  | position, index :: rest, lookups, root => do
    match ← takeFor root offer index with
    | none => takeAll offer (position + 1) rest lookups root
    | some (lookup, root) =>
      takeAll offer (position + 1) rest (.lookup ⟨position, index.name, lookup⟩ :: lookups) root

def hasClauses : QueryNode → Bool
  | .field _ clauses => !clauses.isEmpty
  | _ => true

/-- The query with lookups in the given indices in place of the clauses that these answer. -/
def select (indices : List Index) (query : Query) : Except Error Query :=
  if indices.isEmpty || query.root.isEmpty then .ok query
  else
    match takeAll (offerOf query.root) 0 indices [] query.root with
    | .ok (lookups, root) => .ok ⟨lookups ++ root.filter hasClauses⟩
    | .error .clauseOutOfRange => .error .clauseOutOfRange
    | .error _ => .ok query

end Query
end Docstore
