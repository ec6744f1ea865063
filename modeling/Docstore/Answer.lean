import Docstore.Query.Conditions
import Docstore.StableSort
import Docstore.Store

set_option autoImplicit false

namespace Docstore

/-- The documents that an index has for a lookup, in its order. -/
def Index.found (index : Index) : IndexLookup → List DocId
  | .exact key =>
    match index.search key with
    | .ok (ids, _) => ids
    | .error _ => []
  | .range range =>
    match index.range range with
    | .ok ids => ids
    | .error _ => []

namespace Store

def found (store : Store) (ref : IndexRef) : List DocId :=
  match store.indices[ref.position]? with
  | some index => index.found ref.lookup
  | none => []

/-- The documents of the first lookup that are in all others, or without lookups all documents. -/
def candidates (store : Store) : List IndexRef → List DocId
  | [] => store.order
  | first :: others =>
    (store.found first).filter fun id => others.all fun ref => (store.found ref).contains id

/-- Whether nodes hold of a stored document. -/
def holdsOf (store : Store) (nodes : List QueryNode) (id : DocId) : Bool :=
  (store.document? id).any fun doc => QueryNode.allHold doc nodes

/-- The value at a path of a document; a missing one counts as null. -/
def valueAt (store : Store) (path : String) (id : DocId) : Json :=
  ((store.document? id).bind fun doc => doc.lookup path).getD .null

/-- Documents in the order of their values at a path; those with the same value stay in order. -/
def sorted (store : Store) (spec : SortSpec) (ids : List DocId) : List DocId :=
  stableSort (fun a b =>
    spec.order.direct ((store.valueAt spec.path a).compare (store.valueAt spec.path b))) ids

/-- Documents sorted, and then as many of them as are asked for. -/
def arranged (store : Store) (conditions : Conditions) (ids : List DocId) : List DocId :=
  let inOrder := match conditions.sort with
    | some spec => store.sorted spec ids
    | none => ids
  match conditions.limit with
  | some count => inOrder.take count
  | none => inOrder

/-- The candidates of which the other nodes hold. -/
def kept (store : Store) (refs : List IndexRef) (nodes : List QueryNode) : List DocId :=
  (store.candidates refs).filter (store.holdsOf nodes)

/-- The answer to a query with the given lookups and other nodes. -/
def answer (store : Store) (refs : List IndexRef) (nodes : List QueryNode)
    (conditions : Conditions) : List DocId :=
  store.arranged conditions (store.kept refs nodes)

end Store
end Docstore
