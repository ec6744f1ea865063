import Docstore.Index.Key
import Docstore.PageTree.Remove
import Docstore.PageTree.Scan
import Docstore.Table

set_option autoImplicit false

namespace Docstore

inductive IndexKind
  | tree
  | hash
deriving DecidableEq

structure OrderedIndex where
  attributes : List String
  tree : PageTree Key (List DocId)
  keyOf : Table DocId Key

structure HashedIndex where
  attributes : List String
  buckets : Table Key (List DocId)
  keyOf : Table DocId Key

inductive Index
  | ordered (index : OrderedIndex)
  | hashed (index : HashedIndex)

def damaged {α : Type} : Except PageFault α → Except Error α
  | .ok a => .ok a
  | .error fault => .error (.damagedTree fault)

namespace OrderedIndex

def create (attributes : List String) (order threshold capacity : Nat) :
    Except Error OrderedIndex := do
  return ⟨attributes, ← PageTree.create order threshold capacity, Table.empty⟩

def search (index : OrderedIndex) (key : Key) : Except Error (List DocId × OrderedIndex) := do
  let (bucket, tree) ← damaged (index.tree.search key)
  return (bucket.getD [], { index with tree })

/-- The documents whose keys lie in a range, in key order. A bound admits keys of its own kind. -/
def range (index : OrderedIndex) (range : KeyRange Key) : Except Error (List DocId) := do
  let entries ← damaged (index.tree.rangeEntries range)
  let ofKind := entries.filter fun entry =>
    range.min.all (·.sameKind entry.1) && range.max.all (·.sameKind entry.1)
  return ofKind.flatMap Prod.snd

def remove (index : OrderedIndex) (id : DocId) : Except Error OrderedIndex :=
  match index.keyOf.get? id with
  | none => .ok index
  | some key => do
    let keyOf := index.keyOf.erase id
    let (bucket, tree) ← damaged (index.tree.search key)
    match bucket with
    | none => return { index with tree, keyOf }
    | some ids =>
      let kept := ids.filter (· ≠ id)
      if kept.isEmpty then
        let (_, tree) ← damaged (tree.remove key)
        return { index with tree, keyOf }
      else
        let (_, tree) ← damaged (tree.insert key kept)
        return { index with tree, keyOf }

/-- Files a document under its present key, behind the other documents of that key. -/
def insert (index : OrderedIndex) (id : DocId) (doc : Json) : Except Error OrderedIndex := do
  let index ← if index.keyOf.contains id then index.remove id else .ok index
  let key := Key.ofDocument doc index.attributes
  let (bucket, tree) ← damaged (index.tree.search key)
  let ids := bucket.getD []
  let (_, tree) ← damaged (tree.insert key (if id ∈ ids then ids else ids ++ [id]))
  return { index with tree, keyOf := index.keyOf.put id key }

end OrderedIndex

namespace HashedIndex

def create (attributes : List String) : HashedIndex :=
  ⟨attributes, Table.empty, Table.empty⟩

def search (index : HashedIndex) (key : Key) : List DocId :=
  (index.buckets.get? key).getD []

def remove (index : HashedIndex) (id : DocId) : HashedIndex :=
  match index.keyOf.get? id with
  | none => index
  | some key =>
    let keyOf := index.keyOf.erase id
    match index.buckets.get? key with
    | none => { index with keyOf }
    | some ids =>
      let kept := ids.filter (· ≠ id)
      if kept.isEmpty then { index with buckets := index.buckets.erase key, keyOf }
      else { index with buckets := index.buckets.put key kept, keyOf }

/-- Files a document under its present key, behind the other documents of that key. -/
def insert (index : HashedIndex) (id : DocId) (doc : Json) : HashedIndex :=
  let index := index.remove id
  let key := Key.ofDocument doc index.attributes
  { index with
    buckets := index.buckets.put key (index.search key ++ [id])
    keyOf := index.keyOf.put id key }

end HashedIndex

namespace Index

/-- The attributes joined by underscores. -/
def nameOf (attributes : List String) : String :=
  "_".intercalate attributes

def attributes : Index → List String
  | .ordered index => index.attributes
  | .hashed index => index.attributes

def name (index : Index) : String :=
  nameOf index.attributes

def kind : Index → IndexKind
  | .ordered _ => .tree
  | .hashed _ => .hash

/-- The number of documents. -/
def size : Index → Nat
  | .ordered index => index.keyOf.size
  | .hashed index => index.keyOf.size

def distinctKeys : Index → Nat
  | .ordered index => index.tree.size
  | .hashed index => index.buckets.size

/-- The documents of a key. Looking them up may refresh what an ordered index remembers. -/
def search : Index → Key → Except Error (List DocId × Index)
  | .ordered index, key => do
    let (ids, index) ← index.search key
    return (ids, .ordered index)
  | .hashed index, key => .ok (index.search key, .hashed index)

def range : Index → KeyRange Key → Except Error (List DocId)
  | .ordered index, range => index.range range
  | .hashed index, _ =>
    .error (.execution "range" (.noRangeLookups (nameOf index.attributes)))

def insert : Index → DocId → Json → Except Error Index
  | .ordered index, id, doc => do return .ordered (← index.insert id doc)
  | .hashed index, id, doc => .ok (.hashed (index.insert id doc))

def remove : Index → DocId → Except Error Index
  | .ordered index, id => do return .ordered (← index.remove id)
  | .hashed index, id => .ok (.hashed (index.remove id))

/-- Files a document anew. -/
def reindex (index : Index) (id : DocId) (doc : Json) : Except Error Index := do
  (← index.remove id).insert id doc

/-- The index without a document; where that cannot be taken out, as it was. -/
def without (index : Index) (id : DocId) : Index :=
  (index.remove id).toOption.getD index

/-- Acts on indices one after the other. The first that fails ends it; its position is told, and
those before it stay as they have become. -/
def each (act : Index → Except Error Index) : List Index → Except (Nat × Error) Unit × List Index
  | [] => (.ok (), [])
  | index :: rest =>
    match act index with
    | .error error => (.error (0, error), index :: rest)
    | .ok index =>
      let others := each act rest
      (others.1.mapError fun failure => (failure.1 + 1, failure.2), index :: others.2)

/-- Whether the index answers a lookup by the given attributes: they must include all of its own,
and range lookups need an ordered index over one attribute. -/
def applies (index : Index) (given : List String) (isRange : Bool) : Bool :=
  !(isRange && (index.kind ≠ .tree || index.attributes.length ≠ 1)) &&
    index.attributes.all (given.contains ·)

end Index
end Docstore
