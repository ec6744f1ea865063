import Docstore.Error
import Docstore.Index
import Docstore.Query.Tree

set_option autoImplicit false

namespace Docstore

structure Store where
  name : String
  documents : Table DocId Json
  /-- The identities of the documents, in the order in which they came. -/
  order : List DocId
  indices : List Index

namespace Store

def empty (name : String) : Store :=
  ⟨name, Table.empty, [], []⟩

def document? (store : Store) (id : DocId) : Option Json :=
  store.documents.get? id

def document (store : Store) (id : DocId) : Except Error Json :=
  match store.document? id with
  | some doc => .ok doc
  | none => .error (.documentNotFound id)

/-- The documents with their identities, in the order in which they came. -/
def entries (store : Store) : List (DocId × Json) :=
  store.order.filterMap fun id => (store.document? id).map fun doc => (id, doc)

/-- Replaces a document. The indices keep its former key. -/
def write (store : Store) (id : DocId) (doc : Json) : Store :=
  { store with documents := store.documents.put id doc }

/-- Only the given document is replaced. -/
theorem document?_write (store : Store) (id other : DocId) (doc : Json) :
    (store.write id doc).document? other = if id = other then some doc else store.document? other :=
  store.documents.get?_put id other doc

/-- Stores a document behind the others once every index has filed it. Where one of them fails, it
is taken out of those before that one again. -/
def insert (store : Store) (id : DocId) (doc : Json) : Except Error Unit × Store :=
  match Index.each (·.insert id doc) store.indices with
  | (.ok (), indices) =>
    (.ok (), { store with
      documents := store.documents.put id doc, order := store.order ++ [id], indices })
  | (.error (failed, error), indices) =>
    (.error error, { store with
      indices := (indices.take failed).map (·.without id) ++ indices.drop failed })

/-- Drops a document, then takes it out of the indices, and last out of the order. -/
def remove (store : Store) (id : DocId) : Except Error Json × Store :=
  match store.document? id with
  | none => (.error (.documentNotFound id), store)
  | some doc =>
    let documents := store.documents.erase id
    match Index.each (·.remove id) store.indices with
    | (.ok (), indices) =>
      (.ok doc, { store with documents, order := store.order.filter (· ≠ id), indices })
    | (.error (_, error), indices) => (.error error, { store with documents, indices })

/-- Files a document anew in every index, up to the first that fails. -/
def reindex (store : Store) (id : DocId) : Except Error Unit × Store :=
  match store.document? id with
  | none => (.error (.documentNotFound id), store)
  | some doc =>
    let done := Index.each (·.reindex id doc) store.indices
    (done.1.mapError Prod.snd, { store with indices := done.2 })

/-- The documents that an index gives for a lookup. -/
def fetch (store : Store) (ref : IndexRef) : Except Error (List DocId × Store) :=
  match store.indices[ref.position]? with
  | none => .error (.inOpcode ref.lookup.opcode (.noIndex ref.position))
  | some index =>
    match ref.lookup with
    | .exact key => do
      let (ids, index) ← index.search key
      return (ids, { store with indices := store.indices.set ref.position index })
    | .range range => do
      return (← index.range range, store)

end Store
end Docstore
