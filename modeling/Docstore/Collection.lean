import Docstore.Config
import Docstore.Program.Cache
import Docstore.Store

set_option autoImplicit false

namespace Docstore

structure Collection where
  store : Store
  config : Config
  nextId : DocId
  programs : Option ProgramCache

namespace Collection

/-- A collection without documents. Its program cache, if it has one, needs room. -/
def create (name : String) (config : Config) : Except Error Collection := do
  let programs ←
    if config.cachePrograms then (ProgramCache.create config.programCapacity).map some
    else .ok none
  return { store := Store.empty name, config, nextId := 1, programs }

def size (collection : Collection) : Nat :=
  collection.store.order.length

def ids (collection : Collection) : List DocId :=
  collection.store.order

def documents (collection : Collection) : List Json :=
  collection.store.entries.map Prod.snd

def get? (collection : Collection) (id : DocId) : Option Json :=
  collection.store.document? id

/-- The identity of a document to be stored, and its members with that identity. -/
def identify (collection : Collection) (doc : Json) : Except DocumentFault (DocId × Members) :=
  match doc with
  | .object members =>
    match Members.get? Mutation.identity members with
    | none =>
      let id := collection.nextId
      .ok (id, Members.put Mutation.identity (.number (Number.ofWord id)) members)
    | some value =>
      match value.unsigned? with
      | some id => .ok (UInt64.ofNat id, members)
      | none => .error .identityNotCount
  | _ => .error .notObject

/-- The identity after one, but the last has none after it. -/
def successor (id : DocId) : DocId :=
  if id = 0xFFFFFFFFFFFFFFFF then id else id + 1

/-- Stores a document under an identity of its own, which is assigned if it has none. -/
def insert (collection : Collection) (doc : Json) : Except Error DocId × Collection :=
  match collection.identify doc with
  | .error fault => (.error (.invalidDocument fault), collection)
  | .ok (id, members) =>
    if collection.store.documents.contains id then
      (.error (.invalidDocument (.duplicateIdentity id)), collection)
    else
      match collection.store.insert id (.object members) with
      | (.error error, store) => (.error error, { collection with store })
      | (.ok (), store) =>
        (.ok id, { collection with store, nextId := max collection.nextId (successor id) })

/-- Stores documents up to the first that is refused. -/
def insertMany (collection : Collection) : List Json → Except Error (List DocId) × Collection
  | [] => (.ok [], collection)
  | doc :: rest =>
    match collection.insert doc with
    | (.error error, collection) => (.error error, collection)
    | (.ok id, collection) =>
      let others := collection.insertMany rest
      (others.1.map (id :: ·), others.2)

def remove (collection : Collection) (id : DocId) : Except Error Json × Collection :=
  let done := collection.store.remove id
  (done.1, { collection with store := done.2 })

/-- Replaces a stored document but leaves the indices as they are. -/
def overwrite (collection : Collection) (id : DocId) (doc : Json) : Bool × Collection :=
  if collection.store.documents.contains id then
    (true, { collection with store := collection.store.write id doc })
  else (false, collection)

def reindex (collection : Collection) (id : DocId) : Except Error Unit × Collection :=
  let done := collection.store.reindex id
  (done.1, { collection with store := done.2 })

def index? (collection : Collection) (name : String) : Option Index :=
  collection.store.indices.find? fun index => index.name == name

/-- An index over no documents. -/
def emptyIndex (config : Config) (attributes : List String) (kind : IndexKind) :
    Except Error Index :=
  match kind with
  | .hash => .ok (.hashed (HashedIndex.create attributes))
  | .tree =>
    (OrderedIndex.create attributes config.treeOrder config.effectiveThreshold
      config.lookupCapacity).map .ordered

/-- An index over the stored documents. -/
def buildIndex (collection : Collection) (attributes : List String) (kind : IndexKind) :
    Except Error Index := do
  collection.store.entries.foldlM (fun index entry => index.insert entry.1 entry.2)
    (← emptyIndex collection.config attributes kind)

/-- Registers an index over the stored documents, unless there is one of its name. The programs
kept so far do not use it, so they are forgotten. -/
def ensureIndex (collection : Collection) (attributes : List String) (kind : IndexKind) :
    Except Error String × Collection :=
  let name := Index.nameOf attributes
  if attributes.isEmpty then (.error (.invalidConfig .noAttributes), collection)
  else match collection.index? name with
    | some present =>
      if present.kind = kind then (.ok name, collection)
      else (.error (.indexExists collection.store.name name), collection)
    | none =>
      match collection.buildIndex attributes kind with
      | .error error => (.error error, collection)
      | .ok index =>
        (.ok name, { collection with
          store := { collection.store with indices := collection.store.indices ++ [index] }
          programs := collection.programs.map ProgramCache.clear })

end Collection
end Docstore
