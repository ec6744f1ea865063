import Docstore.Proofs.Collection.Soundness

set_option autoImplicit false

namespace Docstore

namespace Index

def buckets : Index → Except PageFault (List (Key × List DocId))
  | .ordered index => index.tree.toEntries
  | .hashed index => .ok index.buckets.entries

/-- Buckets that file exactly the given documents, each under the key of its content. -/
structure Agrees (index : Index) (documents : Table DocId Json)
    (buckets : List (Key × List DocId)) : Prop where
  /-- The documents that have a key are those that are stored. -/
  indexed : index.keyOf.keys.Nodup ∧ ∀ id, id ∈ index.keyOf.keys ↔ id ∈ documents.keys
  /-- Each key has one bucket. -/
  distinct : (buckets.map Prod.fst).Nodup
  /-- No bucket is empty, and none repeats a document. -/
  full : ∀ bucket ∈ buckets, bucket.2 ≠ [] ∧ bucket.2.Nodup
  /-- A bucket has the stored documents of its key. -/
  placed : ∀ key id, (∃ ids, (key, ids) ∈ buckets ∧ id ∈ ids) ↔
    ∃ doc, documents.get? id = some doc ∧ Key.ofDocument doc index.attributes = key

variable {index : Index}

theorem buckets_spec (sound : index.Sound) :
    ∃ buckets bucket, index.buckets = .ok buckets ∧ (buckets.map Prod.fst).Nodup ∧
      (∀ key ids, (key, ids) ∈ buckets ↔ bucket key = some ids) ∧ Filed bucket index.keyOf := by
  cases index with
  | ordered index =>
      obtain ⟨span, tree, filed⟩ := sound
      refine ⟨span.entries, _, PageTree.toEntries_spec tree, ?_, fun key ids => ?_, filed⟩
      · exact tree.sorted.nodup_keys
      · exact PageTree.mem_iff_findEntry tree.sorted key ids
  | hashed index =>
      obtain ⟨nodup, filed⟩ := sound
      exact ⟨_, _, rfl, nodup, fun key ids => Table.mem_entries_iff nodup, filed⟩

theorem Files.agrees {documents : Table DocId Json} (files : index.Files documents none) :
    ∃ buckets, index.buckets = .ok buckets ∧ index.Agrees documents buckets := by
  obtain ⟨buckets, bucket, read, distinct, entry, filed⟩ := buckets_spec files.sound
  refine ⟨buckets, read, ⟨filed.nodup, fun id => ?_⟩, distinct, fun bucket there => ?_,
    fun key id => ?_⟩
  · rw [← Table.contains_iff, ← Table.contains_iff, files.stored]
  · exact filed.full bucket.1 bucket.2 ((entry bucket.1 bucket.2).1 there)
  · simp only [entry]
    rw [filed.member, files.keyOf_iff]

end Index

namespace Collection

/-- What changes a collection. -/
inductive Call
  | insert (doc : Json)
  | insertMany (docs : List Json)
  | remove (id : DocId)
  | update (predicate mutation : Json) (upsert : Bool)
  | delete (predicate : Json)
  | ensureIndex (attributes : List String) (kind : IndexKind)

def outcomeOf {α : Type} (done : Except Error α × Collection) : Except Error Unit × Collection :=
  (done.1.map fun _ => (), done.2)

/-- Whether a call succeeds, and the collection after it. -/
def perform (collection : Collection) : Call → Except Error Unit × Collection
  | .insert doc => outcomeOf (collection.insert doc)
  | .insertMany docs => outcomeOf (collection.insertMany docs)
  | .remove id => outcomeOf (collection.remove id)
  | .update predicate mutation upsert => outcomeOf (collection.update predicate mutation upsert)
  | .delete predicate => outcomeOf (collection.delete predicate)
  | .ensureIndex attributes kind => outcomeOf (collection.ensureIndex attributes kind)

def performAll (collection : Collection) (calls : List Call) : Collection :=
  calls.foldl (fun collection call => (collection.perform call).2) collection

/-- Whether a call concerns one document or one index, so that it is done whole or not at all. -/
def Call.isWhole : Call → Bool
  | .insert _ | .remove _ | .ensureIndex _ _ => true
  | .insertMany _ | .update _ _ _ | .delete _ => false

/-- Why a call on one document or one index is turned down before it begins. -/
inductive TurnedDown (collection : Collection) : Call → Error → Prop
  | invalid {doc : Json} {fault : DocumentFault} (unfit : collection.identify doc = .error fault) :
      TurnedDown collection (.insert doc) (.invalidDocument fault)
  | duplicate {doc : Json} {id : DocId} {members : Members}
      (stated : collection.identify doc = .ok (id, members)) (taken : id ∈ collection.ids) :
      TurnedDown collection (.insert doc) (.invalidDocument (.duplicateIdentity id))
  | absent {id : DocId} (absent : id ∉ collection.ids) :
      TurnedDown collection (.remove id) (.documentNotFound id)
  | noAttributes {kind : IndexKind} :
      TurnedDown collection (.ensureIndex [] kind) (.invalidConfig .noAttributes)
  | otherKind {attributes : List String} {kind : IndexKind} {present : Index}
      (named : collection.index? (Index.nameOf attributes) = some present)
      (other : present.kind ≠ kind) :
      TurnedDown collection (.ensureIndex attributes kind)
        (.indexExists collection.store.name (Index.nameOf attributes))
  | noRoom {attributes : List String}
      (large : Recent.maxCapacity < collection.config.lookupCapacity) :
      TurnedDown collection (.ensureIndex attributes .tree)
        (.noRoom collection.config.lookupCapacity)

/-- Identities are listed once each and stated by their documents, the next one is free, and every
index agrees with the documents. -/
structure Consistent (collection : Collection) : Prop where
  listed : collection.ids.Nodup ∧
    ∀ id, id ∈ collection.ids ↔ ∃ doc, collection.get? id = some doc
  identified : ∀ id doc, collection.get? id = some doc → doc.Identified id
  bounded : collection.nextId = 0xFFFFFFFFFFFFFFFF ∨
    ∀ id ∈ collection.ids, id < collection.nextId
  filed : ∀ index ∈ collection.store.indices, ∃ buckets, index.buckets = .ok buckets ∧
    index.Agrees collection.store.documents buckets

variable {collection : Collection}

theorem Sound.consistent (sound : collection.Sound) : collection.Consistent where
  listed := ⟨sound.store.nodup, sound.store.listed⟩
  identified := sound.store.identified
  bounded := sound.bounded
  filed index there := (sound.store.filed index there).agrees

/-- One call, whether it fails or not, keeps a collection sound. -/
theorem perform_sound (sound : collection.Sound) (call : Call) :
    (collection.perform call).2.Sound := by
  cases call with
  | insert doc =>
      obtain ⟨_, -, ran⟩ | ⟨_, _, -, -, ran⟩ | ⟨_, _, after, -, -, ran, sound', -⟩ :=
        insert_spec sound doc
      · rw [perform, ran]
        exact sound
      · rw [perform, ran]
        exact sound
      · rw [perform, ran]
        exact sound'
  | insertMany docs => exact insertMany_sound sound docs
  | remove id =>
      obtain ⟨-, ran⟩ | ⟨_, after, -, ran, sound', -⟩ := remove_spec sound id
      · rw [perform, ran]
        exact sound
      · rw [perform, ran]
        exact sound'
  | update predicate mutation upsert => exact update_sound sound predicate mutation upsert
  | delete predicate => exact delete_sound sound predicate
  | ensureIndex attributes kind =>
      obtain ⟨-, ran⟩ | ⟨_, -, -, ran⟩ | ⟨-, -, ran⟩ | ⟨after, ran, sound', -⟩ :=
        ensureIndex_spec sound attributes kind
      · rw [perform, ran]
        exact sound
      · rw [perform, ran]
        exact sound
      · rw [perform, ran]
        exact sound
      · rw [perform, ran]
        exact sound'

theorem performAll_sound (sound : collection.Sound) (calls : List Call) :
    (collection.performAll calls).Sound := by
  induction calls generalizing collection with
  | nil => exact sound
  | cons call rest ih => exact ih (perform_sound sound call)

/-- A call on one document or one index fails only where it is turned down, and changes nothing
then. -/
theorem perform_turnedDown (sound : collection.Sound) {call : Call} (whole : call.isWhole = true)
    {error : Error} (failed : (collection.perform call).1 = .error error) :
    (collection.perform call).2 = collection ∧ collection.TurnedDown call error := by
  cases call with
  | insert doc =>
      obtain ⟨_, unfit, ran⟩ | ⟨_, _, stated, taken, ran⟩ | ⟨_, _, _, -, -, ran, -⟩ :=
        insert_spec sound doc
      · rw [perform, ran] at failed ⊢
        exact ⟨rfl, Except.error.inj failed ▸ .invalid unfit⟩
      · rw [perform, ran] at failed ⊢
        exact ⟨rfl, Except.error.inj failed ▸ .duplicate stated taken⟩
      · rw [perform, ran] at failed
        cases failed
  | remove id =>
      obtain ⟨absent, ran⟩ | ⟨_, _, -, ran, -⟩ := remove_spec sound id
      · rw [perform, ran] at failed ⊢
        exact ⟨rfl, Except.error.inj failed ▸ .absent absent⟩
      · rw [perform, ran] at failed
        cases failed
  | ensureIndex attributes kind =>
      obtain ⟨nothing, ran⟩ | ⟨_, named, other, ran⟩ | ⟨tree, large, ran⟩ | ⟨_, ran, -⟩ :=
        ensureIndex_spec sound attributes kind
      · rw [perform, ran] at failed ⊢
        exact ⟨rfl, Except.error.inj failed ▸ nothing ▸ .noAttributes⟩
      · rw [perform, ran] at failed ⊢
        exact ⟨rfl, Except.error.inj failed ▸ .otherKind named other⟩
      · rw [perform, ran] at failed ⊢
        exact ⟨rfl, Except.error.inj failed ▸ tree ▸ .noRoom large⟩
      · rw [perform, ran] at failed
        cases failed
  | _ => cases whole

/-- After any calls, failed ones and updates that stopped in the middle of a document among them,
a collection is consistent; and a next call on one document or one index that fails was turned down
before it changed anything. -/
theorem calls_keep_consistent {config : Config} {name : String} {start : Collection}
    (valid : config.validate = .ok ()) (created : Collection.create name config = .ok start)
    (calls : List Call) :
    (start.performAll calls).Consistent ∧
      ∀ call error, call.isWhole = true →
        ((start.performAll calls).perform call).1 = .error error →
        ((start.performAll calls).perform call).2 = start.performAll calls ∧
          (start.performAll calls).TurnedDown call error := by
  have sound := performAll_sound (sound_create valid created) calls
  exact ⟨sound.consistent, fun call error whole failed => perform_turnedDown sound whole failed⟩

/-- An update adds to a count and then fails on the name, in the middle of a document: the document
keeps the new count, and the index over counts agrees with it. -/
theorem failed_update_keeps_consistent :
    let config : Config := ⟨32, none, 64, 256, false⟩
    let one := Json.number (.int 1 (by decide) (by decide))
    let ann := Json.object [("count", one), ("name", .string "ann")]
    let mutation := Json.object
      [("$inc", .object [("count", one)]), ("$push", .object [("name", .string "b")])]
    let calls : List Call := [.insert ann, .ensureIndex ["count"] .tree]
    let update := Call.update (.object [("name", .string "ann")]) mutation false
    ∃ start : Collection, Collection.create "people" config = .ok start ∧
      ((start.performAll calls).perform update).1 =
        .error (.inOpcode .push (.targetNotArray "name")) ∧
      ((start.performAll (calls ++ [update])).get? 1).bind (·.lookup "count") =
        some (.number (.int 2 (by decide) (by decide))) ∧
      (start.performAll (calls ++ [update])).Consistent ∧
      (start.performAll (calls ++ [update])).TurnedDown (.insert .null)
        (.invalidDocument .notObject) := by
  have valid : Config.validate ⟨32, none, 64, 256, false⟩ = .ok () := rfl
  have created : Collection.create "people" ⟨32, none, 64, 256, false⟩ =
    .ok ⟨Store.empty "people", ⟨32, none, 64, 256, false⟩, 1, none⟩ := rfl
  refine ⟨_, created, rfl, rfl, ?_⟩
  obtain ⟨consistent, refused⟩ := calls_keep_consistent valid created _
  exact ⟨consistent, (refused (.insert .null) _ rfl rfl).2⟩

end Collection
end Docstore
