import Docstore.Index
import Docstore.Proofs.Index.KeyOrder
import Docstore.Proofs.PageTree.Insertion
import Docstore.Proofs.PageTree.Reading
import Docstore.Proofs.PageTree.Removal

set_option autoImplicit false

namespace Docstore

/-- Buckets that agree with the keys remembered for the documents. -/
structure Filed (bucket : Key → Option (List DocId)) (keyOf : Table DocId Key) : Prop where
  nodup : keyOf.keys.Nodup
  full : ∀ key ids, bucket key = some ids → ids ≠ [] ∧ ids.Nodup
  member : ∀ key id, (∃ ids, bucket key = some ids ∧ id ∈ ids) ↔ keyOf.get? id = some key

namespace Filed

variable {bucket after : Key → Option (List DocId)} {keyOf : Table DocId Key} {id : DocId}
  {key : Key}

theorem empty (vacant : ∀ key, bucket key = none) : Filed bucket Table.empty where
  nodup := List.nodup_nil
  full key ids found := by simp [vacant] at found
  member key id := by simp [vacant, Table.get?, Table.empty, Table.find]

theorem bucket_of_key (filed : Filed bucket keyOf) (found : keyOf.get? id = some key) :
    ∃ ids, bucket key = some ids ∧ id ∈ ids :=
  (filed.member key id).2 found

theorem mem_getD (filed : Filed bucket keyOf) (key : Key) (id : DocId) :
    id ∈ (bucket key).getD [] ↔ keyOf.get? id = some key := by
  rw [← filed.member]
  cases bucket key with
  | none => simp
  | some ids => simp

theorem nodup_getD (filed : Filed bucket keyOf) (key : Key) : ((bucket key).getD []).Nodup := by
  cases found : bucket key with
  | none => exact List.nodup_nil
  | some ids => exact (filed.full key ids found).2

/-- A document leaves its bucket, and a bucket left empty goes. -/
theorem remove (filed : Filed bucket keyOf) (found : keyOf.get? id = some key) {ids : List DocId}
    (present : bucket key = some ids)
    (changed : ∀ other, after other =
      if key = other then
        if (ids.filter (· ≠ id)).isEmpty then none else some (ids.filter (· ≠ id))
      else bucket other) : Filed after (keyOf.erase id) where
  nodup := by
    rw [Table.keys_erase]
    exact filed.nodup.filter _
  full other others there := by
    rw [changed] at there
    by_cases same : key = other
    · rw [if_pos same] at there
      by_cases none : (ids.filter (· ≠ id)).isEmpty
      · rw [if_pos none] at there
        cases there
      · rw [if_neg none] at there
        obtain rfl := Option.some.inj there
        exact ⟨by simpa using none, (filed.full key ids present).2.filter _⟩
    · rw [if_neg same] at there
      exact filed.full other others there
  member other doc := by
    rw [Table.get?_erase, changed]
    have before := filed.member other doc
    by_cases same : key = other
    · subst same
      rw [if_pos rfl]
      have kept : doc ∈ ids.filter (· ≠ id) ↔ doc ≠ id ∧ keyOf.get? doc = some key := by
        rw [← before, present]
        simp [and_comm]
      by_cases here : id = doc
      · subst here
        rw [if_pos rfl]
        split <;> simp
      · rw [if_neg here, ← (show doc ∈ ids.filter (· ≠ id) ↔ keyOf.get? doc = some key by
          rw [kept]; exact and_iff_right (Ne.symm here))]
        by_cases none : (ids.filter (· ≠ id)).isEmpty
        · rw [if_pos none, List.isEmpty_iff.1 none]
          simp
        · rw [if_neg none]
          simp
    · rw [if_neg same, before]
      by_cases here : id = doc
      · subst here
        rw [if_pos rfl, found]
        simp [same]
      · rw [if_neg here]

/-- A document without a key joins the bucket of a key behind the others. -/
theorem insert (filed : Filed bucket keyOf) (fresh : keyOf.get? id = none) (key : Key)
    (changed : ∀ other, after other =
      if key = other then some ((bucket key).getD [] ++ [id]) else bucket other) :
    Filed after (keyOf.put id key) where
  nodup := by
    rw [Table.keys_put]
    have absent : id ∉ keyOf.keys := by
      rw [← Table.contains_iff, Table.contains, fresh]
      simp
    rw [if_neg absent]
    exact (List.nodup_append_comm).1 (List.nodup_cons.2 ⟨absent, filed.nodup⟩)
  full other others there := by
    rw [changed] at there
    by_cases same : key = other
    · rw [if_pos same] at there
      obtain rfl := Option.some.inj there
      have outside : id ∉ (bucket key).getD [] := by
        rw [filed.mem_getD, fresh]
        simp
      refine ⟨by simp, ?_⟩
      exact (List.nodup_append_comm).1 (List.nodup_cons.2 ⟨outside, filed.nodup_getD key⟩)
    · rw [if_neg same] at there
      exact filed.full other others there
  member other doc := by
    rw [Table.get?_put, changed]
    have before := filed.member other doc
    by_cases same : key = other
    · subst same
      have inBucket := filed.mem_getD key doc
      rw [if_pos rfl]
      by_cases here : id = doc
      · subst here
        simp
      · rw [if_neg here, ← inBucket]
        simp [Ne.symm here]
    · rw [if_neg same, before]
      by_cases here : id = doc
      · subst here
        rw [if_pos rfl, fresh]
        simp [same]
      · rw [if_neg here]

end Filed

open PageTree in
/-- The buckets of an ordered index are the entries of its tree. -/
def OrderedIndex.Sound (index : OrderedIndex) : Prop :=
  ∃ span, PageTree.Sound index.tree span ∧
    Filed (fun key => findEntry key span.entries) index.keyOf

structure HashedIndex.Sound (index : HashedIndex) : Prop where
  nodup : index.buckets.keys.Nodup
  filed : Filed index.buckets.get? index.keyOf

namespace Index

def keyOf : Index → Table DocId Key
  | .ordered index => index.keyOf
  | .hashed index => index.keyOf

def Sound : Index → Prop
  | .ordered index => index.Sound
  | .hashed index => index.Sound

end Index

namespace OrderedIndex

open PageTree

variable {index : OrderedIndex}

theorem damaged_ok {α : Type} (a : α) : damaged (.ok a : Except PageFault α) = .ok a := rfl

theorem sound_create {attributes : List String} {order threshold capacity : Nat}
    (created : OrderedIndex.create attributes order threshold capacity = .ok index) :
    index.Sound ∧ index.attributes = attributes ∧ index.keyOf = Table.empty := by
  obtain ⟨tree, made, same⟩ := bind_eq_ok.1 created
  obtain rfl : ⟨attributes, tree, Table.empty⟩ = index := by simpa using same
  exact ⟨⟨.ofLeaf 0 [], PageTree.sound_create made, Filed.empty fun _ => rfl⟩, rfl, rfl⟩

variable {entries : List (Key × List DocId)} {id : DocId} {key : Key}

def Shows (index : OrderedIndex) (entries : List (Key × List DocId)) : Prop :=
  ∃ span, PageTree.Sound index.tree span ∧ span.entries = entries

/-- The buckets without a document of the bucket of a key. A bucket left empty goes. -/
def takenOut (key : Key) (id : DocId) (entries : List (Key × List DocId)) :
    List (Key × List DocId) :=
  match findEntry key entries with
  | none => entries
  | some ids =>
    if (ids.filter (· ≠ id)).isEmpty then (eraseEntry key entries).1
    else (putEntry key (ids.filter (· ≠ id)) entries).1

/-- The buckets with a document in the bucket of a key, behind the others if it is new there. -/
def putIn (key : Key) (id : DocId) (entries : List (Key × List DocId)) :
    List (Key × List DocId) :=
  let ids := (findEntry key entries).getD []
  (putEntry key (if id ∈ ids then ids else ids ++ [id]) entries).1

theorem findEntry_takenOut (sorted : Ascending entries) {ids : List DocId}
    (present : findEntry key entries = some ids) (other : Key) :
    findEntry other (takenOut key id entries) =
      if key = other then
        if (ids.filter (· ≠ id)).isEmpty then none else some (ids.filter (· ≠ id))
      else findEntry other entries := by
  simp only [takenOut, present]
  by_cases none : (ids.filter (· ≠ id)).isEmpty
  · rw [if_pos none, if_pos none, findEntry_eraseEntry key other sorted]
  · rw [if_neg none, if_neg none, findEntry_putEntry key other _ sorted]

theorem findEntry_putIn (sorted : Ascending entries)
    (outside : id ∉ (findEntry key entries).getD []) (other : Key) :
    findEntry other (putIn key id entries) =
      if key = other then some ((findEntry key entries).getD [] ++ [id])
      else findEntry other entries := by
  simp only [putIn, if_neg outside, findEntry_putEntry key other _ sorted]

namespace Shows

theorem sorted (shows : index.Shows entries) : Ascending entries := by
  obtain ⟨span, tree, rfl⟩ := shows
  exact tree.sorted

theorem search (shows : index.Shows entries) (key : Key) :
    ∃ recent, index.search key = .ok ((findEntry key entries).getD [],
        { index with tree := { index.tree with recent } }) ∧
      Shows { index with tree := { index.tree with recent } } entries := by
  obtain ⟨span, tree, rfl⟩ := shows
  obtain ⟨recent, ran, tree'⟩ := PageTree.search_spec tree key
  refine ⟨recent, ?_, span, tree', rfl⟩
  simp only [OrderedIndex.search, ran, damaged_ok, ok_bind]
  rfl

/-- A document leaves the bucket of the key that is remembered for it. -/
theorem takeOut (shows : index.Shows entries) (found : index.keyOf.get? id = some key) :
    ∃ tree, index.remove id = .ok { index with tree, keyOf := index.keyOf.erase id } ∧
      Shows { index with tree, keyOf := index.keyOf.erase id } (takenOut key id entries) := by
  obtain ⟨span, tree, rfl⟩ := shows
  obtain ⟨recent, ran, tree₁⟩ := PageTree.search_spec tree key
  cases present : findEntry key span.entries with
  | none =>
      rw [present] at ran
      refine ⟨{ index.tree with recent }, ?_, span, tree₁, ?_⟩
      · simp only [remove, found, ran, damaged_ok, ok_bind]
        rfl
      · simp only [takenOut, present]
  | some ids =>
      rw [present] at ran
      by_cases none : (ids.filter (· ≠ id)).isEmpty
      · obtain ⟨tree₂, span₂, ran₂, sound₂, entries, -⟩ := PageTree.remove_spec tree₁ key
        refine ⟨tree₂, ?_, span₂, sound₂, ?_⟩
        · simp only [remove, found, ran, damaged_ok, ok_bind, none, if_true, ran₂]
          rfl
        · simp only [takenOut, present, if_pos none, entries]
      · obtain ⟨tree₂, span₂, ran₂, sound₂, entries, -⟩ :=
          PageTree.insert_spec tree₁ key (ids.filter (· ≠ id))
        refine ⟨tree₂, ?_, span₂, sound₂, ?_⟩
        · simp only [remove, found, ran, damaged_ok, ok_bind, if_neg none, ran₂]
          rfl
        · simp only [takenOut, present, if_neg none, entries]

end Shows

theorem sound_iff : index.Sound ↔
    ∃ entries, index.Shows entries ∧ Filed (fun key => findEntry key entries) index.keyOf := by
  constructor
  · rintro ⟨span, tree, filed⟩
    exact ⟨span.entries, ⟨span, tree, rfl⟩, filed⟩
  · rintro ⟨entries, ⟨span, tree, rfl⟩, filed⟩
    exact ⟨span, tree, filed⟩

theorem search_spec (sound : index.Sound) (key : Key) :
    ∃ ids recent, index.search key =
        .ok (ids, { index with tree := { index.tree with recent } }) ∧
      OrderedIndex.Sound { index with tree := { index.tree with recent } } ∧ ids.Nodup ∧
      ∀ id, id ∈ ids ↔ index.keyOf.get? id = some key := by
  obtain ⟨entries, shows, filed⟩ := sound_iff.1 sound
  obtain ⟨recent, ran, shows'⟩ := shows.search key
  exact ⟨_, recent, ran, sound_iff.2 ⟨entries, shows', filed⟩, filed.nodup_getD key,
    filed.mem_getD key⟩

theorem remove_spec (sound : index.Sound) (id : DocId) :
    ∃ after, index.remove id = .ok after ∧ after.Sound ∧
      after.attributes = index.attributes ∧
      ∀ other, after.keyOf.get? other = if id = other then none else index.keyOf.get? other := by
  cases found : index.keyOf.get? id with
  | none =>
      refine ⟨index, by simp only [remove, found], sound, rfl, fun other => ?_⟩
      by_cases same : id = other
      · rw [if_pos same, ← same, found]
      · rw [if_neg same]
  | some key =>
      obtain ⟨entries, shows, filed⟩ := sound_iff.1 sound
      obtain ⟨ids, present, -⟩ := filed.bucket_of_key found
      obtain ⟨tree, ran, shows'⟩ := shows.takeOut found
      have filed' := filed.remove found present (findEntry_takenOut shows.sorted present)
      exact ⟨_, ran, sound_iff.2 ⟨_, shows', filed'⟩, rfl, index.keyOf.get?_erase id⟩

def file (index : OrderedIndex) (id : DocId) (doc : Json) : Except Error OrderedIndex := do
  let key := Key.ofDocument doc index.attributes
  let (bucket, tree) ← damaged (index.tree.search key)
  let ids := bucket.getD []
  let (_, tree) ← damaged (tree.insert key (if id ∈ ids then ids else ids ++ [id]))
  return { index with tree, keyOf := index.keyOf.put id key }

theorem insert_eq (index : OrderedIndex) (id : DocId) (doc : Json) :
    index.insert id doc =
      ((if index.keyOf.contains id then index.remove id else .ok index) >>= fun first =>
        first.file id doc) := by
  by_cases present : index.keyOf.contains id
  · simp only [insert, present, if_true]
    rfl
  · simp only [insert, present]
    rfl

theorem Shows.file (shows : index.Shows entries) (id : DocId) (doc : Json) :
    let keyOf := index.keyOf.put id (Key.ofDocument doc index.attributes)
    ∃ tree, index.file id doc = .ok { index with tree, keyOf } ∧
      Shows { index with tree, keyOf }
        (putIn (Key.ofDocument doc index.attributes) id entries) := by
  obtain ⟨span, tree, rfl⟩ := shows
  obtain ⟨recent, ran, tree₁⟩ :=
    PageTree.search_spec tree (Key.ofDocument doc index.attributes)
  obtain ⟨tree₂, span₂, ran₂, sound₂, entries, -⟩ :=
    PageTree.insert_spec tree₁ (Key.ofDocument doc index.attributes)
      (if id ∈ (findEntry (Key.ofDocument doc index.attributes) span.entries).getD [] then
        (findEntry (Key.ofDocument doc index.attributes) span.entries).getD []
      else (findEntry (Key.ofDocument doc index.attributes) span.entries).getD [] ++ [id])
  refine ⟨tree₂, ?_, span₂, sound₂, entries⟩
  simp only [OrderedIndex.file, ran, damaged_ok, ok_bind, ran₂]
  rfl

theorem file_spec (sound : index.Sound) {id : DocId} (fresh : index.keyOf.get? id = none)
    (doc : Json) :
    ∃ after, index.file id doc = .ok after ∧ after.Sound ∧ after.attributes = index.attributes ∧
      after.keyOf = index.keyOf.put id (Key.ofDocument doc index.attributes) := by
  obtain ⟨entries, shows, filed⟩ := sound_iff.1 sound
  obtain ⟨tree, ran, shows'⟩ := shows.file id doc
  have outside : id ∉ (findEntry (Key.ofDocument doc index.attributes) entries).getD [] := by
    rw [filed.mem_getD, fresh]
    simp
  have filed' := filed.insert fresh _ (findEntry_putIn shows.sorted outside)
  exact ⟨_, ran, sound_iff.2 ⟨_, shows', filed'⟩, rfl, rfl⟩

/-- Inserting a document gives it the key of its content. -/
theorem insert_spec (sound : index.Sound) (id : DocId) (doc : Json) :
    ∃ after, index.insert id doc = .ok after ∧ after.Sound ∧
      after.attributes = index.attributes ∧
      ∀ other, after.keyOf.get? other =
        if id = other then some (Key.ofDocument doc index.attributes)
        else index.keyOf.get? other := by
  obtain ⟨first, cleared, sound₁, attributes, keys⟩ : ∃ first,
      (if index.keyOf.contains id then index.remove id else .ok index) = .ok first ∧
        first.Sound ∧ first.attributes = index.attributes ∧ ∀ other,
        first.keyOf.get? other = if id = other then none else index.keyOf.get? other := by
    by_cases present : index.keyOf.contains id
    · rw [if_pos present]
      exact remove_spec sound id
    · rw [if_neg present]
      refine ⟨index, rfl, sound, rfl, fun other => ?_⟩
      by_cases same : id = other
      · rw [if_pos same, ← same]
        simpa [Table.contains] using present
      · rw [if_neg same]
  have fresh : first.keyOf.get? id = none := by rw [keys, if_pos rfl]
  obtain ⟨after, ran, sound₂, attributes₂, keys₂⟩ := file_spec sound₁ fresh doc
  refine ⟨after, ?_, sound₂, attributes₂.trans attributes, fun other => ?_⟩
  · rw [insert_eq, cleared, ok_bind, ran]
  · rw [keys₂, Table.get?_put, keys, attributes]
    by_cases same : id = other
    · rw [if_pos same, if_pos same]
    · rw [if_neg same, if_neg same, if_neg same]

end OrderedIndex

namespace HashedIndex

variable {index : HashedIndex}

theorem sound_create (attributes : List String) : (HashedIndex.create attributes).Sound :=
  ⟨List.nodup_nil, Filed.empty fun _ => rfl⟩

/-- A document that is removed leaves its bucket, and a bucket left empty goes. -/
theorem get?_remove {id : DocId} {key : Key} (found : index.keyOf.get? id = some key)
    {ids : List DocId} (present : index.buckets.get? key = some ids) (other : Key) :
    (index.remove id).buckets.get? other =
      if key = other then
        if (ids.filter (· ≠ id)).isEmpty then none else some (ids.filter (· ≠ id))
      else index.buckets.get? other := by
  by_cases none : (ids.filter (· ≠ id)).isEmpty
  · simp only [remove, found, present, none, if_true]
    exact index.buckets.get?_erase key other
  · simp only [remove, found, present, if_neg none]
    exact index.buckets.get?_put key other _

theorem remove_spec (sound : index.Sound) (id : DocId) :
    (index.remove id).Sound ∧ (index.remove id).attributes = index.attributes ∧
      ∀ other, (index.remove id).keyOf.get? other =
        if id = other then none else index.keyOf.get? other := by
  obtain ⟨nodup, filed⟩ := sound
  cases found : index.keyOf.get? id with
  | none =>
      simp only [remove, found]
      refine ⟨⟨nodup, filed⟩, trivial, fun other => ?_⟩
      by_cases same : id = other
      · rw [if_pos same, ← same, found]
      · rw [if_neg same]
  | some key =>
      obtain ⟨ids, present, -⟩ := filed.bucket_of_key found
      have filed' := filed.remove found present (get?_remove found present)
      have erased := fun other => index.keyOf.get?_erase id other
      by_cases none : (ids.filter (· ≠ id)).isEmpty
      · simp only [remove, found, present, none, if_true] at filed' ⊢
        refine ⟨⟨?_, filed'⟩, trivial, erased⟩
        rw [Table.keys_erase]
        exact nodup.filter _
      · simp only [remove, found, present, if_neg none] at filed' ⊢
        refine ⟨⟨?_, filed'⟩, trivial, erased⟩
        have there : key ∈ index.buckets.keys := by
          rw [← Table.contains_iff, Table.contains, present]
          rfl
        rw [Table.keys_put, if_pos there]
        exact nodup

theorem insert_spec (sound : index.Sound) (id : DocId) (doc : Json) :
    (index.insert id doc).Sound ∧ (index.insert id doc).attributes = index.attributes ∧
      ∀ other, (index.insert id doc).keyOf.get? other =
        if id = other then some (Key.ofDocument doc index.attributes)
        else index.keyOf.get? other := by
  obtain ⟨⟨nodup, filed⟩, attributes, keys⟩ := remove_spec sound id
  have fresh : (index.remove id).keyOf.get? id = none := by rw [keys, if_pos rfl]
  refine ⟨⟨?_, filed.insert fresh _ fun other => ?_⟩, attributes, fun other => ?_⟩
  · simp only [insert]
    rw [Table.keys_put]
    split
    · exact nodup
    · rename_i absent
      exact (List.nodup_append_comm).1 (List.nodup_cons.2 ⟨absent, nodup⟩)
  · simp only [insert]
    rw [Table.get?_put]
    rfl
  · simp only [insert]
    rw [Table.get?_put, keys, attributes]
    by_cases same : id = other
    · rw [if_pos same, if_pos same]
    · rw [if_neg same, if_neg same, if_neg same]

end HashedIndex

namespace Index

variable {index : Index}

def shape (index : Index) : IndexKind × List String :=
  (index.kind, index.attributes)

theorem attributes_of_shape {a b : Index} (same : a.shape = b.shape) :
    a.attributes = b.attributes :=
  congrArg Prod.snd same

theorem remove_spec (sound : index.Sound) (id : DocId) :
    ∃ after, index.remove id = .ok after ∧ after.Sound ∧ after.shape = index.shape ∧
      ∀ other, after.keyOf.get? other = if id = other then none else index.keyOf.get? other := by
  cases index with
  | ordered index =>
      obtain ⟨after, ran, sound', attributes, keys⟩ := OrderedIndex.remove_spec sound id
      exact ⟨.ordered after, by simp only [remove, ran, ok_bind]; rfl, sound',
        congrArg (Prod.mk _) attributes, keys⟩
  | hashed index =>
      obtain ⟨sound', attributes, keys⟩ := HashedIndex.remove_spec sound id
      exact ⟨_, rfl, sound', congrArg (Prod.mk _) attributes, keys⟩

theorem insert_spec (sound : index.Sound) (id : DocId) (doc : Json) :
    ∃ after, index.insert id doc = .ok after ∧ after.Sound ∧ after.shape = index.shape ∧
      ∀ other, after.keyOf.get? other =
        if id = other then some (Key.ofDocument doc index.attributes)
        else index.keyOf.get? other := by
  cases index with
  | ordered index =>
      obtain ⟨after, ran, sound', attributes, keys⟩ := OrderedIndex.insert_spec sound id doc
      exact ⟨.ordered after, by simp only [insert, ran, ok_bind]; rfl, sound',
        congrArg (Prod.mk _) attributes, keys⟩
  | hashed index =>
      obtain ⟨sound', attributes, keys⟩ := HashedIndex.insert_spec sound id doc
      exact ⟨_, rfl, sound', congrArg (Prod.mk _) attributes, keys⟩

theorem reindex_spec (sound : index.Sound) (id : DocId) (doc : Json) :
    ∃ after, index.reindex id doc = .ok after ∧ after.Sound ∧ after.shape = index.shape ∧
      ∀ other, after.keyOf.get? other =
        if id = other then some (Key.ofDocument doc index.attributes)
        else index.keyOf.get? other := by
  obtain ⟨first, ran, sound₁, shape₁, keys₁⟩ := remove_spec sound id
  obtain ⟨after, ran₂, sound₂, shape₂, keys₂⟩ := insert_spec sound₁ id doc
  refine ⟨after, by simp only [reindex, ran, ok_bind, ran₂], sound₂,
    shape₂.trans shape₁, fun other => ?_⟩
  rw [keys₂, keys₁, attributes_of_shape shape₁]
  by_cases same : id = other
  · rw [if_pos same, if_pos same]
  · rw [if_neg same, if_neg same, if_neg same]

theorem search_spec (sound : index.Sound) (key : Key) :
    ∃ ids after, index.search key = .ok (ids, after) ∧ after.Sound ∧ after.shape = index.shape ∧
      after.keyOf = index.keyOf ∧ ids.Nodup ∧ ∀ id, id ∈ ids ↔ index.keyOf.get? id = some key := by
  cases index with
  | ordered index =>
      obtain ⟨ids, recent, ran, sound', nodup, member⟩ := OrderedIndex.search_spec sound key
      exact ⟨ids, .ordered { index with tree := { index.tree with recent } },
        by simp only [search, ran, ok_bind]; rfl, sound', rfl, rfl, nodup, member⟩
  | hashed index =>
      exact ⟨_, _, rfl, sound, rfl, rfl, sound.filed.nodup_getD key,
        sound.filed.mem_getD key⟩

end Index

end Docstore
