import Docstore.Mutation
import Docstore.Store
import Docstore.Proofs.Index.Filing

set_option autoImplicit false

namespace Docstore

def Json.Identified (doc : Json) (id : DocId) : Prop :=
  ∃ (members : Members) (n : Number), doc = .object members ∧
    Members.get? Mutation.identity members = some (.number n) ∧ n.unsigned? = some id.toNat

namespace Table

variable {α β : Type} [DecidableEq α] {table : Table α β} {key : α}

theorem mem_keys_iff : key ∈ table.keys ↔ ∃ value, table.get? key = some value := by
  rw [← contains_iff, contains, Option.isSome_iff_exists]

/-- With distinct keys the entries are what can be found. -/
theorem mem_entries_iff (nodup : table.keys.Nodup) {value : β} :
    (key, value) ∈ table.entries ↔ table.get? key = some value := by
  obtain ⟨entries⟩ := table
  change (key, value) ∈ entries ↔ find key entries = some value
  rw [keys] at nodup
  induction entries with
  | nil => simp [find]
  | cons entry rest ih =>
      obtain ⟨k, v⟩ := entry
      obtain ⟨fresh, nodup'⟩ := List.nodup_cons.1 nodup
      rw [find, List.mem_cons, ih nodup']
      by_cases here : k = key
      · subst here
        have behind : find k rest ≠ some value := fun found =>
          fresh (List.mem_map.2 ⟨_, (ih nodup').2 found, rfl⟩)
        simp [behind, eq_comm]
      · simp [here, Ne.symm here]

theorem put_of_not_mem {entries : List (α × β)} (absent : key ∉ keys ⟨entries⟩) (value : β) :
    put ⟨entries⟩ key value = ⟨entries ++ [(key, value)]⟩ := by
  refine congrArg Table.mk (?_ : replaceOrAdd key value entries = entries ++ [(key, value)])
  induction entries with
  | nil => rfl
  | cons entry rest ih =>
      obtain ⟨k, v⟩ := entry
      rw [keys, List.map_cons, List.mem_cons, not_or] at absent
      rw [replaceOrAdd, if_neg (Ne.symm absent.1), ih absent.2, List.cons_append]

end Table

namespace Index

/-- The index has a key for each of the documents and for no other, and the key is that of the
content of the document unless the document is dirty. -/
structure Files (index : Index) (documents : Table DocId Json) (dirty : Option DocId) : Prop where
  sound : index.Sound
  stored : ∀ id, index.keyOf.contains id = documents.contains id
  current : ∀ id doc, documents.get? id = some doc → dirty ≠ some id →
    index.keyOf.get? id = some (Key.ofDocument doc index.attributes)

namespace Files

variable {index : Index} {documents : Table DocId Json} {dirty : Option DocId} {id : DocId}
  {doc : Json}

theorem weaken (files : index.Files documents none) : index.Files documents dirty where
  sound := files.sound
  stored := files.stored
  current id doc there _ := files.current id doc there (Option.some_ne_none id).symm

theorem settle (files : index.Files documents (some id)) (absent : documents.get? id = none) :
    index.Files documents none where
  sound := files.sound
  stored := files.stored
  current other doc there _ := files.current other doc there fun same => by
    cases same
    rw [absent] at there
    cases there

/-- With nothing dirty, the documents of a key are those whose content has it. -/
theorem keyOf_iff (files : index.Files documents none) (id : DocId) (key : Key) :
    index.keyOf.get? id = some key ↔
      ∃ doc, documents.get? id = some doc ∧ Key.ofDocument doc index.attributes = key := by
  constructor
  · intro found
    have there : id ∈ documents.keys := by
      rw [← Table.contains_iff, ← files.stored, Table.contains, found]
      rfl
    obtain ⟨doc, stored⟩ := Table.mem_keys_iff.1 there
    have current := files.current id doc stored (Option.some_ne_none id).symm
    rw [found] at current
    exact ⟨doc, stored, (Option.some.inj current).symm⟩
  · rintro ⟨doc, stored, same⟩
    rw [files.current id doc stored (Option.some_ne_none id).symm, same]

theorem write (files : index.Files documents (some id)) (there : documents.contains id)
    (doc : Json) : index.Files (documents.put id doc) (some id) where
  sound := files.sound
  stored other := by
    rw [files.stored, Table.contains, Table.contains, Table.get?_put]
    by_cases same : id = other
    · subst same
      rw [if_pos rfl]
      exact there
    · rw [if_neg same]
  current other doc' found clean := by
    rw [Table.get?_put, if_neg fun same => clean (congrArg some same)] at found
    exact files.current other doc' found clean

/-- Where one document changes, or comes, or goes, the index files the others still if it has become
sound again and has the key of the one as it is now. -/
theorem rekeyed {after : Index} {documents' : Table DocId Json}
    (files : index.Files documents (some id)) (present : Option Json) (sound : after.Sound)
    (shape : after.shape = index.shape)
    (keys : ∀ other, after.keyOf.get? other =
      if id = other then present.map (Key.ofDocument · index.attributes)
      else index.keyOf.get? other)
    (changed : ∀ other, documents'.get? other =
      if id = other then present else documents.get? other) : after.Files documents' none where
  sound := sound
  stored other := by
    rw [Table.contains, keys, Table.contains, changed]
    by_cases same : id = other
    · rw [if_pos same, if_pos same, Option.isSome_map]
    · rw [if_neg same, if_neg same]
      exact files.stored other
  current other doc' found _ := by
    rw [changed] at found
    rw [keys, attributes_of_shape shape]
    by_cases same : id = other
    · rw [if_pos same] at found ⊢
      rw [found, Option.map_some]
    · rw [if_neg same] at found ⊢
      exact files.current other doc' found fun dirty => same (Option.some.inj dirty)

/-- Filing the dirty document anew leaves nothing dirty. -/
theorem reindex (files : index.Files documents (some id)) (there : documents.get? id = some doc) :
    ∃ after, index.reindex id doc = .ok after ∧ after.Files documents none ∧
      after.shape = index.shape := by
  obtain ⟨after, ran, sound, shape, keys⟩ := reindex_spec files.sound id doc
  have unchanged : ∀ other,
      documents.get? other = if id = other then some doc else documents.get? other := by
    intro other
    by_cases same : id = other
    · rw [if_pos same, ← same, there]
    · rw [if_neg same]
  exact ⟨after, ran, files.rekeyed (some doc) sound shape keys unchanged, shape⟩

theorem insert (files : index.Files documents none) (id : DocId) (doc : Json) :
    ∃ after, index.insert id doc = .ok after ∧ after.Files (documents.put id doc) none ∧
      after.shape = index.shape := by
  obtain ⟨after, ran, sound, shape, keys⟩ := insert_spec files.sound id doc
  have filed : after.Files (documents.put id doc) none :=
    files.weaken.rekeyed (some doc) sound shape keys fun other => documents.get?_put id other doc
  exact ⟨after, ran, filed, shape⟩

theorem remove (files : index.Files documents none) (id : DocId) :
    ∃ after, index.remove id = .ok after ∧ after.Files (documents.erase id) none ∧
      after.shape = index.shape := by
  obtain ⟨after, ran, sound, shape, keys⟩ := remove_spec files.sound id
  have filed : after.Files (documents.erase id) none :=
    files.weaken.rekeyed none sound shape keys fun other => documents.get?_erase id other
  exact ⟨after, ran, filed, shape⟩

theorem search (files : index.Files documents dirty) (key : Key) :
    ∃ ids after, index.search key = .ok (ids, after) ∧ after.Files documents dirty ∧
      after.shape = index.shape ∧ ids.Nodup ∧
      ∀ id, id ∈ ids ↔ index.keyOf.get? id = some key := by
  obtain ⟨ids, after, ran, sound, shape, keys, nodup, member⟩ := search_spec files.sound key
  refine ⟨ids, after, ran, ⟨sound, fun id => ?_, fun id doc there clean => ?_⟩, shape, nodup,
    member⟩
  · rw [keys, files.stored]
  · rw [keys, attributes_of_shape shape, files.current id doc there clean]

theorem congr {index : Index} {documents documents' : Table DocId Json} {dirty : Option DocId}
    (files : index.Files documents dirty) (same : ∀ id, documents'.get? id = documents.get? id) :
    index.Files documents' dirty where
  sound := files.sound
  stored id := by rw [files.stored, Table.contains, Table.contains, same]
  current id doc there clean := files.current id doc (same id ▸ there) clean

/-- A new document that was filed can be taken out again, and nothing of it is left. -/
theorem undone (files : index.Files documents none) (absent : documents.get? id = none)
    {after : Index} (inserted : index.insert id doc = .ok after) :
    (after.without id).Files documents none ∧ (after.without id).shape = index.shape := by
  obtain ⟨filed, inserted', files', shape⟩ := files.insert id doc
  obtain rfl : filed = after := Except.ok.inj (inserted'.symm.trans inserted)
  obtain ⟨left, removed, files'', shape'⟩ := files'.remove id
  have without : filed.without id = left := by
    rw [Index.without, removed]
    rfl
  rw [without]
  refine ⟨files''.congr fun other => ?_, shape'.trans shape⟩
  rw [Table.get?_erase, Table.get?_put]
  by_cases same : id = other
  · rw [if_pos same, ← same]
    exact absent
  · rw [if_neg same, if_neg same]

end Files

theorem each_spec {act : Index → Except Error Index} {holds : Index → Prop} {indices : List Index}
    (one : ∀ index ∈ indices, ∃ after, act index = .ok after ∧ holds after ∧
      after.shape = index.shape) :
    ∃ afters, each act indices = (.ok (), afters) ∧ (∀ after ∈ afters, holds after) ∧
      afters.map shape = indices.map shape := by
  induction indices with
  | nil => exact ⟨[], rfl, (fun _ there => by cases there), rfl⟩
  | cons index rest ih =>
      obtain ⟨after, ran, held, same⟩ := one index List.mem_cons_self
      obtain ⟨afters, ran', held', same'⟩ :=
        ih fun other there => one other (List.mem_cons_of_mem _ there)
      refine ⟨after :: afters, ?_, List.forall_mem_cons.2 ⟨held, held'⟩, ?_⟩
      · simp only [each, ran, ran', Except.mapError]
      · rw [List.map_cons, List.map_cons, same, same']

/-- Where an action fails on no index, each has become what it makes of it. -/
theorem forall₂_of_each {act : Index → Except Error Index} {indices afters : List Index}
    (ran : each act indices = (.ok (), afters)) :
    List.Forall₂ (fun index after => act index = .ok after) indices afters := by
  induction indices generalizing afters with
  | nil =>
      obtain rfl : [] = afters := congrArg Prod.snd ran
      exact .nil
  | cons index rest ih =>
      rw [each] at ran
      cases acted : act index with
      | error error =>
          rw [acted] at ran
          cases congrArg Prod.fst ran
      | ok after =>
          rw [acted] at ran
          obtain ⟨outcome, rfl⟩ := Prod.mk.inj ran
          refine .cons acted (ih (Prod.ext ?_ rfl))
          cases others : (each act rest).1 with
          | ok _ => rfl
          | error failure =>
              rw [others] at outcome
              cases outcome

/-- Where an action fails on an index and is undone on those before it, every index is like what it
was, if undoing makes it so. -/
theorem forall₂_of_undone {act : Index → Except Error Index} {undo : Index → Index}
    {like : Index → Index → Prop} (refl : ∀ index, like index index)
    (undone : ∀ index after, act index = .ok after → like index (undo after))
    {indices afters : List Index} {failed : Nat} {error : Error}
    (ran : each act indices = (.error (failed, error), afters)) :
    List.Forall₂ like indices ((afters.take failed).map undo ++ afters.drop failed) := by
  induction indices generalizing failed afters with
  | nil => cases congrArg Prod.fst ran
  | cons index rest ih =>
      rw [each] at ran
      cases acted : act index with
      | error fault =>
          -- none before this one has changed, and those behind it were not reached
          rw [acted] at ran
          cases ran
          exact List.forall₂_same.2 fun other _ => refl other
      | ok after =>
          rw [acted] at ran
          obtain ⟨outcome, rfl⟩ := Prod.mk.inj ran
          cases others : (each act rest).1 with
          | ok done =>
              rw [others] at outcome
              cases outcome
          | error failure =>
              rw [others] at outcome
              cases outcome
              exact .cons (undone index after acted) (ih (Prod.ext others rfl))

end Index

namespace Store

/-- The order lists the stored documents once each, they state their identities, and every index
files them. -/
structure Sound (store : Store) (dirty : Option DocId) : Prop where
  nodup : store.order.Nodup
  listed : ∀ id, id ∈ store.order ↔ ∃ doc, store.document? id = some doc
  identified : ∀ id doc, store.document? id = some doc → doc.Identified id
  filed : ∀ index ∈ store.indices, index.Files store.documents dirty

/-- Two stores of one name with the same order and with indices of the same shapes. -/
structure SameOutline (after before : Store) : Prop where
  name : after.name = before.name
  order : after.order = before.order
  shapes : after.indices.map Index.shape = before.indices.map Index.shape

namespace SameOutline

variable {first second third : Store}

theorem refl (store : Store) : SameOutline store store := ⟨rfl, rfl, rfl⟩

theorem trans (later : SameOutline third second) (earlier : SameOutline second first) :
    SameOutline third first :=
  ⟨later.name.trans earlier.name, later.order.trans earlier.order,
    later.shapes.trans earlier.shapes⟩

end SameOutline

namespace Sound

variable {store : Store} {dirty : Option DocId} {id : DocId} {doc : Json}

theorem empty (name : String) : (Store.empty name).Sound none where
  nodup := List.nodup_nil
  listed id := iff_of_false List.not_mem_nil fun ⟨_, there⟩ => by cases there
  identified id doc there := by cases there
  filed index there := by cases there

theorem weaken (sound : store.Sound none) : store.Sound dirty where
  nodup := sound.nodup
  listed := sound.listed
  identified := sound.identified
  filed index there := (sound.filed index there).weaken

theorem settle (sound : store.Sound (some id)) (absent : store.document? id = none) :
    store.Sound none where
  nodup := sound.nodup
  listed := sound.listed
  identified := sound.identified
  filed index there := (sound.filed index there).settle absent

theorem identified_put (sound : store.Sound dirty) (identified : doc.Identified id) (other : DocId)
    (doc' : Json) (found : (store.documents.put id doc).get? other = some doc') :
    doc'.Identified other := by
  rw [Table.get?_put] at found
  by_cases same : id = other
  · rw [if_pos same] at found
    rw [← same, ← Option.some.inj found]
    exact identified
  · rw [if_neg same] at found
    exact sound.identified other doc' found

theorem write (sound : store.Sound (some id)) {old : Json} (there : store.document? id = some old)
    (identified : doc.Identified id) :
    (store.write id doc).Sound (some id) ∧ SameOutline (store.write id doc) store := by
  refine ⟨⟨sound.nodup, fun other => ?_, sound.identified_put identified,
    fun index member => ?_⟩, ⟨rfl, rfl, rfl⟩⟩
  · rw [document?_write, show (store.write id doc).order = store.order from rfl, sound.listed]
    by_cases same : id = other
    · rw [if_pos same, ← same]
      exact iff_of_true ⟨old, there⟩ ⟨doc, rfl⟩
    · rw [if_neg same]
  · refine (sound.filed index member).write ?_ doc
    rw [Table.contains, show store.documents.get? id = some old from there]
    rfl

/-- Storing a new document never fails. -/
theorem insert (sound : store.Sound none) (absent : id ∉ store.order)
    (identified : doc.Identified id) :
    ∃ after, store.insert id doc = (.ok (), after) ∧ after.Sound none ∧
      after.documents = store.documents.put id doc ∧ after.order = store.order ++ [id] ∧
      after.name = store.name ∧
      after.indices.map Index.shape = store.indices.map Index.shape := by
  obtain ⟨indices, ran, filed, shapes⟩ :=
    Index.each_spec fun index member => (sound.filed index member).insert id doc
  refine ⟨{ store with
      documents := store.documents.put id doc, order := store.order ++ [id], indices },
    by simp only [Store.insert, ran],
    ⟨?_, fun other => ?_, sound.identified_put identified, filed⟩,
    rfl, rfl, rfl, shapes⟩
  · exact List.nodup_append_comm.1 (List.nodup_cons.2 ⟨absent, sound.nodup⟩)
  · change other ∈ store.order ++ [id] ↔ ∃ doc', (store.documents.put id doc).get? other = some doc'
    rw [Table.get?_put, List.mem_append, List.mem_singleton, sound.listed, document?]
    by_cases same : id = other
    · rw [if_pos same]
      exact iff_of_true (.inr same.symm) ⟨doc, rfl⟩
    · rw [if_neg same, or_iff_left (Ne.symm same)]

/-- Removing a stored document never fails. -/
theorem remove (sound : store.Sound none) (there : store.document? id = some doc) :
    ∃ after, store.remove id = (.ok doc, after) ∧ after.Sound none ∧
      after.documents = store.documents.erase id ∧
      after.order = store.order.filter (· ≠ id) ∧ after.name = store.name ∧
      after.indices.map Index.shape = store.indices.map Index.shape := by
  obtain ⟨indices, ran, filed, shapes⟩ :=
    Index.each_spec fun index member => (sound.filed index member).remove id
  refine ⟨{ store with
      documents := store.documents.erase id, order := store.order.filter (· ≠ id), indices },
    by simp only [Store.remove, there, ran],
    ⟨sound.nodup.filter _, fun other => ?_, fun other doc' found => ?_, filed⟩,
    rfl, rfl, rfl, shapes⟩
  · change other ∈ store.order.filter (· ≠ id) ↔
      ∃ doc', (store.documents.erase id).get? other = some doc'
    rw [Table.get?_erase, List.mem_filter, sound.listed, document?, decide_eq_true_iff]
    by_cases same : id = other
    · rw [if_pos same]
      exact iff_of_false (fun both => both.2 same.symm) fun ⟨_, found⟩ => by cases found
    · rw [if_neg same, and_iff_left (Ne.symm same)]
  · change (store.documents.erase id).get? other = some doc' at found
    rw [Table.get?_erase] at found
    by_cases same : id = other
    · rw [if_pos same] at found
      cases found
    · rw [if_neg same] at found
      exact sound.identified other doc' found

theorem remove_absent (absent : store.document? id = none) :
    store.remove id = (.error (.documentNotFound id), store) := by
  simp only [Store.remove, absent]

theorem reindex (sound : store.Sound (some id)) (there : store.document? id = some doc) :
    ∃ after, store.reindex id = (.ok (), after) ∧ after.Sound none ∧ SameOutline after store ∧
      after.documents = store.documents := by
  obtain ⟨indices, ran, filed, shapes⟩ :=
    Index.each_spec fun index member => (sound.filed index member).reindex there
  refine ⟨{ store with indices }, ?_, ⟨sound.nodup, sound.listed, sound.identified, filed⟩,
    ⟨rfl, rfl, shapes⟩, rfl⟩
  simp only [Store.reindex, there, ran, Except.mapError]

/-- Whether it fails or not, an attempt to file the dirty document anew leaves nothing dirty. -/
theorem reindexed (sound : store.Sound (some id)) :
    (store.reindex id).2.Sound none ∧ SameOutline (store.reindex id).2 store := by
  cases there : store.document? id with
  | none =>
      simp only [Store.reindex, there]
      exact ⟨sound.settle there, .refl store⟩
  | some doc =>
      obtain ⟨after, ran, sound', outline, -⟩ := sound.reindex there
      rw [ran]
      exact ⟨sound', outline⟩

theorem contains_iff (sound : store.Sound dirty) :
    store.documents.contains id = true ↔ id ∈ store.order := by
  rw [sound.listed, Table.contains, Option.isSome_iff_exists]
  rfl

theorem keys_entries (sound : store.Sound dirty) : store.entries.map Prod.fst = store.order := by
  have each : ∀ id ∈ store.order, ∃ doc, store.document? id = some doc :=
    fun id there => (sound.listed id).1 there
  unfold entries
  generalize store.order = order at each
  induction order with
  | nil => rfl
  | cons id rest ih =>
      obtain ⟨⟨doc, there⟩, others⟩ := List.forall_mem_cons.1 each
      simp only [List.filterMap_cons, there, Option.map_some, List.map_cons, ih others]

theorem mem_entries_iff (sound : store.Sound dirty) :
    (id, doc) ∈ store.entries ↔ store.document? id = some doc := by
  have listed := (sound.listed id).2
  simp only [entries, List.mem_filterMap, Option.map_eq_some_iff, Prod.mk.injEq]
  constructor
  · rintro ⟨_, -, _, there, rfl, rfl⟩
    exact there
  · exact fun there => ⟨id, listed ⟨doc, there⟩, doc, there, rfl, rfl⟩

theorem get?_entries (sound : store.Sound dirty) (id : DocId) :
    Table.get? ⟨store.entries⟩ id = store.document? id := by
  have nodup : (Table.keys ⟨store.entries⟩).Nodup := by
    rw [Table.keys, sound.keys_entries]
    exact sound.nodup
  apply Option.ext
  intro doc
  rw [← Table.mem_entries_iff nodup, sound.mem_entries_iff]

theorem fetch (sound : store.Sound dirty) {ref : IndexRef} {ids : List DocId} {after : Store}
    (ran : store.fetch ref = .ok (ids, after)) :
    after.Sound dirty ∧ SameOutline after store ∧ after.documents = store.documents := by
  unfold Store.fetch at ran
  cases found : store.indices[ref.position]? with
  | none => simp [found] at ran
  | some index =>
      have member := List.mem_of_getElem? found
      cases lookup : ref.lookup with
      | exact key =>
          obtain ⟨ids', index', ran', files, shape, -⟩ := (sound.filed index member).search key
          simp only [found, lookup, ran', ok_bind, pure_eq_ok, Except.ok.injEq,
            Prod.mk.injEq] at ran
          obtain ⟨-, rfl⟩ := ran
          refine ⟨⟨sound.nodup, sound.listed, sound.identified, fun other there => ?_⟩,
            ⟨rfl, rfl, ?_⟩, rfl⟩
          · rcases List.mem_or_eq_of_mem_set there with there | rfl
            · exact sound.filed other there
            · exact files
          · obtain ⟨bound, rfl⟩ := List.getElem?_eq_some_iff.1 found
            rw [List.map_set, shape, ← List.map_set, List.set_getElem_self]
      | range range =>
          simp only [found, lookup] at ran
          obtain ⟨ids', -, same⟩ := bind_eq_ok.1 ran
          obtain ⟨-, rfl⟩ : ids' = ids ∧ store = after := by simpa using same
          exact ⟨sound, .refl store, rfl⟩

end Sound

/-- A new document that an index refuses is not stored. Indices that file the stored documents go on
to file these and no other, also those that had taken the new one before it was refused. -/
theorem insert_refused {store after : Store} {id : DocId} {doc : Json} {error : Error}
    (absent : store.document? id = none) (ran : store.insert id doc = (.error error, after)) :
    after.documents = store.documents ∧ after.order = store.order ∧
      List.Forall₂ (fun index left => index.Files store.documents none →
        left.Files store.documents none ∧ left.shape = index.shape)
        store.indices after.indices := by
  rw [insert] at ran
  cases acted : Index.each (·.insert id doc) store.indices with
  | mk outcome indices =>
      rw [acted] at ran
      cases outcome with
      | ok done => cases congrArg Prod.fst ran
      | error failure =>
          obtain ⟨-, rfl⟩ := Prod.mk.inj ran
          exact ⟨rfl, rfl, Index.forall₂_of_undone (fun _ files => ⟨files, rfl⟩)
            (fun _ _ inserted files => files.undone absent inserted) acted⟩

end Store

end Docstore
