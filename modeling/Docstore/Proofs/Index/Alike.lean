import Docstore.Proofs.Index.Lookups

set_option autoImplicit false

namespace Docstore

open PageTree

theorem Filed.bucket_nothing {bucket : Key → Option (List DocId)} (filed : Filed bucket Table.empty)
    (key : Key) : bucket key = none := by
  cases found : bucket key with
  | none => rfl
  | some ids =>
      obtain ⟨id, there⟩ := List.exists_mem_of_ne_nil ids (filed.full key ids found).1
      cases (filed.member key id).1 ⟨ids, found, there⟩

theorem HashedIndex.buckets_nothing {index : HashedIndex} (sound : index.Sound)
    (keys : index.keyOf = Table.empty) : index.buckets = Table.empty := by
  have filed := sound.filed
  rw [keys] at filed
  have nothing : ∀ entry, entry ∉ index.buckets.entries := by
    intro entry there
    have found := (Table.mem_entries_iff sound.nodup).1 there
    rw [filed.bucket_nothing] at found
    cases found
  exact congrArg Table.mk (List.eq_nil_iff_forall_not_mem.2 nothing)

namespace OrderedIndex

/-- Ordered indices over the same attributes with the same buckets in the same order. -/
structure Alike (first second : OrderedIndex) : Prop where
  attributes : first.attributes = second.attributes
  keyOf : first.keyOf = second.keyOf
  buckets : ∃ entries, first.Shows entries ∧ second.Shows entries

namespace Alike

variable {first second : OrderedIndex}

theorem search (alike : Alike first second) (key : Key) :
    InStep (fun a b => a.1 = b.1 ∧ Alike a.2 b.2) (first.search key) (second.search key) := by
  obtain ⟨entries, shows, shows'⟩ := alike.buckets
  obtain ⟨recent, ran, after⟩ := shows.search key
  obtain ⟨recent', ran', after'⟩ := shows'.search key
  rw [ran, ran']
  exact .ok ⟨rfl, alike.attributes, alike.keyOf, entries, after, after'⟩

theorem range (alike : Alike first second) (range : KeyRange Key) :
    first.range range = second.range range := by
  obtain ⟨entries, ⟨span, tree, rfl⟩, ⟨span', tree', same⟩⟩ := alike.buckets
  rw [range_eq tree, range_eq tree', same]

theorem remove (alike : Alike first second) (id : DocId) :
    InStep Alike (first.remove id) (second.remove id) := by
  cases known : first.keyOf.get? id with
  | none =>
      have known' : second.keyOf.get? id = none := alike.keyOf ▸ known
      simp only [OrderedIndex.remove, known, known']
      exact .ok alike
  | some key =>
      have known' : second.keyOf.get? id = some key := alike.keyOf ▸ known
      obtain ⟨entries, shows, shows'⟩ := alike.buckets
      obtain ⟨tree, ran, after⟩ := shows.takeOut known
      obtain ⟨tree', ran', after'⟩ := shows'.takeOut known'
      rw [ran, ran']
      exact .ok ⟨alike.attributes, congrArg (Table.erase · id) alike.keyOf, _, after, after'⟩

theorem file (alike : Alike first second) (id : DocId) (doc : Json) :
    InStep Alike (first.file id doc) (second.file id doc) := by
  obtain ⟨entries, shows, shows'⟩ := alike.buckets
  obtain ⟨tree, ran, after⟩ := shows.file id doc
  obtain ⟨tree', ran', after'⟩ := shows'.file id doc
  have key : Key.ofDocument doc first.attributes = Key.ofDocument doc second.attributes := by
    rw [alike.attributes]
  rw [ran, ran']
  refine .ok ⟨alike.attributes, ?_, _, after, ?_⟩
  · rw [key, alike.keyOf]
  · rw [key]
    exact after'

theorem insert (alike : Alike first second) (id : DocId) (doc : Json) :
    InStep Alike (first.insert id doc) (second.insert id doc) := by
  have cleared : InStep Alike
      (if first.keyOf.contains id then first.remove id else .ok first)
      (if second.keyOf.contains id then second.remove id else .ok second) := by
    rw [← alike.keyOf]
    by_cases known : first.keyOf.contains id = true
    · rw [if_pos known, if_pos known]
      exact alike.remove id
    · rw [if_neg known, if_neg known]
      exact .ok alike
  rw [insert_eq, insert_eq]
  exact cleared.bind fun _ _ same => same.file id doc

end Alike

theorem shows_nothing {index : OrderedIndex} (sound : index.Sound)
    (keys : index.keyOf = Table.empty) : index.Shows [] := by
  obtain ⟨entries, shows, filed⟩ := sound_iff.1 sound
  rw [keys] at filed
  have nothing : ∀ entry, entry ∉ entries := by
    intro entry there
    have found := (mem_iff_findEntry shows.sorted entry.1 entry.2).1 there
    rw [show findEntry entry.1 entries = none from filed.bucket_nothing entry.1] at found
    cases found
  rwa [List.eq_nil_iff_forall_not_mem.2 nothing] at shows

end OrderedIndex

namespace Index

/-- Indices that hold the same, whatever their trees look like. -/
inductive Alike : Index → Index → Prop
  | ordered {first second : OrderedIndex} (alike : first.Alike second) :
      Alike (.ordered first) (.ordered second)
  | hashed (index : HashedIndex) : Alike (.hashed index) (.hashed index)

namespace Alike

variable {first second : Index}

theorem shape (alike : Alike first second) : first.shape = second.shape := by
  cases alike with
  | ordered alike => exact congrArg (Prod.mk _) alike.attributes
  | hashed index => rfl

theorem search (alike : Alike first second) (key : Key) :
    InStep (fun a b => a.1 = b.1 ∧ Alike a.2 b.2) (first.search key) (second.search key) := by
  cases alike with
  | ordered alike =>
      apply (alike.search key).bind
      intro found found' same
      exact .ok ⟨same.1, .ordered same.2⟩
  | hashed index => exact .ok ⟨rfl, .hashed index⟩

theorem range (alike : Alike first second) (range : KeyRange Key) :
    first.range range = second.range range := by
  cases alike with
  | ordered alike => exact alike.range range
  | hashed index => rfl

theorem remove (alike : Alike first second) (id : DocId) :
    InStep Alike (first.remove id) (second.remove id) := by
  cases alike with
  | ordered alike =>
      apply (alike.remove id).bind
      intro after after' same
      exact .ok (.ordered same)
  | hashed index => exact .ok (.hashed _)

theorem insert (alike : Alike first second) (id : DocId) (doc : Json) :
    InStep Alike (first.insert id doc) (second.insert id doc) := by
  cases alike with
  | ordered alike =>
      apply (alike.insert id doc).bind
      intro after after' same
      exact .ok (.ordered same)
  | hashed index => exact .ok (.hashed _)

theorem reindex (alike : Alike first second) (id : DocId) (doc : Json) :
    InStep Alike (first.reindex id doc) (second.reindex id doc) :=
  (alike.remove id).bind fun _ _ same => same.insert id doc

/-- Indices of one shape that hold nothing are alike. -/
theorem of_nothing (sound : first.Sound) (sound' : second.Sound)
    (shape : first.shape = second.shape)
    (keys : first.keyOf = Table.empty) (keys' : second.keyOf = Table.empty) :
    Alike first second := by
  cases first with
  | ordered first =>
      cases second with
      | ordered second =>
          have shows := OrderedIndex.shows_nothing sound keys
          have shows' := OrderedIndex.shows_nothing sound' keys'
          exact .ordered ⟨congrArg Prod.snd shape, keys.trans keys'.symm, [], shows, shows'⟩
      | hashed second => cases congrArg Prod.fst shape
  | hashed first =>
      cases second with
      | ordered second => cases congrArg Prod.fst shape
      | hashed second =>
          have same : first = second := by
            rw [HashedIndex.mk.injEq, HashedIndex.buckets_nothing sound keys,
              HashedIndex.buckets_nothing sound' keys']
            exact ⟨congrArg Prod.snd shape, rfl, keys.trans keys'.symm⟩
          rw [same]
          exact .hashed second

end Alike

end Index

end Docstore
