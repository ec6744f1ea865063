import Docstore.Answer
import Docstore.Proofs.Store

set_option autoImplicit false

namespace Docstore

def KeyRange.finds (range : KeyRange Key) (key : Key) : Bool :=
  range.admits key && (range.min.all (·.sameKind key) && range.max.all (·.sameKind key))

theorem Filed.nodup_flatMap {bucket : Key → Option (List DocId)} {keyOf : Table DocId Key}
    (filed : Filed bucket keyOf) {entries : List (Key × List DocId)}
    (distinct : (entries.map Prod.fst).Nodup)
    (there : ∀ entry ∈ entries, bucket entry.1 = some entry.2) :
    (entries.flatMap Prod.snd).Nodup := by
  refine List.nodup_flatMap.2 ⟨fun entry member => ?_, ?_⟩
  · exact (filed.full entry.1 entry.2 (there entry member)).2
  · refine (List.pairwise_map.1 distinct).imp_of_mem fun {first second} inFirst inSecond apart => ?_
    intro id filedFirst filedSecond
    have key := (filed.member first.1 id).1 ⟨_, there first inFirst, filedFirst⟩
    have key' := (filed.member second.1 id).1 ⟨_, there second inSecond, filedSecond⟩
    rw [key] at key'
    exact apart (Option.some.inj key')

namespace OrderedIndex

open PageTree

variable {index : OrderedIndex} {span : Span Key (List DocId)}

def foundIn (entries : List (Key × List DocId)) : IndexLookup → List DocId
  | .exact key => (findEntry key entries).getD []
  | .range range => (entries.filter fun entry => range.finds entry.1).flatMap Prod.snd

theorem range_eq (tree : PageTree.Sound index.tree span) (range : KeyRange Key) :
    index.range range = .ok (foundIn span.entries (.range range)) := by
  simp only [OrderedIndex.range, rangeEntries_spec tree range, damaged_ok, ok_bind,
    List.filter_filter, foundIn]
  congr 3
  funext entry
  exact Bool.and_comm _ _

theorem found_eq (tree : PageTree.Sound index.tree span) (lookup : IndexLookup) :
    (Index.ordered index).found lookup = foundIn span.entries lookup := by
  cases lookup with
  | exact key =>
      obtain ⟨recent, ran, -⟩ := PageTree.search_spec tree key
      simp only [Index.found, Index.search, search, ran, damaged_ok, ok_bind, pure_eq_ok, foundIn]
  | range range => simp only [Index.found, Index.range, range_eq tree range]

theorem Shows.found_eq {entries : List (Key × List DocId)} (shows : index.Shows entries)
    (lookup : IndexLookup) : (Index.ordered index).found lookup = foundIn entries lookup := by
  obtain ⟨span, tree, rfl⟩ := shows
  exact OrderedIndex.found_eq tree lookup

theorem mem_foundIn_range (tree : PageTree.Sound index.tree span)
    (filed : Filed (fun key => findEntry key span.entries) index.keyOf) (range : KeyRange Key)
    (id : DocId) : id ∈ foundIn span.entries (.range range) ↔
      ∃ key, index.keyOf.get? id = some key ∧ range.finds key = true := by
  rw [foundIn, List.mem_flatMap]
  constructor
  · rintro ⟨⟨key, ids⟩, member, inside⟩
    obtain ⟨there, finds⟩ := List.mem_filter.1 member
    have bucket := (mem_iff_findEntry tree.sorted key ids).1 there
    exact ⟨key, (filed.member key id).1 ⟨ids, bucket, inside⟩, finds⟩
  · rintro ⟨key, found, finds⟩
    obtain ⟨ids, bucket, inside⟩ := filed.bucket_of_key found
    have there := (mem_iff_findEntry tree.sorted key ids).2 bucket
    exact ⟨(key, ids), List.mem_filter.2 ⟨there, finds⟩, inside⟩

theorem nodup_foundIn_range (tree : PageTree.Sound index.tree span)
    (filed : Filed (fun key => findEntry key span.entries) index.keyOf) (range : KeyRange Key) :
    (foundIn span.entries (.range range)).Nodup := by
  apply filed.nodup_flatMap
  · exact tree.sorted.nodup_keys.sublist (List.filter_sublist.map Prod.fst)
  · intro entry member
    exact (mem_iff_findEntry tree.sorted entry.1 entry.2).1 (List.mem_filter.1 member).1

end OrderedIndex

def IndexLookup.finds (key : Key) : IndexLookup → Bool
  | .exact wanted => key == wanted
  | .range bounds => bounds.finds key

namespace Index

variable {index : Index}

def meets (index : Index) (doc : Json) (lookup : IndexLookup) : Bool :=
  lookup.finds (Key.ofDocument doc index.attributes)

def Serves (index : Index) : IndexLookup → Prop
  | .exact _ => True
  | .range _ => index.kind = .tree

/-- A lookup that an index serves finds the documents of the keys that it should, each once. -/
theorem found_spec (sound : index.Sound) {lookup : IndexLookup} (serves : index.Serves lookup) :
    (index.found lookup).Nodup ∧ ∀ id, id ∈ index.found lookup ↔
      ∃ key, index.keyOf.get? id = some key ∧ lookup.finds key = true := by
  cases lookup with
  | exact key =>
      obtain ⟨ids, after, ran, -, -, -, nodup, member⟩ := search_spec sound key
      simp only [found, ran]
      apply And.intro nodup
      intro id
      simp [member, IndexLookup.finds]
  | range range =>
      cases index with
      | hashed index => cases serves
      | ordered index =>
          obtain ⟨span, tree, filed⟩ := sound
          rw [OrderedIndex.found_eq tree]
          exact ⟨OrderedIndex.nodup_foundIn_range tree filed range,
            OrderedIndex.mem_foundIn_range tree filed range⟩

theorem found_search (sound : index.Sound) {key : Key} {ids : List DocId} {after : Index}
    (ran : index.search key = .ok (ids, after)) (lookup : IndexLookup) :
    after.found lookup = index.found lookup := by
  cases index with
  | hashed index =>
      obtain ⟨-, rfl⟩ := Prod.mk.inj (Except.ok.inj ran)
      rfl
  | ordered index =>
      obtain ⟨span, tree, -⟩ := sound
      obtain ⟨recent, searched, tree'⟩ := PageTree.search_spec tree key
      have same : after = .ordered { index with tree := { index.tree with recent } } := by
        simp only [search, OrderedIndex.search, searched, OrderedIndex.damaged_ok, ok_bind,
          pure_eq_ok, Except.ok.injEq, Prod.mk.injEq] at ran
        exact ran.2.symm
      rw [same, OrderedIndex.found_eq tree, OrderedIndex.found_eq tree']

end Index

namespace Store

variable {store after : Store} {ref : IndexRef} {index : Index}

/-- A store whose documents are those of another, and in which every lookup finds the same. -/
structure SameContent (after before : Store) : Prop where
  documents : after.documents = before.documents
  order : after.order = before.order
  found : ∀ ref, after.found ref = before.found ref

theorem SameContent.refl (store : Store) : SameContent store store := ⟨rfl, rfl, fun _ => rfl⟩

theorem SameContent.trans {first second third : Store} (later : SameContent third second)
    (earlier : SameContent second first) : SameContent third first where
  documents := later.documents.trans earlier.documents
  order := later.order.trans earlier.order
  found ref := (later.found ref).trans (earlier.found ref)

theorem SameContent.entries {before : Store} (content : SameContent after before) :
    after.entries = before.entries := by
  simp only [Store.entries, Store.document?, content.order, content.documents]

/-- A lookup in an index that serves it finds the stored documents that it should. -/
theorem found_spec (sound : store.Sound none) (there : store.indices[ref.position]? = some index)
    (serves : index.Serves ref.lookup) :
    (store.found ref).Nodup ∧ ∀ id, id ∈ store.found ref ↔
      ∃ doc, store.document? id = some doc ∧ index.meets doc ref.lookup = true := by
  have files := sound.filed index (List.mem_of_getElem? there)
  obtain ⟨nodup, member⟩ := Index.found_spec files.sound serves
  rw [found, there]
  apply And.intro nodup
  intro id
  rw [member]
  constructor
  · rintro ⟨key, filed, finds⟩
    obtain ⟨doc, stored, rfl⟩ := (files.keyOf_iff id key).1 filed
    exact ⟨doc, stored, finds⟩
  · rintro ⟨doc, stored, finds⟩
    exact ⟨_, (files.keyOf_iff id _).2 ⟨doc, stored, rfl⟩, finds⟩

/-- A lookup gives what it finds, and changes nothing that any lookup finds. -/
theorem fetch_eq (sound : store.Sound none) (there : store.indices[ref.position]? = some index)
    (serves : index.Serves ref.lookup) :
    ∃ after, store.fetch ref = .ok (store.found ref, after) ∧ SameContent after store := by
  have files := sound.filed index (List.mem_of_getElem? there)
  cases lookup : ref.lookup with
  | exact key =>
      obtain ⟨ids, refreshed, ran, -⟩ := Index.search_spec files.sound key
      have gives : store.found ref = ids := by
        simp only [found, there, lookup, Index.found, ran]
      use { store with indices := store.indices.set ref.position refreshed }
      constructor
      · simp only [fetch, there, lookup, ran, ok_bind, pure_eq_ok, gives]
      · refine ⟨rfl, rfl, ?_⟩
        intro other
        have bound := (List.getElem?_eq_some_iff.1 there).1
        unfold found
        by_cases here : ref.position = other.position
        · have before : store.indices[other.position]? = some index := here ▸ there
          have behind : (store.indices.set ref.position refreshed)[other.position]? =
              some refreshed := by
            rw [← here]
            exact List.getElem?_set_self bound
          simp only [before, behind]
          exact Index.found_search files.sound ran other.lookup
        · have same : (store.indices.set ref.position refreshed)[other.position]? =
              store.indices[other.position]? := List.getElem?_set_ne here
          simp only [same]
  | range range =>
      cases index with
      | hashed index =>
          rw [lookup] at serves
          cases serves
      | ordered index =>
          obtain ⟨span, tree, -⟩ := files.sound
          have ran := OrderedIndex.range_eq tree range
          use store
          constructor
          · simp only [fetch, found, there, lookup, Index.found, Index.range, ran, ok_bind,
              pure_eq_ok]
          · exact .refl store

end Store

end Docstore
