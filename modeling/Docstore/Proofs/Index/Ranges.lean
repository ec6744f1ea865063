import Docstore.Proofs.Index.Histories
import Docstore.Proofs.PageTree.Ranges

set_option autoImplicit false

namespace Docstore

open PageTree

/-- A key between the bounds of a range that is of the kind of each of them. -/
def KeyRange.Selects (range : KeyRange Key) (key : Key) : Prop :=
  range.Contains key ∧ (∀ min ∈ range.min, min.sameKind key = true) ∧
    ∀ max ∈ range.max, max.sameKind key = true

theorem KeyRange.finds_iff {range : KeyRange Key} {key : Key} :
    range.finds key = true ↔ range.Selects key := by
  rw [finds, Bool.and_eq_true, Bool.and_eq_true, admits_iff, Option.all_eq_true, Option.all_eq_true]
  exact Iff.rfl

theorem KeyRange.selects_of_unbounded {range : KeyRange Key} (min : range.min = none)
    (max : range.max = none) (key : Key) : range.Selects key := by
  simp [Selects, Contains, min, max]

theorem OrderedIndex.create_eq_ok {attributes : List String} {order threshold capacity : Nat}
    {index : OrderedIndex} (created : create attributes order threshold capacity = .ok index) :
    PageTree.Limits order threshold ∧ index = fresh attributes order threshold capacity := by
  obtain ⟨tree, made, same⟩ := bind_eq_ok.1 created
  obtain ⟨limits, rfl⟩ := PageTree.create_eq_ok made
  exact ⟨limits, (Except.ok.inj same).symm⟩

namespace Index

def Call.Files (id : DocId) (call : Call) : Prop :=
  ∃ doc, call.filed? = some (id, doc)

/-- One document was last filed before another: a call files the other, and from this call on none
files the one. -/
def FiledBefore (calls : List Call) (id other : DocId) : Prop :=
  ∃ earlier call later, calls = earlier ++ call :: later ∧ call.Files other ∧
    ∀ call' ∈ call :: later, ¬ call'.Files id

theorem FiledBefore.cons {calls : List Call} {id other : DocId}
    (before : FiledBefore calls id other)
    (first : Call) : FiledBefore (first :: calls) id other := by
  obtain ⟨earlier, call, later, rfl, files, since⟩ := before
  exact ⟨first :: earlier, call, later, rfl, files, since⟩

/-- The standing documents are in the order in which they were last filed. -/
theorem pairwise_standing (calls : List Call) :
    (standing calls).Pairwise fun entry other => FiledBefore calls entry.1 other.1 := by
  induction calls with
  | nil => exact .nil
  | cons call later ih =>
      rw [standing, List.pairwise_append]
      refine ⟨?_, ih.imp fun before => before.cons call, fun entry arrived other stands => ?_⟩
      · cases call.filed?.filter fun entry => !later.any (·.concerns entry.1) with
        | none => exact .nil
        | some entry => exact List.pairwise_singleton _ entry
      · -- What the first call files stands only if no later call files it again.
        rw [Option.mem_toList, Option.filter_eq_some_iff, Bool.not_eq_true'] at arrived
        obtain ⟨earlier, call', later', rfl, files, -⟩ := mem_standing.1 stands
        refine ⟨call :: earlier, call', later', rfl, ⟨other.2, files⟩, fun again there => ?_⟩
        rintro ⟨doc, filed⟩
        have concerned := List.any_eq_false.1 arrived.2 again (List.mem_append_right _ there)
        exact concerned (by rw [concerns_of_filed filed, decide_eq_true rfl])

/-- One document comes before another in a range: its key is below, or they have one key and it was
last filed before. -/
def Precedes (attributes : List String) (calls : List Call) (entry other : DocId × Json) : Prop :=
  compare (Key.ofDocument entry.2 attributes) (Key.ofDocument other.2 attributes) = .lt ∨
    Key.ofDocument entry.2 attributes = Key.ofDocument other.2 attributes ∧
      FiledBefore calls entry.1 other.1

variable {index : OrderedIndex} {attributes : List String} {calls : List Call}

def standingOf (attributes : List String) (key : Key) (calls : List Call) : List (DocId × Json) :=
  (standing calls).filter fun entry => Key.ofDocument entry.2 attributes = key

theorem mem_standingOf {key : Key} {entry : DocId × Json} :
    entry ∈ standingOf attributes key calls ↔
      entry ∈ standing calls ∧ Key.ofDocument entry.2 attributes = key := by
  rw [standingOf, List.mem_filter, decide_eq_true_iff]

/-- The bucket of a key has its standing documents, and there is one if there are any. -/
theorem Reflects.buckets (reflects : (Index.ordered index).Reflects attributes calls) :
    ∃ span, PageTree.Sound index.tree span ∧
      Filed (fun key => findEntry key span.entries) index.keyOf ∧
      (∀ key ids, (key, ids) ∈ span.entries →
        ids = (standingOf attributes key calls).map Prod.fst) ∧
      ∀ entry ∈ standing calls, ∃ ids, (Key.ofDocument entry.2 attributes, ids) ∈ span.entries := by
  obtain ⟨entries, ⟨span, tree, rfl⟩, queued⟩ := reflects.inOrder
  have listed : ∀ key, (findEntry key span.entries).getD [] =
      (standingOf attributes key calls).map Prod.fst := fun key =>
    (queued.inOrder key).trans (reflects.keysOf key)
  refine ⟨span, tree, queued.toFiled, fun key ids there => ?_, fun entry stands => ?_⟩
  · rw [← listed, (mem_iff_findEntry tree.sorted key ids).1 there, Option.getD_some]
  · have inside : entry.1 ∈ (standingOf attributes (Key.ofDocument entry.2 attributes) calls).map
        Prod.fst := List.mem_map_of_mem (mem_standingOf.2 ⟨stands, rfl⟩)
    rw [← listed] at inside
    cases found : findEntry (Key.ofDocument entry.2 attributes) span.entries with
    | none =>
        rw [found, Option.getD_none] at inside
        cases inside
    | some ids => exact ⟨ids, (mem_iff_findEntry tree.sorted _ ids).2 found⟩

/-- A range gathers the standing documents that it selects, bucket by bucket. -/
theorem Reflects.gathers (reflects : (Index.ordered index).Reflects attributes calls)
    (range : KeyRange Key) : ∃ found : List (DocId × Json),
      index.range range = .ok (found.map Prod.fst) ∧ (found.map Prod.fst).Nodup ∧
      (∀ entry, entry ∈ found ↔
        entry ∈ standing calls ∧ range.Selects (Key.ofDocument entry.2 attributes)) ∧
      found.Pairwise (Precedes attributes calls) := by
  obtain ⟨span, tree, filed, buckets, covered⟩ := reflects.buckets
  let shown := span.entries.filter fun bucket => range.finds bucket.1
  let found := shown.flatMap fun bucket => standingOf attributes bucket.1 calls
  have listed : OrderedIndex.foundIn span.entries (.range range) = found.map Prod.fst := by
    rw [OrderedIndex.foundIn, List.map_flatMap]
    refine List.flatMap_congr fun bucket there => ?_
    exact buckets bucket.1 bucket.2 (List.mem_filter.1 there).1
  refine ⟨found, listed ▸ OrderedIndex.range_eq tree range,
    listed ▸ OrderedIndex.nodup_foundIn_range tree filed range, fun entry => ?_, ?_⟩
  · simp only [found, shown, List.mem_flatMap, List.mem_filter, mem_standingOf,
      KeyRange.finds_iff]
    constructor
    · rintro ⟨bucket, ⟨-, selects⟩, stands, same⟩
      exact ⟨stands, same ▸ selects⟩
    · rintro ⟨stands, selects⟩
      obtain ⟨ids, there⟩ := covered entry stands
      exact ⟨_, ⟨there, selects⟩, stands, rfl⟩
  · -- Within a bucket the order of filing decides, and between two buckets that of their keys.
    refine List.pairwise_flatMap.2 ⟨fun bucket _ => ?_, ?_⟩
    · refine ((pairwise_standing calls).filter _).imp_of_mem fun inside inside' before => ?_
      have same := (mem_standingOf.1 inside).2
      exact .inr ⟨same.trans (mem_standingOf.1 inside').2.symm, before⟩
    · refine (tree.sorted.filter _).imp fun below => ?_
      intro entry inside other inside'
      rw [mem_standingOf] at inside inside'
      exact .inl (by rw [inside.2, inside'.2, below])

/-- Whatever calls an ordered index has had, a range gives the documents whose keys it selects, each
once, in ascending order of the keys and within one key in the order in which they were last filed.
A range without bounds gives all documents of the index. -/
theorem ranges_in_key_order {attributes : List String} {order threshold capacity : Nat}
    {fresh : OrderedIndex}
    (created : OrderedIndex.create attributes order threshold capacity = .ok fresh)
    (calls : List Call) :
    ∃ index, performAll (.ordered fresh) calls = .ok index ∧
      index.keyOf.keys = (standing calls).map Prod.fst ∧
      ∀ range : KeyRange Key, ∃ found : List (DocId × Json),
        index.range range = .ok (found.map Prod.fst) ∧ (found.map Prod.fst).Nodup ∧
        (∀ entry, entry ∈ found ↔
          entry ∈ standing calls ∧ range.Selects (Key.ofDocument entry.2 attributes)) ∧
        found.Pairwise (Precedes attributes calls) ∧
        (range.min = none → range.max = none → found.Perm (standing calls)) := by
  obtain ⟨limits, rfl⟩ := OrderedIndex.create_eq_ok created
  obtain ⟨after, ran, reflects, kind⟩ := performAll_reflects
    (OrderedIndex.inOrder_fresh limits.three limits.positive limits.half attributes capacity) rfl
    calls
  have keys : after.keyOf.keys = (standing calls).map Prod.fst := by
    rw [Table.keys, reflects.entries, List.map_map]
    rfl
  refine ⟨after, ran, keys, fun range => ?_⟩
  cases after with
  | hashed index => cases kind
  | ordered index =>
      obtain ⟨found, gave, nodup, member, sorted⟩ := reflects.gathers range
      refine ⟨found, gave, nodup, member, sorted, fun min max => ?_⟩
      refine (List.perm_ext_iff_of_nodup nodup.of_map reflects.nodup.of_map).2 fun entry => ?_
      rw [member, and_iff_left (KeyRange.selects_of_unbounded min max _)]

/-- Of two documents with one key the one that was filed again comes last, and a text is not above a
number. No key is of the kinds of two bounds that differ in kind. -/
theorem two_zeros_in_order :
    let zero := Json.object [("a", .number .zero)]
    let text := Json.object [("a", .string "x")]
    let calls : List Call := [.insert 1 zero, .insert 2 text, .insert 3 zero, .reindex 1 zero]
    ∃ index, ∃ found : List (DocId × Json),
      performAll (.ordered (OrderedIndex.fresh ["a"] 3 1 0)) calls = .ok index ∧
      index.range ⟨some (.number .zero), none, true, true⟩ = .ok (found.map Prod.fst) ∧
      found.map Prod.fst = [3, 1] ∧ found.Pairwise (Precedes ["a"] calls) ∧
      index.range ⟨some (.number .zero), some (.text "z"), true, true⟩ = .ok [] := by
  intro zero text calls
  obtain ⟨index, ran, -, ranges⟩ := ranges_in_key_order
    (show OrderedIndex.create ["a"] 3 1 0 = .ok (OrderedIndex.fresh ["a"] 3 1 0) from rfl) calls
  obtain ⟨found, gave, -, -, sorted, -⟩ := ranges ⟨some (.number .zero), none, true, true⟩
  have read : (performAll (.ordered (OrderedIndex.fresh ["a"] 3 1 0)) calls >>=
      fun index => index.range ⟨some (.number .zero), none, true, true⟩) = .ok [3, 1] := rfl
  rw [ran, ok_bind, gave] at read
  refine ⟨index, found, ran, gave, Except.ok.inj read, sorted, ?_⟩
  obtain ⟨mixed, gave, -, member, -⟩ :=
    ranges ⟨some (.number .zero), some (.text "z"), true, true⟩
  have unmixed : mixed = [] := List.eq_nil_iff_forall_not_mem.2 fun entry there => by
    obtain ⟨-, number, text⟩ := ((member entry).1 there).2
    have kinds := (beq_iff_eq.1 (number _ rfl)).trans (beq_iff_eq.1 (text _ rfl)).symm
    exact absurd kinds (by decide)
  rw [gave, unmixed]
  rfl

end Index

end Docstore
