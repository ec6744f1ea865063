import Docstore.PageTree.Scan
import Docstore.Proofs.PageTree.Descent
import Docstore.Proofs.PageTree.Sound

set_option autoImplicit false

namespace Docstore

namespace KeyRange

variable {K : Type} [Ord K]

def admits (range : KeyRange K) (key : K) : Bool :=
  !range.isBelow key && !range.isAbove key

variable [Std.TransOrd K]

/-- Behind a key that lies behind a range, every key does. -/
theorem isAbove_of_lt {range : KeyRange K} {key later : K} (above : range.isAbove key)
    (order : compare key later = .lt) : range.isAbove later := by
  unfold isAbove at above ⊢
  cases bound : range.max with
  | none => simp [bound] at above
  | some max =>
      rw [bound] at above
      have behind : compare later max = .gt := by
        rw [Std.OrientedCmp.gt_iff_lt]
        cases first : compare key max with
        | lt => simp [first] at above
        | eq => exact Std.TransCmp.lt_of_eq_of_lt (Std.OrientedCmp.eq_symm first) order
        | gt => exact Std.TransCmp.lt_trans (Std.OrientedCmp.lt_of_gt first) order
      simp [behind]

omit [Std.TransOrd K] in
theorem isBelow_of_lt {range : KeyRange K} {key min : K} (bound : range.min = some min)
    (order : compare key min = .lt) : range.isBelow key := by
  simp [isBelow, bound, order]

end KeyRange

namespace PageTree

variable {K V : Type}

section Chains

variable {pool : Pool K V} {leaves : List PageId}

theorem chain_spec {before : Option PageId} (linked : pool.Linked before leaves) {count : Nat}
    (room : leaves.length ≤ count) :
    ∃ pages, chain pool count leaves.head? = .ok pages ∧
      pages.flatMap Leaf.entries = leaves.flatMap pool.entriesOf := by
  induction leaves generalizing before count with
  | nil => exact ⟨[], by cases count <;> rfl, rfl⟩
  | cons id rest ih =>
      obtain ⟨⟨leaf, found, -, right⟩, others⟩ := linked
      obtain ⟨count, rfl⟩ := Nat.exists_eq_succ_of_ne_zero
        (Nat.ne_of_gt (Nat.lt_of_lt_of_le (Nat.succ_pos rest.length) room))
      obtain ⟨pages, ran, entries⟩ := ih others (Nat.le_of_succ_le_succ room)
      refine ⟨leaf :: pages, ?_, ?_⟩
      · simp only [List.head?_cons, chain, Pool.leaf_eq_ok found, ok_bind, right, ran]
        rfl
      · simp only [List.flatMap_cons, entries, Pool.entriesOf_leaf found]

theorem Pool.Chained.length_le (chain : pool.Chained leaves) :
    leaves.length ≤ pool.slots.length := by
  have inside : leaves ⊆ List.range pool.slots.length := by
    intro id member
    obtain ⟨leaf, found⟩ := chain.exists_leaf member
    exact List.mem_range.2 (Pool.lt_length_of_page? found)
  simpa using (chain.nodup.subperm inside).length_le

/-- From a leaf on, the chain has the entries of the leaves that follow. -/
theorem entriesFrom_spec {front back : List PageId} {id : PageId}
    (chain : pool.Chained (front ++ id :: back)) :
    entriesFrom pool id = .ok ((id :: back).flatMap pool.entriesOf) := by
  obtain ⟨before, linked⟩ := Pool.linked_drop chain.linked
  have room : (id :: back).length ≤ pool.slots.length := by
    have all := chain.length_le
    rw [List.length_append] at all
    omega
  obtain ⟨pages, ran, entries⟩ := chain_spec linked room
  simp only [entriesFrom]
  rw [show some id = (id :: back).head? from rfl, ran, ok_bind, entries]
  rfl

end Chains

section Within

variable [Ord K] [Std.TransOrd K]

/-- What a reading of sorted entries takes are the entries in the range. -/
theorem within_spec (range : KeyRange K) {entries : List (K × V)} (sorted : Ascending entries) :
    within range entries = entries.filter fun e => range.admits e.1 := by
  induction entries with
  | nil => rfl
  | cons e rest ih =>
      have ⟨least, later⟩ := List.pairwise_cons.1 sorted
      have tail := ih later
      simp only [within, KeyRange.admits] at tail ⊢
      cases below : range.isBelow e.1 with
      | true => simp [below, tail]
      | false =>
          cases above : range.isAbove e.1 with
          | false => simp [below, above, tail]
          | true =>
              have beyond : ∀ x ∈ rest, range.isAbove x.1 = true := fun x member =>
                KeyRange.isAbove_of_lt above (least x member)
              simp only [List.takeWhile_cons, below, above, Bool.not_true, Bool.or_false,
                Bool.false_eq_true, if_false, List.filter_nil, List.filter_cons, Bool.and_false]
              refine (List.filter_eq_nil_iff.2 fun x member => ?_).symm
              simp [beyond x member]

end Within

section Sound

variable [Ord K] [DecidableEq K] {tree : PageTree K V} {span : Span K V}

theorem Sound.full (sound : Sound tree span) : tree.levels = 0 ∨ 0 < span.size := by
  by_cases leaf : tree.levels = 0
  · exact .inl leaf
  · have two := sound.twoChildren leaf
    exact .inr (by omega)

theorem toEntries_spec (sound : Sound tree span) : tree.toEntries = .ok span.entries := by
  obtain ⟨leafId, leaf, ran, -, head, -⟩ := firstLeaf_spec sound.limits sound.held sound.full
  obtain ⟨rest, leaves⟩ := List.head?_eq_some_iff.1 head
  have chain : tree.pool.Chained ([] ++ leafId :: rest) := by
    rw [List.nil_append, ← leaves]
    exact sound.chained
  simp only [toEntries, ran, ok_bind, entriesFrom_spec chain]
  rw [← leaves, ← sound.held.entries_of_leaves]

theorem first_spec (sound : Sound tree span) : tree.first = .ok span.entries.head? := by
  obtain ⟨leafId, leaf, ran, found, -, head⟩ := firstLeaf_spec sound.limits sound.held sound.full
  simp only [first, ran, ok_bind, Pool.leaf_eq_ok found, head]
  rfl

theorem last_spec (sound : Sound tree span) : tree.last = .ok span.entries.getLast? := by
  obtain ⟨leafId, leaf, ran, found, last⟩ := lastLeaf_spec sound.limits sound.held sound.full
  simp only [PageTree.last, ran, ok_bind, Pool.leaf_eq_ok found, last]
  rfl

variable [Std.TransOrd K]

/-- Reading a range gives the entries whose keys lie in it. -/
theorem rangeEntries_spec (sound : Sound tree span) (range : KeyRange K) :
    tree.rangeEntries range = .ok (span.entries.filter fun e => range.admits e.1) := by
  cases bound : range.min with
  | none =>
      have whole := toEntries_spec sound
      simp only [rangeEntries, bound]
      rw [show (firstLeaf tree.pool tree.levels tree.root >>= fun start => do
          return within range (← entriesFrom tree.pool start)) =
        (tree.toEntries >>= fun entries => .ok (within range entries)) by
          simp only [toEntries, bind_assoc]; rfl]
      rw [whole, ok_bind, within_spec range sound.sorted]
  | some min =>
      obtain ⟨leafId, leaf, before, behind, ran, found, leaves, below, -⟩ :=
        ownerLeaf_spec min sound.held sound.sorted
      have chain := sound.chained
      have entries := sound.held.entries_of_leaves
      have sorted := sound.sorted
      rw [leaves] at chain entries
      rw [List.flatMap_append] at entries
      rw [entries] at sorted ⊢
      simp only [rangeEntries, bound, ran, ok_bind, entriesFrom_spec chain]
      rw [within_spec range sorted.right, List.filter_append]
      have early :
          (before.flatMap tree.pool.entriesOf).filter (fun e => range.admits e.1) = [] := by
        refine List.filter_eq_nil_iff.2 fun e member => ?_
        simp [KeyRange.admits, KeyRange.isBelow_of_lt bound (below e member)]
      rw [early]
      rfl

/-- A search finds the value of the key; only the recent answers change. -/
theorem search_spec (sound : Sound tree span) (key : K) :
    ∃ recent, tree.search key = .ok (findEntry key span.entries, { tree with recent }) ∧
      Sound { tree with recent } span := by
  cases cached : tree.recent.find? key with
  | some value =>
      have found := sound.recent key value cached
      refine ⟨tree.recent.put key value, ?_, { sound with
        recent := sound.recent.put found }⟩
      simp only [search, Recent.touch, cached, found]
  | none =>
      obtain ⟨leafId, leaf, before, behind, ran, page, leaves, below, above⟩ :=
        ownerLeaf_spec key sound.held sound.sorted
      have owner : findEntry key leaf.entries = findEntry key span.entries := by
        rw [sound.held.entries_of_leaves, leaves, List.flatMap_append, List.flatMap_cons,
          findEntry_between key _ below above, Pool.entriesOf_leaf page]
      cases found : findEntry key span.entries with
      | some value =>
          refine ⟨tree.recent.put key value, ?_, { sound with
            recent := sound.recent.put found }⟩
          simp only [search, Recent.touch, cached, ran, ok_bind, Pool.leaf_eq_ok page, owner, found]
          rfl
      | none =>
          refine ⟨tree.recent, ?_, sound⟩
          simp only [search, Recent.touch, cached, ran, ok_bind, Pool.leaf_eq_ok page, owner, found]
          rfl

theorem contains_spec (sound : Sound tree span) (key : K) :
    ∃ recent, tree.contains key = .ok ((findEntry key span.entries).isSome, { tree with recent }) ∧
      Sound { tree with recent } span := by
  obtain ⟨recent, ran, sound'⟩ := search_spec sound key
  exact ⟨recent, by simp only [contains, ran, ok_bind]; rfl, sound'⟩

end Sound

end PageTree
end Docstore
