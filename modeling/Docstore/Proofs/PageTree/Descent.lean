import Docstore.PageTree.Remove
import Docstore.Proofs.PageTree.Routing

set_option autoImplicit false

namespace Docstore
namespace PageTree

variable {K V : Type} {order threshold level : Nat} {pool : Pool K V} {id : PageId}
  {span : Span K V}

def Pool.entriesOf (pool : Pool K V) (id : PageId) : List (K × V) :=
  match pool.page? id with
  | some (.leaf leaf) => leaf.entries
  | _ => []

theorem Pool.entriesOf_leaf {leaf : Leaf K V} (there : pool.page? id = some (.leaf leaf)) :
    pool.entriesOf id = leaf.entries := by
  simp only [entriesOf, there]

/-- The entries below a page are those of its leaves, one leaf after the other. -/
theorem Holds.entries_of_leaves (held : Holds order threshold pool level id span) :
    span.entries = span.leaves.flatMap pool.entriesOf := by
  refine held.entries_eq fun leafId entries there => ?_
  obtain ⟨leaf, found, rfl⟩ := Pool.leaf_of_content? there
  exact Pool.entriesOf_leaf found

theorem entries_of_children {ids : List PageId} {spans : List (Span K V)}
    (held : List.Forall₂ (Holds order threshold pool level) ids spans) :
    spans.flatMap Span.entries = (spans.flatMap Span.leaves).flatMap pool.entriesOf := by
  induction held with
  | nil => rfl
  | cons head _ later =>
      simp only [List.flatMap_cons, List.flatMap_append, head.entries_of_leaves, later]

section Ends

variable (limits : Limits order threshold)

include limits in
theorem entries_ne_nil_of_fits {ids : List PageId} {spans : List (Span K V)}
    (held : List.Forall₂ (Holds order threshold pool level) ids spans)
    (fits : ∀ child ∈ spans, child.Fits order threshold level) (child : Span K V)
    (member : child ∈ spans) : child.entries ≠ [] ∧ 0 < child.size := by
  obtain ⟨i, inside, rfl⟩ := List.getElem_of_mem member
  have inside' : i < ids.length := by rw [held.length_eq]; exact inside
  have positive := Nat.lt_of_lt_of_le (leastSize_pos limits level) (fits _ member).1
  exact ⟨(List.Forall₂.get held inside' inside).entries_ne_nil limits positive, positive⟩

include limits in
theorem firstLeaf_spec (held : Holds order threshold pool level id span)
    (full : level = 0 ∨ 0 < span.size) :
    ∃ leafId leaf, firstLeaf pool level id = .ok leafId ∧
      pool.page? leafId = some (.leaf leaf) ∧ span.leaves.head? = some leafId ∧
      leaf.entries.head? = span.entries.head? := by
  induction level generalizing id span with
  | zero =>
      obtain ⟨leaf, found, entries⟩ := Pool.leaf_of_content? held.1
      refine ⟨id, leaf, rfl, found, ?_, by rw [entries]⟩
      rw [held.2]
      rfl
  | succ level ih =>
      obtain ⟨⟨children, separators⟩, spans, rfl, there, held, fits, -⟩ := held
      have all := entries_ne_nil_of_fits limits held fits
      cases held with
      | nil => exact absurd full (by simp [Span.ofBranch])
      | @cons child below ids rest childHeld others =>
          obtain ⟨nonempty, positive⟩ := all below List.mem_cons_self
          obtain ⟨leafId, leaf, ran, found, head, entries⟩ := ih childHeld (.inr positive)
          refine ⟨leafId, leaf, ?_, found, ?_, ?_⟩
          · simp only [firstLeaf, Pool.branch_eq_ok (Pool.branch_of_content? there), ok_bind,
              List.head?_cons, ran]
          · simp only [Span.ofBranch, List.flatMap_cons, List.head?_append, head, Option.some_or]
          · obtain ⟨e, more, shape⟩ := List.exists_cons_of_ne_nil nonempty
            simp only [Span.ofBranch, List.flatMap_cons, List.head?_append, entries, shape,
              List.head?_cons, Option.some_or]

include limits in
theorem lastLeaf_spec (held : Holds order threshold pool level id span)
    (full : level = 0 ∨ 0 < span.size) :
    ∃ leafId leaf, lastLeaf pool level id = .ok leafId ∧
      pool.page? leafId = some (.leaf leaf) ∧
      leaf.entries.getLast? = span.entries.getLast? := by
  induction level generalizing id span with
  | zero =>
      obtain ⟨leaf, found, entries⟩ := Pool.leaf_of_content? held.1
      exact ⟨id, leaf, rfl, found, by rw [entries]⟩
  | succ level ih =>
      obtain ⟨branch, spans, rfl, there, held, fits, -⟩ := held
      have all := entries_ne_nil_of_fits limits held fits
      rcases List.eq_nil_or_concat spans with rfl | ⟨front, below, shape⟩
      · exact absurd full (by simp [Span.ofBranch])
      · rw [List.concat_eq_append] at shape
        subst shape
        obtain ⟨ids, child, rest, children, -, -, childHeld, tail⟩ := forall₂_split held
        obtain rfl := List.forall₂_nil_right_iff.1 tail
        obtain ⟨nonempty, positive⟩ := all below (by simp)
        obtain ⟨leafId, leaf, ran, found, entries⟩ := ih childHeld (.inr positive)
        refine ⟨leafId, leaf, ?_, found, ?_⟩
        · simp only [lastLeaf, Pool.branch_eq_ok (Pool.branch_of_content? there), ok_bind,
            children, List.getLast?_append, List.getLast?_singleton, Option.some_or, ran]
        · have last : (below.entries.getLast?).isSome := by simpa using nonempty
          obtain ⟨e, found⟩ := Option.isSome_iff_exists.1 last
          simp only [Span.ofBranch, List.flatMap_append, List.flatMap_cons, List.flatMap_nil,
            List.append_nil, List.getLast?_append, entries, found, Option.some_or]

include limits in
theorem leastKey_spec (held : Holds order threshold pool level id span)
    (full : level = 0 ∨ 0 < span.size) : leastKey pool level id = .ok span.least := by
  obtain ⟨leafId, leaf, ran, found, -, head⟩ := firstLeaf_spec limits held full
  simp only [leastKey, ran, ok_bind, Pool.leaf_eq_ok found, head]
  rfl

end Ends

/-- The leaf that owns a key has all entries that are neither before nor behind the key. -/
theorem ownerLeaf_spec [Ord K] [Std.TransOrd K] (key : K)
    (held : Holds order threshold pool level id span) (sorted : Ascending span.entries) :
    ∃ leafId leaf before behind, ownerLeaf pool key level id = .ok leafId ∧
      pool.page? leafId = some (.leaf leaf) ∧ span.leaves = before ++ leafId :: behind ∧
      AllBelow key (before.flatMap pool.entriesOf) ∧
      AllAbove key (behind.flatMap pool.entriesOf) := by
  induction level generalizing id span with
  | zero =>
      obtain ⟨leaf, found, -⟩ := Pool.leaf_of_content? held.1
      refine ⟨id, leaf, [], [], rfl, found, ?_, by simp [AllBelow], by simp [AllAbove]⟩
      rw [held.2]
      rfl
  | succ level ih =>
      obtain ⟨branch, before, owner, behind, front, child, back, rfl, focus, slot, below, above,
        -⟩ := held.focus key sorted
      simp only [Span.ofBranch, List.flatMap_append, List.flatMap_cons] at sorted
      obtain ⟨leafId, leaf, leavesBefore, leavesBehind, ran, found, leaves, lower, upper⟩ :=
        ih focus.held sorted.right.left
      refine ⟨leafId, leaf, before.flatMap Span.leaves ++ leavesBefore,
        leavesBehind ++ behind.flatMap Span.leaves, ?_, found, ?_, ?_, ?_⟩
      · simp only [ownerLeaf, Pool.branch_eq_ok (Pool.branch_of_content? focus.there), ok_bind,
          ← slot, focus.child_at, ran]
      · simp only [Span.ofBranch, List.flatMap_append, List.flatMap_cons, leaves,
          List.append_assoc, List.cons_append]
      · rw [List.flatMap_append, ← entries_of_children focus.heldBefore]
        intro e member
        exact (List.mem_append.1 member).elim (below e) (lower e)
      · rw [List.flatMap_append, ← entries_of_children focus.heldBehind]
        intro e member
        exact (List.mem_append.1 member).elim (upper e) (above e)

end PageTree
end Docstore
