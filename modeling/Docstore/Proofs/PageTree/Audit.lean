import Docstore.PageTree.Audit
import Docstore.Proofs.PageTree.Reading

set_option autoImplicit false

namespace Docstore
namespace PageTree

variable {K V : Type} {order threshold level : Nat} {pool : Pool K V} {id : PageId}
  {span : Span K V}

section Depths

variable (limits : Limits order threshold)

include limits in
theorem heightFrom_spec (held : Holds order threshold pool level id span)
    (full : level = 0 ∨ 0 < span.size) : heightFrom pool (level + 1) id = .ok (level + 1) := by
  induction level generalizing id span with
  | zero =>
      obtain ⟨leaf, found, -⟩ := Pool.leaf_of_content? held.1
      simp only [heightFrom, Pool.page_eq_ok found, ok_bind, pure_eq_ok]
  | succ level ih =>
      obtain ⟨⟨children, separators⟩, spans, rfl, there, held, fits, -⟩ := held
      have all := entries_ne_nil_of_fits limits held fits
      cases held with
      | nil => exact absurd full (by simp [Span.ofBranch])
      | @cons child below ids rest childHeld others =>
          have deeper := ih childHeld (.inr (all below List.mem_cons_self).2)
          rw [heightFrom, Pool.page_eq_ok (Pool.branch_of_content? there)]
          simp only [ok_bind, List.head?_cons, deeper, pure_eq_ok]

theorem mapM_eq_ok {α β γ : Type} {R : α → β → Prop} (run : α → Except PageFault γ) (f : β → γ)
    {xs : List α} {ys : List β} (related : List.Forall₂ R xs ys)
    (each : ∀ x y, y ∈ ys → R x y → run x = .ok (f y)) : xs.mapM run = .ok (ys.map f) := by
  induction related with
  | nil => rfl
  | cons head tail ih =>
      have later := ih fun x y member => each x y (List.mem_cons_of_mem _ member)
      simp only [List.mapM_cons, each _ _ List.mem_cons_self head, ok_bind, later, pure_eq_ok,
        List.map_cons]

theorem leafDepthsFrom_spec (held : Holds order threshold pool level id span) (depth : Nat) :
    leafDepthsFrom pool (level + 1) depth id =
      .ok (List.replicate span.leaves.length (depth + level)) := by
  induction level generalizing id span depth with
  | zero =>
      obtain ⟨leaf, found, -⟩ := Pool.leaf_of_content? held.1
      rw [held.2]
      simp only [leafDepthsFrom, Pool.page_eq_ok found, ok_bind, pure_eq_ok]
      rfl
  | succ level ih =>
      obtain ⟨branch, spans, rfl, there, children, -, -⟩ := held
      have depths := mapM_eq_ok (leafDepthsFrom pool (level + 1) (depth + 1))
        (fun span => List.replicate span.leaves.length (depth + 1 + level)) children
        fun _ _ _ childHeld => ih childHeld (depth + 1)
      rw [leafDepthsFrom, Pool.page_eq_ok (Pool.branch_of_content? there)]
      simp only [ok_bind, depths, pure_eq_ok, Except.ok.injEq]
      rw [show depth + (level + 1) = depth + 1 + level by omega]
      simp only [Span.ofBranch]
      clear depths children
      induction spans with
      | nil => rfl
      | cons below rest later =>
          simp only [List.map_cons, List.flatten_cons, later, List.flatMap_cons,
            List.length_append, List.replicate_append_replicate]

end Depths

theorem sum_length_le {count : Nat} {spans : List (Span K V)}
    (each : ∀ child ∈ spans, count ≤ child.entries.length) :
    spans.length * count ≤ (spans.flatMap Span.entries).length := by
  induction spans with
  | nil => simp
  | cons below rest ih =>
      have first := each below List.mem_cons_self
      have others := ih fun child member => each child (List.mem_cons_of_mem _ member)
      simp only [List.length_cons, List.flatMap_cons, List.length_append, Nat.succ_mul]
      omega

/-- Each level of branches multiplies the least number of entries. -/
theorem Holds.many_entries (held : Holds order threshold pool level id span)
    (fits : span.Fits order threshold level) :
    max threshold 2 ^ level * threshold ≤ span.entries.length := by
  induction level generalizing id span with
  | zero =>
      have size : span.size = span.entries.length := by rw [held.2]; rfl
      have least := fits.1
      simp only [leastSize] at least
      rw [pow_zero, one_mul]
      omega
  | succ level ih =>
      obtain ⟨branch, spans, rfl, there, children, childFits, -⟩ := held
      have each : ∀ child ∈ spans,
          max threshold 2 ^ level * threshold ≤ child.entries.length := by
        intro child member
        obtain ⟨i, inside, rfl⟩ := List.getElem_of_mem member
        have inside' : i < branch.children.length := by rw [children.length_eq]; exact inside
        exact ih (List.Forall₂.get children inside' inside) (childFits _ member)
      have least : max threshold 2 ≤ spans.length := fits.1
      calc max threshold 2 ^ (level + 1) * threshold
          = max threshold 2 * (max threshold 2 ^ level * threshold) := by ring
        _ ≤ spans.length * (max threshold 2 ^ level * threshold) := Nat.mul_le_mul_right _ least
        _ ≤ (spans.flatMap Span.entries).length := sum_length_le each

section Survey

variable [Ord K]

theorem ascending_of_sorted {entries : List (K × V)} (sorted : Ascending entries) :
    ascending entries = true := by
  induction entries with
  | nil => rfl
  | cons a rest ih =>
      have ⟨least, later⟩ := List.pairwise_cons.1 sorted
      cases rest with
      | nil => rfl
      | cons b rest =>
          have order := least b List.mem_cons_self
          simp [ascending, order, ih later]

def surveyOf (level : Nat) (entries : List (K × V)) (leaves : List PageId) : Survey K :=
  ⟨level + 1, leastOf entries, entries.getLast?.map Prod.fst, entries.length, leaves⟩

variable [Std.TransOrd K]

/-- Combining the surveys of neighbouring children surveys all of them. -/
theorem combine_spec (level : Nat) (id : PageId) {first : Span K V} {rest : List (Span K V)}
    {separators : List K} (separated : Separated allFresh separators (first :: rest))
    {entries : List (K × V)} (leaves : List PageId) (full : entries ≠ []) (slot : Nat)
    (sorted : Ascending (entries ++ rest.flatMap Span.entries)) :
    combine id slot (surveyOf level entries leaves)
        (rest.map fun below => surveyOf level below.entries below.leaves) separators =
      .ok (surveyOf level (entries ++ rest.flatMap Span.entries)
        (leaves ++ rest.flatMap Span.leaves)) := by
  induction rest generalizing first separators entries leaves slot with
  | nil => simp [combine]
  | cons below rest ih =>
      cases separators with
      | nil => exact absurd separated.1 (by simp)
      | cons separator separators =>
          obtain ⟨least, later⟩ := separated_cons_iff.1 separated
          obtain ⟨e, inside, rfl⟩ := exists_mem_of_least least
          have lower : ∀ x ∈ entries, compare x.1 e.1 = .lt := fun x member =>
            sorted.across member (by simp [inside])
          have greatest : ((entries.getLast?.map Prod.fst).any fun greatest =>
              (compare greatest e.1).isGE) = false := by
            cases last : entries.getLast? with
            | none => rfl
            | some x => simp [lower x (List.mem_of_getLast? last)]
          have exactly : (below.least.any fun least => (compare least e.1).isEq) = true := by
            rw [least]
            simp
          rw [List.flatMap_cons, ← List.append_assoc] at sorted
          have step := ih later (leaves ++ below.leaves)
            (List.append_ne_nil_of_left_ne_nil full below.entries) (slot + 1) sorted
          simp only [Span.least] at exactly
          simp only [List.map_cons, combine, surveyOf, ne_eq, not_true_eq_false, if_false, exactly,
            Bool.not_true, Bool.false_eq_true, greatest]
          rw [List.flatMap_cons, List.flatMap_cons, ← List.append_assoc, ← List.append_assoc]
          simp only [surveyOf, leastOf_append full, List.getLast?_append, List.length_append,
            Option.map_or] at step ⊢
          exact step

omit [Ord K] [Std.TransOrd K] in
theorem Holds.page_within {tree : PageTree K V} {isRoot : Bool}
    (held : Holds tree.order tree.threshold tree.pool level id span)
    (atMost : span.size ≤ tree.order)
    (atLeast : isRoot = false → leastSize tree.threshold level ≤ span.size) :
    ∃ page, tree.pool.page? id = some page ∧ ¬ (tree.order < page.size ∨
      (isRoot = false ∧ page.size < page.minSize tree.threshold)) := by
  obtain ⟨page, found, size, least⟩ := held.page
  refine ⟨page, found, ?_⟩
  rw [size, least]
  rintro (beyond | ⟨inner, under⟩)
  · omega
  · have enough := atLeast inner
    omega

theorem surveyFrom_spec {tree : PageTree K V} (limits : Limits tree.order tree.threshold)
    (isRoot : Bool) (held : Holds tree.order tree.threshold tree.pool level id span)
    (sorted : Ascending span.entries) (full : level = 0 ∨ 0 < span.size)
    (atMost : span.size ≤ tree.order)
    (atLeast : isRoot = false → leastSize tree.threshold level ≤ span.size) :
    surveyFrom tree (level + 1) isRoot id = .ok (surveyOf level span.entries span.leaves) := by
  induction level generalizing id span isRoot with
  | zero =>
      obtain ⟨page, found, within⟩ := held.page_within atMost atLeast
      obtain ⟨there, shape⟩ := held
      obtain ⟨leaf, found', entries⟩ := Pool.leaf_of_content? there
      obtain rfl : page = .leaf leaf := by simpa [found] using found'
      simp only [surveyFrom, Pool.page_eq_ok found, ok_bind, if_neg within, entries,
        ascending_of_sorted sorted, Bool.not_true, Bool.false_eq_true, if_false, pure_eq_ok]
      rw [shape]
      rfl
  | succ level ih =>
      obtain ⟨page, found, within⟩ := held.page_within atMost atLeast
      obtain ⟨branch, spans, rfl, there, children, fits, separated⟩ := held
      obtain rfl : page = .branch branch := by
        simpa [found] using Pool.branch_of_content? there
      have all := entries_ne_nil_of_fits limits children fits
      have inOrder : ∀ below ∈ spans, Ascending below.entries := by
        intro below member
        obtain ⟨before, behind, rfl⟩ := List.append_of_mem member
        simp only [Span.ofBranch, List.flatMap_append, List.flatMap_cons] at sorted
        exact sorted.right.left
      have surveys := mapM_eq_ok (surveyFrom tree (level + 1) false)
        (fun below => surveyOf level below.entries below.leaves) children
        fun child below member childHeld => ih false childHeld (inOrder below member)
          (.inr (all below member).2) (fits below member).2 fun _ => (fits below member).1
      have counts : ¬ branch.separators.length + 1 ≠ branch.children.length := by
        rw [children.length_eq]
        simpa using separated.1
      obtain ⟨first, rest, rfl⟩ := List.exists_cons_of_length_pos (full.resolve_left (by simp))
      have whole := combine_spec level id separated first.leaves
        (all first List.mem_cons_self).1 0
        (by simpa [Span.ofBranch] using sorted)
      rw [surveyFrom, Pool.page_eq_ok found]
      simp only [ok_bind, if_neg within, if_neg counts, surveys, List.map_cons, whole, pure_eq_ok]
      rfl

omit [Ord K] [Std.TransOrd K] in
theorem checkLinks_spec {leaves : List PageId} {before : Option PageId}
    (linked : pool.Linked before leaves) : checkLinks pool before leaves = .ok () := by
  induction leaves generalizing before with
  | nil => rfl
  | cons id rest ih =>
      obtain ⟨⟨leaf, found, left, right⟩, others⟩ := linked
      simp only [checkLinks, Pool.leaf_eq_ok found, ok_bind, left, right, ne_eq, not_true_eq_false,
        or_self, if_false, ih others]

end Survey

section Sound

variable [Ord K] [DecidableEq K] {tree : PageTree K V}

theorem height_spec (sound : Sound tree span) : tree.height = .ok (tree.levels + 1) :=
  heightFrom_spec sound.limits sound.held sound.full

theorem leafDepths_spec (sound : Sound tree span) :
    tree.leafDepths = .ok (List.replicate span.leaves.length (tree.levels + 1)) := by
  rw [leafDepths, leafDepthsFrom_spec sound.held, Nat.add_comm]

/-- A tree with branches has the entries of two least subtrees at least. -/
theorem Sound.many_entries (sound : Sound tree span) (tall : tree.levels ≠ 0) :
    2 * max tree.threshold 2 ^ (tree.levels - 1) * tree.threshold ≤ tree.size := by
  have two := sound.twoChildren tall
  have held := sound.held
  obtain ⟨level, levels⟩ := Nat.exists_eq_succ_of_ne_zero tall
  rw [levels] at held ⊢
  obtain ⟨branch, spans, rfl, there, children, fits, -⟩ := held
  have each : ∀ child ∈ spans,
      max tree.threshold 2 ^ level * tree.threshold ≤ child.entries.length := by
    intro child member
    obtain ⟨i, inside, rfl⟩ := List.getElem_of_mem member
    have inside' : i < branch.children.length := by rw [children.length_eq]; exact inside
    exact Holds.many_entries (List.Forall₂.get children inside' inside) (fits _ member)
  rw [sound.size]
  calc 2 * max tree.threshold 2 ^ level * tree.threshold
      = 2 * (max tree.threshold 2 ^ level * tree.threshold) := by ring
    _ ≤ spans.length * (max tree.threshold 2 ^ level * tree.threshold) :=
        Nat.mul_le_mul_right _ two
    _ ≤ (spans.flatMap Span.entries).length := sum_length_le each

variable [Std.TransOrd K]

theorem audit_spec (sound : Sound tree span) : tree.audit = .ok () := by
  have survey := surveyFrom_spec sound.limits true sound.held sound.sorted sound.full
    sound.atMost (by simp)
  have count : ¬ span.entries.length ≠ tree.size := fun differ => differ sound.size.symm
  simp only [audit, survey, ok_bind, surveyOf, if_neg count]
  exact checkLinks_spec sound.chained.linked

end Sound

end PageTree
end Docstore
