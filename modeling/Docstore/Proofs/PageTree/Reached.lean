import Docstore.Proofs.Fallible
import Docstore.Proofs.PageTree.Calls

set_option autoImplicit false

namespace Docstore
namespace PageTree

variable {K V : Type}

def Page.children : Page K V → List PageId
  | .leaf _ => []
  | .branch b => b.children

/-- All pages that a page names: children, or neighbours in the chain of leaves. -/
def Page.links : Page K V → List PageId
  | .leaf l => l.left.toList ++ l.right.toList
  | .branch b => b.children

namespace Pool

/-- The pages named by the first page, by a page that it names, and so on. -/
inductive Reaches (pool : Pool K V) (first : PageId) : PageId → Prop
  | first : pool.Reaches first first
  | link {id other : PageId} {page : Page K V} : pool.Reaches first id →
      pool.page? id = some page → other ∈ page.links → pool.Reaches first other

def descend? (pool : Pool K V) (id : PageId) : List Nat → Option PageId
  | [] => some id
  | position :: path =>
    match pool.page? id with
    | none => none
    | some page =>
      match page.children[position]? with
      | none => none
      | some child => pool.descend? child path

variable {pool : Pool K V} {id : PageId}

theorem descend?_cons_eq_some {branch : Branch K} (there : pool.page? id = some (.branch branch))
    {position : Nat} {path : List Nat} {other : PageId} :
    pool.descend? id (position :: path) = some other ↔
      ∃ child, branch.children[position]? = some child ∧ pool.descend? child path = some other := by
  simp only [descend?, there, Page.children]
  cases branch.children[position]? with
  | none => simp
  | some child => simp

/-- The neighbours of a leaf of the chain are in the chain, or stand before it. -/
theorem Linked.neighbours {before : Option PageId} {leaves : List PageId}
    (chain : pool.Linked before leaves) (member : id ∈ leaves) {leaf : Leaf K V}
    (there : pool.page? id = some (.leaf leaf)) :
    (∀ other ∈ leaf.left, other ∈ leaves ∨ before = some other) ∧
      ∀ other ∈ leaf.right, other ∈ leaves := by
  induction leaves generalizing before with
  | nil => exact absurd member List.not_mem_nil
  | cons head rest ih =>
      obtain ⟨⟨leaf', found, left, right⟩, others⟩ := chain
      by_cases here : id = head
      · subst here
        obtain rfl : leaf = leaf' := by simpa [there] using found
        refine ⟨fun other named => .inr (left.symm.trans named), fun other named => ?_⟩
        exact List.mem_cons_of_mem _ (List.mem_of_mem_head? (right.symm.trans named))
      · obtain ⟨toLeft, toRight⟩ := ih others ((List.mem_cons.1 member).resolve_left here)
        refine ⟨fun other named => .inl ?_, fun other named =>
          List.mem_cons_of_mem _ (toRight other named)⟩
        rcases toLeft other named with inside | same
        · exact List.mem_cons_of_mem _ inside
        · cases same
          exact List.mem_cons_self

section Counting

variable {pages : List PageId} (slots : ∀ id, pages.count id = pool.occupied id)

include slots in
theorem mem_iff_isSome : id ∈ pages ↔ (pool.page? id).isSome := by
  rw [← occupied_eq_one, ← slots, ← List.count_pos_iff]
  have once := slots id ▸ pool.occupied_le_one id
  omega

include slots in
/-- In a tidy pool the free slots and the taken ones are all slots. -/
theorem live_eq_length (tidy : pool.Tidy) : pool.live = pages.length := by
  have counted : pool.Counted pages := fun id => (slots id).le
  have apart : (pool.free ++ pages).Nodup := by
    refine List.nodup_append'.2 ⟨tidy.nodup, counted.nodup, fun id waiting inside => ?_⟩
    have missing := ((tidy.empty id).1 waiting).2
    have there := (mem_iff_isSome slots).1 inside
    rw [missing] at there
    cases there
  have all : (pool.free ++ pages).Perm (List.range pool.slots.length) := by
    refine (List.perm_ext_iff_of_nodup apart List.nodup_range).2 fun id => ?_
    rw [List.mem_append, tidy.empty, mem_iff_isSome slots, List.mem_range]
    constructor
    · rintro (⟨inside, -⟩ | there)
      · exact inside
      · exact lt_length_of_isSome there
    · intro inside
      cases found : pool.page? id with
      | none => exact .inl ⟨inside, rfl⟩
      | some page => exact .inr rfl
  have lengths := all.length_eq
  rw [List.length_append, List.length_range] at lengths
  rw [live]
  omega

end Counting

end Pool

section Paths

variable {order threshold level : Nat} {pool : Pool K V} {id other : PageId} {span : Span K V}

/-- A page above the leaves is a branch whose children hold the spans at their positions. -/
theorem Holds.below (held : Holds order threshold pool (level + 1) id span) :
    ∃ branch spans, span = .ofBranch id spans ∧ pool.page? id = some (.branch branch) ∧
      (∀ {position : Nat} {child}, branch.children[position]? = some child →
        ∃ below, spans[position]? = some below ∧ Holds order threshold pool level child below) ∧
      ∀ below ∈ spans, ∃ (position : Nat) (child : PageId),
        branch.children[position]? = some child ∧ Holds order threshold pool level child below := by
  obtain ⟨branch, spans, shape, there, children, -, -⟩ := held
  refine ⟨branch, spans, shape, Pool.branch_of_content? there, fun {position child} found => ?_,
    fun below member => ?_⟩
  · rcases forall₂_getElem? children position with ⟨missing, -⟩ | ⟨_, below, found', there, held⟩
    · simp [missing] at found
    · obtain rfl := Option.some.inj (found'.symm.trans found)
      exact ⟨below, there, held⟩
  · obtain ⟨position, found⟩ := List.mem_iff_getElem?.1 member
    rcases forall₂_getElem? children position with ⟨-, missing⟩ | ⟨child, _, there, found', held⟩
    · simp [missing] at found
    · obtain rfl := Option.some.inj (found'.symm.trans found)
      exact ⟨position, child, there, held⟩

/-- A page of a span is one of its leaves, or a branch over other pages of it. -/
theorem Holds.page_of_mem (held : Holds order threshold pool level id span)
    (inside : other ∈ span.pages) :
    (other ∈ span.leaves ∧ ∃ leaf, pool.page? other = some (.leaf leaf)) ∨
      ∃ branch, pool.page? other = some (.branch branch) ∧
        ∀ child ∈ branch.children, child ∈ span.pages := by
  induction level generalizing id span with
  | zero =>
      obtain ⟨there, shape⟩ := held
      obtain ⟨leaf, found, -⟩ := Pool.leaf_of_content? there
      rw [shape] at inside ⊢
      obtain rfl := List.mem_singleton.1 inside
      exact .inl ⟨List.mem_singleton_self _, leaf, found⟩
  | succ level ih =>
      obtain ⟨branch, spans, rfl, there, spanOf, childOf⟩ := held.below
      rcases List.mem_cons.1 inside with rfl | inside
      · refine .inr ⟨branch, there, fun child member => ?_⟩
        obtain ⟨position, found⟩ := List.mem_iff_getElem?.1 member
        obtain ⟨below, foundBelow, childHeld⟩ := spanOf found
        exact List.mem_cons_of_mem _
          (List.mem_flatMap.2 ⟨below, List.mem_of_getElem? foundBelow, childHeld.mem_pages⟩)
      · obtain ⟨below, member, inside⟩ := List.mem_flatMap.1 inside
        obtain ⟨-, child, -, childHeld⟩ := childOf below member
        rcases ih childHeld inside with ⟨leaves, leaf⟩ | ⟨branch', there', within⟩
        · exact .inl ⟨List.mem_flatMap.2 ⟨below, member, leaves⟩, leaf⟩
        · exact .inr ⟨branch', there', fun child' member' => List.mem_cons_of_mem _
            (List.mem_flatMap.2 ⟨below, member, within child' member'⟩)⟩

theorem Holds.leaves_subset (held : Holds order threshold pool level id span) :
    span.leaves ⊆ span.pages := by
  induction level generalizing id span with
  | zero =>
      rw [held.2]
      exact List.Subset.refl _
  | succ level ih =>
      obtain ⟨branch, spans, rfl, -, -, childOf⟩ := held.below
      intro leaf inside
      obtain ⟨below, member, inside⟩ := List.mem_flatMap.1 inside
      obtain ⟨-, child, -, childHeld⟩ := childOf below member
      exact List.mem_cons_of_mem _ (List.mem_flatMap.2 ⟨below, member, ih childHeld inside⟩)

theorem Holds.descend_leaf (held : Holds order threshold pool 0 id span) {path : List Nat}
    (leads : pool.descend? id path = some other) : path = [] := by
  obtain ⟨leaf, found, -⟩ := Pool.leaf_of_content? held.1
  cases path with
  | nil => rfl
  | cons position path => simp [Pool.descend?, found, Page.children] at leads

/-- Paths from the first page of a span lead to its pages only. -/
theorem Holds.mem_pages_of_descend (held : Holds order threshold pool level id span)
    {path : List Nat} (leads : pool.descend? id path = some other) : other ∈ span.pages := by
  induction level generalizing id span path with
  | zero =>
      obtain rfl := held.descend_leaf leads
      exact Option.some.inj leads ▸ held.mem_pages
  | succ level ih =>
      cases path with
      | nil => exact Option.some.inj leads ▸ held.mem_pages
      | cons position path =>
          obtain ⟨branch, spans, rfl, there, spanOf, -⟩ := held.below
          obtain ⟨child, found, leads⟩ := (Pool.descend?_cons_eq_some there).1 leads
          obtain ⟨below, foundBelow, childHeld⟩ := spanOf found
          exact List.mem_cons_of_mem _
            (List.mem_flatMap.2 ⟨below, List.mem_of_getElem? foundBelow, ih childHeld leads⟩)

/-- Paths from the first page of a span lead to each of its pages. -/
theorem Holds.exists_path (held : Holds order threshold pool level id span)
    (inside : other ∈ span.pages) : ∃ path, pool.descend? id path = some other := by
  induction level generalizing id span with
  | zero =>
      rw [held.2] at inside
      exact ⟨[], congrArg some (List.mem_singleton.1 inside).symm⟩
  | succ level ih =>
      obtain ⟨branch, spans, rfl, there, -, childOf⟩ := held.below
      rcases List.mem_cons.1 inside with rfl | inside
      · exact ⟨[], rfl⟩
      · obtain ⟨below, member, inside⟩ := List.mem_flatMap.1 inside
        obtain ⟨position, child, found, childHeld⟩ := childOf below member
        obtain ⟨path, leads⟩ := ih childHeld inside
        exact ⟨position :: path, (Pool.descend?_cons_eq_some there).2 ⟨child, found, leads⟩⟩

/-- The spans of different children have no page in common, and none has the page above them. -/
theorem apart_of_nodup {spans : List (Span K V)} (nodup : (Span.ofBranch id spans).pages.Nodup)
    {position : Nat} {below : Span K V} (found : spans[position]? = some below) :
    id ∉ below.pages ∧ below.pages.Nodup ∧ ∀ other position' below',
      spans[position']? = some below' → other ∈ below.pages → other ∈ below'.pages →
        position = position' := by
  obtain ⟨outside, nodup⟩ := List.nodup_cons.1 nodup
  obtain ⟨each, apart⟩ := List.nodup_flatMap.1 nodup
  have member := List.mem_of_getElem? found
  refine ⟨fun inside => outside (List.mem_flatMap.2 ⟨below, member, inside⟩), each below member,
    fun other position' below' found' here there => ?_⟩
  obtain ⟨bound, rfl⟩ := List.getElem?_eq_some_iff.1 found
  obtain ⟨bound', rfl⟩ := List.getElem?_eq_some_iff.1 found'
  rcases Nat.lt_trichotomy position position' with before | same | behind
  · exact absurd there (List.pairwise_iff_getElem.1 apart _ _ bound bound' before here)
  · exact same
  · exact absurd here (List.pairwise_iff_getElem.1 apart _ _ bound' bound behind there)

/-- Where the pages are all different, one path at most leads to a page. -/
theorem Holds.path_unique (held : Holds order threshold pool level id span)
    (nodup : span.pages.Nodup) {path path' : List Nat}
    (leads : pool.descend? id path = some other) (leads' : pool.descend? id path' = some other) :
    path = path' := by
  induction level generalizing id span path path' with
  | zero => rw [held.descend_leaf leads, held.descend_leaf leads']
  | succ level ih =>
      obtain ⟨branch, spans, rfl, there, spanOf, -⟩ := held.below
      -- a path that goes on from a child cannot come back to the page itself
      have leaves_behind {position : Nat} {rest : List Nat} :
          pool.descend? id (position :: rest) ≠ some id := by
        intro back
        obtain ⟨child, found, back⟩ := (Pool.descend?_cons_eq_some there).1 back
        obtain ⟨below, foundBelow, childHeld⟩ := spanOf found
        exact (apart_of_nodup nodup foundBelow).1 (childHeld.mem_pages_of_descend back)
      cases path with
      | nil =>
          cases path' with
          | nil => rfl
          | cons position' rest' => exact absurd (leads'.trans leads.symm) leaves_behind
      | cons position rest =>
          cases path' with
          | nil => exact absurd (leads.trans leads'.symm) leaves_behind
          | cons position' rest' =>
              obtain ⟨child, found, leads⟩ := (Pool.descend?_cons_eq_some there).1 leads
              obtain ⟨child', found', leads'⟩ := (Pool.descend?_cons_eq_some there).1 leads'
              obtain ⟨below, foundBelow, childHeld⟩ := spanOf found
              obtain ⟨below', foundBelow', childHeld'⟩ := spanOf found'
              obtain ⟨-, once, apart⟩ := apart_of_nodup nodup foundBelow
              obtain rfl := apart _ _ _ foundBelow' (childHeld.mem_pages_of_descend leads)
                (childHeld'.mem_pages_of_descend leads')
              obtain rfl := Option.some.inj (found.symm.trans found')
              rw [ih childHeld once leads leads']

end Paths

/-- No page of a tree is missing, lost or shared, and no slot is either taken or free by mistake. -/
structure Intact (tree : PageTree K V) : Prop where
  /-- No link leads to an empty slot. -/
  present : ∀ id, tree.pool.Reaches tree.root id → (tree.pool.page? id).isSome
  /-- Each page has one place in the tree. -/
  once : ∀ id, (tree.pool.page? id).isSome →
    ∃! path, tree.pool.descend? tree.root path = some id
  tidy : tree.pool.Tidy
  counted : tree.pool.live = Set.ncard {id | ∃ path, tree.pool.descend? tree.root path = some id}
  single : tree.size = 0 → tree.pool.live = 1

section Sound

variable [Ord K] [DecidableEq K] {tree : PageTree K V} {span : Span K V}

theorem Sound.mem_pages_iff (sound : Sound tree span) {id : PageId} :
    id ∈ span.pages ↔ (tree.pool.page? id).isSome :=
  Pool.mem_iff_isSome sound.slots

theorem Sound.mem_pages_of_reaches (sound : Sound tree span) {id : PageId}
    (reached : tree.pool.Reaches tree.root id) : id ∈ span.pages := by
  induction reached with
  | first => exact sound.held.mem_pages
  | @link id other page _ there named inside =>
      rcases sound.held.page_of_mem inside with ⟨member, leaf, found⟩ | ⟨branch, found, children⟩
      · obtain rfl : page = .leaf leaf := by simpa [there] using found
        obtain ⟨toLeft, toRight⟩ := sound.chained.linked.neighbours member there
        rcases List.mem_append.1 named with left | right
        · rcases toLeft other (Option.mem_toList.1 left) with inChain | impossible
          · exact sound.held.leaves_subset inChain
          · cases impossible
        · exact sound.held.leaves_subset (toRight other (Option.mem_toList.1 right))
      · obtain rfl : page = .branch branch := by simpa [there] using found
        exact children other named

theorem Sound.intact (sound : Sound tree span) : Intact tree where
  present id reached := sound.mem_pages_iff.1 (sound.mem_pages_of_reaches reached)
  once id there := by
    obtain ⟨path, leads⟩ := sound.held.exists_path (sound.mem_pages_iff.2 there)
    exact ⟨path, leads, fun path' leads' =>
      sound.held.path_unique sound.counted.nodup leads' leads⟩
  tidy := sound.tidy
  counted := by
    have pages : {id | ∃ path, tree.pool.descend? tree.root path = some id} =
        (span.pages.toFinset : Set PageId) := by
      ext id
      rw [Set.mem_ofPred_eq, List.coe_toFinset, Set.mem_ofPred_eq]
      exact ⟨fun ⟨path, leads⟩ => sound.held.mem_pages_of_descend leads, sound.held.exists_path⟩
    rw [Pool.live_eq_length sound.slots sound.tidy, pages, Set.ncard_coe_finset,
      List.toFinset_card_of_nodup sound.counted.nodup]
  single none := by
    have leaf : tree.levels = 0 := by
      by_contra tall
      have full := sound.held.entries_ne_nil sound.limits
        (Nat.lt_of_lt_of_le Nat.two_pos (sound.twoChildren tall))
      exact full (List.eq_nil_of_length_eq_zero (sound.size.symm.trans none))
    have held := sound.held
    rw [leaf] at held
    rw [Pool.live_eq_length sound.slots sound.tidy, held.2]
    rfl

variable [Std.TransOrd K] [Std.LawfulEqOrd K]

/-- After any calls, each page that a link names is there, each page that is there has one path
from the root, and the other slots are free, each of them once. When the last key is gone, one page
is left. -/
theorem calls_keep_intact {order threshold capacity : Nat} {start : PageTree K V}
    (created : create order threshold capacity = .ok start) (calls : List (Call K V)) :
    ∃ answers tree, performAll start calls = .ok (answers, tree) ∧ Intact tree ∧
      ((∀ key, (replyAll (fun _ => none) calls).2 key = none) → tree.pool.live = 1) := by
  obtain ⟨tree, span, ran, sound, same, -, -⟩ :=
    performAll_spec (sound_create created) (fun _ => none) (fun _ => rfl) calls
  refine ⟨_, tree, ran, sound.intact, fun emptied => sound.intact.single ?_⟩
  rw [sound.size, length_eq_ncard sound.sorted same]
  simp [emptied]

end Sound

/-- Four keys split a leaf, and without them one page is left. -/
theorem four_keys_leave_one_page : ∃ start : PageTree Nat Nat, create 3 1 0 = .ok start ∧
    ∃ answers tree, performAll start
        [.insert 1 1, .insert 2 2, .insert 3 3, .insert 4 4, .remove 2, .remove 1, .remove 4,
          .remove 3] = .ok (answers, tree) ∧ Intact tree ∧ tree.pool.live = 1 := by
  have created : create 3 1 0 = .ok (empty 3 1 (Recent.empty 0) : PageTree Nat Nat) := rfl
  refine ⟨_, created, ?_⟩
  obtain ⟨answers, tree, ran, intact, single⟩ := calls_keep_intact created
    [.insert 1 1, .insert 2 2, .insert 3 3, .insert 4 4, .remove 2, .remove 1, .remove 4, .remove 3]
  refine ⟨answers, tree, ran, intact, single fun key => ?_⟩
  simp only [replyAll, reply, Function.update_apply]
  grind

end PageTree
end Docstore
