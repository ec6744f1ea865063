import Docstore.Proofs.Fallible
import Docstore.Proofs.PageTree.Layout

set_option autoImplicit false

namespace Docstore
namespace PageTree

variable {K V : Type}

theorem least_flatMap {first : Span K V} (rest : List (Span K V)) {key : K}
    (least : first.least = some key) :
    leastOf ((first :: rest).flatMap Span.entries) = some key := by
  unfold Span.least leastOf at least
  simp only [leastOf, List.flatMap_cons, List.head?_append]
  cases found : first.entries.head? with
  | none => simp [found] at least
  | some e => simpa [found] using least

theorem exists_mem_of_least {span : Span K V} {key : K} (least : span.least = some key) :
    ∃ e ∈ span.entries, e.1 = key := by
  obtain ⟨e, found, same⟩ := Option.map_eq_some_iff.1 least
  exact ⟨e, List.mem_of_mem_head? found, same⟩

section Route

variable [Ord K] [Std.TransOrd K]

/-- The child at the owner slot is the only one with entries on both sides of the key, and only
the first child may begin behind it. -/
theorem exists_owner (key : K) {separators : List K} {spans : List (Span K V)}
    (separated : Separated allFresh separators spans)
    (sorted : Ascending (spans.flatMap Span.entries)) :
    ∃ before owner behind, spans = before ++ owner :: behind ∧
      before.length = ownerSlot key separators ∧
      AllBelow key (before.flatMap Span.entries) ∧
      AllAbove key (behind.flatMap Span.entries) ∧
      (before ≠ [] → ∃ least, owner.least = some least ∧ compare key least ≠ .lt) := by
  induction separators generalizing spans with
  | nil =>
      obtain ⟨owner, rfl⟩ := List.length_eq_one_iff.1 separated.1.symm
      exact ⟨[], owner, [], rfl, rfl, by simp [AllBelow], by simp [AllAbove], by simp⟩
  | cons separator separators ih =>
      match spans, separated, sorted with
      | [], separated, _ => exact absurd separated.1 (by simp)
      | [_], separated, _ => exact absurd separated.1 (by simp)
      | first :: second :: rest, separated, sorted =>
        obtain ⟨least, later⟩ := separated_cons_iff.1 separated
        rw [List.flatMap_cons] at sorted
        obtain ⟨e, inside, rfl⟩ := exists_mem_of_least least
        by_cases passed : (compare e.1 key).isLE
        · obtain ⟨before, owner, behind, shape, slot, below, above, ownerLeast⟩ :=
            ih later sorted.right
          refine ⟨first :: before, owner, behind, by rw [shape, List.cons_append], ?_, ?_, above,
            fun _ => ?_⟩
          · simp only [ownerSlot, List.takeWhile_cons, passed, if_true, List.length_cons] at slot ⊢
            omega
          · intro x hx
            rw [List.flatMap_cons] at hx
            rcases List.mem_append.1 hx with hx | hx
            · have member : e ∈ (second :: rest).flatMap Span.entries := by
                rw [List.flatMap_cons]
                exact List.mem_append_left _ inside
              exact Std.TransCmp.lt_of_lt_of_isLE (sorted.across hx member) passed
            · exact below x hx
          · cases before with
            | nil =>
                obtain ⟨rfl, -⟩ := List.cons.inj shape
                refine ⟨e.1, least, fun early => ?_⟩
                exact Std.OrientedCmp.not_isLE_of_lt early passed
            | cons _ _ => exact ownerLeast (List.cons_ne_nil _ _)
        · refine ⟨[], first, second :: rest, rfl, ?_, by simp [AllBelow], ?_, by simp⟩
          · simp [ownerSlot, passed]
          · refine sorted.right.above_least (least_flatMap _ least) ?_
            exact Std.OrientedCmp.lt_of_not_isLE passed

end Route

section Children

variable {α β : Type} {R : α → β → Prop}

theorem forall₂_split {xs : List α} {front : List β} {y : β} {back : List β}
    (related : List.Forall₂ R xs (front ++ y :: back)) :
    ∃ xsFront x xsBack, xs = xsFront ++ x :: xsBack ∧ xsFront.length = front.length ∧
      List.Forall₂ R xsFront front ∧ R x y ∧ List.Forall₂ R xsBack back := by
  induction front generalizing xs with
  | nil =>
      obtain ⟨x, xsBack, head, tail, rfl⟩ := List.forall₂_cons_right_iff.1 related
      exact ⟨[], x, xsBack, rfl, rfl, .nil, head, tail⟩
  | cons z front ih =>
      obtain ⟨w, rest, head, tail, rfl⟩ := List.forall₂_cons_right_iff.1 related
      obtain ⟨xsFront, x, xsBack, rfl, same, all, here, later⟩ := ih tail
      exact ⟨w :: xsFront, x, xsBack, rfl, by simp [same], .cons head all, here, later⟩

theorem forall₂_join {xsFront xsMiddle xsBack : List α} {front middle back : List β}
    (first : List.Forall₂ R xsFront front) (second : List.Forall₂ R xsMiddle middle)
    (third : List.Forall₂ R xsBack back) :
    List.Forall₂ R (xsFront ++ (xsMiddle ++ xsBack)) (front ++ (middle ++ back)) :=
  List.rel_append first (List.rel_append second third)

theorem getElem?_length (front back : List α) (x : α) :
    (front ++ x :: back)[front.length]? = some x := by
  simp

end Children

section Frames

variable {order threshold level : Nat} {first second : Pool K V} {id : PageId}
  {oldPages newPages oldLeaves newLeaves others : List PageId}

theorem Holds.frame {span : Span K V} (held : Holds order threshold first level id span)
    (account : first.Rewrites second oldPages newPages oldLeaves newLeaves)
    (counted : first.Counted (oldPages ++ others)) (inside : span.pages ⊆ others) :
    Holds order threshold second level id span :=
  held.congr fun _ member => account.content?_of_mem counted (inside member)

theorem holds_frame {ids : List PageId} {spans : List (Span K V)}
    (held : List.Forall₂ (Holds order threshold first level) ids spans)
    (account : first.Rewrites second oldPages newPages oldLeaves newLeaves)
    (counted : first.Counted (oldPages ++ others))
    (inside : spans.flatMap Span.pages ⊆ others) :
    List.Forall₂ (Holds order threshold second level) ids spans :=
  forall₂_imp_mem held fun _ span member childHeld =>
    childHeld.frame account counted fun _ page =>
      inside (List.mem_flatMap.2 ⟨span, member, page⟩)

end Frames

section Around

variable {separators : List K} {before behind : List (Span K V)} {old new : Span K V}

/-- A child in place of another keeps the separators if it has the same least key, which matters
only if it is not the first child. -/
theorem Separated.replace {stale : Nat → Prop}
    (separated : Separated stale separators (before ++ old :: behind))
    (least : before ≠ [] → ¬ stale (before.length - 1) → new.least = old.least) :
    Separated stale separators (before ++ new :: behind) := by
  obtain ⟨lengths, keys⟩ := separated
  refine ⟨by simpa using lengths, fun i key found fresh => ?_⟩
  have there := keys i key found fresh
  by_cases here : i + 1 = before.length
  · have nonempty : before ≠ [] := fun empty => by simp [empty] at here
    rw [here, getElem?_length] at there ⊢
    simpa [least nonempty (by rwa [show before.length - 1 = i by omega])] using there
  · rw [List.getElem?_append] at there ⊢
    by_cases early : i + 1 < before.length
    · rwa [if_pos early] at there ⊢
    · rw [if_neg early] at there ⊢
      obtain ⟨j, later⟩ : ∃ j, i + 1 - before.length = j + 1 := ⟨i - before.length, by omega⟩
      rwa [later, List.getElem?_cons_succ] at there ⊢

/-- A child split in two gets the least key of its right half as a new separator. -/
theorem Separated.split {left right : Span K V} {separator : K}
    (separated : Separated allFresh separators (before ++ old :: behind))
    (least : before ≠ [] → left.least = old.least) (between : right.least = some separator) :
    Separated allFresh (separators.insertIdx before.length separator)
      (before ++ left :: right :: behind) := by
  obtain ⟨lengths, keys⟩ := separated.replace fun nonempty _ => least nonempty
  have inside : before.length ≤ separators.length := by simp at lengths; omega
  refine ⟨?_, fun i key found _ => ?_⟩
  · rw [List.length_insertIdx_of_le_length inside]
    simp at lengths ⊢
    omega
  · rw [List.getElem?_insertIdx] at found
    by_cases early : i < before.length
    · rw [if_pos early] at found
      have there := keys i key found id
      rw [List.getElem?_append] at there ⊢
      by_cases earlier : i + 1 < before.length
      · rwa [if_pos earlier] at there ⊢
      · have here : i + 1 - before.length = 0 := by omega
        rw [if_neg earlier, here, List.getElem?_cons_zero] at there ⊢
        exact there
    · rw [if_neg early] at found
      by_cases here : i = before.length
      · rw [if_pos here, if_pos (by omega)] at found
        obtain rfl : separator = key := Option.some.inj found
        have position : (before ++ left :: right :: behind)[i + 1]? = some right := by
          rw [List.getElem?_append_right (by omega), show i + 1 - before.length = 1 by omega]
          rfl
        rw [position]
        exact between
      · rw [if_neg here] at found
        have there := keys (i - 1) key found id
        rw [List.getElem?_append_right (by omega)] at there ⊢
        obtain ⟨j, later⟩ : ∃ j, i - 1 + 1 - before.length = j + 1 :=
          ⟨i - 1 - before.length, by omega⟩
        rw [later, List.getElem?_cons_succ] at there
        rw [show i + 1 - before.length = j + 1 + 1 by omega]
        exact there

end Around

/-- A branch seen from one of its children: the spans and the pages before it and behind it. -/
structure Focus (order threshold level : Nat) (pool : Pool K V) (id : PageId) (branch : Branch K)
    (before : List (Span K V)) (owner : Span K V) (behind : List (Span K V))
    (front : List PageId) (child : PageId) (back : List PageId) : Prop where
  there : pool.content? id = some (.branch branch)
  children : branch.children = front ++ child :: back
  heldBefore : List.Forall₂ (Holds order threshold pool level) front before
  held : Holds order threshold pool level child owner
  heldBehind : List.Forall₂ (Holds order threshold pool level) back behind
  fits : ∀ span ∈ before ++ owner :: behind, span.Fits order threshold level
  separated : Separated allFresh branch.separators (before ++ owner :: behind)

section Focus

variable {order threshold level : Nat} {pool after : Pool K V} {id : PageId} {branch : Branch K}
  {before behind : List (Span K V)} {owner : Span K V} {front back : List PageId} {child : PageId}

/-- A branch comes into focus at the child that owns a key. -/
theorem Holds.focus [Ord K] [Std.TransOrd K] (key : K) {span : Span K V}
    (held : Holds order threshold pool (level + 1) id span) (sorted : Ascending span.entries) :
    ∃ branch before owner behind front child back,
      span = .ofBranch id (before ++ owner :: behind) ∧
      Focus order threshold level pool id branch before owner behind front child back ∧
      before.length = ownerSlot key branch.separators ∧
      AllBelow key (before.flatMap Span.entries) ∧
      AllAbove key (behind.flatMap Span.entries) ∧
      (before ≠ [] → ∃ least, owner.least = some least ∧ compare key least ≠ .lt) := by
  obtain ⟨branch, spans, rfl, there, children, fits, separated⟩ := held
  obtain ⟨before, owner, behind, rfl, slot, below, above, least⟩ :=
    exists_owner key separated sorted
  obtain ⟨front, child, back, ids, -, heldBefore, held, heldBehind⟩ := forall₂_split children
  exact ⟨branch, before, owner, behind, front, child, back, rfl,
    ⟨there, ids, heldBefore, held, heldBehind, fits, separated⟩, slot, below, above, least⟩

theorem Focus.front_length
    (focus : Focus order threshold level pool id branch before owner behind front child back) :
    front.length = before.length :=
  focus.heldBefore.length_eq

theorem Focus.child_at
    (focus : Focus order threshold level pool id branch before owner behind front child back) :
    branch.children[before.length]? = some child := by
  rw [focus.children, ← focus.front_length, getElem?_length]

/-- A branch and its other children are outside an operation on one child. -/
theorem Pool.Counted.around
    (counted : pool.Counted (Span.ofBranch id (before ++ owner :: behind)).pages) :
    pool.Counted (owner.pages ++
      (id :: (before.flatMap Span.pages ++ behind.flatMap Span.pages))) := by
  refine counted.perm ?_
  simp only [Span.ofBranch, List.flatMap_append, List.flatMap_cons]
  refine List.Perm.trans (List.Perm.cons id ?_) List.perm_middle.symm
  rw [← List.append_assoc, ← List.append_assoc]
  exact List.perm_append_comm.append_right _

theorem Pool.Counted.ofOwner
    (counted : pool.Counted (Span.ofBranch id (before ++ owner :: behind)).pages) :
    pool.Counted owner.pages :=
  counted.around.sublist (List.sublist_append_left _ _)

/-- The account of an operation on one child, as an account of the branch. -/
theorem Pool.Rewrites.inBranch {newPages newLeaves : List PageId} (id : PageId)
    (before behind : List (Span K V))
    (account : pool.Rewrites after owner.pages newPages owner.leaves newLeaves) :
    pool.Rewrites after (Span.ofBranch id (before ++ owner :: behind)).pages
      (id :: (before.flatMap Span.pages ++ (newPages ++ behind.flatMap Span.pages)))
      (Span.ofBranch id (before ++ owner :: behind)).leaves
      (before.flatMap Span.leaves ++ (newLeaves ++ behind.flatMap Span.leaves)) := by
  have extended := account.extend (id :: before.flatMap Span.pages) (behind.flatMap Span.pages)
    (before.flatMap Span.leaves) (behind.flatMap Span.leaves)
  simpa only [Span.ofBranch, List.flatMap_append, List.flatMap_cons, List.cons_append]
    using extended

/-- An operation on the child in focus leaves the branch and its other children. -/
theorem Focus.surroundings {newPages newLeaves : List PageId}
    (focus : Focus order threshold level pool id branch before owner behind front child back)
    (counted : pool.Counted (Span.ofBranch id (before ++ owner :: behind)).pages)
    (account : pool.Rewrites after owner.pages newPages owner.leaves newLeaves) :
    after.content? id = some (.branch branch) ∧
      List.Forall₂ (Holds order threshold after level) front before ∧
      List.Forall₂ (Holds order threshold after level) back behind ∧
      after.Counted (id :: (before.flatMap Span.pages ++
        (newPages ++ behind.flatMap Span.pages))) := by
  refine ⟨?_, ?_, ?_, counted.rewrites (account.inBranch id before behind)⟩
  · rw [account.content?_of_mem counted.around List.mem_cons_self, focus.there]
  · refine holds_frame focus.heldBefore account counted.around fun page member => ?_
    exact List.mem_cons_of_mem _ (List.mem_append_left _ member)
  · refine holds_frame focus.heldBehind account counted.around fun page member => ?_
    exact List.mem_cons_of_mem _ (List.mem_append_right _ member)

end Focus

theorem Pool.rewrites_write_top {pool : Pool K V} {id : PageId} {old : Branch K} (new : Branch K)
    (there : pool.page? id = some (.branch old)) (pages leaves : List PageId) :
    pool.Rewrites (pool.write id (.branch new)) (id :: pages) (id :: pages) leaves leaves := by
  have extended := (rewrites_write_branch new there leaves).extend [] pages [] []
  simpa only [List.nil_append, List.append_nil, List.singleton_append] using extended

theorem insertIdx_append_cons {α : Type} (front back : List α) (x y : α) :
    (front ++ x :: back).insertIdx (front.length + 1) y = front ++ x :: y :: back := by
  induction front with
  | nil => rfl
  | cons z front ih => simp only [List.cons_append, List.length_cons, List.insertIdx_succ_cons, ih]

end PageTree
end Docstore
