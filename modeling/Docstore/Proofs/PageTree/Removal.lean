import Docstore.Proofs.PageTree.Insertion
import Docstore.Proofs.PageTree.Rebalance

set_option autoImplicit false

namespace Docstore
namespace PageTree

variable {K V : Type} {order threshold level : Nat} {pool after : Pool K V} {id : PageId}

/-- A sibling gives what it can spare, and siblings that can spare nothing are joined. -/
theorem remedy_cases (size : Nat) (left right : Option (Nat × Nat)) :
    (∃ l, left = some l ∧ 0 < l.2 ∧ remedy size left right = .fromLeft (fairMoves size l.1)) ∨
    (∃ r, right = some r ∧ 0 < r.2 ∧ remedy size left right = .fromRight (fairMoves size r.1)) ∨
    (∃ l, left = some l ∧ l.2 = 0 ∧ remedy size left right = .mergeLeft) ∨
    (∃ r, left = none ∧ right = some r ∧ r.2 = 0 ∧ remedy size left right = .mergeRight) ∨
    (left = none ∧ right = none) := by
  cases left with
  | none =>
      cases right with
      | none => exact .inr (.inr (.inr (.inr ⟨rfl, rfl⟩)))
      | some r =>
          by_cases spare : 0 < r.2
          · exact .inr (.inl ⟨r, rfl, spare, by simp [remedy, spare]⟩)
          · exact .inr (.inr (.inr (.inl ⟨r, rfl, rfl, by omega, by simp [remedy, spare]⟩)))
  | some l =>
      cases right with
      | none =>
          by_cases spare : 0 < l.2
          · exact .inl ⟨l, rfl, spare, by simp [remedy, spare]⟩
          · exact .inr (.inr (.inl ⟨l, rfl, by omega, by simp [remedy, spare]⟩))
      | some r =>
          by_cases more : 0 < l.2 ∧ r.2 ≤ l.2
          · exact .inl ⟨l, rfl, more.1, by simp [remedy, more]⟩
          · by_cases spare : 0 < r.2
            · exact .inr (.inl ⟨r, rfl, spare, by simp [remedy, more, spare]⟩)
            · exact .inr (.inr (.inl ⟨l, rfl, by omega, by simp [remedy, more, spare]⟩))

def Span.spare (threshold level : Nat) (span : Span K V) : Nat × Nat :=
  (span.size, span.size - leastSize threshold level)

theorem surplusAt_spec {children : List PageId} {spans : List (Span K V)}
    (held : List.Forall₂ (Holds order threshold pool level) children spans) (slot : Nat) :
    surplusAt threshold pool children slot =
      .ok (spans[slot]?.map (Span.spare threshold level)) := by
  by_cases inside : slot < children.length
  · have inside' : slot < spans.length := by rw [← held.length_eq]; exact inside
    obtain ⟨page, found, size, least⟩ := (List.Forall₂.get held inside inside').page
    rw [List.get_eq_getElem] at found size
    simp only [surplusAt, List.getElem?_eq_getElem inside, surplus, Pool.page_eq_ok found, ok_bind,
      List.getElem?_eq_getElem inside', size, least]
    rfl
  · have outside : spans.length ≤ slot := by rw [← held.length_eq]; omega
    simp only [surplusAt, List.getElem?_eq_none (Nat.not_lt.1 inside),
      List.getElem?_eq_none outside]
    rfl

section Rebalancing

variable {before behind : List (Span K V)} {owner : Span K V} {branch : Branch K}
  {front back : List PageId}

/-- A child and its siblings, as far as there are any, decide what is done. -/
theorem rebalance_eq {stale : Nat → Prop}
    (middle : Middle order threshold level pool id (before ++ owner :: behind) stale branch) :
    rebalance threshold pool id before.length =
      (match remedy owner.size (before.getLast?.map (Span.spare threshold level))
          (behind.head?.map (Span.spare threshold level)) with
        | .fromLeft moves => share pool id (before.length - 1)
            (((before.getLast?.map (Span.spare threshold level)).map Prod.fst).getD 0 - moves)
        | .fromRight moves => share pool id before.length (owner.size + moves)
        | .mergeLeft => merge pool id (before.length - 1)
        | .mergeRight => merge pool id before.length
        | .nothing => rebalance threshold pool id before.length) := by
  obtain ⟨front, child, back, children, lengths, -, held, -⟩ := forall₂_split middle.children
  have childAt : branch.children[before.length]? = some child := by
    rw [children, ← lengths, getElem?_length]
  obtain ⟨page, found, size, -⟩ := held.page
  have rightSpare : surplusAt threshold pool branch.children (before.length + 1) =
      .ok (behind.head?.map (Span.spare threshold level)) := by
    rw [surplusAt_spec middle.children, List.getElem?_append_right (by omega),
      show before.length + 1 - before.length = 1 by omega, List.getElem?_cons_succ,
      List.head?_eq_getElem?]
  cases choice : remedy owner.size (before.getLast?.map (Span.spare threshold level))
      (behind.head?.map (Span.spare threshold level)) with
  | nothing => rfl
  | _ =>
      simp only [rebalance, Pool.branch_eq_ok middle.there, ok_bind, childAt,
        Pool.page_eq_ok found, size, rightSpare]
      by_cases none : before.length = 0
      · obtain rfl := List.length_eq_zero_iff.1 none
        simp only [List.getLast?_nil, Option.map_none] at choice
        simp only [List.length_nil, if_true, choice, List.getLast?_nil, Option.map_none]
      · have leftSpare : surplusAt threshold pool branch.children (before.length - 1) =
            .ok (before.getLast?.map (Span.spare threshold level)) := by
          rw [surplusAt_spec middle.children, List.getElem?_append_left (by omega),
            List.getLast?_eq_getElem?]
        simp only [if_neg none, leftSpare, ok_bind, choice]

/-- The separators that a remedy for the child at a slot may leave stale. -/
def Near (slot : Nat) (i : Nat) : Prop :=
  slot ≤ i + 2 ∧ i ≤ slot

/-- What a remedy achieves: all children are within the limits, with one child less at most. -/
structure Mended (order threshold level : Nat) (before after : Pool K V) (id : PageId)
    (olds news : List (Span K V)) (slot : Nat) : Prop where
  reshaped : Reshaped order threshold level before after id olds news (Near slot)
  fits : ∀ span ∈ news, span.Fits order threshold level
  atMost : news.length ≤ olds.length
  atLeast : olds.length ≤ news.length + 1

section Remedies

variable {fronts backs : List (Span K V)} {left right : Span K V} {stale : Nat → Prop}
  {slot : Nat}

/-- Sharing between two neighbours so that both get enough. -/
theorem share_mends (limits : Limits order threshold)
    (middle : Middle order threshold level pool id (fronts ++ left :: right :: backs) stale branch)
    (fitsFronts : ∀ span ∈ fronts, span.Fits order threshold level)
    (fitsBacks : ∀ span ∈ backs, span.Fits order threshold level) (count : Nat)
    (enough : leastSize threshold level ≤ count ∧ count ≤ order)
    (enough' : leastSize threshold level + count ≤ left.size + right.size ∧
      left.size + right.size ≤ count + order)
    (inner : level ≠ 0 → ¬ stale fronts.length ∧ 0 < right.size)
    (near : ∀ i, stale i ∨ (fronts.length ≤ i + 1 ∧ i + 1 < fronts.length + 2) → Near slot i) :
    ∃ after news, share pool id fronts.length count = .ok after ∧
      Mended order threshold level pool after id (fronts ++ left :: right :: backs) news slot := by
  have positive := leastSize_pos limits level
  obtain ⟨after, left', right', ran, reshaped, sizeLeft, sizeRight⟩ := share_spec limits middle
    (Near slot) count (by omega) (by omega) inner near
  refine ⟨after, _, ran, reshaped, fits_around [left', right'] fitsFronts fitsBacks ?_,
    by simp, by simp⟩
  intro span member
  rcases List.mem_pair.1 member with rfl | rfl
  · exact ⟨by omega, by omega⟩
  · exact ⟨by omega, by omega⟩

theorem merge_mends (limits : Limits order threshold)
    (middle : Middle order threshold level pool id (fronts ++ left :: right :: backs) stale branch)
    (fitsFronts : ∀ span ∈ fronts, span.Fits order threshold level)
    (fitsBacks : ∀ span ∈ backs, span.Fits order threshold level)
    (enough : leastSize threshold level ≤ left.size + right.size ∧ left.size + right.size ≤ order)
    (inner : level ≠ 0 → ¬ stale fronts.length ∧ 0 < right.size)
    (chain : pool.Chained
      (front ++ ((fronts ++ left :: right :: backs).flatMap Span.leaves ++ back)))
    (near : ∀ i, i + 1 = fronts.length ∨ (i + 1 < fronts.length ∧ stale i) ∨
      (fronts.length ≤ i ∧ stale (i + 1)) → Near slot i) :
    ∃ after news, merge pool id fronts.length = .ok after ∧
      Mended order threshold level pool after id (fronts ++ left :: right :: backs) news slot := by
  obtain ⟨after, joined, ran, reshaped, size⟩ := merge_spec limits middle (Near slot) inner chain
    near
  refine ⟨after, _, ran, reshaped, fits_around [joined] fitsFronts fitsBacks ?_,
    by simp, by simp [Nat.add_assoc]⟩
  intro span member
  obtain rfl := List.mem_singleton.1 member
  exact ⟨by omega, by omega⟩

end Remedies

/-- Two joined pages of which one is too small and the other can spare nothing fit one page. -/
theorem leastSize_le (limits : Limits order threshold) (level : Nat) :
    1 ≤ leastSize threshold level ∧ 2 * leastSize threshold level ≤ order + 1 := by
  obtain ⟨three, positive, half⟩ := limits
  cases level with
  | zero => simp only [leastSize]; omega
  | succ level => simp only [leastSize]; omega

theorem leastSize_inner (threshold : Nat) {level : Nat} (inner : level ≠ 0) :
    2 ≤ leastSize threshold level := by
  obtain ⟨level, rfl⟩ := Nat.exists_eq_succ_of_ne_zero inner
  simp only [leastSize]
  omega

/-- A branch over a child that is one short, between siblings that are within the limits. Only the
separator before the child may be stale, and only if the child is empty. -/
structure Short (order threshold level : Nat) (pool : Pool K V) (id : PageId)
    (before : List (Span K V)) (owner : Span K V) (behind : List (Span K V)) (branch : Branch K) :
    Prop where
  middle : Middle order threshold level pool id (before ++ owner :: behind)
    (fun i => i + 1 = before.length ∧ owner.least = none) branch
  fitsBefore : ∀ span ∈ before, span.Fits order threshold level
  fitsBehind : ∀ span ∈ behind, span.Fits order threshold level
  size : owner.size + 1 = leastSize threshold level

namespace Short

variable {fronts backs : List (Span K V)} {left right : Span K V}

/-- A branch that is one short still has a child, so no separator of branches is stale. -/
theorem inner (limits : Limits order threshold)
    (short : Short order threshold level pool id before owner behind branch) (notLeaf : level ≠ 0) :
    owner.least ≠ none ∧ 0 < owner.size := by
  have two := leastSize_inner threshold notLeaf
  have size := short.size
  obtain ⟨front, child, back, -, -, -, held, -⟩ := forall₂_split short.middle.children
  have full := held.entries_ne_nil limits (by omega)
  obtain ⟨e, rest, found⟩ := List.exists_cons_of_ne_nil full
  exact ⟨by simp [Span.least, leastOf, found], by omega⟩

theorem share_left (limits : Limits order threshold)
    (short : Short order threshold level pool id (fronts ++ [left]) owner behind branch)
    (spare : 0 < left.size - leastSize threshold level) :
    ∃ after news, share pool id fronts.length (left.size - fairMoves owner.size left.size) =
        .ok after ∧
      Mended order threshold level pool after id ((fronts ++ [left]) ++ owner :: behind) news
        (fronts.length + 1) := by
  obtain ⟨-, least⟩ := leastSize_le limits level
  have inner := short.inner limits
  obtain ⟨middle, fitsBefore, fitsBehind, size⟩ := short
  obtain ⟨enough, few⟩ := fitsBefore left (by simp)
  simp only [List.append_assoc, List.singleton_append, List.length_append,
    List.length_singleton] at middle ⊢
  unfold fairMoves
  exact share_mends limits middle
    (fun span member => fitsBefore span (List.mem_append_left _ member)) fitsBehind _
    (by omega) (by omega) (fun notLeaf => ⟨fun s => (inner notLeaf).1 s.2, (inner notLeaf).2⟩)
    (fun i s => by simp only [Near]; omega)

theorem share_right (limits : Limits order threshold)
    (short : Short order threshold level pool id before owner (right :: backs) branch)
    (spare : 0 < right.size - leastSize threshold level) :
    ∃ after news, share pool id before.length (owner.size + fairMoves owner.size right.size) =
        .ok after ∧
      Mended order threshold level pool after id (before ++ owner :: right :: backs) news
        before.length := by
  obtain ⟨-, least⟩ := leastSize_le limits level
  have inner := short.inner limits
  obtain ⟨middle, fitsBefore, fitsBehind, size⟩ := short
  obtain ⟨enough, few⟩ := fitsBehind right List.mem_cons_self
  unfold fairMoves
  exact share_mends limits middle fitsBefore
    (fun span member => fitsBehind span (List.mem_cons_of_mem _ member)) _ (by omega) (by omega)
    (fun notLeaf => ⟨fun s => (inner notLeaf).1 s.2, by omega⟩)
    (fun i s => by simp only [Near]; omega)

theorem merge_left (limits : Limits order threshold)
    (short : Short order threshold level pool id (fronts ++ [left]) owner behind branch)
    (bare : left.size - leastSize threshold level = 0)
    (chain : pool.Chained
      (front ++ (((fronts ++ [left]) ++ owner :: behind).flatMap Span.leaves ++ back))) :
    ∃ after news, merge pool id fronts.length = .ok after ∧
      Mended order threshold level pool after id ((fronts ++ [left]) ++ owner :: behind) news
        (fronts.length + 1) := by
  obtain ⟨one, least⟩ := leastSize_le limits level
  have inner := short.inner limits
  obtain ⟨middle, fitsBefore, fitsBehind, size⟩ := short
  obtain ⟨enough, few⟩ := fitsBefore left (by simp)
  simp only [List.append_assoc, List.singleton_append, List.length_append,
    List.length_singleton] at middle chain ⊢
  exact merge_mends limits middle
    (fun span member => fitsBefore span (List.mem_append_left _ member)) fitsBehind (by omega)
    (fun notLeaf => ⟨fun s => (inner notLeaf).1 s.2, (inner notLeaf).2⟩) chain
    (fun i s => by simp only [Near]; omega)

theorem merge_right (limits : Limits order threshold)
    (short : Short order threshold level pool id [] owner (right :: backs) branch)
    (bare : right.size - leastSize threshold level = 0)
    (chain : pool.Chained (front ++ ((owner :: right :: backs).flatMap Span.leaves ++ back))) :
    ∃ after news, merge pool id 0 = .ok after ∧
      Mended order threshold level pool after id (owner :: right :: backs) news 0 := by
  obtain ⟨one, least⟩ := leastSize_le limits level
  have inner := short.inner limits
  obtain ⟨middle, fitsBefore, fitsBehind, size⟩ := short
  obtain ⟨enough, few⟩ := fitsBehind right List.mem_cons_self
  exact merge_mends limits middle fitsBefore
    (fun span member => fitsBehind span (List.mem_cons_of_mem _ member)) (by omega)
    (fun notLeaf => ⟨fun s => (inner notLeaf).1 s.2, by omega⟩) chain
    (fun i s => by simp only [Near, List.length_nil] at s ⊢; omega)

end Short

/-- Rebalancing a child that is one short brings all children within the limits. -/
theorem rebalance_spec (limits : Limits order threshold)
    (short : Short order threshold level pool id before owner behind branch)
    (siblings : 2 ≤ (before ++ owner :: behind).length)
    (chain : pool.Chained
      (front ++ ((before ++ owner :: behind).flatMap Span.leaves ++ back))) :
    ∃ after news, rebalance threshold pool id before.length = .ok after ∧
      Mended order threshold level pool after id (before ++ owner :: behind) news
        before.length := by
  have unfolded := rebalance_eq short.middle
  rcases remedy_cases owner.size (before.getLast?.map (Span.spare threshold level))
    (behind.head?.map (Span.spare threshold level)) with
    ⟨l, found, spare, choice⟩ | ⟨r, found, spare, choice⟩ | ⟨l, found, bare, choice⟩ |
      ⟨r, first, found, bare, choice⟩ | ⟨first, last⟩
  · obtain ⟨left, last, rfl⟩ := Option.map_eq_some_iff.1 found
    obtain ⟨fronts, rfl⟩ := List.getLast?_eq_some_iff.1 last
    rw [choice, found] at unfolded
    simp only [Span.spare, List.length_append, List.length_singleton, Nat.add_sub_cancel,
      Option.map_some, Option.getD_some] at unfolded
    rw [List.length_append, List.length_singleton, unfolded]
    exact short.share_left limits spare
  · obtain ⟨right, head, rfl⟩ := Option.map_eq_some_iff.1 found
    obtain ⟨backs, rfl⟩ := List.head?_eq_some_iff.1 head
    rw [choice] at unfolded
    rw [unfolded]
    exact short.share_right limits spare
  · obtain ⟨left, last, rfl⟩ := Option.map_eq_some_iff.1 found
    obtain ⟨fronts, rfl⟩ := List.getLast?_eq_some_iff.1 last
    rw [choice] at unfolded
    simp only [List.length_append, List.length_singleton, Nat.add_sub_cancel] at unfolded
    rw [List.length_append, List.length_singleton, unfolded]
    exact short.merge_left limits bare chain
  · obtain ⟨right, head, rfl⟩ := Option.map_eq_some_iff.1 found
    obtain ⟨backs, rfl⟩ := List.head?_eq_some_iff.1 head
    obtain rfl : before = [] := by simpa using first
    rw [choice] at unfolded
    rw [unfolded]
    exact short.merge_right limits bare chain
  · obtain rfl : before = [] := by simpa using first
    obtain rfl : behind = [] := by simpa using last
    exact absurd siblings (by simp)

end Rebalancing

/-- What a removal makes of the page that it was given. -/
structure Shrunk (order threshold level : Nat) (before after : Pool K V) (id : PageId)
    (span rest : Span K V) (entries : List (K × V)) : Prop where
  held : Holds order threshold after level id rest
  same : rest.entries = entries
  atLeast : span.size ≤ rest.size + 1
  atMost : rest.size ≤ span.size
  account : before.Rewrites after span.pages rest.pages span.leaves rest.leaves

section Below

variable {before behind : List (Span K V)} {owner rest : Span K V} {branch : Branch K}
  {front back ids idsBehind : List PageId} {child : PageId}

/-- A branch above a child that lost an entry. Only the separator before that child may be stale. -/
theorem Shrunk.middle {entries : List (K × V)}
    (focus : Focus order threshold level pool id branch before owner behind ids child idsBehind)
    (counted : pool.Counted (Span.ofBranch id (before ++ owner :: behind)).pages)
    (shrunk : Shrunk order threshold level pool after child owner rest entries) :
    Middle order threshold level after id (before ++ rest :: behind)
        (fun i => i + 1 = before.length) branch ∧
      pool.Rewrites after (Span.ofBranch id (before ++ owner :: behind)).pages
        (Span.ofBranch id (before ++ rest :: behind)).pages
        (Span.ofBranch id (before ++ owner :: behind)).leaves
        (Span.ofBranch id (before ++ rest :: behind)).leaves := by
  obtain ⟨there, heldBefore, heldBehind, counted'⟩ := focus.surroundings counted shrunk.account
  have extended := shrunk.account.inBranch id before behind
  refine ⟨⟨Pool.branch_of_content? there, ?_, ?_, ?_⟩, ?_⟩
  · rw [focus.children]
    exact List.rel_append heldBefore (.cons shrunk.held heldBehind)
  · have loose : Separated (fun i => i + 1 = before.length) branch.separators
        (before ++ owner :: behind) := focus.separated.mono (by simp [allFresh])
    refine loose.replace fun nonempty fresh => ?_
    have positive := List.length_pos_iff.2 nonempty
    exact absurd (by omega) fresh
  · simpa only [List.flatMap_append, List.flatMap_cons] using counted'
  · simpa only [Span.ofBranch, List.flatMap_append, List.flatMap_cons] using extended

theorem near_refreshed {slot count i : Nat} (near : Near slot i) (inside : i + 1 < count) :
    i + 1 ∈ List.range' (slot - 1) (min (slot + 1) (count - 1) + 1 - (slot - 1)) := by
  rw [List.mem_range'_1]
  simp only [Near] at near
  omega

theorem refreshed_inside {slot count i : Nat} (positive : 0 < count)
    (member : i ∈ List.range' (slot - 1) (min (slot + 1) (count - 1) + 1 - (slot - 1))) :
    i < count := by
  rw [List.mem_range'_1] at member
  omega

/-- Once the separators near the slot are refreshed, none is stale. -/
theorem Mended.refreshed (limits : Limits order threshold) {olds news : List (Span K V)}
    {slot : Nat} (mended : Mended order threshold level pool after id olds news slot)
    (many : 2 ≤ olds.length) :
    ∃ branch final, after.page? id = some (.branch branch) ∧
      (List.range' (slot - 1) (min (slot + 1) (branch.children.length - 1) + 1 - (slot - 1))).foldlM
        (refreshSeparator level id) after = .ok final ∧
      Holds order threshold final (level + 1) id (.ofBranch id news) ∧
      pool.Rewrites final (Span.ofBranch id olds).pages (Span.ofBranch id news).pages
        (Span.ofBranch id olds).leaves (Span.ofBranch id news).leaves := by
  obtain ⟨⟨⟨branch, middle⟩, -, account⟩, fits, -, atLeast⟩ := mended
  have count : branch.children.length = news.length := middle.children.length_eq
  obtain ⟨final, ran, ⟨refreshed, middle'⟩, -, account'⟩ := middle.refreshAll limits fits
    (List.range' (slot - 1) (min (slot + 1) (branch.children.length - 1) + 1 - (slot - 1)))
    fun i member => refreshed_inside (by omega) (by rwa [count] at member)
  refine ⟨branch, final, middle.there, ran, ?_, account.trans account'⟩
  refine middle'.holds fits fun i inside ⟨near, outside⟩ => outside ?_
  rw [count]
  exact near_refreshed near inside

/-- A child that lost an entry is within the limits still, or one short of them. -/
theorem fits_or_short {stale : Nat → Prop}
    (middle : Middle order threshold level pool id (before ++ rest :: behind) stale branch)
    (stales : ∀ i, stale i → i + 1 = before.length ∧ rest.least = none)
    (fits : ∀ span ∈ before ++ owner :: behind, span.Fits order threshold level)
    (atLeast : owner.size ≤ rest.size + 1) (atMost : rest.size ≤ owner.size) :
    rest.Fits order threshold level ∨ rest.size < leastSize threshold level ∧
      Short order threshold level pool id before rest behind branch := by
  obtain ⟨fewest, most⟩ := fits owner (by simp)
  by_cases enough : leastSize threshold level ≤ rest.size
  · exact .inl ⟨enough, by omega⟩
  · refine .inr ⟨by omega, ⟨middle.there, middle.children, middle.separated.mono stales,
      middle.counted⟩, ?_, ?_, by omega⟩
    · exact fun span member => fits span (List.mem_append_left _ member)
    · exact fun span member =>
        fits span (List.mem_append_right _ (List.mem_cons_of_mem _ member))

variable [Ord K]

/-- What a removal does above a child that lost an entry. -/
theorem removeAt_eq {key : K} {slot : Nat} {pool' pool₁ : Pool K V} {page : Page K V}
    (there : pool.branch id = .ok branch) (place : ownerSlot key branch.separators = slot)
    (childAt : branch.children[slot]? = some child)
    (ran : removeAt threshold key level pool child = .ok (true, pool'))
    (refreshed : refreshSeparator level id pool' slot = .ok pool₁)
    (found : pool₁.page? child = some page) :
    removeAt threshold key (level + 1) pool id =
      if page.size < page.minSize threshold then do
        let pool ← rebalance threshold pool₁ id slot
        let last := (← pool.branch id).children.length - 1
        let slots := List.range' (slot - 1) (min (slot + 1) last + 1 - (slot - 1))
        let pool ← slots.foldlM (refreshSeparator level id) pool
        return (true, pool)
      else .ok (true, pool₁) := by
  simp only [removeAt, there, ok_bind, place, childAt, ran, Bool.not_true, Bool.false_eq_true,
    if_false, refreshed, underflows, Pool.page_eq_ok found, pure_eq_ok, decide_eq_true_eq]

/-- Removal from a child and what follows it, at a branch with two children or more. -/
theorem removeAt_branch (limits : Limits order threshold) (key : K) {pool' : Pool K V}
    {entries : List (K × V)}
    (focus : Focus order threshold level pool id branch before owner behind ids child idsBehind)
    (slot : before.length = ownerSlot key branch.separators)
    (counted : pool.Counted (Span.ofBranch id (before ++ owner :: behind)).pages)
    (siblings : 2 ≤ (before ++ owner :: behind).length)
    (chain : pool.Chained
      (front ++ ((Span.ofBranch id (before ++ owner :: behind)).leaves ++ back)))
    (ran : removeAt threshold key level pool child = .ok (true, pool'))
    (shrunk : Shrunk order threshold level pool pool' child owner rest entries) :
    ∃ final left, removeAt threshold key (level + 1) pool id = .ok (true, final) ∧
      Shrunk order threshold (level + 1) pool final id
        (.ofBranch id (before ++ owner :: behind)) left
        (before.flatMap Span.entries ++ (entries ++ behind.flatMap Span.entries)) := by
  obtain ⟨middle, account⟩ := shrunk.middle focus counted
  obtain ⟨pool₁, branch₁, ran₁, children₁, middle₁, account₁⟩ := middle.refresh limits
    (getElem?_length before behind rest) (by
      by_cases leaf : level = 0
      · exact .inl leaf
      · have two := leastSize_inner threshold leaf
        have atLeast := shrunk.atLeast
        have fewest := (focus.fits owner (by simp)).1
        exact .inr (by omega))
  have childAt : branch₁.children[before.length]? = some child := by
    rw [children₁, focus.child_at]
  obtain ⟨ids₁, child₁, behind₁, parts, lengths, -, held₁, -⟩ := forall₂_split middle₁.children
  obtain rfl : child₁ = child := by
    rw [parts, ← lengths, getElem?_length] at childAt
    exact Option.some.inj childAt
  obtain ⟨page, found, size, least⟩ := held₁.page
  have unfolded := removeAt_eq (Pool.branch_eq_ok (Pool.branch_of_content? focus.there)) slot.symm
    focus.child_at ran ran₁ found
  have upTo := account.trans account₁
  have entriesOf : (before ++ rest :: behind).flatMap Span.entries =
      before.flatMap Span.entries ++ (entries ++ behind.flatMap Span.entries) := by
    simp only [List.flatMap_append, List.flatMap_cons, shrunk.same]
  obtain fitsRest | ⟨small, short⟩ :=
    fits_or_short middle₁ (fun i both => ⟨both.1, both.2 both.1⟩) focus.fits shrunk.atLeast
      shrunk.atMost
  · obtain ⟨key, full⟩ := fitsRest.least_isSome limits held₁
    have enough : ¬ page.size < page.minSize threshold := by
      rw [size, least]
      exact Nat.not_lt.2 fitsRest.1
    rw [unfolded, if_neg enough]
    refine ⟨pool₁, .ofBranch id (before ++ rest :: behind), rfl, ?_, entriesOf, ?_, ?_, upTo⟩
    · refine middle₁.holds (fits_replace [rest] focus.fits fun span member => ?_)
        fun i _ both => ?_
      · obtain rfl := List.mem_singleton.1 member
        exact fitsRest
      · have empty := both.2 both.1
        rw [full] at empty
        cases empty
    · simp [Span.ofBranch]
    · simp [Span.ofBranch]
  · obtain ⟨pool₂, news, ran₂, mended⟩ :=
      rebalance_spec limits short (by simpa using siblings) (upTo.chained front back chain)
    obtain ⟨branch₂, final, there₂, ran₃, held, account₂⟩ :=
      mended.refreshed limits (by simpa using siblings)
    rw [unfolded, if_pos (by rw [size, least]; exact small)]
    refine ⟨final, .ofBranch id news, ?_, held, mended.reshaped.entries.trans entriesOf, ?_, ?_,
      upTo.trans account₂⟩
    · simp only [ran₂, ok_bind, Pool.branch_eq_ok there₂, ran₃, pure_eq_ok]
    · simpa [Span.ofBranch] using mended.atLeast
    · simpa [Span.ofBranch] using mended.atMost

end Below

section Descent

variable [Ord K] [Std.TransOrd K]

theorem removeAt_spec (limits : Limits order threshold) (key : K) :
    ∀ (level : Nat) (pool : Pool K V) (id : PageId) (span : Span K V) (front back : List PageId),
      Holds order threshold pool level id span → Ascending span.entries →
      (level ≠ 0 → 2 ≤ span.size) → pool.Counted span.pages →
      pool.Chained (front ++ (span.leaves ++ back)) →
      ∃ after rest, removeAt threshold key level pool id =
          .ok ((eraseEntry key span.entries).2, after) ∧
        Shrunk order threshold level pool after id span rest (eraseEntry key span.entries).1 ∧
        ((eraseEntry key span.entries).2 = false → after = pool ∧ rest = span) := by
  intro level
  induction level with
  | zero =>
      intro pool id span front back held _ _ _ _
      obtain ⟨there, shape⟩ := held
      obtain ⟨leaf, found, entries⟩ := Pool.leaf_of_content? there
      have length := length_eraseEntry key span.entries
      have size : span.size = span.entries.length := by rw [shape]; rfl
      cases wasThere : (eraseEntry key span.entries).2 with
      | false =>
          refine ⟨pool, span, ?_, ⟨⟨there, shape⟩, (eraseEntry_absent wasThere).symm, by omega,
            Nat.le_refl _, .refl _ _ _⟩, fun _ => ⟨rfl, rfl⟩⟩
          simp [removeAt, Pool.leaf_eq_ok found, entries, wasThere]
      | true =>
          rw [wasThere, if_pos rfl] at length
          refine ⟨pool.write id (.leaf { leaf with entries := (eraseEntry key span.entries).1 }),
            .ofLeaf id (eraseEntry key span.entries).1, ?_, ⟨.of_leaf ?_, rfl, ?_, ?_, ?_⟩, by simp⟩
          · simp [removeAt, Pool.leaf_eq_ok found, entries, wasThere]
          · rw [Pool.content?_of_page? (Pool.page?_write_self _ found)]
            rfl
          · rw [size]
            exact Nat.le_of_eq length.symm
          · simp only [size, Span.ofLeaf]
            omega
          · rw [shape]
            exact Pool.rewrites_write_entries _ found [id]
  | succ level ih =>
      intro pool id span front back held sorted many counted chain
      obtain ⟨branch, before, owner, behind, ids, child, idsBehind, rfl, focus, slot, below, above,
        -⟩ := held.focus key sorted
      rw [Span.entries_ofBranch_around] at sorted ⊢
      have fitsOwner := (focus.fits owner (by simp)).1
      obtain ⟨pool', rest, ran, shrunk, unchanged⟩ := ih pool child owner _ _ focus.held
        sorted.right.left (fun inner => Nat.le_trans (leastSize_inner threshold inner) fitsOwner)
        counted.ofOwner (by rwa [Span.leaves_ofBranch_around] at chain)
      rw [eraseEntry_between key owner.entries below above]
      cases wasThere : (eraseEntry key owner.entries).2 with
      | false =>
          obtain ⟨rfl, rfl⟩ := unchanged wasThere
          refine ⟨_, _, ?_, ⟨held, ?_, by omega, Nat.le_refl _, .refl _ _ _⟩, fun _ => ⟨rfl, rfl⟩⟩
          · simp [removeAt, Pool.branch_eq_ok (Pool.branch_of_content? focus.there), ← slot,
              focus.child_at, ran, wasThere]
          · rw [Span.entries_ofBranch_around, eraseEntry_absent wasThere]
      | true =>
          rw [wasThere] at ran
          obtain ⟨final, left, ran', shrunk'⟩ := removeAt_branch limits key focus slot counted
            (many (Nat.succ_ne_zero level)) chain ran shrunk
          exact ⟨final, left, ran', shrunk', by simp⟩

end Descent

theorem collapse_stays {span : Span K V} (held : Holds order threshold pool level id span)
    (many : level ≠ 0 → 2 ≤ span.size) : collapse level pool id = .ok (level, pool, id) := by
  cases level with
  | zero => rfl
  | succ level =>
      obtain ⟨⟨children, separators⟩, spans, rfl, there, held, -, -⟩ := held
      have length : children.length = spans.length := held.length_eq
      have two : 2 ≤ spans.length := many (Nat.succ_ne_zero level)
      match children, length with
      | [], length => exact absurd length (by simp; omega)
      | [_], length => exact absurd length (by simp; omega)
      | first :: second :: rest, _ =>
          simp only [collapse, Pool.branch_eq_ok (Pool.branch_of_content? there), ok_bind]
          rfl

/-- A root with one child gives way to it, and that child has two children or is a leaf. -/
theorem collapse_spec {span : Span K V}
    (held : Holds order threshold pool level id span) (full : level ≠ 0 → 1 ≤ span.size)
    (atMost : span.size ≤ order) (counted : pool.Counted span.pages) :
    ∃ level' after root span', collapse level pool id = .ok (level', after, root) ∧
      Holds order threshold after level' root span' ∧ span'.entries = span.entries ∧
      (level' ≠ 0 → 2 ≤ span'.size) ∧ span'.size ≤ order ∧
      pool.Rewrites after span.pages span'.pages span.leaves span'.leaves := by
  by_cases many : level ≠ 0 → 2 ≤ span.size
  · exact ⟨level, pool, id, span, collapse_stays held many, held, rfl, many, atMost, .refl _ _ _⟩
  · obtain ⟨inner, few⟩ := Classical.not_imp.1 many
    have one := full inner
    obtain ⟨level, rfl⟩ := Nat.exists_eq_succ_of_ne_zero inner
    obtain ⟨⟨children, separators⟩, spans, rfl, there, children_held, fits, -⟩ := held
    simp only [Span.ofBranch] at few one
    obtain ⟨only, rfl⟩ := List.length_eq_one_iff.1 (by omega : spans.length = 1)
    obtain ⟨child, _, held, tail, same⟩ := List.forall₂_cons_right_iff.1 children_held
    obtain rfl := List.forall₂_nil_right_iff.1 tail
    obtain rfl : children = [child] := same
    have fit := fits only (List.mem_singleton_self only)
    have found := Pool.branch_of_content? there
    have account := (Pool.rewrites_without found only.leaves).extend [] only.pages [] []
    simp only [List.nil_append, List.append_nil, List.singleton_append] at account
    have counted' : pool.Counted ([id] ++ only.pages) := by simpa [Span.ofBranch] using counted
    have held' := held.frame (Pool.rewrites_without found []) counted' (List.Subset.refl _)
    have two : level ≠ 0 → 2 ≤ only.size := fun inner =>
      Nat.le_trans (leastSize_inner threshold inner) fit.1
    refine ⟨level, pool.without id, child, only, ?_, held', ?_, two, fit.2, ?_⟩
    · simp only [collapse, Pool.branch_eq_ok found, ok_bind, Pool.release_eq_ok found,
        collapse_stays held' two]
    · simp [Span.ofBranch]
    · simpa [Span.ofBranch] using account

section Removing

variable [Ord K] [Std.TransOrd K] [Std.LawfulEqOrd K] [DecidableEq K]

/-- Removal erases the entry and keeps the tree sound. -/
theorem remove_spec {tree : PageTree K V} {span : Span K V} (sound : Sound tree span) (key : K) :
    ∃ tree' span', tree.remove key = .ok ((eraseEntry key span.entries).2, tree') ∧
      Sound tree' span' ∧ span'.entries = (eraseEntry key span.entries).1 ∧
      tree'.order = tree.order ∧ tree'.threshold = tree.threshold := by
  obtain ⟨pool, rest, ran, shrunk, unchanged⟩ := removeAt_spec sound.limits key tree.levels
    tree.pool tree.root span [] [] sound.held sound.sorted sound.twoChildren sound.counted
    (by simpa using sound.chained)
  have sorted := ascending_eraseEntry key sound.sorted
  have recent := sound.recent.eraseEntry key sound.sorted
  have length := length_eraseEntry key span.entries
  have atLeast := shrunk.atLeast
  have atMost := shrunk.atMost
  have most := sound.atMost
  cases wasThere : (eraseEntry key span.entries).2 with
  | false =>
      obtain ⟨rfl, rfl⟩ := unchanged wasThere
      have same := eraseEntry_absent wasThere
      refine ⟨{ tree with recent := tree.recent.drop key }, rest, ?_, ?_, same.symm, rfl, rfl⟩
      · simp [remove, ran, wasThere]
      · exact {
          sound with
          recent := by rw [same] at recent; exact recent }
  | true =>
      rw [wasThere, if_pos rfl] at length
      obtain ⟨levels, final, root, span', collapsed, held, same, two, few, account⟩ :=
        collapse_spec shrunk.held
          (fun inner => by have := sound.twoChildren inner; omega) (by omega)
          (sound.counted.rewrites shrunk.account)
      have total := shrunk.account.trans account
      have entries := same.trans shrunk.same
      refine ⟨{ tree with
        pool := final
        root := root
        levels := levels
        size := tree.size - 1
        recent := tree.recent.drop key }, span', ?_, ?_, entries, rfl, rfl⟩
      · simp [remove, ran, wasThere, collapsed]
      · exact {
          limits := sound.limits
          held := held
          sorted := by rw [entries]; exact sorted
          size := by
            have old := sound.size
            rw [entries]
            simp only
            omega
          atMost := few
          twoChildren := two
          slots := slots_of_rewrites sound.slots total
          tidy := total.tidy sound.tidy
          chained := chained_of_rewrites sound.chained total
          recent := by rw [entries]; exact recent }

end Removing

end PageTree
end Docstore
