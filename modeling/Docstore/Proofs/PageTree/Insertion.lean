import Docstore.Proofs.PageTree.Sound
import Docstore.Proofs.PageTree.Splitting

set_option autoImplicit false

namespace Docstore
namespace PageTree

variable {K V : Type} {order threshold level : Nat} {pool after : Pool K V} {id : PageId}

/-- What an insertion makes of the page that it was given: one page, or two with a separator. -/
inductive Grown (order threshold level : Nat) (before : Pool K V) (id : PageId) (span : Span K V)
    (entries : List (K × V)) : Option (Split K) → Pool K V → Prop
  | whole {after : Pool K V} {grown : Span K V}
      (held : Holds order threshold after level id grown) (same : grown.entries = entries)
      (atLeast : span.size ≤ grown.size) (atMost : grown.size ≤ order)
      (account : before.Rewrites after span.pages grown.pages span.leaves grown.leaves) :
      Grown order threshold level before id span entries none after
  | halves {after : Pool K V} {left right : Span K V} {split : Split K}
      (heldLeft : Holds order threshold after level id left)
      (heldRight : Holds order threshold after level split.right right)
      (same : left.entries ++ right.entries = entries)
      (fitsLeft : left.Fits order threshold level) (fitsRight : right.Fits order threshold level)
      (least : right.least = some split.separator)
      (account : before.Rewrites after span.pages (left.pages ++ right.pages) span.leaves
        (left.leaves ++ right.leaves)) :
      Grown order threshold level before id span entries (some split) after

section Steps

variable [Ord K]

/-- The owner keeps its least key, unless it may begin behind the given key. -/
theorem least_of_putEntry {key : K} {value : V} {owner grown : Span K V}
    {before : List (Span K V)}
    (ownerLeast : before ≠ [] → ∃ least, owner.least = some least ∧ compare key least ≠ .lt)
    (same : leastOf grown.entries = leastOf (putEntry key value owner.entries).1)
    (nonempty : before ≠ []) : grown.least = owner.least := by
  obtain ⟨least, found, notBefore⟩ := ownerLeast nonempty
  rw [Span.least, same, leastOf_putEntry value found notBefore, found]

theorem insertAt_leaf (limits : Limits order threshold) (key : K) (value : V) {span : Span K V}
    {front back : List PageId} (held : Holds order threshold pool 0 id span)
    (fits : span.size ≤ order) (tidy : pool.Tidy)
    (chain : pool.Chained (front ++ (span.leaves ++ back))) :
    ∃ done, insertAt order key value 0 pool id = .ok done ∧
      done.isNew = (putEntry key value span.entries).2 ∧
      Grown order threshold 0 pool id span (putEntry key value span.entries).1 done.split
        done.pool := by
  obtain ⟨there, shape⟩ := held
  obtain ⟨leaf, found, entries⟩ := Pool.leaf_of_content? there
  have atLeast : span.entries.length ≤ (putEntry key value span.entries).1.length := by
    rw [length_putEntry]
    split <;> omega
  have atMost : (putEntry key value span.entries).1.length ≤ span.entries.length + 1 := by
    rw [length_putEntry]
    split <;> omega
  have size : span.size = span.entries.length := by rw [shape]; rfl
  by_cases small : (putEntry key value span.entries).1.length ≤ order
  · refine ⟨⟨(putEntry key value span.entries).2, none,
      pool.write id (.leaf { leaf with entries := (putEntry key value span.entries).1 })⟩,
      ?_, rfl, ?_⟩
    · simp only [insertAt, Pool.leaf_eq_ok found, ← entries, ok_bind]
      rw [entries, if_pos small]
      rfl
    · have account := Pool.rewrites_write_entries (putEntry key value span.entries).1 found [id]
      refine .whole (.of_leaf ?_) rfl ?_ small ?_
      · rw [Pool.content?_of_page? (Pool.page?_write_self _ found)]
        rfl
      · rw [size]
        exact atLeast
      · rw [shape]
        exact account
  · have many : (putEntry key value span.entries).1.length = order + 1 := by
      omega
    have three := limits.three
    have half := limits.half
    rw [shape] at chain
    obtain ⟨split, after, ran, least, pages⟩ := Pool.splitLeaf_pages tidy found
      (fun same => (chain.right_link found same).2.1 rfl)
      (fun next link => (chain.right_link found link).2.2)
      (putEntry key value span.entries).1 (by omega)
    refine ⟨⟨(putEntry key value span.entries).2, some split, after⟩, ?_, rfl, ?_⟩
    · simp only [insertAt, Pool.leaf_eq_ok found, ← entries, ok_bind]
      rw [entries, if_neg small, ran]
      rfl
    · have heldLeft : Holds order threshold after 0 id (.ofLeaf id _) :=
        .of_leaf (Pool.content?_of_page? pages.here)
      have heldRight : Holds order threshold after 0 split.right (.ofLeaf split.right _) :=
        .of_leaf (Pool.content?_of_page? pages.added)
      refine .halves heldLeft heldRight (List.take_append_drop _ _) ?_ ?_ least ?_
      · simp only [Span.Fits, Span.ofLeaf, leastSize, List.length_take]
        omega
      · simp only [Span.Fits, Span.ofLeaf, leastSize, List.length_drop]
        omega
      · rw [shape]
        exact pages.rewrites found

end Steps

section Above

variable {before behind : List (Span K V)} {owner : Span K V} {branch : Branch K}
  {front back : List PageId} {child : PageId} {entries : List (K × V)}

theorem fits_around {level : Nat} (news : List (Span K V))
    (fitsBefore : ∀ span ∈ before, span.Fits order threshold level)
    (fitsBehind : ∀ span ∈ behind, span.Fits order threshold level)
    (fitted : ∀ span ∈ news, span.Fits order threshold level) :
    ∀ span ∈ before ++ (news ++ behind), span.Fits order threshold level := by
  intro span member
  rcases List.mem_append.1 member with member | member
  · exact fitsBefore span member
  · exact (List.mem_append.1 member).elim (fitted span) (fitsBehind span)

/-- The limits of the children stay where one child is replaced by others within the limits. -/
theorem fits_replace {level : Nat} (news : List (Span K V))
    (fits : ∀ span ∈ before ++ owner :: behind, span.Fits order threshold level)
    (fitted : ∀ span ∈ news, span.Fits order threshold level) :
    ∀ span ∈ before ++ (news ++ behind), span.Fits order threshold level :=
  fits_around news (fun span member => fits span (List.mem_append_left _ member))
    (fun span member => fits span (List.mem_append_right _ (List.mem_cons_of_mem _ member))) fitted

/-- A branch above a child that stayed one page. -/
theorem Grown.above_whole {grown : Span K V}
    (focus : Focus order threshold level pool id branch before owner behind front child back)
    (counted : pool.Counted (Span.ofBranch id (before ++ owner :: behind)).pages)
    (few : (before ++ owner :: behind).length ≤ order)
    (least : before ≠ [] → grown.least = owner.least)
    (held : Holds order threshold after level child grown)
    (same : before.flatMap Span.entries ++ (grown.entries ++ behind.flatMap Span.entries) =
      entries)
    (atLeast : owner.size ≤ grown.size) (atMost : grown.size ≤ order)
    (account : pool.Rewrites after owner.pages grown.pages owner.leaves grown.leaves) :
    Grown order threshold (level + 1) pool id (.ofBranch id (before ++ owner :: behind)) entries
      none after := by
  obtain ⟨there, heldBefore, heldBehind, -⟩ := focus.surroundings counted account
  have fitted := focus.fits owner (List.mem_append_right _ List.mem_cons_self)
  have whole : Holds order threshold after (level + 1) id
      (.ofBranch id (before ++ grown :: behind)) := by
    refine ⟨branch, _, rfl, there, ?_, ?_,
      focus.separated.replace fun nonempty _ => least nonempty⟩
    · rw [focus.children]
      exact List.rel_append heldBefore (.cons held heldBehind)
    · refine fits_replace [grown] focus.fits fun span member => ?_
      obtain rfl := List.mem_singleton.1 member
      exact ⟨Nat.le_trans fitted.1 atLeast, atMost⟩
  refine .whole whole ?_ ?_ ?_ ?_
  · simpa only [Span.ofBranch, List.flatMap_append, List.flatMap_cons] using same
  · simp [Span.ofBranch]
  · simpa [Span.ofBranch] using few
  · have extended := account.inBranch id before behind
    simpa only [Span.ofBranch, List.flatMap_append, List.flatMap_cons] using extended

/-- The branch over both halves of a child, when it is written at its page. -/
structure WithHalves (order threshold level : Nat) (pool : Pool K V) (id : PageId)
    (branch : Branch K) (spans : List (Span K V)) : Prop where
  there : ∃ old, pool.page? id = some (.branch old)
  children : List.Forall₂ (Holds order threshold pool level) branch.children spans
  fits : ∀ span ∈ spans, span.Fits order threshold level
  separated : Separated allFresh branch.separators spans
  counted : pool.Counted (id :: spans.flatMap Span.pages)

theorem Focus.withHalves {left right : Span K V} {split : Split K}
    (focus : Focus order threshold level pool id branch before owner behind front child back)
    (counted : pool.Counted (Span.ofBranch id (before ++ owner :: behind)).pages)
    (least : before ≠ [] → left.least = owner.least)
    (heldLeft : Holds order threshold after level child left)
    (heldRight : Holds order threshold after level split.right right)
    (fitsLeft : left.Fits order threshold level) (fitsRight : right.Fits order threshold level)
    (between : right.least = some split.separator)
    (account : pool.Rewrites after owner.pages (left.pages ++ right.pages) owner.leaves
      (left.leaves ++ right.leaves)) :
    WithHalves order threshold level after id (branch.addChild before.length split)
        (before ++ left :: right :: behind) ∧
      pool.Rewrites after (Span.ofBranch id (before ++ owner :: behind)).pages
        (id :: (before ++ left :: right :: behind).flatMap Span.pages)
        (Span.ofBranch id (before ++ owner :: behind)).leaves
        ((before ++ left :: right :: behind).flatMap Span.leaves) := by
  obtain ⟨there, heldBefore, heldBehind, counted'⟩ := focus.surroundings counted account
  have extended := account.inBranch id before behind
  simp only [List.append_assoc] at extended counted'
  refine ⟨⟨⟨branch, Pool.branch_of_content? there⟩, ?_, ?_,
    focus.separated.split least between, ?_⟩, ?_⟩
  · simp only [Branch.addChild, focus.children, ← focus.front_length, insertIdx_append_cons]
    exact List.rel_append heldBefore (.cons heldLeft (.cons heldRight heldBehind))
  · refine fits_replace [left, right] focus.fits fun span member => ?_
    rcases List.mem_cons.1 member with rfl | member
    · exact fitsLeft
    · obtain rfl := List.mem_singleton.1 member
      exact fitsRight
  · simpa only [List.flatMap_append, List.flatMap_cons] using counted'
  · simpa only [List.flatMap_append, List.flatMap_cons] using extended

theorem WithHalves.whole {spans : List (Span K V)} {final : Branch K}
    (halves : WithHalves order threshold level after id final spans) :
    Holds order threshold (after.write id (.branch final)) (level + 1) id (.ofBranch id spans) ∧
      ∀ leaves, after.Rewrites (after.write id (.branch final)) (id :: spans.flatMap Span.pages)
        (id :: spans.flatMap Span.pages) leaves leaves := by
  obtain ⟨old, there⟩ := halves.there
  refine ⟨⟨final, spans, rfl, ?_, ?_, halves.fits, halves.separated⟩,
    fun leaves => Pool.rewrites_write_top final there _ leaves⟩
  · exact Pool.content?_of_page? (Pool.page?_write_self _ there)
  · exact holds_frame halves.children (Pool.rewrites_write_branch final there [])
      (by simpa using halves.counted) (List.Subset.refl _)

/-- The branch with both halves is split in turn. -/
theorem WithHalves.halves {spans : List (Span K V)} {full : Branch K}
    (halves : WithHalves order threshold level after id full spans)
    (limits : Limits order threshold) (tidy : after.Tidy) (many : spans.length = order + 1) :
    ∃ split final, splitBranch after id full = .ok (split, final) ∧
      ∃ left right, left ++ right = spans ∧
        Holds order threshold final (level + 1) id (.ofBranch id left) ∧
        Holds order threshold final (level + 1) split.right (.ofBranch split.right right) ∧
        (Span.ofBranch id left).Fits order threshold (level + 1) ∧
        (Span.ofBranch split.right right).Fits order threshold (level + 1) ∧
        (Span.ofBranch split.right right).least = some split.separator ∧
        ∀ leaves, after.Rewrites final (id :: spans.flatMap Span.pages)
          ((Span.ofBranch id left).pages ++ (Span.ofBranch split.right right).pages)
          leaves leaves := by
  obtain ⟨old, there⟩ := halves.there
  have three := limits.three
  have half := limits.half
  have length : full.children.length = spans.length := halves.children.length_eq
  have inside : full.children.length / 2 < spans.length := by omega
  obtain ⟨separator, cut, least⟩ := Branch.cut_spec full halves.separated (by omega)
    inside
  obtain ⟨rightId, final, ran, thereLeft, thereRight, account⟩ := splitBranch_spec tidy there cut
  have children := holds_frame halves.children (account []) (by simpa using halves.counted)
    (List.Subset.refl _)
  obtain ⟨heldLeft, heldRight⟩ := Branch.holds_parts children halves.fits halves.separated
    (by omega) inside thereLeft thereRight
  refine ⟨_, final, ran, spans.take (full.children.length / 2),
    spans.drop (full.children.length / 2), List.take_append_drop _ _, heldLeft, heldRight,
    ?_, ?_, ?_, fun leaves => ?_⟩
  · simp only [Span.Fits, Span.ofBranch, leastSize, List.length_take]
    omega
  · simp only [Span.Fits, Span.ofBranch, leastSize, List.length_drop]
    omega
  · obtain ⟨first, rest, shape⟩ := List.exists_cons_of_ne_nil
      (l := spans.drop (full.children.length / 2)) (by simpa using inside)
    rw [shape] at least ⊢
    exact least_flatMap _ least
  · have extended := (account leaves).extend [] (spans.flatMap Span.pages) [] []
    simp only [List.nil_append, List.append_nil, List.cons_append] at extended
    have parts := Span.pages_ofBranch_append id rightId
      (spans.take (full.children.length / 2)) (spans.drop (full.children.length / 2))
    rw [List.take_append_drop] at parts
    exact extended.perm (List.Perm.refl _) parts.symm

/-- A branch above a child that became two pages takes both of them. If they do not fit, it becomes
two pages in turn. -/
theorem Grown.above_halves (limits : Limits order threshold) {left right : Span K V}
    {split : Split K}
    (focus : Focus order threshold level pool id branch before owner behind front child back)
    (counted : pool.Counted (Span.ofBranch id (before ++ owner :: behind)).pages)
    (tidy : pool.Tidy) (few : (before ++ owner :: behind).length ≤ order)
    (least : before ≠ [] → left.least = owner.least)
    (heldLeft : Holds order threshold after level child left)
    (heldRight : Holds order threshold after level split.right right)
    (same : before.flatMap Span.entries ++
      ((left.entries ++ right.entries) ++ behind.flatMap Span.entries) = entries)
    (fitsLeft : left.Fits order threshold level) (fitsRight : right.Fits order threshold level)
    (between : right.least = some split.separator)
    (account : pool.Rewrites after owner.pages (left.pages ++ right.pages) owner.leaves
      (left.leaves ++ right.leaves)) :
    ((branch.addChild before.length split).children.length ≤ order ∧
      Grown order threshold (level + 1) pool id (.ofBranch id (before ++ owner :: behind)) entries
        none (after.write id (.branch (branch.addChild before.length split)))) ∨
    (¬ (branch.addChild before.length split).children.length ≤ order ∧
      ∃ up final, splitBranch after id (branch.addChild before.length split) = .ok (up, final) ∧
        Grown order threshold (level + 1) pool id (.ofBranch id (before ++ owner :: behind)) entries
          (some up) final) := by
  obtain ⟨halves, account⟩ := focus.withHalves counted least heldLeft heldRight fitsLeft
    fitsRight between account
  have length : (branch.addChild before.length split).children.length =
      (before ++ left :: right :: behind).length := halves.children.length_eq
  have whole : (before ++ left :: right :: behind).flatMap Span.entries = entries := by
    rw [← same]
    simp only [List.flatMap_append, List.flatMap_cons, List.append_assoc]
  by_cases room : (branch.addChild before.length split).children.length ≤ order
  · obtain ⟨held, written⟩ := halves.whole
    refine .inl ⟨room, .whole held whole ?_ ?_ (account.trans (written _))⟩
    · simp [Span.ofBranch]
    · simpa only [Span.ofBranch, ← length] using room
  · obtain ⟨up, final, ran, lefts, rights, parts, heldLeft, heldRight, fitsLeft, fitsRight, between,
      written⟩ := halves.halves limits (account.tidy tidy) (by
        simp only [List.length_append, List.length_cons] at few length ⊢
        omega)
    refine .inr ⟨room, up, final, ran, .halves heldLeft heldRight ?_ fitsLeft fitsRight between ?_⟩
    · rw [Span.entries_ofBranch_append, parts, whole]
    · have total := account.trans (written _)
      rwa [← parts, ← Span.leaves_ofBranch_append id up.right] at total

end Above

/-- A root over the two halves of the root before. -/
theorem Sound.raise [Ord K] [DecidableEq K] {tree : PageTree K V} {span left right : Span K V}
    {split : Split K} {size : Nat} {recent : Recent K V} (sound : Sound tree span)
    (heldLeft : Holds tree.order tree.threshold after tree.levels tree.root left)
    (heldRight : Holds tree.order tree.threshold after tree.levels split.right right)
    (fitsLeft : left.Fits tree.order tree.threshold tree.levels)
    (fitsRight : right.Fits tree.order tree.threshold tree.levels)
    (between : right.least = some split.separator)
    (account : tree.pool.Rewrites after span.pages (left.pages ++ right.pages) span.leaves
      (left.leaves ++ right.leaves))
    (sorted : Ascending (left.entries ++ right.entries))
    (counts : size = (left.entries ++ right.entries).length)
    (coherent : Coherent recent (left.entries ++ right.entries)) :
    Sound { tree with
      pool := (after.allocate (.branch ⟨[tree.root, split.right], [split.separator]⟩)).2
      root := (after.allocate (.branch ⟨[tree.root, split.right], [split.separator]⟩)).1
      levels := tree.levels + 1
      size := size
      recent := recent }
      (.ofBranch (after.allocate (.branch ⟨[tree.root, split.right], [split.separator]⟩)).1
        [left, right]) := by
  let page : Page K V := .branch ⟨[tree.root, split.right], [split.separator]⟩
  let root := (after.allocate page).1
  have tidy := account.tidy sound.tidy
  have counted := sound.counted.rewrites account
  have allocated := Pool.rewrites_allocate page tidy (left.leaves ++ right.leaves)
  have extended := allocated.extend [] (left.pages ++ right.pages) [] []
  simp only [List.nil_append, List.append_nil] at extended
  have whole := account.trans extended
  exact {
    limits := sound.limits
    held := by
      refine ⟨⟨[tree.root, split.right], [split.separator]⟩, _, rfl, ?_,
        .cons ?_ (.cons ?_ .nil), ?_,
        separated_cons_iff.2 ⟨between, separated_singleton _⟩⟩
      · exact Pool.content?_of_page? ((Pool.page?_allocate page tidy root).trans (if_pos rfl))
      · exact heldLeft.frame allocated counted (List.subset_append_left _ _)
      · exact heldRight.frame allocated counted (List.subset_append_right _ _)
      · simpa using ⟨fitsLeft, fitsRight⟩
    sorted := by simpa [Span.ofBranch] using sorted
    size := by simpa [Span.ofBranch] using counts
    atMost := by
      have three := sound.limits.three
      exact Nat.le_trans (by decide : 2 ≤ 3) three
    twoChildren := fun _ => Nat.le_refl _
    slots := slots_of_rewrites sound.slots (by simpa [Span.ofBranch] using whole)
    tidy := Pool.tidy_allocate page tidy
    chained := chained_of_rewrites sound.chained (by simpa [Span.ofBranch] using whole)
    recent := by simpa [Span.ofBranch] using coherent }

section Descent

variable [Ord K] [Std.TransOrd K]

theorem insertAt_spec (limits : Limits order threshold) (key : K) (value : V) :
    ∀ (level : Nat) (pool : Pool K V) (id : PageId) (span : Span K V) (front back : List PageId),
      Holds order threshold pool level id span → Ascending span.entries → span.size ≤ order →
      pool.Tidy → pool.Counted span.pages → pool.Chained (front ++ (span.leaves ++ back)) →
      ∃ done, insertAt order key value level pool id = .ok done ∧
        done.isNew = (putEntry key value span.entries).2 ∧
        Grown order threshold level pool id span (putEntry key value span.entries).1 done.split
          done.pool := by
  intro level
  induction level with
  | zero =>
      intro pool id span front back held _ fits tidy _ chain
      exact insertAt_leaf limits key value held fits tidy chain
  | succ level ih =>
      intro pool id span front back held sorted few tidy counted chain
      obtain ⟨branch, before, owner, behind, ids, child, idsBehind, rfl, focus, slot, below, above,
        ownerLeast⟩ := held.focus key sorted
      rw [Span.leaves_ofBranch_around] at chain
      rw [Span.entries_ofBranch_around] at sorted
      obtain ⟨done, ran, isNew, grown⟩ := ih pool child owner _ _ focus.held
        sorted.right.left (focus.fits owner (by simp)).2 tidy counted.ofOwner chain
      rw [Span.entries_ofBranch_around, putEntry_between key value owner.entries below above]
      obtain ⟨isNew', split, after⟩ := done
      cases grown with
      | @whole _ grown held same atLeast atMost account =>
          refine ⟨⟨isNew', none, after⟩, ?_, isNew, ?_⟩
          · simp only [insertAt, Pool.branch_eq_ok (Pool.branch_of_content? focus.there), ok_bind,
              ← slot, focus.child_at, ran, pure_eq_ok]
          refine Grown.above_whole focus counted (by simpa [Span.ofBranch] using few)
            (least_of_putEntry ownerLeast (by rw [same])) held (by rw [same]) atLeast atMost account
      | @halves _ left right split heldLeft heldRight same fitsLeft fitsRight between account =>
          have full := heldLeft.entries_ne_nil limits
            (Nat.lt_of_lt_of_le (leastSize_pos limits level) fitsLeft.1)
          have least : before ≠ [] → left.least = owner.least :=
            least_of_putEntry ownerLeast (by rw [← same, leastOf_append full])
          rcases Grown.above_halves limits focus counted tidy (by simpa [Span.ofBranch] using few)
            least heldLeft heldRight (by rw [same]) fitsLeft fitsRight between account with
            ⟨room, grown⟩ | ⟨full, up, final, ran', grown⟩
          · refine ⟨⟨isNew', none, after.write id (.branch (branch.addChild before.length split))⟩,
              ?_, isNew, grown⟩
            simp only [insertAt, Pool.branch_eq_ok (Pool.branch_of_content? focus.there), ok_bind,
              ← slot, focus.child_at, ran, if_pos room, pure_eq_ok]
          · refine ⟨⟨isNew', some up, final⟩, ?_, isNew, grown⟩
            simp only [insertAt, Pool.branch_eq_ok (Pool.branch_of_content? focus.there), ok_bind,
              ← slot, focus.child_at, ran, if_neg full, ran', pure_eq_ok]

/-- Insertion puts the entry and keeps the tree sound. -/
theorem insert_spec [Std.LawfulEqOrd K] [DecidableEq K] {tree : PageTree K V} {span : Span K V}
    (sound : Sound tree span) (key : K) (value : V) :
    ∃ tree' span', tree.insert key value = .ok ((putEntry key value span.entries).2, tree') ∧
      Sound tree' span' ∧ span'.entries = (putEntry key value span.entries).1 ∧
      tree'.order = tree.order ∧ tree'.threshold = tree.threshold := by
  obtain ⟨done, ran, isNew, grown⟩ := insertAt_spec sound.limits key value tree.levels tree.pool
    tree.root span [] [] sound.held sound.sorted sound.atMost sound.tidy sound.counted
    (by simpa using sound.chained)
  have sorted := ascending_putEntry key value sound.sorted
  have recent := sound.recent.putEntry key value sound.sorted
  have size : (if done.isNew then tree.size + 1 else tree.size) =
      (putEntry key value span.entries).1.length := by
    rw [length_putEntry, isNew, sound.size]
  rw [← isNew]
  obtain ⟨isNew', split, after⟩ := done
  cases grown with
  | @whole _ grown held same atLeast atMost account =>
      refine ⟨{ tree with
        pool := after
        size := if isNew' then tree.size + 1 else tree.size
        recent := tree.recent.drop key }, grown, ?_, ?_, same, rfl, rfl⟩
      · simp only [insert, ran, ok_bind, pure_eq_ok]
      exact {
        limits := sound.limits
        held := held
        sorted := by rw [same]; exact sorted
        size := by rw [same]; exact size
        atMost := atMost
        twoChildren := fun branch => Nat.le_trans (sound.twoChildren branch) atLeast
        slots := slots_of_rewrites sound.slots account
        tidy := account.tidy sound.tidy
        chained := chained_of_rewrites sound.chained account
        recent := by rw [same]; exact recent }
  | @halves _ left right split heldLeft heldRight same fitsLeft fitsRight between account =>
      rw [← same] at sorted size recent
      refine ⟨_, _, ?_, sound.raise heldLeft heldRight fitsLeft fitsRight between account sorted
        size
        recent, ?_, rfl, rfl⟩
      · simp only [insert, ran, ok_bind, pure_eq_ok]
      · simpa [Span.ofBranch] using same

end Descent

end PageTree
end Docstore
