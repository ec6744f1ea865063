import Docstore.Proofs.PageTree.Routing

set_option autoImplicit false

namespace Docstore
namespace PageTree

variable {K V : Type} {pool : Pool K V}

namespace Pool

/-- Linking back from a neighbour changes that leaf only, and not what it holds. -/
theorem linkLeft_spec (pool : Pool K V) (next : Option PageId) (left : PageId)
    (target : ∀ id, next = some id → ∃ leaf, pool.page? id = some (.leaf leaf)) :
    ∃ after, pool.linkLeft next left = .ok after ∧
      (∀ id leaf, next = some id → pool.page? id = some (.leaf leaf) →
        after.page? id = some (.leaf { leaf with left := some left })) ∧
      (∀ other, next ≠ some other → after.page? other = pool.page? other) ∧
      (pool.Tidy → after.Tidy) ∧ (∀ id, after.occupied id = pool.occupied id) ∧
      ∀ id, after.content? id = pool.content? id := by
  cases next with
  | none => exact ⟨pool, rfl, by simp, fun _ _ => rfl, id, fun _ => rfl, fun _ => rfl⟩
  | some next =>
      obtain ⟨leaf, found⟩ := target next rfl
      refine ⟨pool.write next (.leaf { leaf with left := some left }), ?_, ?_, ?_,
        tidy_write _ found, occupied_write _ found, ?_⟩
      · simp only [linkLeft, leaf_eq_ok found]
        rfl
      · rintro id other ⟨⟩ found'
        obtain rfl : leaf = other := by simpa [found] using found'
        exact page?_write_self _ found
      · intro other distinct
        exact page?_write_other _ found fun same => distinct (by rw [same])
      · intro other
        by_cases same : next = other
        · subst same
          rw [content?, page?_write_self _ found, content?, found]
          rfl
        · rw [content?, content?, page?_write_other _ found same]

theorem occupied_allocate (page : Page K V) (tidy : pool.Tidy) (other : PageId) :
    (pool.allocate page).2.occupied other =
      pool.occupied other + [(pool.allocate page).1].count other := by
  rw [occupied, page?_allocate page tidy, List.count_singleton]
  by_cases same : (pool.allocate page).1 = other
  · subst same
    simp [occupied, page?_allocate_fresh page tidy]
  · simp [same, occupied]

theorem page?_allocate_other (page : Page K V) {old : Page K V} {other : PageId} (tidy : pool.Tidy)
    (there : pool.page? other = some old) :
    (pool.allocate page).1 ≠ other ∧ (pool.allocate page).2.page? other = some old := by
  have fresh := page?_allocate_fresh page tidy
  have distinct : (pool.allocate page).1 ≠ other := fun same => by
    rw [same, there] at fresh
    cases fresh
  exact ⟨distinct, by rw [page?_allocate page tidy, if_neg distinct, there]⟩

/-- The pages after a split: the lower half, the upper half in a new slot between the leaf and its
right neighbour, and that neighbour with its new left link. -/
structure SplitPages (before after : Pool K V) (id right : PageId) (stored : Leaf K V)
    (lower upper : List (K × V)) : Prop where
  fresh : before.page? right = none
  target : ∀ next, stored.right = some next → ∃ leaf, before.page? next = some (.leaf leaf)
  here : after.page? id = some (.leaf ⟨lower, stored.left, some right⟩)
  added : after.page? right = some (.leaf ⟨upper, some id, stored.right⟩)
  next : ∀ nextId leaf, stored.right = some nextId → before.page? nextId = some (.leaf leaf) →
    after.page? nextId = some (.leaf { leaf with left := some right })
  others : ∀ other, other ≠ id → other ≠ right → stored.right ≠ some other →
    after.page? other = before.page? other
  tidy : after.Tidy
  occupied : ∀ other, after.occupied other = before.occupied other + [right].count other

theorem splitLeaf_pages {id : PageId} {stored : Leaf K V} (tidy : pool.Tidy)
    (there : pool.page? id = some (.leaf stored)) (notSelf : stored.right ≠ some id)
    (target : ∀ next, stored.right = some next → ∃ leaf, pool.page? next = some (.leaf leaf))
    (entries : List (K × V)) (many : 2 ≤ entries.length) :
    ∃ split after, splitLeaf pool id { stored with entries } = .ok (split, after) ∧
      leastOf (entries.drop (entries.length / 2)) = some split.separator ∧
      pool.SplitPages after id split.right stored (entries.take (entries.length / 2))
        (entries.drop (entries.length / 2)) := by
  obtain ⟨⟨separator, value⟩, rest, upper⟩ :=
    List.exists_cons_of_ne_nil (l := entries.drop (entries.length / 2)) fun empty => by
      have length := congrArg List.length empty
      simp only [List.length_drop, List.length_nil] at length
      omega
  -- the new page first, then the page with its new right link
  let newLeaf : Page K V := .leaf ⟨(separator, value) :: rest, some id, stored.right⟩
  let right := (pool.allocate newLeaf).1
  let first := (pool.allocate newLeaf).2
  let lower : Page K V := .leaf ⟨entries.take (entries.length / 2), stored.left, some right⟩
  obtain ⟨distinct, there₁⟩ := page?_allocate_other newLeaf tidy there
  have written : ∀ other, id ≠ other → (first.write id lower).page? other = first.page? other :=
    fun other => page?_write_other lower there₁
  have nextLeaf : ∀ next leaf, stored.right = some next → pool.page? next = some (.leaf leaf) →
      (first.write id lower).page? next = some (.leaf leaf) := by
    intro next leaf link found
    rw [written next fun same => notSelf (by rw [same, link])]
    exact (page?_allocate_other _ tidy found).2
  obtain ⟨after, linked, nextPage, others, tidy', occupied', -⟩ :=
    linkLeft_spec (first.write id lower) stored.right right fun next link => by
      obtain ⟨leaf, found⟩ := target next link
      exact ⟨leaf, nextLeaf next leaf link found⟩
  have notRight : stored.right ≠ some right := fun link => by
    obtain ⟨leaf, found⟩ := target right link
    exact (page?_allocate_other _ tidy found).1 rfl
  refine ⟨⟨separator, right⟩, after, ?_, by rw [upper]; rfl, ?_⟩
  · simp only [splitLeaf, upper]
    exact congrArg (· >>= fun pool => Except.ok (Split.mk separator right, pool)) linked
  · refine ⟨page?_allocate_fresh newLeaf tidy, target, ?_, ?_, ?_, ?_, ?_, ?_⟩
    · rw [others id notSelf]
      exact page?_write_self lower there₁
    · rw [others right notRight, written right (Ne.symm distinct), page?_allocate newLeaf tidy,
        if_pos rfl, upper]
    · exact fun next leaf link found => nextPage next leaf link (nextLeaf next leaf link found)
    · intro other notHere notAdded notNext
      rw [others other notNext, written other (Ne.symm notHere), page?_allocate newLeaf tidy,
        if_neg (Ne.symm notAdded)]
    · exact tidy' (tidy_write lower there₁ (tidy_allocate newLeaf tidy))
    · intro other
      rw [occupied', occupied_write lower there₁, occupied_allocate newLeaf tidy]

theorem rewrites_allocate (page : Page K V) (tidy : pool.Tidy) (leaves : List PageId) :
    pool.Rewrites (pool.allocate page).2 [] [(pool.allocate page).1] leaves leaves where
  tidy _ := tidy_allocate page tidy
  tally other := by rw [occupied_allocate page tidy, List.count_nil, Nat.add_zero]
  frame other _ present := by
    obtain ⟨old, found⟩ := Option.isSome_iff_exists.1 present
    rw [content?, (page?_allocate_other _ tidy found).2, content?, found]
  chained front back chain := by
    refine ⟨chain.nodup, linked_congr (fun id member => ?_) chain.linked⟩
    obtain ⟨leaf, found⟩ := chain.exists_leaf member
    rw [(page?_allocate_other _ tidy found).2, found]

theorem SplitPages.rewrites {after : Pool K V} {id right : PageId} {stored : Leaf K V}
    {lower upper : List (K × V)} (pages : pool.SplitPages after id right stored lower upper)
    (there : pool.page? id = some (.leaf stored)) :
    pool.Rewrites after [id] [id, right] [id] [id, right] where
  tidy _ := pages.tidy
  tally other := by
    have sum := pages.occupied other
    simp only [List.count_cons, List.count_nil] at sum ⊢
    omega
  frame other outside present := by
    have notHere : other ≠ id := fun same => outside (by simp [same])
    have notAdded : other ≠ right := fun same => by simp [same, pages.fresh] at present
    by_cases neighbour : stored.right = some other
    · obtain ⟨leaf, found⟩ := pages.target other neighbour
      rw [content?, pages.next other leaf neighbour found, content?, found]
      rfl
    · rw [content?, content?, pages.others other notHere notAdded neighbour]
  chained front back chain := by
    have link := chain.right_eq there
    refine chained_insert chain (fun member => ?_) ⟨?_, ?_, ?_⟩ ⟨_, pages.added, rfl, link⟩
    · obtain ⟨leaf, found⟩ := chain.exists_leaf member
      rw [pages.fresh] at found
      cases found
    · intro leaf found
      obtain rfl : stored = leaf := by simpa [there] using found
      exact ⟨_, pages.here, rfl, rfl⟩
    · intro leaf next isNext found
      exact ⟨_, pages.next next leaf (link.trans isNext) found, rfl, rfl⟩
    · intro other notHere notAdded notNext
      exact pages.others other notHere (fun same => notAdded (by simp [same])) (by rwa [link])

end Pool

theorem Branch.cut_spec (branch : Branch K) {spans : List (Span K V)} {slot : Nat}
    (separated : Separated allFresh branch.separators spans) (positive : 0 < slot)
    (inside : slot < spans.length) :
    ∃ separator, branch.cut slot = some
        (⟨branch.children.take slot, branch.separators.take (slot - 1)⟩, separator,
          ⟨branch.children.drop slot, branch.separators.drop slot⟩) ∧
      (spans.drop slot).head?.bind Span.least = some separator := by
  have within : slot - 1 < branch.separators.length := by have := separated.1; omega
  refine ⟨branch.separators[slot - 1], ?_, ?_⟩
  · simp only [Branch.cut, List.getElem?_eq_getElem within]
  · have there := separated.at within id
    rwa [show slot - 1 + 1 = slot by omega, ← List.head?_drop] at there

/-- The parts of a branch that was cut hold the children that went to them. -/
theorem Branch.holds_parts {order threshold level slot : Nat} {leftId rightId : PageId}
    {branch : Branch K} {spans : List (Span K V)}
    (held : List.Forall₂ (Holds order threshold pool level) branch.children spans)
    (fits : ∀ span ∈ spans, span.Fits order threshold level)
    (separated : Separated allFresh branch.separators spans) (positive : 0 < slot)
    (inside : slot < spans.length)
    (thereLeft : pool.content? leftId =
      some (.branch ⟨branch.children.take slot, branch.separators.take (slot - 1)⟩))
    (thereRight : pool.content? rightId =
      some (.branch ⟨branch.children.drop slot, branch.separators.drop slot⟩)) :
    Holds order threshold pool (level + 1) leftId (.ofBranch leftId (spans.take slot)) ∧
      Holds order threshold pool (level + 1) rightId (.ofBranch rightId (spans.drop slot)) :=
  ⟨⟨_, _, rfl, thereLeft, List.forall₂_take _ held,
      fun span member => fits span (List.mem_of_mem_take member),
      separated.take positive (Nat.le_of_lt inside)⟩,
    ⟨_, _, rfl, thereRight, List.forall₂_drop _ held,
      fun span member => fits span (List.mem_of_mem_drop member), separated.drop inside⟩⟩

/-- A split branch keeps one part; the other part is a new page. -/
theorem splitBranch_spec {id : PageId} {stored branch left right : Branch K} {separator : K}
    (tidy : pool.Tidy) (there : pool.page? id = some (.branch stored))
    (cut : branch.cut (branch.children.length / 2) = some (left, separator, right)) :
    ∃ rightId after, splitBranch pool id branch = .ok (⟨separator, rightId⟩, after) ∧
      after.content? id = some (.branch left) ∧ after.content? rightId = some (.branch right) ∧
      ∀ leaves, pool.Rewrites after [id] [id, rightId] leaves leaves := by
  let rightId := (pool.allocate (.branch right : Page K V)).1
  let first := (pool.allocate (.branch right : Page K V)).2
  obtain ⟨distinct, there₁⟩ := Pool.page?_allocate_other (.branch right) tidy there
  refine ⟨rightId, first.write id (.branch left), ?_, ?_, ?_, ?_⟩
  · simp only [splitBranch, cut]
    rfl
  · exact Pool.content?_of_page? (Pool.page?_write_self _ there₁)
  · have added : (first.write id (.branch left)).page? rightId = some (.branch right) := by
      rw [Pool.page?_write_other _ there₁ (Ne.symm distinct), Pool.page?_allocate _ tidy,
        if_pos rfl]
    exact Pool.content?_of_page? added
  · intro leaves
    have allocated := (Pool.rewrites_allocate (.branch right) tidy leaves).extend [id] [] [] []
    have written := (Pool.rewrites_write_branch left there₁ leaves).extend [] [rightId] [] []
    simp only [List.nil_append, List.append_nil] at allocated written
    exact allocated.trans written

end PageTree
end Docstore
