import Docstore.PageTree.Remove
import Docstore.Proofs.PageTree.Descent
import Docstore.Proofs.PageTree.Splitting

set_option autoImplicit false

namespace Docstore
namespace PageTree

variable {K V : Type} {order threshold level : Nat} {pool : Pool K V} {id : PageId}

/-- A branch whose children hold spans of any size. -/
structure Middle (order threshold level : Nat) (pool : Pool K V) (id : PageId)
    (spans : List (Span K V)) (stale : Nat → Prop) (branch : Branch K) : Prop where
  there : pool.page? id = some (.branch branch)
  children : List.Forall₂ (Holds order threshold pool level) branch.children spans
  separated : Separated stale branch.separators spans
  counted : pool.Counted (id :: spans.flatMap Span.pages)

/-- A branch without stale separators whose children are within the limits. -/
theorem Middle.holds {spans : List (Span K V)} {stale : Nat → Prop} {branch : Branch K}
    (middle : Middle order threshold level pool id spans stale branch)
    (fits : ∀ child ∈ spans, child.Fits order threshold level)
    (fresh : ∀ i, i + 1 < spans.length → ¬ stale i) :
    Holds order threshold pool (level + 1) id (.ofBranch id spans) := by
  refine ⟨branch, spans, rfl, Pool.content?_of_page? middle.there, middle.children, fits, ?_⟩
  obtain ⟨lengths, keys⟩ := middle.separated
  refine ⟨lengths, fun i key found _ => keys i key found (fresh i ?_)⟩
  have inside := (List.getElem?_eq_some_iff.1 found).1
  omega

/-- What a step of the removal makes of the children of a branch: other spans with the same entries
altogether. -/
structure Reshaped (order threshold level : Nat) (before after : Pool K V) (id : PageId)
    (olds news : List (Span K V)) (stale : Nat → Prop) : Prop where
  middle : ∃ branch, Middle order threshold level after id news stale branch
  entries : news.flatMap Span.entries = olds.flatMap Span.entries
  account : before.Rewrites after (Span.ofBranch id olds).pages (Span.ofBranch id news).pages
    (Span.ofBranch id olds).leaves (Span.ofBranch id news).leaves

theorem Pool.Rewrites.among {first second : Pool K V} {leaves leaves' : List PageId}
    (account : first.Rewrites second [id] [id] leaves leaves') {pages : List PageId}
    (member : id ∈ pages) :
    first.Rewrites second pages pages leaves leaves' := by
  have extended := account.extend [] (pages.erase id) [] []
  simp only [List.nil_append, List.append_nil, List.singleton_append] at extended
  have same := (List.perm_cons_erase member).symm
  exact extended.perm same same

section Refresh

variable {spans : List (Span K V)} {stale : Nat → Prop} {branch : Branch K}

theorem Separated.set {separators : List K} (separated : Separated stale separators spans)
    {slot : Nat} {least : K} {stale' : Nat → Prop}
    (exactly : stale' slot ∨ ∃ span, spans[slot + 1]? = some span ∧ span.least = some least)
    (weaker : ∀ i, i ≠ slot → stale i → stale' i) :
    Separated stale' (separators.set slot least) spans := by
  refine ⟨by simpa using separated.1, fun i key found fresh => ?_⟩
  rw [List.getElem?_set] at found
  by_cases same : slot = i
  · subst same
    obtain ⟨span, there, same⟩ := exactly.resolve_left fresh
    have inside := (List.getElem?_eq_some_iff.1 there).1
    have lengths := separated.1
    rw [if_pos rfl, if_pos (by omega)] at found
    rw [there, ← found]
    exact same
  · rw [if_neg same] at found
    exact separated.2 i key found fun s => fresh (weaker i (Ne.symm same) s)

/-- After a refresh the separator before a child is exact, if the child has entries. -/
theorem Middle.refresh (limits : Limits order threshold)
    (middle : Middle order threshold level pool id spans stale branch) {slot : Nat}
    {span : Span K V} (there : spans[slot]? = some span) (full : level = 0 ∨ 0 < span.size) :
    ∃ after branch', refreshSeparator level id pool slot = .ok after ∧
      branch'.children = branch.children ∧
      Middle order threshold level after id spans
        (fun i => stale i ∧ (i + 1 = slot → span.least = none)) branch' ∧
      pool.Rewrites after (Span.ofBranch id spans).pages (Span.ofBranch id spans).pages
        (Span.ofBranch id spans).leaves (Span.ofBranch id spans).leaves := by
  cases slot with
  | zero =>
      refine ⟨pool, branch, rfl, rfl, ⟨middle.there, middle.children, ?_, middle.counted⟩,
        .refl _ _ _⟩
      exact middle.separated.mono fun i old => ⟨old, fun impossible => by omega⟩
  | succ slot =>
      obtain ⟨inside, here⟩ := List.getElem?_eq_some_iff.1 there
      have inside' : slot + 1 < branch.children.length := by
        rw [middle.children.length_eq]
        exact inside
      have held := List.Forall₂.get middle.children inside' inside
      rw [List.get_eq_getElem, List.get_eq_getElem, here] at held
      have least := leastKey_spec limits held full
      cases found : span.least with
      | none =>
          refine ⟨pool, branch, ?_, rfl, ⟨middle.there, middle.children, ?_, middle.counted⟩,
            .refl _ _ _⟩
          · simp only [refreshSeparator, if_neg (Nat.succ_ne_zero slot),
              Pool.branch_eq_ok middle.there, ok_bind, List.getElem?_eq_getElem inside', least,
              found]
            rfl
          · exact middle.separated.mono fun i old => ⟨old, fun _ => rfl⟩
      | some key =>
          let fresh : Branch K := { branch with separators := branch.separators.set slot key }
          have written := Pool.rewrites_write_top fresh middle.there
            (spans.flatMap Span.pages) (spans.flatMap Span.leaves)
          refine ⟨pool.write id (.branch fresh), fresh, ?_, rfl, ⟨?_, ?_, ?_, ?_⟩, written⟩
          · simp only [refreshSeparator, if_neg (Nat.succ_ne_zero slot),
              Pool.branch_eq_ok middle.there, ok_bind, List.getElem?_eq_getElem inside', least,
              found]
            rfl
          · exact Pool.page?_write_self _ middle.there
          · exact holds_frame middle.children (Pool.rewrites_write_branch fresh middle.there [])
              (by simpa using middle.counted) (List.Subset.refl _)
          · refine middle.separated.set (.inr ⟨span, there, found⟩) fun i other old =>
              ⟨old, fun same => ?_⟩
            omega
          · exact middle.counted.rewrites written

/-- After several refreshes the separators before all of these children are exact. -/
theorem Middle.refreshAll (limits : Limits order threshold)
    (fits : ∀ child ∈ spans, child.Fits order threshold level) (slots : List Nat)
    (inside : ∀ slot ∈ slots, slot < spans.length) :
    ∀ {pool : Pool K V} {branch : Branch K} {stale : Nat → Prop},
      Middle order threshold level pool id spans stale branch →
      ∃ after, slots.foldlM (refreshSeparator level id) pool = .ok after ∧
        Reshaped order threshold level pool after id spans spans
          (fun i => stale i ∧ i + 1 ∉ slots) := by
  induction slots with
  | nil =>
      intro pool branch stale middle
      refine ⟨pool, rfl, ⟨branch, middle.there, middle.children, ?_, middle.counted⟩, rfl,
        .refl _ _ _⟩
      exact middle.separated.mono fun i old => ⟨old, List.not_mem_nil⟩
  | cons slot slots ih =>
      intro pool branch stale middle
      have within := inside slot List.mem_cons_self
      have there := List.getElem?_eq_getElem within
      have member := List.getElem_mem within
      have fit := fits _ member
      have positive := Nat.lt_of_lt_of_le (leastSize_pos limits level) fit.1
      obtain ⟨first, branch₁, ran, -, middle₁, account₁⟩ :=
        middle.refresh limits there (.inr positive)
      obtain ⟨after, ran₂, ⟨branch₂, middle₂⟩, -, account₂⟩ :=
        ih (fun other member => inside other (List.mem_cons_of_mem _ member)) middle₁
      have within' : slot < branch.children.length := by
        rw [middle.children.length_eq]
        exact within
      obtain ⟨key, least⟩ :=
        fit.least_isSome limits (List.Forall₂.get middle.children within' within)
      refine ⟨after, ?_, ⟨branch₂, middle₂.there, middle₂.children, ?_, middle₂.counted⟩, rfl,
        account₁.trans account₂⟩
      · simp only [List.foldlM_cons, ran, ok_bind, ran₂]
      · refine middle₂.separated.mono fun i ⟨⟨old, here⟩, outside⟩ => ⟨old, fun member => ?_⟩
        rcases List.mem_cons.1 member with same | member
        · rw [here same] at least
          cases least
        · exact outside member

end Refresh

section Neighbours

variable {fronts backs : List (Span K V)} {left right : Span K V}
  {stale stale' : Nat → Prop} {branch : Branch K}

/-- New children in place of old ones may leave the separators before each of them stale. -/
theorem Separated.exchange (olds : List (Span K V)) {separators : List K}
    {news : List (Span K V)} (separated : Separated stale separators (fronts ++ (olds ++ backs)))
    (lengths : news.length = olds.length)
    (weaker : ∀ i, stale i ∨ (fronts.length ≤ i + 1 ∧ i + 1 < fronts.length + olds.length) →
      stale' i) : Separated stale' separators (fronts ++ (news ++ backs)) := by
  refine ⟨by simpa [lengths] using separated.1, fun i key found fresh => ?_⟩
  have there := separated.2 i key found fun s => fresh (weaker i (.inl s))
  have outside : ¬ (fronts.length ≤ i + 1 ∧ i + 1 < fronts.length + olds.length) :=
    fun inside => fresh (weaker i (.inr inside))
  rw [List.getElem?_append] at there ⊢
  by_cases early : i + 1 < fronts.length
  · rwa [if_pos early] at there ⊢
  · rw [if_neg early] at there ⊢
    rw [List.getElem?_append_right (by omega)] at there ⊢
    rwa [lengths]

/-- One child in place of two takes away the separator between them. -/
theorem Separated.unite {separators : List K} {joined : Span K V}
    (separated : Separated stale separators (fronts ++ left :: right :: backs))
    (weaker : ∀ i, i + 1 = fronts.length ∨ (i + 1 < fronts.length ∧ stale i) ∨
      (fronts.length ≤ i ∧ stale (i + 1)) → stale' i) :
    Separated stale' (separators.eraseIdx fronts.length) (fronts ++ joined :: backs) := by
  obtain ⟨lengths, keys⟩ := separated
  simp only [List.length_append, List.length_cons] at lengths
  refine ⟨?_, fun i key found fresh => ?_⟩
  · rw [List.length_eraseIdx_of_lt (by omega)]
    simp only [List.length_append, List.length_cons]
    omega
  · rw [List.getElem?_eraseIdx] at found
    by_cases early : i < fronts.length
    · rw [if_pos early] at found
      by_cases here : i + 1 = fronts.length
      · exact absurd (weaker i (.inl here)) fresh
      · have there := keys i key found fun s => fresh (weaker i (.inr (.inl ⟨by omega, s⟩)))
        rw [List.getElem?_append_left (by omega)] at there ⊢
        exact there
    · rw [if_neg early] at found
      have there := keys (i + 1) key found fun s => fresh (weaker i (.inr (.inr ⟨by omega, s⟩)))
      rw [List.getElem?_append_right (by omega)] at there ⊢
      obtain ⟨j, later⟩ : ∃ j, i + 1 - fronts.length = j + 1 := ⟨i - fronts.length, by omega⟩
      rw [show i + 1 + 1 - fronts.length = j + 1 + 1 by omega, List.getElem?_cons_succ,
        List.getElem?_cons_succ] at there
      rw [later, List.getElem?_cons_succ]
      exact there

/-- A branch seen from two neighbouring children and the separator between them. -/
structure Window (order threshold level : Nat) (pool : Pool K V) (branch : Branch K)
    (fronts : List (Span K V)) (left right : Span K V) (backs : List (Span K V))
    (idsFront : List PageId) (leftId rightId : PageId) (idsBack : List PageId)
    (separator : K) : Prop where
  children : branch.children = idsFront ++ leftId :: rightId :: idsBack
  lengths : idsFront.length = fronts.length
  heldFronts : List.Forall₂ (Holds order threshold pool level) idsFront fronts
  heldLeft : Holds order threshold pool level leftId left
  heldRight : Holds order threshold pool level rightId right
  heldBacks : List.Forall₂ (Holds order threshold pool level) idsBack backs
  leftAt : branch.children[fronts.length]? = some leftId
  rightAt : branch.children[fronts.length + 1]? = some rightId
  between : branch.separators[fronts.length]? = some separator

theorem Middle.window
    (middle :
      Middle order threshold level pool id (fronts ++ left :: right :: backs) stale branch) :
    ∃ idsFront leftId rightId idsBack separator,
      Window order threshold level pool branch fronts left right backs idsFront leftId rightId
        idsBack separator := by
  obtain ⟨idsFront, leftId, rest, children, lengths, heldFronts, heldLeft, others⟩ :=
    forall₂_split middle.children
  obtain ⟨rightId, idsBack, heldRight, heldBacks, rfl⟩ := List.forall₂_cons_right_iff.1 others
  have inside : fronts.length < branch.separators.length := by
    have lengths := middle.separated.1
    simp only [List.length_append, List.length_cons] at lengths
    omega
  refine ⟨idsFront, leftId, rightId, idsBack, branch.separators[fronts.length], children, lengths,
    heldFronts, heldLeft, heldRight, heldBacks, ?_, ?_, List.getElem?_eq_getElem inside⟩
  · rw [children, ← lengths, getElem?_length]
  · rw [children, ← lengths, List.getElem?_append_right (by omega),
      show idsFront.length + 1 - idsFront.length = 1 by omega]
    rfl

/-- A step on some neighbouring children leaves the other children. -/
theorem Middle.rebuild (olds news : List (Span K V)) {after : Pool K V}
    {idsFront ids idsBack : List PageId} {branch' : Branch K}
    (counted : pool.Counted (id :: (fronts ++ (olds ++ backs)).flatMap Span.pages))
    (heldFronts : List.Forall₂ (Holds order threshold pool level) idsFront fronts)
    (heldBacks : List.Forall₂ (Holds order threshold pool level) idsBack backs)
    (account : pool.Rewrites after (id :: olds.flatMap Span.pages) (id :: news.flatMap Span.pages)
      (olds.flatMap Span.leaves) (news.flatMap Span.leaves))
    (there : after.page? id = some (.branch branch'))
    (children : branch'.children = idsFront ++ (ids ++ idsBack))
    (held : List.Forall₂ (Holds order threshold after level) ids news)
    (separated : Separated stale' branch'.separators (fronts ++ (news ++ backs)))
    (entries : news.flatMap Span.entries = olds.flatMap Span.entries) :
    Reshaped order threshold level pool after id (fronts ++ (olds ++ backs))
      (fronts ++ (news ++ backs)) stale' := by
  have shuffle : ∀ spans : List (Span K V),
      ((id :: spans.flatMap Span.pages) ++
      (fronts.flatMap Span.pages ++ backs.flatMap Span.pages)).Perm
        (id :: (fronts ++ (spans ++ backs)).flatMap Span.pages) := by
    intro spans
    simp only [List.flatMap_append, List.cons_append]
    exact (List.perm_append_comm_assoc _ _ _).cons id
  have around := counted.perm (shuffle olds).symm
  have extended := account.extend [] (fronts.flatMap Span.pages ++ backs.flatMap Span.pages)
    (fronts.flatMap Span.leaves) (backs.flatMap Span.leaves)
  have whole := extended.perm (shuffle olds) (shuffle news)
  refine ⟨⟨branch', there, ?_, separated, counted.rewrites whole⟩, ?_, ?_⟩
  · rw [children]
    refine forall₂_join ?_ held ?_
    · exact holds_frame heldFronts account around (List.subset_append_left _ _)
    · exact holds_frame heldBacks account around (List.subset_append_right _ _)
  · simp only [List.flatMap_append, entries]
  · simpa only [Span.ofBranch, List.flatMap_append] using whole

theorem Middle.countedWindow
    (middle :
      Middle order threshold level pool id (fronts ++ left :: right :: backs) stale branch) :
    pool.Counted (id :: (left.pages ++ right.pages)) := by
  refine middle.counted.sublist (List.Sublist.cons_cons id ?_)
  simp only [List.flatMap_append, List.flatMap_cons]
  refine List.sublist_append_of_sublist_right ?_
  rw [← List.append_assoc]
  exact List.sublist_append_left _ _

/-- A branch and two neighbouring children are on three pages. -/
theorem Middle.distinct {idsFront idsBack : List PageId} {leftId rightId : PageId} {separator : K}
    (middle : Middle order threshold level pool id (fronts ++ left :: right :: backs) stale branch)
    (window : Window order threshold level pool branch fronts left right backs idsFront leftId
      rightId idsBack separator) : id ≠ leftId ∧ id ≠ rightId ∧ leftId ≠ rightId := by
  obtain ⟨outside, within⟩ := List.nodup_cons.1 middle.countedWindow.nodup
  have apart := (List.nodup_append'.1 within).2.2
  have inLeft := window.heldLeft.mem_pages
  have inRight := window.heldRight.mem_pages
  refine ⟨?_, ?_, ?_⟩
  · rintro rfl
    exact outside (List.mem_append_left _ inLeft)
  · rintro rfl
    exact outside (List.mem_append_right _ inRight)
  · rintro rfl
    exact apart inLeft inRight

/-- Sharing the entries of two leaves. -/
theorem share_leaves
    (middle : Middle order threshold 0 pool id (fronts ++ left :: right :: backs) stale branch)
    {count : Nat} (few : count ≤ left.size + right.size)
    (weaker : ∀ i, stale i ∨ (fronts.length ≤ i + 1 ∧ i + 1 < fronts.length + 2) → stale' i) :
    ∃ after left' right', share pool id fronts.length count = .ok after ∧
      Reshaped order threshold 0 pool after id (fronts ++ left :: right :: backs)
        (fronts ++ left' :: right' :: backs) stale' ∧
      left'.size = count ∧ right'.size = left.size + right.size - count := by
  obtain ⟨idsFront, leftId, rightId, idsBack, separator, window⟩ := middle.window
  obtain ⟨notLeft, notRight, distinct⟩ := middle.distinct window
  obtain ⟨thereLeft, shapeLeft⟩ := window.heldLeft
  obtain ⟨thereRight, shapeRight⟩ := window.heldRight
  obtain ⟨stored, foundLeft, entriesLeft⟩ := Pool.leaf_of_content? thereLeft
  obtain ⟨storedRight, foundRight, entriesRight⟩ := Pool.leaf_of_content? thereRight
  let entries := left.entries ++ right.entries
  let first := pool.write leftId (.leaf { stored with entries := entries.take count })
  have foundRight₁ : first.page? rightId = some (.leaf storedRight) := by
    rw [Pool.page?_write_other _ foundLeft distinct, foundRight]
  let second := first.write rightId (.leaf { storedRight with entries := entries.drop count })
  have account₁ := (Pool.rewrites_write_entries (entries.take count) foundLeft
    [leftId, rightId]).extend [id] [rightId] [] []
  have account₂ := (Pool.rewrites_write_entries (entries.drop count) foundRight₁
    [leftId, rightId]).extend [id, leftId] [] [] []
  have heldLeft : Holds order threshold second 0 leftId (.ofLeaf leftId (entries.take count)) := by
    have kept : second.page? leftId =
        some (.leaf { stored with entries := entries.take count }) := by
      rw [Pool.page?_write_other _ foundRight₁ (Ne.symm distinct)]
      exact Pool.page?_write_self _ foundLeft
    exact .of_leaf (Pool.content?_of_page? kept)
  have heldRight : Holds order threshold second 0 rightId
      (.ofLeaf rightId (entries.drop count)) :=
    .of_leaf (Pool.content?_of_page? (Pool.page?_write_self _ foundRight₁))
  have sizes : left.size + right.size = entries.length := by
    rw [shapeLeft, shapeRight]
    simp only [Span.ofLeaf, entries, List.length_append]
  refine ⟨second, .ofLeaf leftId (entries.take count), .ofLeaf rightId (entries.drop count), ?_, ?_,
    ?_, ?_⟩
  · simp only [share, Pool.branch_eq_ok middle.there, ok_bind, window.leftAt, window.rightAt,
      window.between, Pool.page_eq_ok foundLeft, Pool.page_eq_ok foundRight, entriesLeft,
      entriesRight]
    rfl
  · have there : second.page? id = some (.branch branch) := by
      rw [Pool.page?_write_other _ foundRight₁ (Ne.symm notRight),
        Pool.page?_write_other _ foundLeft (Ne.symm notLeft), middle.there]
    refine Middle.rebuild [left, right]
      [.ofLeaf leftId (entries.take count), .ofLeaf rightId (entries.drop count)]
      middle.counted window.heldFronts window.heldBacks ?_ there window.children
      (.cons heldLeft (.cons heldRight .nil)) ?_ ?_
    · rw [shapeLeft, shapeRight]
      exact account₁.trans account₂
    · exact middle.separated.exchange [left, right] rfl weaker
    · simp [Span.ofLeaf, entries]
  · simp only [Span.ofLeaf, List.length_take]
    omega
  · simp only [Span.ofLeaf, List.length_drop]
    omega

theorem least_of_branch (limits : Limits order threshold) {ids : List PageId}
    {spans : List (Span K V)} {key : K}
    (held : List.Forall₂ (Holds order threshold pool level) ids spans)
    (fits : ∀ child ∈ spans, child.Fits order threshold level) (full : 0 < spans.length)
    (least : (Span.ofBranch id spans).least = some key) :
    spans.head?.bind Span.least = some key := by
  obtain ⟨first, rest, rfl⟩ := List.exists_cons_of_length_pos full
  obtain ⟨child, others, firstHeld, -, rfl⟩ := List.forall₂_cons_right_iff.1 held
  obtain ⟨other, found⟩ := (fits first List.mem_cons_self).least_isSome limits firstHeld
  have same := least_flatMap rest found
  rw [Span.least, Span.ofBranch, same] at least
  rwa [← least]

/-- Two neighbouring children that are branches. What is below them is below their join too, where
the separator that was between them comes between their children. -/
structure Siblings (order threshold level : Nat) (pool : Pool K V) (id leftId rightId : PageId)
    (separator : K) (leftBranch rightBranch : Branch K) (lefts rights : List (Span K V)) :
    Prop where
  thereLeft : pool.page? leftId = some (.branch leftBranch)
  thereRight : pool.page? rightId = some (.branch rightBranch)
  held : List.Forall₂ (Holds order threshold pool level)
    (leftBranch.join separator rightBranch).children (lefts ++ rights)
  fits : ∀ span ∈ lefts ++ rights, span.Fits order threshold level
  separated : Separated allFresh (leftBranch.join separator rightBranch).separators
    (lefts ++ rights)
  counted : pool.Counted ([id, leftId, rightId] ++ (lefts ++ rights).flatMap Span.pages)

theorem Middle.siblings (limits : Limits order threshold) {idsFront idsBack : List PageId}
    {leftId rightId : PageId} {separator : K}
    (middle : Middle order threshold (level + 1) pool id (fronts ++ left :: right :: backs) stale
      branch)
    (window : Window order threshold (level + 1) pool branch fronts left right backs idsFront leftId
      rightId idsBack separator)
    (fresh : ¬ stale fronts.length) (full : 0 < right.size) :
    ∃ leftBranch rightBranch lefts rights, left = .ofBranch leftId lefts ∧
      right = .ofBranch rightId rights ∧
      Siblings order threshold level pool id leftId rightId separator leftBranch rightBranch lefts
        rights := by
  have exactly := middle.separated.2 _ _ window.between fresh
  rw [List.getElem?_append_right (by omega), Nat.add_sub_cancel_left] at exactly
  obtain ⟨leftBranch, lefts, rfl, thereLeft, heldLefts, fitsLeft, separatedLeft⟩ :=
    window.heldLeft
  obtain ⟨rightBranch, rights, rfl, thereRight, heldRights, fitsRight, separatedRight⟩ :=
    window.heldRight
  refine ⟨leftBranch, rightBranch, lefts, rights, rfl, rfl, Pool.branch_of_content? thereLeft,
    Pool.branch_of_content? thereRight, List.rel_append heldLefts heldRights, ?_, ?_, ?_⟩
  · exact fun span member => (List.mem_append.1 member).elim (fitsLeft span) (fitsRight span)
  · exact separatedLeft.append separatedRight
      (least_of_branch limits heldRights fitsRight full exactly)
  · exact middle.countedWindow.perm ((Span.pages_ofBranch_append _ _ _ _).cons id)

/-- Three branches that are written one after the other. -/
theorem Pool.write_branches {a b c : PageId} {oldA oldB oldC : Branch K} (newA newB newC : Branch K)
    (thereA : pool.page? a = some (.branch oldA)) (thereB : pool.page? b = some (.branch oldB))
    (thereC : pool.page? c = some (.branch oldC)) (distinctAB : a ≠ b) (distinctAC : a ≠ c)
    (distinctBC : b ≠ c) {after : Pool K V}
    (written : after = ((pool.write a (.branch newA)).write b (.branch newB)).write c
      (.branch newC)) :
    after.page? a = some (.branch newA) ∧ after.page? b = some (.branch newB) ∧
      after.page? c = some (.branch newC) ∧
      ∀ pages leaves, a ∈ pages → b ∈ pages → c ∈ pages →
        pool.Rewrites after pages pages leaves leaves := by
  let first := pool.write a (.branch newA)
  have thereB₁ : first.page? b = some (.branch oldB) := by
    rw [Pool.page?_write_other _ thereA distinctAB, thereB]
  let second := first.write b (.branch newB)
  have thereC₂ : second.page? c = some (.branch oldC) := by
    rw [Pool.page?_write_other _ thereB₁ distinctBC, Pool.page?_write_other _ thereA distinctAC,
      thereC]
  subst written
  refine ⟨?_, ?_, Pool.page?_write_self _ thereC₂, fun pages leaves memA memB memC => ?_⟩
  · rw [Pool.page?_write_other _ thereC₂ (Ne.symm distinctAC),
      Pool.page?_write_other _ thereB₁ (Ne.symm distinctAB)]
    exact Pool.page?_write_self _ thereA
  · rw [Pool.page?_write_other _ thereC₂ (Ne.symm distinctBC)]
    exact Pool.page?_write_self _ thereB₁
  · have one := (Pool.rewrites_write_branch newA thereA leaves).among memA
    have two := (Pool.rewrites_write_branch newB thereB₁ leaves).among memB
    have three := (Pool.rewrites_write_branch newC thereC₂ leaves).among memC
    exact (one.trans two).trans three

/-- Sharing the children of two branches. Their separator is exact before and after. -/
theorem share_branches (limits : Limits order threshold)
    (middle : Middle order threshold (level + 1) pool id (fronts ++ left :: right :: backs) stale
      branch) (fresh : ¬ stale fronts.length)
    {count : Nat} (positive : 0 < count) (few : count < left.size + right.size)
    (full : 0 < right.size)
    (weaker : ∀ i, stale i ∨ (fronts.length ≤ i + 1 ∧ i + 1 < fronts.length + 2) → stale' i) :
    ∃ after left' right', share pool id fronts.length count = .ok after ∧
      Reshaped order threshold (level + 1) pool after id (fronts ++ left :: right :: backs)
        (fronts ++ left' :: right' :: backs) stale' ∧
      left'.size = count ∧ right'.size = left.size + right.size - count := by
  obtain ⟨idsFront, leftId, rightId, idsBack, separator, window⟩ := middle.window
  obtain ⟨notLeft, notRight, distinct⟩ := middle.distinct window
  obtain ⟨leftBranch, rightBranch, lefts, rights, rfl, rfl, siblings⟩ :=
    middle.siblings limits window fresh full
  have inside : count < (lefts ++ rights).length := by simpa [Span.ofBranch] using few
  obtain ⟨newSeparator, cut, -⟩ := Branch.cut_spec (leftBranch.join separator rightBranch)
    siblings.separated positive inside
  obtain ⟨foundLeft, foundRight, foundTop, account⟩ := Pool.write_branches
    ⟨(leftBranch.join separator rightBranch).children.take count,
      (leftBranch.join separator rightBranch).separators.take (count - 1)⟩
    ⟨(leftBranch.join separator rightBranch).children.drop count,
      (leftBranch.join separator rightBranch).separators.drop count⟩
    { branch with separators := branch.separators.set fronts.length newSeparator }
    siblings.thereLeft siblings.thereRight middle.there distinct (Ne.symm notLeft)
    (Ne.symm notRight) rfl
  have held := holds_frame siblings.held
    (account [id, leftId, rightId] [] (by simp) (by simp) (by simp)) siblings.counted
    (List.Subset.refl _)
  obtain ⟨heldLeft, heldRight⟩ := Branch.holds_parts held siblings.fits siblings.separated positive
    inside (Pool.content?_of_page? foundLeft) (Pool.content?_of_page? foundRight)
  -- both before and after, the three pages and those below them are these
  have pages : ∀ given others : List (Span K V), given ++ others = lefts ++ rights →
      (id :: leftId :: rightId :: (lefts ++ rights).flatMap Span.pages).Perm
        (id :: ([Span.ofBranch leftId given, .ofBranch rightId others].flatMap Span.pages)) := by
    intro given others same
    have parts := Span.pages_ofBranch_append leftId rightId given others
    rw [same] at parts
    simpa using (parts.symm.cons id)
  refine ⟨_, .ofBranch leftId ((lefts ++ rights).take count),
    .ofBranch rightId ((lefts ++ rights).drop count), ?_,
    Middle.rebuild [.ofBranch leftId lefts, .ofBranch rightId rights] [_, _] middle.counted
      window.heldFronts window.heldBacks ?_ foundTop window.children
      (.cons heldLeft (.cons heldRight .nil)) ?_ ?_, ?_, ?_⟩
  · simp only [share, Pool.branch_eq_ok middle.there, ok_bind, window.leftAt, window.rightAt,
      window.between, Pool.page_eq_ok siblings.thereLeft, Pool.page_eq_ok siblings.thereRight, cut]
    rfl
  · have shared := (account (id :: leftId :: rightId :: (lefts ++ rights).flatMap Span.pages)
      ((lefts ++ rights).flatMap Span.leaves) (by simp) (by simp) (by simp)).perm
      (pages lefts rights rfl) (pages _ _ (List.take_append_drop count _))
    simpa only [List.flatMap_cons, List.flatMap_nil, List.append_nil, Span.leaves_ofBranch_append,
      List.take_append_drop] using shared
  · have moved : Separated stale' branch.separators (fronts ++
        ([.ofBranch leftId ((lefts ++ rights).take count),
          .ofBranch rightId ((lefts ++ rights).drop count)] ++ backs)) :=
      middle.separated.exchange [_, _] rfl weaker
    have touched := weaker fronts.length (.inr ⟨by omega, by omega⟩)
    exact moved.set (.inl touched) fun _ _ old => old
  · simp only [List.flatMap_cons, List.flatMap_nil, List.append_nil, Span.entries_ofBranch_append,
      List.take_append_drop]
  · simp only [Span.ofBranch, List.length_take]
    omega
  · simp only [Span.ofBranch, List.length_drop, List.length_append]

theorem share_spec (limits : Limits order threshold)
    (middle : Middle order threshold level pool id (fronts ++ left :: right :: backs) stale branch)
    (stale' : Nat → Prop) (count : Nat) (positive : 0 < count)
    (few : count < left.size + right.size)
    (inner : level ≠ 0 → ¬ stale fronts.length ∧ 0 < right.size)
    (weaker : ∀ i, stale i ∨ (fronts.length ≤ i + 1 ∧ i + 1 < fronts.length + 2) → stale' i) :
    ∃ after left' right', share pool id fronts.length count = .ok after ∧
      Reshaped order threshold level pool after id (fronts ++ left :: right :: backs)
        (fronts ++ left' :: right' :: backs) stale' ∧
      left'.size = count ∧ right'.size = left.size + right.size - count := by
  cases level with
  | zero => exact share_leaves middle (Nat.le_of_lt few) weaker
  | succ level =>
      obtain ⟨fresh, full⟩ := inner (Nat.succ_ne_zero level)
      exact share_branches limits middle fresh positive few full weaker

end Neighbours

namespace Pool

theorem occupied_without {gone : PageId} (there : (pool.page? gone).isSome) (other : PageId) :
    (pool.without gone).occupied other + [gone].count other = pool.occupied other := by
  rw [occupied, page?_without there, List.count_singleton]
  by_cases same : gone = other
  · subst same
    simp [occupied, there]
  · simp [same, occupied]

/-- A page given back is accounted for alone, if it is no leaf of a chain. -/
theorem rewrites_without {gone : PageId} {branch : Branch K}
    (there : pool.page? gone = some (.branch branch)) (leaves : List PageId) :
    pool.Rewrites (pool.without gone) [gone] [] leaves leaves := by
  have present : (pool.page? gone).isSome := by rw [there]; rfl
  refine ⟨tidy_without present, fun other => ?_, fun other outside _ => ?_,
    fun front back chain => ?_⟩
  · rw [occupied_without present, List.count_nil, Nat.add_zero]
  · have distinct : gone ≠ other := fun same => outside (by simp [same])
    rw [content?, page?_without present, if_neg distinct, content?]
  · refine ⟨chain.nodup, linked_congr (fun other member => ?_) chain.linked⟩
    have distinct : gone ≠ other := by
      rintro rfl
      obtain ⟨leaf, found⟩ := chain.exists_leaf member
      rw [there] at found
      cases found
    rw [page?_without present, if_neg distinct]

/-- A leaf takes over the entries and the right link of its right neighbour, which is given back. -/
theorem absorb_spec {id gone : PageId} {left right : Leaf K V} (entries : List (K × V))
    (there : pool.page? id = some (.leaf left)) (there' : pool.page? gone = some (.leaf right))
    (distinct : id ≠ gone)
    (target : ∀ next, right.right = some next → next ≠ id ∧ next ≠ gone ∧
      ∃ leaf, pool.page? next = some (.leaf leaf)) :
    ∃ after, ((pool.without gone).write id
        (.leaf { left with entries, right := right.right })).linkLeft right.right id = .ok after ∧
      after.content? id = some (.leaf ⟨entries, none, none⟩) ∧
      pool.Rewrites after [id, gone] [id] [id, gone] [id] := by
  have present : (pool.page? gone).isSome := by rw [there']; rfl
  have there₁ : (pool.without gone).page? id = some (.leaf left) := by
    rw [page?_without present, if_neg (Ne.symm distinct), there]
  let page : Page K V := .leaf { left with entries, right := right.right }
  have written : ∀ other, other ≠ id → other ≠ gone →
      ((pool.without gone).write id page).page? other = pool.page? other := by
    intro other notHere notGone
    rw [page?_write_other _ there₁ (Ne.symm notHere), page?_without present,
      if_neg (Ne.symm notGone)]
  have nextLeaf : ∀ next leaf, right.right = some next → pool.page? next = some (.leaf leaf) →
      ((pool.without gone).write id page).page? next = some (.leaf leaf) := by
    intro next leaf link found
    obtain ⟨notHere, notGone, -⟩ := target next link
    rw [written next notHere notGone, found]
  obtain ⟨after, ran, nextPage, others, tidy, occupied, content⟩ :=
    linkLeft_spec ((pool.without gone).write id page) right.right id
      fun next link => by
        obtain ⟨-, -, leaf, found⟩ := target next link
        exact ⟨leaf, nextLeaf next leaf link found⟩
  have here : after.page? id = some page := by
    rw [others id fun link => (target id link).1 rfl]
    exact page?_write_self page there₁
  refine ⟨after, ran, content?_of_page? here, ?_, fun other => ?_, fun other outside _ => ?_, ?_⟩
  · exact fun tidied => tidy (tidy_write page there₁ (tidy_without present tidied))
  · have sum := occupied_without present other
    rw [occupied, occupied_write page there₁]
    simp only [List.count_cons, List.count_nil] at sum ⊢
    omega
  · simp only [List.mem_cons, List.not_mem_nil, or_false, not_or] at outside
    rw [content, content?, written other outside.1 outside.2, content?]
  · intro front back chain
    have linkEq : right.right = back.head? := by
      have shifted : pool.Chained ((front ++ [id]) ++ gone :: back) := by simpa using chain
      exact shifted.right_eq there'
    refine chained_erase chain ⟨?_, ?_, ?_⟩
    · intro leaf found
      obtain rfl : left = leaf := by simpa [there] using found
      exact ⟨_, here, rfl, linkEq⟩
    · intro leaf next isNext found
      exact ⟨_, nextPage next leaf (linkEq.trans isNext)
        (nextLeaf next leaf (linkEq.trans isNext) found), rfl, rfl⟩
    · intro other notHere notGone notNext
      rw [others other (by rwa [linkEq]), written other notHere
        (fun same => notGone (by simp [same]))]

end Pool

section Joining

variable {fronts backs : List (Span K V)} {left right : Span K V} {stale stale' : Nat → Prop}
  {branch : Branch K} {front back : List PageId}

/-- The branch without the right one of two neighbouring children. -/
def Branch.without (branch : Branch K) (leftSlot : Nat) : Branch K :=
  ⟨branch.children.eraseIdx (leftSlot + 1), branch.separators.eraseIdx leftSlot⟩

theorem eraseIdx_window {α : Type} (front back : List α) (x y : α) :
    (front ++ x :: y :: back).eraseIdx (front.length + 1) = front ++ x :: back := by
  rw [List.eraseIdx_append_of_length_le (by omega)]
  rw [show front.length + 1 - front.length = 1 by omega]
  rfl

theorem merge_leaves
    (middle : Middle order threshold 0 pool id (fronts ++ left :: right :: backs) stale branch)
    (chain : pool.Chained
      (front ++ ((fronts ++ left :: right :: backs).flatMap Span.leaves ++ back)))
    (weaker : ∀ i, i + 1 = fronts.length ∨ (i + 1 < fronts.length ∧ stale i) ∨
      (fronts.length ≤ i ∧ stale (i + 1)) → stale' i) :
    ∃ after joined, merge pool id fronts.length = .ok after ∧
      Reshaped order threshold 0 pool after id (fronts ++ left :: right :: backs)
        (fronts ++ joined :: backs) stale' ∧ joined.size = left.size + right.size := by
  obtain ⟨idsFront, leftId, rightId, idsBack, separator, window⟩ := middle.window
  obtain ⟨notLeft, notRight, distinct⟩ := middle.distinct window
  obtain ⟨thereLeft, shapeLeft⟩ := window.heldLeft
  obtain ⟨thereRight, shapeRight⟩ := window.heldRight
  obtain ⟨stored, foundLeft, entriesLeft⟩ := Pool.leaf_of_content? thereLeft
  obtain ⟨storedRight, foundRight, entriesRight⟩ := Pool.leaf_of_content? thereRight
  let first := pool.write id (.branch (branch.without fronts.length))
  have account₁ := Pool.rewrites_write_branch (branch.without fronts.length) middle.there
    [leftId, rightId]
  have foundLeft₁ : first.page? leftId = some (.leaf stored) := by
    rw [Pool.page?_write_other _ middle.there notLeft, foundLeft]
  have foundRight₁ : first.page? rightId = some (.leaf storedRight) := by
    rw [Pool.page?_write_other _ middle.there notRight, foundRight]
  have chain₁ : first.Chained ((front ++ (fronts.flatMap Span.leaves ++ [leftId])) ++ rightId ::
      (backs.flatMap Span.leaves ++ back)) := by
    have moved :=
      (Pool.rewrites_write_branch (branch.without fronts.length) middle.there []).chained
        _ [] (by simpa using chain)
    rw [shapeLeft, shapeRight] at moved
    simpa [Span.ofLeaf] using moved
  have target : ∀ next, storedRight.right = some next → next ≠ leftId ∧ next ≠ rightId ∧
      ∃ leaf, first.page? next = some (.leaf leaf) := by
    intro next link
    obtain ⟨notBefore, notHere, found⟩ := chain₁.right_link foundRight₁ link
    exact ⟨fun same => notBefore (by simp [same]), notHere, found⟩
  obtain ⟨after, ran, content, account₂⟩ := Pool.absorb_spec (left.entries ++ right.entries)
    foundLeft₁ foundRight₁ distinct target
  have heldJoined : Holds order threshold after 0 leftId
      (.ofLeaf leftId (left.entries ++ right.entries)) := .of_leaf content
  have account : pool.Rewrites after (id :: [left, right].flatMap Span.pages)
      (id :: [Span.ofLeaf leftId (left.entries ++ right.entries)].flatMap Span.pages)
      ([left, right].flatMap Span.leaves)
      ([Span.ofLeaf leftId (left.entries ++ right.entries)].flatMap Span.leaves) := by
    rw [shapeLeft, shapeRight]
    exact (account₁.among (by simp)).trans (account₂.extend [id] [] [] [])
  have there : after.page? id = some (.branch (branch.without fronts.length)) := by
    have top : first.page? id = some (.branch (branch.without fronts.length)) :=
      Pool.page?_write_self _ middle.there
    refine Pool.branch_of_content? ?_
    rw [account₂.frame id (by simp [notLeft, notRight]) (by rw [top]; rfl)]
    exact Pool.content?_of_page? top
  have kept : (first.without rightId).page? leftId = some (.leaf stored) := by
    rw [Pool.page?_without (by rw [foundRight₁]; rfl), if_neg (Ne.symm distinct), foundLeft₁]
  refine ⟨after, .ofLeaf leftId (left.entries ++ right.entries), ?_, Middle.rebuild
    [left, right] [_] middle.counted window.heldFronts window.heldBacks account
    there ?_ (.cons heldJoined .nil) ?_ ?_, ?_⟩
  · simp only [merge, Pool.branch_eq_ok middle.there, ok_bind, window.leftAt, window.rightAt,
      window.between]
    rw [show pool.write id (.branch ⟨branch.children.eraseIdx (fronts.length + 1),
      branch.separators.eraseIdx fronts.length⟩) = first from rfl]
    simp only [Pool.release_eq_ok foundRight₁, ok_bind, Pool.leaf_eq_ok kept, entriesLeft,
      entriesRight]
    exact ran
  · simp only [Branch.without, window.children, ← window.lengths, eraseIdx_window]
    rfl
  · exact middle.separated.unite weaker
  · simp [Span.ofLeaf]
  · rw [shapeLeft, shapeRight]
    simp [Span.ofLeaf]

/-- Joining two branches. Their separator comes between their children. -/
theorem merge_branches (limits : Limits order threshold)
    (middle : Middle order threshold (level + 1) pool id (fronts ++ left :: right :: backs) stale
      branch) (fresh : ¬ stale fronts.length) (full : 0 < right.size)
    (weaker : ∀ i, i + 1 = fronts.length ∨ (i + 1 < fronts.length ∧ stale i) ∨
      (fronts.length ≤ i ∧ stale (i + 1)) → stale' i) :
    ∃ after joined, merge pool id fronts.length = .ok after ∧
      Reshaped order threshold (level + 1) pool after id (fronts ++ left :: right :: backs)
        (fronts ++ joined :: backs) stale' ∧ joined.size = left.size + right.size := by
  obtain ⟨idsFront, leftId, rightId, idsBack, separator, window⟩ := middle.window
  obtain ⟨notLeft, notRight, distinct⟩ := middle.distinct window
  obtain ⟨leftBranch, rightBranch, lefts, rights, rfl, rfl, siblings⟩ :=
    middle.siblings limits window fresh full
  let top := branch.without fronts.length
  let joined := leftBranch.join separator rightBranch
  let first := pool.write id (.branch top)
  have foundLeft₁ : first.page? leftId = some (.branch leftBranch) := by
    rw [Pool.page?_write_other _ middle.there notLeft, siblings.thereLeft]
  have foundRight₁ : first.page? rightId = some (.branch rightBranch) := by
    rw [Pool.page?_write_other _ middle.there notRight, siblings.thereRight]
  have present : (first.page? rightId).isSome := by rw [foundRight₁]; rfl
  have kept : (first.without rightId).page? leftId = some (.branch leftBranch) := by
    rw [Pool.page?_without present, if_neg (Ne.symm distinct), foundLeft₁]
  let after := (first.without rightId).write leftId (.branch joined)
  have there : after.page? id = some (.branch top) := by
    rw [Pool.page?_write_other _ kept (Ne.symm notLeft), Pool.page?_without present,
      if_neg (Ne.symm notRight)]
    exact Pool.page?_write_self _ middle.there
  -- the old pages without the one that is given back
  have account : ∀ pages leaves, pool.Rewrites after (id :: leftId :: rightId :: pages)
      (id :: leftId :: pages) leaves leaves := by
    intro pages leaves
    have one := (Pool.rewrites_write_branch top middle.there leaves).among
      (show id ∈ id :: leftId :: rightId :: pages by simp)
    have two := (Pool.rewrites_without foundRight₁ leaves).extend [id, leftId] pages [] []
    have three := (Pool.rewrites_write_branch joined kept leaves).among
      (show leftId ∈ id :: leftId :: pages by simp)
    simp only [List.nil_append, List.append_nil, List.cons_append] at two
    exact (one.trans two).trans three
  have heldJoined : Holds order threshold after (level + 1) leftId
      (.ofBranch leftId (lefts ++ rights)) := by
    have there : after.page? leftId = some (.branch joined) := Pool.page?_write_self _ kept
    exact ⟨joined, _, rfl, Pool.content?_of_page? there,
      holds_frame siblings.held (account [] []) siblings.counted (List.Subset.refl _),
      siblings.fits, siblings.separated⟩
  refine ⟨after, .ofBranch leftId (lefts ++ rights), ?_, Middle.rebuild
    [.ofBranch leftId lefts, .ofBranch rightId rights] [_] middle.counted
    window.heldFronts window.heldBacks ?_ there ?_ (.cons heldJoined .nil) ?_ ?_,
    ?_⟩
  · simp only [merge, Pool.branch_eq_ok middle.there, ok_bind, window.leftAt, window.rightAt,
      window.between]
    rw [show pool.write id (.branch ⟨branch.children.eraseIdx (fronts.length + 1),
      branch.separators.eraseIdx fronts.length⟩) = first from rfl]
    simp only [Pool.release_eq_ok foundRight₁, ok_bind, Pool.branch_eq_ok kept]
    rfl
  · have base := (account ((lefts ++ rights).flatMap Span.pages)
      ((lefts ++ rights).flatMap Span.leaves)).perm
      ((Span.pages_ofBranch_append leftId rightId lefts rights).symm.cons id) (List.Perm.refl _)
    simpa [Span.ofBranch] using base
  · simp only [top, Branch.without, window.children, ← window.lengths, eraseIdx_window]
    rfl
  · exact middle.separated.unite weaker
  · simp [Span.ofBranch]
  · simp [Span.ofBranch]

theorem merge_spec (limits : Limits order threshold)
    (middle : Middle order threshold level pool id (fronts ++ left :: right :: backs) stale branch)
    (stale' : Nat → Prop) (inner : level ≠ 0 → ¬ stale fronts.length ∧ 0 < right.size)
    (chain : pool.Chained
      (front ++ ((fronts ++ left :: right :: backs).flatMap Span.leaves ++ back)))
    (weaker : ∀ i, i + 1 = fronts.length ∨ (i + 1 < fronts.length ∧ stale i) ∨
      (fronts.length ≤ i ∧ stale (i + 1)) → stale' i) :
    ∃ after joined, merge pool id fronts.length = .ok after ∧
      Reshaped order threshold level pool after id (fronts ++ left :: right :: backs)
        (fronts ++ joined :: backs) stale' ∧ joined.size = left.size + right.size := by
  cases level with
  | zero => exact merge_leaves middle chain weaker
  | succ level =>
      obtain ⟨fresh, full⟩ := inner (Nat.succ_ne_zero level)
      exact merge_branches limits middle fresh full weaker

end Joining

end PageTree
end Docstore
