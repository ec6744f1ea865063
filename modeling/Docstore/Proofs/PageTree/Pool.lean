import Mathlib
import Docstore.PageTree.Insert

set_option autoImplicit false

namespace Docstore
namespace PageTree

variable {K V : Type}

def Page.content : Page K V → Page K V
  | .leaf l => .leaf ⟨l.entries, none, none⟩
  | .branch b => .branch b

namespace Pool

def content? (pool : Pool K V) (id : PageId) : Option (Page K V) :=
  (pool.page? id).map Page.content

/-- One for a slot that holds a page, and zero for any other. -/
def occupied (pool : Pool K V) (id : PageId) : Nat :=
  if (pool.page? id).isSome then 1 else 0

/-- The free list names each empty slot once, and nothing else. -/
structure Tidy (pool : Pool K V) : Prop where
  nodup : pool.free.Nodup
  empty : ∀ id, id ∈ pool.free ↔ id < pool.slots.length ∧ pool.page? id = none

/-- The leaves follow each other in a doubly linked list, of which one is named before the first
and none after the last. -/
def Linked (pool : Pool K V) : Option PageId → List PageId → Prop
  | _, [] => True
  | before, id :: rest =>
    (∃ leaf, pool.page? id = some (.leaf leaf) ∧ leaf.left = before ∧ leaf.right = rest.head?) ∧
      pool.Linked (some id) rest

/-- The leaves are all different and form one chain. -/
structure Chained (pool : Pool K V) (leaves : List PageId) : Prop where
  nodup : leaves.Nodup
  linked : pool.Linked none leaves

/-- The account of an operation that replaces old pages by new ones. -/
structure Rewrites (before after : Pool K V) (oldPages newPages : List PageId)
    (oldLeaves newLeaves : List PageId) : Prop where
  tidy : before.Tidy → after.Tidy
  /-- Every slot that is taken in addition is a new page, and every slot given back an old one. -/
  tally : ∀ id, after.occupied id + oldPages.count id = before.occupied id + newPages.count id
  frame : ∀ id, id ∉ oldPages → (before.page? id).isSome → after.content? id = before.content? id
  chained : ∀ front back, before.Chained (front ++ (oldLeaves ++ back)) →
    after.Chained (front ++ (newLeaves ++ back))

variable {pool first second third : Pool K V}

theorem occupied_le_one (pool : Pool K V) (id : PageId) : pool.occupied id ≤ 1 := by
  unfold occupied
  split <;> omega

theorem occupied_eq_one {id : PageId} : pool.occupied id = 1 ↔ (pool.page? id).isSome := by
  unfold occupied
  split <;> simp_all

theorem content?_of_page? {id : PageId} {page : Page K V} (there : pool.page? id = some page) :
    pool.content? id = some page.content := by
  simp only [content?, there, Option.map_some]

theorem leaf_of_content? {id : PageId} {entries : List (K × V)}
    (there : pool.content? id = some (.leaf ⟨entries, none, none⟩)) :
    ∃ leaf, pool.page? id = some (.leaf leaf) ∧ leaf.entries = entries := by
  unfold content? at there
  cases found : pool.page? id with
  | none => simp [found] at there
  | some page =>
      cases page with
      | leaf leaf => exact ⟨leaf, rfl, by simpa [found, Page.content] using there⟩
      | branch branch => simp [found, Page.content] at there

theorem branch_of_content? {id : PageId} {branch : Branch K}
    (there : pool.content? id = some (.branch branch)) :
    pool.page? id = some (.branch branch) := by
  unfold content? at there
  cases found : pool.page? id with
  | none => simp [found] at there
  | some page =>
      cases page with
      | leaf leaf => simp [found, Page.content] at there
      | branch other => simpa [found, Page.content] using there

theorem leaf_eq_ok {id : PageId} {leaf : Leaf K V} (there : pool.page? id = some (.leaf leaf)) :
    pool.leaf id = .ok leaf := by
  simp only [Pool.leaf, there]

theorem branch_eq_ok {id : PageId} {branch : Branch K}
    (there : pool.page? id = some (.branch branch)) : pool.branch id = .ok branch := by
  simp only [Pool.branch, there]

theorem page_eq_ok {id : PageId} {page : Page K V} (there : pool.page? id = some page) :
    pool.page id = .ok page := by
  simp only [Pool.page, there]

namespace Rewrites

theorem refl (pool : Pool K V) (pages leaves : List PageId) :
    Rewrites pool pool pages pages leaves leaves :=
  ⟨id, fun _ => rfl, fun _ _ _ => rfl, fun _ _ chain => chain⟩

/-- Accounts compose where the second starts from what the first ends with. -/
theorem trans {pages₁ pages₂ pages₃ leaves₁ leaves₂ leaves₃ : List PageId}
    (one : Rewrites first second pages₁ pages₂ leaves₁ leaves₂)
    (two : Rewrites second third pages₂ pages₃ leaves₂ leaves₃) :
    Rewrites first third pages₁ pages₃ leaves₁ leaves₃ where
  tidy := two.tidy ∘ one.tidy
  tally id := by
    have sum₁ := one.tally id
    have sum₂ := two.tally id
    omega
  frame id outside there := by
    have sum := one.tally id
    have taken := occupied_eq_one.2 there
    have absent := List.count_eq_zero.2 outside
    have most := second.occupied_le_one id
    have stays : (second.page? id).isSome := occupied_eq_one.1 (by omega)
    have outside₂ : id ∉ pages₂ := List.count_eq_zero.1 (by omega)
    rw [two.frame id outside₂ stays, one.frame id outside there]
  chained front back := two.chained front back ∘ one.chained front back

/-- What happens to some pages happens to them among others. -/
theorem extend {oldPages newPages oldLeaves newLeaves : List PageId}
    (account : Rewrites first second oldPages newPages oldLeaves newLeaves)
    (pages₁ pages₂ leaves₁ leaves₂ : List PageId) :
    Rewrites first second (pages₁ ++ (oldPages ++ pages₂)) (pages₁ ++ (newPages ++ pages₂))
      (leaves₁ ++ (oldLeaves ++ leaves₂)) (leaves₁ ++ (newLeaves ++ leaves₂)) where
  tidy := account.tidy
  tally id := by
    have sum := account.tally id
    simp only [List.count_append]
    omega
  frame id outside there := by
    simp only [List.mem_append, not_or] at outside
    exact account.frame id outside.2.1 there
  chained front back chain := by
    have inner := account.chained (front ++ leaves₁) (leaves₂ ++ back)
    simp only [List.append_assoc] at inner chain ⊢
    exact inner chain

theorem perm {oldPages oldPages' newPages newPages' oldLeaves newLeaves : List PageId}
    (account : Rewrites first second oldPages newPages oldLeaves newLeaves)
    (old : oldPages.Perm oldPages') (new : newPages.Perm newPages') :
    Rewrites first second oldPages' newPages' oldLeaves newLeaves where
  tidy := account.tidy
  tally id := by
    rw [← old.count_eq, ← new.count_eq]
    exact account.tally id
  frame id outside := account.frame id fun member => outside (old.subset member)
  chained := account.chained

end Rewrites

theorem page?_write_self {id : PageId} {old : Page K V} (new : Page K V)
    (there : pool.page? id = some old) : (pool.write id new).page? id = some new := by
  rw [page?_write id new (lt_length_of_page? there), if_pos rfl]

theorem page?_write_other {id other : PageId} {old : Page K V} (new : Page K V)
    (there : pool.page? id = some old) (distinct : id ≠ other) :
    (pool.write id new).page? other = pool.page? other := by
  rw [page?_write other new (lt_length_of_page? there), if_neg distinct]

theorem isSome_page?_write {id : PageId} {old : Page K V} (new : Page K V)
    (there : pool.page? id = some old) (other : PageId) :
    ((pool.write id new).page? other).isSome = (pool.page? other).isSome := by
  rw [page?_write other new (lt_length_of_page? there)]
  by_cases same : id = other
  · subst same
    simp [there]
  · rw [if_neg same]

theorem occupied_write {id : PageId} {old : Page K V} (new : Page K V)
    (there : pool.page? id = some old) (other : PageId) :
    (pool.write id new).occupied other = pool.occupied other := by
  simp only [occupied, isSome_page?_write new there]

theorem tidy_write {id : PageId} {old : Page K V} (new : Page K V)
    (there : pool.page? id = some old) (tidy : pool.Tidy) : (pool.write id new).Tidy where
  nodup := tidy.nodup
  empty other := by
    have same := isSome_page?_write new there other
    rw [Bool.eq_iff_iff, Option.isSome_iff_ne_none, Option.isSome_iff_ne_none] at same
    rw [not_iff_not.1 same]
    simpa only [write, List.length_set] using tidy.empty other

/-- Links survive where a leaf is written with its links unchanged, or no leaf of the chain is
written. -/
theorem linked_write {id : PageId} {old new : Page K V} (there : pool.page? id = some old)
    (links : ∀ leaf, old = .leaf leaf → ∃ leaf', new = .leaf leaf' ∧ leaf'.left = leaf.left ∧
      leaf'.right = leaf.right) {before : Option PageId} {leaves : List PageId}
    (chain : pool.Linked before leaves) : (pool.write id new).Linked before leaves := by
  induction leaves generalizing before with
  | nil => trivial
  | cons leafId rest ih =>
      obtain ⟨⟨leaf, found, left, right⟩, others⟩ := chain
      refine ⟨?_, ih others⟩
      by_cases same : id = leafId
      · subst same
        obtain rfl : old = .leaf leaf := by rw [found] at there; exact (Option.some.inj there).symm
        obtain ⟨leaf', rfl, left', right'⟩ := links leaf rfl
        exact ⟨leaf', page?_write_self _ found, left'.trans left, right'.trans right⟩
      · exact ⟨leaf, by rw [page?_write_other _ there same, found], left, right⟩

theorem rewrites_write {id : PageId} {old new : Page K V} (there : pool.page? id = some old)
    (links : ∀ leaf, old = .leaf leaf → ∃ leaf', new = .leaf leaf' ∧ leaf'.left = leaf.left ∧
      leaf'.right = leaf.right) (leaves : List PageId) :
    Rewrites pool (pool.write id new) [id] [id] leaves leaves where
  tidy := tidy_write new there
  tally other := by rw [occupied_write new there]
  frame other outside _ := by
    have distinct : id ≠ other := fun same => outside (by simp [same])
    simp only [content?, page?_write_other new there distinct]
  chained front back chain := ⟨chain.nodup, linked_write there links chain.linked⟩

theorem rewrites_write_branch {id : PageId} {old : Branch K} (new : Branch K)
    (there : pool.page? id = some (.branch old)) (leaves : List PageId) :
    Rewrites pool (pool.write id (.branch new)) [id] [id] leaves leaves :=
  rewrites_write there (fun _ impossible => by cases impossible) leaves

theorem rewrites_write_entries {id : PageId} {leaf : Leaf K V} (entries : List (K × V))
    (there : pool.page? id = some (.leaf leaf)) (leaves : List PageId) :
    Rewrites pool (pool.write id (.leaf { leaf with entries })) [id] [id] leaves leaves :=
  rewrites_write there (fun other same => by cases same; exact ⟨_, rfl, rfl, rfl⟩) leaves

theorem page?_allocate_fresh (page : Page K V) (tidy : pool.Tidy) :
    pool.page? (pool.allocate page).1 = none := by
  unfold allocate
  cases waiting : pool.free with
  | nil => simp [page?]
  | cons id rest => exact ((tidy.empty id).1 (by simp [waiting])).2

theorem page?_allocate (page : Page K V) (tidy : pool.Tidy) (other : PageId) :
    (pool.allocate page).2.page? other =
      if (pool.allocate page).1 = other then some page else pool.page? other := by
  unfold allocate
  cases waiting : pool.free with
  | nil =>
      simp only [page?, List.getElem?_append, List.getElem?_singleton]
      by_cases inside : other < pool.slots.length
      · have distinct : pool.slots.length ≠ other := Nat.ne_of_gt inside
        simp only [inside, distinct, if_true, if_false]
      · by_cases same : pool.slots.length = other
        · subst same
          simp
        · have beyond : other - pool.slots.length ≠ 0 :=
            Nat.sub_ne_zero_of_lt (Nat.lt_of_le_of_ne (Nat.not_lt.1 inside) same)
          simp [inside, same, beyond]
  | cons id rest =>
      have inside := ((tidy.empty id).1 (by simp [waiting])).1
      simp only [page?, List.getElem?_set, if_pos inside]
      split <;> rfl

theorem tidy_allocate (page : Page K V) (tidy : pool.Tidy) : (pool.allocate page).2.Tidy := by
  have pages := page?_allocate page tidy
  have nodup := tidy.nodup
  have empty := tidy.empty
  unfold allocate at pages ⊢
  cases waiting : pool.free with
  | nil =>
      simp only [waiting] at pages empty
      refine ⟨List.nodup_nil, fun other => ?_⟩
      rw [pages other]
      by_cases same : pool.slots.length = other
      · simp [same]
      · have absent := (empty other).not.1 List.not_mem_nil
        simp only [List.not_mem_nil, if_neg same, List.length_append, List.length_singleton,
          false_iff]
        intro ⟨inside, missing⟩
        exact absent ⟨Nat.lt_of_le_of_ne (Nat.le_of_lt_succ inside) (Ne.symm same), missing⟩
  | cons id rest =>
      simp only [waiting] at pages empty nodup
      obtain ⟨unlisted, others⟩ := List.nodup_cons.1 nodup
      refine ⟨others, fun other => ?_⟩
      rw [pages other, List.length_set]
      by_cases same : id = other
      · subst same
        simp [unlisted]
      · rw [if_neg same, ← empty other, List.mem_cons]
        exact ⟨.inr, fun listed => listed.resolve_left (Ne.symm same)⟩

theorem lt_length_of_isSome {id : PageId} (there : (pool.page? id).isSome) :
    id < pool.slots.length := by
  obtain ⟨page, found⟩ := Option.isSome_iff_exists.1 there
  exact lt_length_of_page? found

def without (pool : Pool K V) (id : PageId) : Pool K V :=
  ⟨pool.slots.set id none, id :: pool.free⟩

theorem release_eq_ok {id : PageId} {page : Page K V} (there : pool.page? id = some page) :
    pool.release id = .ok (page, pool.without id) := by
  unfold release
  rw [page_eq_ok there]
  rfl

theorem page?_without {id : PageId} (there : (pool.page? id).isSome) (other : PageId) :
    (pool.without id).page? other = if id = other then none else pool.page? other := by
  simp only [page?, without, List.getElem?_set, if_pos (lt_length_of_isSome there)]
  split <;> rfl

theorem tidy_without {id : PageId} (there : (pool.page? id).isSome) (tidy : pool.Tidy) :
    (pool.without id).Tidy := by
  have listed := (tidy.empty id).not.2 fun both => by simp [both.2] at there
  refine ⟨List.nodup_cons.2 ⟨listed, tidy.nodup⟩, fun other => ?_⟩
  rw [page?_without there other]
  simp only [without, List.mem_cons, List.length_set]
  by_cases same : id = other
  · subst same
    simp [lt_length_of_isSome there]
  · rw [if_neg same, ← tidy.empty other]
    exact ⟨fun member => member.resolve_left (Ne.symm same), .inr⟩

theorem linked_congr {before : Option PageId} {leaves : List PageId}
    (same : ∀ id ∈ leaves, second.page? id = first.page? id)
    (chain : first.Linked before leaves) : second.Linked before leaves := by
  induction leaves generalizing before with
  | nil => trivial
  | cons id rest ih =>
      obtain ⟨⟨leaf, found, links⟩, others⟩ := chain
      refine ⟨⟨leaf, ?_, links⟩, ih (fun x hx => same x (List.mem_cons_of_mem _ hx)) others⟩
      rw [same id List.mem_cons_self, found]

theorem linked_drop {before : Option PageId} {front back : List PageId}
    (chain : pool.Linked before (front ++ back)) : ∃ before', pool.Linked before' back := by
  induction front generalizing before with
  | nil => exact ⟨before, chain⟩
  | cons id rest ih => exact ih chain.2

theorem Chained.leaf {front back : List PageId} {id : PageId}
    (chain : pool.Chained (front ++ id :: back)) :
    ∃ leaf, pool.page? id = some (.leaf leaf) ∧ leaf.right = back.head? := by
  obtain ⟨before, ⟨leaf, found, -, right⟩, -⟩ := linked_drop chain.linked
  exact ⟨leaf, found, right⟩

theorem Chained.right_eq {front back : List PageId} {id : PageId} {leaf : Leaf K V}
    (chain : pool.Chained (front ++ id :: back)) (there : pool.page? id = some (.leaf leaf)) :
    leaf.right = back.head? := by
  obtain ⟨other, found, right⟩ := chain.leaf
  obtain rfl : leaf = other := by simpa [there] using found
  exact right

theorem Chained.exists_leaf {leaves : List PageId} (chain : pool.Chained leaves) {id : PageId}
    (member : id ∈ leaves) : ∃ leaf, pool.page? id = some (.leaf leaf) := by
  obtain ⟨front, back, rfl⟩ := List.append_of_mem member
  obtain ⟨leaf, found, -⟩ := chain.leaf
  exact ⟨leaf, found⟩

theorem Chained.not_mem_back {front back : List PageId} {id : PageId}
    (chain : pool.Chained (front ++ id :: back)) : id ∉ back :=
  (List.nodup_cons.1 (List.nodup_append'.1 chain.nodup).2.1).1

/-- The right link of a leaf leads to another leaf, which is not among those before it. -/
theorem Chained.right_link {front back : List PageId} {id next : PageId} {leaf : Leaf K V}
    (chain : pool.Chained (front ++ id :: back)) (there : pool.page? id = some (.leaf leaf))
    (link : leaf.right = some next) :
    next ∉ front ∧ next ≠ id ∧ ∃ neighbour, pool.page? next = some (.leaf neighbour) := by
  rw [chain.right_eq there] at link
  have member := List.mem_of_mem_head? link
  have apart := (List.nodup_append'.1 chain.nodup).2.2
  refine ⟨fun before => apart before (List.mem_cons_of_mem _ member), ?_,
    chain.exists_leaf (List.mem_append_right _ (List.mem_cons_of_mem _ member))⟩
  rintro rfl
  exact chain.not_mem_back member

/-- How the pages of a chain change where a leaf gains or loses its right neighbour: the leaf has
the new right link, the next leaf the new left link, and all other pages stay. -/
structure Relinks (before after : Pool K V) (id : PageId) (back : List PageId)
    (right left : Option PageId) (touched : List PageId) : Prop where
  here : ∀ leaf, before.page? id = some (.leaf leaf) →
    ∃ leaf', after.page? id = some (.leaf leaf') ∧ leaf'.left = leaf.left ∧ leaf'.right = right
  next : ∀ leaf nextId, back.head? = some nextId → before.page? nextId = some (.leaf leaf) →
    ∃ leaf', after.page? nextId = some (.leaf leaf') ∧ leaf'.left = left ∧
      leaf'.right = leaf.right
  others : ∀ other, other ≠ id → other ∉ touched → back.head? ≠ some other →
    after.page? other = before.page? other

theorem Relinks.back {id : PageId} {back touched : List PageId} {right left : Option PageId}
    (links : Relinks first second id back right left touched) {old : Option PageId}
    (chain : first.Linked old back) (nodup : back.Nodup) (outside : id ∉ back)
    (untouched : ∀ x ∈ touched, x ∉ back) : second.Linked left back := by
  cases back with
  | nil => trivial
  | cons nextId rest =>
      obtain ⟨⟨leaf, found, -, nextRight⟩, others⟩ := chain
      obtain ⟨leaf', found', left', right'⟩ := links.next leaf nextId rfl found
      obtain ⟨once, -⟩ := List.nodup_cons.1 nodup
      refine ⟨⟨leaf', found', left', right'.trans nextRight⟩, linked_congr (fun x hx => ?_) others⟩
      refine links.others x ?_ ?_ ?_
      · rintro rfl
        exact outside (List.mem_cons_of_mem _ hx)
      · exact fun hit => untouched x hit (List.mem_cons_of_mem _ hx)
      · rintro same
        cases same
        exact once hx

/-- A leaf gains a right neighbour. -/
theorem chained_insert {id new : PageId} {front back : List PageId}
    (chain : first.Chained (front ++ id :: back)) (fresh : new ∉ front ++ id :: back)
    (links : Relinks first second id back (some new) (some new) [new])
    (added : ∃ leaf, second.page? new = some (.leaf leaf) ∧ leaf.left = some id ∧
      leaf.right = back.head?) :
    second.Chained (front ++ id :: new :: back) := by
  have step : ∀ before, first.Linked before (front ++ id :: back) →
      (front ++ id :: back).Nodup → new ∉ front ++ id :: back →
      second.Linked before (front ++ id :: new :: back) := by
    clear chain fresh
    induction front with
    | nil =>
        intro before chain nodup fresh
        obtain ⟨⟨leaf, found, left, -⟩, others⟩ := chain
        obtain ⟨leaf', found', left', right'⟩ := links.here leaf found
        obtain ⟨outside, nodup⟩ := List.nodup_cons.1 nodup
        refine ⟨⟨leaf', found', left'.trans left, right'⟩, added,
          links.back others nodup outside ?_⟩
        intro x hx member
        obtain rfl := List.mem_singleton.1 hx
        exact fresh (List.mem_cons_of_mem _ member)
    | cons f rest ih =>
        intro before chain nodup fresh
        obtain ⟨⟨leaf, found, left, right⟩, others⟩ := chain
        obtain ⟨outside, nodup⟩ := List.nodup_cons.1 nodup
        refine ⟨⟨leaf, ?_, left, ?_⟩,
          ih (some f) others nodup fun member => fresh (List.mem_cons_of_mem _ member)⟩
        · rw [links.others f ?_ ?_ ?_, found]
          · rintro rfl
            exact outside (by simp)
          · intro hit
            obtain rfl := List.mem_singleton.1 hit
            exact fresh List.mem_cons_self
          · intro same
            exact outside (by simp [List.mem_of_mem_head? same])
        · rw [right]
          cases rest <;> rfl
  refine ⟨?_, step none chain.linked chain.nodup fresh⟩
  have shuffled : (front ++ id :: new :: back).Perm (new :: (front ++ id :: back)) := by
    rw [← List.cons_append, ← List.singleton_append (l := new :: back), ← List.append_assoc]
    exact List.perm_middle.trans (by simp)
  exact shuffled.nodup_iff.2 (List.nodup_cons.2 ⟨fresh, chain.nodup⟩)

/-- A leaf loses its right neighbour. -/
theorem chained_erase {id gone : PageId} {front back : List PageId}
    (chain : first.Chained (front ++ id :: gone :: back))
    (links : Relinks first second id back back.head? (some id) [gone]) :
    second.Chained (front ++ id :: back) := by
  have step : ∀ before, first.Linked before (front ++ id :: gone :: back) →
      (front ++ id :: gone :: back).Nodup → second.Linked before (front ++ id :: back) := by
    clear chain
    induction front with
    | nil =>
        intro before chain nodup
        obtain ⟨⟨leaf, found, left, -⟩, -, others⟩ := chain
        obtain ⟨leaf', found', left', right'⟩ := links.here leaf found
        obtain ⟨outside, nodup⟩ := List.nodup_cons.1 nodup
        obtain ⟨goneOutside, nodup⟩ := List.nodup_cons.1 nodup
        refine ⟨⟨leaf', found', left'.trans left, right'⟩, links.back others nodup ?_ ?_⟩
        · exact fun member => outside (List.mem_cons_of_mem _ member)
        · intro x hx
          obtain rfl := List.mem_singleton.1 hx
          exact goneOutside
    | cons f rest ih =>
        intro before chain nodup
        obtain ⟨⟨leaf, found, left, right⟩, others⟩ := chain
        obtain ⟨outside, nodup⟩ := List.nodup_cons.1 nodup
        refine ⟨⟨leaf, ?_, left, ?_⟩, ih (some f) others nodup⟩
        · rw [links.others f ?_ ?_ ?_, found]
          · rintro rfl
            exact outside (by simp)
          · intro hit
            obtain rfl := List.mem_singleton.1 hit
            exact outside (by simp)
          · intro same
            exact outside (by simp [List.mem_of_mem_head? same])
        · rw [right]
          cases rest <;> rfl
  refine ⟨chain.nodup.sublist ?_, step none chain.linked chain.nodup⟩
  exact (List.Sublist.refl front).append ((List.sublist_cons_self gone back).cons_cons id)

end Pool
end PageTree
end Docstore
