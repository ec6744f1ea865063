import Docstore.Proofs.PageTree.Entries
import Docstore.Proofs.PageTree.Pool

set_option autoImplicit false

namespace Docstore
namespace PageTree

variable {K V : Type}

/-- A subtree: its entries in order, the number of entries or children of its top page, its leaves
from left to right, and all its pages. -/
structure Span (K V : Type) where
  entries : List (K × V)
  size : Nat
  leaves : List PageId
  pages : List PageId

namespace Span

def least (span : Span K V) : Option K :=
  leastOf span.entries

def ofLeaf (id : PageId) (entries : List (K × V)) : Span K V :=
  ⟨entries, entries.length, [id], [id]⟩

def ofBranch (id : PageId) (spans : List (Span K V)) : Span K V :=
  ⟨spans.flatMap entries, spans.length, spans.flatMap leaves, id :: spans.flatMap pages⟩

end Span

/-- The limits to the sizes of pages that make splits and joins possible. -/
structure Limits (order threshold : Nat) : Prop where
  three : 3 ≤ order
  positive : 1 ≤ threshold
  half : threshold ≤ order / 2

/-- The least size of a page at a level, if it is not the root. -/
def leastSize (threshold : Nat) : Nat → Nat
  | 0 => threshold
  | _ + 1 => max threshold 2

/-- A page other than the root has no fewer entries or children than this, and none has more. -/
def Span.Fits (order threshold level : Nat) (span : Span K V) : Prop :=
  leastSize threshold level ≤ span.size ∧ span.size ≤ order

/-- Each separator is the least key of the child on its right, apart from the stale ones. -/
def Separated (stale : Nat → Prop) (separators : List K) (spans : List (Span K V)) : Prop :=
  separators.length + 1 = spans.length ∧
    ∀ i key, separators[i]? = some key → ¬ stale i → spans[i + 1]?.bind Span.least = some key

def allFresh : Nat → Prop := fun _ => False

/-- The pages below a page at a level hold a span. -/
def Holds (order threshold : Nat) (pool : Pool K V) : Nat → PageId → Span K V → Prop
  | 0, id, span =>
    pool.content? id = some (.leaf ⟨span.entries, none, none⟩) ∧ span = .ofLeaf id span.entries
  | level + 1, id, span =>
    ∃ branch spans, span = .ofBranch id spans ∧ pool.content? id = some (.branch branch) ∧
      List.Forall₂ (Holds order threshold pool level) branch.children spans ∧
      (∀ child ∈ spans, child.Fits order threshold level) ∧
      Separated allFresh branch.separators spans

def Pool.Counted (pool : Pool K V) (pages : List PageId) : Prop :=
  ∀ id, pages.count id ≤ pool.occupied id

namespace Span

theorem entries_ofBranch_around (id : PageId) (before behind : List (Span K V)) (owner : Span K V) :
    (ofBranch id (before ++ owner :: behind)).entries =
      before.flatMap entries ++ (owner.entries ++ behind.flatMap entries) := by
  simp only [ofBranch, List.flatMap_append, List.flatMap_cons]

/-- The leaves around a branch and those below its other children are the leaves around one child.
-/
theorem leaves_ofBranch_around (id : PageId) (before behind : List (Span K V)) (owner : Span K V)
    (front back : List PageId) :
    front ++ ((ofBranch id (before ++ owner :: behind)).leaves ++ back) =
      (front ++ before.flatMap leaves) ++ (owner.leaves ++ (behind.flatMap leaves ++ back)) := by
  simp only [ofBranch, List.flatMap_append, List.flatMap_cons, List.append_assoc]

variable (leftId rightId : PageId) (lefts rights : List (Span K V))

theorem pages_ofBranch_append :
    ((ofBranch leftId lefts).pages ++ (ofBranch rightId rights).pages).Perm
      (leftId :: rightId :: (lefts ++ rights).flatMap pages) := by
  simp only [ofBranch, List.flatMap_append, List.cons_append]
  exact List.perm_middle.cons leftId

theorem leaves_ofBranch_append :
    (ofBranch leftId lefts).leaves ++ (ofBranch rightId rights).leaves =
      (lefts ++ rights).flatMap leaves :=
  List.flatMap_append.symm

theorem entries_ofBranch_append :
    (ofBranch leftId lefts).entries ++ (ofBranch rightId rights).entries =
      (lefts ++ rights).flatMap entries :=
  List.flatMap_append.symm

end Span

namespace Pool.Counted

variable {pool : Pool K V} {pages : List PageId}

theorem nodup (counted : pool.Counted pages) : pages.Nodup := by
  refine List.nodup_iff_count_le_one.2 fun id => ?_
  exact Nat.le_trans (counted id) (pool.occupied_le_one id)

theorem there (counted : pool.Counted pages) {id : PageId} (member : id ∈ pages) :
    (pool.page? id).isSome := by
  have some_page := counted id
  have positive := List.count_pos_iff.2 member
  have most := pool.occupied_le_one id
  exact Pool.occupied_eq_one.1 (by omega)

theorem sublist {fewer : List PageId} (counted : pool.Counted pages)
    (sub : fewer.Sublist pages) : pool.Counted fewer :=
  fun id => Nat.le_trans (sub.count_le id) (counted id)

theorem perm {other : List PageId} (counted : pool.Counted pages) (same : pages.Perm other) :
    pool.Counted other :=
  fun id => by rw [← same.count_eq]; exact counted id

theorem rewrites {after : Pool K V} {newPages oldLeaves newLeaves : List PageId}
    (counted : pool.Counted pages)
    (account : pool.Rewrites after pages newPages oldLeaves newLeaves) :
    after.Counted newPages := by
  intro id
  have sum := account.tally id
  have bound := counted id
  omega

end Pool.Counted

theorem Pool.Rewrites.content?_of_mem {first second : Pool K V}
    {oldPages newPages oldLeaves newLeaves others : List PageId}
    (account : first.Rewrites second oldPages newPages oldLeaves newLeaves)
    (counted : first.Counted (oldPages ++ others)) {id : PageId} (member : id ∈ others) :
    second.content? id = first.content? id := by
  have disjoint := (List.nodup_append'.1 counted.nodup).2.2
  exact account.frame id (fun old => disjoint old member)
    (counted.there (List.mem_append_right _ member))

section Separators

variable {stale stale' : Nat → Prop} {separators : List K} {spans : List (Span K V)}

theorem Separated.mono (separated : Separated stale separators spans)
    (weaker : ∀ i, stale i → stale' i) : Separated stale' separators spans :=
  ⟨separated.1, fun i key found fresh => separated.2 i key found (fun s => fresh (weaker i s))⟩

theorem Separated.at (separated : Separated stale separators spans) {i : Nat}
    (inside : i < separators.length) (fresh : ¬ stale i) :
    spans[i + 1]?.bind Span.least = some separators[i] :=
  separated.2 i _ (List.getElem?_eq_getElem inside) fresh

theorem separated_singleton (span : Span K V) : Separated allFresh ([] : List K) [span] :=
  ⟨rfl, fun i key found => by simp at found⟩

theorem separated_cons_iff {separator : K} {first second : Span K V} :
    Separated allFresh (separator :: separators) (first :: second :: spans) ↔
      second.least = some separator ∧ Separated allFresh separators (second :: spans) := by
  constructor
  · intro ⟨lengths, keys⟩
    refine ⟨by simpa using keys 0 separator rfl id, by simpa using lengths, fun i key found _ => ?_⟩
    simpa using keys (i + 1) key (by simpa using found) id
  · intro ⟨head, lengths, keys⟩
    refine ⟨by simpa using lengths, fun i key found _ => ?_⟩
    cases i with
    | zero =>
        obtain rfl : separator = key := by simpa using found
        simpa using head
    | succ i => simpa using keys i key (by simpa using found) id

/-- The separators of a part of the children are the separators between them. -/
theorem Separated.take (separated : Separated allFresh separators spans) {count : Nat}
    (positive : 0 < count) (inside : count ≤ spans.length) :
    Separated allFresh (separators.take (count - 1)) (spans.take count) := by
  obtain ⟨lengths, keys⟩ := separated
  refine ⟨by simp only [List.length_take]; omega, fun i key found _ => ?_⟩
  rw [List.getElem?_take] at found ⊢
  by_cases early : i < count - 1
  · rw [if_pos early] at found
    rw [if_pos (by omega)]
    exact keys i key found id
  · rw [if_neg early] at found
    cases found

theorem Separated.drop (separated : Separated allFresh separators spans) {count : Nat}
    (inside : count < spans.length) :
    Separated allFresh (separators.drop count) (spans.drop count) := by
  obtain ⟨lengths, keys⟩ := separated
  refine ⟨by simp only [List.length_drop]; omega, fun i key found _ => ?_⟩
  rw [List.getElem?_drop] at found ⊢
  exact keys (count + i) key found id

theorem Separated.append {more : List K} {others : List (Span K V)} {separator : K}
    (left : Separated allFresh separators spans) (right : Separated allFresh more others)
    (between : others.head?.bind Span.least = some separator) :
    Separated allFresh (separators ++ separator :: more) (spans ++ others) := by
  obtain ⟨lengths, keys⟩ := left
  obtain ⟨lengths', keys'⟩ := right
  refine ⟨by simp only [List.length_append, List.length_cons]; omega, fun i key found _ => ?_⟩
  rw [List.getElem?_append] at found ⊢
  by_cases early : i < separators.length
  · rw [if_pos early] at found
    rw [if_pos (by omega)]
    exact keys i key found id
  · rw [if_neg early] at found
    rw [if_neg (by omega)]
    cases position : i - separators.length with
    | zero =>
        obtain rfl : separator = key := by simpa [position] using found
        rw [show i + 1 - spans.length = 0 by omega, ← List.head?_eq_getElem?]
        exact between
    | succ j =>
        rw [position, List.getElem?_cons_succ] at found
        rw [show i + 1 - spans.length = j + 1 by omega]
        exact keys' j key found id

end Separators

section Holding

variable {order threshold level : Nat} {pool after : Pool K V} {id : PageId} {span : Span K V}

theorem forall₂_imp_mem {α β : Type} {R S : α → β → Prop} {xs : List α} {ys : List β}
    (related : List.Forall₂ R xs ys) (imp : ∀ x y, y ∈ ys → R x y → S x y) :
    List.Forall₂ S xs ys := by
  induction related with
  | nil => exact .nil
  | cons head tail ih =>
      exact .cons (imp _ _ List.mem_cons_self head)
        (ih fun x y member => imp x y (List.mem_cons_of_mem _ member))

theorem Holds.of_leaf {entries : List (K × V)}
    (there : pool.content? id = some (.leaf ⟨entries, none, none⟩)) :
    Holds order threshold pool 0 id (.ofLeaf id entries) :=
  ⟨there, rfl⟩

theorem Holds.mem_pages (held : Holds order threshold pool level id span) : id ∈ span.pages := by
  cases level with
  | zero =>
      rw [held.2]
      exact List.mem_singleton_self id
  | succ level =>
      obtain ⟨branch, spans, rfl, -⟩ := held
      exact List.mem_cons_self

/-- A page has the size of its span, and the least size of its level. -/
theorem Holds.page (held : Holds order threshold pool level id span) :
    ∃ page, pool.page? id = some page ∧ page.size = span.size ∧
      page.minSize threshold = leastSize threshold level := by
  cases level with
  | zero =>
      obtain ⟨there, shape⟩ := held
      obtain ⟨leaf, found, entries⟩ := Pool.leaf_of_content? there
      refine ⟨_, found, ?_, rfl⟩
      rw [shape]
      simp only [Page.size, entries, Span.ofLeaf]
  | succ level =>
      obtain ⟨branch, spans, rfl, there, children, -, -⟩ := held
      exact ⟨_, Pool.branch_of_content? there, children.length_eq, rfl⟩

theorem Holds.congr (held : Holds order threshold pool level id span)
    (same : ∀ page ∈ span.pages, after.content? page = pool.content? page) :
    Holds order threshold after level id span := by
  induction level generalizing id span with
  | zero => exact ⟨(same id held.mem_pages).trans held.1, held.2⟩
  | succ level ih =>
      obtain ⟨branch, spans, rfl, there, children, fits, separated⟩ := held
      refine ⟨branch, spans, rfl, (same id List.mem_cons_self).trans there, ?_, fits, separated⟩
      refine forall₂_imp_mem children fun child below member childHeld => ih childHeld ?_
      intro page inside
      exact same page (List.mem_cons_of_mem _ (List.mem_flatMap.2 ⟨below, member, inside⟩))

theorem leastSize_pos (limits : Limits order threshold) (level : Nat) :
    0 < leastSize threshold level := by
  have positive := limits.positive
  cases level with
  | zero => exact positive
  | succ level => simp only [leastSize]; omega

theorem Holds.entries_ne_nil (limits : Limits order threshold)
    (held : Holds order threshold pool level id span) (positive : 0 < span.size) :
    span.entries ≠ [] := by
  induction level generalizing id span with
  | zero =>
      rw [held.2] at positive
      exact List.ne_nil_of_length_pos positive
  | succ level ih =>
      obtain ⟨⟨children, separators⟩, spans, rfl, -, held, fits, -⟩ := held
      cases held with
      | nil => exact absurd positive (by simp [Span.ofBranch])
      | @cons child below _ rest childHeld =>
          have least := (fits below List.mem_cons_self).1
          have childFull := ih childHeld (by have := leastSize_pos limits level; omega)
          simp only [Span.ofBranch, List.flatMap_cons]
          exact fun empty => childFull (List.append_eq_nil_iff.1 empty).1

theorem Span.Fits.least_isSome (limits : Limits order threshold)
    (fits : span.Fits order threshold level) (held : Holds order threshold pool level id span) :
    ∃ key, span.least = some key := by
  have positive := leastSize_pos limits level
  have full := held.entries_ne_nil limits (Nat.lt_of_lt_of_le positive fits.1)
  obtain ⟨e, rest, found⟩ := List.exists_cons_of_ne_nil full
  exact ⟨e.1, by simp [Span.least, leastOf, found]⟩

/-- The leaves below a page are leaf pages whose entries follow each other. -/
theorem Holds.entries_eq (held : Holds order threshold pool level id span)
    {entriesOf : PageId → List (K × V)}
    (reads : ∀ leafId entries, pool.content? leafId = some (.leaf ⟨entries, none, none⟩) →
      entriesOf leafId = entries) :
    span.entries = span.leaves.flatMap entriesOf := by
  induction level generalizing id span with
  | zero =>
      rw [held.2]
      simpa [Span.ofLeaf] using (reads id _ held.1).symm
  | succ level ih =>
      obtain ⟨branch, spans, rfl, -, children, -, -⟩ := held
      simp only [Span.ofBranch, List.flatMap_assoc]
      refine List.flatMap_congr fun below member => ?_
      obtain ⟨child, -, childHeld⟩ : ∃ child ∈ branch.children,
          Holds order threshold pool level child below := by
        obtain ⟨i, inside, rfl⟩ := List.getElem_of_mem member
        have inside' : i < branch.children.length := by rw [children.length_eq]; exact inside
        exact ⟨branch.children[i], List.getElem_mem _, List.Forall₂.get children inside' inside⟩
      exact ih childHeld

end Holding

end PageTree
end Docstore
