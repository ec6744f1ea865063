import Docstore.Answer
import Docstore.Proofs.Json.Comparison

set_option autoImplicit false

namespace Docstore
namespace Store

variable {store : Store} {spec : SortSpec} {path : String} {ids : List DocId}

def compareAt (store : Store) (spec : SortSpec) (a b : DocId) : Ordering :=
  spec.order.direct ((store.valueAt spec.path a).compare (store.valueAt spec.path b))

/-- No three documents have numbers at one place of their values of which one hides the others. -/
def ClearAt (store : Store) (path : String) (ids : List DocId) : Prop :=
  ∀ a ∈ ids, ∀ b ∈ ids, ∀ c ∈ ids,
    ¬ Json.Aligned Number.Blurred (store.valueAt path a) (store.valueAt path b)
      (store.valueAt path c)

theorem clearAt_of_small (small : ∀ id ∈ ids, (store.valueAt path id).Small) :
    store.ClearAt path ids :=
  fun a member _ _ _ _ => Json.not_aligned_of_small _ _ _ (small a member)

theorem compareAt_swap (store : Store) (spec : SortSpec) (a b : DocId) :
    store.compareAt spec b a = (store.compareAt spec a b).swap := by
  rw [compareAt, compareAt, Json.compare_swap (store.valueAt spec.path a)]
  cases spec.order with
  | ascending => rfl
  | descending => rfl

theorem ranks_compareAt (clear : store.ClearAt spec.path ids) :
    Ranks (store.compareAt spec) ids where
  swap a _ b _ := store.compareAt_swap spec a b
  trans a inA b inB c inC first second := by
    cases direction : spec.order with
    | ascending =>
        simp only [compareAt, direction, SortOrder.direct, ← Ordering.ne_gt_iff_isLE]
          at first second ⊢
        exact (Json.compare_coheres _ _ _ (clear a inA b inB c inC)).1 first second
    | descending =>
        simp only [compareAt, direction, SortOrder.direct, ← Json.compare_swap,
          ← Ordering.ne_gt_iff_isLE] at first second ⊢
        exact (Json.compare_coheres _ _ _ (clear c inC b inB a inA)).1 second first

/-- No sort is asked for, or the documents can be sorted by their values at the path. -/
def Arrangeable (store : Store) (conditions : Conditions) (ids : List DocId) : Prop :=
  ∀ spec, conditions.sort = some spec → Sortable (store.compareAt spec) ids

theorem arrangeable_unsorted (store : Store) (limit : Option Nat) (ids : List DocId) :
    store.Arrangeable ⟨none, limit⟩ ids :=
  fun _ asked => by cases asked

theorem arrangeable_of_few (few : ids.length ≤ 20) (conditions : Conditions) :
    store.Arrangeable conditions ids :=
  fun _ _ => .inl few

theorem arrangeable_of_clear {conditions : Conditions}
    (clear : ∀ spec, conditions.sort = some spec → store.ClearAt spec.path ids) :
    store.Arrangeable conditions ids :=
  fun spec asked => .inr (ranks_compareAt (clear spec asked))

/-- Documents in order by their values at a path, and as they were where these are equal. -/
structure InOrder (store : Store) (spec : SortSpec) (ids sorted : List DocId) : Prop where
  perm : sorted.Perm ids
  ordered : sorted.Pairwise fun a b => (store.compareAt spec a b).isLE
  stable : ∀ id ∈ ids, sorted.filter (store.compareAt spec id · == .eq) =
    ids.filter (store.compareAt spec id · == .eq)

theorem sorted_in_order (clear : store.ClearAt spec.path ids) :
    store.InOrder spec ids (store.sorted spec ids) := by
  have ranks := ranks_compareAt clear
  exact ⟨stableSort_perm _ ids, ranks.pairwise_stableSort, fun _ asked =>
    ranks.filter_stableSort asked⟩

example :
    let note (text : String) : Json := .object [("text", .string text)]
    let store : Store := ⟨"notes", ⟨[(1, note "b"), (2, note "a"), (3, note "b")]⟩, [1, 2, 3], []⟩
    store.sorted ⟨"text", .ascending⟩ [1, 2, 3] = [2, 1, 3] ∧
      store.sorted ⟨"text", .descending⟩ [1, 2, 3] = [1, 3, 2] := by
  decide +kernel

end Store
end Docstore
