set_option autoImplicit false

namespace Docstore

/-- Puts a new last element at its place. The sorted list is given from its end. -/
def settle {α : Type} (order : α → α → Ordering) (x : α) : List α → List α
  | [] => [x]
  | y :: rest => if order x y = .lt then y :: settle order x rest else x :: y :: rest

def stableSort {α : Type} (order : α → α → Ordering) (xs : List α) : List α :=
  (xs.foldl (fun sorted x => settle order x sorted) []).reverse

/-- The number of elements that come before one. -/
def rankIn {α : Type} (order : α → α → Ordering) (all : List α) (x : α) : Nat :=
  all.countP fun y => order y x == .lt

/-- Whether all elements compare as their ranks do. -/
def isRanking {α : Type} (order : α → α → Ordering) (all : List α) : Bool :=
  let ranked := all.map fun x => (x, rankIn order all x)
  ranked.all fun a => ranked.all fun b => order a.1 b.1 == compare a.2 b.2

/-- Sorts by an order. Up to twenty elements are inserted one after the other, whatever the order
says of them; a longer list is refused unless the order ranks its elements. -/
def sort? {α : Type} (order : α → α → Ordering) (xs : List α) : Option (List α) :=
  if xs.length ≤ 20 ∨ isRanking order xs = true then some (stableSort order xs) else none

theorem settle_perm {α : Type} (order : α → α → Ordering) (x : α) (sorted : List α) :
    (settle order x sorted).Perm (x :: sorted) := by
  induction sorted with
  | nil => exact .refl _
  | cons y rest ih =>
    rw [settle]
    split
    · exact (ih.cons y).trans (.swap x y rest)
    · exact .refl _

theorem settle_subset {α : Type} {order : α → α → Ordering} {x : α} {sorted all : List α}
    (known : x ∈ all) (within : sorted ⊆ all) : settle order x sorted ⊆ all :=
  List.Subset.trans (settle_perm order x sorted).subset (List.cons_subset.2 ⟨known, within⟩)

theorem foldl_settle_perm {α : Type} (order : α → α → Ordering) (xs sorted : List α) :
    (xs.foldl (fun sorted x => settle order x sorted) sorted).Perm (xs ++ sorted) := by
  induction xs generalizing sorted with
  | nil => exact .refl _
  | cons x rest ih =>
    exact (ih _).trans (((settle_perm order x sorted).append_left rest).trans List.perm_middle)

theorem stableSort_perm {α : Type} (order : α → α → Ordering) (xs : List α) :
    (stableSort order xs).Perm xs := by
  have h := foldl_settle_perm order xs []
  rw [List.append_nil] at h
  exact (List.reverse_perm _).trans h

theorem settle_map {α β : Type} (key : α → β) (order : β → β → Ordering) (x : α) (sorted : List α) :
    settle order (key x) (sorted.map key) =
      (settle (fun a b => order (key a) (key b)) x sorted).map key := by
  induction sorted with
  | nil => rfl
  | cons y rest ih =>
    rw [List.map_cons, settle, settle, ih]
    split
    · rfl
    · rfl

theorem foldl_settle_map {α β : Type} (key : α → β) (order : β → β → Ordering)
    (xs sorted : List α) :
    (xs.map key).foldl (fun sorted x => settle order x sorted) (sorted.map key) =
      (xs.foldl (fun sorted x => settle (fun a b => order (key a) (key b)) x sorted) sorted).map
        key := by
  induction xs generalizing sorted with
  | nil => rfl
  | cons x rest ih => rw [List.map_cons, List.foldl_cons, List.foldl_cons, settle_map, ih]

/-- To sort keys is to sort what they are keys of, by the keys. -/
theorem stableSort_map {α β : Type} (key : α → β) (order : β → β → Ordering) (xs : List α) :
    stableSort order (xs.map key) = (stableSort (fun a b => order (key a) (key b)) xs).map key := by
  rw [stableSort, stableSort, List.map_reverse, ← foldl_settle_map, List.map_nil]

theorem rankIn_map {α β : Type} (key : α → β) (order : β → β → Ordering) (all : List α) (x : α) :
    rankIn order (all.map key) (key x) = rankIn (fun a b => order (key a) (key b)) all x := by
  rw [rankIn, List.countP_map]
  rfl

theorem isRanking_map {α β : Type} (key : α → β) (order : β → β → Ordering) (all : List α) :
    isRanking order (all.map key) = isRanking (fun a b => order (key a) (key b)) all := by
  simp only [isRanking, List.map_map, List.all_map, Function.comp_def, rankIn_map]

theorem sort?_map {α β : Type} (key : α → β) (order : β → β → Ordering) (xs : List α) :
    sort? order (xs.map key) =
      (sort? (fun a b => order (key a) (key b)) xs).map (List.map key) := by
  rw [sort?, sort?, List.length_map, isRanking_map, stableSort_map]
  split
  · rfl
  · rfl

/-- The order ranks the elements of a list: it turns around with its sides and is transitive. -/
structure Ranks {α : Type} (order : α → α → Ordering) (all : List α) : Prop where
  swap : ∀ a ∈ all, ∀ b ∈ all, order b a = (order a b).swap
  trans : ∀ a ∈ all, ∀ b ∈ all, ∀ c ∈ all,
    (order a b).isLE → (order b c).isLE → (order a c).isLE

namespace Ranks

variable {α : Type} {order : α → α → Ordering} {all : List α}

theorem lt_of_lt_of_le (ranks : Ranks order all) {a b c : α} (knownA : a ∈ all) (knownB : b ∈ all)
    (knownC : c ∈ all) (lt : order a b = .lt) (le : (order b c).isLE) : order a c = .lt := by
  have reached := ranks.trans a knownA b knownB c knownC (by rw [lt]; rfl) le
  cases compared : order a c with
  | lt => rfl
  | gt =>
    rw [compared] at reached
    cases reached
  | eq =>
    -- an equal of the last element would not come before the middle one
    have back : (order c a).isLE := by
      rw [ranks.swap a knownA c knownC, compared]
      rfl
    have behind := ranks.trans b knownB c knownC a knownA le back
    rw [ranks.swap a knownA b knownB, lt] at behind
    cases behind

theorem rankIn_le (ranks : Ranks order all) {a b : α} (knownA : a ∈ all) (knownB : b ∈ all)
    (le : (order a b).isLE) : rankIn order all a ≤ rankIn order all b := by
  apply List.countP_mono_left
  intro x member before
  rw [beq_iff_eq] at before ⊢
  exact ranks.lt_of_lt_of_le member knownA knownB before le

theorem rankIn_lt (ranks : Ranks order all) {a b : α} (knownA : a ∈ all) (knownB : b ∈ all)
    (lt : order a b = .lt) : rankIn order all a < rankIn order all b := by
  have irreflexive : order a a ≠ .lt := by
    intro before
    have swapped := ranks.swap a knownA a knownA
    rw [before] at swapped
    cases swapped
  have each : ∀ x ∈ all, (order x a == .lt) = true → (order x b == .lt) = true := by
    intro x member before
    rw [beq_iff_eq] at before ⊢
    exact ranks.lt_of_lt_of_le member knownA knownB before (by rw [lt]; rfl)
  -- the earlier element itself is before the later one and not before itself
  obtain ⟨front, back, rfl⟩ := List.append_of_mem knownA
  have inFront : front.countP (order · a == .lt) ≤ front.countP (order · b == .lt) :=
    List.countP_mono_left fun x member => each x (List.mem_append_left _ member)
  have inBack : back.countP (order · a == .lt) ≤ back.countP (order · b == .lt) :=
    List.countP_mono_left fun x member =>
      each x (List.mem_append_right _ (List.mem_cons_of_mem a member))
  simp only [rankIn, List.countP_append, List.countP_cons, lt, irreflexive, beq_iff_eq, if_true,
    if_false]
  omega

theorem eq_compare_rankIn (ranks : Ranks order all) {a b : α} (knownA : a ∈ all)
    (knownB : b ∈ all) : order a b = compare (rankIn order all a) (rankIn order all b) := by
  have swapped := ranks.swap a knownA b knownB
  cases compared : order a b with
  | lt => exact (Nat.compare_eq_lt.2 (ranks.rankIn_lt knownA knownB compared)).symm
  | gt =>
    rw [compared] at swapped
    exact (Nat.compare_eq_gt.2 (ranks.rankIn_lt knownB knownA swapped)).symm
  | eq =>
    rw [compared] at swapped
    have le := ranks.rankIn_le knownA knownB (by rw [compared]; rfl)
    have ge := ranks.rankIn_le knownB knownA (by rw [swapped]; rfl)
    exact (Nat.compare_eq_eq.2 (Nat.le_antisymm le ge)).symm

theorem of_transCmp [Std.TransCmp order] (all : List α) : Ranks order all where
  swap _ _ _ _ := Std.OrientedCmp.eq_swap
  trans _ _ _ _ _ _ := Std.TransCmp.isLE_trans

theorem pairwise_settle (ranks : Ranks order all) {x : α} (known : x ∈ all) {sorted : List α}
    (within : sorted ⊆ all) (h : sorted.Pairwise fun b a => (order a b).isLE) :
    (settle order x sorted).Pairwise fun b a => (order a b).isLE := by
  induction sorted with
  | nil => exact List.pairwise_singleton _ x
  | cons y rest ih =>
    have ⟨first, others⟩ := List.pairwise_cons.1 h
    have ⟨known', within'⟩ := List.cons_subset.1 within
    rw [settle]
    split
    · rename_i before
      apply List.Pairwise.cons _ (ih within' others)
      intro z member
      obtain same | member := List.mem_cons.1 ((settle_perm order x rest).subset member)
      · rw [same, before]
        rfl
      · exact first z member
    · rename_i behind
      have le : (order y x).isLE := by
        rw [ranks.swap x known y known']
        cases compared : order x y with
        | lt => exact absurd compared behind
        | eq => rfl
        | gt => rfl
      apply List.Pairwise.cons _ h
      intro z member
      obtain same | member := List.mem_cons.1 member
      · rw [same]
        exact le
      · exact ranks.trans z (within' member) y known' x known (first z member) le

theorem pairwise_foldl_settle (ranks : Ranks order all) {xs sorted : List α} (known : xs ⊆ all)
    (within : sorted ⊆ all) (h : sorted.Pairwise fun b a => (order a b).isLE) :
    (xs.foldl (fun sorted x => settle order x sorted) sorted).Pairwise
      fun b a => (order a b).isLE := by
  induction xs generalizing sorted with
  | nil => exact h
  | cons x rest ih =>
    have ⟨known', others⟩ := List.cons_subset.1 known
    exact ih others (settle_subset known' within) (ranks.pairwise_settle known' within h)

/-- Nothing comes before what it should follow. -/
theorem pairwise_stableSort (ranks : Ranks order all) :
    (stableSort order all).Pairwise fun a b => (order a b).isLE := by
  rw [stableSort, List.pairwise_reverse]
  exact ranks.pairwise_foldl_settle (List.Subset.refl all) (List.nil_subset all) .nil

/-- A new element comes right behind those that are its equals. -/
theorem filter_settle (ranks : Ranks order all) {x z : α} (known : x ∈ all) (asked : z ∈ all)
    {sorted : List α} (within : sorted ⊆ all) :
    (settle order x sorted).filter (order z · == .eq) =
      (x :: sorted).filter (order z · == .eq) := by
  induction sorted with
  | nil => rfl
  | cons y rest ih =>
    have ⟨known', within'⟩ := List.cons_subset.1 within
    rw [settle]
    split
    · rename_i before
      rw [List.filter_cons, ih within']
      by_cases equal : order z x = .eq
      · -- what is before an equal is no equal itself, or the two would be in order both ways
        have apart : order z y ≠ .eq := by
          intro same
          have back : (order y z).isLE := by
            rw [ranks.swap z asked y known', same]
            rfl
          have le := ranks.trans y known' z asked x known back (by rw [equal]; rfl)
          rw [ranks.swap x known y known', before] at le
          cases le
        simp [equal, apart]
      · simp [List.filter_cons, equal]
    · rfl

theorem filter_foldl_settle (ranks : Ranks order all) {z : α} (asked : z ∈ all)
    {xs sorted : List α} (known : xs ⊆ all) (within : sorted ⊆ all) :
    (xs.foldl (fun sorted x => settle order x sorted) sorted).filter (order z · == .eq) =
      (xs.filter (order z · == .eq)).reverse ++ sorted.filter (order z · == .eq) := by
  induction xs generalizing sorted with
  | nil => rfl
  | cons x rest ih =>
    have ⟨known', others⟩ := List.cons_subset.1 known
    rw [List.foldl_cons, ih others (settle_subset known' within),
      ranks.filter_settle known' asked within]
    by_cases equal : order z x = .eq
    · simp [equal]
    · simp [equal]

/-- Elements that are equals in the order stay in the order in which they were given. -/
theorem filter_stableSort (ranks : Ranks order all) {z : α} (asked : z ∈ all) :
    (stableSort order all).filter (order z · == .eq) = all.filter (order z · == .eq) := by
  rw [stableSort, List.filter_reverse,
    ranks.filter_foldl_settle asked (List.Subset.refl all) (List.nil_subset all), List.filter_nil,
    List.append_nil, List.reverse_reverse]

end Ranks

variable {α : Type} {order : α → α → Ordering} {xs : List α}

theorem isRanking_iff : isRanking order xs = true ↔ Ranks order xs := by
  have each : isRanking order xs = true ↔ ∀ a ∈ xs, ∀ b ∈ xs,
      order a b = compare (rankIn order xs a) (rankIn order xs b) := by
    simp [isRanking, List.all_eq_true]
  rw [each]
  constructor
  · intro ranked
    constructor
    · intro a knownA b knownB
      rw [ranked a knownA b knownB, ranked b knownB a knownA, Nat.compare_swap]
    · intro a knownA b knownB c knownC
      rw [ranked a knownA b knownB, ranked b knownB c knownC, ranked a knownA c knownC,
        Nat.isLE_compare, Nat.isLE_compare, Nat.isLE_compare]
      exact Nat.le_trans
  · exact fun ranks a knownA b knownB => ranks.eq_compare_rankIn knownA knownB

/-- What can be sorted: a short list, or one whose elements the order ranks. -/
def Sortable (order : α → α → Ordering) (xs : List α) : Prop :=
  xs.length ≤ 20 ∨ Ranks order xs

theorem sort?_of_sortable (sortable : Sortable order xs) :
    sort? order xs = some (stableSort order xs) :=
  if_pos (sortable.imp_right isRanking_iff.2)

theorem sort?_of_not_sortable (refused : ¬ Sortable order xs) : sort? order xs = none :=
  if_neg fun sortable => refused (sortable.imp_right isRanking_iff.1)

end Docstore
