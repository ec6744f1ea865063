import Mathlib
import Docstore.PageTree.Entries

set_option autoImplicit false

namespace Docstore
namespace PageTree

variable {K V : Type} [Ord K]

def Ascending (entries : List (K × V)) : Prop :=
  entries.Pairwise fun a b => compare a.1 b.1 = .lt

def AllBelow (key : K) (entries : List (K × V)) : Prop :=
  ∀ e ∈ entries, compare e.1 key = .lt

def AllAbove (key : K) (entries : List (K × V)) : Prop :=
  ∀ e ∈ entries, compare key e.1 = .lt

omit [Ord K] in
def leastOf (entries : List (K × V)) : Option K :=
  entries.head?.map Prod.fst

omit [Ord K] in
theorem leastOf_append {first second : List (K × V)} (full : first ≠ []) :
    leastOf (first ++ second) = leastOf first := by
  obtain ⟨e, rest, rfl⟩ := List.exists_cons_of_ne_nil full
  rfl

theorem Ascending.left {first second : List (K × V)} (sorted : Ascending (first ++ second)) :
    Ascending first :=
  (List.pairwise_append.1 sorted).1

theorem Ascending.right {first second : List (K × V)} (sorted : Ascending (first ++ second)) :
    Ascending second :=
  (List.pairwise_append.1 sorted).2.1

theorem Ascending.across {first second : List (K × V)} (sorted : Ascending (first ++ second))
    {a b : K × V} (ha : a ∈ first) (hb : b ∈ second) : compare a.1 b.1 = .lt :=
  (List.pairwise_append.1 sorted).2.2 a ha b hb

theorem ascending_nil : Ascending ([] : List (K × V)) :=
  List.Pairwise.nil

theorem Ascending.nodup_keys [Std.ReflOrd K] {entries : List (K × V)}
    (sorted : Ascending entries) : (entries.map Prod.fst).Nodup := by
  refine List.pairwise_map.2 (sorted.imp fun before same => ?_)
  rw [same, Std.ReflOrd.compare_self] at before
  cases before

theorem compare_gt_of_lt [Std.TransOrd K] {a b : K} (before : compare a b = .lt) :
    compare b a = .gt :=
  Std.OrientedCmp.gt_of_lt before

theorem Ascending.above_least [Std.TransOrd K] {key least : K} {entries : List (K × V)}
    (sorted : Ascending entries) (head : leastOf entries = some least)
    (before : compare key least = .lt) : AllAbove key entries := by
  cases entries with
  | nil => cases head
  | cons e rest =>
      obtain rfl : e.1 = least := by simpa [leastOf] using head
      intro x hx
      rcases List.mem_cons.1 hx with rfl | hx
      · exact before
      · exact Std.TransCmp.lt_trans before ((List.pairwise_cons.1 sorted).1 x hx)

theorem putEntry_append_left [Std.TransOrd K] (key : K) (value : V) {first : List (K × V)}
    (second : List (K × V)) (below : AllBelow key first) : putEntry key value (first ++ second) =
    (first ++ (putEntry key value second).1, (putEntry key value second).2) := by
  induction first with
  | nil => rfl
  | cons e rest ih =>
      obtain ⟨k, v⟩ := e
      have hfirst : compare key k = .gt := compare_gt_of_lt (below (k, v) List.mem_cons_self)
      have hrest := ih fun x hx => below x (List.mem_cons_of_mem _ hx)
      simp only [List.cons_append, putEntry, hfirst, hrest]

theorem putEntry_append_right (key : K) (value : V) (first : List (K × V))
    {second : List (K × V)} (above : AllAbove key second) :
    putEntry key value (first ++ second) =
      ((putEntry key value first).1 ++ second, (putEntry key value first).2) := by
  induction first with
  | nil =>
      cases second with
      | nil => rfl
      | cons e rest =>
          obtain ⟨k, v⟩ := e
          have hfirst : compare key k = .lt := above (k, v) List.mem_cons_self
          simp only [List.nil_append, putEntry, hfirst, List.cons_append]
  | cons e rest ih =>
      obtain ⟨k, v⟩ := e
      simp only [List.cons_append, putEntry]
      cases compare key k with
      | lt => rfl
      | eq => rfl
      | gt => simp only [ih, List.cons_append]

theorem putEntry_between [Std.TransOrd K] (key : K) (value : V) {first : List (K × V)}
    (middle : List (K × V)) {last : List (K × V)} (below : AllBelow key first)
    (above : AllAbove key last) : putEntry key value (first ++ (middle ++ last)) =
    (first ++ ((putEntry key value middle).1 ++ last), (putEntry key value middle).2) := by
  rw [putEntry_append_left key value _ below, putEntry_append_right key value _ above]

theorem mem_putEntry [Std.TransOrd K] {key : K} {value : V} {entries : List (K × V)} {e : K × V}
    (member : e ∈ (putEntry key value entries).1) :
    (compare e.1 key = .eq ∧ e.2 = value) ∨ e ∈ entries := by
  induction entries with
  | nil =>
      obtain rfl : e = (key, value) := by simpa [putEntry] using member
      exact .inl ⟨Std.ReflOrd.compare_self, rfl⟩
  | cons head rest ih =>
      obtain ⟨k, v⟩ := head
      simp only [putEntry] at member
      cases order : compare key k with
      | lt =>
          simp only [order, List.mem_cons] at member
          rcases member with rfl | rfl | later
          · exact .inl ⟨Std.ReflOrd.compare_self, rfl⟩
          · exact .inr List.mem_cons_self
          · exact .inr (List.mem_cons_of_mem _ later)
      | eq =>
          simp only [order, List.mem_cons] at member
          rcases member with rfl | later
          · exact .inl ⟨Std.OrientedCmp.eq_symm order, rfl⟩
          · exact .inr (List.mem_cons_of_mem _ later)
      | gt =>
          simp only [order, List.mem_cons] at member
          rcases member with rfl | later
          · exact .inr List.mem_cons_self
          · exact (ih later).imp_right (List.mem_cons_of_mem _)

theorem ascending_putEntry [Std.TransOrd K] (key : K) (value : V) {entries : List (K × V)}
    (sorted : Ascending entries) : Ascending (putEntry key value entries).1 := by
  induction entries with
  | nil => exact List.pairwise_singleton _ _
  | cons head rest ih =>
      obtain ⟨k, v⟩ := head
      have ⟨least, later⟩ := List.pairwise_cons.1 sorted
      simp only [putEntry]
      cases order : compare key k with
      | lt =>
          refine List.pairwise_cons.2 ⟨fun x hx => ?_, sorted⟩
          rcases List.mem_cons.1 hx with rfl | hx
          · exact order
          · exact Std.TransCmp.lt_trans order (least x hx)
      | eq => exact List.pairwise_cons.2 ⟨least, later⟩
      | gt =>
          refine List.pairwise_cons.2 ⟨fun x hx => ?_, ih later⟩
          rcases mem_putEntry hx with ⟨same, -⟩ | old
          · exact Std.TransCmp.lt_of_lt_of_eq (Std.OrientedCmp.lt_of_gt order)
              (Std.OrientedCmp.eq_symm same)
          · exact least x old

theorem length_putEntry (key : K) (value : V) (entries : List (K × V)) :
    (putEntry key value entries).1.length =
      if (putEntry key value entries).2 then entries.length + 1 else entries.length := by
  induction entries with
  | nil => rfl
  | cons head rest ih =>
      obtain ⟨k, v⟩ := head
      cases order : compare key k with
      | lt => simp [putEntry, order]
      | eq => simp [putEntry, order]
      | gt =>
          simp only [putEntry, order, List.length_cons, ih]
          split <;> rfl

/-- A least key that is not above the given one stays the least. -/
theorem leastOf_putEntry {key least : K} (value : V) {entries : List (K × V)}
    (head : leastOf entries = some least) (notBefore : compare key least ≠ .lt) :
    leastOf (putEntry key value entries).1 = some least := by
  cases entries with
  | nil => cases head
  | cons e rest =>
      obtain ⟨k, v⟩ := e
      obtain rfl : k = least := by simpa [leastOf] using head
      simp only [putEntry]
      cases order : compare key k with
      | lt => exact absurd order notBefore
      | eq => rfl
      | gt => rfl

theorem eraseEntry_append_left [Std.TransOrd K] (key : K) {first : List (K × V)}
    (second : List (K × V)) (below : AllBelow key first) : eraseEntry key (first ++ second) =
    (first ++ (eraseEntry key second).1, (eraseEntry key second).2) := by
  induction first with
  | nil => rfl
  | cons e rest ih =>
      obtain ⟨k, v⟩ := e
      have hfirst : compare key k = .gt := compare_gt_of_lt (below (k, v) List.mem_cons_self)
      have hrest := ih fun x hx => below x (List.mem_cons_of_mem _ hx)
      simp only [List.cons_append, eraseEntry, hfirst, hrest]

theorem eraseEntry_append_right (key : K) (first : List (K × V)) {second : List (K × V)}
    (above : AllAbove key second) :
    eraseEntry key (first ++ second) =
      ((eraseEntry key first).1 ++ second, (eraseEntry key first).2) := by
  induction first with
  | nil =>
      cases second with
      | nil => rfl
      | cons e rest =>
          obtain ⟨k, v⟩ := e
          have hfirst : compare key k = .lt := above (k, v) List.mem_cons_self
          simp only [List.nil_append, eraseEntry, hfirst]
  | cons e rest ih =>
      obtain ⟨k, v⟩ := e
      simp only [List.cons_append, eraseEntry]
      cases compare key k with
      | lt => rfl
      | eq => rfl
      | gt => simp only [ih, List.cons_append]

theorem eraseEntry_between [Std.TransOrd K] (key : K) {first : List (K × V)} (middle : List (K × V))
    {last : List (K × V)} (below : AllBelow key first) (above : AllAbove key last) :
    eraseEntry key (first ++ (middle ++ last)) =
      (first ++ ((eraseEntry key middle).1 ++ last), (eraseEntry key middle).2) := by
  rw [eraseEntry_append_left key _ below, eraseEntry_append_right key _ above]

theorem eraseEntry_sublist (key : K) (entries : List (K × V)) :
    (eraseEntry key entries).1.Sublist entries := by
  induction entries with
  | nil => exact List.Sublist.refl _
  | cons head rest ih =>
      obtain ⟨k, v⟩ := head
      simp only [eraseEntry]
      cases compare key k with
      | lt => exact List.Sublist.refl _
      | eq => exact List.sublist_cons_self ..
      | gt => exact ih.cons_cons _

theorem ascending_eraseEntry (key : K) {entries : List (K × V)} (sorted : Ascending entries) :
    Ascending (eraseEntry key entries).1 :=
  sorted.sublist (eraseEntry_sublist key entries)

theorem length_eraseEntry (key : K) (entries : List (K × V)) :
    (if (eraseEntry key entries).2 then (eraseEntry key entries).1.length + 1
      else (eraseEntry key entries).1.length) = entries.length := by
  induction entries with
  | nil => rfl
  | cons head rest ih =>
      obtain ⟨k, v⟩ := head
      cases order : compare key k with
      | lt => simp [eraseEntry, order]
      | eq => simp [eraseEntry, order]
      | gt =>
          simp only [eraseEntry, order, List.length_cons, ← ih]
          split <;> rfl

theorem eraseEntry_absent {key : K} {entries : List (K × V)}
    (absent : (eraseEntry key entries).2 = false) : (eraseEntry key entries).1 = entries := by
  have whole := length_eraseEntry key entries
  rw [absent] at whole
  exact (eraseEntry_sublist key entries).eq_of_length whole

theorem findEntry_append_left [Std.TransOrd K] (key : K) {first : List (K × V)}
    (second : List (K × V)) (below : AllBelow key first) : findEntry key (first ++ second) =
    findEntry key second := by
  induction first with
  | nil => rfl
  | cons e rest ih =>
      obtain ⟨k, v⟩ := e
      have hfirst : compare key k = .gt := compare_gt_of_lt (below (k, v) List.mem_cons_self)
      have hrest := ih fun x hx => below x (List.mem_cons_of_mem _ hx)
      simp only [List.cons_append, findEntry, hfirst, hrest]

theorem findEntry_append_right (key : K) (first : List (K × V)) {second : List (K × V)}
    (above : AllAbove key second) : findEntry key (first ++ second) = findEntry key first := by
  induction first with
  | nil =>
      cases second with
      | nil => rfl
      | cons e rest =>
          obtain ⟨k, v⟩ := e
          have hfirst : compare key k = .lt := above (k, v) List.mem_cons_self
          simp only [List.nil_append, findEntry, hfirst]
  | cons e rest ih =>
      obtain ⟨k, v⟩ := e
      simp only [List.cons_append, findEntry]
      cases compare key k with
      | lt => rfl
      | eq => rfl
      | gt => exact ih

theorem findEntry_between [Std.TransOrd K] (key : K) {first : List (K × V)} (middle : List (K × V))
    {last : List (K × V)} (below : AllBelow key first) (above : AllAbove key last) :
    findEntry key (first ++ (middle ++ last)) = findEntry key middle := by
  rw [findEntry_append_left key _ below, findEntry_append_right key _ above]

theorem findEntry_above {key : K} {entries : List (K × V)} (above : AllAbove key entries) :
    findEntry key entries = none :=
  findEntry_append_right key [] above

theorem findEntry_cons_self [Std.TransOrd K] (key : K) (value : V) (rest : List (K × V)) :
    findEntry key ((key, value) :: rest) = some value := by
  simp only [findEntry, Std.ReflOrd.compare_self]

theorem findEntry_cons_of_ne [Std.TransOrd K] [Std.LawfulEqOrd K] {key other : K} (value : V)
    {rest : List (K × V)} (distinct : key ≠ other) (above : AllAbove key rest) :
    findEntry other ((key, value) :: rest) = findEntry other rest := by
  simp only [findEntry]
  cases order : compare other key with
  | lt => exact (findEntry_above fun e he => Std.TransCmp.lt_trans order (above e he)).symm
  | eq => exact absurd (Std.LawfulEqOrd.eq_of_compare order).symm distinct
  | gt => rfl

/-- In a sorted list the entries are what can be found. -/
theorem mem_iff_findEntry [Std.TransOrd K] [Std.LawfulEqOrd K] {entries : List (K × V)}
    (sorted : Ascending entries) (key : K) (value : V) :
    (key, value) ∈ entries ↔ findEntry key entries = some value := by
  induction entries with
  | nil => simp [findEntry]
  | cons head rest ih =>
      obtain ⟨k, v⟩ := head
      have ⟨least, later⟩ := List.pairwise_cons.1 sorted
      simp only [findEntry, List.mem_cons, Prod.mk.injEq]
      cases order : compare key k with
      | lt =>
          have distinct : key ≠ k := fun same => by
            rw [same, Std.ReflOrd.compare_self] at order
            cases order
          have behind : (key, value) ∉ rest := fun member =>
            Std.OrientedCmp.not_lt_of_lt order (least _ member)
          simp [distinct, behind]
      | eq =>
          obtain rfl := Std.LawfulEqOrd.eq_of_compare order
          have behind : (key, value) ∉ rest := fun member => by
            have strict := least _ member
            rw [Std.ReflOrd.compare_self] at strict
            cases strict
          simp [behind, eq_comm]
      | gt =>
          have distinct : key ≠ k := fun same => by
            rw [same, Std.ReflOrd.compare_self] at order
            cases order
          simp [distinct, ih later]

section Finding

variable [Std.TransOrd K] [Std.LawfulEqOrd K] {key other : K} {entries : List (K × V)}

theorem findEntry_putEntry_self (value : V) :
    findEntry key (putEntry key value entries).1 = some value := by
  induction entries with
  | nil => exact findEntry_cons_self key value []
  | cons head rest ih =>
      obtain ⟨k, v⟩ := head
      simp only [putEntry]
      cases order : compare key k with
      | lt => exact findEntry_cons_self key value _
      | eq =>
          obtain rfl := Std.LawfulEqOrd.eq_of_compare order
          exact findEntry_cons_self key value rest
      | gt => simp only [findEntry, order, ih]

theorem findEntry_putEntry_of_ne (value : V) (sorted : Ascending entries) (distinct : key ≠ other) :
    findEntry other (putEntry key value entries).1 = findEntry other entries := by
  induction entries with
  | nil => exact findEntry_cons_of_ne value distinct nofun
  | cons head rest ih =>
      obtain ⟨k, v⟩ := head
      have ⟨least, later⟩ := List.pairwise_cons.1 sorted
      simp only [putEntry]
      cases order : compare key k with
      | lt => exact findEntry_cons_of_ne value distinct (sorted.above_least rfl order)
      | eq =>
          obtain rfl := Std.LawfulEqOrd.eq_of_compare order
          rw [findEntry_cons_of_ne value distinct least, findEntry_cons_of_ne v distinct least]
      | gt => simp only [findEntry, ih later]

omit [Std.TransOrd K] in
theorem findEntry_eraseEntry_self (sorted : Ascending entries) :
    findEntry key (eraseEntry key entries).1 = none := by
  induction entries with
  | nil => rfl
  | cons head rest ih =>
      obtain ⟨k, v⟩ := head
      have ⟨least, later⟩ := List.pairwise_cons.1 sorted
      simp only [eraseEntry]
      cases order : compare key k with
      | lt => simp only [findEntry, order]
      | eq =>
          obtain rfl := Std.LawfulEqOrd.eq_of_compare order
          exact findEntry_above least
      | gt => simp only [findEntry, order, ih later]

theorem findEntry_eraseEntry_of_ne (sorted : Ascending entries) (distinct : key ≠ other) :
    findEntry other (eraseEntry key entries).1 = findEntry other entries := by
  induction entries with
  | nil => rfl
  | cons head rest ih =>
      obtain ⟨k, v⟩ := head
      have ⟨least, later⟩ := List.pairwise_cons.1 sorted
      simp only [eraseEntry]
      cases order : compare key k with
      | lt => rfl
      | eq =>
          obtain rfl := Std.LawfulEqOrd.eq_of_compare order
          exact (findEntry_cons_of_ne v distinct least).symm
      | gt => simp only [findEntry, ih later]

end Finding

theorem findEntry_putEntry [Std.TransOrd K] [Std.LawfulEqOrd K] [DecidableEq K] (key other : K)
    (value : V) {entries : List (K × V)} (sorted : Ascending entries) : findEntry other
    (putEntry key value entries).1 = if key = other then some value else findEntry other entries :=
    by
  by_cases same : key = other
  · rw [if_pos same, ← same, findEntry_putEntry_self]
  · rw [if_neg same, findEntry_putEntry_of_ne value sorted same]

theorem findEntry_eraseEntry [Std.TransOrd K] [Std.LawfulEqOrd K] [DecidableEq K] (key other : K)
    {entries : List (K × V)} (sorted : Ascending entries) : findEntry other
    (eraseEntry key entries).1 = if key = other then none else findEntry other entries := by
  by_cases same : key = other
  · rw [if_pos same, ← same, findEntry_eraseEntry_self sorted]
  · rw [if_neg same, findEntry_eraseEntry_of_ne sorted same]

theorem putEntry_isNew (key : K) (value : V) {entries : List (K × V)} :
    (putEntry key value entries).2 = (findEntry key entries).isNone := by
  induction entries with
  | nil => rfl
  | cons head rest ih =>
      obtain ⟨k, v⟩ := head
      simp only [putEntry, findEntry]
      cases compare key k with
      | lt => rfl
      | eq => rfl
      | gt => exact ih

theorem eraseEntry_wasThere (key : K) {entries : List (K × V)} :
    (eraseEntry key entries).2 = (findEntry key entries).isSome := by
  induction entries with
  | nil => rfl
  | cons head rest ih =>
      obtain ⟨k, v⟩ := head
      simp only [eraseEntry, findEntry]
      cases compare key k with
      | lt => rfl
      | eq => rfl
      | gt => exact ih

end PageTree
end Docstore
