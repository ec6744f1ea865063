import Docstore.Proofs.Json.Equality
import Docstore.Proofs.Number.Order
import Docstore.StableSort

set_option autoImplicit false

namespace Docstore

section Chains

variable {α : Type} {order : α → α → Ordering} {a b c : α}

/-- The order leads from the first element over the second to the third. -/
def Chains (order : α → α → Ordering) (a b c : α) : Prop :=
  order a b ≠ .gt → order b c ≠ .gt → order a c ≠ .gt

/-- The order leads around three elements, wherever it starts. -/
def Coheres (order : α → α → Ordering) (a b c : α) : Prop :=
  Chains order a b c ∧ Chains order b c a ∧ Chains order c a b

theorem Coheres.rotate (coheres : Coheres order a b c) : Coheres order b c a :=
  ⟨coheres.2.1, coheres.2.2, coheres.1⟩

theorem coheres_compare [Ord α] [Std.TransOrd α] (a b c : α) : Coheres compare a b c := by
  have chains : ∀ a b c : α, Chains compare a b c := by
    intro a b c first second
    rw [ne_eq, Ordering.ne_gt_iff_isLE] at first second ⊢
    exact Std.TransOrd.isLE_trans first second
  exact ⟨chains a b c, chains b c a, chains c a b⟩

/-- Where the ends of a chain are equals, so are all its elements. -/
theorem Coheres.eq_of_ends (coheres : Coheres order a b c)
    (swap : ∀ a b, order b a = (order a b).swap) (first : order a b ≠ .gt)
    (second : order b c ≠ .gt) (ends : order a c = .eq) : order a b = .eq ∧ order b c = .eq := by
  have back : order c a ≠ .gt := by
    rw [swap a c, ends]
    decide
  have first' := coheres.2.1 second back
  have second' := coheres.2.2 back first
  rw [swap a b] at first'
  rw [swap b c] at second'
  constructor
  · cases compared : order a b with
    | eq => rfl
    | lt => exact absurd (congrArg Ordering.swap compared) first'
    | gt => exact absurd compared first
  · cases compared : order b c with
    | eq => rfl
    | lt => exact absurd (congrArg Ordering.swap compared) second'
    | gt => exact absurd compared second

end Chains

namespace Json

variable {a b c : Json} {as bs cs : List Json}

mutual

theorem compare_swap : ∀ a b : Json, b.compare a = (a.compare b).swap
  | .null, b => by
      cases b <;> rfl
  | .bool x, b => by
      cases b with
      | bool y => exact Std.OrientedOrd.eq_swap
      | _ => rfl
  | .number n, b => by
      cases b with
      | number m => exact Number.compare_swap n m
      | _ => rfl
  | .string x, b => by
      cases b with
      | string y => exact Std.OrientedOrd.eq_swap
      | _ => rfl
  | .array as, b => by
      cases b with
      | array bs => exact compareItems_swap as bs
      | _ => rfl
  | .object x, b => by
      cases b with
      | object y => exact Std.OrientedOrd.eq_swap
      | _ => rfl

theorem compareItems_swap : ∀ as bs : List Json, compareItems bs as = (compareItems as bs).swap
  | [], bs => by
      cases bs <;> rfl
  | a :: as, bs => by
      cases bs with
      | nil => rfl
      | cons b bs => rw [compareItems, compareItems, compare_swap a b, compareItems_swap as bs,
          Ordering.swap_then]

end

theorem compare_of_rank (apart : a.rank ≠ b.rank) : a.compare b = Ord.compare a.rank b.rank := by
  cases a with
  | null => cases b with
    | null => exact absurd rfl apart
    | _ => rfl
  | bool x => cases b with
    | bool y => exact absurd rfl apart
    | _ => rfl
  | number n => cases b with
    | number m => exact absurd rfl apart
    | _ => rfl
  | string x => cases b with
    | string y => exact absurd rfl apart
    | _ => rfl
  | array as => cases b with
    | array bs => exact absurd rfl apart
    | _ => rfl
  | object x => cases b with
    | object y => exact absurd rfl apart
    | _ => rfl

theorem rank_le_of_compare (le : a.compare b ≠ .gt) : a.rank ≤ b.rank := by
  by_cases same : a.rank = b.rank
  · exact same.le
  · rw [compare_of_rank same] at le
    exact compare_le_iff_le.1 le

theorem coheres_of_rank (apart : ¬ (a.rank = b.rank ∧ b.rank = c.rank)) :
    Coheres compare a b c := by
  have chains : ∀ a b c : Json, ¬ (a.rank = b.rank ∧ b.rank = c.rank) → Chains compare a b c := by
    intro a b c apart first second
    have le := rank_le_of_compare first
    have le' := rank_le_of_compare second
    rw [compare_of_rank (by omega), compare_le_iff_le]
    exact le.trans le'
  exact ⟨chains a b c apart, chains b c a (by omega), chains c a b (by omega)⟩

theorem coheres_nil (bs cs : List Json) : Coheres compareItems [] bs cs := by
  refine ⟨?_, ?_, ?_⟩
  · intro _ _
    cases cs <;> simp [compareItems]
  · intro first second
    cases cs with
    | nil => exact first
    | cons c cs => exact absurd rfl second
  · intro first _
    cases cs with
    | nil => cases bs <;> simp [compareItems]
    | cons c cs => exact absurd rfl first

theorem chains_cons (heads : Coheres compare a b c) (tails : Chains compareItems as bs cs) :
    Chains compareItems (a :: as) (b :: bs) (c :: cs) := by
  intro first second
  rw [compareItems] at first second ⊢
  have head : a.compare b ≠ .gt := fun above => first (by rw [above]; rfl)
  have head' : b.compare c ≠ .gt := fun above => second (by rw [above]; rfl)
  cases ends : a.compare c with
  | lt => exact (by decide : Ordering.lt ≠ .gt)
  | gt => exact absurd ends (heads.1 head head')
  | eq =>
      obtain ⟨same, same'⟩ := heads.eq_of_ends compare_swap head head' ends
      rw [same] at first
      rw [same'] at second
      exact tails first second

theorem coheres_cons (heads : Coheres compare a b c) (tails : Coheres compareItems as bs cs) :
    Coheres compareItems (a :: as) (b :: bs) (c :: cs) :=
  ⟨chains_cons heads tails.1, chains_cons heads.rotate tails.2.1,
    chains_cons heads.rotate.rotate tails.2.2⟩

mutual

/-- Somewhere inside arrays three values have numbers at the same place that are related. -/
def Aligned (related : Number → Number → Number → Prop) : Json → Json → Json → Prop
  | .number n, .number m, .number k => related n m k
  | .array as, .array bs, .array cs => AlignedItems related as bs cs
  | _, _, _ => False

def AlignedItems (related : Number → Number → Number → Prop) :
    List Json → List Json → List Json → Prop
  | a :: as, b :: bs, c :: cs => Aligned related a b c ∨ AlignedItems related as bs cs
  | _, _, _ => False

end

mutual

theorem compare_coheres : ∀ a b c : Json, ¬ Aligned Number.Blurred a b c → Coheres compare a b c
  | .null, b, c, _ => by
      cases b with
      | null =>
          cases c with
          | null => exact ⟨fun _ _ => nofun, fun _ _ => nofun, fun _ _ => nofun⟩
          | _ => exact coheres_of_rank (by simp [rank])
      | _ => exact coheres_of_rank (by simp [rank])
  | .bool x, b, c, _ => by
      cases b with
      | bool y =>
          cases c with
          | bool z => exact coheres_compare x y z
          | _ => exact coheres_of_rank (by simp [rank])
      | _ => exact coheres_of_rank (by simp [rank])
  | .number n, b, c, clear => by
      cases b with
      | number m =>
          cases c with
          | number k =>
              exact ⟨Number.compare_trans fun hides => clear (.inl hides),
                Number.compare_trans fun hides => clear (.inr (.inl hides)),
                Number.compare_trans fun hides => clear (.inr (.inr hides))⟩
          | _ => exact coheres_of_rank (by simp [rank])
      | _ => exact coheres_of_rank (by simp [rank])
  | .string x, b, c, _ => by
      cases b with
      | string y =>
          cases c with
          | string z => exact coheres_compare x y z
          | _ => exact coheres_of_rank (by simp [rank])
      | _ => exact coheres_of_rank (by simp [rank])
  | .array as, b, c, clear => by
      cases b with
      | array bs =>
          cases c with
          | array cs => exact compareItems_coheres as bs cs clear
          | _ => exact coheres_of_rank (by simp [rank])
      | _ => exact coheres_of_rank (by simp [rank])
  | .object x, b, c, _ => by
      cases b with
      | object y =>
          cases c with
          | object z =>
              exact coheres_compare (Json.object x).canonicalText (Json.object y).canonicalText
                (Json.object z).canonicalText
          | _ => exact coheres_of_rank (by simp [rank])
      | _ => exact coheres_of_rank (by simp [rank])

theorem compareItems_coheres : ∀ as bs cs : List Json, ¬ AlignedItems Number.Blurred as bs cs →
    Coheres compareItems as bs cs
  | [], bs, cs, _ => coheres_nil bs cs
  | a :: as, bs, cs, clear => by
      cases bs with
      | nil => exact (coheres_nil cs (a :: as)).rotate.rotate
      | cons b bs =>
          cases cs with
          | nil => exact (coheres_nil (a :: as) (b :: bs)).rotate
          | cons c cs =>
              rw [AlignedItems, not_or] at clear
              exact coheres_cons (compare_coheres a b c clear.1)
                (compareItems_coheres as bs cs clear.2)

end

mutual

/-- Small numbers neither hide others nor are hidden. -/
theorem not_aligned_of_small : ∀ a b c : Json, a.Small → ¬ Aligned Number.Blurred a b c
  | .null, _, _, _ => id
  | .bool _, _, _, _ => id
  | .number n, b, c, small => by
      cases b with
      | number m =>
          cases c with
          | number k => exact fun blurred => blurred.large.1 small
          | _ => exact id
      | _ => exact id
  | .string _, _, _, _ => id
  | .array as, b, c, small => by
      cases b with
      | array bs =>
          cases c with
          | array cs => exact not_alignedItems_of_small as bs cs small
          | _ => exact id
      | _ => exact id
  | .object _, _, _, _ => id

theorem not_alignedItems_of_small : ∀ as bs cs : List Json, SmallItems as →
    ¬ AlignedItems Number.Blurred as bs cs
  | [], _, _, _ => id
  | _ :: _, [], _, _ => id
  | _ :: _, _ :: _, [], _ => id
  | a :: as, b :: bs, c :: cs, small => by
      rintro (aligned | aligned)
      · exact not_aligned_of_small a b c small.1 aligned
      · exact not_alignedItems_of_small as bs cs small.2 aligned

end

/-- The canonical order is reversed with its sides. It is transitive on three values unless, at one
place inside arrays, one of three numbers hides the two others; and on three numbers it fails to be
transitive just if the one in the middle hides the others and these are in the wrong order. -/
theorem compare_preorder_unless_hidden (a b c : Json) :
    b.compare a = (a.compare b).swap ∧
    (¬ Aligned Number.Blurred a b c →
      a.compare b ≠ .gt → b.compare c ≠ .gt → a.compare c ≠ .gt) ∧
    ∀ n m k : Number, a = .number n → b = .number m → c = .number k →
      ((a.compare b ≠ .gt → b.compare c ≠ .gt → a.compare c ≠ .gt) ↔
        ¬ (m.Hides n k ∧ a.compare c = .gt)) := by
  refine ⟨compare_swap a b, fun clear => (compare_coheres a b c clear).1, ?_⟩
  rintro n m k rfl rfl rfl
  exact Number.compare_trans_iff

/-- Two integers with the double between them. -/
theorem three_ascending :
    let low := Json.array [.number (.int 9007199254740990 (by decide) (by decide))]
    let middle := Json.array [.number (.float (.ofInt 18014398509481984) (by decide +kernel))]
    let high := Json.array [.number (.int 18446744073709551615 (by decide) (by decide))]
    ¬ Aligned Number.Blurred low middle high ∧ low.compare middle = .lt ∧
      middle.compare high = .lt ∧ low.compare high ≠ .gt := by
  intro low middle high
  have clear : ¬ Aligned Number.Blurred low middle high :=
    not_aligned_of_small low middle high ⟨Number.isSmall_int.2 (by decide), trivial⟩
  have first : low.compare middle = .lt := by decide +kernel
  have second : middle.compare high = .lt := by decide +kernel
  obtain ⟨-, transitive, -⟩ := compare_preorder_unless_hidden low middle high
  refine ⟨clear, first, second, transitive clear ?_ ?_⟩
  · rw [first]
    decide
  · rw [second]
    decide

/-- A double is the equal of two integers of which one is greater, so sorting leaves the greater one
in front. -/
theorem double_hides_integers :
    let high := Json.number (.int 18014398509481985 (by decide) (by decide))
    let middle := Json.number (.float (.ofInt 18014398509481984) (by decide +kernel))
    let low := Json.number (.int 18014398509481984 (by decide) (by decide))
    high.compare middle = .eq ∧ middle.compare low = .eq ∧ high.compare low = .gt ∧
      stableSort compare [high, middle, low] = [high, middle, low] := by
  intro high middle low
  have first : high.compare middle = .eq := by decide +kernel
  have second : middle.compare low = .eq := by decide +kernel
  have reversed : low.compare middle = .eq := by rw [compare_swap middle low, second]; rfl
  have reversed' : middle.compare high = .eq := by rw [compare_swap high middle, first]; rfl
  refine ⟨first, second, by decide +kernel, ?_⟩
  simp [stableSort, settle, reversed, reversed']

end Json
end Docstore
