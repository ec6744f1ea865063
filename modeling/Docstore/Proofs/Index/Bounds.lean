import Docstore.Proofs.Index.Literals
import Docstore.Proofs.Index.Ranges

set_option autoImplicit false

namespace Docstore

namespace Binary64

variable {x y : Binary64}

def ZerosApart (x y : Binary64) : Prop :=
  x.isZero = true ∧ y.isZero = true ∧ x ≠ y

theorem isZero_iff_place : x.isZero = true ↔ x.place = 0 ∨ x.place = -1 := by
  obtain ⟨sign, magnitude, bound⟩ := x
  rw [isZero, beq_iff_eq, place]
  cases sign with
  | false => simp only [Bool.false_eq_true, if_false]; omega
  | true => simp only [if_true]; omega

theorem place_unsignedZero (x : Binary64) :
    x.unsignedZero.place = if x.place = -1 then 0 else x.place := by
  rw [unsignedZero]
  by_cases zero : x.isZero = true
  · rw [if_pos zero, show Binary64.zero.place = 0 from rfl]
    rcases isZero_iff_place.1 zero with above | below
    · rw [if_neg (by omega), above]
    · rw [if_pos below]
  · rw [if_neg zero, if_neg fun below => zero (isZero_iff_place.2 (.inr below))]

theorem compareTotal_unsignedZero_iff :
    x.compareTotal y = x.unsignedZero.compareTotal y.unsignedZero ↔ ¬ ZerosApart x y := by
  have distinct : x ≠ y ↔ x.place ≠ y.place :=
    not_congr ⟨congrArg place, place_injective⟩
  rw [ZerosApart, isZero_iff_place, isZero_iff_place, distinct, compareTotal_eq, compareTotal_eq,
    place_unsignedZero, place_unsignedZero, Int.compare_eq_ite_lt, Int.compare_eq_ite_lt]
  grind

end Binary64

namespace Number

variable {n m : Number}

/-- Both zero, one of them the negative zero and the other not. -/
def ZerosApart (n m : Number) : Prop :=
  n.toBinary64.ZerosApart m.toBinary64

theorem compare_float (n : Number) {y : Binary64} (finite : y.isFinite = true) :
    n.compare (.float y finite) = n.toBinary64.compareTotal y := by
  unfold compare
  cases n.signed? with
  | none => rfl
  | some a => rfl

theorem not_zerosApart_of_integers (integer : n.isInteger = true) (integer' : m.isInteger = true) :
    ¬ n.ZerosApart m := by
  obtain ⟨a, lower, upper, rfl⟩ := isInteger_iff.1 integer
  obtain ⟨b, lower', upper', rfl⟩ := isInteger_iff.1 integer'
  rintro ⟨zero, zero', distinct⟩
  rw [toBinary64, isZero_ofInt, decide_eq_true_eq] at zero zero'
  subst zero zero'
  exact distinct rfl

/-- A number compares with a small one as their keys do, except for zeros of different signs. -/
theorem compare_magnitudeKey_iff (small : m.IsSmall) :
    n.compare m = n.magnitudeKey.compareTotal m.magnitudeKey ↔ ¬ n.ZerosApart m := by
  cases n with
  | float x finite => exact Binary64.compareTotal_unsignedZero_iff
  | int a lower upper =>
      -- Integers may be compared exactly, so the doubles do not settle the order of two of them.
      cases m with
      | float y finite =>
          rw [compare_float]
          exact Binary64.compareTotal_unsignedZero_iff
      | int b lower' upper' =>
          have proper : ∀ {k : Int} {lower upper}, (int k lower upper).isNegativeZero = false := by
            intro k lower upper
            rw [isNegativeZero, toBinary64, Binary64.negative_ofInt, isZero_ofInt]
            simp
            omega
          exact iff_of_true (compareTotal_magnitudeKey small proper proper).symm
            (not_zerosApart_of_integers rfl rfl)

end Number

def Json.ZerosApart : Option Json → Json → Prop
  | some (.number n), .number m => n.ZerosApart m
  | _, _ => False

namespace Operator

/-- Where the keys that an operator admits lie of the key of its bound. -/
def sides : Operator → List Ordering
  | .gt => [.gt]
  | .gte => [.gt, .eq]
  | .lt => [.lt]
  | .lte => [.lt, .eq]
  | _ => []

def range? (op : Operator) (key : Key) : Option (KeyRange Key) :=
  match op with
  | .gt => some ⟨some key, none, false, true⟩
  | .gte => some ⟨some key, none, true, true⟩
  | .lt => some ⟨none, some key, true, false⟩
  | .lte => some ⟨none, some key, true, true⟩
  | _ => none

end Operator

namespace Key

variable {value : Json} {key : Key}

/-- A key of the kind of a bound that lies on a side that the operator admits. -/
def Within (op : Operator) (bound key : Key) : Prop :=
  bound.sameKind key = true ∧ Ord.compare key bound ∈ op.sides

instance (op : Operator) (bound key : Key) : Decidable (Within op bound key) :=
  inferInstanceAs (Decidable (_ ∧ _))

theorem finds_iff_within {op : Operator} {range : KeyRange Key} (sets : op.range? key = some range)
    (other : Key) : range.finds other = true ↔ Within op key other := by
  cases op with
  | gt | gte | lt | lte =>
      obtain rfl := Option.some.inj sets
      simp only [KeyRange.finds, KeyRange.admits, KeyRange.isBelow, KeyRange.isAbove, Within,
        Operator.sides]
      cases Ord.compare other key <;> simp
  | _ => cases sets

/-- What the operators of a bound say of a value, in terms of the order of the two. -/
theorem evaluate_bound (found : Option Json) {op : Operator} (bounds : op.shape = .bound) :
    Clause.evaluate op found (.literal value) = true ↔
      ∃ order, (found.getD .null).compare? value = some order ∧ order ∈ op.sides := by
  cases op with
  | gt | gte | lt | lte =>
      simp only [Clause.evaluate, Clause.isOrdered, Operator.sides]
      cases (found.getD .null).compare? value with
      | none => simp
      | some order => simp
  | _ => cases bounds

/-- The operators of a bound tell the three orders apart. -/
theorem sides_alike_iff {order order' : Ordering} :
    (∀ op : Operator, op.shape = .bound → (order ∈ op.sides ↔ order' ∈ op.sides)) ↔
      order = order' := by
  constructor
  · intro alike
    have above := alike .gt rfl
    have below := alike .lt rfl
    simp only [Operator.sides, List.mem_singleton] at above below
    cases order with
    | lt => exact (below.1 rfl).symm
    | gt => exact (above.1 rfl).symm
    | eq => cases order' with
      | eq => rfl
      | lt => exact below.2 rfl
      | gt => exact above.2 rfl
  · rintro rfl op -
    rfl

/-- The operators of a bound hold of a value just if its key is on their side of the bound, unless
the two are zeros of different signs. -/
theorem evaluates_within_iff (bound : Query.boundKey? value = some key) (found : Option Json) :
    (∀ op : Operator, op.shape = .bound →
      (Clause.evaluate op found (.literal value) = true ↔ Within op key (ofValue found))) ↔
      ¬ Json.ZerosApart found value := by
  have comparable : ∀ order, (found.getD .null).compare? value = some order →
      key.sameKind (ofValue found) = true →
      ((∀ op : Operator, op.shape = .bound →
        (Clause.evaluate op found (.literal value) = true ↔ Within op key (ofValue found))) ↔
        order = Ord.compare (ofValue found) key) := by
    intro order compared kinds
    rw [← sides_alike_iff]
    refine forall₂_congr fun op bounds => ?_
    rw [evaluate_bound found bounds, compared, Within, kinds]
    simp
  have incomparable : (found.getD .null).compare? value = none →
      key.sameKind (ofValue found) = false → ∀ op : Operator, op.shape = .bound →
      (Clause.evaluate op found (.literal value) = true ↔ Within op key (ofValue found)) := by
    intro absent kinds op bounds
    rw [evaluate_bound found bounds, absent, Within, kinds]
    simp
  unfold Query.boundKey? at bound
  cases value with
  | number m =>
      rw [Option.ite_none_right_eq_some, Option.some.injEq] at bound
      obtain ⟨small, rfl⟩ := bound
      cases found with
      | none => exact iff_of_true (incomparable rfl rfl) id
      | some present =>
          cases present with
          | number n =>
              rw [comparable (n.compare m) rfl rfl]
              exact Number.compare_magnitudeKey_iff small
          | _ => exact iff_of_true (incomparable rfl rfl) id
  | string s =>
      rw [Option.ite_none_right_eq_some, Option.some.injEq] at bound
      obtain ⟨-, rfl⟩ := bound
      cases found with
      | none => exact iff_of_true (incomparable rfl rfl) id
      | some present =>
          cases present with
          | string t => exact iff_of_true ((comparable (Ord.compare t s) rfl rfl).2 rfl) id
          | _ => exact iff_of_true (incomparable rfl rfl) id
  | _ => cases bound

end Key

namespace Index

/-- A range lookup finds the standing documents whose keys the range has. -/
theorem Reflects.range {index : OrderedIndex} {attributes : List String} {calls : List Call}
    (reflects : (Index.ordered index).Reflects attributes calls) (range : KeyRange Key) :
    ∃ ids, index.range range = .ok ids ∧ ids.Nodup ∧
      ∀ id, id ∈ ids ↔ ∃ doc, (id, doc) ∈ standing calls ∧
        range.finds (Key.ofDocument doc attributes) = true := by
  obtain ⟨found, gave, nodup, member, -⟩ := reflects.gathers range
  refine ⟨_, gave, nodup, fun id => ?_⟩
  rw [List.mem_map]
  constructor
  · rintro ⟨⟨other, doc⟩, there, rfl⟩
    obtain ⟨stands, selects⟩ := (member _).1 there
    exact ⟨doc, stands, KeyRange.finds_iff.2 selects⟩
  · rintro ⟨doc, stands, finds⟩
    exact ⟨(id, doc), (member _).2 ⟨stands, KeyRange.finds_iff.1 finds⟩, rfl⟩

/-- For a literal that bounds a range, the operators of a bound hold of just those values whose keys
are on their side of the key of the literal, except where the value and the literal are zeros of
different signs; and a lookup of the range that an operator sets finds the documents with such keys,
after any history of an ordered index. -/
theorem range_lookups_agree {value : Json} {key : Key} (bound : Query.boundKey? value = some key)
    {order threshold : Nat} (three : 3 ≤ order) (positive : 1 ≤ threshold)
    (half : threshold ≤ order / 2) (capacity : Nat) (path : String) (calls : List Call) :
    (∀ found, (∀ op : Operator, op.shape = .bound →
      (Clause.evaluate op found (.literal value) = true ↔ Key.Within op key (Key.ofValue found))) ↔
        ¬ Json.ZerosApart found value) ∧
    ∃ index,
      performAll (.ordered (OrderedIndex.fresh [path] order threshold capacity)) calls =
        .ok (.ordered index) ∧
      ∀ op : Operator, op.shape = .bound → ∃ range ids, op.range? key = some range ∧
        index.range range = .ok ids ∧ ids.Nodup ∧
        ∀ id, id ∈ ids ↔ ∃ doc, (id, doc) ∈ standing calls ∧
          Key.Within op key (Key.ofValue (doc.lookup path)) := by
  refine ⟨Key.evaluates_within_iff bound, ?_⟩
  obtain ⟨after, ran, reflects, kind⟩ :=
    performAll_reflects (OrderedIndex.inOrder_fresh three positive half [path] capacity) rfl calls
  cases after with
  | hashed index => cases kind
  | ordered index =>
      refine ⟨index, ran, fun op bounds => ?_⟩
      obtain ⟨range, sets⟩ : ∃ range, op.range? key = some range := by
        cases op with
        | gt | gte | lt | lte => exact ⟨_, rfl⟩
        | _ => cases bounds
      obtain ⟨ids, gave, nodup, member⟩ := reflects.range range
      refine ⟨range, ids, sets, gave, nodup, fun id => ?_⟩
      simp only [member, Key.finds_iff_within sets]
      rfl

/-- Above zero there is the number three, and zero is not. -/
theorem three_found_above_zero :
    let three := Json.number (.int 3 (by decide) (by decide))
    let calls : List Call := [.insert 1 (.object [("a", three)]),
      .insert 2 (.object [("a", .number .zero)])]
    Clause.evaluate .gt (some three) (.literal (.number .zero)) = true ∧
    ∃ index range ids, performAll (.ordered (OrderedIndex.fresh ["a"] 3 1 0)) calls =
        .ok (.ordered index) ∧
      Operator.gt.range? (.number .zero) = some range ∧ index.range range = .ok ids ∧
      1 ∈ ids ∧ 2 ∉ ids := by
  intro three calls
  have stand : standing calls = [(1, .object [("a", three)]),
    (2, .object [("a", .number .zero)])] :=
    rfl
  obtain ⟨agrees, index, ran, finds⟩ := range_lookups_agree
    (show Query.boundKey? (.number .zero) = some (.number .zero) by decide +kernel)
    (by decide : 3 ≤ 3) (by decide : 1 ≤ 1) (by decide) 0 "a" calls
  obtain ⟨range, ids, sets, gave, -, member⟩ := finds .gt rfl
  have apart : ¬ Json.ZerosApart (some three) (.number .zero) := by
    rintro ⟨zero, -⟩
    exact absurd zero (by decide +kernel)
  refine ⟨((agrees (some three)).2 apart .gt rfl).2 (by decide +kernel), index, range, ids, ran,
    sets, gave, ?_, ?_⟩
  · exact (member 1).2 ⟨_, stand ▸ List.mem_cons_self, by decide +kernel⟩
  · rw [member, stand]
    rintro ⟨doc, stands, within⟩
    obtain rfl : doc = .object [("a", .number .zero)] := by simpa using stands
    exact absurd within (by decide +kernel)

/-- Zero is above the negative zero, but a lookup of what is above the negative zero does not find
it. -/
theorem zero_missed_above_negative_zero :
    let bound := Json.number (.float (.signedZero true) rfl)
    let calls : List Call := [.insert 1 (.object [("a", .number .zero)])]
    Query.boundKey? bound = some (.number .zero) ∧
    Clause.evaluate .gt (some (.number .zero)) (.literal bound) = true ∧
    ¬ Key.Within .gt (.number .zero) (Key.ofValue (some (.number .zero))) ∧
    (do
      let index ← performAll (.ordered (OrderedIndex.fresh ["a"] 3 1 0)) calls
      index.range ⟨some (.number .zero), none, false, true⟩) = .ok [] := by
  intro bound calls
  refine ⟨by decide +kernel, by decide +kernel, by decide +kernel, ?_⟩
  rfl

end Index

end Docstore
