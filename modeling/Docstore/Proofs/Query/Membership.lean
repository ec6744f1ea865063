import Docstore.Proofs.Index.Literals
import Docstore.Proofs.Json.Ordered
import Docstore.Proofs.Number.Shortest

set_option autoImplicit false

namespace Docstore

namespace Json

variable {a b value : Json} {items : List Json}

theorem splits_eq_strays : Number.Splits = Number.Strays := by
  funext n m
  exact propext Number.splits_iff_strays

/-- Values have one canonical text just if they are equal and no integer in the one strays from the
double at its place in the other. -/
theorem canonicalText_eq_iff (ordered : a.Ordered) (ordered' : b.Ordered) :
    a.canonicalText = b.canonicalText ↔ a.equal b = true ∧ ¬ Facing Number.Strays a b := by
  rw [← splits_eq_strays, ← canonicalChars_eq_iff ordered ordered']
  exact ⟨fun same => String.ofList_injective same, fun same => congrArg String.ofList same⟩

/-- A set has a value just if an item is equal to it and no integer strays between the two. -/
theorem memberOf_iff (ordered : value.Ordered) (fit : ∀ item ∈ items, item.Ordered) :
    memberOf items value = true ↔
      ∃ item ∈ items, item.equal value = true ∧ ¬ Facing Number.Strays item value := by
  rw [memberOf, List.any_eq_true]
  refine exists_congr fun item => and_congr_right fun there => ?_
  rw [beq_iff_eq]
  exact canonicalText_eq_iff (fit item there) ordered

/-- What a set is asked for with a value: the value itself, and its items if it is an array. -/
def selfAndItems : Json → List Json
  | .array items => .array items :: items
  | value => [value]

theorem inSet_eq (items : List Json) (value : Json) :
    inSet items value = value.selfAndItems.any (memberOf items) := by
  cases value with
  | array inner => rfl
  | _ => rfl

theorem Ordered.selfAndItems (ordered : value.Ordered) :
    ∀ part ∈ value.selfAndItems, part.Ordered := by
  cases value with
  | array inner => exact List.forall_mem_cons.2 ⟨ordered, orderedItems_iff.1 ordered⟩
  | _ => exact List.forall_mem_singleton.2 ordered

/-- `$in` holds of a field just if `$eq` holds of it, or of one of its items, for an item of the set
that no integer strays from. -/
theorem evaluate_isIn_iff {found : Option Json} (ordered : (found.getD .null).Ordered)
    (fit : ∀ item ∈ items, item.Ordered) :
    Clause.evaluate .isIn found (.items items) = true ↔
      ∃ part ∈ (found.getD .null).selfAndItems, ∃ item ∈ items,
        Clause.evaluate .eq (some part) (.literal item) = true ∧
          ¬ Facing Number.Strays part item := by
  rw [show Clause.evaluate .isIn found (.items items) = inSet items (found.getD .null) from rfl,
    inSet_eq, List.any_eq_true]
  refine exists_congr fun part => and_congr_right fun inside => ?_
  rw [memberOf, List.any_eq_true]
  refine exists_congr fun item => and_congr_right fun there => ?_
  rw [beq_iff_eq, eq_comm]
  exact canonicalText_eq_iff (ordered.selfAndItems part inside) (fit item there)

theorem not_facing_strays_of_small (small : b.Small) : ¬ Facing Number.Strays a b :=
  splits_eq_strays ▸ not_facing_of_small a b small

/-- Equal values have one canonical text just if no integer in the one strays from a double in the
other. So a set has a value just if it has an item equal to it that none strays from, and `$in`
holds of the fields that `$eq` holds of with such an item. Of items with small numbers only, none is
ever missed. -/
theorem equal_values_share_text_unless_strays {items : List Json}
    (fit : ∀ item ∈ items, item.Ordered) :
    (∀ a b : Json, a.Ordered → b.Ordered → a.equal b = true →
      (a.canonicalText = b.canonicalText ↔ ¬ Facing Number.Strays a b)) ∧
    (∀ value : Json, value.Ordered → (memberOf items value = true ↔
      ∃ item ∈ items, item.equal value = true ∧ ¬ Facing Number.Strays item value)) ∧
    ∀ found : Option Json, (found.getD .null).Ordered →
      (Clause.evaluate .isIn found (.items items) = true ↔
        ∃ part ∈ (found.getD .null).selfAndItems, ∃ item ∈ items,
          Clause.evaluate .eq (some part) (.literal item) = true ∧
            ¬ Facing Number.Strays part item) ∧
      ∀ item ∈ items, Clause.evaluate .eq found (.literal item) = true →
        ¬ Facing Number.Strays (found.getD .null) item ∨ item.Small →
        Clause.evaluate .isIn found (.items items) = true := by
  refine ⟨fun a b ordered ordered' equal => ?_, fun value ordered => memberOf_iff ordered fit,
    fun found ordered => ⟨evaluate_isIn_iff ordered fit, fun item there equal plain => ?_⟩⟩
  · rw [canonicalText_eq_iff ordered ordered', and_iff_right equal]
  · have self : found.getD .null ∈ (found.getD .null).selfAndItems := by
      cases found.getD .null <;> exact List.mem_cons_self
    exact (evaluate_isIn_iff ordered fit).2
      ⟨_, self, item, there, equal, plain.elim id not_facing_strays_of_small⟩

/-- An array with a double is in a set that has the array with the integer. -/
theorem one_found_in_set :
    let item := Json.array [.number (.int 1 (by decide) (by decide))]
    let value := Json.array [.number (.float (.ofInt 1) (Binary64.isFinite_ofInt (by decide)))]
    value.Ordered ∧ item.Ordered ∧ item.Small ∧
      Clause.evaluate .eq (some value) (.literal item) = true ∧
      Clause.evaluate .isIn (some value) (.items [.string "one", item]) = true := by
  intro item value
  have ordered : value.Ordered := by simp [value, Ordered, OrderedItems]
  have ordered' : item.Ordered := by simp [item, Ordered, OrderedItems]
  have small : item.Small := by
    simp only [item, Small, SmallItems, Number.isSmall_int]
    decide
  have fit : ∀ other ∈ [Json.string "one", item], other.Ordered :=
    List.forall_mem_cons.2 ⟨trivial, List.forall_mem_singleton.2 ordered'⟩
  have equal : Clause.evaluate .eq (some value) (.literal item) = true := by decide +kernel
  exact ⟨ordered, ordered', small, equal,
    ((equal_values_share_text_unless_strays fit).2.2 (some value) ordered).2 item
      (List.mem_cons_of_mem _ List.mem_cons_self) equal (.inr small)⟩

/-- An integer beyond `2 ^ 53` equals its nearest double, but a set with the one does not have the
other; and so it is with `2 ^ 63`, which is a double itself. -/
theorem large_integers_not_in_set :
    let odd := Json.number (.int 9007199254740993 (by decide) (by decide))
    let double := Json.number
      (.float (.ofInt 9007199254740992) (Binary64.isFinite_ofInt (by decide)))
    let power := Json.number (.int 9223372036854775808 (by decide) (by decide))
    let double' := Json.number
      (.float (.ofInt 9223372036854775808) (Binary64.isFinite_ofInt (by decide)))
    double.equal odd = true ∧ double.canonicalText ≠ odd.canonicalText ∧
      memberOf [odd] double = false ∧
      Clause.evaluate .eq (some double) (.literal odd) = true ∧
      Clause.evaluate .isIn (some double) (.items [odd]) = false ∧
      Clause.evaluate .eq (some double') (.literal power) = true ∧
      Clause.evaluate .isIn (some double') (.items [power]) = false := by
  decide +kernel

end Json

end Docstore
