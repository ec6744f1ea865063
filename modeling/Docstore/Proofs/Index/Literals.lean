import Docstore.Proofs.Index.KeyOrder
import Docstore.Proofs.Json.Equality
import Docstore.Query.Selection

set_option autoImplicit false

namespace Docstore

namespace Json

/-- Every number inside an array or an object is below `2 ^ 53`. -/
def SmallInside : Json → Prop
  | .array items => SmallItems items
  | .object members => SmallMembers members
  | _ => True

theorem small_of_exact {value : Json} (exact : Key.isExact value = true)
    (inside : value.SmallInside) : value.Small := by
  cases value with
  | number n => exact exact
  | array items => exact inside
  | object members => exact inside
  | _ => trivial

theorem exact_of_small {value : Json} (small : value.Small) : Key.isExact value = true := by
  cases value with
  | number n => exact small
  | _ => rfl

/-- Equal values that write the numbers at the same places alike. -/
def Twin (a b : Json) : Prop :=
  a.equal b = true ∧ ¬ Facing Number.Splits a b

theorem twin_iff_equal {a b : Json} (small : b.Small) : Twin a b ↔ a.equal b = true :=
  and_iff_left (not_facing_of_small a b small)

end Json

namespace Key

variable {found : Option Json} {value : Json}

/-- A value has the key of an exact literal just if it equals it and writes the numbers inside like
it. -/
theorem ofValue_eq_iff (ordered : (found.getD .null).Ordered) (ordered' : value.Ordered)
    (exact : isExact value = true) :
    ofValue found = ofValue (some value) ↔ Json.Twin (found.getD .null) value := by
  have missing : ofValue found = ofValue (some (found.getD .null)) := by
    cases found <;> rfl
  rw [missing]
  generalize found.getD .null = present at ordered ⊢
  have texts : present.canonicalText = value.canonicalText ↔ Json.Twin present value := by
    rw [Json.Twin, ← Json.canonicalChars_eq_iff ordered ordered']
    exact ⟨fun same => String.ofList_injective same, fun same => congrArg String.ofList same⟩
  cases value with
  | number m =>
      cases present with
      | number n =>
          have whole : ¬ n.Splits m := fun splits => splits.spec.2.1 exact
          simpa [ofValue, Json.Twin, Json.equal, Json.Facing, whole] using
            Number.magnitudeKey_eq_iff exact
      | _ => simp [ofValue, Json.Twin, Json.equal]
  | array items =>
      cases present with
      | array others => simpa [ofValue] using texts
      | object members => simpa [ofValue] using texts
      | _ => simp [ofValue, Json.Twin, Json.equal]
  | object members =>
      cases present with
      | array others => simpa [ofValue] using texts
      | object others => simpa [ofValue] using texts
      | _ => simp [ofValue, Json.Twin, Json.equal]
  | _ => cases present <;> simp [ofValue, Json.Twin, Json.equal, Json.Facing]

def afterPart (parts : List (List Char)) : List Char :=
  if parts.isEmpty then [] else ',' :: joinParts parts

theorem joinParts_cons (part : List Char) (rest : List (List Char)) :
    joinParts (part :: rest) = part ++ afterPart rest := by
  cases rest with
  | nil => exact (List.append_nil part).symm
  | cons next rest => rfl

theorem stops_afterPart (parts : List (List Char)) : Json.Stops (afterPart parts) := by
  cases parts with
  | nil => exact fun c there => by cases there
  | cons part rest => exact Json.stops_of_comma _

theorem joinParts_ne_nil (value : Json) (rest : List (List Char)) :
    joinParts (value.canonicalChars :: rest) ≠ [] := by
  obtain ⟨c, tail, form, -⟩ := Json.kindOf_head Number.digital_canonicalText value
  rw [joinParts_cons, Json.canonicalChars, form]
  exact List.cons_ne_nil _ _

/-- The parts of a composite key can be told apart. -/
theorem joinParts_injective {as bs : List Json}
    (same : joinParts (as.map Json.canonicalChars) = joinParts (bs.map Json.canonicalChars)) :
    as.map Json.canonicalChars = bs.map Json.canonicalChars := by
  induction as generalizing bs with
  | nil =>
      cases bs with
      | nil => rfl
      | cons b bs => exact absurd same.symm (joinParts_ne_nil b _)
  | cons a as ih =>
      cases bs with
      | nil => exact absurd same (joinParts_ne_nil a _)
      | cons b bs =>
          rw [List.map_cons, List.map_cons, joinParts_cons, joinParts_cons] at same
          obtain ⟨alike, left⟩ := Json.alike_of_text Number.digital_canonicalText a b
            (stops_afterPart _) (stops_afterPart _) same
          have others : joinParts (as.map Json.canonicalChars) =
              joinParts (bs.map Json.canonicalChars) := by
            cases as with
            | nil =>
                cases bs with
                | nil => rfl
                | cons d ds => simp [afterPart] at left
            | cons c cs =>
                cases bs with
                | nil => simp [afterPart] at left
                | cons d ds => simpa [afterPart] using left
          exact congrArg₂ List.cons (Json.textWith_congr a b alike) (ih others)

theorem map_partText (values : List (Option Json)) :
    values.map partText = (values.map (·.getD .null)).map Json.canonicalChars := by
  rw [List.map_map]
  refine List.map_congr_left fun value _ => ?_
  cases value <;> rfl

theorem composite_eq_iff {found values : List (Option Json)} :
    composite found = composite values ↔
      found.map partText = values.map partText := by
  constructor
  · intro same
    have joined := String.ofList_injective (Key.text.inj same)
    rw [map_partText, map_partText] at joined ⊢
    exact joinParts_injective joined
  · intro same
    rw [composite, composite, same]

/-- The literals of an exact lookup, with the values that have their key. -/
theorem ofValues_eq_iff {found : List (Option Json)} {values : List Json}
    (length : found.length = values.length) (nonempty : values ≠ [])
    (ordered : ∀ value ∈ found, (value.getD .null).Ordered)
    (fit : ∀ value ∈ values, value.Ordered ∧ isExact value = true) :
    ofValues found = ofOperands values ↔
      List.Forall₂ (fun present value => Json.Twin (present.getD .null) value) found values := by
  have parts : ∀ {found : List (Option Json)} {values : List Json},
      (∀ value ∈ found, (value.getD .null).Ordered) →
      (∀ value ∈ values, value.Ordered ∧ isExact value = true) →
      (found.map partText = (values.map Option.some).map partText ↔
        List.Forall₂ (fun present value => Json.Twin (present.getD .null) value) found values) := by
    intro found values ordered fit
    induction found generalizing values with
    | nil => cases values <;> simp
    | cons present rest ih =>
        cases values with
        | nil => simp
        | cons value others =>
            have first : partText present = partText (Option.some value) ↔
                Json.Twin (present.getD .null) value := by
              rw [Json.Twin, ← Json.canonicalChars_eq_iff (ordered present List.mem_cons_self)
                (fit value List.mem_cons_self).1]
              cases present <;> rfl
            rw [List.forall₂_cons, ← first,
              ← ih (fun v there => ordered v (List.mem_cons_of_mem _ there))
                (fun v there => fit v (List.mem_cons_of_mem _ there))]
            simp only [List.map_cons, List.cons.injEq]
  cases values with
  | nil => exact absurd rfl nonempty
  | cons value others =>
      cases found with
      | nil => cases length
      | cons present rest =>
          cases others with
          | nil =>
              obtain rfl : rest = [] := List.length_eq_zero_iff.1 (Nat.succ.inj length)
              rw [List.forall₂_cons]
              simpa [ofValues, ofOperands] using
                ofValue_eq_iff (ordered present List.mem_cons_self)
                  (fit value List.mem_cons_self).1 (fit value List.mem_cons_self).2
          | cons value' others =>
              cases rest with
              | nil => cases length
              | cons present' rest =>
                  rw [← parts ordered fit, ← composite_eq_iff]
                  rfl

/-- Small literals have the key of just the values that are equal to them. -/
theorem ofValues_eq_iff_of_small {found : List (Option Json)} {values : List Json}
    (length : found.length = values.length) (nonempty : values ≠ [])
    (ordered : ∀ value ∈ found, (value.getD .null).Ordered)
    (fit : ∀ value ∈ values, value.Ordered ∧ value.Small) :
    ofValues found = ofOperands values ↔
      List.Forall₂ (fun present value => (present.getD .null).equal value = true) found values := by
  rw [ofValues_eq_iff length nonempty ordered fun value there =>
    ⟨(fit value there).1, Json.exact_of_small (fit value there).2⟩]
  constructor
  · exact List.Forall₂.imp fun _ _ twin => twin.1
  · intro equal
    have fitting := (List.forall₂_and_left values found).2 ⟨fit, equal.flip⟩
    exact fitting.flip.imp fun _ _ both => (Json.twin_iff_equal both.1.2).2 both.2

/-- A bound keeps to the values of its kind and orders them as their keys are ordered. -/
theorem isOrdered_eq {key : Key} (bound : Query.boundKey? value = some key)
    (proper : ∀ n, found = some (.number n) → n.isNegativeZero = false)
    (proper' : ∀ m, value = .number m → m.isNegativeZero = false) (orderings : List Ordering) :
    Clause.isOrdered orderings (found.getD .null) value =
      (key.sameKind (ofValue found) && orderings.contains (Ord.compare (ofValue found) key)) := by
  unfold Query.boundKey? at bound
  cases value with
  | number m =>
      simp only [Option.ite_none_right_eq_some, Option.some.injEq] at bound
      obtain ⟨small, rfl⟩ := bound
      cases found with
      | none => rfl
      | some present =>
          cases present with
          | number n =>
              have order := Number.compareTotal_magnitudeKey small (proper n rfl) (proper' m rfl)
              have keys : Ord.compare (ofValue (some (.number n))) (ofValue (some (.number m))) =
                  n.magnitudeKey.compareTotal m.magnitudeKey := rfl
              rw [keys, order]
              rfl
          | _ => rfl
  | string s =>
      simp only [Option.ite_none_right_eq_some, Option.some.injEq] at bound
      obtain ⟨-, rfl⟩ := bound
      cases found with
      | none => rfl
      | some present => cases present <;> rfl
  | _ => cases bound

end Key

end Docstore
