import Docstore.Proofs.Index.Literals
import Docstore.Proofs.Json.Ordered

set_option autoImplicit false

namespace Docstore

namespace Key

variable {doc : Json} {attributes : List String} {operands : List Json}

/-- The values of a document at some attributes, each with the literal that it is compared to. -/
def faced (doc : Json) (attributes : List String) (operands : List Json) : List (Json × Json) :=
  (attributes.zip operands).map fun pair => ((doc.lookup pair.1).getD .null, pair.2)

/-- A document has the key of exact literals just if its values are twins of theirs. -/
theorem ofDocument_eq_iff (nonempty : operands ≠ []) (length : operands.length = attributes.length)
    (exact : ∀ operand ∈ operands, isExact operand = true) (ordered : doc.Ordered)
    (ordered' : ∀ operand ∈ operands, operand.Ordered) :
    ofDocument doc attributes = ofOperands operands ↔
      ∀ pair ∈ faced doc attributes operands, Json.Twin pair.1 pair.2 := by
  have inside : ∀ value ∈ attributes.map doc.lookup, (value.getD .null).Ordered := by
    intro value there
    obtain ⟨path, -, rfl⟩ := List.mem_map.1 there
    exact ordered.lookup path
  have same : (attributes.map doc.lookup).length = operands.length := by
    rw [List.length_map, length]
  rw [ofDocument, ofValues_eq_iff same nonempty inside fun operand there =>
    ⟨ordered' operand there, exact operand there⟩, List.forall₂_map_left_iff,
    List.forall₂_iff_zip, and_iff_right length.symm]
  constructor
  · intro twins pair there
    obtain ⟨⟨path, operand⟩, member, rfl⟩ := List.mem_map.1 there
    exact twins member
  · intro twins path operand member
    exact twins _ (List.mem_map.2 ⟨(path, operand), member, rfl⟩)

/-- For exact literals, a document has the key of their lookup just if its values are equal to them
and no number in the one is written differently in the other; so for literals with small numbers
inside just if its values are equal to them. -/
theorem exact_lookups_agree (nonempty : operands ≠ [])
    (length : operands.length = attributes.length)
    (exact : ∀ operand ∈ operands, isExact operand = true) (ordered : doc.Ordered)
    (ordered' : ∀ operand ∈ operands, operand.Ordered) :
    (ofDocument doc attributes = ofOperands operands ↔
      (∀ pair ∈ faced doc attributes operands, pair.1.equal pair.2 = true) ∧
        ¬ ∃ pair ∈ faced doc attributes operands, Json.Facing Number.Splits pair.1 pair.2) ∧
    ((∀ operand ∈ operands, operand.SmallInside) →
      (ofDocument doc attributes = ofOperands operands ↔
        ∀ pair ∈ faced doc attributes operands, pair.1.equal pair.2 = true)) := by
  have twins := ofDocument_eq_iff nonempty length exact ordered ordered'
  constructor
  · rw [twins]
    constructor
    · intro twin
      exact ⟨fun pair there => (twin pair there).1,
        fun ⟨pair, there, facing⟩ => (twin pair there).2 facing⟩
    · rintro ⟨equal, whole⟩ pair there
      exact ⟨equal pair there, fun facing => whole ⟨pair, there, facing⟩⟩
  · intro inside
    rw [twins]
    refine forall₂_congr fun pair there => ?_
    obtain ⟨⟨path, operand⟩, member, rfl⟩ := List.mem_map.1 there
    have here : operand ∈ operands := (List.of_mem_zip member).2
    exact Json.twin_iff_equal (Json.small_of_exact (exact operand here) (inside operand here))

/-- An array with a double and a missing value have the key of the array with the integer and of
null. -/
theorem one_and_nothing_found :
    let one := Json.array [.number (.int 1 (by decide) (by decide))]
    let doc := Json.object [("a", .array [.number (.float (.ofInt 1) (by decide +kernel))])]
    ofDocument doc ["a", "b"] = ofOperands [one, .null] := by
  intro one doc
  have small : one.SmallInside := by
    simp only [one, Json.SmallInside, Json.SmallItems, Json.Small, Number.isSmall_int]
    decide
  refine ((exact_lookups_agree (by decide) rfl ?_ ?_ ?_).2 ?_).2 ?_
  · simp [one, isExact]
  · simp [doc, Json.Ordered, Json.OrderedMembers, Json.OrderedItems]
  · simp [one, Json.Ordered, Json.OrderedItems]
  · simpa [Json.SmallInside] using small
  · decide +kernel

/-- An integer beyond `2 ^ 53` in an array equals the double nearest to it, but a lookup of the one
does not find the other. -/
theorem large_integer_missed :
    let operand := Json.array [.number (.int 9007199254740993 (by decide) (by decide))]
    let value := Json.array [.number (.float (.ofInt 9007199254740992) (by decide +kernel))]
    isExact operand = true ∧ value.equal operand = true ∧
      ofDocument (.object [("a", value)]) ["a"] ≠ ofOperands [operand] := by
  intro operand value
  refine ⟨rfl, by decide +kernel, by decide +kernel⟩

end Key

end Docstore
