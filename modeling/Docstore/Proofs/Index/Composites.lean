import Docstore.Proofs.Index.Literals
import Docstore.Proofs.Json.Ordered

set_option autoImplicit false

namespace Docstore

namespace Json

theorem equal_of_canonicalText {a b : Json} (ordered : a.Ordered) (ordered' : b.Ordered)
    (same : a.canonicalText = b.canonicalText) : a.equal b = true :=
  ((canonicalChars_eq_iff ordered ordered').1 (String.ofList_injective same)).1

end Json

namespace Key

def SameValue (a b : Option Json) : Prop :=
  (a.getD .null).equal (b.getD .null) = true

theorem sameValue_of_partText {a b : Option Json} (ordered : (a.getD .null).Ordered)
    (ordered' : (b.getD .null).Ordered) (same : partText a = partText b) : SameValue a b := by
  have part : ∀ value : Option Json, partText value = (value.getD .null).canonicalChars := by
    intro value
    cases value <;> rfl
  rw [part, part] at same
  exact Json.equal_of_canonicalText ordered ordered' (congrArg String.ofList same)

/-- The values in two composite keys that are equal are equal one by one. -/
theorem sameValues_of_composite {found values : List (Option Json)}
    (ordered : ∀ value ∈ found, (value.getD .null).Ordered)
    (ordered' : ∀ value ∈ values, (value.getD .null).Ordered)
    (same : composite found = composite values) : List.Forall₂ SameValue found values := by
  have parts := composite_eq_iff.1 same
  clear same
  induction found generalizing values with
  | nil =>
      cases values with
      | nil => exact .nil
      | cons value others => cases parts
  | cons present rest ih =>
      cases values with
      | nil => cases parts
      | cons value others =>
          obtain ⟨first, following⟩ := List.cons.inj parts
          obtain ⟨here, inRest⟩ := List.forall_mem_cons.1 ordered
          obtain ⟨here', inOthers⟩ := List.forall_mem_cons.1 ordered'
          exact .cons (sameValue_of_partText here here' first) (ih inRest inOthers following)

theorem ofDocument_composite {doc : Json} {attributes : List String}
    (several : 2 ≤ attributes.length) :
    ofDocument doc attributes = composite (attributes.map doc.lookup) := by
  match attributes, several with
  | _ :: _ :: _, _ => rfl

/-- Values of one canonical text are equal, lists of values with one composite key have as many
values and equal ones at each place, and so have documents that are filed under one key over several
attributes equal values at each of them. -/
theorem canonical_keys_tell_apart :
    (∀ a b : Json, a.Ordered → b.Ordered → a.canonicalText = b.canonicalText →
      a.equal b = true) ∧
    (∀ found values : List (Option Json), (∀ value ∈ found, (value.getD .null).Ordered) →
      (∀ value ∈ values, (value.getD .null).Ordered) → composite found = composite values →
      List.Forall₂ SameValue found values) ∧
    ∀ (doc doc' : Json) (attributes : List String), doc.Ordered → doc'.Ordered →
      2 ≤ attributes.length → ofDocument doc attributes = ofDocument doc' attributes →
      ∀ path ∈ attributes, SameValue (doc.lookup path) (doc'.lookup path) := by
  refine ⟨fun a b => Json.equal_of_canonicalText, fun found values => sameValues_of_composite,
    fun doc doc' attributes ordered ordered' several same => ?_⟩
  have inside : ∀ {doc : Json}, doc.Ordered →
      ∀ value ∈ attributes.map doc.lookup, (value.getD .null).Ordered := by
    intro doc ordered value there
    obtain ⟨path, -, rfl⟩ := List.mem_map.1 there
    exact ordered.lookup path
  rw [ofDocument_composite several, ofDocument_composite several] at same
  have each := sameValues_of_composite (inside ordered) (inside ordered') same
  rw [List.forall₂_map_left_iff, List.forall₂_map_right_iff, List.forall₂_same] at each
  exact each

/-- An array with a double has the key of the array with the integer, in a composite key and in a
document; but a text with a quote and a comma in it does not run into the next part. -/
theorem quoted_comma_told_apart :
    let one := Json.array [.number (.int 1 (by decide) (by decide))]
    let one' := Json.array [.number (.float (.ofInt 1) (Binary64.isFinite_ofInt (by decide)))]
    let doc := Json.object [("a", one)]
    let doc' := Json.object [("a", one'), ("b", .null)]
    one.canonicalText = one'.canonicalText ∧ one.equal one' = true ∧
      composite [some one, none] = composite [some one', some .null] ∧
      List.Forall₂ SameValue [some one, none] [some one', some .null] ∧
      ofDocument doc ["a", "b"] = ofDocument doc' ["a", "b"] ∧
      SameValue (doc.lookup "b") (doc'.lookup "b") ∧
      composite [some (.string "a\",\"b"), none] ≠
        composite [some (.string "a"), some (.string "b")] := by
  intro one one' doc doc'
  obtain ⟨texts, composites, documents⟩ := canonical_keys_tell_apart
  have ordered : one.Ordered := by simp [one, Json.Ordered, Json.OrderedItems]
  have ordered' : one'.Ordered := by simp [one', Json.Ordered, Json.OrderedItems]
  have text : one.canonicalText = one'.canonicalText := by decide +kernel
  have composed : composite [some one, none] = composite [some one', some .null] := by
    decide +kernel
  have filed : ofDocument doc ["a", "b"] = ofDocument doc' ["a", "b"] := by decide +kernel
  refine ⟨text, texts _ _ ordered ordered' text, composed, composites _ _ ?_ ?_ composed, filed,
    documents _ _ _ ?_ ?_ (by decide) filed "b" (by decide), fun collide => ?_⟩
  · simpa [Json.Ordered] using ordered
  · simpa [Json.Ordered] using ordered'
  · simpa [doc, Json.Ordered, Json.OrderedMembers] using ordered
  · exact ⟨by decide, ordered', trivial, trivial⟩
  · have each := composites _ _ (by simp [Json.Ordered]) (by simp [Json.Ordered]) collide
    rw [List.forall₂_cons, SameValue] at each
    exact absurd each.1 (by decide +kernel)

end Key

end Docstore
