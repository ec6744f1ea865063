import Docstore.Query.Parse

set_option autoImplicit false

namespace Docstore

/-- Zero or more, which the negative zero is as well. -/
def Number.IsNonnegative : Number → Prop
  | .int value _ _ => 0 ≤ value
  | .float value _ => 0 ≤ value.signedUnits

/-- The operands that an operator takes. -/
def Operator.Takes (op : Operator) (value : Json) : Prop :=
  match op with
  | .isIn | .notIn | .all => ∃ items, value = .array items
  | .size => ∃ count lower upper, value = .number (.int count lower upper) ∧ 0 ≤ count
  | .present => ∃ wanted, value = .bool wanted
  | .near | .within => ∃ lat lon distance, value.get? "lat" = some (.number lat) ∧
      value.get? "lon" = some (.number lon) ∧ value.get? "distance" = some (.number distance) ∧
      distance.IsNonnegative
  | .eq | .ne | .gt | .gte | .lt | .lte => True

theorem Connective.symbol_injective {first second : Connective}
    (same : first.symbol = second.symbol) : first = second := by
  cases first with
  | and => cases second with
    | and => rfl
    | or => exact absurd same (by decide)
  | or => cases second with
    | and => exact absurd same (by decide)
    | or => rfl

namespace Predicate

/-- A condition on the value at a path: a value to compare it with, in which no member of an object
is called as an operator would be, or an object of operators. -/
inductive Condition : Json → Prop
  | value {value : Json} (other : value.members? = none) : Condition value
  | fields {members : Members} (plain : ∀ member ∈ members, isOperatorKey member.1 = false) :
      Condition (.object members)
  | operators {members : Members} (each : ∀ member ∈ members,
      ∃ op : Operator, op.symbol = member.1 ∧ op.Takes member.2) : Condition (.object members)

/-- An item of a group is an object that is not empty and does not have the same group as a
member. -/
def Item (connective : Connective) (item : Json) : Prop :=
  ∃ members : Members, item = .object members ∧ members ≠ [] ∧
    connective.symbol ∉ members.map Prod.fst

mutual

inductive Grammatical : Json → Prop
  | object {members : Members} (each : ∀ member ∈ members, GrammaticalMember member.1 member.2) :
      Grammatical (.object members)

inductive GrammaticalMember : String → Json → Prop
  | group {connective : Connective} {items : List Json} (several : 2 ≤ items.length)
      (each : ∀ item ∈ items, Item connective item)
      (inside : ∀ item ∈ items, Grammatical item) :
      GrammaticalMember connective.symbol (.array items)
  | condition {path : String} {value : Json} (plain : isOperatorKey path = false)
      (asked : Condition value) : GrammaticalMember path value

end

theorem grammatical_object {members : Members} :
    Grammatical (.object members) ↔ ∀ member ∈ members, GrammaticalMember member.1 member.2 :=
  ⟨fun | .object each => each, .object⟩

theorem condition_object {members : Members} :
    Condition (.object members) ↔ (∀ member ∈ members, isOperatorKey member.1 = false) ∨
      ∀ member ∈ members, ∃ op : Operator, op.symbol = member.1 ∧ op.Takes member.2 := by
  constructor
  · rintro (other | plain | each)
    · cases other
    · exact .inl plain
    · exact .inr each
  · rintro (plain | each)
    · exact .fields plain
    · exact .operators each

/-- A member called as a group is the group. -/
theorem grammaticalMember_group {connective : Connective} {value : Json} :
    GrammaticalMember connective.symbol value ↔ ∃ items, value = .array items ∧
      2 ≤ items.length ∧ (∀ item ∈ items, Item connective item) ∧
      ∀ item ∈ items, Grammatical item := by
  constructor
  · intro member
    generalize named : connective.symbol = key at member
    cases member with
    | @group connective' items several each inside =>
        obtain rfl := Connective.symbol_injective named
        exact ⟨items, rfl, several, each, inside⟩
    | condition plain asked =>
        subst named
        cases connective with
        | and => exact absurd plain (by decide)
        | or => exact absurd plain (by decide)
  · rintro ⟨items, rfl, several, each, inside⟩
    exact .group several each inside

/-- Any other member is a condition on a path. -/
theorem grammaticalMember_path {key : String} {value : Json} (other : key ≠ Connective.and.symbol)
    (other' : key ≠ Connective.or.symbol) :
    GrammaticalMember key value ↔ isOperatorKey key = false ∧ Condition value := by
  constructor
  · intro member
    cases member with
    | @group connective items several each inside =>
        cases connective with
        | and => exact absurd rfl other
        | or => exact absurd rfl other'
    | condition plain asked => exact ⟨plain, asked⟩
  · rintro ⟨plain, asked⟩
    exact .condition plain asked

end Predicate
end Docstore
