import Docstore.Query.Parse

set_option autoImplicit false

namespace Docstore
namespace Predicate

/-- The operand that an operator takes a value for. -/
def operand? (op : Operator) (value : Json) : Option Operand :=
  match op.shape with
  | .list => value.items?.map .items
  | .area => (areaOf? value).map .area
  | .single | .bound => some (.literal value)

/-- Whether the value at a path satisfies one operator. -/
def operatorHolds (found : Option Json) (symbol : String) (value : Json) : Bool :=
  match Operator.ofSymbol? symbol with
  | some op => (operand? op value).any fun operand => Clause.evaluate op found operand
  | none => false

/-- Whether the value at a path satisfies a condition: each operator of an object of operators, or
else equality. -/
def conditionHolds (found : Option Json) (condition : Json) : Bool :=
  let equality := Clause.evaluate .eq found (.literal condition)
  match condition with
  | .object members =>
    if members.any fun member => isOperatorKey member.1 then
      members.all fun member => operatorHolds found member.1 member.2
    else equality
  | _ => equality

mutual

/-- Whether a document satisfies a predicate. -/
def satisfies (doc : Json) : Json → Bool
  | .object members => satisfiesMembers doc members
  | _ => false

def satisfiesMembers (doc : Json) : List (String × Json) → Bool
  | [] => true
  | (key, value) :: rest => satisfiesMember doc key value && satisfiesMembers doc rest

def satisfiesMember (doc : Json) (key : String) (value : Json) : Bool :=
  if key = Connective.and.symbol then
    match value with
    | .array items => satisfiesAll doc items
    | _ => false
  else if key = Connective.or.symbol then
    match value with
    | .array items => satisfiesAny doc items
    | _ => false
  else conditionHolds (doc.lookup key) value

def satisfiesAll (doc : Json) : List Json → Bool
  | [] => true
  | item :: rest => satisfies doc item && satisfiesAll doc rest

def satisfiesAny (doc : Json) : List Json → Bool
  | [] => false
  | item :: rest => satisfies doc item || satisfiesAny doc rest

end

theorem satisfiesMember_and (doc : Json) (items : List Json) :
    satisfiesMember doc Connective.and.symbol (.array items) = satisfiesAll doc items := by
  rw [satisfiesMember, if_pos rfl]

theorem satisfiesMember_or (doc : Json) (items : List Json) :
    satisfiesMember doc Connective.or.symbol (.array items) = satisfiesAny doc items := by
  rw [satisfiesMember, if_neg (by decide), if_pos rfl]

/-- Any other member states a condition on the value at its path. -/
theorem satisfiesMember_path {key : String} (other : key ≠ Connective.and.symbol)
    (other' : key ≠ Connective.or.symbol) (doc value : Json) :
    satisfiesMember doc key value = conditionHolds (doc.lookup key) value := by
  cases value <;> simp only [satisfiesMember, if_neg other, if_neg other']

end Predicate
end Docstore
