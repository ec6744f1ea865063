import Docstore.Error

set_option autoImplicit false

namespace Docstore

inductive SortOrder
  | ascending
  | descending
deriving DecidableEq

structure SortSpec where
  path : String
  order : SortOrder
deriving DecidableEq

structure Conditions where
  sort : Option SortSpec
  limit : Option Nat
deriving DecidableEq

namespace SortOrder

/-- The sign that stands for an order. -/
def sign : SortOrder → Int
  | .ascending => 1
  | .descending => -1

def ofSign (sign : Int) : SortOrder :=
  if sign < 0 then .descending else .ascending

/-- An ordering as seen in a direction. -/
def direct : SortOrder → Ordering → Ordering
  | .ascending, ordering => ordering
  | .descending, ordering => ordering.swap

end SortOrder

namespace Conditions

def none : Conditions := ⟨.none, .none⟩

def sortSign? (value : Json) : Option Int :=
  (value.number?.bind Number.signed?).filter fun sign => sign == 1 || sign == -1

/-- Takes in one member of a conditions object. -/
def addMember (conditions : Conditions) (name : String) (value : Json) :
    Except QueryFault Conditions :=
  if name = "sort" then
    match value with
    | .object [(path, direction)] =>
      match sortSign? direction with
      | some sign => .ok { conditions with sort := some ⟨path, SortOrder.ofSign sign⟩ }
      | .none => .error (.sortDirection path)
    | _ => .error (.malformedCondition name)
  else if name = "limit" then
    match value with
    | .number n =>
      match n.unsigned? with
      | some limit => .ok { conditions with limit := some limit }
      | .none => .error .limitNotCount
    | _ => .error (.malformedCondition name)
  else .error (.unknownCondition name)

/-- Reads an object with the members `sort`, a path with a direction, and `limit`, a count. -/
def ofJson (value : Json) : Except Error Conditions :=
  let read : Except QueryFault Conditions := match value with
    | .object members =>
      members.foldlM (fun conditions member => addMember conditions member.1 member.2)
        Conditions.none
    | _ => .error .conditionsNotObject
  match read with
  | .ok conditions => .ok conditions
  | .error fault => .error (.query fault value)

end Conditions
end Docstore
