import Docstore.Number

set_option autoImplicit false

namespace Docstore

inductive Json
  | null
  | bool (value : Bool)
  | number (value : Number)
  | string (value : String)
  | array (items : List Json)
  | object (members : List (String × Json))

abbrev Members := List (String × Json)

namespace Members

def get? (key : String) : Members → Option Json
  | [] => none
  | (k, v) :: rest => if k = key then some v else get? key rest

def contains (key : String) (members : Members) : Bool :=
  (members.get? key).isSome

/-- Replaces the value of the key, or adds the key at its place. -/
def put (key : String) (value : Json) : Members → Members
  | [] => [(key, value)]
  | (k, v) :: rest =>
    if k < key then (k, v) :: put key value rest
    else if k = key then (key, value) :: rest
    else (key, value) :: (k, v) :: rest

def erase (key : String) : Members → Members
  | [] => []
  | (k, v) :: rest => if k = key then rest else (k, v) :: erase key rest

/-- Of members with one key the last wins. -/
def ofList (entries : List (String × Json)) : Members :=
  entries.foldl (fun members entry => members.put entry.1 entry.2) []

/-- Only the given key has a new value. -/
theorem get?_put (key other : String) (value : Json) (members : Members) :
    (members.put key value).get? other =
      if key = other then some value else members.get? other := by
  induction members with
  | nil => rfl
  | cons member rest ih => grind [get?, put]

theorem mem_keys_put {key other : String} {value : Json} {members : Members} :
    other ∈ (members.put key value).map Prod.fst ↔
      other = key ∨ other ∈ members.map Prod.fst := by
  induction members with
  | nil => grind [put]
  | cons member rest ih => grind [put]

/-- The keys stay in strictly ascending order. -/
theorem pairwise_put {key : String} {value : Json} {members : Members}
    (h : (members.map Prod.fst).Pairwise (· < ·)) :
    ((members.put key value).map Prod.fst).Pairwise (· < ·) := by
  induction members with
  | nil => exact List.pairwise_singleton _ _
  | cons member rest ih =>
    obtain ⟨k, v⟩ := member
    have ⟨hfirst, hrest⟩ := List.pairwise_cons.1 h
    by_cases hlt : k < key
    · rw [put, if_pos hlt]
      refine List.pairwise_cons.2 ⟨fun other hmem => ?_, ih hrest⟩
      rcases mem_keys_put.1 hmem with rfl | hmem
      · exact hlt
      · exact hfirst other hmem
    · rw [put, if_neg hlt]
      by_cases heq : k = key
      · subst heq
        rw [if_pos rfl]
        exact List.pairwise_cons.2 ⟨hfirst, hrest⟩
      · rw [if_neg heq]
        have hgt : key < k := by grind
        refine List.pairwise_cons.2 ⟨fun other hmem => ?_, h⟩
        rcases List.mem_cons.1 hmem with rfl | hmem
        · exact hgt
        · exact String.lt_trans hgt (hfirst other hmem)

theorem erase_sublist (key : String) (members : Members) :
    (members.erase key).Sublist members := by
  induction members with
  | nil => exact .slnil
  | cons member rest ih =>
    obtain ⟨k, v⟩ := member
    rw [erase]
    split
    · exact List.sublist_cons_self ..
    · exact ih.cons_cons _

theorem pairwise_erase {key : String} {members : Members}
    (h : (members.map Prod.fst).Pairwise (· < ·)) :
    ((members.erase key).map Prod.fst).Pairwise (· < ·) :=
  h.sublist ((erase_sublist key members).map Prod.fst)

theorem get?_eq_none {key : String} {members : Members} (h : key ∉ members.map Prod.fst) :
    members.get? key = none := by
  induction members with
  | nil => rfl
  | cons member rest ih => grind [get?]

/-- Only the given key loses its value. -/
theorem get?_erase {key other : String} {members : Members}
    (h : (members.map Prod.fst).Pairwise (· < ·)) :
    (members.erase key).get? other = if key = other then none else members.get? other := by
  induction members with
  | nil => grind [get?, erase]
  | cons member rest ih =>
    obtain ⟨k, v⟩ := member
    have ⟨hfirst, hrest⟩ := List.pairwise_cons.1 h
    have habsent : k ∉ rest.map Prod.fst := fun hmem => String.lt_irrefl k (hfirst k hmem)
    grind [get?, erase, get?_eq_none]

end Members

namespace Json

mutual

/-- Every object inside the value has strictly ascending keys. -/
def Ordered : Json → Prop
  | .array items => OrderedItems items
  | .object members => (members.map Prod.fst).Pairwise (· < ·) ∧ OrderedMembers members
  | _ => True

def OrderedItems : List Json → Prop
  | [] => True
  | item :: rest => Ordered item ∧ OrderedItems rest

def OrderedMembers : List (String × Json) → Prop
  | [] => True
  | (_, value) :: rest => Ordered value ∧ OrderedMembers rest

end

def ofInt (value : Int) : Json :=
  match Number.ofInt? value with
  | some n => .number n
  | none => .null

def members? : Json → Option Members
  | .object members => some members
  | _ => none

def items? : Json → Option (List Json)
  | .array items => some items
  | _ => none

def number? : Json → Option Number
  | .number n => some n
  | _ => none

def text? : Json → Option String
  | .string s => some s
  | _ => none

def bool? : Json → Option Bool
  | .bool b => some b
  | _ => none

/-- The value as a non-negative integer, for integer literals only. -/
def unsigned? (value : Json) : Option Nat :=
  value.number?.bind Number.unsigned?

/-- The value of a member, for objects only. -/
def get? (value : Json) (key : String) : Option Json :=
  value.members?.bind (Members.get? key)

end Json
end Docstore
