set_option autoImplicit false

namespace Docstore

structure Table (α β : Type) where
  entries : List (α × β)

namespace Table

variable {α β : Type} [DecidableEq α]

def empty : Table α β := ⟨[]⟩

def keys (table : Table α β) : List α :=
  table.entries.map Prod.fst

def values (table : Table α β) : List β :=
  table.entries.map Prod.snd

def size (table : Table α β) : Nat :=
  table.entries.length

def find (key : α) : List (α × β) → Option β
  | [] => none
  | (k, v) :: rest => if k = key then some v else find key rest

def get? (table : Table α β) (key : α) : Option β :=
  find key table.entries

def contains (table : Table α β) (key : α) : Bool :=
  (table.get? key).isSome

def replaceOrAdd (key : α) (value : β) : List (α × β) → List (α × β)
  | [] => [(key, value)]
  | (k, v) :: rest =>
    if k = key then (key, value) :: rest else (k, v) :: replaceOrAdd key value rest

/-- Replaces the value of a key in its place, or adds a new key at the end. -/
def put (table : Table α β) (key : α) (value : β) : Table α β :=
  ⟨replaceOrAdd key value table.entries⟩

def erase (table : Table α β) (key : α) : Table α β :=
  ⟨table.entries.filter fun entry => entry.1 ≠ key⟩

theorem find_replaceOrAdd (key other : α) (value : β) (entries : List (α × β)) :
    find other (replaceOrAdd key value entries) =
      if key = other then some value else find other entries := by
  induction entries with
  | nil => rfl
  | cons entry rest ih => grind [find, replaceOrAdd]

/-- Only the given key has a new value. -/
theorem get?_put (table : Table α β) (key other : α) (value : β) :
    (table.put key value).get? other = if key = other then some value else table.get? other :=
  find_replaceOrAdd key other value table.entries

theorem find_filter_ne (key other : α) (entries : List (α × β)) :
    find other (entries.filter fun entry => entry.1 ≠ key) =
      if key = other then none else find other entries := by
  induction entries with
  | nil => grind [find]
  | cons entry rest ih => grind [find]

/-- Only the given key loses its value. -/
theorem get?_erase (table : Table α β) (key other : α) :
    (table.erase key).get? other = if key = other then none else table.get? other :=
  find_filter_ne key other table.entries

theorem find_isSome_iff (key : α) (entries : List (α × β)) :
    (find key entries).isSome = true ↔ key ∈ entries.map Prod.fst := by
  induction entries with
  | nil => grind [find]
  | cons entry rest ih => grind [find]

theorem contains_iff (table : Table α β) (key : α) :
    table.contains key = true ↔ key ∈ table.keys :=
  find_isSome_iff key table.entries

theorem map_fst_replaceOrAdd (key : α) (value : β) (entries : List (α × β)) :
    (replaceOrAdd key value entries).map Prod.fst =
      if key ∈ entries.map Prod.fst then entries.map Prod.fst
      else entries.map Prod.fst ++ [key] := by
  induction entries with
  | nil => rfl
  | cons entry rest ih => grind [replaceOrAdd]

/-- A present key keeps its place, and a new one comes last. -/
theorem keys_put (table : Table α β) (key : α) (value : β) :
    (table.put key value).keys =
      if key ∈ table.keys then table.keys else table.keys ++ [key] :=
  map_fst_replaceOrAdd key value table.entries

theorem keys_erase (table : Table α β) (key : α) :
    (table.erase key).keys = table.keys.filter (· ≠ key) := by
  simp only [keys, erase, List.filter_map, Function.comp_def]

end Table
end Docstore
