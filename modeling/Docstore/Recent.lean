set_option autoImplicit false

namespace Docstore

/-- A map of bounded size that keeps the keys used last, the latest first. -/
structure Recent (α β : Type) where
  capacity : Nat
  entries : List (α × β)

namespace Recent

variable {α β : Type} [DecidableEq α]

def empty (capacity : Nat) : Recent α β := ⟨capacity, []⟩

/-- The most entries that there can be room for. The number of places is a power of two, `2 ^ 58`
at most, and one in eight of them stays free. -/
def maxCapacity : Nat := 7 * 0x80000000000000

/-- A map without entries, if there is room for so many. -/
def create? (capacity : Nat) : Option (Recent α β) :=
  if capacity ≤ maxCapacity then some (empty capacity) else none

def size (recent : Recent α β) : Nat :=
  recent.entries.length

def drop (recent : Recent α β) (key : α) : Recent α β :=
  { recent with entries := recent.entries.filter fun entry => entry.1 ≠ key }

/-- The value of the key comes first; what exceeds the capacity is forgotten. -/
def put (recent : Recent α β) (key : α) (value : β) : Recent α β :=
  { recent with entries := ((key, value) :: (recent.drop key).entries).take recent.capacity }

def find? (recent : Recent α β) (key : α) : Option β :=
  (recent.entries.find? fun entry => entry.1 = key).map Prod.snd

/-- The value of a key, which counts as a use of it. -/
def touch (recent : Recent α β) (key : α) : Option β × Recent α β :=
  match recent.find? key with
  | some value => (some value, recent.put key value)
  | none => (none, recent)

def clear (recent : Recent α β) : Recent α β :=
  { recent with entries := [] }

theorem find?_drop (recent : Recent α β) (key other : α) :
    (recent.drop key).find? other = if key = other then none else recent.find? other := by
  obtain ⟨capacity, entries⟩ := recent
  simp only [find?, drop]
  induction entries with
  | nil => grind
  | cons entry rest ih => grind

/-- Only the given key has a new value, and any other value was there before. -/
theorem find?_put {recent : Recent α β} {key other : α} {value found : β}
    (h : (recent.put key value).find? other = some found) :
    if key = other then found = value else recent.find? other = some found := by
  obtain ⟨entry, hfind, rfl⟩ := Option.map_eq_some_iff.1 h
  have hall := (List.take_prefix _ _).find?_eq_some hfind
  have hdrop := find?_drop recent key other
  simp only [find?, List.find?_cons] at hall hdrop ⊢
  grind

end Recent
end Docstore
