set_option autoImplicit false

namespace Docstore
namespace PageTree

variable {K V : Type} [Ord K]

/-- Replaces the value of a present key, or puts a new entry at its place; says whether the key is
new. -/
def putEntry (key : K) (value : V) : List (K × V) → List (K × V) × Bool
  | [] => ([(key, value)], true)
  | (k, v) :: rest =>
    match compare key k with
    | .lt => ((key, value) :: (k, v) :: rest, true)
    | .eq => ((k, value) :: rest, false)
    | .gt =>
      let put := putEntry key value rest
      ((k, v) :: put.1, put.2)

def findEntry (key : K) : List (K × V) → Option V
  | [] => none
  | (k, v) :: rest =>
    match compare key k with
    | .lt => none
    | .eq => some v
    | .gt => findEntry key rest

/-- Drops the entry of a key; says whether there was one. -/
def eraseEntry (key : K) : List (K × V) → List (K × V) × Bool
  | [] => ([], false)
  | (k, v) :: rest =>
    match compare key k with
    | .lt => ((k, v) :: rest, false)
    | .eq => (rest, true)
    | .gt =>
      let erased := eraseEntry key rest
      ((k, v) :: erased.1, erased.2)

/-- The slot of the child that owns a key: the number of separators not above it. -/
def ownerSlot (key : K) (separators : List K) : Nat :=
  (separators.takeWhile fun s => (compare s key).isLE).length

end PageTree

/-- Optional bounds on keys, each with or without the bound itself. -/
structure KeyRange (K : Type) where
  min : Option K
  max : Option K
  includeMin : Bool
  includeMax : Bool
deriving DecidableEq

namespace KeyRange

variable {K : Type} [Ord K]

/-- Whether a key lies before the range. -/
def isBelow (range : KeyRange K) (key : K) : Bool :=
  match range.min with
  | none => false
  | some min =>
    match compare key min with
    | .lt => true
    | .eq => !range.includeMin
    | .gt => false

/-- Whether a key lies behind the range. -/
def isAbove (range : KeyRange K) (key : K) : Bool :=
  match range.max with
  | none => false
  | some max =>
    match compare key max with
    | .gt => true
    | .eq => !range.includeMax
    | .lt => false

end KeyRange
end Docstore
