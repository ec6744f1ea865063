import Docstore.PageTree

set_option autoImplicit false

namespace Docstore
namespace PageTree

variable {K V : Type}

/-- The leaves from a page on, by their links to the right. -/
def chain (pool : Pool K V) : Nat → Option PageId → Except PageFault (List (Leaf K V))
  | _, none => .ok []
  | 0, some _ => .error .endlessChain
  | count + 1, some id => do
    let leaf ← pool.leaf id
    let rest ← chain pool count leaf.right
    return leaf :: rest

/-- The entries from a leaf on. A chain is no longer than the pool. -/
def entriesFrom (pool : Pool K V) (id : PageId) : Except PageFault (List (K × V)) := do
  let leaves ← chain pool pool.slots.length (some id)
  return leaves.flatMap Leaf.entries

/-- Every entry, in ascending order of the keys. -/
def toEntries (tree : PageTree K V) : Except PageFault (List (K × V)) := do
  entriesFrom tree.pool (← firstLeaf tree.pool tree.levels tree.root)

def first (tree : PageTree K V) : Except PageFault (Option (K × V)) := do
  let leaf ← tree.pool.leaf (← firstLeaf tree.pool tree.levels tree.root)
  return leaf.entries.head?

def last (tree : PageTree K V) : Except PageFault (Option (K × V)) := do
  let leaf ← tree.pool.leaf (← lastLeaf tree.pool tree.levels tree.root)
  return leaf.entries.getLast?

variable [Ord K]

/-- The entries in a range, from entries in ascending order: those before it are skipped, and the
first one behind it ends the reading. -/
def within (range : KeyRange K) (entries : List (K × V)) : List (K × V) :=
  (entries.takeWhile fun e => range.isBelow e.1 || !range.isAbove e.1).filter
    fun e => !range.isBelow e.1

/-- The entries whose keys lie in a range, in ascending order of the keys. -/
def rangeEntries (tree : PageTree K V) (range : KeyRange K) :
    Except PageFault (List (K × V)) := do
  let start ← match range.min with
    | some min => ownerLeaf tree.pool min tree.levels tree.root
    | none => firstLeaf tree.pool tree.levels tree.root
  return within range (← entriesFrom tree.pool start)

def rangeValues (tree : PageTree K V) (range : KeyRange K) : Except PageFault (List V) := do
  return (← tree.rangeEntries range).map Prod.snd

end PageTree
end Docstore
