import Docstore.PageTree.Entries
import Docstore.PageTree.Page
import Docstore.Recent

set_option autoImplicit false

namespace Docstore

structure PageTree (K V : Type) where
  pool : PageTree.Pool K V
  root : PageTree.PageId
  /-- Levels of branches above the leaves. -/
  levels : Nat
  size : Nat
  /-- The most entries of a leaf, and the most children of a branch. -/
  order : Nat
  /-- The fewest entries of a leaf other than the root. -/
  threshold : Nat
  recent : Recent K V

namespace PageTree

variable {K V : Type}

/-- A tree without entries: one empty leaf. -/
def empty (order threshold : Nat) (recent : Recent K V) : PageTree K V :=
  let first := (Pool.empty : Pool K V).allocate Page.emptyLeaf
  ⟨first.2, first.1, 0, 0, order, threshold, recent⟩

/-- Refuses an order below three, a threshold outside one to half the order, and more recent
answers than there is room for. -/
def create (order threshold capacity : Nat) : Except Error (PageTree K V) :=
  if order < 3 then .error (.invalidConfig (.treeOrderTooSmall order))
  else if threshold = 0 ∨ order / 2 < threshold then
    .error (.invalidConfig (.treeThresholdOutOfRange order threshold))
  else match Recent.create? capacity with
    | some recent => .ok (empty order threshold recent)
    | none => .error (.noRoom capacity)

def clear (tree : PageTree K V) : PageTree K V :=
  empty tree.order tree.threshold tree.recent.clear

def isEmpty (tree : PageTree K V) : Bool :=
  tree.size == 0

variable [Ord K]

/-- The leaf that owns a key, below a page at a level. -/
def ownerLeaf (pool : Pool K V) (key : K) : Nat → PageId → Except PageFault PageId
  | 0, id => .ok id
  | level + 1, id => do
    let branch ← pool.branch id
    let slot := ownerSlot key branch.separators
    match branch.children[slot]? with
    | some child => ownerLeaf pool key level child
    | none => .error (.noChild id slot)

omit [Ord K] in
/-- The leftmost leaf below a page at a level. -/
def firstLeaf (pool : Pool K V) : Nat → PageId → Except PageFault PageId
  | 0, id => .ok id
  | level + 1, id => do
    let branch ← pool.branch id
    match branch.children.head? with
    | some child => firstLeaf pool level child
    | none => .error (.noChild id 0)

omit [Ord K] in
/-- The rightmost leaf below a page at a level. -/
def lastLeaf (pool : Pool K V) : Nat → PageId → Except PageFault PageId
  | 0, id => .ok id
  | level + 1, id => do
    let branch ← pool.branch id
    match branch.children.getLast? with
    | some child => lastLeaf pool level child
    | none => .error (.noChild id 0)

variable [DecidableEq K]

/-- The value of a key, from the recent answers or from its leaf. -/
def search (tree : PageTree K V) (key : K) : Except PageFault (Option V × PageTree K V) :=
  match tree.recent.touch key with
  | (some value, recent) => .ok (some value, { tree with recent })
  | (none, _) => do
    let id ← ownerLeaf tree.pool key tree.levels tree.root
    let leaf ← tree.pool.leaf id
    match findEntry key leaf.entries with
    | some value => return (some value, { tree with recent := tree.recent.put key value })
    | none => return (none, tree)

def contains (tree : PageTree K V) (key : K) : Except PageFault (Bool × PageTree K V) := do
  let found ← tree.search key
  return (found.1.isSome, found.2)

end PageTree
end Docstore
