import Docstore.PageTree

set_option autoImplicit false

namespace Docstore
namespace PageTree

variable {K V : Type}

/-- The new right half of a split page, and the separator before it. -/
structure Split (K : Type) where
  separator : K
  right : PageId

/-- Moves the upper half of a leaf to a new page behind it in the chain. -/
def splitLeaf (pool : Pool K V) (id : PageId) (leaf : Leaf K V) :
    Except PageFault (Split K × Pool K V) := do
  let middle := leaf.entries.length / 2
  match leaf.entries.drop middle with
  | [] => .error (.noSeparator id)
  | (separator, value) :: rest =>
    let (right, pool) := pool.allocate (.leaf ⟨(separator, value) :: rest, some id, leaf.right⟩)
    let pool := pool.write id
      (.leaf { leaf with entries := leaf.entries.take middle, right := some right })
    let pool ← pool.linkLeft leaf.right right
    return (⟨separator, right⟩, pool)

/-- Cuts a branch before a child. The separator between the parts belongs to neither. -/
def Branch.cut (branch : Branch K) (slot : Nat) : Option (Branch K × K × Branch K) :=
  match branch.separators[slot - 1]? with
  | some separator =>
    some (⟨branch.children.take slot, branch.separators.take (slot - 1)⟩, separator,
      ⟨branch.children.drop slot, branch.separators.drop slot⟩)
  | none => none

/-- Moves the upper half of a branch to a new page. -/
def splitBranch (pool : Pool K V) (id : PageId) (branch : Branch K) :
    Except PageFault (Split K × Pool K V) :=
  match branch.cut (branch.children.length / 2) with
  | none => .error (.noSeparator id)
  | some (left, separator, right) =>
    let (rightId, pool) := pool.allocate (.branch right)
    .ok (⟨separator, rightId⟩, pool.write id (.branch left))

/-- A branch with a new child right of a slot. -/
def Branch.addChild (branch : Branch K) (slot : Nat) (split : Split K) : Branch K :=
  ⟨branch.children.insertIdx (slot + 1) split.right,
    branch.separators.insertIdx slot split.separator⟩

variable [Ord K]

/-- What an insertion below a page did: whether the key was new, and the split of the page if it
had to be split. -/
structure Inserted (K V : Type) where
  isNew : Bool
  split : Option (Split K)
  pool : Pool K V

/-- Inserts below a page at a level. -/
def insertAt (order : Nat) (key : K) (value : V) :
    Nat → Pool K V → PageId → Except PageFault (Inserted K V)
  | 0, pool, id => do
    let leaf ← pool.leaf id
    let (entries, isNew) := putEntry key value leaf.entries
    if entries.length ≤ order then
      return ⟨isNew, none, pool.write id (.leaf { leaf with entries })⟩
    else
      let (split, pool) ← splitLeaf pool id { leaf with entries }
      return ⟨isNew, some split, pool⟩
  | level + 1, pool, id => do
    let branch ← pool.branch id
    let slot := ownerSlot key branch.separators
    match branch.children[slot]? with
    | none => .error (.noChild id slot)
    | some child =>
      let below ← insertAt order key value level pool child
      match below.split with
      | none => return below
      | some split =>
        let branch := branch.addChild slot split
        if branch.children.length ≤ order then
          return ⟨below.isNew, none, below.pool.write id (.branch branch)⟩
        else
          let (split, pool) ← splitBranch below.pool id branch
          return ⟨below.isNew, some split, pool⟩

variable [DecidableEq K]

/-- Gives a key a value; says whether the key is new. -/
def insert (tree : PageTree K V) (key : K) (value : V) :
    Except PageFault (Bool × PageTree K V) := do
  let done ← insertAt tree.order key value tree.levels tree.pool tree.root
  let size := if done.isNew then tree.size + 1 else tree.size
  let recent := tree.recent.drop key
  match done.split with
  | none => return (done.isNew, { tree with pool := done.pool, size, recent })
  | some split =>
    let (root, pool) := done.pool.allocate (.branch ⟨[tree.root, split.right], [split.separator]⟩)
    return (done.isNew, { tree with pool, root, levels := tree.levels + 1, size, recent })

end PageTree
end Docstore
