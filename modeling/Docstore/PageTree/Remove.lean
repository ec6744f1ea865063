import Docstore.PageTree.Insert

set_option autoImplicit false

namespace Docstore
namespace PageTree

variable {K V : Type}

/-- The least key below a page at a level. -/
def leastKey (pool : Pool K V) (level : Nat) (id : PageId) : Except PageFault (Option K) := do
  let leaf ← pool.leaf (← firstLeaf pool level id)
  return leaf.entries.head?.map Prod.fst

/-- Derives the separator left of a child, whose level is given, from the leaves below it. -/
def refreshSeparator (level : Nat) (parent : PageId) (pool : Pool K V) (slot : Nat) :
    Except PageFault (Pool K V) := do
  if slot = 0 then return pool
  else
    let branch ← pool.branch parent
    match branch.children[slot]? with
    | none => .error (.noChild parent slot)
    | some child =>
      match ← leastKey pool level child with
      | none => return pool
      | some least =>
        return pool.write parent
          (.branch { branch with separators := branch.separators.set (slot - 1) least })

/-- Two neighbouring branches and the separator between them as one. -/
def Branch.join (left : Branch K) (separator : K) (right : Branch K) : Branch K :=
  ⟨left.children ++ right.children, left.separators ++ separator :: right.separators⟩

/-- Shares out what two neighbouring children hold, so that the left one keeps `count`. Between
leaves the separator is left as it is. -/
def share (pool : Pool K V) (parent : PageId) (leftSlot count : Nat) :
    Except PageFault (Pool K V) := do
  let branch ← pool.branch parent
  match branch.children[leftSlot]?, branch.children[leftSlot + 1]?,
      branch.separators[leftSlot]? with
  | some leftId, some rightId, some separator =>
    match ← pool.page leftId, ← pool.page rightId with
    | .leaf left, .leaf right =>
      let entries := left.entries ++ right.entries
      let pool := pool.write leftId (.leaf { left with entries := entries.take count })
      return pool.write rightId (.leaf { right with entries := entries.drop count })
    | .branch left, .branch right =>
      match (left.join separator right).cut count with
      | none => .error (.noSeparator leftId)
      | some (left, separator, right) =>
        let pool := pool.write leftId (.branch left)
        let pool := pool.write rightId (.branch right)
        return pool.write parent
          (.branch { branch with separators := branch.separators.set leftSlot separator })
    | .leaf _, .branch _ => .error (.notLeaf rightId)
    | .branch _, .leaf _ => .error (.notBranch rightId)
  | _, _, _ => .error (.noChild parent leftSlot)

/-- Joins two neighbouring children into the left one and releases the right one. -/
def merge (pool : Pool K V) (parent : PageId) (leftSlot : Nat) : Except PageFault (Pool K V) := do
  let branch ← pool.branch parent
  match branch.children[leftSlot]?, branch.children[leftSlot + 1]?,
      branch.separators[leftSlot]? with
  | some leftId, some rightId, some separator =>
    let pool := pool.write parent
      (.branch ⟨branch.children.eraseIdx (leftSlot + 1), branch.separators.eraseIdx leftSlot⟩)
    let (released, pool) ← pool.release rightId
    match released with
    | .leaf right =>
      let left ← pool.leaf leftId
      let pool := pool.write leftId
        (.leaf { left with entries := left.entries ++ right.entries, right := right.right })
      pool.linkLeft right.right leftId
    | .branch right =>
      let left ← pool.branch leftId
      return pool.write leftId (.branch (left.join separator right))
  | _, _, _ => .error (.noSibling parent)

/-- The size of a page, and what it can spare above its least size. -/
def surplus (threshold : Nat) (pool : Pool K V) (id : PageId) : Except PageFault (Nat × Nat) := do
  let page ← pool.page id
  return (page.size, page.size - page.minSize threshold)

/-- Where a page that is too small gets its due: from a sibling that can spare some, given the
sizes and surpluses of both, or by a merge. -/
inductive Remedy
  | fromLeft (moves : Nat)
  | fromRight (moves : Nat)
  | mergeLeft
  | mergeRight
  | nothing

/-- Enough to make both pages about even, and at least one. -/
def fairMoves (size siblingSize : Nat) : Nat :=
  max ((size + siblingSize) / 2 - size) 1

/-- The sibling with the larger surplus gives, the left one on a tie. -/
def remedy (size : Nat) (left right : Option (Nat × Nat)) : Remedy :=
  let leftSpare := (left.map Prod.snd).getD 0
  let rightSpare := (right.map Prod.snd).getD 0
  match left, right with
  | some l, some r =>
    if 0 < leftSpare ∧ rightSpare ≤ leftSpare then .fromLeft (fairMoves size l.1)
    else if 0 < rightSpare then .fromRight (fairMoves size r.1)
    else .mergeLeft
  | some l, none => if 0 < leftSpare then .fromLeft (fairMoves size l.1) else .mergeLeft
  | none, some r => if 0 < rightSpare then .fromRight (fairMoves size r.1) else .mergeRight
  | none, none => .nothing

/-- The size and surplus of the child at a slot, if there is one. -/
def surplusAt (threshold : Nat) (pool : Pool K V) (children : List PageId) (slot : Nat) :
    Except PageFault (Option (Nat × Nat)) :=
  match children[slot]? with
  | none => .ok none
  | some id => do return some (← surplus threshold pool id)

/-- Brings the child at a slot back to its least size. -/
def rebalance (threshold : Nat) (pool : Pool K V) (parent : PageId) (slot : Nat) :
    Except PageFault (Pool K V) := do
  let branch ← pool.branch parent
  match branch.children[slot]? with
  | none => .error (.noChild parent slot)
  | some child =>
    let size := (← pool.page child).size
    let left ← if slot = 0 then .ok none else surplusAt threshold pool branch.children (slot - 1)
    let right ← surplusAt threshold pool branch.children (slot + 1)
    match remedy size left right with
    | .fromLeft moves => share pool parent (slot - 1) ((left.map Prod.fst).getD 0 - moves)
    | .fromRight moves => share pool parent slot (size + moves)
    | .mergeLeft => merge pool parent (slot - 1)
    | .mergeRight => merge pool parent slot
    | .nothing => .error (.noSibling child)

/-- Whether a page is below its least size. -/
def underflows (threshold : Nat) (pool : Pool K V) (id : PageId) : Except PageFault Bool := do
  let page ← pool.page id
  return decide (page.size < page.minSize threshold)

variable [Ord K]

/-- Removes below a page at a level; says whether the key was there. -/
def removeAt (threshold : Nat) (key : K) :
    Nat → Pool K V → PageId → Except PageFault (Bool × Pool K V)
  | 0, pool, id => do
    let leaf ← pool.leaf id
    let (entries, wasThere) := eraseEntry key leaf.entries
    return (wasThere, if wasThere then pool.write id (.leaf { leaf with entries }) else pool)
  | level + 1, pool, id => do
    let branch ← pool.branch id
    let slot := ownerSlot key branch.separators
    match branch.children[slot]? with
    | none => .error (.noChild id slot)
    | some child =>
      let (wasThere, pool) ← removeAt threshold key level pool child
      if !wasThere then return (false, pool)
      else
        let pool ← refreshSeparator level id pool slot
        if ← underflows threshold pool child then
          let pool ← rebalance threshold pool id slot
          let last := (← pool.branch id).children.length - 1
          let slots := List.range' (slot - 1) (min (slot + 1) last + 1 - (slot - 1))
          let pool ← slots.foldlM (refreshSeparator level id) pool
          return (true, pool)
        else return (true, pool)

omit [Ord K] in
/-- Replaces a root with one child by that child, as often as there is one. -/
def collapse : Nat → Pool K V → PageId → Except PageFault (Nat × Pool K V × PageId)
  | 0, pool, root => .ok (0, pool, root)
  | level + 1, pool, root => do
    let branch ← pool.branch root
    match branch.children with
    | [only] =>
      let (_, pool) ← pool.release root
      collapse level pool only
    | _ => return (level + 1, pool, root)

variable [DecidableEq K]

/-- Removes a key; says whether it was there. -/
def remove (tree : PageTree K V) (key : K) : Except PageFault (Bool × PageTree K V) := do
  let recent := tree.recent.drop key
  let (wasThere, pool) ← removeAt tree.threshold key tree.levels tree.pool tree.root
  if wasThere then
    let (levels, pool, root) ← collapse tree.levels pool tree.root
    return (true, { tree with pool, root, levels, size := tree.size - 1, recent })
  else return (false, { tree with pool, recent })

end PageTree
end Docstore
