import Docstore.PageTree.Scan

set_option autoImplicit false

namespace Docstore
namespace PageTree

variable {K V : Type}

/-- Levels of pages along the leftmost path. -/
def heightFrom (pool : Pool K V) : Nat → PageId → Except PageFault Nat
  | 0, id => .error (.unevenDepth id)
  | depth + 1, id => do
    match ← pool.page id with
    | .leaf _ => return 1
    | .branch branch =>
      match branch.children.head? with
      | some child => return (← heightFrom pool depth child) + 1
      | none => .error (.noChild id 0)

def height (tree : PageTree K V) : Except PageFault Nat :=
  heightFrom tree.pool (tree.levels + 1) tree.root

/-- The depths of the leaves below a page, from left to right. -/
def leafDepthsFrom (pool : Pool K V) : Nat → Nat → PageId → Except PageFault (List Nat)
  | 0, _, id => .error (.unevenDepth id)
  | bound + 1, depth, id => do
    match ← pool.page id with
    | .leaf _ => return [depth]
    | .branch branch =>
      let depths ← branch.children.mapM (leafDepthsFrom pool bound (depth + 1))
      return depths.flatten

def leafDepths (tree : PageTree K V) : Except PageFault (List Nat) :=
  leafDepthsFrom tree.pool (tree.levels + 1) 1 tree.root

/-- What a check of a subtree finds. -/
structure Survey (K : Type) where
  depth : Nat
  least : Option K
  greatest : Option K
  count : Nat
  leaves : List PageId

variable [Ord K]

/-- Whether the keys ascend strictly. -/
def ascending : List (K × V) → Bool
  | a :: b :: rest => (compare a.1 b.1).isLT && ascending (b :: rest)
  | _ => true

/-- The surveys of the children of a branch, checked against the separators between them. -/
def combine (id : PageId) (slot : Nat) (sofar : Survey K) :
    List (Survey K) → List K → Except PageFault (Survey K)
  | [], _ => .ok sofar
  | _ :: _, [] => .error (.separatorCount id)
  | survey :: rest, separator :: separators =>
    if survey.depth ≠ sofar.depth then .error (.unevenDepth id)
    else if !(survey.least.any fun least => (compare least separator).isEq) then
      .error (.separatorNotMinimum id slot)
    else if sofar.greatest.any fun greatest => (compare greatest separator).isGE then
      .error (.childOverlaps id slot)
    else
      combine id (slot + 1)
        ⟨sofar.depth, sofar.least, survey.greatest.or sofar.greatest, sofar.count + survey.count,
          sofar.leaves ++ survey.leaves⟩ rest separators

/-- Checks the sizes, the order of the entries, the depths and the separators below a page. -/
def surveyFrom (tree : PageTree K V) : Nat → Bool → PageId → Except PageFault (Survey K)
  | 0, _, id => .error (.unevenDepth id)
  | bound + 1, isRoot, id => do
    let page ← tree.pool.page id
    if tree.order < page.size ∨ (isRoot = false ∧ page.size < page.minSize tree.threshold) then
      .error (.sizeOutOfBounds id page.size)
    else match page with
      | .leaf leaf =>
        if !ascending leaf.entries then .error (.entriesOutOfOrder id)
        else
          return ⟨1, leaf.entries.head?.map Prod.fst, leaf.entries.getLast?.map Prod.fst,
            leaf.entries.length, [id]⟩
      | .branch branch =>
        if branch.separators.length + 1 ≠ branch.children.length then .error (.separatorCount id)
        else
          match ← branch.children.mapM (surveyFrom tree bound false) with
          | [] => .error (.separatorCount id)
          | first :: rest =>
            let whole ← combine id 0 first rest branch.separators
            return { whole with depth := whole.depth + 1 }

omit [Ord K] in
/-- Checks that the links of consecutive leaves agree with their order. -/
def checkLinks (pool : Pool K V) (before : Option PageId) : List PageId → Except PageFault Unit
  | [] => .ok ()
  | id :: rest => do
    let leaf ← pool.leaf id
    if leaf.left ≠ before ∨ leaf.right ≠ rest.head? then .error (.wrongLinks id)
    else checkLinks pool (some id) rest

/-- Checks everything that makes the pages a search tree. -/
def audit (tree : PageTree K V) : Except PageFault Unit := do
  let survey ← surveyFrom tree (tree.levels + 1) true tree.root
  if survey.count ≠ tree.size then .error (.wrongCount tree.size survey.count)
  else checkLinks tree.pool none survey.leaves

end PageTree
end Docstore
