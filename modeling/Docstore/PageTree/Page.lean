import Docstore.Error

set_option autoImplicit false

namespace Docstore
namespace PageTree

abbrev PageId := Nat

/-- Sorted entries, and the neighbours in the chain of all leaves. -/
structure Leaf (K V : Type) where
  entries : List (K × V)
  left : Option PageId
  right : Option PageId

/-- Children with separators between them: each separator is the least key below the child on its
right. -/
structure Branch (K : Type) where
  children : List PageId
  separators : List K

inductive Page (K V : Type)
  | leaf (leaf : Leaf K V)
  | branch (branch : Branch K)

def Page.emptyLeaf {K V : Type} : Page K V :=
  .leaf ⟨[], none, none⟩

/-- The entries of a leaf, or the children of a branch. -/
def Page.size {K V : Type} : Page K V → Nat
  | .leaf l => l.entries.length
  | .branch b => b.children.length

/-- The least size of a page other than the root. A branch keeps two children at least. -/
def Page.minSize {K V : Type} (threshold : Nat) : Page K V → Nat
  | .leaf _ => threshold
  | .branch _ => max threshold 2

structure Pool (K V : Type) where
  slots : List (Option (Page K V))
  free : List PageId

namespace Pool

variable {K V : Type}

def empty : Pool K V := ⟨[], []⟩

/-- The number of pages. -/
def live (pool : Pool K V) : Nat :=
  pool.slots.length - pool.free.length

def page? (pool : Pool K V) (id : PageId) : Option (Page K V) :=
  (pool.slots[id]?).join

def page (pool : Pool K V) (id : PageId) : Except PageFault (Page K V) :=
  match pool.page? id with
  | some page => .ok page
  | none => .error (.dangling id)

def leaf (pool : Pool K V) (id : PageId) : Except PageFault (Leaf K V) :=
  match pool.page? id with
  | some (.leaf leaf) => .ok leaf
  | some (.branch _) => .error (.notLeaf id)
  | none => .error (.dangling id)

def branch (pool : Pool K V) (id : PageId) : Except PageFault (Branch K) :=
  match pool.page? id with
  | some (.branch branch) => .ok branch
  | some (.leaf _) => .error (.notBranch id)
  | none => .error (.dangling id)

/-- Puts a page into a slot. -/
def write (pool : Pool K V) (id : PageId) (page : Page K V) : Pool K V :=
  { pool with slots := pool.slots.set id (some page) }

/-- Gives a page the slot released last, or a new one. -/
def allocate (pool : Pool K V) (page : Page K V) : PageId × Pool K V :=
  match pool.free with
  | id :: rest => (id, ⟨pool.slots.set id (some page), rest⟩)
  | [] => (pool.slots.length, ⟨pool.slots ++ [some page], []⟩)

/-- Empties a slot and gives back the page that it held. -/
def release (pool : Pool K V) (id : PageId) : Except PageFault (Page K V × Pool K V) := do
  let page ← pool.page id
  return (page, ⟨pool.slots.set id none, id :: pool.free⟩)

/-- Sets the left neighbour of a leaf, if there is such a leaf to set. -/
def linkLeft (pool : Pool K V) (id : Option PageId) (left : PageId) :
    Except PageFault (Pool K V) :=
  match id with
  | none => .ok pool
  | some id => do
    let leaf ← pool.leaf id
    return pool.write id (.leaf { leaf with left := some left })

/-- Only the given slot has a new page. -/
theorem page?_write {pool : Pool K V} {id : PageId} (other : PageId) (page : Page K V)
    (h : id < pool.slots.length) :
    (pool.write id page).page? other = if id = other then some page else pool.page? other := by
  simp only [page?, write, List.getElem?_set, if_pos h]
  split <;> rfl

/-- A page that is there has a slot. -/
theorem lt_length_of_page? {pool : Pool K V} {id : PageId} {page : Page K V}
    (h : pool.page? id = some page) : id < pool.slots.length := by
  rw [page?, Option.join_eq_some_iff] at h
  exact (List.getElem?_eq_some_iff.1 h).1

end Pool
end PageTree
end Docstore
