import Docstore.Proofs.PageTree.Layout

set_option autoImplicit false

namespace Docstore
namespace PageTree

variable {K V : Type} [Ord K] [DecidableEq K]

def Coherent (recent : Recent K V) (entries : List (K × V)) : Prop :=
  ∀ key value, recent.find? key = some value → findEntry key entries = some value

structure Sound (tree : PageTree K V) (span : Span K V) : Prop where
  limits : Limits tree.order tree.threshold
  held : Holds tree.order tree.threshold tree.pool tree.levels tree.root span
  sorted : Ascending span.entries
  size : tree.size = span.entries.length
  /-- A root has no least size of its own, but a root that is a branch has two children. -/
  atMost : span.size ≤ tree.order
  twoChildren : tree.levels ≠ 0 → 2 ≤ span.size
  /-- The taken slots are the pages of the tree, each of them once. -/
  slots : ∀ id, span.pages.count id = tree.pool.occupied id
  tidy : tree.pool.Tidy
  chained : tree.pool.Chained span.leaves
  recent : Coherent tree.recent span.entries

theorem Sound.counted {tree : PageTree K V} {span : Span K V} (sound : Sound tree span) :
    tree.pool.Counted span.pages :=
  fun id => Nat.le_of_eq (sound.slots id)

omit [Ord K] [DecidableEq K] in
theorem slots_of_rewrites {before after : Pool K V} {old new : Span K V}
    (slots : ∀ id, old.pages.count id = before.occupied id)
    (account : before.Rewrites after old.pages new.pages old.leaves new.leaves) (id : PageId) :
    new.pages.count id = after.occupied id := by
  have sum := account.tally id
  have same := slots id
  omega

omit [Ord K] [DecidableEq K] in
theorem chained_of_rewrites {before after : Pool K V} {old new : Span K V}
    (chained : before.Chained old.leaves)
    (account : before.Rewrites after old.pages new.pages old.leaves new.leaves) :
    after.Chained new.leaves := by
  have moved := account.chained [] []
  simp only [List.nil_append, List.append_nil] at moved
  exact moved chained

section Recent

variable {recent : Recent K V} {entries : List (K × V)}

theorem Coherent.put {key : K} {value : V} (coherent : Coherent recent entries)
    (found : findEntry key entries = some value) : Coherent (recent.put key value) entries := by
  intro k v kept
  have put := Recent.find?_put kept
  by_cases same : key = k
  · rw [if_pos same] at put
    rw [← same, put, found]
  · rw [if_neg same] at put
    exact coherent k v put

variable [Std.TransOrd K] [Std.LawfulEqOrd K]

/-- The answers stay true where the key of a new value is dropped from them. -/
theorem Coherent.putEntry (coherent : Coherent recent entries) (key : K) (value : V)
    (sorted : Ascending entries) :
    Coherent (recent.drop key) (putEntry key value entries).1 := by
  intro k v found
  rw [Recent.find?_drop] at found
  rw [findEntry_putEntry key k value sorted]
  by_cases same : key = k
  · rw [if_pos same] at found
    cases found
  · rw [if_neg same] at found ⊢
    exact coherent k v found

/-- The answers stay true where the removed key is dropped from them. -/
theorem Coherent.eraseEntry (coherent : Coherent recent entries) (key : K)
    (sorted : Ascending entries) :
    Coherent (recent.drop key) (eraseEntry key entries).1 := by
  intro k v found
  rw [Recent.find?_drop] at found
  rw [findEntry_eraseEntry key k sorted]
  by_cases same : key = k
  · rw [if_pos same] at found
    cases found
  · rw [if_neg same] at found ⊢
    exact coherent k v found

end Recent

theorem sound_empty {order threshold : Nat} (limits : Limits order threshold)
    {recent : Recent K V} (fresh : ∀ key, recent.find? key = none) :
    Sound (empty order threshold recent) (.ofLeaf 0 []) where
  limits := limits
  held := .of_leaf rfl
  sorted := ascending_nil
  size := rfl
  atMost := Nat.zero_le _
  twoChildren := fun impossible => absurd rfl impossible
  slots id := by
    cases id with
    | zero => rfl
    | succ id => rfl
  tidy := by
    refine ⟨List.nodup_nil, fun id => ⟨fun member => absurd member List.not_mem_nil, ?_⟩⟩
    intro ⟨inside, missing⟩
    obtain rfl : id = 0 := Nat.lt_one_iff.1 inside
    cases missing
  chained := ⟨List.nodup_singleton _, ⟨_, rfl, rfl, rfl⟩, trivial⟩
  recent key value found := by
    rw [show (empty order threshold recent).recent = recent from rfl, fresh key] at found
    cases found

omit [Ord K] [DecidableEq K] in
/-- The trees that can be created are empty, with an order and a threshold within the limits. -/
theorem create_eq_ok {order threshold capacity : Nat} {tree : PageTree K V}
    (created : create order threshold capacity = .ok tree) :
    Limits order threshold ∧ tree = empty order threshold (Recent.empty capacity) := by
  unfold create at created
  by_cases few : order < 3
  · simp [few] at created
  · by_cases outside : threshold = 0 ∨ order / 2 < threshold
    · simp [few, outside] at created
    · rw [if_neg few, if_neg outside] at created
      by_cases room : capacity ≤ Recent.maxCapacity
      · simp only [Recent.create?, if_pos room, Except.ok.injEq] at created
        exact ⟨⟨by omega, by omega, by omega⟩, created.symm⟩
      · simp [Recent.create?, room] at created

theorem sound_create {order threshold capacity : Nat} {tree : PageTree K V}
    (created : create order threshold capacity = .ok tree) : Sound tree (.ofLeaf 0 []) := by
  obtain ⟨limits, rfl⟩ := create_eq_ok created
  exact sound_empty limits fun _ => rfl

theorem Sound.clear {tree : PageTree K V} {span : Span K V} (sound : Sound tree span) :
    Sound tree.clear (.ofLeaf 0 []) :=
  sound_empty sound.limits fun _ => rfl

end PageTree
end Docstore
