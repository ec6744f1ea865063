import Docstore.Proofs.PageTree.Audit
import Docstore.Proofs.PageTree.Insertion
import Docstore.Proofs.PageTree.Removal

set_option autoImplicit false

namespace Docstore
namespace PageTree

variable {K V : Type} [Ord K] [DecidableEq K]

inductive Call (K V : Type)
  | insert (key : K) (value : V)
  | remove (key : K)
  | clear
  | search (key : K)
  | contains (key : K)

inductive Answer (V : Type)
  | flag (flag : Bool)
  | value (value : Option V)
  | done

/-- The answer of a tree to a call, and the tree after it. -/
def perform (tree : PageTree K V) : Call K V → Except PageFault (Answer V × PageTree K V)
  | .insert key value => do
    let (isNew, tree) ← tree.insert key value
    return (.flag isNew, tree)
  | .remove key => do
    let (wasThere, tree) ← tree.remove key
    return (.flag wasThere, tree)
  | .clear => return (.done, tree.clear)
  | .search key => do
    let (found, tree) ← tree.search key
    return (.value found, tree)
  | .contains key => do
    let (isThere, tree) ← tree.contains key
    return (.flag isThere, tree)

def performAll (tree : PageTree K V) :
    List (Call K V) → Except PageFault (List (Answer V) × PageTree K V)
  | [] => .ok ([], tree)
  | call :: calls => do
    let (answer, tree) ← perform tree call
    let (answers, tree) ← performAll tree calls
    return (answer :: answers, tree)

omit [Ord K] in
/-- The answer of a map to a call, and the map after it. -/
def reply (map : K → Option V) : Call K V → Answer V × (K → Option V)
  | .insert key value => (.flag (map key).isNone, Function.update map key (some value))
  | .remove key => (.flag (map key).isSome, Function.update map key none)
  | .clear => (.done, fun _ => none)
  | .search key => (.value (map key), map)
  | .contains key => (.flag (map key).isSome, map)

omit [Ord K] in
def replyAll (map : K → Option V) : List (Call K V) → List (Answer V) × (K → Option V)
  | [] => ([], map)
  | call :: calls =>
    let (answer, map) := reply map call
    let (answers, map) := replyAll map calls
    (answer :: answers, map)

variable [Std.TransOrd K] [Std.LawfulEqOrd K]

/-- One call: the answer is that of the map of the entries, and the tree stays sound. -/
theorem perform_spec {tree : PageTree K V} {span : Span K V} (sound : Sound tree span)
    {map : K → Option V} (same : ∀ key, findEntry key span.entries = map key) (call : Call K V) :
    ∃ tree' span', perform tree call = .ok ((reply map call).1, tree') ∧ Sound tree' span' ∧
      (∀ key, findEntry key span'.entries = (reply map call).2 key) ∧
      tree'.order = tree.order ∧ tree'.threshold = tree.threshold := by
  cases call with
  | insert key value =>
      obtain ⟨tree', span', ran, sound', entries, order, threshold⟩ := insert_spec sound key value
      refine ⟨tree', span', ?_, sound', fun other => ?_, order, threshold⟩
      · simp [perform, ran, reply, putEntry_isNew, same]
      · rw [entries, findEntry_putEntry key other value sound.sorted, same]
        by_cases here : key = other
        · subst here
          simp [reply]
        · simp [reply, here, Function.update_of_ne (Ne.symm here)]
  | remove key =>
      obtain ⟨tree', span', ran, sound', entries, order, threshold⟩ := remove_spec sound key
      refine ⟨tree', span', ?_, sound', fun other => ?_, order, threshold⟩
      · simp [perform, ran, reply, eraseEntry_wasThere, same]
      · rw [entries, findEntry_eraseEntry key other sound.sorted, same]
        by_cases here : key = other
        · subst here
          simp [reply]
        · simp [reply, here, Function.update_of_ne (Ne.symm here)]
  | clear => exact ⟨tree.clear, _, rfl, sound.clear, fun _ => rfl, rfl, rfl⟩
  | search key =>
      obtain ⟨recent, ran, sound'⟩ := search_spec sound key
      exact ⟨_, span, by simp [perform, ran, reply, same], sound', same, rfl, rfl⟩
  | contains key =>
      obtain ⟨recent, ran, sound'⟩ := contains_spec sound key
      exact ⟨_, span, by simp [perform, ran, reply, same], sound', same, rfl, rfl⟩

theorem performAll_spec {tree : PageTree K V} {span : Span K V} (sound : Sound tree span)
    (map : K → Option V) (same : ∀ key, findEntry key span.entries = map key)
    (calls : List (Call K V)) :
    ∃ tree' span', performAll tree calls = .ok ((replyAll map calls).1, tree') ∧
      Sound tree' span' ∧ (∀ key, findEntry key span'.entries = (replyAll map calls).2 key) ∧
      tree'.order = tree.order ∧ tree'.threshold = tree.threshold := by
  induction calls generalizing tree span map with
  | nil => exact ⟨tree, span, rfl, sound, same, rfl, rfl⟩
  | cons call calls ih =>
      obtain ⟨next, span₁, ran, sound₁, same₁, order₁, threshold₁⟩ := perform_spec sound same call
      obtain ⟨last, span₂, ran₂, sound₂, same₂, order₂, threshold₂⟩ := ih sound₁ _ same₁
      refine ⟨last, span₂, ?_, sound₂, same₂, order₂.trans order₁, threshold₂.trans threshold₁⟩
      simp [performAll, ran, ran₂, replyAll]

theorem length_eq_ncard {entries : List (K × V)} (sorted : Ascending entries)
    {map : K → Option V} (same : ∀ key, findEntry key entries = map key) :
    entries.length = Set.ncard {key | map key ≠ none} := by
  have keys : {key | map key ≠ none} = ((entries.map Prod.fst).toFinset : Set K) := by
    ext key
    simp only [Set.mem_ofPred_eq, List.coe_toFinset, List.mem_map, ← same,
      ← Option.isSome_iff_ne_none,
      Option.isSome_iff_exists, ← mem_iff_findEntry sorted]
    exact ⟨fun ⟨value, member⟩ => ⟨_, member, rfl⟩, fun ⟨e, member, here⟩ => ⟨e.2, by rwa [← here]⟩⟩
  rw [keys, Set.ncard_coe_finset, List.toFinset_card_of_nodup sorted.nodup_keys, List.length_map]

/-- A tree answers as a map does, whatever it keeps of recent answers, and its entries are those of
the map in ascending order. -/
theorem calls_answer_as_map (order threshold : Nat) (three : 3 ≤ order) (positive : 1 ≤ threshold)
    (half : threshold ≤ order / 2) (capacity : Nat) (calls : List (Call K V)) :
    (capacity ≤ Recent.maxCapacity →
      create order threshold capacity =
        .ok (empty order threshold (Recent.empty capacity) : PageTree K V)) ∧
    ∃ tree entries,
      performAll (empty order threshold (Recent.empty capacity)) calls =
        .ok ((replyAll (fun _ => none) calls).1, tree) ∧
      tree.toEntries = .ok entries ∧
      entries.Pairwise (fun a b => compare a.1 b.1 = .lt) ∧
      (∀ key value, (key, value) ∈ entries ↔
        (replyAll (fun _ => none) calls).2 key = some value) ∧
      tree.size = Set.ncard {key | (replyAll (fun _ => none) calls).2 key ≠ none} ∧
      tree.first = .ok entries.head? ∧ tree.last = .ok entries.getLast? := by
  refine ⟨fun room => ?_, ?_⟩
  · have enough : ¬ order < 3 := by omega
    have within : ¬ (threshold = 0 ∨ order / 2 < threshold) := by omega
    simp only [create, if_neg enough, if_neg within, Recent.create?, if_pos room]
  · have start : Sound (empty order threshold (Recent.empty capacity) : PageTree K V)
        (.ofLeaf 0 []) := sound_empty ⟨three, positive, half⟩ fun _ => rfl
    obtain ⟨tree, span, ran, sound, same, -⟩ :=
      performAll_spec start (fun _ => none) (fun _ => rfl) calls
    refine ⟨tree, span.entries, ran, toEntries_spec sound, sound.sorted, fun key value => ?_, ?_,
      first_spec sound, last_spec sound⟩
    · rw [mem_iff_findEntry sound.sorted, same]
    · rw [sound.size]
      exact length_eq_ncard sound.sorted same

/-- With four keys a tree has two levels, and with one of them left it is a single leaf again. -/
theorem split_tree_answers :
    let start : PageTree Nat Nat := empty 3 1 (Recent.empty 1)
    let splits : List (Call Nat Nat) :=
      [.insert 1 10, .insert 2 20, .insert 3 30, .insert 4 40, .search 2, .search 2]
    let merges : List (Call Nat Nat) := [.remove 1, .remove 2, .remove 4, .search 2, .contains 3]
    ((performAll start splits).toOption.map fun done => done.2.levels) = some 1 ∧
    ∃ tree entries, performAll start (splits ++ merges) = .ok ([.flag true, .flag true, .flag true,
        .flag true, .value (some 20), .value (some 20), .flag true, .flag true, .flag true,
        .value none, .flag true], tree) ∧
      tree.levels = 0 ∧ tree.size = 1 ∧ tree.toEntries = .ok entries ∧ (3, 30) ∈ entries := by
  intro start splits merges
  obtain ⟨-, tree, entries, ran, listed, -, member, -⟩ := calls_answer_as_map (K := Nat) (V := Nat)
    3 1 (by decide) (by decide) (by decide) 1 (splits ++ merges)
  have merged : ((performAll start (splits ++ merges)).toOption.map fun done =>
      (done.2.levels, done.2.size)) = some (0, 1) := by
    decide +kernel
  rw [ran] at merged
  obtain ⟨levels, size⟩ := Prod.mk.inj (Option.some.inj merged)
  exact ⟨by decide +kernel, tree, entries, ran, levels, size, listed, (member 3 30).2 rfl⟩

/-- A tree stays sound: sizes within the limits, exact separators, all leaves at one depth and in
one chain. Its checks find no fault, and its height is at most logarithmic in its size. -/
theorem calls_keep_sound (order threshold : Nat) (three : 3 ≤ order) (positive : 1 ≤ threshold)
    (half : threshold ≤ order / 2) (capacity : Nat) (calls : List (Call K V)) :
    ∃ answers tree span,
      performAll (empty order threshold (Recent.empty capacity)) calls = .ok (answers, tree) ∧
      tree.order = order ∧ tree.threshold = threshold ∧ Sound tree span ∧
      tree.audit = .ok () ∧
      tree.leafDepths = .ok (List.replicate span.leaves.length (tree.levels + 1)) ∧
      tree.height = .ok (tree.levels + 1) ∧
      ∀ height, tree.height = .ok height → 2 ≤ height →
        2 * max threshold 2 ^ (height - 2) * threshold ≤ tree.size := by
  have start : Sound (empty order threshold (Recent.empty capacity) : PageTree K V)
      (.ofLeaf 0 []) := sound_empty ⟨three, positive, half⟩ fun _ => rfl
  obtain ⟨tree, span, ran, sound, -, orderSame, thresholdSame⟩ :=
    performAll_spec start (fun _ => none) (fun _ => rfl) calls
  have tall := height_spec sound
  refine ⟨_, tree, span, ran, orderSame, thresholdSame, sound, audit_spec sound,
    leafDepths_spec sound, tall, fun height measured high => ?_⟩
  obtain rfl : tree.levels + 1 = height := by simpa [tall] using measured
  have many := sound.many_entries (by omega)
  rw [show tree.levels + 1 - 2 = tree.levels - 1 by omega]
  have same : tree.threshold = threshold := thresholdSame
  rwa [same] at many

/-- Eight keys make a tree of three levels, and two of them one of two levels. -/
theorem split_tree_stays_sound :
    let start : PageTree Nat Nat := empty 3 1 (Recent.empty 0)
    let splits : List (Call Nat Nat) := [.insert 1 1, .insert 2 2, .insert 3 3, .insert 4 4,
      .insert 5 5, .insert 6 6, .insert 7 7, .insert 8 8]
    let merges : List (Call Nat Nat) :=
      [.remove 1, .remove 3, .remove 2, .remove 5, .remove 4, .remove 6]
    (∃ answers tree, performAll start splits = .ok (answers, tree) ∧ tree.audit = .ok () ∧
      tree.height = .ok 3) ∧
    ∃ answers tree, performAll start (splits ++ merges) = .ok (answers, tree) ∧
      tree.audit = .ok () ∧ tree.height = .ok 2 := by
  intro start splits merges
  obtain ⟨answers, tree, span, ran, -, -, -, clean, -, tall, -⟩ := calls_keep_sound
    (K := Nat) (V := Nat) 3 1 (by decide) (by decide) (by decide) 0 splits
  obtain ⟨answers', tree', span', ran', -, -, -, clean', -, tall', -⟩ := calls_keep_sound
    (K := Nat) (V := Nat) 3 1 (by decide) (by decide) (by decide) 0 (splits ++ merges)
  have grown : ((performAll start splits).toOption.map fun done => done.2.levels) = some 2 := by
    decide +kernel
  have shrunk : ((performAll start (splits ++ merges)).toOption.map fun done =>
      done.2.levels) = some 1 := by
    decide +kernel
  rw [ran] at grown
  rw [ran'] at shrunk
  rw [show tree.levels = 2 from Option.some.inj grown] at tall
  rw [show tree'.levels = 1 from Option.some.inj shrunk] at tall'
  exact ⟨⟨answers, tree, ran, clean, tall⟩, answers', tree', ran', clean', tall'⟩

end PageTree
end Docstore
