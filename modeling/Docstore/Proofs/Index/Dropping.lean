import Docstore.Proofs.Index.Lookups

set_option autoImplicit false

namespace Docstore

theorem PageTree.Ascending.ext {K V : Type} [Ord K] [Std.TransOrd K] [Std.LawfulEqOrd K]
    {first second : List (K × V)} (sorted : Ascending first) (sorted' : Ascending second)
    (same : ∀ key, findEntry key first = findEntry key second) : first = second := by
  have irreflexive : Std.Irrefl fun a b : K × V => compare a.1 b.1 = .lt := by
    refine ⟨fun a before => ?_⟩
    rw [Std.ReflOrd.compare_self] at before
    cases before
  have antisymmetric : Std.Antisymm fun a b : K × V => compare a.1 b.1 = .lt :=
    ⟨fun a b before behind => absurd behind (Std.OrientedCmp.not_lt_of_lt before)⟩
  apply List.Pairwise.eq_of_mem_iff sorted sorted'
  intro entry
  rw [mem_iff_findEntry sorted, mem_iff_findEntry sorted', same]

/-- The buckets without a document are those from which it is left out. -/
theorem Filed.getD_removed {bucket after : Key → Option (List DocId)} {keyOf : Table DocId Key}
    {id : DocId} {key : Key} (filed : Filed bucket keyOf) (found : keyOf.get? id = some key)
    {ids : List DocId} (present : bucket key = some ids)
    (changed : ∀ other, after other =
      if key = other then
        if (ids.filter (· ≠ id)).isEmpty then none else some (ids.filter (· ≠ id))
      else bucket other) (other : Key) :
    (after other).getD [] = ((bucket other).getD []).filter (· ≠ id) := by
  rw [changed]
  by_cases same : key = other
  · subst same
    rw [if_pos rfl, present, Option.getD_some]
    split
    · rename_i emptied
      exact (List.isEmpty_iff.1 emptied).symm
    · rfl
  · rw [if_neg same]
    apply Eq.symm
    apply List.filter_eq_self.2
    intro doc there
    apply decide_eq_true
    rintro rfl
    rw [filed.mem_getD, found] at there
    exact same (Option.some.inj there)

namespace OrderedIndex

open PageTree

variable {entries : List (Key × List DocId)} {keyOf : Table DocId Key} {id : DocId} {key : Key}

/-- The buckets with a document left out of each of them. A bucket left empty goes. -/
def pruned (id : DocId) (entries : List (Key × List DocId)) : List (Key × List DocId) :=
  (entries.map fun entry => (entry.1, entry.2.filter (· ≠ id))).filter (!·.2.isEmpty)

theorem ascending_pruned (sorted : Ascending entries) (id : DocId) :
    Ascending (pruned id entries) := by
  apply List.Pairwise.filter
  exact List.pairwise_map.2 sorted

theorem findEntry_pruned (sorted : Ascending entries) (id : DocId) (key : Key) :
    findEntry key (pruned id entries) =
      (findEntry key entries).bind fun ids =>
        if (ids.filter (· ≠ id)).isEmpty then none else some (ids.filter (· ≠ id)) := by
  apply Option.ext
  intro kept
  rw [← mem_iff_findEntry (ascending_pruned sorted id), Option.bind_eq_some_iff, pruned,
    List.mem_filter, List.mem_map]
  constructor
  · rintro ⟨⟨⟨other, ids⟩, there, same⟩, full⟩
    obtain ⟨rfl, rfl⟩ := Prod.mk.inj same
    refine ⟨ids, (mem_iff_findEntry sorted _ _).1 there, ?_⟩
    rw [if_neg (by simpa using full)]
  · rintro ⟨ids, there, same⟩
    by_cases none : (ids.filter (· ≠ id)).isEmpty
    · rw [if_pos none] at same
      cases same
    · rw [if_neg none] at same
      obtain rfl := Option.some.inj same
      exact ⟨⟨_, (mem_iff_findEntry sorted _ _).2 there, rfl⟩, by simpa using none⟩

/-- A document that is taken out of its bucket is left out of all. -/
theorem takenOut_eq_pruned (sorted : Ascending entries)
    (filed : Filed (fun key => findEntry key entries) keyOf) (found : keyOf.get? id = some key)
    (ascending : Ascending (takenOut key id entries)) :
    takenOut key id entries = pruned id entries := by
  obtain ⟨ids, present, -⟩ := filed.bucket_of_key found
  apply ascending.ext (ascending_pruned sorted id)
  intro other
  rw [findEntry_takenOut sorted present, findEntry_pruned sorted]
  by_cases same : key = other
  · rw [if_pos same, ← same, show findEntry key entries = some ids from present, Option.bind_some]
  · rw [if_neg same]
    cases bucket : findEntry other entries with
    | none => rfl
    | some others =>
        -- The bucket of another key is full and does not have the document.
        have outside : id ∉ others := by
          intro there
          have key' := (filed.member other id).1 ⟨others, bucket, there⟩
          rw [found] at key'
          exact same (Option.some.inj key')
        have whole : others.filter (· ≠ id) = others := by
          apply List.filter_eq_self.2
          intro doc there
          exact decide_eq_true fun eq => outside (eq ▸ there)
        have full := (filed.full other others bucket).1
        rw [Option.bind_some, whole, if_neg (by simpa using full)]

theorem flatMap_pruned (finds : Key → Bool) (id : DocId) (entries : List (Key × List DocId)) :
    ((pruned id entries).filter fun entry => finds entry.1).flatMap Prod.snd =
      ((entries.filter fun entry => finds entry.1).flatMap Prod.snd).filter (· ≠ id) := by
  unfold pruned
  generalize (fun doc : DocId => decide (doc ≠ id)) = keep
  induction entries with
  | nil => rfl
  | cons entry rest ih =>
      obtain ⟨key, ids⟩ := entry
      rw [List.map_cons, List.filter_cons]
      cases kept : ids.filter keep with
      | nil =>
          rw [if_neg (by simp), ih, List.filter_cons]
          split
          · rw [List.flatMap_cons, List.filter_append, kept, List.nil_append]
          · rfl
      | cons first others =>
          rw [if_pos (by simp), List.filter_cons, List.filter_cons]
          cases finds key with
          | false => exact ih
          | true =>
              simp only [if_true, List.flatMap_cons, List.filter_append, kept, ih]

theorem foundIn_pruned (sorted : Ascending entries) (id : DocId) (lookup : IndexLookup) :
    foundIn (pruned id entries) lookup = (foundIn entries lookup).filter (· ≠ id) := by
  cases lookup with
  | exact key =>
      rw [foundIn, foundIn, findEntry_pruned sorted]
      cases findEntry key entries with
      | none => rfl
      | some ids =>
          rw [Option.bind_some, Option.getD_some]
          split
          · rename_i emptied
            exact (List.isEmpty_iff.1 emptied).symm
          · rfl
  | range range =>
      rw [foundIn, foundIn, pruned]
      exact flatMap_pruned range.finds id entries

end OrderedIndex

namespace Index

variable {index after : Index} {id : DocId}

/-- A document that the index does not know is in nothing that a lookup finds. -/
theorem found_unknown (sound : index.Sound) (unknown : index.keyOf.get? id = none)
    (lookup : IndexLookup) : (index.found lookup).filter (· ≠ id) = index.found lookup := by
  apply List.filter_eq_self.2
  intro doc there
  apply decide_eq_true
  rintro rfl
  by_cases serves : index.Serves lookup
  · obtain ⟨key, known, -⟩ := ((found_spec sound serves).2 doc).1 there
    rw [unknown] at known
    cases known
  · cases lookup with
    | exact key => exact serves trivial
    | range range =>
        cases index with
        | ordered index => exact serves rfl
        | hashed index => cases there

/-- Removing a document takes it out of what every lookup finds. -/
theorem found_remove (sound : index.Sound) (ran : index.remove id = .ok after)
    (lookup : IndexLookup) : after.found lookup = (index.found lookup).filter (· ≠ id) := by
  cases known : index.keyOf.get? id with
  | none =>
      rw [found_unknown sound known]
      cases index with
      | ordered index =>
          have idle : index.remove id = .ok index := by
            simp only [OrderedIndex.remove, show index.keyOf.get? id = none from known]
          rw [remove, idle, ok_bind] at ran
          rw [← Except.ok.inj ran]
      | hashed index =>
          have idle : index.remove id = index := by
            simp only [HashedIndex.remove, show index.keyOf.get? id = none from known]
          rw [remove, idle] at ran
          rw [← Except.ok.inj ran]
  | some key =>
      cases index with
      | ordered index =>
          obtain ⟨entries, shows, filed⟩ := OrderedIndex.sound_iff.1 sound
          obtain ⟨tree, done, shows'⟩ := shows.takeOut known
          rw [remove, done, ok_bind] at ran
          have pruned := OrderedIndex.takenOut_eq_pruned shows.sorted filed known shows'.sorted
          rw [← Except.ok.inj ran, shows'.found_eq, shows.found_eq, pruned]
          exact OrderedIndex.foundIn_pruned shows.sorted id lookup
      | hashed index =>
          obtain ⟨ids, present, -⟩ := sound.filed.bucket_of_key known
          rw [← Except.ok.inj ran]
          cases lookup with
          | exact key' =>
              exact sound.filed.getD_removed known present
                (HashedIndex.get?_remove known present) key'
          | range range => rfl

end Index

end Docstore
