import Docstore.Proofs.Index.Dropping
import Docstore.Proofs.PageTree.Calls
import Docstore.Proofs.Store

set_option autoImplicit false

namespace Docstore

open PageTree

namespace Table

variable {α β : Type} [DecidableEq α]

theorem erase_of_not_mem {table : Table α β} {key : α} (absent : table.get? key = none) :
    table.erase key = table := by
  obtain ⟨entries⟩ := table
  refine congrArg Table.mk (List.filter_eq_self.2 fun entry there => ?_)
  have known : entry.1 ∈ keys ⟨entries⟩ := List.mem_map_of_mem there
  apply decide_eq_true
  rintro rfl
  rw [← contains_iff, contains, absent] at known
  cases known

variable [DecidableEq β]

/-- The keys that have a value, in the order of their arrival. -/
def keysOf (table : Table α β) (value : β) : List α :=
  (table.entries.filter fun entry => entry.2 = value).map Prod.fst

theorem keysOf_erase (table : Table α β) (key : α) (value : β) :
    (table.erase key).keysOf value = (table.keysOf value).filter (· ≠ key) := by
  rw [keysOf, keysOf, List.filter_map, erase, List.filter_filter, List.filter_filter]
  simp only [Function.comp_def, Bool.and_comm]

theorem keysOf_put {table : Table α β} {key : α} (absent : table.get? key = none)
    (value other : β) :
    (table.put key value).keysOf other =
      table.keysOf other ++ if value = other then [key] else [] := by
  obtain ⟨entries⟩ := table
  have fresh : key ∉ keys ⟨entries⟩ := by
    rw [← contains_iff, contains, absent]
    simp
  rw [put_of_not_mem fresh, keysOf, keysOf, List.filter_append, List.map_append]
  by_cases same : value = other
  · rw [if_pos same, List.filter_cons_of_pos (by simpa using same)]
    rfl
  · rw [if_neg same, List.filter_cons_of_neg (by simpa using same)]
    rfl

end Table

/-- Buckets that agree with the remembered keys and list documents in the order of arrival. -/
structure Queued (bucket : Key → Option (List DocId)) (keyOf : Table DocId Key) : Prop
    extends Filed bucket keyOf where
  inOrder : ∀ key, (bucket key).getD [] = keyOf.keysOf key

namespace Queued

variable {bucket after : Key → Option (List DocId)} {keyOf : Table DocId Key} {id : DocId}
  {key : Key}

theorem empty (vacant : ∀ key, bucket key = none) : Queued bucket Table.empty where
  toFiled := .empty vacant
  inOrder key := by
    rw [vacant]
    rfl

theorem remove (queued : Queued bucket keyOf) (found : keyOf.get? id = some key)
    {ids : List DocId} (present : bucket key = some ids)
    (changed : ∀ other, after other =
      if key = other then
        if (ids.filter (· ≠ id)).isEmpty then none else some (ids.filter (· ≠ id))
      else bucket other) : Queued after (keyOf.erase id) where
  toFiled := queued.toFiled.remove found present changed
  inOrder other := by
    rw [queued.getD_removed found present changed, queued.inOrder, Table.keysOf_erase]

theorem insert (queued : Queued bucket keyOf) (fresh : keyOf.get? id = none) (key : Key)
    (changed : ∀ other, after other =
      if key = other then some ((bucket key).getD [] ++ [id]) else bucket other) :
    Queued after (keyOf.put id key) where
  toFiled := queued.toFiled.insert fresh key changed
  inOrder other := by
    rw [changed, Table.keysOf_put fresh]
    by_cases same : key = other
    · rw [if_pos same, if_pos same, Option.getD_some, queued.inOrder, same]
    · rw [if_neg same, if_neg same, queued.inOrder, List.append_nil]

end Queued

namespace Index

def InOrder : Index → Prop
  | .ordered index => ∃ entries, index.Shows entries ∧
      Queued (fun key => findEntry key entries) index.keyOf
  | .hashed index => index.buckets.keys.Nodup ∧ Queued index.buckets.get? index.keyOf

theorem InOrder.sound {index : Index} (inOrder : index.InOrder) : index.Sound := by
  cases index with
  | ordered index =>
      obtain ⟨entries, shows, queued⟩ := inOrder
      exact OrderedIndex.sound_iff.2 ⟨entries, shows, queued.toFiled⟩
  | hashed index => exact ⟨inOrder.1, inOrder.2.toFiled⟩

end Index

namespace OrderedIndex

variable {index : OrderedIndex}

def fresh (attributes : List String) (order threshold capacity : Nat) : OrderedIndex :=
  ⟨attributes, PageTree.empty order threshold (Recent.empty capacity), Table.empty⟩

theorem create_eq_fresh {order threshold capacity : Nat} (three : 3 ≤ order)
    (positive : 1 ≤ threshold) (half : threshold ≤ order / 2)
    (room : capacity ≤ Recent.maxCapacity) (attributes : List String) :
    create attributes order threshold capacity =
      .ok (fresh attributes order threshold capacity) := by
  have enough : ¬ order < 3 := by omega
  have within : ¬ (threshold = 0 ∨ order / 2 < threshold) := by omega
  simp only [create, PageTree.create, if_neg enough, if_neg within, Recent.create?, if_pos room]
  rfl

theorem inOrder_fresh {order threshold : Nat} (three : 3 ≤ order) (positive : 1 ≤ threshold)
    (half : threshold ≤ order / 2) (attributes : List String) (capacity : Nat) :
    (Index.ordered (fresh attributes order threshold capacity)).InOrder := by
  have sound : PageTree.Sound (fresh attributes order threshold capacity).tree (.ofLeaf 0 []) :=
    sound_empty ⟨three, positive, half⟩ fun _ => rfl
  exact ⟨[], ⟨_, sound, rfl⟩, .empty fun _ => rfl⟩

theorem remove_inOrder (inOrder : (Index.ordered index).InOrder) (id : DocId) :
    ∃ after, index.remove id = .ok after ∧ (Index.ordered after).InOrder ∧
      after.attributes = index.attributes ∧ after.keyOf = index.keyOf.erase id := by
  cases found : index.keyOf.get? id with
  | none =>
      refine ⟨index, ?_, inOrder, rfl, (Table.erase_of_not_mem found).symm⟩
      simp only [remove, found]
  | some key =>
      obtain ⟨entries, shows, queued⟩ := inOrder
      obtain ⟨ids, present, -⟩ := queued.bucket_of_key found
      obtain ⟨tree, ran, shows'⟩ := shows.takeOut found
      have queued' := queued.remove found present (findEntry_takenOut shows.sorted present)
      exact ⟨_, ran, ⟨_, shows', queued'⟩, rfl, rfl⟩

theorem insert_inOrder (inOrder : (Index.ordered index).InOrder) (id : DocId) (doc : Json) :
    ∃ after, index.insert id doc = .ok after ∧ (Index.ordered after).InOrder ∧
      after.attributes = index.attributes ∧
      after.keyOf = (index.keyOf.erase id).put id (Key.ofDocument doc index.attributes) := by
  obtain ⟨first, cleared, ⟨entries, shows, queued⟩, attributes, keyOf⟩ : ∃ first,
      (if index.keyOf.contains id then index.remove id else .ok index) = .ok first ∧
        (Index.ordered first).InOrder ∧ first.attributes = index.attributes ∧
        first.keyOf = index.keyOf.erase id := by
    by_cases present : index.keyOf.contains id
    · rw [if_pos present]
      exact remove_inOrder inOrder id
    · rw [if_neg present]
      have absent : index.keyOf.get? id = none := by simpa [Table.contains] using present
      exact ⟨index, rfl, inOrder, rfl, (Table.erase_of_not_mem absent).symm⟩
  have fresh : first.keyOf.get? id = none := by rw [keyOf, Table.get?_erase, if_pos rfl]
  obtain ⟨tree, ran, shows'⟩ := shows.file id doc
  have outside : id ∉ (findEntry (Key.ofDocument doc first.attributes) entries).getD [] := by
    rw [queued.mem_getD, fresh]
    simp
  have queued' := queued.insert fresh _ (findEntry_putIn shows.sorted outside)
  refine ⟨_, ?_, ⟨_, shows', queued'⟩, attributes, ?_⟩
  · rw [insert_eq, cleared, ok_bind, ran]
  · rw [keyOf, attributes]

end OrderedIndex

namespace HashedIndex

variable {index : HashedIndex}

theorem inOrder_create (attributes : List String) : (Index.hashed (create attributes)).InOrder :=
  ⟨List.nodup_nil, .empty fun _ => rfl⟩

theorem remove_inOrder (inOrder : (Index.hashed index).InOrder) (id : DocId) :
    (Index.hashed (index.remove id)).InOrder ∧
      (index.remove id).attributes = index.attributes ∧
      (index.remove id).keyOf = index.keyOf.erase id := by
  have nodup := (remove_spec inOrder.sound id).1.nodup
  cases found : index.keyOf.get? id with
  | none =>
      simp only [remove, found]
      exact ⟨inOrder, trivial, (Table.erase_of_not_mem found).symm⟩
  | some key =>
      obtain ⟨ids, present, -⟩ := inOrder.2.bucket_of_key found
      have queued := inOrder.2.remove found present (get?_remove found present)
      by_cases none : (ids.filter (· ≠ id)).isEmpty
      · simp only [remove, found, present, none, if_true] at nodup queued ⊢
        exact ⟨⟨nodup, queued⟩, trivial, trivial⟩
      · simp only [remove, found, present, if_neg none] at nodup queued ⊢
        exact ⟨⟨nodup, queued⟩, trivial, trivial⟩

theorem insert_inOrder (inOrder : (Index.hashed index).InOrder) (id : DocId) (doc : Json) :
    (Index.hashed (index.insert id doc)).InOrder ∧
      (index.insert id doc).attributes = index.attributes ∧
      (index.insert id doc).keyOf =
        (index.keyOf.erase id).put id (Key.ofDocument doc index.attributes) := by
  have nodup := (insert_spec inOrder.sound id doc).1.nodup
  obtain ⟨⟨-, queued⟩, attributes, keyOf⟩ := remove_inOrder inOrder id
  have fresh : (index.remove id).keyOf.get? id = none := by
    rw [keyOf, Table.get?_erase, if_pos rfl]
  refine ⟨⟨nodup, queued.insert fresh _ fun other => ?_⟩, attributes, ?_⟩
  · simp only [insert]
    rw [Table.get?_put]
    rfl
  · simp only [insert]
    rw [keyOf, attributes]

end HashedIndex

namespace Index

inductive Call
  | insert (id : DocId) (doc : Json)
  | reindex (id : DocId) (doc : Json)
  | remove (id : DocId)
  | search (key : Key)

namespace Call

def filed? : Call → Option (DocId × Json)
  | .insert id doc => some (id, doc)
  | .reindex id doc => some (id, doc)
  | .remove _ => none
  | .search _ => none

def concerns (id : DocId) : Call → Bool
  | .insert other _ => id = other
  | .reindex other _ => id = other
  | .remove other => id = other
  | .search _ => false

end Call

/-- The documents whose latest call filed them, with the content they were filed with, in the order
of these calls. -/
def standing : List Call → List (DocId × Json)
  | [] => []
  | call :: later =>
    (call.filed?.filter fun entry => !later.any (·.concerns entry.1)).toList ++ standing later

def standingUnder (attributes : List String) (key : Key) (calls : List Call) : List DocId :=
  ((standing calls).filter fun entry => Key.ofDocument entry.2 attributes = key).map Prod.fst

/-- A document stands just if a call filed it and no later call concerns it. -/
theorem mem_standing {id : DocId} {doc : Json} {calls : List Call} :
    (id, doc) ∈ standing calls ↔ ∃ earlier call later, calls = earlier ++ call :: later ∧
      call.filed? = some (id, doc) ∧ later.any (·.concerns id) = false := by
  induction calls with
  | nil => simp [standing]
  | cons first rest ih =>
      have split : (∃ earlier call later, first :: rest = earlier ++ call :: later ∧
          call.filed? = some (id, doc) ∧ later.any (·.concerns id) = false) ↔
          (first.filed? = some (id, doc) ∧ rest.any (·.concerns id) = false) ∨
            (id, doc) ∈ standing rest := by
        rw [ih]
        constructor
        · rintro ⟨earlier, call, later, same, filed, last⟩
          cases earlier with
          | nil =>
              obtain ⟨rfl, rfl⟩ := List.cons.inj same
              exact .inl ⟨filed, last⟩
          | cons _ earlier =>
              exact .inr ⟨earlier, call, later, (List.cons.inj same).2, filed, last⟩
        · rintro (⟨filed, last⟩ | ⟨earlier, call, later, rfl, filed, last⟩)
          · exact ⟨[], first, rest, rfl, filed, last⟩
          · exact ⟨first :: earlier, call, later, rfl, filed, last⟩
      rw [split, standing, List.mem_append, Option.mem_toList, Option.filter_eq_some_iff,
        Bool.not_eq_true']

theorem concerns_of_filed {call : Call} {id : DocId} {doc : Json}
    (filed : call.filed? = some (id, doc)) (other : DocId) :
    call.concerns other = decide (other = id) := by
  cases call with
  | insert id' doc' => cases filed; rfl
  | reindex id' doc' => cases filed; rfl
  | remove id' => cases filed
  | search key => cases filed

/-- The content that a document was filed with does not matter once a later call concerns it. -/
theorem standing_superseded {call call' : Call} {id : DocId} {doc doc' : Json} {later : List Call}
    (filed : call.filed? = some (id, doc)) (filed' : call'.filed? = some (id, doc'))
    (again : later.any (·.concerns id) = true) (earlier : List Call) :
    standing (earlier ++ call' :: later) = standing (earlier ++ call :: later) := by
  induction earlier with
  | nil => simp only [List.nil_append, standing, filed, filed', Option.filter_some, again]; rfl
  | cons first rest ih =>
      have alike : ∀ other, (rest ++ call' :: later).any (·.concerns other) =
          (rest ++ call :: later).any (·.concerns other) := fun other => by
        simp only [List.any_append, List.any_cons, concerns_of_filed filed,
          concerns_of_filed filed']
      simp only [List.cons_append, standing, ih, alike]

def perform (index : Index) : Call → Except Error Index
  | .insert id doc => index.insert id doc
  | .reindex id doc => index.reindex id doc
  | .remove id => index.remove id
  | .search key => do return (← index.search key).2

def performAll (index : Index) : List Call → Except Error Index
  | [] => .ok index
  | call :: later => do performAll (← index.perform call) later

variable {index : Index}

def keyed (attributes : List String) (entry : DocId × Json) : DocId × Key :=
  (entry.1, Key.ofDocument entry.2 attributes)

theorem remove_inOrder (inOrder : index.InOrder) (id : DocId) :
    ∃ after, index.remove id = .ok after ∧ after.InOrder ∧ after.shape = index.shape ∧
      after.keyOf = index.keyOf.erase id := by
  cases index with
  | ordered index =>
      obtain ⟨after, ran, inOrder', attributes, keyOf⟩ := OrderedIndex.remove_inOrder inOrder id
      exact ⟨.ordered after, by simp only [remove, ran, ok_bind]; rfl, inOrder',
        congrArg (Prod.mk _) attributes, keyOf⟩
  | hashed index =>
      obtain ⟨inOrder', attributes, keyOf⟩ := HashedIndex.remove_inOrder inOrder id
      exact ⟨_, rfl, inOrder', congrArg (Prod.mk _) attributes, keyOf⟩

theorem insert_inOrder (inOrder : index.InOrder) (id : DocId) (doc : Json) :
    ∃ after, index.insert id doc = .ok after ∧ after.InOrder ∧ after.shape = index.shape ∧
      after.keyOf = (index.keyOf.erase id).put id (Key.ofDocument doc index.attributes) := by
  cases index with
  | ordered index =>
      obtain ⟨after, ran, inOrder', attributes, keyOf⟩ := OrderedIndex.insert_inOrder inOrder id doc
      exact ⟨.ordered after, by simp only [insert, ran, ok_bind]; rfl, inOrder',
        congrArg (Prod.mk _) attributes, keyOf⟩
  | hashed index =>
      obtain ⟨inOrder', attributes, keyOf⟩ := HashedIndex.insert_inOrder inOrder id doc
      exact ⟨_, rfl, inOrder', congrArg (Prod.mk _) attributes, keyOf⟩

/-- Looking up a key gives its documents in the order of arrival. -/
theorem search_inOrder (inOrder : index.InOrder) (key : Key) :
    ∃ after, index.search key = .ok (index.keyOf.keysOf key, after) ∧ after.InOrder ∧
      after.shape = index.shape ∧ after.keyOf = index.keyOf := by
  cases index with
  | ordered index =>
      obtain ⟨entries, shows, queued⟩ := inOrder
      obtain ⟨recent, ran, shows'⟩ := shows.search key
      refine ⟨.ordered { index with tree := { index.tree with recent } }, ?_,
        ⟨entries, shows', queued⟩, rfl, rfl⟩
      have there : (findEntry key entries).getD [] = index.keyOf.keysOf key := queued.inOrder key
      rw [there] at ran
      simp only [search, ran, ok_bind]
      rfl
  | hashed index =>
      refine ⟨.hashed index, ?_, inOrder, rfl, rfl⟩
      rw [search, HashedIndex.search, inOrder.2.inOrder]
      rfl

theorem entries_put_erase (keyOf : Table DocId Key) (id : DocId) (key : Key) :
    ((keyOf.erase id).put id key).entries =
      (keyOf.entries.filter fun entry => entry.1 ≠ id) ++ [(id, key)] := by
  have absent : id ∉ Table.keys ⟨keyOf.entries.filter fun entry => entry.1 ≠ id⟩ := by
    simp [Table.keys]
  rw [Table.erase, Table.put_of_not_mem absent]

/-- One call: documents that it concerns leave, and the document that it files arrives. -/
theorem perform_inOrder (inOrder : index.InOrder) (call : Call) :
    ∃ after, index.perform call = .ok after ∧ after.InOrder ∧ after.shape = index.shape ∧
      after.keyOf.entries = (index.keyOf.entries.filter fun entry => !call.concerns entry.1) ++
        call.filed?.toList.map (keyed index.attributes) := by
  have others : ∀ id : DocId, (index.keyOf.entries.filter fun entry => entry.1 ≠ id) =
      index.keyOf.entries.filter fun entry => !decide (entry.1 = id) := fun id =>
    List.filter_congr fun entry _ => decide_not
  cases call with
  | insert id doc =>
      obtain ⟨after, ran, inOrder', shape, keyOf⟩ := insert_inOrder inOrder id doc
      refine ⟨after, ran, inOrder', shape, ?_⟩
      rw [keyOf, entries_put_erase, others]
      rfl
  | reindex id doc =>
      obtain ⟨between, ran, inOrder', shape, keyOf⟩ := remove_inOrder inOrder id
      obtain ⟨after, ran', inOrder'', shape', keyOf'⟩ := insert_inOrder inOrder' id doc
      -- The document has left before it is filed, so filing it has nothing to remove.
      refine ⟨after, ?_, inOrder'', shape'.trans shape, ?_⟩
      · simp only [perform, reindex, ran, ok_bind, ran']
      · have gone : (index.keyOf.erase id).get? id = none := by rw [Table.get?_erase, if_pos rfl]
        rw [keyOf', keyOf, Table.erase_of_not_mem gone, entries_put_erase, others,
          attributes_of_shape shape]
        rfl
  | remove id =>
      obtain ⟨after, ran, inOrder', shape, keyOf⟩ := remove_inOrder inOrder id
      refine ⟨after, ran, inOrder', shape, ?_⟩
      rw [keyOf, Table.erase, others]
      exact (List.append_nil _).symm
  | search key =>
      obtain ⟨after, ran, inOrder', shape, keyOf⟩ := search_inOrder inOrder key
      refine ⟨after, ?_, inOrder', shape, ?_⟩
      · simp only [perform, ran, ok_bind]
        rfl
      · rw [keyOf]
        simp only [Call.concerns, Call.filed?, Bool.not_false, List.filter_true, Option.toList_none,
          List.map_nil, List.append_nil]

/-- Any number of calls: documents that none of them concerns stay in front of those that stand. -/
theorem performAll_inOrder (inOrder : index.InOrder) (calls : List Call) :
    ∃ after, index.performAll calls = .ok after ∧ after.InOrder ∧ after.shape = index.shape ∧
      after.keyOf.entries =
        (index.keyOf.entries.filter fun entry => !calls.any (·.concerns entry.1)) ++
          (standing calls).map (keyed index.attributes) := by
  induction calls generalizing index with
  | nil => exact ⟨index, rfl, inOrder, rfl, by simp [standing]⟩
  | cons call later ih =>
      obtain ⟨between, ran, inOrder', shape, entries⟩ := perform_inOrder inOrder call
      obtain ⟨after, ran', inOrder'', shape', entries'⟩ := ih inOrder'
      refine ⟨after, by simp only [performAll, ran, ok_bind, ran'], inOrder'',
        shape'.trans shape, ?_⟩
      have arrived : (call.filed?.toList.map (keyed index.attributes)).filter
            (fun entry => !later.any (·.concerns entry.1)) ++
          (standing later).map (keyed index.attributes) =
          (standing (call :: later)).map (keyed index.attributes) := by
        rw [standing, List.map_append, Option.toList_filter, List.filter_map]
        rfl
      rw [entries', entries, List.filter_append, List.filter_filter, List.append_assoc,
        attributes_of_shape shape, arrived]
      congr 2
      funext entry
      rw [List.any_cons, Bool.not_or, Bool.and_comm]

/-- An index over attributes that holds the standing documents of a history and no other. -/
structure Reflects (index : Index) (attributes : List String) (calls : List Call) : Prop where
  inOrder : index.InOrder
  names : index.attributes = attributes
  entries : index.keyOf.entries = (standing calls).map (keyed attributes)

theorem performAll_reflects (inOrder : index.InOrder) (nothing : index.keyOf = Table.empty)
    (calls : List Call) :
    ∃ after, index.performAll calls = .ok after ∧ after.Reflects index.attributes calls ∧
      after.kind = index.kind := by
  obtain ⟨after, ran, inOrder', shape, entries⟩ := performAll_inOrder inOrder calls
  rw [nothing] at entries
  exact ⟨after, ran, ⟨inOrder', attributes_of_shape shape, entries⟩, congrArg Prod.fst shape⟩

/-- The entries of a table with distinct keys are as many as the keys that have a value. -/
theorem size_eq_ncard {table : Table Key (List DocId)} (nodup : table.keys.Nodup) :
    table.size = Set.ncard {key | table.get? key ≠ none} := by
  have keys : {key | table.get? key ≠ none} = (table.keys.toFinset : Set Key) := by
    ext key
    rw [List.coe_toFinset, Set.mem_ofPred_eq, Set.mem_ofPred_eq, ← Table.contains_iff,
      Table.contains, Option.isSome_iff_ne_none]
  rw [keys, Set.ncard_coe_finset, List.toFinset_card_of_nodup nodup, Table.keys, List.length_map]
  rfl

namespace Reflects

variable {attributes : List String} {calls : List Call}

theorem keysOf (reflects : index.Reflects attributes calls) (key : Key) :
    index.keyOf.keysOf key = standingUnder attributes key calls := by
  rw [Table.keysOf, reflects.entries, standingUnder, List.filter_map, List.map_map]
  rfl

theorem search (reflects : index.Reflects attributes calls) (key : Key) :
    ∃ after, index.search key = .ok (standingUnder attributes key calls, after) := by
  obtain ⟨after, ran, -⟩ := search_inOrder reflects.inOrder key
  exact ⟨after, reflects.keysOf key ▸ ran⟩

theorem nodup (reflects : index.Reflects attributes calls) :
    ((standing calls).map Prod.fst).Nodup := by
  have nodup : index.keyOf.keys.Nodup := by
    cases index with
    | ordered index =>
        obtain ⟨entries, -, queued⟩ := reflects.inOrder
        exact queued.nodup
    | hashed index => exact reflects.inOrder.2.nodup
  rwa [Table.keys, reflects.entries, List.map_map] at nodup

theorem size (reflects : index.Reflects attributes calls) :
    index.size = (standing calls).length := by
  have length := congrArg List.length reflects.entries
  rw [List.length_map] at length
  cases index with
  | ordered index => exact length
  | hashed index => exact length

/-- There is a bucket for each key that a standing document has. -/
theorem distinctKeys (reflects : index.Reflects attributes calls) :
    index.distinctKeys = Set.ncard {key | standingUnder attributes key calls ≠ []} := by
  have filled : ∀ {bucket : Key → Option (List DocId)} {key : Key},
      Queued bucket index.keyOf →
      (bucket key ≠ none ↔ standingUnder attributes key calls ≠ []) := by
    intro bucket key queued
    rw [← reflects.keysOf, ← queued.inOrder]
    cases found : bucket key with
    | none => simp
    | some ids => simpa using (queued.full key ids found).1
  have same := reflects.inOrder
  cases index with
  | ordered index =>
      obtain ⟨entries, ⟨span, tree, rfl⟩, queued⟩ := same
      rw [show (Index.ordered index).distinctKeys = index.tree.size from rfl, tree.size,
        PageTree.length_eq_ncard tree.sorted fun key => rfl]
      exact congrArg Set.ncard (Set.ext fun key => filled queued)
  | hashed index =>
      rw [show (Index.hashed index).distinctKeys = index.buckets.size from rfl,
        size_eq_ncard same.1]
      exact congrArg Set.ncard (Set.ext fun key => filled same.2)

end Reflects

/-- After any history an ordered and a hashed index hold the same: every lookup gives the documents
whose latest call filed them with that key, each once and in the order of these calls. What they
were filed with before does not matter. -/
theorem histories_file_alike (attributes : List String) (order threshold : Nat) (three : 3 ≤ order)
    (positive : 1 ≤ threshold) (half : threshold ≤ order / 2) (capacity : Nat)
    (calls : List Call) :
    (capacity ≤ Recent.maxCapacity → OrderedIndex.create attributes order threshold capacity =
      .ok (OrderedIndex.fresh attributes order threshold capacity)) ∧
    ((standing calls).map Prod.fst).Nodup ∧
    (∀ key, (standingUnder attributes key calls).Nodup) ∧
    (∀ earlier call call' later id doc doc', calls = earlier ++ call :: later →
      call.filed? = some (id, doc) → call'.filed? = some (id, doc') →
      later.any (·.concerns id) = true → standing (earlier ++ call' :: later) = standing calls) ∧
    ∃ ordered hashed,
      performAll (.ordered (OrderedIndex.fresh attributes order threshold capacity)) calls =
        .ok ordered ∧
      performAll (.hashed (HashedIndex.create attributes)) calls = .ok hashed ∧
      ∀ index, index = ordered ∨ index = hashed →
        (∀ key, ∃ after, index.search key = .ok (standingUnder attributes key calls, after)) ∧
        index.size = (standing calls).length ∧
        index.distinctKeys = Set.ncard {key | standingUnder attributes key calls ≠ []} := by
  obtain ⟨ordered, ran, reflects, -⟩ :=
    performAll_reflects (OrderedIndex.inOrder_fresh three positive half attributes capacity) rfl
    calls
  obtain ⟨hashed, ran', reflects', -⟩ :=
    performAll_reflects (HashedIndex.inOrder_create attributes) rfl calls
  have nodup := reflects'.nodup
  refine ⟨fun room => OrderedIndex.create_eq_fresh three positive half room attributes, nodup,
    fun key => nodup.sublist (List.filter_sublist.map Prod.fst), ?_, ordered, hashed, ran, ran', ?_⟩
  · rintro earlier call call' later id doc doc' rfl filed filed' again
    exact standing_superseded filed filed' again earlier
  · rintro index (rfl | rfl)
    · exact ⟨reflects.search, reflects.size, reflects.distinctKeys⟩
    · exact ⟨reflects'.search, reflects'.size, reflects'.distinctKeys⟩

/-- A document that is filed again under its key goes behind the others, and one that is removed
goes. -/
theorem three_documents_filed_alike :
    let one := Json.object [("a", .number .zero)]
    let calls : List Call := [.insert 1 one, .insert 2 one, .search (.number .zero), .insert 3 one,
      .reindex 1 one, .remove 2]
    standingUnder ["a"] (.number .zero) calls = [3, 1] ∧
    ∃ ordered hashed,
      performAll (.ordered (OrderedIndex.fresh ["a"] 3 1 0)) calls = .ok ordered ∧
      performAll (.hashed (HashedIndex.create ["a"])) calls = .ok hashed ∧
      ∀ index, index = ordered ∨ index = hashed →
        (∃ after, index.search (.number .zero) = .ok ([3, 1], after)) ∧ index.size = 2 := by
  intro one calls
  have stand : standingUnder ["a"] (.number .zero) calls = [3, 1] := by decide +kernel
  obtain ⟨-, -, -, -, ordered, hashed, ran, ran', each⟩ :=
    histories_file_alike ["a"] 3 1 (by decide) (by decide) (by decide) 0 calls
  refine ⟨stand, ordered, hashed, ran, ran', fun index which => ?_⟩
  obtain ⟨search, size, -⟩ := each index which
  exact ⟨stand ▸ search (.number .zero), size⟩

end Index

end Docstore
