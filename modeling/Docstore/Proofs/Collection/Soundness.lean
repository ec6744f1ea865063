import Docstore.Collection.Requests
import Docstore.Proofs.Machine.Editing
import Docstore.Proofs.Program.Cache

set_option autoImplicit false

namespace Docstore

namespace Collection

/-- The indices agree with the documents, the next identity is free, and the programs kept can
follow a query. -/
structure Sound (collection : Collection) : Prop where
  valid : collection.config.validate = .ok ()
  store : collection.store.Sound none
  bounded : collection.nextId = 0xFFFFFFFFFFFFFFFF ∨
    ∀ id ∈ collection.ids, id < collection.nextId
  programs : ∀ cache, collection.programs = some cache →
    cache.Keeps fun _ program => Machine.Proper program

/-- Two collections of one name with indices of the same shapes, which keep the same programs. -/
structure SameSchema (after before : Collection) : Prop where
  name : after.store.name = before.store.name
  shapes : after.store.indices.map Index.shape = before.store.indices.map Index.shape
  programs : after.programs = before.programs

theorem SameSchema.refl (collection : Collection) : SameSchema collection collection :=
  ⟨rfl, rfl, rfl⟩

variable {collection after : Collection} {name : String} {config : Config}

theorem create_spec (created : Collection.create name config = .ok collection) :
    collection = ⟨Store.empty name, config, 1, collection.programs⟩ ∧
      ∀ cache, collection.programs = some cache →
        ∀ digest, cache.programs.find? digest = none := by
  unfold Collection.create ProgramCache.create Recent.create? at created
  by_cases keeps : config.cachePrograms = true
  · by_cases room : max config.programCapacity 1 ≤ Recent.maxCapacity
    · simp only [if_pos keeps, if_pos room, Except.map, ok_bind, pure_eq_ok,
        Except.ok.injEq] at created
      subst created
      refine ⟨rfl, fun cache kept digest => ?_⟩
      obtain rfl := Option.some.inj kept
      rfl
    · simp only [if_pos keeps, if_neg room, Except.map, error_bind, reduceCtorEq] at created
  · simp only [if_neg keeps, ok_bind, pure_eq_ok, Except.ok.injEq] at created
    subst created
    exact ⟨rfl, fun _ kept => by cases kept⟩

theorem sound_create (valid : config.validate = .ok ())
    (created : Collection.create name config = .ok collection) : collection.Sound := by
  obtain ⟨fresh, bare⟩ := create_spec created
  refine ⟨?_, ?_, ?_, fun cache kept digest program found => ?_⟩
  · rw [fresh]
    exact valid
  · rw [fresh]
    exact .empty name
  · rw [fresh]
    exact .inr fun _ there => by cases there
  · rw [bare cache kept] at found
    cases found

theorem Number.unsigned?_ofWord (word : UInt64) :
    (Number.ofWord word).unsigned? = some word.toNat := by
  simp [Number.ofWord, Number.unsigned?]

/-- A document that is to be stored states its identity. -/
theorem identified_of_identify {doc : Json} {id : DocId} {members : Members}
    (identified : collection.identify doc = .ok (id, members)) :
    Json.Identified (.object members) id := by
  unfold identify at identified
  cases doc with
  | object given =>
      cases found : Members.get? Mutation.identity given with
      | none =>
          simp only [found, Except.ok.injEq, Prod.mk.injEq] at identified
          obtain ⟨rfl, rfl⟩ := identified
          refine ⟨_, Number.ofWord collection.nextId, rfl, ?_, Number.unsigned?_ofWord _⟩
          rw [Members.get?_put, if_pos rfl]
      | some value =>
          cases value with
          | number n =>
              cases count : n.unsigned? with
              | none => simp [found, Json.unsigned?, Json.number?, count] at identified
              | some k =>
                  simp only [found, Json.unsigned?, Json.number?, Option.bind_some, count,
                    Except.ok.injEq, Prod.mk.injEq] at identified
                  obtain ⟨rfl, rfl⟩ := identified
                  refine ⟨given, n, rfl, found, ?_⟩
                  have small : k < 2 ^ 64 := by
                    cases n with
                    | int value lower upper =>
                        simp only [Number.unsigned?] at count
                        split at count
                        · obtain rfl := Option.some.inj count
                          omega
                        · cases count
                    | float value finite => cases count
                  rw [count, UInt64.toNat_ofNat_of_lt' small]
          | _ => simp [found, Json.unsigned?, Json.number?] at identified
  | _ => cases identified

theorem lt_successor {id : DocId} (inner : id ≠ 0xFFFFFFFFFFFFFFFF) : id < successor id := by
  rw [successor, if_neg inner, UInt64.lt_iff_toNat_lt, UInt64.toNat_add]
  have below := id.toNat_lt
  have last : id.toNat ≠ 2 ^ 64 - 1 := fun same => inner (UInt64.toNat_inj.1 same)
  have one : (1 : UInt64).toNat = 1 := rfl
  omega

theorem max_eq (a b : DocId) : max a b = if a ≤ b then b else a := rfl

/-- The next identity stays beyond every identity in use, unless there is none beyond. -/
theorem bounded_insert (id : DocId) {ids : List DocId}
    (bounded : collection.nextId = 0xFFFFFFFFFFFFFFFF ∨
      ∀ id ∈ collection.ids, id < collection.nextId)
    (either : ∀ other ∈ ids, other ∈ collection.ids ∨ other = id) :
    max collection.nextId (successor id) = 0xFFFFFFFFFFFFFFFF ∨
      ∀ other ∈ ids, other < max collection.nextId (successor id) := by
  have top := fun word : UInt64 => word.toNat_lt
  have last : (0xFFFFFFFFFFFFFFFF : UInt64).toNat = 2 ^ 64 - 1 := rfl
  rw [max_eq]
  by_cases full : collection.nextId = 0xFFFFFFFFFFFFFFFF
  · left
    split
    · rename_i below
      rw [full, UInt64.le_iff_toNat_le] at below
      have := top (successor id)
      exact UInt64.toNat_inj.1 (by omega)
    · exact full
  · have lower := bounded.resolve_left full
    by_cases extreme : id = 0xFFFFFFFFFFFFFFFF
    · left
      rw [extreme, show successor 0xFFFFFFFFFFFFFFFF = 0xFFFFFFFFFFFFFFFF from rfl, if_pos]
      rw [UInt64.le_iff_toNat_le]
      have := top collection.nextId
      omega
    · right
      intro other there
      have above := lt_successor extreme
      rw [UInt64.lt_iff_toNat_lt] at above ⊢
      have before : other.toNat < collection.nextId.toNat ∨ other = id :=
        (either other there).imp_left fun stored =>
          UInt64.lt_iff_toNat_lt.1 (lower other stored)
      split
      · rename_i below
        rw [UInt64.le_iff_toNat_le] at below
        obtain before | rfl := before
        · omega
        · exact above
      · rename_i below
        rw [UInt64.le_iff_toNat_le] at below
        obtain before | rfl := before
        · exact before
        · omega

/-- A document is refused, or it is stored under an identity that was free. -/
theorem insert_spec (sound : collection.Sound) (doc : Json) :
    (∃ fault, collection.identify doc = .error fault ∧
      collection.insert doc = (.error (.invalidDocument fault), collection)) ∨
    (∃ id members, collection.identify doc = .ok (id, members) ∧ id ∈ collection.ids ∧
      collection.insert doc = (.error (.invalidDocument (.duplicateIdentity id)), collection)) ∨
    ∃ id members after, collection.identify doc = .ok (id, members) ∧ id ∉ collection.ids ∧
      collection.insert doc = (.ok id, after) ∧ after.Sound ∧ after.SameSchema collection ∧
      after.store.documents = collection.store.documents.put id (.object members) ∧
      after.ids = collection.ids ++ [id] := by
  cases identified : collection.identify doc with
  | error fault => exact .inl ⟨fault, rfl, by simp only [insert, identified]⟩
  | ok stated =>
      obtain ⟨id, members⟩ := stated
      by_cases taken : id ∈ collection.ids
      · have contained := sound.store.contains_iff.2 taken
        exact .inr (.inl ⟨id, members, rfl, taken,
          by simp only [insert, identified, contained, if_true]⟩)
      · have free : ¬ collection.store.documents.contains id = true :=
          fun there => taken (sound.store.contains_iff.1 there)
        obtain ⟨store, stored, sound', documents, order, name, shapes⟩ :=
          sound.store.insert taken (identified_of_identify identified)
        refine .inr (.inr ⟨id, members, { collection with
          store, nextId := max collection.nextId (successor id) }, rfl, taken, ?_,
          ⟨sound.valid, sound', ?_, sound.programs⟩, ⟨name, shapes, rfl⟩, documents, order⟩)
        · simp only [insert, identified, if_neg free, stored]
        · refine bounded_insert id sound.bounded fun other there => ?_
          rw [ids, order] at there
          exact (List.mem_append.1 there).imp_right List.mem_singleton.1

theorem insertMany_sound (sound : collection.Sound) (docs : List Json) :
    (collection.insertMany docs).2.Sound := by
  induction docs generalizing collection with
  | nil => exact sound
  | cons doc rest ih =>
      obtain ⟨fault, -, ran⟩ | ⟨id, members, -, -, ran⟩ |
          ⟨id, members, after, -, -, ran, sound', -⟩ := insert_spec sound doc
      · simp only [insertMany, ran]
        exact sound
      · simp only [insertMany, ran]
        exact sound
      · simp only [insertMany, ran]
        exact ih sound'

/-- Only a document that is not there cannot be removed. -/
theorem remove_spec (sound : collection.Sound) (id : DocId) :
    (id ∉ collection.ids ∧
      collection.remove id = (.error (.documentNotFound id), collection)) ∨
    ∃ doc after, collection.get? id = some doc ∧ collection.remove id = (.ok doc, after) ∧
      after.Sound ∧ after.SameSchema collection ∧
      after.store.documents = collection.store.documents.erase id ∧
      after.ids = collection.ids.filter (· ≠ id) := by
  cases found : collection.store.document? id with
  | none =>
      refine .inl ⟨fun there => ?_, by simp only [remove, Store.Sound.remove_absent found]⟩
      obtain ⟨doc, stored⟩ := (sound.store.listed id).1 there
      rw [stored] at found
      cases found
  | some doc =>
      obtain ⟨store, removed, sound', documents, order, name, shapes⟩ := sound.store.remove found
      refine .inr ⟨doc, { collection with store }, found, by simp only [remove, removed],
        ⟨sound.valid, sound', ?_, sound.programs⟩, ⟨name, shapes, rfl⟩, documents, order⟩
      refine sound.bounded.imp_right fun lower other there => lower other ?_
      rw [ids, order] at there
      exact List.mem_of_mem_filter there

theorem removeAll_sound (sound : collection.Sound) (ids : List DocId) :
    (collection.removeAll ids).2.Sound := by
  induction ids generalizing collection with
  | nil => exact sound
  | cons id rest ih =>
      obtain ⟨-, ran⟩ | ⟨doc, after, -, ran, sound', -⟩ := remove_spec sound id
      · simp only [removeAll, ran]
        exact sound
      · simp only [removeAll, ran]
        exact ih sound'

/-- A validated configuration fits a tree unless its lookups need too much room. -/
theorem emptyIndex_spec (valid : config.validate = .ok ()) (attributes : List String)
    (kind : IndexKind) :
    (kind = .tree ∧ Recent.maxCapacity < config.lookupCapacity ∧
      emptyIndex config attributes kind = .error (.noRoom config.lookupCapacity)) ∨
    ∃ index, emptyIndex config attributes kind = .ok index ∧ index.Sound ∧
      index.shape = (kind, attributes) ∧ index.keyOf = Table.empty := by
  cases kind with
  | hash =>
      exact .inr ⟨_, rfl, HashedIndex.sound_create attributes, rfl, rfl⟩
  | tree =>
      cases made : OrderedIndex.create attributes config.treeOrder config.effectiveThreshold
          config.lookupCapacity with
      | ok index =>
          obtain ⟨sound, same, keys⟩ := OrderedIndex.sound_create made
          exact .inr ⟨.ordered index, by simp only [emptyIndex, made]; rfl, sound,
            congrArg (Prod.mk _) same, keys⟩
      | error error =>
          unfold Config.validate at valid
          by_cases few : config.treeOrder < 3
          · simp [few] at valid
          · by_cases range : config.effectiveThreshold = 0 ∨
                config.treeOrder / 2 < config.effectiveThreshold
            · simp [few, range] at valid
            · by_cases room : config.lookupCapacity ≤ Recent.maxCapacity
              · simp [OrderedIndex.create, PageTree.create, Recent.create?, few, range,
                  room] at made
              · refine .inl ⟨rfl, by omega, ?_⟩
                simp [emptyIndex, OrderedIndex.create, PageTree.create, Recent.create?, few, range,
                  room, Except.map]

/-- Filing more documents in an index fails nowhere. -/
theorem fill_spec {index : Index} {filed : List (DocId × Json)}
    (files : index.Files ⟨filed⟩ none) (entries : List (DocId × Json))
    (nodup : (Table.keys ⟨filed ++ entries⟩).Nodup) :
    ∃ after, entries.foldlM (fun index entry => index.insert entry.1 entry.2) index = .ok after ∧
      after.Files ⟨filed ++ entries⟩ none ∧ after.shape = index.shape := by
  induction entries generalizing index filed with
  | nil => exact ⟨index, rfl, by rwa [List.append_nil], rfl⟩
  | cons entry rest ih =>
      obtain ⟨id, doc⟩ := entry
      obtain ⟨between, ran, files', shape⟩ := files.insert id doc
      have absent : id ∉ Table.keys ⟨filed⟩ := by
        rw [Table.keys, List.map_append, List.map_cons] at nodup
        exact fun there => List.disjoint_of_nodup_append nodup there List.mem_cons_self
      rw [Table.put_of_not_mem absent] at files'
      obtain ⟨after, ran', files'', shape'⟩ :=
        ih files' (by rwa [List.append_assoc, List.singleton_append])
      refine ⟨after, ?_, ?_, shape'.trans shape⟩
      · rw [List.foldlM_cons, ran, ok_bind, ran']
      · rwa [List.append_assoc, List.singleton_append] at files''

theorem Index.files_empty {index : Index} (sound : index.Sound)
    (keys : index.keyOf = Table.empty) : index.Files ⟨[]⟩ none where
  sound := sound
  stored id := by
    rw [keys]
    rfl
  current id doc there := by cases there

/-- An index of a new name is refused for want of room, or it is registered behind the others with
all documents filed in it. -/
theorem ensureIndex_new (sound : collection.Sound) {attributes : List String}
    (given : attributes ≠ []) (kind : IndexKind)
    (fresh : collection.index? (Index.nameOf attributes) = none) :
    (kind = .tree ∧ Recent.maxCapacity < collection.config.lookupCapacity ∧
      collection.ensureIndex attributes kind =
        (.error (.noRoom collection.config.lookupCapacity), collection)) ∨
    ∃ index, index.shape = (kind, attributes) ∧ index.Files collection.store.documents none ∧
      collection.ensureIndex attributes kind = (.ok (Index.nameOf attributes), { collection with
        store := { collection.store with indices := collection.store.indices ++ [index] }
        programs := collection.programs.map ProgramCache.clear }) := by
  have listed : attributes.isEmpty = false := by simpa using given
  obtain ⟨tree, large, refused⟩ | ⟨index, made, sound', shape, keys⟩ :=
    emptyIndex_spec sound.valid attributes kind
  · refine .inl ⟨tree, large, ?_⟩
    have unbuilt : collection.buildIndex attributes kind =
        .error (.noRoom collection.config.lookupCapacity) := by
      rw [buildIndex, refused, error_bind]
    simp only [ensureIndex, listed, fresh, unbuilt, Bool.false_eq_true, if_false]
  · have nodup : (Table.keys ⟨[] ++ collection.store.entries⟩).Nodup := by
      rw [Table.keys, List.nil_append, sound.store.keys_entries]
      exact sound.store.nodup
    obtain ⟨filled, ran, files, shape'⟩ :=
      fill_spec (Index.files_empty sound' keys) collection.store.entries nodup
    have built : collection.buildIndex attributes kind = .ok filled := by
      rw [buildIndex, made, ok_bind, ran]
    refine .inr ⟨filled, shape'.trans shape,
      files.congr fun id => (sound.store.get?_entries id).symm, ?_⟩
    simp only [ensureIndex, listed, fresh, built, Bool.false_eq_true, if_false]

/-- An index is refused, or it is there already, or it is registered over all documents. -/
theorem ensureIndex_spec (sound : collection.Sound) (attributes : List String)
    (kind : IndexKind) :
    (attributes = [] ∧ collection.ensureIndex attributes kind =
      (.error (.invalidConfig .noAttributes), collection)) ∨
    (∃ present, collection.index? (Index.nameOf attributes) = some present ∧
      present.kind ≠ kind ∧ collection.ensureIndex attributes kind =
        (.error (.indexExists collection.store.name (Index.nameOf attributes)), collection)) ∨
    (kind = .tree ∧ Recent.maxCapacity < collection.config.lookupCapacity ∧
      collection.ensureIndex attributes kind =
        (.error (.noRoom collection.config.lookupCapacity), collection)) ∨
    ∃ after, collection.ensureIndex attributes kind = (.ok (Index.nameOf attributes), after) ∧
      after.Sound ∧ after.store.documents = collection.store.documents ∧
      after.ids = collection.ids ∧
      (after = collection ∨ ∀ cache, after.programs = some cache →
        ∀ digest, cache.programs.find? digest = none) := by
  by_cases given : attributes = []
  · exact .inl ⟨given, by simp [ensureIndex, given]⟩
  · cases named : collection.index? (Index.nameOf attributes) with
    | some present =>
        by_cases same : present.kind = kind
        · exact .inr (.inr (.inr ⟨collection,
            by simp [ensureIndex, given, named, same], sound, rfl, rfl, .inl rfl⟩))
        · exact .inr (.inl ⟨present, rfl, same, by simp [ensureIndex, given, named, same]⟩)
    | none =>
        obtain refused | ⟨index, -, files, ran⟩ := ensureIndex_new sound given kind named
        · exact .inr (.inr (.inl refused))
        · refine .inr (.inr (.inr ⟨_, ran, ⟨sound.valid,
            ⟨sound.store.nodup, sound.store.listed, sound.store.identified, ?_⟩, sound.bounded, ?_⟩,
            rfl, rfl, .inr ?_⟩))
          · intro other there
            obtain there | rfl := List.mem_append.1 there |>.imp_right List.mem_singleton.1
            · exact sound.store.filed other there
            · exact files
          · intro cache kept digest program found
            obtain ⟨before, -, rfl⟩ := Option.map_eq_some_iff.1 kept
            cases found
          · intro cache kept digest
            obtain ⟨before, -, rfl⟩ := Option.map_eq_some_iff.1 kept
            rfl

/-- The program for a request is kept, and nothing else changes. -/
theorem keep_spec (sound : collection.Sound) (request : Request)
    {program : Except Error Program} (proper : ∀ p, program = .ok p → Machine.Proper p) :
    (collection.keep request program).2.Sound ∧
      (collection.keep request program).2.store = collection.store ∧
      ∀ p, (collection.keep request program).1 = .ok p → Machine.Proper p := by
  cases kept : collection.programs with
  | none =>
      simp only [keep, kept]
      exact ⟨sound, trivial, proper⟩
  | some cache =>
      obtain ⟨keeps, answered, -⟩ :=
        ProgramCache.getOrInsert_spec (sound.programs cache kept) request.digest proper
      simp only [keep, kept]
      refine ⟨⟨sound.valid, sound.store, sound.bounded, fun other same => ?_⟩, trivial, answered⟩
      obtain rfl := Option.some.inj same
      exact keeps

theorem proper_compileQuery {predicate : Json} {conditions : Conditions} {program : Program}
    (compiled : collection.compileQuery predicate conditions = .ok program) :
    Machine.Proper program := by
  obtain ⟨parsed, -, rest⟩ := bind_eq_ok.1 compiled
  obtain ⟨query, -, done⟩ := bind_eq_ok.1 rest
  cases made : Program.ofQuery query conditions collection.store.name with
  | error fault => simp [made, Collection.compiled] at done
  | ok made' =>
      obtain rfl : made' = program := by simpa [made, Collection.compiled] using done
      exact .inl (Program.readOnly_ofQuery made)

theorem proper_ofMutation {request : Json} {program : Program}
    (done : compiled (Program.ofMutation request) = .ok program) : Machine.Proper program := by
  cases made : Program.ofMutation request with
  | error fault => simp [made, compiled] at done
  | ok made' =>
      obtain rfl : made' = program := by simpa [made, compiled] using done
      obtain ⟨mutations, -, rest⟩ := bind_eq_ok.1 made
      obtain ⟨_, -, same⟩ := bind_eq_ok.1 rest
      exact .inr ⟨mutations, (Except.ok.inj same).symm⟩

theorem plan_spec (sound : collection.Sound) (predicate : Json) (conditions : Conditions) :
    (collection.plan predicate conditions).2.Sound ∧
      (collection.plan predicate conditions).2.store = collection.store ∧
      ∀ p, (collection.plan predicate conditions).1 = .ok p → Machine.Proper p :=
  keep_spec sound _ fun _ => proper_compileQuery

theorem planMutation_spec (sound : collection.Sound) (mutation : Json) :
    (collection.planMutation mutation).2.Sound ∧
      (collection.planMutation mutation).2.store = collection.store ∧
      ∀ p, (collection.planMutation mutation).1 = .ok p → Machine.Proper p :=
  keep_spec sound _ fun _ => proper_ofMutation

/-- Running programs changes documents but no identities, nor their order. -/
theorem run_sound (sound : collection.Sound) (program : Program) {mutation : Option Program}
    (proper : ∀ p, mutation = some p → Machine.Proper p) (upsert : Bool) :
    (collection.run program mutation upsert).2.Sound ∧
      (collection.run program mutation upsert).2.SameSchema collection ∧
      (collection.run program mutation upsert).2.ids = collection.ids := by
  obtain ⟨store, outline⟩ := Machine.execute_sound
    (collection.budget (program.length + (mutation.getD []).length)) sound.store program proper
    upsert
  refine ⟨⟨sound.valid, store, sound.bounded.imp_right fun lower id there => lower id ?_,
    sound.programs⟩, ⟨outline.name, outline.shapes, rfl⟩, outline.order⟩
  rw [ids, ← outline.order]
  exact there

theorem findIds_sound (sound : collection.Sound) (predicate : Json) (conditions : Conditions) :
    (collection.findIds predicate conditions).2.Sound := by
  obtain ⟨planned, -, -⟩ := plan_spec sound predicate conditions
  unfold findIds
  cases made : collection.plan predicate conditions with
  | mk outcome between =>
      rw [made] at planned
      cases outcome with
      | error error => exact planned
      | ok program => exact (run_sound planned program (fun _ absent => by cases absent) false).1

theorem update_sound (sound : collection.Sound) (predicate mutation : Json) (upsert : Bool) :
    (collection.update predicate mutation upsert).2.Sound := by
  obtain ⟨planned, -, -⟩ := plan_spec sound predicate Conditions.none
  cases made : collection.plan predicate Conditions.none with
  | mk outcome between =>
      rw [made] at planned
      cases outcome with
      | error error =>
          simp only [update, made]
          exact planned
      | ok program =>
          obtain ⟨planned', -, proper⟩ := planMutation_spec planned mutation
          cases made' : between.planMutation mutation with
          | mk outcome' between' =>
              rw [made'] at planned' proper
              cases outcome' with
              | error error =>
                  simp only [update, made, made']
                  exact planned'
              | ok mutations =>
                  simp only [update, made, made']
                  refine (run_sound planned' program (fun p same => ?_) upsert).1
                  exact proper p (congrArg Except.ok (Option.some.inj same))

theorem delete_sound (sound : collection.Sound) (predicate : Json) :
    (collection.delete predicate).2.Sound := by
  have found := findIds_sound sound predicate Conditions.none
  unfold delete
  cases ran : collection.findIds predicate Conditions.none with
  | mk outcome between =>
      rw [ran] at found
      cases outcome with
      | error error => exact found
      | ok ids => exact removeAll_sound found ids

end Collection
end Docstore
