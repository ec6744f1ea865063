import Docstore.Proofs.Collection.Changes

set_option autoImplicit false

namespace Docstore

namespace Index

/-- No attribute has an underscore, which joins attributes in a name. -/
def Separable (attributes : List String) : Prop :=
  ∀ attr ∈ attributes, '_' ∉ attr.toList

instance (attributes : List String) : Decidable (Separable attributes) :=
  inferInstanceAs (Decidable (∀ attr ∈ attributes, '_' ∉ attr.toList))

theorem splitOn_nameOf {attributes : List String} (given : attributes ≠ [])
    (plain : Separable attributes) :
    (nameOf attributes).toList.splitOn '_' = attributes.map String.toList := by
  rw [nameOf, String.toList_intercalate, show "_".toList = ['_'] from rfl]
  apply List.splitOn_intercalate
  · intro chars there
    obtain ⟨attr, member, rfl⟩ := List.mem_map.1 there
    exact plain attr member
  · simpa using given

theorem nameOf_injective {first second : List String} (given : first ≠ []) (given' : second ≠ [])
    (plain : Separable first) (plain' : Separable second) (same : nameOf first = nameOf second) :
    first = second := by
  have parts : first.map String.toList = second.map String.toList := by
    rw [← splitOn_nameOf given plain, ← splitOn_nameOf given' plain', same]
  exact List.map_injective_iff.2 (fun _ _ => String.toList_inj.1) parts

end Index

namespace Collection

variable {collection after : Collection} {attributes : List String} {kind : IndexKind}

/-- The indices have attributes, and each has a name of its own. -/
structure Named (collection : Collection) : Prop where
  given : ∀ shape ∈ collection.shapes, shape.2 ≠ []
  distinct : (collection.shapes.map fun shape => Index.nameOf shape.2).Nodup

theorem Named.change (change : Change collection after) (named : collection.Named) :
    after.Named := by
  cases change with
  | stored _ _ _ _ shapes => exact ⟨shapes ▸ named.given, shapes ▸ named.distinct⟩
  | dropped _ _ _ shapes => exact ⟨shapes ▸ named.given, shapes ▸ named.distinct⟩
  | kept _ _ shapes => exact ⟨shapes ▸ named.given, shapes ▸ named.distinct⟩
  | registered attributes kind given free _ _ shapes =>
      constructor
      · rw [shapes, List.forall_mem_append, List.forall_mem_singleton]
        exact ⟨named.given, given⟩
      · rw [shapes, List.map_append]
        refine named.distinct.append (List.nodup_singleton _) ?_
        intro name there here
        obtain ⟨shape, member, rfl⟩ := List.mem_map.1 there
        exact free shape member (List.mem_singleton.1 here)

theorem performAll_named {config : Config} {name : String} {start : Collection}
    (valid : config.validate = .ok ()) (created : Collection.create name config = .ok start)
    (calls : List Call) : (start.performAll calls).Named := by
  have sound := sound_create valid created
  have bare : start.shapes = [] := by rw [(create_spec created).1]; rfl
  have initial : start.Named := by
    constructor <;> simp [bare]
  exact (changes_performAll sound calls).invariant (fun _ _ => Named.change) initial

theorem Named.unique (named : collection.Named) {first second : Index}
    (there : first ∈ collection.store.indices) (there' : second ∈ collection.store.indices)
    (same : first.name = second.name) : first = second := by
  have distinct : (collection.store.indices.map Index.name).Nodup := by
    have names := named.distinct
    rw [shapes, List.map_map] at names
    convert names using 2
    exact funext Index.name_eq
  exact List.inj_on_of_nodup_map distinct there there' same

theorem index?_eq_some {name : String} {index : Index}
    (found : collection.index? name = some index) :
    index ∈ collection.store.indices ∧ index.name = name :=
  ⟨List.mem_of_find?_eq_some found, by simpa using List.find?_some found⟩

/-- An index over just these attributes and of this kind holds the documents, each under its key. -/
def Has (collection : Collection) (documents : Table DocId Json) (attributes : List String)
    (kind : IndexKind) : Prop :=
  ∃ index ∈ collection.store.indices, index.attributes = attributes ∧ index.kind = kind ∧
    ∃ buckets, index.buckets = .ok buckets ∧ index.Agrees documents buckets

/-- Who asks for an index gets it: where that succeeds the index is there with all documents, and it
is refused as one that exists only where it is there in the other kind. -/
def Registers (collection : Collection) (attributes : List String) (kind : IndexKind) : Prop :=
  (∀ name after, collection.ensureIndex attributes kind = (.ok name, after) →
    after.store.documents = collection.store.documents ∧
      after.Has collection.store.documents attributes kind) ∧
  ∀ owner name, (collection.ensureIndex attributes kind).1 = .error (.indexExists owner name) →
    ∃ index ∈ collection.store.indices, index.attributes = attributes ∧ index.kind ≠ kind

/-- Another list of attributes makes the same name, and an index over it is registered. -/
def Clashes (collection : Collection) (attributes : List String) : Prop :=
  ∃ index ∈ collection.store.indices,
    index.name = Index.nameOf attributes ∧ index.attributes ≠ attributes

/-- An index of the name is taken for the one that is asked for, if it has its kind. -/
theorem ensureIndex_named (kind : IndexKind) (given : attributes ≠ []) {present : Index}
    (named : collection.index? (Index.nameOf attributes) = some present) :
    collection.ensureIndex attributes kind =
      if present.kind = kind then (.ok (Index.nameOf attributes), collection)
      else (.error (.indexExists collection.store.name (Index.nameOf attributes)), collection) := by
  have listed : attributes.isEmpty = false := by simpa using given
  simp only [ensureIndex, listed, named, Bool.false_eq_true, if_false]

theorem Sound.has (sound : collection.Sound) {index : Index}
    (there : index ∈ collection.store.indices) :
    collection.Has collection.store.documents index.attributes index.kind :=
  ⟨index, there, rfl, rfl, (sound.store.filed index there).agrees⟩

/-- An index is taken for another only if their names clash. -/
theorem registers_of_not_clashes (sound : collection.Sound) (given : attributes ≠ [])
    (plain : ¬ collection.Clashes attributes) : collection.Registers attributes kind := by
  cases named : collection.index? (Index.nameOf attributes) with
  | some present =>
      obtain ⟨there, name⟩ := index?_eq_some named
      have same : present.attributes = attributes := by
        by_contra other
        exact plain ⟨present, there, name, other⟩
      have ensured := ensureIndex_named kind given named
      by_cases alike : present.kind = kind
      · rw [if_pos alike] at ensured
        refine ⟨fun name after ran => ?_, fun owner name failed => ?_⟩
        · obtain rfl := congrArg Prod.snd (ensured.symm.trans ran)
          exact ⟨rfl, same ▸ alike ▸ sound.has there⟩
        · rw [ensured] at failed
          cases failed
      · rw [if_neg alike] at ensured
        refine ⟨fun name after ran => ?_, fun owner name failed => ⟨present, there, same, alike⟩⟩
        rw [ensured] at ran
        cases ran
  | none =>
      obtain ⟨-, -, refused⟩ | ⟨index, shape, files, ensured⟩ :=
        ensureIndex_new sound given kind named
      · refine ⟨fun name after ran => ?_, fun owner name failed => ?_⟩
        · rw [refused] at ran
          cases ran
        · rw [refused] at failed
          cases failed
      · refine ⟨fun name after ran => ?_, fun owner name failed => ?_⟩
        · obtain rfl := congrArg Prod.snd (ensured.symm.trans ran)
          obtain ⟨same, same'⟩ := Prod.mk.inj shape
          exact ⟨rfl, index, List.mem_append_right _ List.mem_cons_self, same', same, files.agrees⟩
        · rw [ensured] at failed
          cases failed

/-- Where names clash the index that came first stands for the other, whatever its kind. -/
theorem not_registers_of_clashes (named : collection.Named) (given : attributes ≠ [])
    (clashes : collection.Clashes attributes) : ¬ collection.Registers attributes kind := by
  obtain ⟨first, there, name, other⟩ := clashes
  -- No index over the attributes can be there beside the one of the same name.
  have absent : ∀ index ∈ collection.store.indices, index.attributes ≠ attributes := by
    intro index member same
    have alike : index.name = first.name := by rw [index.name_eq, same, name]
    exact other (named.unique member there alike ▸ same)
  rintro ⟨succeeds, refuses⟩
  cases found : collection.index? (Index.nameOf attributes) with
  | none =>
      have missing := List.find?_eq_none.1 found first there
      exact missing (beq_iff_eq.2 name)
  | some present =>
      have ensured := ensureIndex_named kind given found
      by_cases alike : present.kind = kind
      · rw [if_pos alike] at ensured
        obtain ⟨-, index, member, same, -⟩ := succeeds _ _ ensured
        exact absent index member same
      · rw [if_neg alike] at ensured
        obtain ⟨index, member, same, -⟩ := refuses _ _ (congrArg Prod.fst ensured)
        exact absent index member same

/-- After any calls, an index that is asked for is registered with all documents, and refused as one
that exists only where it is there in the other kind, exactly if no index over other attributes goes
by the name. Then it fails otherwise only for want of room. Attributes without underscores never
clash. -/
theorem registers_unless_name_clashes {config : Config} {name : String} {start : Collection}
    (valid : config.validate = .ok ()) (created : Collection.create name config = .ok start)
    (calls : List Call) {attributes : List String} (given : attributes ≠ []) (kind : IndexKind) :
    let collection := start.performAll calls
    (collection.Registers attributes kind ↔ ¬ collection.Clashes attributes) ∧
    (¬ collection.Clashes attributes →
      (∃ after, collection.ensureIndex attributes kind = (.ok (Index.nameOf attributes), after)) ∨
      (∃ index ∈ collection.store.indices, index.attributes = attributes ∧ index.kind ≠ kind) ∨
      kind = .tree ∧ Recent.maxCapacity < collection.config.lookupCapacity) ∧
    (Index.Separable attributes →
      (∀ index ∈ collection.store.indices, Index.Separable index.attributes) →
      ¬ collection.Clashes attributes) := by
  intro collection
  have sound : collection.Sound := performAll_sound (sound_create valid created) calls
  have named : collection.Named := performAll_named valid created calls
  refine ⟨⟨fun registers clashes => not_registers_of_clashes named given clashes registers,
    registers_of_not_clashes sound given⟩, fun plain => ?_, fun simple simple' => ?_⟩
  · obtain ⟨nothing, -⟩ | ⟨present, found, other, -⟩ | ⟨tree, large, -⟩ | ⟨after, ran, -⟩ :=
      ensureIndex_spec sound attributes kind
    · exact absurd nothing given
    · obtain ⟨there, name⟩ := index?_eq_some found
      have same : present.attributes = attributes := by
        by_contra differs
        exact plain ⟨present, there, name, differs⟩
      exact .inr (.inl ⟨present, there, same, other⟩)
    · exact .inr (.inr ⟨tree, large⟩)
    · exact .inl ⟨after, ran⟩
  · rintro ⟨index, there, name, other⟩
    rw [index.name_eq] at name
    have given' : index.attributes ≠ [] := named.given _ (List.mem_map_of_mem there)
    exact other (Index.nameOf_injective given' given (simple' index there) simple name)

/-- An index over towns is registered beside one over names, and it has the document that came
before it. -/
theorem towns_registered :
    let calls : List Call := [.insert (.object [("town", .string "bath")]),
      .ensureIndex ["name"] .tree]
    ∃ start after : Collection, Collection.create "people" Config.default = .ok start ∧
      ["town"] ≠ [] ∧ (start.performAll calls).size = 1 ∧
      (start.performAll calls).ensureIndex ["town"] .hash = (.ok "town", after) ∧
      after.Has (start.performAll calls).store.documents ["town"] .hash := by
  intro calls
  let start : Collection :=
    ⟨Store.empty "people", Config.default, 1, some ⟨Recent.empty 256, 0, 0⟩⟩
  have created : Collection.create "people" Config.default = .ok start := rfl
  have given : ["town"] ≠ [] := List.cons_ne_nil _ _
  obtain ⟨registers, outcomes, plain⟩ :=
    registers_unless_name_clashes (by rfl) created calls given .hash
  have names : (start.performAll calls).store.indices.map Index.attributes = [["name"]] := by
    decide +kernel
  have attributes : ∀ index ∈ (start.performAll calls).store.indices,
      index.attributes = ["name"] := by
    intro index there
    have member := List.mem_map_of_mem (f := Index.attributes) there
    rwa [names, List.mem_singleton] at member
  have free := plain (by decide) fun index there => by
    rw [attributes index there]
    decide
  obtain ⟨after, ran⟩ | ⟨index, there, town, -⟩ | ⟨tree, -⟩ := outcomes free
  · exact ⟨start, after, created, given, by decide +kernel, ran,
      ((registers.2 free).1 _ _ ran).2⟩
  · rw [attributes index there] at town
    exact absurd town (by decide)
  · cases tree

/-- The attributes `a` and `b` make the name of the attribute `a_b`. Where an index over this one is
registered, an index over those is taken for it: the answer is the name, but none is registered, and
in the other kind it is refused. -/
theorem joined_names_clash : ∃ start : Collection,
    Collection.create "people" Config.default = .ok start ∧
    let collection := start.performAll [.ensureIndex ["a_b"] .tree]
    collection.store.indices.map Index.shape = [(.tree, ["a_b"])] ∧
    (∃ after, collection.ensureIndex ["a", "b"] .tree = (.ok "a_b", after) ∧
      after.store.indices.map Index.shape = [(.tree, ["a_b"])]) ∧
    (collection.ensureIndex ["a", "b"] .hash).1 = .error (.indexExists "people" "a_b") ∧
    ¬ collection.Registers ["a", "b"] .tree ∧ ¬ collection.Registers ["a", "b"] .hash := by
  let start : Collection :=
    ⟨Store.empty "people", Config.default, 1, some ⟨Recent.empty 256, 0, 0⟩⟩
  have created : Collection.create "people" Config.default = .ok start := rfl
  have named := performAll_named (by rfl) created [.ensureIndex ["a_b"] .tree]
  have given : ["a", "b"] ≠ [] := List.cons_ne_nil _ _
  have one : (start.performAll [.ensureIndex ["a_b"] .tree]).shapes = [(.tree, ["a_b"])] := by
    decide +kernel
  have clashes : (start.performAll [.ensureIndex ["a_b"] .tree]).Clashes ["a", "b"] := by
    obtain ⟨index, there, shape⟩ := List.mem_map.1 (one ▸ List.mem_singleton_self _)
    have attributes : index.attributes = ["a_b"] := (Prod.mk.inj shape).2
    refine ⟨index, there, ?_, ?_⟩
    · rw [index.name_eq, attributes]
      decide
    · rw [attributes]
      decide
  exact ⟨start, created, one, ⟨_, by cbv, one⟩, by cbv,
    not_registers_of_clashes named given clashes, not_registers_of_clashes named given clashes⟩

end Collection
end Docstore
