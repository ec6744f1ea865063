import Docstore.Proofs.Collection.Queries
import Docstore.Proofs.Machine.Alike

set_option autoImplicit false

namespace Docstore

namespace Collection

/-- What can be done with a collection. -/
inductive Action
  | insert (doc : Json)
  | insertMany (docs : List Json)
  | get (id : DocId)
  | remove (id : DocId)
  | ensureIndex (attributes : List String) (kind : IndexKind)
  | find (predicate : Json) (conditions : Conditions)
  | findIds (predicate : Json) (conditions : Conditions)
  | findOne (predicate : Json)
  | count (predicate : Json)
  | update (predicate mutation : Json) (upsert : Bool)
  | delete (predicate : Json)
  | explain (predicate : Json) (conditions : Conditions)
  | explainMutation (mutation : Json)

inductive Reply
  | id (id : DocId)
  | ids (ids : List DocId)
  | document (doc : Option Json)
  | documents (docs : List Json)
  | number (number : Nat)
  | text (text : String)

/-- The requests that an action makes, the last one first. -/
def Action.requests : Action → List Request
  | .find predicate conditions | .findIds predicate conditions | .explain predicate conditions =>
    [.query predicate conditions]
  | .findOne predicate => [.query predicate { Conditions.none with limit := some 1 }]
  | .count predicate | .delete predicate => [.query predicate Conditions.none]
  | .update predicate mutation _ => [.mutation mutation, .query predicate Conditions.none]
  | .explainMutation mutation => [.mutation mutation]
  | .insert _ | .insertMany _ | .get _ | .remove _ | .ensureIndex _ _ => []

/-- The values of an action are in order, as a reader of JSON gives them. -/
def Action.Ordered : Action → Prop
  | .insert doc => doc.Ordered
  | .insertMany docs => ∀ doc ∈ docs, doc.Ordered
  | .find predicate _ | .findIds predicate _ | .findOne predicate | .count predicate
  | .delete predicate | .explain predicate _ => predicate.Ordered
  | .update predicate mutation _ => predicate.Ordered ∧ mutation.Ordered
  | .explainMutation mutation => mutation.Ordered
  | .get _ | .remove _ | .ensureIndex _ _ => True

def replied {α : Type} (reply : α → Reply) (done : Except Error α × Collection) :
    Except Error Reply × Collection :=
  (done.1.map reply, done.2)

/-- The answer to an action, and the collection after it. -/
def act (collection : Collection) : Action → Except Error Reply × Collection
  | .insert doc => replied .id (collection.insert doc)
  | .insertMany docs => replied .ids (collection.insertMany docs)
  | .get id => (.ok (.document (collection.get? id)), collection)
  | .remove id => replied (fun doc => .document (some doc)) (collection.remove id)
  | .ensureIndex attributes kind => replied .text (collection.ensureIndex attributes kind)
  | .find predicate conditions => replied .documents (collection.find predicate conditions)
  | .findIds predicate conditions => replied .ids (collection.findIds predicate conditions)
  | .findOne predicate => replied .document (collection.findOne predicate)
  | .count predicate => replied .number (collection.count predicate)
  | .update predicate mutation upsert =>
    replied .number (collection.update predicate mutation upsert)
  | .delete predicate => replied .number (collection.delete predicate)
  | .explain predicate conditions => replied .text (collection.explain predicate conditions)
  | .explainMutation mutation => replied .text (collection.explainMutation mutation)

/-- The answers to actions one after the other, whether they fail or not. -/
def actAll (collection : Collection) : List Action → List (Except Error Reply) × Collection
  | [] => ([], collection)
  | action :: rest =>
    let done := collection.act action
    let others := done.2.actAll rest
    (done.1 :: others.1, others.2)

variable {collection first second : Collection} {made : List Request}

theorem reached_act (reached : Reached made collection) {action : Action}
    (ordered : action.Ordered) :
    Reached (action.requests ++ made) (collection.act action).2 := by
  cases action with
  | insert doc => exact @Reached.performed _ _ (.insert doc) reached ordered
  | insertMany docs => exact @Reached.performed _ _ (.insertMany docs) reached ordered
  | get id => exact reached
  | remove id => exact @Reached.performed _ _ (.remove id) reached trivial
  | ensureIndex attributes kind =>
      exact @Reached.performed _ _ (.ensureIndex attributes kind) reached trivial
  | find predicate conditions => exact reached.found ordered conditions
  | findIds predicate conditions => exact reached.found ordered conditions
  | findOne predicate => exact reached.found ordered _
  | count predicate => exact reached.found ordered _
  | update predicate mutation upsert =>
      exact @Reached.performed _ _ (.update predicate mutation upsert) reached ordered
  | delete predicate => exact @Reached.performed _ _ (.delete predicate) reached ordered
  | explain predicate conditions => exact reached.explained ordered conditions
  | explainMutation mutation => exact reached.explainedMutation ordered

/-- Collections of certain settings that hold the same and give the same identities next. The
programs they keep may differ. -/
structure Alike (settings settings' : Config) (first second : Collection) : Prop where
  config : first.config = settings
  config' : second.config = settings'
  store : first.store.Alike second.store
  nextId : first.nextId = second.nextId

/-- The same answer, with collections after it that hold the same. -/
structure AlikeAnswers {α : Type} (settings settings' : Config)
    (done done' : Except Error α × Collection) : Prop where
  answer : done.1 = done'.1
  alike : Alike settings settings' done.2 done'.2

variable {settings settings' : Config}

theorem AlikeAnswers.map {α β : Type} {done done' : Except Error α × Collection}
    (same : AlikeAnswers settings settings' done done') (f : α → β) :
    AlikeAnswers settings settings' (done.1.map f, done.2) (done'.1.map f, done'.2) :=
  ⟨congrArg (Except.map f) same.answer, same.alike⟩

/-- Both fail for one reason, or both give one result. -/
theorem AlikeAnswers.cases {α : Type} {done done' : Except Error α × Collection}
    (same : AlikeAnswers settings settings' done done') :
    ∃ after after', Alike settings settings' after after' ∧
      ((∃ error, done = (.error error, after) ∧ done' = (.error error, after')) ∨
        ∃ result, done = (.ok result, after) ∧ done' = (.ok result, after')) := by
  obtain ⟨outcome, after⟩ := done
  obtain ⟨outcome', after'⟩ := done'
  obtain rfl : outcome = outcome' := same.answer
  refine ⟨after, after', same.alike, ?_⟩
  cases outcome with
  | error error => exact .inl ⟨error, rfl, rfl⟩
  | ok result => exact .inr ⟨result, rfl, rfl⟩

namespace Alike

variable (alike : Alike settings settings' first second)

include alike

theorem get? (id : DocId) : first.get? id = second.get? id := by
  simp only [Collection.get?, Store.document?, alike.store.documents]

theorem withStore {store store' : Store} (same : store.Alike store') :
    Alike settings settings' { first with store } { second with store := store' } :=
  ⟨alike.config, alike.config', same, alike.nextId⟩

theorem insert (doc : Json) :
    AlikeAnswers settings settings' (first.insert doc) (second.insert doc) := by
  have identified : first.identify doc = second.identify doc := by
    simp only [identify, alike.nextId]
  unfold Collection.insert
  rw [identified]
  cases second.identify doc with
  | error fault => exact ⟨rfl, alike⟩
  | ok stated =>
      obtain ⟨id, members⟩ := stated
      obtain ⟨ending, after⟩ := alike.store.insert id (.object members)
      simp only [alike.store.documents]
      split
      · exact ⟨rfl, alike⟩
      · generalize first.store.insert id (.object members) = stored at ending after
        generalize second.store.insert id (.object members) = stored' at ending after
        obtain ⟨outcome, store⟩ := stored
        obtain ⟨outcome', store'⟩ := stored'
        obtain rfl := ending
        cases outcome with
        | error error => exact ⟨rfl, alike.withStore after⟩
        | ok _ =>
            have nextId := congrArg (max · (successor id)) alike.nextId
            exact ⟨rfl, alike.config, alike.config', after, nextId⟩

theorem insertMany (docs : List Json) :
    AlikeAnswers settings settings' (first.insertMany docs) (second.insertMany docs) := by
  induction docs generalizing first second with
  | nil => exact ⟨rfl, alike⟩
  | cons doc rest ih =>
      obtain ⟨after, after', alike', ⟨error, ran, ran'⟩ | ⟨id, ran, ran'⟩⟩ :=
        (alike.insert doc).cases
      · simp only [Collection.insertMany, ran, ran']
        exact ⟨rfl, alike'⟩
      · simp only [Collection.insertMany, ran, ran']
        exact (ih alike').map (id :: ·)

theorem remove (id : DocId) :
    AlikeAnswers settings settings' (first.remove id) (second.remove id) := by
  obtain ⟨ending, after⟩ := alike.store.remove id
  exact ⟨ending, alike.withStore after⟩

theorem removeAll (ids : List DocId) :
    AlikeAnswers settings settings' (first.removeAll ids) (second.removeAll ids) := by
  induction ids generalizing first second with
  | nil => exact ⟨rfl, alike⟩
  | cons id rest ih =>
      obtain ⟨after, after', alike', ⟨error, ran, ran'⟩ | ⟨doc, ran, ran'⟩⟩ :=
        (alike.remove id).cases
      · simp only [Collection.removeAll, ran, ran']
        exact ⟨rfl, alike'⟩
      · simp only [Collection.removeAll, ran, ran']
        exact ih alike'

theorem run (program : Program) (mutation : Option Program) (upsert : Bool) :
    AlikeAnswers settings settings' (first.run program mutation upsert)
      (second.run program mutation upsert) := by
  have budget (instructions : Nat) : first.budget instructions = second.budget instructions := by
    simp only [budget, size, alike.store.order]
  have ran := Machine.drive_alike alike.store
    (second.budget (program.length + (mutation.getD []).length))
    (Machine.load program mutation upsert)
  unfold Collection.run Machine.execute
  rw [budget]
  exact ⟨ran.answer, alike.config, alike.config', ran.store, alike.nextId⟩

theorem shapes :
    second.store.indices.map Index.shape = first.store.indices.map Index.shape := by
  have same : List.Forall₂ (fun index index' : Index => index'.shape = index.shape)
      first.store.indices second.store.indices :=
    alike.store.indices.imp fun _ _ alike => alike.shape.symm
  rw [← List.forall₂_eq_eq_eq, List.forall₂_map_left_iff, List.forall₂_map_right_iff]
  exact same.flip

/-- An index is registered under a name in both or in neither, and then in one shape. -/
theorem index? (name : String) :
    (first.index? name).map Index.shape = (second.index? name).map Index.shape := by
  have named (collection : Collection) : (collection.index? name).map Index.shape =
      (collection.store.indices.map Index.shape).find? fun shape =>
        Index.nameOf shape.2 == name := by
    rw [List.find?_map]
    rfl
  rw [named, named, alike.shapes]

/-- An index over the stored documents is built alike where one over no documents is. -/
theorem buildIndex {attributes : List String} {kind : IndexKind}
    (empty : InStep Index.Alike (emptyIndex settings attributes kind)
      (emptyIndex settings' attributes kind)) :
    InStep Index.Alike (first.buildIndex attributes kind) (second.buildIndex attributes kind) := by
  have entries : first.store.entries = second.store.entries := by
    simp only [Store.entries, Store.document?, alike.store.order, alike.store.documents]
  unfold Collection.buildIndex
  rw [alike.config, alike.config', entries]
  apply empty.bind
  intro index index' same
  exact InStep.foldlM second.store.entries same fun _ _ entry same => same.insert entry.1 entry.2

theorem ensureIndex {attributes : List String} {kind : IndexKind}
    (empty : InStep Index.Alike (emptyIndex settings attributes kind)
      (emptyIndex settings' attributes kind)) :
    AlikeAnswers settings settings' (first.ensureIndex attributes kind)
      (second.ensureIndex attributes kind) := by
  have present := alike.index? (Index.nameOf attributes)
  have built := alike.buildIndex empty
  unfold Collection.ensureIndex
  dsimp only
  split
  · exact ⟨rfl, alike⟩
  · cases named : first.index? (Index.nameOf attributes) with
    | some index =>
        cases named' : second.index? (Index.nameOf attributes) with
        | none => simp [named, named'] at present
        | some index' =>
            rw [named, named', Option.map_some, Option.map_some, Option.some.injEq] at present
            have kinds : index.kind = index'.kind := congrArg Prod.fst present
            simp only [kinds, alike.store.name]
            split
            · exact ⟨rfl, alike⟩
            · exact ⟨rfl, alike⟩
    | none =>
        cases named' : second.index? (Index.nameOf attributes) with
        | some index' => simp [named, named'] at present
        | none =>
            generalize first.buildIndex attributes kind = done at built
            generalize second.buildIndex attributes kind = done' at built
            cases built with
            | error error => exact ⟨rfl, alike⟩
            | ok same =>
                have indices := List.rel_append alike.store.indices (.cons same .nil)
                exact ⟨rfl, alike.config, alike.config', ⟨alike.store.name,
                  alike.store.documents, alike.store.order, indices⟩, alike.nextId⟩

end Alike

/-- Settings make no difference to an index over no documents, if there is room for what its tree
remembers. -/
theorem emptyIndex_alike (valid : settings.validate = .ok ()) (valid' : settings'.validate = .ok ())
    (attributes : List String) {kind : IndexKind}
    (room : kind = .tree → settings.lookupCapacity ≤ Recent.maxCapacity ∧
      settings'.lookupCapacity ≤ Recent.maxCapacity) :
    InStep Index.Alike (emptyIndex settings attributes kind)
      (emptyIndex settings' attributes kind) := by
  obtain ⟨tree, large, -⟩ | ⟨index, made, sound, shape, keys⟩ :=
    emptyIndex_spec valid attributes kind
  · exact absurd (room tree).1 (Nat.not_le.2 large)
  · obtain ⟨tree, large, -⟩ | ⟨index', made', sound', shape', keys'⟩ :=
      emptyIndex_spec valid' attributes kind
    · exact absurd (room tree).2 (Nat.not_le.2 large)
    · rw [made, made']
      exact .ok (.of_nothing sound sound' (shape.trans shape'.symm) keys keys')

theorem keep_frame (collection : Collection) (request : Request) (program : Except Error Program) :
    (collection.keep request program).2.config = collection.config ∧
      (collection.keep request program).2.nextId = collection.nextId := by
  unfold keep
  split
  · exact ⟨rfl, rfl⟩
  · exact ⟨rfl, rfl⟩

/-- Two sound collections that hold the same, with what either has been asked for. -/
structure Twins (settings settings' : Config) (made : List Request) (first second : Collection) :
    Prop where
  alike : Alike settings settings' first second
  sound : first.Sound
  sound' : second.Sound
  remembers : first.Remembers made
  remembers' : second.Remembers made

namespace Twins

variable {request : Request} (twins : Twins settings settings' made first second)

include twins

/-- A request gets the same program, kept or new. -/
theorem keep (distinct : Request.Distinct (request :: made)) : ∃ program between between',
    first.keep request (first.fresh request) = (program, between) ∧
      second.keep request (second.fresh request) = (program, between') ∧
      Twins settings settings' (request :: made) between between' := by
  obtain ⟨between, kept, store, sound, remembers⟩ := keep_fresh twins.sound twins.remembers distinct
  obtain ⟨between', kept', store', sound', remembers'⟩ :=
    keep_fresh twins.sound' twins.remembers' distinct
  -- Either answers as if it kept no program, and a new one depends on name and shapes only.
  have same : second.fresh request = first.fresh request :=
    fresh_congr twins.alike.store.name.symm twins.alike.shapes request
  have frame := keep_frame first request (first.fresh request)
  have frame' := keep_frame second request (second.fresh request)
  rw [kept] at frame
  rw [kept'] at frame'
  have alike : Alike settings settings' between between' := by
    constructor
    · exact frame.1.trans twins.alike.config
    · exact frame'.1.trans twins.alike.config'
    · rw [store, store']
      exact twins.alike.store
    · exact frame.2.trans (twins.alike.nextId.trans frame'.2.symm)
  exact ⟨_, between, between', kept, same ▸ kept', alike, sound, sound', remembers, remembers'⟩

theorem plan {predicate : Json} {conditions : Conditions}
    (distinct : Request.Distinct (.query predicate conditions :: made)) :
    ∃ program between between', first.plan predicate conditions = (program, between) ∧
      second.plan predicate conditions = (program, between') ∧
      Twins settings settings' (.query predicate conditions :: made) between between' :=
  twins.keep distinct

theorem planMutation {mutation : Json}
    (distinct : Request.Distinct (.mutation mutation :: made)) :
    ∃ program between between', first.planMutation mutation = (program, between) ∧
      second.planMutation mutation = (program, between') ∧
      Twins settings settings' (.mutation mutation :: made) between between' :=
  twins.keep distinct

theorem kept (distinct : Request.Distinct (request :: made)) :
    AlikeAnswers settings settings' (first.keep request (first.fresh request))
      (second.keep request (second.fresh request)) := by
  obtain ⟨program, between, between', plans, plans', twins'⟩ := twins.keep distinct
  rw [plans, plans']
  exact ⟨rfl, twins'.alike⟩

theorem findIds {predicate : Json} {conditions : Conditions}
    (distinct : Request.Distinct (.query predicate conditions :: made)) :
    AlikeAnswers settings settings' (first.findIds predicate conditions)
      (second.findIds predicate conditions) := by
  obtain ⟨program, between, between', plans, plans', twins'⟩ := twins.plan distinct
  unfold Collection.findIds
  rw [plans, plans']
  cases program with
  | error error => exact ⟨rfl, twins'.alike⟩
  | ok program => exact twins'.alike.run program none false

theorem find {predicate : Json} {conditions : Conditions}
    (distinct : Request.Distinct (.query predicate conditions :: made)) :
    AlikeAnswers settings settings' (first.find predicate conditions)
      (second.find predicate conditions) := by
  have found := twins.findIds distinct
  have get? : (first.findIds predicate conditions).2.get? =
      (second.findIds predicate conditions).2.get? := funext found.alike.get?
  constructor
  · simp only [Collection.find, found.answer, get?]
  · exact found.alike

theorem update {predicate mutation : Json} (upsert : Bool) (distinct : Request.Distinct
      (.mutation mutation :: .query predicate Conditions.none :: made)) :
    AlikeAnswers settings settings' (first.update predicate mutation upsert)
      (second.update predicate mutation upsert) := by
  obtain ⟨program, between, between', plans, plans', twins'⟩ :=
    twins.plan (distinct.mono (List.subset_cons_self _ _))
  obtain ⟨mutations, last, last', mutates, mutates', twins''⟩ := twins'.planMutation distinct
  unfold Collection.update
  rw [plans, plans']
  cases program with
  | error error => exact ⟨rfl, twins'.alike⟩
  | ok program =>
      dsimp only
      rw [mutates, mutates']
      cases mutations with
      | error error => exact ⟨rfl, twins''.alike⟩
      | ok mutations => exact (twins''.alike.run program (some mutations) upsert).map List.length

theorem delete {predicate : Json}
    (distinct : Request.Distinct (.query predicate Conditions.none :: made)) :
    AlikeAnswers settings settings' (first.delete predicate) (second.delete predicate) := by
  obtain ⟨between, between', alike, ⟨error, ran, ran'⟩ | ⟨ids, ran, ran'⟩⟩ :=
    (twins.findIds distinct).cases
  · simp only [Collection.delete, ran, ran']
    exact ⟨rfl, alike⟩
  · simp only [Collection.delete, ran, ran']
    exact (alike.removeAll ids).map fun _ => ids.length

theorem act {action : Action} (distinct : Request.Distinct (action.requests ++ made))
    (room : ∀ attributes, action = .ensureIndex attributes .tree →
      settings.lookupCapacity ≤ Recent.maxCapacity ∧
        settings'.lookupCapacity ≤ Recent.maxCapacity) :
    AlikeAnswers settings settings' (first.act action) (second.act action) := by
  have alike := twins.alike
  cases action with
  | insert doc => exact (alike.insert doc).map Reply.id
  | insertMany docs => exact (alike.insertMany docs).map Reply.ids
  | get id => exact ⟨by simp only [Collection.act, alike.get?], alike⟩
  | remove id => exact (alike.remove id).map fun doc => Reply.document (some doc)
  | ensureIndex attributes kind =>
      have valid := alike.config ▸ twins.sound.valid
      have valid' := alike.config' ▸ twins.sound'.valid
      have empty := emptyIndex_alike valid valid' attributes fun tree =>
        room attributes (congrArg (Action.ensureIndex attributes) tree)
      exact (alike.ensureIndex empty).map Reply.text
  | find predicate conditions => exact (twins.find distinct).map Reply.documents
  | findIds predicate conditions => exact (twins.findIds distinct).map Reply.ids
  | findOne predicate => exact ((twins.find distinct).map List.head?).map Reply.document
  | count predicate => exact ((twins.findIds distinct).map List.length).map Reply.number
  | update predicate mutation upsert => exact (twins.update upsert distinct).map Reply.number
  | delete predicate => exact (twins.delete distinct).map Reply.number
  | explain predicate conditions => exact ((twins.kept distinct).map Program.listing).map Reply.text
  | explainMutation mutation => exact ((twins.kept distinct).map Program.listing).map Reply.text

end Twins

/-- Actions one after the other are answered alike, if digests tell apart all that is asked for. -/
theorem actAll_alike {all : List Request} (distinct : Request.Distinct all)
    (alike : Alike settings settings' first second) (reached : Reached made first)
    (reached' : Reached made second) (before : made ⊆ all) {actions : List Action}
    (ordered : ∀ action ∈ actions, action.Ordered)
    (asked : ∀ action ∈ actions, action.requests ⊆ all)
    (room : ∀ attributes, .ensureIndex attributes .tree ∈ actions →
      settings.lookupCapacity ≤ Recent.maxCapacity ∧
        settings'.lookupCapacity ≤ Recent.maxCapacity) :
    (first.actAll actions).1 = (second.actAll actions).1 := by
  -- `all` is fixed, so at every action digests tell the request from those made before.
  induction actions generalizing first second made with
  | nil => rfl
  | cons action rest ih =>
      obtain ⟨ordered, ordered'⟩ := List.forall_mem_cons.1 ordered
      obtain ⟨asked, asked'⟩ := List.forall_mem_cons.1 asked
      have within : action.requests ++ made ⊆ all := List.append_subset.2 ⟨asked, before⟩
      have twins : Twins settings settings' made first second :=
        ⟨alike, reached.lawful.sound, reached'.lawful.sound, reached.lawful.remembers,
          reached'.lawful.remembers⟩
      have same := twins.act (distinct.mono within) fun attributes here =>
        room attributes (here ▸ List.mem_cons_self)
      have later := ih same.alike (reached_act reached ordered) (reached_act reached' ordered)
        within ordered' asked' fun attributes there => room attributes
        (List.mem_cons_of_mem _ there)
      simp only [actAll, same.answer, later]

/-- Whatever the settings, the same actions get the same answers, one after the other. Assumed is
that digests tell the requests apart, and that there is room for what index trees remember. -/
theorem settings_only_tune {name : String} (valid : settings.validate = .ok ())
    (valid' : settings'.validate = .ok ()) (created : Collection.create name settings = .ok first)
    (created' : Collection.create name settings' = .ok second) {actions : List Action}
    (ordered : ∀ action ∈ actions, action.Ordered)
    (distinct : Request.Distinct (actions.flatMap Action.requests))
    (room : ∀ attributes, .ensureIndex attributes .tree ∈ actions →
      settings.lookupCapacity ≤ Recent.maxCapacity ∧
        settings'.lookupCapacity ≤ Recent.maxCapacity) :
    (first.actAll actions).1 = (second.actAll actions).1 := by
  have alike : Alike settings settings' first second := by
    obtain ⟨form, -⟩ := create_spec created
    obtain ⟨form', -⟩ := create_spec created'
    rw [form, form']
    exact ⟨rfl, rfl, ⟨rfl, rfl, rfl, .nil⟩, rfl⟩
  apply actAll_alike distinct alike (.created valid created) (.created valid' created')
    (List.nil_subset _) ordered _ room
  intro action there request asked
  exact List.mem_flatMap.2 ⟨action, there, asked⟩

/-- Small trees that remember nothing and a single kept program serve as well as the default. -/
theorem people_served_alike :
    let named := Json.object [("name", .object [("$gt", .string "ann")])]
    let settled := Json.object [("town", .string "york")]
    let actions : List Action := [.insertMany [person "cid" "york", person "ann" "york", .null],
      .ensureIndex ["name"] .tree, .insert (person "bob" "bath"), .findIds named Conditions.none,
      .delete settled, .findIds named Conditions.none]
    ∃ first second, Collection.create "people" Config.default = .ok first ∧
      Collection.create "people" ⟨3, some 1, 0, 1, true⟩ = .ok second ∧
      (first.actAll actions).1[3]? = some (.ok (.ids [3, 1])) ∧
      (first.actAll actions).1 = (second.actAll actions).1 := by
  intro named settled actions
  have created : Collection.create "people" Config.default =
    .ok ⟨Store.empty "people", Config.default, 1, some ⟨Recent.empty 256, 0, 0⟩⟩ := rfl
  have created' : Collection.create "people" ⟨3, some 1, 0, 1, true⟩ =
    .ok ⟨Store.empty "people", ⟨3, some 1, 0, 1, true⟩, 1, some ⟨Recent.empty 1, 0, 0⟩⟩ := rfl
  have ordered : ∀ action ∈ actions, action.Ordered := by
    have inOrder : named.Ordered := ⟨by decide, ⟨by decide, trivial, trivial⟩, trivial⟩
    have inOrder' : settled.Ordered := ⟨by decide, trivial, trivial⟩
    simp only [actions, List.forall_mem_cons, List.not_mem_nil, false_implies, implies_true,
      and_true, Action.Ordered, true_and]
    exact ⟨⟨ordered_person _ _, ordered_person _ _, trivial⟩, ordered_person _ _, inOrder,
      inOrder', inOrder⟩
  have fresh : (Request.query settled Conditions.none).digest ≠
    (Request.query named Conditions.none).digest := by decide +kernel
  have distinct : Request.Distinct (actions.flatMap Action.requests) := by
    apply ((Request.distinct_singleton (.query settled Conditions.none)).cons
      (List.forall_mem_singleton.2 fresh)).mono
    simp [actions, Action.requests]
  exact ⟨_, _, created, created', rfl, settings_only_tune (by rfl) (by rfl) created created' ordered
    distinct fun _ _ => ⟨by decide, by decide⟩⟩

end Collection
end Docstore
