import Docstore.Proofs.Collection.Calls
import Docstore.Proofs.Machine.Documents
import Docstore.Proofs.Mutation.Parsed
import Docstore.Proofs.Program.Request
import Docstore.Proofs.Query.Selected

set_option autoImplicit false

namespace Docstore

namespace Request

def Ordered : Request → Prop
  | .query predicate _ => predicate.Ordered
  | .mutation source => source.Ordered

/-- No two texts among those of some requests have the same digest. -/
def Distinct (requests : List Request) : Prop :=
  ∀ first ∈ requests, ∀ second ∈ requests, first.digest = second.digest →
    first.text = second.text

theorem Distinct.eq {requests : List Request} (distinct : Distinct requests)
    {first second : Request}
    (there : first ∈ requests) (there' : second ∈ requests)
    (same : first.digest = second.digest) : first = second :=
  text_injective (distinct first there second there' same)

theorem Distinct.mono {requests others : List Request} (distinct : Distinct requests)
    (sub : others ⊆ requests) : Distinct others := by
  intro first there second there'
  exact distinct first (sub there) second (sub there')

theorem distinct_singleton (request : Request) : Distinct [request] := by
  intro first there second there' _
  rw [List.mem_singleton.1 there, List.mem_singleton.1 there']

theorem Distinct.cons {request : Request} {requests : List Request} (distinct : Distinct requests)
    (fresh : ∀ other ∈ requests, other.digest ≠ request.digest) :
    Distinct (request :: requests) := by
  intro first there second there' same
  obtain rfl | old := List.mem_cons.1 there
  · obtain rfl | old' := List.mem_cons.1 there'
    · rfl
    · exact absurd same.symm (fresh second old')
  · obtain rfl | old' := List.mem_cons.1 there'
    · exact absurd same (fresh first old)
    · exact distinct first old second old' same

end Request

namespace Program

theorem ofMutation_eq_ok {source : Json} {program : Program} :
    ofMutation source = .ok program ↔ ∃ mutations, Mutation.parse source = .ok mutations ∧
      checkMutations source mutations = .ok () ∧ program = ofMutations mutations := by
  unfold ofMutation
  rw [bind_eq_ok]
  constructor
  · rintro ⟨mutations, read, rest⟩
    obtain ⟨_, checked, same⟩ := bind_eq_ok.1 rest
    exact ⟨mutations, read, checked, (Except.ok.inj same).symm⟩
  · rintro ⟨mutations, read, checked, rfl⟩
    exact ⟨mutations, read, by rw [checked]; rfl⟩

end Program

namespace Collection

variable {collection after : Collection} {made : List Request} {request : Request}

theorem compiled_eq_ok {result : Except CompileFault Program} {program : Program} :
    compiled result = .ok program ↔ result = .ok program := by
  cases result with
  | ok other => simp [compiled]
  | error fault => simp [compiled]

/-- The program that a request gets where none is kept for it. -/
def fresh (collection : Collection) : Request → Except Error Program
  | .query predicate conditions => collection.compileQuery predicate conditions
  | .mutation source => compiled (Program.ofMutation source)

theorem fresh_congr (name : after.store.name = collection.store.name)
    (shapes : after.store.indices.map Index.shape = collection.store.indices.map Index.shape)
    (request : Request) : after.fresh request = collection.fresh request := by
  cases request with
  | query predicate conditions =>
      simp only [fresh, compileQuery, name, Query.select_congr shapes]
  | mutation source => rfl

theorem proper_fresh {program : Program} (made : collection.fresh request = .ok program) :
    Machine.Proper program := by
  cases request with
  | query predicate conditions => exact proper_compileQuery made
  | mutation source => exact proper_ofMutation made

theorem keeps_fresh {program : Program} (ordered : request.Ordered)
    (made : collection.fresh request = .ok program) : program.Keeps Json.Ordered := by
  cases request with
  | query predicate conditions =>
      obtain ⟨parsed, -, rest⟩ := bind_eq_ok.1 made
      obtain ⟨query, -, done⟩ := bind_eq_ok.1 rest
      exact (Program.readOnly_ofQuery (compiled_eq_ok.1 done)).keeps _
  | mutation source =>
      obtain ⟨mutations, read, -, rfl⟩ := Program.ofMutation_eq_ok.1 (compiled_eq_ok.1 made)
      intro mutation there upsert doc fit
      have member : mutation ∈ mutations := by
        simpa [Program.ofMutations] using there
      exact Mutation.apply_ordered upsert (Mutation.ordered_parse ordered read mutation member) fit

/-- Every program kept is the one that a request made before would get. -/
def Remembers (made : List Request) (collection : Collection) : Prop :=
  ∀ cache, collection.programs = some cache → cache.Keeps fun digest program =>
    ∃ request ∈ made, request.digest = digest ∧ collection.fresh request = .ok program

theorem Remembers.of_schema (remembers : Remembers made collection)
    (same : after.SameSchema collection) : Remembers made after := by
  intro cache kept digest program found
  rw [same.programs] at kept
  obtain ⟨request, there, key, compiles⟩ := remembers cache kept digest program found
  exact ⟨request, there, key, (fresh_congr same.name same.shapes request).trans compiles⟩

theorem Remembers.mono {made' : List Request} (remembers : Remembers made collection)
    (sub : made ⊆ made') : Remembers made' collection := by
  intro cache kept digest program found
  obtain ⟨request, there, key, compiles⟩ := remembers cache kept digest program found
  exact ⟨request, sub there, key, compiles⟩

/-- A request is answered with the program of a request of its digest, or with its own failure. -/
theorem keep_remembers (remembers : Remembers made collection) (request : Request) :
    Remembers (request :: made) (collection.keep request (collection.fresh request)).2 ∧
      (∀ program, (collection.keep request (collection.fresh request)).1 = .ok program →
        ∃ other ∈ request :: made, other.digest = request.digest ∧
          collection.fresh other = .ok program) ∧
      ∀ error, (collection.keep request (collection.fresh request)).1 = .error error →
        collection.fresh request = .error error := by
  have new : ∀ program, collection.fresh request = .ok program →
      ∃ other ∈ request :: made, other.digest = request.digest ∧
        collection.fresh other = .ok program := by
    intro program compiles
    exact ⟨request, List.mem_cons_self, rfl, compiles⟩
  cases kept : collection.programs with
  | none =>
      simp only [keep, kept]
      exact ⟨remembers.mono (List.subset_cons_self _ _), new, fun _ failed => failed⟩
  | some cache =>
      have before := (remembers.mono (List.subset_cons_self request made)) cache kept
      obtain ⟨keeps, answered, failed⟩ :=
        ProgramCache.getOrInsert_spec before request.digest new
      simp only [keep, kept]
      refine ⟨?_, answered, failed⟩
      intro other same
      obtain rfl := Option.some.inj same
      exact keeps

/-- Where digests tell requests apart, a request is answered as if no program were kept. -/
theorem keep_eq (remembers : Remembers made collection)
    (distinct : Request.Distinct (request :: made)) :
    (collection.keep request (collection.fresh request)).1 = collection.fresh request := by
  obtain ⟨-, answered, failed⟩ := keep_remembers remembers request
  cases outcome : (collection.keep request (collection.fresh request)).1 with
  | error error => exact (failed error outcome).symm
  | ok program =>
      obtain ⟨other, there, key, compiles⟩ := answered program outcome
      rw [← distinct.eq there List.mem_cons_self key, compiles]

/-- A sound collection with documents in order, which keeps programs of requests made before. -/
structure Lawful (made : List Request) (collection : Collection) : Prop where
  sound : collection.Sound
  ordered : collection.store.All Json.Ordered
  requests : ∀ request ∈ made, request.Ordered
  remembers : collection.Remembers made

namespace Lawful

theorem change (lawful : collection.Lawful made) (sound : after.Sound)
    (ordered : after.store.All Json.Ordered) (same : after.SameSchema collection) :
    after.Lawful made :=
  ⟨sound, ordered, lawful.requests, lawful.remembers.of_schema same⟩

theorem mono (lawful : collection.Lawful made) {made' : List Request} (sub : made ⊆ made')
    (ordered : ∀ request ∈ made', request.Ordered) : collection.Lawful made' :=
  ⟨lawful.sound, lawful.ordered, ordered, lawful.remembers.mono sub⟩

theorem keep (lawful : collection.Lawful made) (ordered : request.Ordered) :
    (collection.keep request (collection.fresh request)).2.Lawful (request :: made) := by
  obtain ⟨sound, store, -⟩ := keep_spec lawful.sound request fun _ => proper_fresh
  obtain ⟨remembers, -⟩ := keep_remembers lawful.remembers request
  refine ⟨sound, ?_, List.forall_mem_cons.2 ⟨ordered, lawful.requests⟩, remembers⟩
  rw [store]
  exact lawful.ordered

/-- Every program that a request is answered with keeps documents in order. -/
theorem keeps (lawful : collection.Lawful made) (ordered : request.Ordered) {program : Program}
    (answered : (collection.keep request (collection.fresh request)).1 = .ok program) :
    program.Keeps Json.Ordered := by
  obtain ⟨-, found, -⟩ := keep_remembers lawful.remembers request
  obtain ⟨other, there, -, compiles⟩ := found program answered
  have fit : other.Ordered := by
    obtain rfl | there := List.mem_cons.1 there
    · exact ordered
    · exact lawful.requests other there
  exact keeps_fresh fit compiles

theorem plan (lawful : collection.Lawful made) {predicate : Json} (ordered : predicate.Ordered)
    (conditions : Conditions) :
    (collection.plan predicate conditions).2.Lawful (.query predicate conditions :: made) ∧
      ∀ program, (collection.plan predicate conditions).1 = .ok program →
        program.Keeps Json.Ordered :=
  have asked : (Request.query predicate conditions).Ordered := ordered
  ⟨lawful.keep asked, fun _ answered => lawful.keeps asked answered⟩

theorem planMutation (lawful : collection.Lawful made) {mutation : Json}
    (ordered : mutation.Ordered) :
    (collection.planMutation mutation).2.Lawful (.mutation mutation :: made) ∧
      ∀ program, (collection.planMutation mutation).1 = .ok program →
        program.Keeps Json.Ordered :=
  have asked : (Request.mutation mutation).Ordered := ordered
  ⟨lawful.keep asked, fun _ answered => lawful.keeps asked answered⟩

theorem run (lawful : collection.Lawful made) {program : Program}
    (keeps : program.Keeps Json.Ordered)
    {mutation : Option Program} (proper : ∀ p, mutation = some p → Machine.Proper p)
    (keeps' : ∀ p, mutation = some p → p.Keeps Json.Ordered) (upsert : Bool) :
    (collection.run program mutation upsert).2.Lawful made := by
  obtain ⟨sound, same, -⟩ := run_sound lawful.sound program proper upsert
  apply lawful.change sound _ same
  exact Machine.execute_all _ keeps keeps' lawful.ordered upsert

end Lawful

/-- The values of a call are in order, as a reader of JSON gives them. -/
def Call.Ordered : Call → Prop
  | .insert doc => doc.Ordered
  | .insertMany docs => ∀ doc ∈ docs, doc.Ordered
  | .update predicate mutation _ => predicate.Ordered ∧ mutation.Ordered
  | .delete predicate => predicate.Ordered
  | .remove _ | .ensureIndex _ _ => True

def Call.requests : Call → List Request
  | .update predicate mutation _ => [.mutation mutation, .query predicate Conditions.none]
  | .delete predicate => [.query predicate Conditions.none]
  | .insert _ | .insertMany _ | .remove _ | .ensureIndex _ _ => []

theorem Call.Ordered.requests {call : Call} (ordered : call.Ordered) :
    ∀ request ∈ call.requests, request.Ordered := by
  cases call with
  | update predicate mutation upsert =>
      exact List.forall_mem_cons.2 ⟨ordered.2, List.forall_mem_singleton.2 ordered.1⟩
  | delete predicate => exact List.forall_mem_singleton.2 ordered
  | _ =>
      intro request there
      cases there

/-- A collection that has come about by calls, failed ones among them, and by questions, with the
requests made on the way, the last one first. -/
inductive Reached : List Request → Collection → Prop
  | created {name : String} {config : Config} {collection : Collection}
      (valid : config.validate = .ok ())
      (created : Collection.create name config = .ok collection) : Reached [] collection
  | performed {made : List Request} {collection : Collection} {call : Call}
      (reached : Reached made collection) (ordered : call.Ordered) :
      Reached (call.requests ++ made) (collection.perform call).2
  | found {made : List Request} {collection : Collection} {predicate : Json}
      (reached : Reached made collection) (ordered : predicate.Ordered) (conditions : Conditions) :
      Reached (.query predicate conditions :: made) (collection.findIds predicate conditions).2
  | explained {made : List Request} {collection : Collection} {predicate : Json}
      (reached : Reached made collection) (ordered : predicate.Ordered) (conditions : Conditions) :
      Reached (.query predicate conditions :: made) (collection.explain predicate conditions).2
  | explainedMutation {made : List Request} {collection : Collection} {mutation : Json}
      (reached : Reached made collection) (ordered : mutation.Ordered) :
      Reached (.mutation mutation :: made) (collection.explainMutation mutation).2

namespace Lawful

theorem created {name : String} {config : Config} (valid : config.validate = .ok ())
    (created : Collection.create name config = .ok collection) : collection.Lawful [] := by
  obtain ⟨fresh, bare⟩ := create_spec created
  refine ⟨sound_create valid created, ?_, fun _ there => (by cases there), ?_⟩
  · intro id doc there
    rw [fresh] at there
    cases there
  · intro cache kept digest program found
    rw [bare cache kept] at found
    cases found

theorem ordered_identify {doc : Json} {id : DocId} {members : Members} (ordered : doc.Ordered)
    (stated : collection.identify doc = .ok (id, members)) : (Json.object members).Ordered := by
  unfold identify at stated
  split at stated
  · split at stated
    · obtain ⟨-, rfl⟩ := Prod.mk.inj (Except.ok.inj stated)
      have fit : (Json.number (Number.ofWord collection.nextId)).Ordered := trivial
      exact Json.ordered_put ordered fit _
    · split at stated
      · obtain ⟨-, rfl⟩ := Prod.mk.inj (Except.ok.inj stated)
        exact ordered
      · cases stated
  · cases stated

theorem insert (lawful : collection.Lawful made) {doc : Json} (ordered : doc.Ordered) :
    (collection.insert doc).2.Lawful made := by
  obtain ⟨fault, -, ran⟩ | ⟨id, members, -, -, ran⟩ |
    ⟨id, members, after, stated, -, ran, sound, same, documents, -⟩ := insert_spec lawful.sound doc
  · rw [ran]
    exact lawful
  · rw [ran]
    exact lawful
  · have all : after.store.All Json.Ordered := by
      have written := lawful.ordered.write (ordered_identify ordered stated) id
      exact written.of_documents documents
    rw [ran]
    exact lawful.change sound all same

theorem insertMany (lawful : collection.Lawful made) {docs : List Json}
    (ordered : ∀ doc ∈ docs, doc.Ordered) : (collection.insertMany docs).2.Lawful made := by
  induction docs generalizing collection with
  | nil => exact lawful
  | cons doc rest ih =>
      obtain ⟨first, others⟩ := List.forall_mem_cons.1 ordered
      have lawful' := lawful.insert first
      rcases ran : collection.insert doc with ⟨_ | id, after⟩
      · rw [ran] at lawful'
        simp only [Collection.insertMany, ran]
        exact lawful'
      · rw [ran] at lawful'
        simp only [Collection.insertMany, ran]
        exact ih lawful' others

theorem remove (lawful : collection.Lawful made) (id : DocId) :
    (collection.remove id).2.Lawful made := by
  obtain ⟨-, ran⟩ | ⟨doc, after, -, ran, sound, same, documents, -⟩ := remove_spec lawful.sound id
  · rw [ran]
    exact lawful
  · have all : after.store.All Json.Ordered := by
      intro other found there
      rw [Store.document?, documents, Table.get?_erase] at there
      split at there
      · cases there
      · exact lawful.ordered other found there
    rw [ran]
    exact lawful.change sound all same

theorem removeAll (lawful : collection.Lawful made) (ids : List DocId) :
    (collection.removeAll ids).2.Lawful made := by
  induction ids generalizing collection with
  | nil => exact lawful
  | cons id rest ih =>
      have lawful' := lawful.remove id
      rcases ran : collection.remove id with ⟨_ | doc, after⟩
      · rw [ran] at lawful'
        simp only [Collection.removeAll, ran]
        exact lawful'
      · rw [ran] at lawful'
        simp only [Collection.removeAll, ran]
        exact ih lawful'

theorem ensureIndex (lawful : collection.Lawful made) (attributes : List String)
    (kind : IndexKind) : (collection.ensureIndex attributes kind).2.Lawful made := by
  obtain ⟨-, ran⟩ | ⟨_, -, -, ran⟩ | ⟨-, -, ran⟩ |
      ⟨after, ran, sound, documents, -, same | fresh⟩ :=
    ensureIndex_spec lawful.sound attributes kind
  · rw [ran]
    exact lawful
  · rw [ran]
    exact lawful
  · rw [ran]
    exact lawful
  · rw [ran, same]
    exact lawful
  · rw [ran]
    refine ⟨sound, lawful.ordered.of_documents documents, lawful.requests, ?_⟩
    intro cache kept digest program found
    rw [fresh cache kept] at found
    cases found

theorem findIds (lawful : collection.Lawful made) {predicate : Json} (ordered : predicate.Ordered)
    (conditions : Conditions) : (collection.findIds predicate conditions).2.Lawful
      (.query predicate conditions :: made) := by
  have planned := lawful.plan ordered conditions
  cases ran : collection.plan predicate conditions with
  | mk outcome between =>
      rw [ran] at planned
      cases outcome with
      | error error =>
          simp only [Collection.findIds, ran]
          exact planned.1
      | ok program =>
          simp only [Collection.findIds, ran]
          exact planned.1.run (planned.2 program rfl) (fun _ absent => by cases absent)
            (fun _ absent => by cases absent) false

theorem delete (lawful : collection.Lawful made) {predicate : Json} (ordered : predicate.Ordered) :
    (collection.delete predicate).2.Lawful (.query predicate Conditions.none :: made) := by
  have found := lawful.findIds ordered Conditions.none
  unfold Collection.delete
  cases ran : collection.findIds predicate Conditions.none with
  | mk outcome between =>
      rw [ran] at found
      cases outcome with
      | error error => exact found
      | ok ids => exact found.removeAll ids

theorem update (lawful : collection.Lawful made) {predicate mutation : Json}
    (ordered : predicate.Ordered) (ordered' : mutation.Ordered) (upsert : Bool) :
    (collection.update predicate mutation upsert).2.Lawful
      (.mutation mutation :: .query predicate Conditions.none :: made) := by
  have planned := lawful.plan ordered Conditions.none
  cases ran : collection.plan predicate Conditions.none with
  | mk outcome between =>
      rw [ran] at planned
      cases outcome with
      | error error =>
          simp only [Collection.update, ran]
          exact planned.1.mono (List.subset_cons_self _ _)
            (List.forall_mem_cons.2 ⟨ordered', planned.1.requests⟩)
      | ok program =>
          have planned' := planned.1.planMutation ordered'
          obtain ⟨-, -, proper⟩ := planMutation_spec planned.1.sound mutation
          cases ran' : between.planMutation mutation with
          | mk outcome' between' =>
              rw [ran'] at planned' proper
              cases outcome' with
              | error error =>
                  simp only [Collection.update, ran, ran']
                  exact planned'.1
              | ok mutations =>
                  simp only [Collection.update, ran, ran']
                  apply planned'.1.run (planned.2 program rfl)
                  · intro p same
                    exact proper p (congrArg Except.ok (Option.some.inj same))
                  · intro p same
                    exact planned'.2 p (congrArg Except.ok (Option.some.inj same))

theorem perform (lawful : collection.Lawful made) {call : Call} (ordered : call.Ordered) :
    (collection.perform call).2.Lawful (call.requests ++ made) := by
  cases call with
  | insert doc => exact lawful.insert ordered
  | insertMany docs => exact lawful.insertMany ordered
  | remove id => exact lawful.remove id
  | update predicate mutation upsert => exact lawful.update ordered.1 ordered.2 upsert
  | delete predicate => exact lawful.delete ordered
  | ensureIndex attributes kind => exact lawful.ensureIndex attributes kind

end Lawful

theorem Reached.lawful (reached : Reached made collection) : collection.Lawful made := by
  induction reached with
  | created valid created => exact .created valid created
  | performed reached ordered ih => exact ih.perform ordered
  | found reached ordered conditions ih => exact ih.findIds ordered conditions
  | explained reached ordered conditions ih => exact ih.keep ordered
  | explainedMutation reached ordered ih => exact ih.keep ordered

theorem Reached.performAll (reached : Reached made collection) {calls : List Call}
    (ordered : ∀ call ∈ calls, call.Ordered) :
    Reached (calls.reverse.flatMap Call.requests ++ made) (collection.performAll calls) := by
  induction calls generalizing made collection with
  | nil => exact reached
  | cons call rest ih =>
      obtain ⟨first, others⟩ := List.forall_mem_cons.1 ordered
      have later := ih (reached.performed first) others
      rw [List.reverse_cons, List.flatMap_append, List.flatMap_singleton, List.append_assoc]
      exact later

def person (name town : String) : Json :=
  .object [("name", .string name), ("town", .string town)]

def people : Collection :=
  performAll ⟨Store.empty "people", Config.default, 1, some ⟨Recent.empty 256, 0, 0⟩⟩
    [.insert (person "ann" "york"), .insert (person "bob" "bath"), .insert (person "cid" "york")]

def peopleByName : Collection :=
  people.performAll [.ensureIndex ["name"] .tree]

theorem ordered_person (name town : String) : (person name town).Ordered := by
  refine ⟨?_, trivial, trivial, trivial⟩
  exact (by decide : ["name", "town"].Pairwise (· < ·))

theorem reached_people : Reached [] people := by
  have valid : Config.default.validate = .ok () := rfl
  have start : Reached [] _ := .created valid (show Collection.create "people" _ = .ok _ from rfl)
  have reached : Reached _ people := start.performAll <| by
    intro call there
    simp only [List.mem_cons, List.not_mem_nil, or_false] at there
    obtain rfl | rfl | rfl := there <;> exact ordered_person _ _
  exact reached

theorem reached_peopleByName : Reached [] peopleByName := by
  have reached : Reached _ peopleByName := reached_people.performAll <| by
    intro call there
    obtain rfl := List.mem_singleton.1 there
    trivial
  exact reached

theorem attributes_peopleByName : peopleByName.store.indices.map Index.attributes = [["name"]] :=
  rfl

def measured (value : Json) : Json := .object [("a", value)]

theorem isFinite_middle : (Binary64.ofInt 18014398509481984).isFinite = true := by
  decide +kernel

/-- The middle value hides two others of which one is greater from each other. -/
def measurements : Collection :=
  let high := measured (Json.ofInt 18014398509481985)
  let middle := measured (.number (.float (.ofInt 18014398509481984) isFinite_middle))
  let low := measured (Json.ofInt 18014398509481984)
  performAll ⟨Store.empty "measurements", Config.default, 1, some ⟨Recent.empty 256, 0, 0⟩⟩
    [.insertMany ([high, low, high, high] ++ List.replicate 8 middle ++ List.replicate 12 low)]

theorem reached_measurements : Reached [] measurements := by
  have valid : Config.default.validate = .ok () := rfl
  have start : Reached [] _ :=
    .created valid (show Collection.create "measurements" _ = .ok _ from rfl)
  have reached : Reached _ measurements := start.performAll <| by
    intro call there
    obtain rfl := List.mem_singleton.1 there
    intro doc inside
    simp only [List.mem_append, List.mem_cons, List.not_mem_nil, or_false, List.mem_replicate]
      at inside
    obtain ((rfl | rfl | rfl | rfl) | ⟨-, rfl⟩) | ⟨-, rfl⟩ := inside <;>
      exact ⟨List.pairwise_singleton _ _, trivial, trivial⟩
  exact reached

end Collection
end Docstore
