import Docstore.Proofs.Collection.Queries
import Docstore.Proofs.Machine.Mutating

set_option autoImplicit false

namespace Docstore

open Mutation

namespace Collection

variable {collection : Collection} {made : List Request} {predicate : Json} {program : Program}

/-- How a mutation phase may end: it halts, or a mutation fails on a selected document. -/
inductive Concluded (upsert : Bool) (mutations : List Mutation) (documents : Table DocId Json)
    (ids : List DocId) (last : Machine) : Option Error → Prop
  | halted (halted : last.halted = true) : Concluded upsert mutations documents ids last none
  | refused {error : Error} (refused : Refused upsert mutations documents ids error) :
      Concluded upsert mutations documents ids last (some error)

/-- The query phase of a request ends in time, with documents to select from in their places. -/
structure Queried (collection : Collection) (program : Program) (pending : Option Program)
    (upsert : Bool) (after : Machine) (between : Store) : Prop where
  ends : ∃ count, count ≤ program.length * (after.documents.length + 1) ∧
    Machine.Ends count (Machine.load program pending upsert) collection.store none after between
  halted : after.halted = true
  running : after.running = false
  load : Machine.SameLoad after (Machine.load program pending upsert)
  keeps : Machine.KeepsDocuments between collection.store
  few : after.documents.length ≤ collection.size
  nodup : after.result.Nodup
  stored : ∀ id ∈ after.result, ∃ doc, collection.get? id = some doc

/-- The query phase of the program of a predicate halts with the answer, if that can be sorted as
asked. -/
theorem queried (sound : collection.Sound) {query : Query} {refs : List IndexRef}
    {residual : List QueryNode} {conditions : Conditions}
    (selected : Query.Selected collection.store.indices query refs residual)
    (compiled : Program.ofQuery ⟨refs.map .lookup ++ residual⟩ conditions collection.store.name =
      .ok program)
    (arrangeable : collection.store.Arrangeable conditions (collection.store.kept refs residual))
    (pending : Option Program) (upsert : Bool) :
    ∃ after between, Queried collection program pending upsert after between ∧
      after.result = collection.store.answer refs residual conditions := by
  obtain ⟨count, failure, after, between, few, ends, -, concludes⟩ :=
    Program.query_program_ends sound.store selected.formed selected.serves compiled pending upsert
  cases concludes with
  | unranked refused => exact absurd arrangeable refused
  | answered _ answered =>
      obtain ⟨nodup, stored⟩ :=
        Store.answer_spec sound.store selected.serves residual conditions
      have size := candidates_le_size sound selected.serves
      rw [← answered.documents] at few size
      rw [← answered.result] at nodup stored
      have load := Machine.runPhase_sameLoad count (Machine.load program pending upsert)
        collection.store
      have quiet : (Machine.load program pending upsert).Quiet := .inl rfl
      have keeps := Machine.runPhase_keeps count quiet sound.store
      rw [ends.runPhase_eq (Nat.le_refl count)] at load keeps
      exact ⟨after, between, ⟨⟨count, few, ends⟩, answered.halted, answered.stopped, load, keeps,
        size, nodup, stored⟩, answered.result⟩

/-- What cannot be sorted as asked ends the query phase, in time as well. -/
theorem query_breaks_down (sound : collection.Sound) {query : Query} {refs : List IndexRef}
    {residual : List QueryNode} {conditions : Conditions}
    (selected : Query.Selected collection.store.indices query refs residual)
    (compiled : Program.ofQuery ⟨refs.map .lookup ++ residual⟩ conditions collection.store.name =
      .ok program)
    (refused : ¬ collection.store.Arrangeable conditions (collection.store.kept refs residual))
    (pending : Option Program) (upsert : Bool) :
    ∃ count after between, count ≤ program.length * (after.documents.length + 1) ∧
      Machine.Ends count (Machine.load program pending upsert) collection.store
        (some .unrankedValues) after between := by
  obtain ⟨count, failure, after, between, few, ends, -, concludes⟩ :=
    Program.query_program_ends sound.store selected.formed selected.serves compiled pending upsert
  cases concludes with
  | answered arrangeable => exact absurd arrangeable refused
  | unranked _ documents =>
      rw [← documents] at few
      exact ⟨count, after, between, few, ends⟩

/-- The mutation phase of a request ends in time, and does what the mutations ask. -/
theorem Queried.ends_mutations {pending : Option Program} {upsert : Bool} {after : Machine}
    {between : Store} (queried : Queried collection program pending upsert after between)
    (mutations : List Mutation) :
    ∃ count last store,
      count ≤ (Program.ofMutations mutations).length * (after.result.length + 1) ∧
      Machine.Ends count (after.enterMutate (Program.ofMutations mutations)) between
        (Machine.failureOf
          (applyEach upsert mutations after.result collection.store.documents).1) last store ∧
      store.documents = (applyEach upsert mutations after.result collection.store.documents).2 ∧
      last.result = after.result ∧
      ((applyEach upsert mutations after.result collection.store.documents).1 = .ok () →
        last.halted = true) := by
  have stored : ∀ id ∈ after.result, ∃ doc, between.document? id = some doc := by
    intro id there
    rw [Store.document?, queried.keeps.documents]
    exact queried.stored id there
  have ends := Machine.ends_enterMutate queried.keeps.sound stored mutations
  rw [queried.keeps.documents, show after.upsert = upsert from queried.load.upsert] at ends
  exact ends

/-- The mutation program of a mutation object ends in one pass for each document and one more, and
fails only where a mutation of a selected document does. -/
theorem Queried.mutates {pending : Option Program} {upsert : Bool} {after : Machine}
    {between : Store} (queried : Queried collection program pending upsert after between)
    {source : Json} {program' : Program} (compiled : Program.ofMutation source = .ok program') :
    ∃ mutations outcome last store, Mutation.parse source = .ok mutations ∧
      (∀ fuel, program'.length * (after.result.length + 1) ≤ fuel →
        Machine.runPhase fuel (after.enterMutate program') between = (outcome, last, store)) ∧
      Concluded upsert mutations collection.store.documents after.result last outcome := by
  obtain ⟨mutations, read, -, rfl⟩ := Program.ofMutation_eq_ok.1 compiled
  obtain ⟨count, last, store, few, ends, -, -, halted⟩ := queried.ends_mutations mutations
  generalize result : (applyEach upsert mutations after.result
    collection.store.documents).1 = outcome at ends halted
  refine ⟨mutations, Machine.failureOf outcome, last, store, read, ?_, ?_⟩
  · intro fuel enough
    exact ends.runPhase_eq (few.trans enough)
  · cases outcome with
    | ok _ => exact .halted (halted rfl)
    | error error => exact .refused (refused_of_applyEach queried.nodup queried.stored result)

/-- A query that is accepted, on a collection whose indices repeat no attribute, is selected,
compiled and run to its end without failure, unless the values to sort by are not ranked. A mutation
program behind it fails only where a mutation of a selected document does. Neither takes more than
one pass through its program for each document and one more. -/
theorem accepted_query_runs (reached : Reached made collection)
    (distinct : ∀ index ∈ collection.store.indices, index.attributes.Nodup) {query : Query}
    (read : Query.parse predicate = .ok query) (conditions : Conditions)
    (pending : Option Program) (upsert : Bool) :
    ∃ refs residual program failure after between,
      query.select collection.store.indices = .ok ⟨refs.map .lookup ++ residual⟩ ∧
      Program.ofQuery ⟨refs.map .lookup ++ residual⟩ conditions collection.store.name =
        .ok program ∧
      (∀ fuel, program.length * (after.documents.length + 1) ≤ fuel →
        Machine.runPhase fuel (Machine.load program pending upsert) collection.store =
          (failure, after, between)) ∧
      (collection.store.Arrangeable conditions (collection.store.kept refs residual) →
        failure = none ∧ after.halted = true ∧ after.isSuspended = false ∧
        ∀ source program', Program.ofMutation source = .ok program' →
          ∃ mutations outcome last store, Mutation.parse source = .ok mutations ∧
            (∀ fuel, program'.length * (after.result.length + 1) ≤ fuel →
              Machine.runPhase fuel (after.enterMutate program') between = (outcome, last, store)) ∧
            Concluded upsert mutations collection.store.documents after.result last outcome) ∧
      (¬ collection.store.Arrangeable conditions (collection.store.kept refs residual) →
        failure = some .unrankedValues) ∧
      ((∀ spec, conditions.sort = some spec →
          collection.store.ClearAt spec.path (collection.store.kept refs residual)) →
        collection.store.Arrangeable conditions (collection.store.kept refs residual)) := by
  have sound := reached.lawful.sound
  obtain ⟨formed, -, -⟩ := Query.parse_spec Json.inherited_any trivial read
  obtain ⟨-, repeated⟩ | ⟨refs, residual, chosen, selected⟩ :=
    Query.select_spec collection.store.indices formed
  · exact absurd distinct repeated
  · obtain ⟨program, compiled⟩ :=
      ofQuery_ok refs selected.formed conditions collection.store.name
    by_cases arrangeable :
        collection.store.Arrangeable conditions (collection.store.kept refs residual)
    · obtain ⟨after, between, queried, -⟩ :=
        queried sound selected compiled arrangeable pending upsert
      refine ⟨refs, residual, program, none, after, between, chosen, compiled, ?_, ?_,
        absurd arrangeable, fun _ => arrangeable⟩
      · intro fuel enough
        obtain ⟨count, few, ends⟩ := queried.ends
        exact ends.runPhase_eq (few.trans enough)
      · intro _
        refine ⟨rfl, queried.halted, ?_, ?_⟩
        · rw [Machine.isSuspended, queried.halted, Bool.not_true, Bool.and_false, Bool.false_and]
        · intro source program' made'
          exact queried.mutates made'
    · obtain ⟨count, after, between, few, ends⟩ :=
        query_breaks_down sound selected compiled arrangeable pending upsert
      refine ⟨refs, residual, program, _, after, between, chosen, compiled, ?_,
        fun other => absurd other arrangeable, fun _ => rfl, Store.arrangeable_of_clear⟩
      intro fuel enough
      exact ends.runPhase_eq (few.trans enough)

/-- The people behind "ann" are found in descending order, though no number can be added to their
towns. -/
theorem people_query_runs :
    let query : Query := ⟨[.field "name" [⟨.gt, .literal (.string "ann")⟩]]⟩
    let conditions : Conditions := ⟨some ⟨"name", .descending⟩, none⟩
    let source := Json.object [("$inc", .object [("town", Json.ofInt 1)])]
    ∃ selected program program' after between,
      query.select peopleByName.store.indices = .ok selected ∧
      Program.ofQuery selected conditions "people" = .ok program ∧
      Program.ofMutation source = .ok program' ∧
      Machine.runPhase (program.length * (after.documents.length + 1))
        (Machine.load program none false) peopleByName.store = (none, after, between) ∧
      after.halted = true ∧ after.isSuspended = false ∧
      ∃ mutations outcome last store, Mutation.parse source = .ok mutations ∧
        Machine.runPhase (program'.length * (after.result.length + 1))
          (after.enterMutate program') between = (outcome, last, store) ∧
        Concluded false mutations peopleByName.store.documents after.result last outcome := by
  intro query conditions source
  have distinct : ∀ index ∈ peopleByName.store.indices, index.attributes.Nodup :=
    inScope_peopleByName.attributes
  have read : Query.parse (.object [("name", .object [("$gt", .string "ann")])]) = .ok query := rfl
  obtain ⟨refs, residual, program, failure, after, between, chosen, compiled, run, sorted,
      -, clear⟩ :=
    accepted_query_runs reached_peopleByName distinct read conditions none false
  have texts : ∀ spec, conditions.sort = some spec →
      peopleByName.store.ClearAt spec.path (peopleByName.store.kept refs residual) := by
    intro spec asked
    obtain rfl := Option.some.inj asked
    apply Store.clearAt_of_small
    intro id _
    rw [Store.valueAt]
    cases stored : peopleByName.store.document? id with
    | none => trivial
    | some doc =>
        obtain ⟨name, text⟩ := name_peopleByName stored
        rw [Option.bind_some, text]
        trivial
  obtain ⟨rfl, halted, going, mutates⟩ := sorted (clear texts)
  have accepted : Program.ofMutation source = .ok _ := rfl
  obtain ⟨mutations, outcome, last, store, read', run', concluded⟩ := mutates source _ accepted
  exact ⟨_, program, _, after, between, chosen, compiled, accepted, run _ (Nat.le_refl _),
    halted, going, mutations, outcome, last, store, read', run' _ (Nat.le_refl _), concluded⟩

/-- All measurements are asked for, in the order of their values. The query is accepted, and its run
breaks down. -/
theorem measurements_stall :
    let conditions : Conditions := ⟨some ⟨"a", .ascending⟩, none⟩
    Reached [] measurements ∧ Query.parse (.object []) = .ok ⟨[]⟩ ∧
    (∀ index ∈ measurements.store.indices, index.attributes.Nodup) ∧
    ∃ program count after between, Query.select measurements.store.indices ⟨[]⟩ = .ok ⟨[]⟩ ∧
      Program.ofQuery ⟨[]⟩ conditions "measurements" = .ok program ∧
      Machine.Ends count (Machine.load program none false) measurements.store
        (some .unrankedValues) after between := by
  intro conditions
  have read : Query.parse (.object []) = .ok ⟨[]⟩ := rfl
  have plain : ∀ index ∈ measurements.store.indices, index.attributes.Nodup := by
    have bare : measurements.store.indices = [] := rfl
    rw [bare]
    exact List.forall_mem_nil _
  obtain ⟨formed, -, -⟩ := Query.parse_spec Json.inherited_any trivial read
  obtain ⟨program, compiled⟩ := ofQuery_ok [] formed conditions "measurements"
  obtain ⟨count, after, between, -, ends⟩ := query_breaks_down
    reached_measurements.lawful.sound (Query.selected_self formed) compiled
    not_arrangeable_measurements none false
  exact ⟨reached_measurements, read, plain, program, count, after, between, rfl, compiled, ends⟩

/-- A machine that has halted on a query goes on with the mutations, and answers with its result
unless one of them fails. -/
theorem Queried.execute_eq {mutations : List Mutation} {upsert : Bool} {after : Machine}
    {between : Store} (sound : collection.Sound)
    (queried : Queried collection program (some (Program.ofMutations mutations)) upsert after
      between) :
    ∃ last store, Machine.execute
        (collection.budget (program.length + (Program.ofMutations mutations).length))
        collection.store program (some (Program.ofMutations mutations)) upsert =
      ((applyEach upsert mutations after.result collection.store.documents).1.map
        fun _ => after.result, last, store) ∧
      store.documents = (applyEach upsert mutations after.result collection.store.documents).2 := by
  obtain ⟨count, few, ends⟩ := queried.ends
  obtain ⟨count', last, store, few', ends', documents, result, -⟩ :=
    queried.ends_mutations mutations
  have enough := passes_le_budget
    (Nat.le_add_right program.length (Program.ofMutations mutations).length) queried.few
  have enough' := passes_le_budget
    (Nat.le_add_left (Program.ofMutations mutations).length program.length)
    (Store.length_le_order sound.store queried.nodup queried.stored)
  have first := ends.runPhase_eq (few.trans enough)
  have second := ends'.runPhase_eq (few'.trans enough')
  have phase : after.phase = .query := queried.load.phase
  have pending : after.pending = some (Program.ofMutations mutations) := queried.load.pending
  cases outcome : (applyEach upsert mutations after.result collection.store.documents).1 with
  | ok _ =>
      rw [outcome] at second
      refine ⟨last, store, ?_, documents⟩
      simp only [Machine.execute, Machine.drive, Machine.run, first, queried.halted, phase, pending,
        second, Machine.failureOf, result, Except.map]
  | error error =>
      rw [outcome] at second
      have mended : error.isBreakdown = false := by
        cases refused_of_applyEach queried.nodup queried.stored outcome
        rfl
      refine ⟨last.fail, last.settleFailure store, ?_, ?_⟩
      · simp only [Machine.execute, Machine.drive, Machine.run, first, queried.halted, phase,
          pending, second, Machine.failureOf, mended, Bool.false_eq_true, if_false, Except.map]
      · rw [Machine.documents_settleFailure, documents]

/-- An update does to the documents that its predicate selects what its mutations ask. -/
theorem update_eq (lawful : collection.Lawful made) {source : Json} (upsert : Bool)
    {mutations : List Mutation} {ids : List DocId}
    (distinct : Request.Distinct (.mutation source :: .query predicate Conditions.none :: made))
    (compiled : Program.ofMutation source = .ok (Program.ofMutations mutations))
    (found : (collection.findIds predicate Conditions.none).1 = .ok ids) :
    ((collection.update predicate source upsert).1 =
        (applyEach upsert mutations ids collection.store.documents).1.map fun _ => ids.length) ∧
      (collection.update predicate source upsert).2.store.documents =
        (applyEach upsert mutations ids collection.store.documents).2 ∧
      (collection.update predicate source upsert).2.ids = collection.ids ∧
      ids.Nodup ∧ ∀ id ∈ ids, ∃ doc, collection.get? id = some doc := by
  have distinct' := distinct.mono (List.subset_cons_self _ _)
  have planned := findIds_planned lawful distinct'
  obtain ⟨between, kept, same, sound, remembers⟩ :=
    keep_fresh lawful.sound lawful.remembers distinct'
  obtain ⟨last, kept', same', -⟩ := keep_fresh sound remembers distinct
  have plans : collection.plan predicate Conditions.none =
    (collection.compileQuery predicate Conditions.none, between) := kept
  have plans' : between.planMutation source =
    (Collection.compiled (Program.ofMutation source), last) := kept'
  rw [compiled_eq_ok.2 compiled] at plans'
  rw [found] at planned
  generalize collection.compileQuery predicate Conditions.none = plan at planned plans
  cases planned with
  | @compiled _ _ _ program _ selected compiled' =>
      obtain ⟨after, store, queried, result⟩ := queried lawful.sound selected compiled'
        (Store.arrangeable_unsorted _ _ _) (some (Program.ofMutations mutations)) upsert
      have store' : last.store = collection.store := same'.trans same
      have budget (instructions : Nat) : last.budget instructions =
          collection.budget instructions := by
        rw [Collection.budget, Collection.budget, size, size, store']
      obtain ⟨machine, store'', executed, documents⟩ := queried.execute_eq lawful.sound
      have proper : ∀ p, some (Program.ofMutations mutations) = some p → Machine.Proper p := by
        rintro p ⟨⟩
        exact .inr ⟨mutations, rfl⟩
      obtain ⟨-, outline⟩ := Machine.execute_sound (collection.budget
        (program.length + (Program.ofMutations mutations).length)) lawful.sound.store program proper
        upsert
      rw [executed] at outline
      rw [← result]
      simp only [update, plans, plans', run, store', budget, Option.getD_some, executed]
      refine ⟨?_, documents, outline.order, queried.nodup, queried.stored⟩
      cases (applyEach upsert mutations after.result collection.store.documents).1 with
      | ok _ => rfl
      | error error => rfl

def Accepts (collection : Collection) (upsert : Bool) (mutations : List Mutation) (id : DocId) :
    Prop :=
  ∃ doc, collection.get? id = some doc ∧ (applyAll upsert mutations doc).1 = .ok ()

/-- Some documents have been given mutations, and all else is as it was. -/
structure Mutated (upsert : Bool) (mutations : List Mutation) (ids : List DocId)
    (before after : Collection) : Prop where
  changed : ∀ id ∈ ids, ∀ doc, before.get? id = some doc →
    after.get? id = some (applyAll upsert mutations doc).2
  others : ∀ id, id ∉ ids → after.get? id = before.get? id
  order : after.ids = before.ids

theorem mutated_of_succeeds {upsert : Bool} {mutations : List Mutation} {ids : List DocId}
    {after : Collection} (documents : after.store.documents =
      (applyEach upsert mutations ids collection.store.documents).2)
    (order : after.ids = collection.ids) (nodup : ids.Nodup)
    (succeeds : ∀ id ∈ ids, collection.Accepts upsert mutations id) :
    Mutated upsert mutations ids collection after := by
  obtain ⟨-, changed, others⟩ := applyEach_succeeds nodup succeeds
  rw [← documents] at changed others
  exact ⟨changed, others, order⟩

theorem mutated_of_fails {upsert : Bool} {mutations : List Mutation} {before behind : List DocId}
    {id : DocId} {doc : Json} {error : Error} {after : Collection}
    (documents : after.store.documents =
      (applyEach upsert mutations (before ++ id :: behind) collection.store.documents).2)
    (order : after.ids = collection.ids) (nodup : (before ++ id :: behind).Nodup)
    (succeeds : ∀ id ∈ before, collection.Accepts upsert mutations id)
    (stored : collection.get? id = some doc)
    (failed : (applyAll upsert mutations doc).1 = .error error) :
    Mutated upsert mutations (before ++ [id]) collection after := by
  obtain ⟨nodup', -, apart⟩ := List.nodup_append.1 nodup
  obtain ⟨-, changed, others⟩ := applyEach_succeeds nodup' succeeds
  rw [applyEach_fails nodup succeeds stored failed] at documents
  have after_get (other : DocId) : after.get? other =
      if id = other then some (applyAll upsert mutations doc).2
      else (applyEach upsert mutations before collection.store.documents).2.get? other := by
    rw [get?, Store.document?, documents, Table.get?_put]
  refine ⟨?_, ?_, order⟩
  · intro other there doc' stored'
    rw [after_get]
    obtain there | there := List.mem_append.1 there
    · rw [if_neg (apart other there id List.mem_cons_self).symm]
      exact changed other there doc' stored'
    · obtain rfl := List.mem_singleton.1 there
      rw [stored] at stored'
      rw [if_pos rfl, Option.some.inj stored']
  · intro other absent
    obtain ⟨absent, absent'⟩ := not_or.1 (mt List.mem_append.2 absent)
    rw [after_get, if_neg (Ne.symm (mt List.mem_singleton.2 absent')), others other absent]
    rfl

/-- An update gives each document that its predicate selects the mutations of its mutation object
once, in the order of their operators and paths. Where they succeed on all, it answers with the
number of the documents. The first document on which they fail ends the update: it carries just the
mutations before the one that failed, and those behind it are as they were. -/
theorem update_mutates_once (reached : Reached made collection) {source : Json}
    (ordered : source.Ordered)
    (distinct : Request.Distinct (.mutation source :: .query predicate Conditions.none :: made))
    (accepted : Program.ofMutation source = .ok program) {ids : List DocId}
    (found : (collection.findIds predicate Conditions.none).1 = .ok ids) (upsert : Bool) :
    ∃ mutations, Mutation.parse source = .ok mutations ∧ mutations.Pairwise Before ∧ ids.Nodup ∧
      ((∀ id ∈ ids, collection.Accepts upsert mutations id) →
        (collection.update predicate source upsert).1 = .ok ids.length ∧
        Mutated upsert mutations ids collection
          (collection.update predicate source upsert).2) ∧
      ∀ before id behind doc error, ids = before ++ id :: behind →
        (∀ other ∈ before, collection.Accepts upsert mutations other) →
        collection.get? id = some doc → (applyAll upsert mutations doc).1 = .error error →
        (collection.update predicate source upsert).1 = .error error ∧
        Mutated upsert mutations (before ++ [id]) collection
          (collection.update predicate source upsert).2 ∧
        ∃ front mutation rest fault, mutations = front ++ mutation :: rest ∧
          (applyAll upsert front doc).1 = .ok () ∧
          (collection.update predicate source upsert).2.get? id =
            some (applyAll upsert front doc).2 ∧
          (mutation.apply upsert (applyAll upsert front doc).2).1 = .error fault ∧
          error = .inOpcode mutation.op.opcode fault := by
  have lawful := reached.lawful
  obtain ⟨mutations, read, -, rfl⟩ := Program.ofMutation_eq_ok.1 accepted
  obtain ⟨outcome, documents, order, nodup, -⟩ := update_eq lawful upsert distinct accepted found
  refine ⟨mutations, read, before_parse ordered read, nodup, ?_, ?_⟩
  · intro succeeds
    obtain ⟨done, -⟩ := applyEach_succeeds nodup succeeds
    apply And.intro _ (mutated_of_succeeds documents order nodup succeeds)
    rw [outcome, done]
    rfl
  · rintro before id behind doc error rfl succeeds stored failed
    have mutated := mutated_of_fails documents order nodup succeeds stored failed
    refine ⟨?_, mutated, ?_⟩
    · rw [outcome, applyEach_fails nodup succeeds stored failed]
      rfl
    · obtain ⟨front, mutation, rest, fault, parts, ran, refused, same⟩ :=
        applyAll_failed (ordered_parse ordered read) (lawful.ordered id doc stored) failed
      have there : id ∈ before ++ [id] := List.mem_append_right _ (List.mem_singleton_self id)
      refine ⟨front, mutation, rest, fault, parts, congrArg Prod.fst ran, ?_, ?_, same⟩
      · rw [mutated.changed id there doc stored, ran]
      · rw [ran]
        exact refused

/-- The people behind "ann" are renamed once, although they match again with their new name. If they
are to be given an age and then a second name, the first of them gets the age and no other. -/
theorem people_updated_once :
    let predicate := Json.object [("name", .object [("$gt", .string "ann")])]
    let rename := Json.object [("$set", .object [("name", .string "dan")])]
    let age : Mutation := ⟨.inc, "age", Json.ofInt 30⟩
    let extend : Mutation := ⟨.push, "name", .string "dan"⟩
    let both := Json.object [("$inc", .object [("age", Json.ofInt 30)]),
      ("$push", .object [("name", .string "dan")])]
    (peopleByName.findIds predicate Conditions.none).1 = .ok [2, 3] ∧
      ((peopleByName.update predicate rename false).1 = .ok 2 ∧
        Mutated false [⟨.set, "name", .string "dan"⟩] [2, 3] peopleByName
          (peopleByName.update predicate rename false).2) ∧
      (peopleByName.update predicate both false).1 =
        .error (.inOpcode .push (.targetNotArray "name")) ∧
      Mutated false [age, extend] [2] peopleByName (peopleByName.update predicate both false).2 ∧
      ((peopleByName.update predicate both false).2.get? 2).bind (·.lookup "age") =
        some (Json.ofInt 30) := by
  intro predicate rename age extend both
  have found : (peopleByName.findIds predicate Conditions.none).1 = .ok [2, 3] := rfl
  have fresh : ∀ source ∈ [rename, both], (Request.query predicate Conditions.none).digest ≠
    (Request.mutation source).digest := by decide +kernel
  have distinct (source : Json) (there : source ∈ [rename, both]) :=
    (Request.distinct_singleton (.query predicate Conditions.none)).cons
      (List.forall_mem_singleton.2 (fresh source there))
  have renames : Program.ofMutation rename =
    .ok (Program.ofMutations [⟨.set, "name", .string "dan"⟩]) := rfl
  have ordered : rename.Ordered := ⟨by decide, ⟨by decide, trivial, trivial⟩, trivial⟩
  obtain ⟨mutations, read, -, -, succeeds, -⟩ := update_mutates_once reached_peopleByName ordered
    (distinct rename List.mem_cons_self) renames found false
  obtain rfl := Except.ok.inj read
  have accepts : ∀ id ∈ [2, 3], peopleByName.Accepts false
      [⟨.set, "name", .string "dan"⟩] id :=
    List.forall_mem_cons.2 ⟨⟨_, rfl, rfl⟩, List.forall_mem_singleton.2 ⟨_, rfl, rfl⟩⟩
  have changes : Program.ofMutation both = .ok (Program.ofMutations [age, extend]) := rfl
  have ordered' : both.Ordered :=
    ⟨by decide, ⟨by decide, trivial, trivial⟩, ⟨by decide, trivial, trivial⟩, trivial⟩
  obtain ⟨mutations, read, -, -, -, fails⟩ := update_mutates_once reached_peopleByName ordered'
    (distinct both (List.mem_cons_of_mem rename List.mem_cons_self)) changes found false
  obtain rfl := Except.ok.inj read
  obtain ⟨refused, mutated, -⟩ := fails [] 2 [3] _ (.inOpcode .push (.targetNotArray "name")) rfl
    (fun _ inside => by cases inside) rfl rfl
  refine ⟨found, succeeds accepts, refused, mutated, ?_⟩
  rw [mutated.changed 2 (List.mem_singleton_self 2) _ rfl]
  rfl

end Collection
end Docstore
