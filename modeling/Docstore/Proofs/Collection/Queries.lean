import Docstore.Proofs.Collection.Reached
import Docstore.Proofs.Program.Answering

set_option autoImplicit false

namespace Docstore

namespace Machine

variable {program : Program} {store between : Store} {after : Machine}

/-- Without a pending program, a machine that halts answers with its result. -/
theorem execute_of_ends {count fuel : Nat} {upsert : Bool}
    (ends : Ends count (load program none upsert) store none after between)
    (halted : after.halted = true) (enough : count ≤ fuel) :
    execute fuel store program none upsert = (.ok after.result, after, between) := by
  have ended := ends.runPhase_eq enough
  have same := runPhase_sameLoad fuel (load program none upsert) store
  rw [ended] at same
  have idle : after.pending = none := same.pending
  have phase : after.phase = .query := same.phase
  simp only [execute, drive, run, ended, halted, phase, idle]

theorem execute_of_breakdown {count fuel : Nat} {pending : Option Program} {upsert : Bool}
    {error : Error}
    (ends : Ends count (load program pending upsert) store (some error) after between)
    (broken : error.isBreakdown = true) (enough : count ≤ fuel) :
    execute fuel store program pending upsert = (.error error, after, between) := by
  have ended := ends.runPhase_eq enough
  simp only [execute, drive, run, ended, broken, if_true]

end Machine

namespace Collection

variable {collection : Collection} {made : List Request} {refs : List IndexRef}
  {residual : List QueryNode} {predicate : Json} {conditions : Conditions} {program : Program}

theorem ofQuery_ok (refs : List IndexRef) (formed : QueryNode.AllFormed (fun _ => True) residual)
    (conditions : Conditions) (name : String) :
    ∃ program, Program.ofQuery ⟨refs.map .lookup ++ residual⟩ conditions name = .ok program := by
  obtain ⟨blocks, compiled, -⟩ := Program.blocksOfAll_spec formed
  exact ⟨_, Program.ofQuery_eq formed compiled conditions name⟩

theorem candidates_le_size (sound : collection.Sound)
    (serves : ∀ ref ∈ refs, ref.Serves collection.store.indices) :
    (collection.store.candidates refs).length ≤ collection.size := by
  obtain ⟨nodup, member⟩ := Store.candidates_spec sound.store serves
  apply Store.length_le_order sound.store nodup
  intro id there
  obtain ⟨doc, stored, -⟩ := (member id).1 there
  exact ⟨doc, stored⟩

/-- The budget of a collection suffices for one pass for each of so many documents and one more. -/
theorem passes_le_budget {length instructions count : Nat} (part : length ≤ instructions)
    (few : count ≤ collection.size) : length * (count + 1) ≤ collection.budget instructions :=
  Nat.mul_le_mul part (Nat.add_le_add_right few 1)

/-- How a query is executed: what is to be sorted can be, and the machine halts with the answer, or
the sort is refused. -/
inductive Executed (store : Store) (refs : List IndexRef) (residual : List QueryNode)
    (conditions : Conditions) : Except Error (List DocId) → Machine → Prop
  | answered {after : Machine}
      (arrangeable : store.Arrangeable conditions (store.kept refs residual))
      (halted : after.halted = true) (stack : after.stack = []) :
      Executed store refs residual conditions (.ok (store.answer refs residual conditions)) after
  | unranked {after : Machine}
      (refused : ¬ store.Arrangeable conditions (store.kept refs residual)) :
      Executed store refs residual conditions (.error .unrankedValues) after

/-- A query program is executed in the budget of its collection, and changes nothing that a query
asks for. -/
theorem executes (sound : collection.Sound)
    (formed : QueryNode.AllFormed (fun _ => True) residual)
    (serves : ∀ ref ∈ refs, ref.Serves collection.store.indices)
    (compiled : Program.ofQuery ⟨refs.map .lookup ++ residual⟩ conditions collection.store.name =
      .ok program) (upsert : Bool) {fuel : Nat} (enough : collection.budget program.length ≤ fuel) :
    ∃ answer after between,
      Machine.execute fuel collection.store program none upsert = (answer, after, between) ∧
      Store.SameContent between collection.store ∧
      Executed collection.store refs residual conditions answer after := by
  obtain ⟨count, failure, after, between, few, ends, content, concludes⟩ :=
    Program.query_program_ends sound.store formed serves compiled none upsert
  have bound := passes_le_budget (Nat.le_refl program.length) (candidates_le_size sound serves)
  have within := (few.trans bound).trans enough
  cases concludes with
  | answered arrangeable answered =>
      have executed := Machine.execute_of_ends ends answered.halted within
      rw [answered.result] at executed
      exact ⟨_, after, between, executed, content,
        .answered arrangeable answered.halted answered.stack⟩
  | unranked refused =>
      exact ⟨_, after, between, Machine.execute_of_breakdown ends rfl within, content,
        .unranked refused⟩

/-- The program of a query with lookups that indices of the collection serve, and with other nodes
that have clauses and children, halts with an empty stack and the answer to the query, unless the
values to sort by are not ranked. They are where no number hides others from each other, and the
answer is in order then. -/
theorem query_program_answers (reached : Reached made collection)
    (formed : QueryNode.AllFormed (fun _ => True) residual)
    (serves : ∀ ref ∈ refs, ref.Serves collection.store.indices) (conditions : Conditions)
    (upsert : Bool) :
    ∃ program,
      Program.ofQuery ⟨refs.map .lookup ++ residual⟩ conditions collection.store.name =
        .ok program ∧
      (∀ fuel, collection.budget program.length ≤ fuel → ∃ answer after between,
        Machine.execute fuel collection.store program none upsert = (answer, after, between) ∧
        (collection.store.Arrangeable conditions (collection.store.kept refs residual) →
          answer = .ok (collection.store.answer refs residual conditions) ∧
          after.halted = true ∧ after.stack = []) ∧
        (¬ collection.store.Arrangeable conditions (collection.store.kept refs residual) →
          answer = .error .unrankedValues)) ∧
      ∀ spec, conditions.sort = some spec →
        collection.store.ClearAt spec.path (collection.store.kept refs residual) →
        collection.store.Arrangeable conditions (collection.store.kept refs residual) ∧
        collection.store.InOrder spec (collection.store.kept refs residual)
          (collection.store.sorted spec (collection.store.kept refs residual)) := by
  have sound := reached.lawful.sound
  obtain ⟨program, compiled⟩ := ofQuery_ok refs formed conditions collection.store.name
  refine ⟨program, compiled, ?_, ?_⟩
  · intro fuel enough
    obtain ⟨answer, after, between, ran, -, executed⟩ :=
      executes sound formed serves compiled upsert enough
    refine ⟨answer, after, between, ran, ?_, ?_⟩
    · intro arrangeable
      cases executed with
      | answered _ halted stack => exact ⟨rfl, halted, stack⟩
      | unranked refused => exact absurd arrangeable refused
    · intro refused
      cases executed with
      | answered arrangeable => exact absurd arrangeable refused
      | unranked => rfl
  · intro spec asked clear
    constructor
    · apply Store.arrangeable_of_clear
      intro other asked'
      obtain rfl := Option.some.inj (asked.symm.trans asked')
      exact clear
    · exact Store.sorted_in_order clear

/-- Behind "ann" there are people from two towns; in descending order the one from York is first. -/
theorem people_program_answers :
    let refs : List IndexRef :=
      [⟨0, "name", .range ⟨some (.text "ann"), none, false, false⟩⟩]
    let residual : List QueryNode := [.group .or [
      .field "town" [⟨.eq, .literal (.string "bath")⟩],
      .group .and [.field "town" [⟨.gt, .literal (.string "x")⟩]]]]
    let conditions : Conditions := ⟨some ⟨"town", .descending⟩, some 1⟩
    peopleByName.store.answer refs residual conditions = [3] ∧
    ∃ program,
      Program.ofQuery ⟨refs.map .lookup ++ residual⟩ conditions "people" = .ok program ∧
      ∃ after between, Machine.execute (peopleByName.budget program.length) peopleByName.store
          program none false = (.ok [3], after, between) ∧
        after.halted = true ∧ after.stack = [] := by
  intro refs residual conditions
  have answer : peopleByName.store.answer refs residual conditions = [3] := by decide +kernel
  have east := Clause.formed_any (List.cons_ne_nil (⟨.eq, .literal (.string "bath")⟩ : Clause) [])
  have north := Clause.formed_any (List.cons_ne_nil (⟨.gt, .literal (.string "x")⟩ : Clause) [])
  have formed : QueryNode.AllFormed (fun _ => True) residual :=
    ⟨⟨List.cons_ne_nil _ _, east, ⟨List.cons_ne_nil _ _, north, trivial⟩, trivial⟩, trivial⟩
  have serves : ∀ ref ∈ refs, ref.Serves peopleByName.store.indices := by
    intro ref there
    obtain rfl := List.mem_singleton.1 there
    exact ⟨_, rfl, rfl⟩
  obtain ⟨program, compiled, answers, -⟩ :=
    query_program_answers reached_peopleByName formed serves conditions false
  obtain ⟨outcome, after, between, executed, answered, -⟩ := answers _ (Nat.le_refl _)
  have few : (peopleByName.store.kept refs residual).length ≤ 20 := by decide +kernel
  obtain ⟨same, halted, stack⟩ := answered (Store.arrangeable_of_few few conditions)
  rw [same, answer] at executed
  exact ⟨answer, program, compiled, after, between, executed, halted, stack⟩

theorem not_arrangeable_measurements : ¬ measurements.store.Arrangeable
    ⟨some ⟨"a", .ascending⟩, none⟩ (measurements.store.kept [] []) := by
  intro arrangeable
  obtain few | ranks := arrangeable _ rfl
  · exact absurd few (by decide +kernel)
  · have le := ranks.trans 1 (by decide +kernel) 5 (by decide +kernel) 2 (by decide +kernel)
      (by decide +kernel) (by decide +kernel)
    exact absurd le (by decide +kernel)

/-- All measurements are asked for, in the order of their values, but the run breaks down. -/
theorem measurements_break_down :
    let conditions : Conditions := ⟨some ⟨"a", .ascending⟩, none⟩
    Reached [] measurements ∧
    ∃ program, Program.ofQuery ⟨[]⟩ conditions "measurements" = .ok program ∧
      ∀ fuel, measurements.budget program.length ≤ fuel → ∃ after between,
        Machine.execute fuel measurements.store program none false =
          (.error .unrankedValues, after, between) := by
  intro conditions
  have formed : QueryNode.AllFormed (fun _ => True) [] := trivial
  have serves : ∀ ref ∈ ([] : List IndexRef), ref.Serves measurements.store.indices :=
    fun _ absent => by cases absent
  obtain ⟨program, compiled⟩ := ofQuery_ok [] formed conditions "measurements"
  refine ⟨reached_measurements, program, compiled, ?_⟩
  intro fuel enough
  obtain ⟨_, after, between, ran, -, executed⟩ :=
    executes reached_measurements.lawful.sound formed serves compiled false enough
  cases executed with
  | answered arrangeable => exact absurd arrangeable not_arrangeable_measurements
  | unranked => exact ⟨after, between, ran⟩

/-- How a predicate is planned and what it is answered with: it may be malformed, an index may
repeat an attribute, and else the query that selection makes of it is compiled and answered. -/
inductive Planned (collection : Collection) (predicate : Json) :
    Except Error Program → Except Error (List DocId) → Prop
  | malformed {error : Error} (refused : Query.parse predicate = .error error) :
      Planned collection predicate (.error error) (.error error)
  | outOfRange (repeated : ¬ ∀ index ∈ collection.store.indices, index.attributes.Nodup) :
      Planned collection predicate (.error .clauseOutOfRange) (.error .clauseOutOfRange)
  | compiled {query : Query} {refs : List IndexRef} {residual : List QueryNode} {program : Program}
      (read : Query.parse predicate = .ok query)
      (selected : Query.Selected collection.store.indices query refs residual)
      (compiled : Program.ofQuery ⟨refs.map .lookup ++ residual⟩ Conditions.none
        collection.store.name = .ok program) :
      Planned collection predicate (.ok program)
        (.ok (collection.store.answer refs residual Conditions.none))

theorem planned (collection : Collection) (predicate : Json) :
    ∃ answer, Planned collection predicate
      (collection.compileQuery predicate Conditions.none) answer := by
  unfold compileQuery
  cases read : Query.parse predicate with
  | error error => exact ⟨_, .malformed read⟩
  | ok query =>
      rw [ok_bind]
      obtain ⟨formed, -, -⟩ := Query.parse_spec Json.inherited_any trivial read
      obtain ⟨refused, repeated⟩ | ⟨refs, residual, chosen, selected⟩ :=
        Query.select_spec collection.store.indices formed
      · rw [refused]
        exact ⟨_, .outOfRange repeated⟩
      · obtain ⟨program, done⟩ :=
          ofQuery_ok refs selected.formed Conditions.none collection.store.name
        rw [chosen, ok_bind, compiled_eq_ok.2 done]
        exact ⟨_, .compiled read selected done⟩

/-- Planning a request changes no more of a collection than the programs it keeps. -/
theorem keep_fresh (sound : collection.Sound) (remembers : Remembers made collection)
    {request : Request} (distinct : Request.Distinct (request :: made)) :
    ∃ between, collection.keep request (collection.fresh request) =
        (collection.fresh request, between) ∧
      between.store = collection.store ∧ between.Sound ∧ Remembers (request :: made) between := by
  have answered := keep_eq remembers distinct
  obtain ⟨remembers', -⟩ := keep_remembers remembers request
  obtain ⟨sound', store, -⟩ := keep_spec sound request fun _ => proper_fresh
  exact ⟨_, Prod.ext answered rfl, store, sound', remembers'⟩

/-- A predicate that is compiled is answered, and the answer changes nothing that a query asks
for. -/
theorem findIds_compiled (sound : collection.Sound) (remembers : Remembers made collection)
    (distinct : Request.Distinct (.query predicate conditions :: made))
    (formed : QueryNode.AllFormed (fun _ => True) residual)
    (serves : ∀ ref ∈ refs, ref.Serves collection.store.indices)
    (compiles : collection.compileQuery predicate conditions = .ok program)
    (compiled : Program.ofQuery ⟨refs.map .lookup ++ residual⟩ conditions collection.store.name =
      .ok program)
    (arrangeable : collection.store.Arrangeable conditions
      (collection.store.kept refs residual)) :
    ∃ after, collection.findIds predicate conditions =
        (.ok (collection.store.answer refs residual conditions), after) ∧
      after.Sound ∧ Remembers (.query predicate conditions :: made) after ∧
      after.store.name = collection.store.name ∧
      after.store.indices.map Index.shape = collection.store.indices.map Index.shape ∧
      Store.SameContent after.store collection.store := by
  obtain ⟨between, kept, same, sound', remembers'⟩ := keep_fresh sound remembers distinct
  have plans : collection.plan predicate conditions = (.ok program, between) := by
    rw [← compiles]
    exact kept
  obtain ⟨_, halted, last, executed, content, ended⟩ :=
    executes sound formed serves compiled false (Nat.le_refl _)
  have budget : between.budget (program.length + (Option.getD (none : Option Program) []).length)
      = collection.budget program.length := by
    rw [Collection.budget, Collection.budget, size, size, same]
    rfl
  have alone : ∀ p, (none : Option Program) = some p → Machine.Proper p := by
    intro p nothing
    cases nothing
  obtain ⟨sound'', schema, -⟩ := run_sound sound' program alone false
  cases ended with
  | unranked refused => exact absurd arrangeable refused
  | answered _ _ _ =>
      have ran : between.run program none false =
          (.ok (collection.store.answer refs residual conditions),
            { between with store := last }) := by
        simp only [Collection.run, budget, same, executed]
      rw [ran] at sound'' schema
      refine ⟨_, ?_, sound'', remembers'.of_schema schema, ?_, ?_, content⟩
      · simp only [findIds, plans, ran]
      · rw [schema.name, same]
      · rw [schema.shapes, same]

theorem findIds_planned (lawful : collection.Lawful made)
    (distinct : Request.Distinct (.query predicate Conditions.none :: made)) :
    Planned collection predicate (collection.compileQuery predicate Conditions.none)
      (collection.findIds predicate Conditions.none).1 := by
  obtain ⟨between, kept, -⟩ := keep_fresh lawful.sound lawful.remembers distinct
  have plans : collection.plan predicate Conditions.none =
    (collection.compileQuery predicate Conditions.none, between) := kept
  obtain ⟨answer, planned⟩ := planned collection predicate
  generalize plan : collection.compileQuery predicate Conditions.none = outcome
    at planned plans ⊢
  cases planned with
  | malformed refused =>
      simp only [findIds, plans]
      exact .malformed refused
  | outOfRange repeated =>
      simp only [findIds, plans]
      exact .outOfRange repeated
  | compiled read selected compiled =>
      obtain ⟨after, answered, -⟩ := findIds_compiled lawful.sound lawful.remembers distinct
        selected.formed selected.serves plan compiled (Store.arrangeable_unsorted _ _ _)
      rw [answered]
      exact .compiled read selected compiled

/-- No index lists an attribute twice, and no value under an indexed attribute is the negative
zero. -/
structure InScope (collection : Collection) : Prop where
  attributes : ∀ index ∈ collection.store.indices, index.attributes.Nodup
  values : ∀ index ∈ collection.store.indices, ∀ id doc, collection.get? id = some doc →
    index.Plain doc

/-- Some documents of a collection, each once: those that satisfy the predicate. -/
structure Matches (collection : Collection) (predicate : Json) (ids : List DocId) : Prop where
  nodup : ids.Nodup
  member : ∀ id, id ∈ ids ↔
    ∃ doc, collection.get? id = some doc ∧ Predicate.satisfies doc predicate = true

/-- The answer to a query in scope has the stored documents that satisfy it, each once. -/
theorem matches_answer (lawful : collection.Lawful made) (inScope : collection.InScope)
    (ordered : predicate.Ordered) {query : Query} (read : Query.parse predicate = .ok query)
    (scope : query.InScope)
    (selected : Query.Selected collection.store.indices query refs residual) :
    collection.Matches predicate (collection.store.answer refs residual Conditions.none) := by
  obtain ⟨literals, -, means⟩ := Query.parse_spec Json.inherited_ordered ordered read
  have fit := Query.fit_of_scope literals scope
  obtain ⟨nodup, member⟩ := Store.candidates_spec lawful.sound.store selected.serves
  have asks : ∀ id doc, collection.get? id = some doc → Predicate.satisfies doc predicate =
      (refs.all (·.meets collection.store.indices doc) && QueryNode.allHold doc residual) := by
    intro id doc stored
    rw [← means doc]
    apply selected.means inScope.attributes fit doc (lawful.ordered id doc stored)
    intro index there
    exact inScope.values index there id doc stored
  constructor
  · exact nodup.filter _
  · intro id
    rw [show collection.store.answer refs residual Conditions.none =
      (collection.store.candidates refs).filter (collection.store.holdsOf residual) from rfl,
      List.mem_filter, member]
    constructor
    · rintro ⟨⟨doc, stored, meets⟩, holds⟩
      rw [Store.holdsOf, stored, Option.any_some] at holds
      apply Exists.intro doc
      apply And.intro stored
      rw [asks id doc stored, meets, holds]
      rfl
    · rintro ⟨doc, stored, satisfied⟩
      rw [asks id doc stored, Bool.and_eq_true] at satisfied
      apply And.intro ⟨doc, stored, satisfied.1⟩
      rw [Store.holdsOf, show collection.store.document? id = some doc from stored,
        Option.any_some]
      exact satisfied.2

/-- A predicate in scope is refused as malformed, or answered with the documents it matches. -/
theorem findIds_matches (lawful : collection.Lawful made)
    (distinct : Request.Distinct (.query predicate Conditions.none :: made))
    (inScope : collection.InScope) (ordered : predicate.Ordered)
    (scope : ∀ query, Query.parse predicate = .ok query → query.InScope) :
    (∃ error, Query.parse predicate = .error error ∧
      (collection.findIds predicate Conditions.none).1 = .error error) ∨
    ∃ query ids, Query.parse predicate = .ok query ∧
      (collection.findIds predicate Conditions.none).1 = .ok ids ∧
      collection.Matches predicate ids := by
  have found := findIds_planned lawful distinct
  generalize (collection.findIds predicate Conditions.none).1 = outcome at found
  generalize collection.compileQuery predicate Conditions.none = plan at found
  cases found with
  | malformed refused => exact .inl ⟨_, refused, rfl⟩
  | outOfRange repeated => exact absurd inScope.attributes repeated
  | compiled read selected =>
      right
      exact ⟨_, _, read, rfl, matches_answer lawful inScope ordered read (scope _ read) selected⟩

/-- Two collections with the same documents answer a predicate alike, whatever their indices: both
refuse it for the same reason, or both find the documents that satisfy it, each once. -/
theorem answers_ignore_indices {first second : Collection} {made made' : List Request}
    (reached : Reached made first) (reached' : Reached made' second)
    (same : ∀ id, first.get? id = second.get? id) (ordered : predicate.Ordered)
    (distinct : Request.Distinct (.query predicate Conditions.none :: made))
    (distinct' : Request.Distinct (.query predicate Conditions.none :: made'))
    (inScope : first.InScope) (inScope' : second.InScope)
    (scope : ∀ query, Query.parse predicate = .ok query → query.InScope) :
    (∃ error, Query.parse predicate = .error error ∧
      (first.findIds predicate Conditions.none).1 = .error error ∧
      (second.findIds predicate Conditions.none).1 = .error error) ∨
    ∃ ids ids', (first.findIds predicate Conditions.none).1 = .ok ids ∧
      (second.findIds predicate Conditions.none).1 = .ok ids' ∧
      ids.Nodup ∧ ids'.Nodup ∧ (∀ id, id ∈ ids ↔ id ∈ ids') ∧
      ∀ id, id ∈ ids ↔
        ∃ doc, first.get? id = some doc ∧ Predicate.satisfies doc predicate = true := by
  obtain ⟨error, refused, here⟩ | ⟨query, ids, read, here, found⟩ :=
    findIds_matches reached.lawful distinct inScope ordered scope
  · obtain ⟨error', refused', there⟩ | ⟨query, ids, read, -⟩ :=
      findIds_matches reached'.lawful distinct' inScope' ordered scope
    · left
      rw [refused, Except.error.injEq] at refused'
      exact ⟨error, refused, here, refused' ▸ there⟩
    · rw [refused] at read
      cases read
  · obtain ⟨error, refused, -⟩ | ⟨query', ids', -, there, found'⟩ :=
      findIds_matches reached'.lawful distinct' inScope' ordered scope
    · rw [read] at refused
      cases refused
    · right
      refine ⟨ids, ids', here, there, found.nodup, found'.nodup, ?_, found.member⟩
      intro id
      rw [found.member, found'.member, same]

theorem inScope_people : people.InScope where
  attributes _ there := by cases there
  values _ there := by cases there

theorem name_peopleByName {id : DocId} {doc : Json} (stored : peopleByName.get? id = some doc) :
    ∃ name, doc.lookup "name" = some (.string name) := by
  have texts : ∀ entry ∈ peopleByName.store.entries,
      ∃ name, entry.2.lookup "name" = some (.string name) :=
    List.forall_mem_cons.2 ⟨⟨_, rfl⟩, List.forall_mem_cons.2 ⟨⟨_, rfl⟩,
      List.forall_mem_singleton.2 ⟨_, rfl⟩⟩⟩
  exact texts (id, doc) (reached_peopleByName.lawful.sound.store.mem_entries_iff.2 stored)

theorem inScope_peopleByName : peopleByName.InScope := by
  have named : ∀ index ∈ peopleByName.store.indices, index.attributes = ["name"] := by
    intro index there
    have listed : index.attributes ∈ peopleByName.store.indices.map Index.attributes :=
      List.mem_map_of_mem there
    rw [attributes_peopleByName] at listed
    exact List.mem_singleton.1 listed
  constructor
  · intro index there
    rw [named index there]
    decide
  · intro index there id doc stored path inside n found
    rw [named index there, List.mem_singleton] at inside
    obtain ⟨name, text⟩ := name_peopleByName stored
    rw [inside, text] at found
    cases found

/-- With an index of the names and without, the same people are found. -/
theorem people_answer_alike :
    let predicate := Json.object [("name", .string "bob")]
    ∃ ids ids', (people.findIds predicate Conditions.none).1 = .ok ids ∧
      (peopleByName.findIds predicate Conditions.none).1 = .ok ids' ∧
      ids.Nodup ∧ ids'.Nodup ∧ (∀ id, id ∈ ids ↔ id ∈ ids') ∧
      ∀ id, id ∈ ids ↔
        ∃ doc, people.get? id = some doc ∧ Predicate.satisfies doc predicate = true := by
  intro predicate
  have read : Query.parse predicate =
      .ok ⟨[.field "name" [⟨.eq, .literal (.string "bob")⟩]]⟩ := rfl
  have scope : ∀ query, Query.parse predicate = .ok query → query.InScope := by
    intro query same path clauses there clause inside
    rw [read] at same
    obtain rfl := Except.ok.inj same
    obtain ⟨-, rfl⟩ := QueryNode.field.inj (List.mem_singleton.1 there)
    obtain rfl := List.mem_singleton.1 inside
    constructor
    · intro value _ literal
      obtain rfl := Operand.literal.inj literal
      trivial
    · intro n bound
      cases bound
  have distinct := Request.distinct_singleton (.query predicate Conditions.none)
  obtain ⟨error, refused, -⟩ | answered := answers_ignore_indices reached_people
    reached_peopleByName (fun _ => rfl) (show predicate.Ordered from ⟨by decide, trivial, trivial⟩)
    distinct distinct inScope_people inScope_peopleByName scope
  · rw [read] at refused
    cases refused
  · exact answered

end Collection
end Docstore
