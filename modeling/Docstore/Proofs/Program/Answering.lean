import Docstore.Proofs.Json.Sorting
import Docstore.Proofs.Machine.Frame
import Docstore.Proofs.Program.Candidates

set_option autoImplicit false

namespace Docstore

namespace Program

open Machine

variable {program : Program} {machine : Machine} {store : Store} {body : Block}

/-- A machine so much further on that has read a document, and kept it or not. -/
def turned (machine : Machine) (count : Nat) (id : DocId) (keep : Bool) : Machine :=
  { machine with
    ip := machine.ip + count
    docptr := machine.docptr + 1
    current := some id
    result := machine.result ++ if keep then [id] else [] }

theorem effect_read {id : DocId} (here : machine.documents[machine.docptr]? = some id) :
    machine.effect store .read =
      (.ok { machine with current := some id, docptr := machine.docptr + 1 }, store) := by
  simp only [effect, readFrom, here]

/-- One turn reads a document and keeps it just if the body computes true. -/
theorem reaches_turn (going : Going program machine) {position : Nat}
    (code : program.CodeAt machine.ip (loop position body)) {id : DocId} {doc : Json} {keep : Bool}
    (here : machine.documents[machine.docptr]? = some id) (there : store.document? id = some doc)
    (computes : Computes doc body keep) :
    Reaches (body.length + 2) machine store (turned machine (body.length + 2) id keep) store := by
  obtain ⟨first, code⟩ := codeAt_cons.1 code
  obtain ⟨middle, last⟩ := codeAt_append.1 code
  have read : machine.effect store .read = _ := effect_read here
  have reading := going.step first read
  have going' : Going program
      ({ machine with current := some id, docptr := machine.docptr + 1 } : Machine).next :=
    ⟨going.running, going.loaded⟩
  have computing := computes going' middle rfl there
  have computed := going'.onward body.length (.truth keep :: machine.stack)
  have shifting : (({ machine with current := some id, docptr := machine.docptr + 1 } :
      Machine).next.onward body.length (.truth keep :: machine.stack)).effect store .shift =
        (.ok { turned machine (1 + body.length) id keep with ip := machine.ip + 1 + body.length },
          store) := by
    cases keep with
    | false =>
        simp only [effect, shift, onward, next, turned, popTruth, ok_bind]
        rw [if_neg (by decide), if_neg (by decide), List.append_nil]
        rfl
    | true =>
        simp only [effect, shift, onward, next, turned, popTruth, ok_bind]
        rfl
  have shifted := computed.step (codeAt_cons.1 last).1 shifting
  have all := (reading.trans computing).trans shifted
  have count : 1 + body.length + 1 = body.length + 2 := by omega
  have place : machine.ip + (body.length + 2) = machine.ip + 1 + body.length + 1 := by omega
  rw [count] at all
  rw [turned, place]
  exact all

theorem loop_code {ip position : Nat} (code : program.CodeAt ip (loop position body)) :
    program[ip + (body.length + 2)]? = some (.jump (position + body.length + 4)) ∧
      program[ip + (body.length + 2) + 1]? = some (.goto position) := by
  obtain ⟨-, code⟩ := codeAt_cons.1 code
  obtain ⟨-, code⟩ := codeAt_append.1 code
  obtain ⟨-, code⟩ := codeAt_cons.1 code
  obtain ⟨jump, code⟩ := codeAt_cons.1 code
  obtain ⟨goto, -⟩ := codeAt_cons.1 code
  have place : ip + (body.length + 2) = ip + 1 + body.length + 1 := by omega
  rw [place]
  exact ⟨jump, goto⟩

section Turns

variable {id : DocId} {doc : Json} {keep : Bool}

theorem reaches_out (going : Going program machine)
    (code : program.CodeAt machine.ip (loop machine.ip body))
    (here : machine.documents[machine.docptr]? = some id) (there : store.document? id = some doc)
    (computes : Computes doc body keep) (last : machine.documents.length ≤ machine.docptr + 1) :
    Reaches (body.length + 3) machine store (turned machine (body.length + 4) id keep) store := by
  have turn := reaches_turn going code here there computes
  have going' : Going program (turned machine (body.length + 2) id keep) :=
    ⟨going.running, going.loaded⟩
  have jump := going'.step (loop_code code).1 (rfl : _ = (Except.ok _, store))
  have read : (turned machine (body.length + 2) id keep).documents.length ≤
      (turned machine (body.length + 2) id keep).docptr := last
  rw [advance, if_pos read] at jump
  exact turn.trans jump

/-- The turn for any other document leads back to the start of the loop. -/
theorem reaches_back (going : Going program machine)
    (code : program.CodeAt machine.ip (loop machine.ip body))
    (here : machine.documents[machine.docptr]? = some id) (there : store.document? id = some doc)
    (computes : Computes doc body keep) (more : ¬ machine.documents.length ≤ machine.docptr + 1) :
    Reaches (body.length + 4) machine store (turned machine 0 id keep) store := by
  have turn := reaches_turn going code here there computes
  have going' : Going program (turned machine (body.length + 2) id keep) :=
    ⟨going.running, going.loaded⟩
  have jump := going'.step (loop_code code).1 (rfl : _ = (Except.ok _, store))
  have unread : ¬ (turned machine (body.length + 2) id keep).documents.length ≤
      (turned machine (body.length + 2) id keep).docptr := more
  rw [advance, if_neg unread] at jump
  have jumped : Going program (turned machine (body.length + 2) id keep).next :=
    ⟨going.running, going.loaded⟩
  have goto := jumped.step (loop_code code).2 (rfl : _ = (Except.ok _, store))
  exact (turn.trans jump).trans goto

end Turns

/-- A machine that is through with its working documents, and has kept some of them. -/
structure Walked (program : Program) (position : Nat) (kept : List DocId)
    (before after : Machine) : Prop where
  documents : after.documents = before.documents
  stack : after.stack = before.stack
  result : after.result = before.result ++ kept
  going : Going program after
  ip : after.ip = position

/-- From a document on, the loop keeps those of which the body computes true. -/
theorem reaches_loop {keep : DocId → Bool} {before rest : List DocId} {id : DocId}
    (decides : ∀ other ∈ id :: rest, ∃ doc, store.document? other = some doc ∧
      Computes doc body (keep other))
    (going : Going program machine) (code : program.CodeAt machine.ip (loop machine.ip body))
    (documents : machine.documents = before ++ id :: rest)
    (start : machine.docptr = before.length) :
    ∃ count after, count ≤ (rest.length + 1) * (body.length + 4) ∧
      Reaches count machine store after store ∧
      Walked program (machine.ip + (body.length + 4)) ((id :: rest).filter keep) machine after := by
  induction rest generalizing machine before id with
  | nil =>
      obtain ⟨doc, there, computes⟩ := decides id List.mem_cons_self
      have here : machine.documents[machine.docptr]? = some id := by
        rw [documents, start]
        simp
      have last : machine.documents.length ≤ machine.docptr + 1 := by
        rw [documents, start, List.length_append, List.length_singleton]
      have out := reaches_out going code here there computes last
      have few : body.length + 3 ≤ (([] : List DocId).length + 1) * (body.length + 4) := by
        rw [List.length_nil]
        omega
      have kept : machine.result ++ (if keep id then [id] else []) =
          machine.result ++ [id].filter keep := by
        rw [List.filter_cons, List.filter_nil]
      exact ⟨_, _, few, out, ⟨rfl, rfl, kept, ⟨going.running, going.loaded⟩, rfl⟩⟩
  | cons next others ih =>
      obtain ⟨⟨doc, there, computes⟩, following⟩ := List.forall_mem_cons.1 decides
      have here : machine.documents[machine.docptr]? = some id := by
        rw [documents, start]
        simp
      have more : ¬ machine.documents.length ≤ machine.docptr + 1 := by
        rw [documents, start, List.length_append, List.length_cons, List.length_cons]
        omega
      have back := reaches_back going code here there computes more
      have going' : Going program (turned machine 0 id (keep id)) :=
        ⟨going.running, going.loaded⟩
      have documents' : machine.documents = (before ++ [id]) ++ next :: others := by
        rw [documents, List.append_assoc, List.singleton_append]
      have start' : machine.docptr + 1 = (before ++ [id]).length := by
        rw [start, List.length_append, List.length_singleton]
      obtain ⟨count, after, few, run, walked⟩ := ih following going' code documents' start'
      have few' : body.length + 4 + count ≤
          ((next :: others).length + 1) * (body.length + 4) := by
        rw [List.length_cons, Nat.add_mul _ 1, Nat.one_mul]
        omega
      have kept : after.result = machine.result ++ (id :: next :: others).filter keep := by
        rw [walked.result, turned, List.append_assoc]
        congr 1
        cases kept : keep id with
        | false => simp [List.filter_cons, kept]
        | true => simp [List.filter_cons, kept]
      exact ⟨_, after, few', back.trans run,
        ⟨walked.documents, walked.stack, kept, walked.going, walked.ip⟩⟩

theorem length_loop (position : Nat) (body : Block) :
    (loop position body).length = body.length + 4 := by
  rw [loop, List.length_cons, List.length_append]
  rfl

/-- A machine past its filter: it has kept some documents and goes on, or it has halted because
there were none. -/
structure Filtered (program : Program) (position : Nat) (ids kept : List DocId)
    (before after : Machine) : Prop where
  documents : after.documents = before.documents
  stack : after.stack = before.stack
  result : after.result = before.result ++ kept
  ahead : Ahead program position ids after

/-- A filter keeps the working documents on which every block leaves true. -/
theorem reaches_filter {blocks : List Block} {keep : DocId → Bool} {ids : List DocId}
    (decides : ∀ other ∈ ids, ∃ doc values, store.document? other = some doc ∧
      List.Forall₂ (Computes doc) blocks values ∧ values.all id = keep other)
    (going : Going program machine) (code : program.CodeAt machine.ip (filter machine.ip blocks))
    (documents : machine.documents = ids) (start : machine.docptr = 0) :
    ∃ count after, count ≤ (filter machine.ip blocks).length * (ids.length + 1) ∧
      Reaches count machine store after store ∧
      Filtered program (machine.ip + (filter machine.ip blocks).length) ids (ids.filter keep)
        machine after := by
  unfold filter at code ⊢
  by_cases free : blocks.isEmpty = true
  · rw [if_pos free] at code ⊢
    have transpose := going.step (codeAt_cons.1 code).1 (rfl : _ = (Except.ok _, store))
    have all : ids.filter keep = ids := by
      rw [List.filter_eq_self]
      intro other there
      obtain ⟨doc, values, -, each, same⟩ := decides other there
      rw [List.isEmpty_iff.1 free] at each
      cases each
      exact same.symm
    have few : 1 ≤ [Instruction.transpose].length * (ids.length + 1) := by
      rw [List.length_singleton]
      omega
    have result : machine.result ++ machine.documents = machine.result ++ ids.filter keep := by
      rw [all, documents]
    exact ⟨1, _, few, transpose,
      ⟨rfl, rfl, result, .going ⟨going.running, going.loaded⟩ rfl⟩⟩
  · rw [if_neg free] at code ⊢
    have full : blocks ≠ [] := fun empty => free (List.isEmpty_iff.2 empty)
    rw [length_loop]
    cases ids with
    | nil =>
        have halts : machine.effect store .read = (.ok machine.halt, store) := by
          simp only [effect, readFrom, documents, List.getElem?_nil]
        have read := going.step (codeAt_cons.1 code).1 halts
        have few : 1 ≤ ((joined .and blocks).length + 4) * (([] : List DocId).length + 1) := by
          rw [List.length_nil]
          omega
        have result : machine.result = machine.result ++ ([] : List DocId).filter keep := by
          rw [List.filter_nil, List.append_nil]
        exact ⟨1, _, few, read, ⟨rfl, rfl, result, .halted rfl rfl rfl⟩⟩
    | cons first rest =>
        have decides' : ∀ other ∈ first :: rest, ∃ doc, store.document? other = some doc ∧
            Computes doc (joined .and blocks) (keep other) := by
          intro other there
          obtain ⟨doc, values, stored, each, same⟩ := decides other there
          exact ⟨doc, stored, same ▸ computes_joined .and each full⟩
        have before : machine.documents = [] ++ first :: rest := documents
        obtain ⟨count, after, few, run, walked⟩ := reaches_loop decides' going code before start
        have few' : count ≤ ((joined .and blocks).length + 4) * ((first :: rest).length + 1) := by
          apply few.trans
          rw [Nat.mul_comm]
          exact Nat.mul_le_mul_left _ (Nat.le_succ _)
        exact ⟨count, after, few', run,
          ⟨walked.documents, walked.stack, walked.result, .going walked.going walked.ip⟩⟩

theorem sortBy_eq (store : Store) (spec : SortSpec) (ids : List DocId) :
    sortBy store spec ids = sort? (store.compareAt spec) ids := by
  have keyed := sort?_map (fun id => (sortKey store spec.path id, id))
    (fun a b => spec.order.direct (a.1.compare b.1)) ids
  simp only [sortBy, keyed, Option.map_map, Function.comp_def, List.map_map, List.map_id']
  exact Option.map_id'

def arriving (machine : Machine) (count : Nat) (result : List DocId) : Machine :=
  { machine with ip := machine.ip + count, result }

theorem arriving_arriving (machine : Machine) (first second : Nat) (result result' : List DocId) :
    arriving (arriving machine first result) second result' =
      arriving machine (first + second) result' := by
  simp only [arriving, Nat.add_assoc]

/-- A sort instruction, if there is to be one, sorts the result. -/
theorem reaches_sort (going : Going program machine) {sort : Option SortSpec}
    (arrangeable : store.Arrangeable ⟨sort, none⟩ machine.result)
    (code : program.CodeAt machine.ip (sort.map Instruction.sort).toList) :
    Reaches (sort.map Instruction.sort).toList.length machine store
      (arriving machine (sort.map Instruction.sort).toList.length
        (store.arranged ⟨sort, none⟩ machine.result)) store := by
  cases sort with
  | none => exact .refl machine store
  | some spec =>
      have sorts : machine.effect store (.sort spec) =
          (.ok { machine with result := store.sorted spec machine.result }, store) := by
        simp only [effect, Machine.sort, sortBy_eq, sort?_of_sortable (arrangeable spec rfl)]
        rfl
      exact going.step (codeAt_cons.1 code).1 sorts

theorem reaches_limit (store : Store) (going : Going program machine) (limit : Option Nat)
    (code : program.CodeAt machine.ip (limit.map Instruction.limit).toList) :
    Reaches (limit.map Instruction.limit).toList.length machine store
      (arriving machine (limit.map Instruction.limit).toList.length
        (store.arranged ⟨none, limit⟩ machine.result)) store := by
  cases limit with
  | none => exact .refl machine store
  | some count => exact going.step (codeAt_cons.1 code).1 (rfl : _ = (Except.ok _, store))

/-- At its end a program arranges the result as asked, and halts. -/
theorem reaches_closing (going : Going program machine) {conditions : Conditions}
    (arrangeable : store.Arrangeable conditions machine.result)
    (code : program.CodeAt machine.ip (closing conditions)) :
    Reaches (closing conditions).length machine store
      (arriving machine (closing conditions).length
        (store.arranged conditions machine.result)).halt store := by
  obtain ⟨sort, limit⟩ := conditions
  obtain ⟨sorting, code⟩ := codeAt_append.1 code
  obtain ⟨limiting, halting⟩ := codeAt_append.1 code
  have sorts := reaches_sort going arrangeable sorting
  have going' : Going program (arriving machine (sort.map Instruction.sort).toList.length
      (store.arranged ⟨sort, none⟩ machine.result)) := ⟨going.running, going.loaded⟩
  have limits := reaches_limit store going' limit limiting
  have both : store.arranged ⟨none, limit⟩ (store.arranged ⟨sort, none⟩ machine.result) =
      store.arranged ⟨sort, limit⟩ machine.result := by
    cases limit with
    | none => rfl
    | some count => rfl
  have arranges := sorts.trans limits
  rw [arriving_arriving] at arranges
  have going'' : Going program (arriving machine ((sort.map Instruction.sort).toList.length +
      (limit.map Instruction.limit).toList.length)
      (store.arranged ⟨none, limit⟩ (store.arranged ⟨sort, none⟩ machine.result))) :=
    ⟨going.running, going.loaded⟩
  rw [Nat.add_assoc] at halting
  have halts := going''.step (codeAt_cons.1 halting).1 (rfl : _ = (Except.ok _, store))
  have all := arranges.trans halts
  rw [closing, List.length_append, List.length_append, ← Nat.add_assoc, ← both]
  exact all

theorem ends_closing (going : Going program machine) {conditions : Conditions}
    (refused : ¬ store.Arrangeable conditions machine.result)
    (code : program.CodeAt machine.ip (closing conditions)) :
    Ends 1 machine store (some .unrankedValues) machine store := by
  obtain ⟨sort, limit⟩ := conditions
  cases sort with
  | none => exact absurd (store.arrangeable_unsorted limit machine.result) refused
  | some spec =>
      have unsorted : ¬ Sortable (store.compareAt spec) machine.result := by
        intro sortable
        apply refused
        intro other same
        rw [← Option.some.inj same]
        exact sortable
      have fails : machine.effect store (.sort spec) = (.error .unrankedValues, store) := by
        simp only [effect, Machine.sort, sortBy_eq, sort?_of_not_sortable unsorted]
      exact going.fails (codeAt_cons.1 code).1 fails

variable {good : Json → Prop} {refs : List IndexRef} {residual : List QueryNode}

theorem leadingLookups_append (refs : List IndexRef) (formed : QueryNode.AllFormed good residual) :
    Query.leadingLookups (refs.map .lookup ++ residual) = refs := by
  induction refs with
  | nil =>
      cases residual with
      | nil => rfl
      | cons node rest =>
          cases node with
          | lookup ref => exact formed.1.elim
          | field path clauses => rfl
          | group connective children => rfl
  | cons ref rest ih => rw [List.map_cons, List.cons_append, Query.leadingLookups, ih]

/-- The parts of the program of a query: it fetches candidates, filters them and arranges the
result. -/
structure Parts (program fetching : Program) (blocks : List Block) (conditions : Conditions) :
    Prop where
  fetch : program.CodeAt 0 (fetching ++ [.store])
  filter : program.CodeAt (fetching.length + 1) (filter (fetching.length + 1) blocks)
  closing : program.CodeAt
    (fetching.length + 1 + (Program.filter (fetching.length + 1) blocks).length)
    (closing conditions)
  length : program.length = fetching.length + 1 +
    ((Program.filter (fetching.length + 1) blocks).length + (Program.closing conditions).length)

theorem ofQuery_eq (formed : QueryNode.AllFormed good residual) {blocks : List Block}
    (compiled : blocksOfAll residual = .ok blocks) (conditions : Conditions) (collection : String) :
    ofQuery ⟨refs.map .lookup ++ residual⟩ conditions collection =
      .ok ((source refs collection ++ [.store]) ++
        (filter ((source refs collection).length + 1) blocks ++ closing conditions)) := by
  have lookups := leadingLookups_append refs formed
  have rest : (refs.map QueryNode.lookup ++ residual).drop refs.length = residual := by
    rw [List.drop_left' (List.length_map _)]
  simp only [ofQuery, lookups, rest, compiled, ok_bind, pure_eq_ok, List.length_append,
    List.length_singleton]

theorem parts_of_layout {fetching : Program} {blocks : List Block} {conditions : Conditions}
    (layout : (fetching ++ [.store]) ++
      (filter (fetching.length + 1) blocks ++ closing conditions) = program) :
    Parts program fetching blocks conditions := by
  have code : program.CodeAt 0 ((fetching ++ [.store]) ++
      (filter (fetching.length + 1) blocks ++ closing conditions)) :=
    ⟨[], [], by rw [layout, List.append_nil, List.nil_append], rfl⟩
  obtain ⟨first, code⟩ := codeAt_append.1 code
  rw [List.length_append, List.length_singleton, Nat.zero_add] at code
  obtain ⟨second, third⟩ := codeAt_append.1 code
  refine ⟨first, second, third, ?_⟩
  rw [← layout, List.length_append, List.length_append, List.length_append,
    List.length_singleton]

theorem parts_ofQuery (formed : QueryNode.AllFormed good residual) {blocks : List Block}
    (ran : blocksOfAll residual = .ok blocks) {conditions : Conditions} {collection : String}
    (compiled : ofQuery ⟨refs.map .lookup ++ residual⟩ conditions collection = .ok program) :
    Parts program (source refs collection) blocks conditions := by
  rw [ofQuery_eq formed ran, Except.ok.injEq] at compiled
  exact parts_of_layout compiled

/-- One pass through the filter for each document and one more, and through the other parts once, is
one pass through the program for each document and one more at most. -/
theorem Parts.passes {fetching : Program} {blocks : List Block} {conditions : Conditions}
    (parts : Parts program fetching blocks conditions) (count : Nat) :
    fetching.length + 1 + ((Program.filter (fetching.length + 1) blocks).length * (count + 1) +
      (Program.closing conditions).length) ≤ program.length * (count + 1) := by
  have once : ∀ n : Nat, n ≤ n * (count + 1) := by
    intro n
    exact Nat.le_mul_of_pos_right n (Nat.succ_pos _)
  have starts := once (fetching.length + 1)
  have ends := once (Program.closing conditions).length
  rw [parts.length, Nat.add_mul,
    Nat.add_mul (Program.filter (fetching.length + 1) blocks).length]
  omega

theorem arranged_congr {between : Store} (same : Store.SameContent between store)
    (conditions : Conditions) (ids : List DocId) :
    between.arranged conditions ids = store.arranged conditions ids := by
  simp only [Store.arranged, Store.sorted, Store.valueAt, Store.document?, same.documents]

theorem compareAt_congr {between : Store} (same : Store.SameContent between store)
    (spec : SortSpec) : between.compareAt spec = store.compareAt spec := by
  funext a b
  simp only [Store.compareAt, Store.valueAt, Store.document?, same.documents]

theorem answer_nil (nothing : store.candidates refs = []) (nodes : List QueryNode)
    (conditions : Conditions) : store.answer refs nodes conditions = [] := by
  obtain ⟨sort, limit⟩ := conditions
  rw [Store.answer, Store.kept, nothing, List.filter_nil]
  cases sort with
  | none => cases limit <;> simp [Store.arranged]
  | some spec => cases limit <;> simp [Store.arranged, Store.sorted, stableSort]

/-- A machine that has halted with the answer to a query. -/
structure Answered (store : Store) (refs : List IndexRef) (nodes : List QueryNode)
    (conditions : Conditions) (machine : Machine) : Prop where
  stopped : machine.running = false
  halted : machine.halted = true
  stack : machine.stack = []
  documents : machine.documents = store.candidates refs
  result : machine.result = store.answer refs nodes conditions

/-- How the run of a query program ends: it has halted with the answer, or it stands before a sort
of what it has kept, which cannot be sorted. -/
inductive Concludes (store : Store) (refs : List IndexRef) (nodes : List QueryNode)
    (conditions : Conditions) : Option Error → Machine → Prop
  | answered {machine : Machine}
      (arrangeable : store.Arrangeable conditions (store.kept refs nodes))
      (answered : Answered store refs nodes conditions machine) :
      Concludes store refs nodes conditions none machine
  | unranked {machine : Machine}
      (refused : ¬ store.Arrangeable conditions (store.kept refs nodes))
      (documents : machine.documents = store.candidates refs) :
      Concludes store refs nodes conditions (some .unrankedValues) machine

theorem concludes_of_nothing (nothing : store.candidates refs = []) (nodes : List QueryNode)
    (conditions : Conditions) (stopped : machine.running = false) (halted : machine.halted = true)
    (stack : machine.stack = []) (documents : machine.documents = store.candidates refs)
    (result : machine.result = []) :
    Concludes store refs nodes conditions none machine := by
  have few : (store.kept refs nodes).length ≤ 20 := by
    rw [Store.kept, nothing, List.filter_nil]
    exact Nat.zero_le 20
  exact .answered (Store.arrangeable_of_few few conditions)
    ⟨stopped, halted, stack, documents, result.trans (answer_nil nothing nodes conditions).symm⟩

/-- From its candidates on, the program of a query filters and arranges them, and ends as it
should. -/
theorem ends_from {fetching : Program} {blocks : List Block} {conditions : Conditions}
    {between : Store} (parts : Parts program fetching blocks conditions)
    (content : Store.SameContent between store)
    (decides : ∀ other ∈ store.candidates refs, ∃ doc values,
      between.document? other = some doc ∧ List.Forall₂ (Computes doc) blocks values ∧
        values.all id = store.holdsOf residual other)
    (going : Going program machine) (ip : machine.ip = fetching.length + 1)
    (documents : machine.documents = store.candidates refs) (unread : machine.docptr = 0)
    (stack : machine.stack = []) (result : machine.result = []) :
    ∃ count failure after, count ≤ (Program.filter (fetching.length + 1) blocks).length *
        ((store.candidates refs).length + 1) + (Program.closing conditions).length ∧
      Ends count machine between failure after between ∧
      Concludes store refs residual conditions failure after := by
  have second := parts.filter
  have third := parts.closing
  rw [← ip] at second third
  obtain ⟨count, filtered, few, run, filters⟩ :=
    reaches_filter decides going second documents unread
  rw [ip] at few
  have kept : filtered.result = store.kept refs residual := by
    rw [filters.result, result]
    rfl
  have documents' := filters.documents.trans documents
  have stack' := filters.stack.trans stack
  cases filters.ahead with
  | halted empty stopped halted =>
      have nothing : filtered.result = [] := by
        rw [kept, Store.kept, empty, List.filter_nil]
      exact ⟨count, _, filtered, by omega, run.stops stopped,
        concludes_of_nothing empty residual conditions stopped halted stack' documents' nothing⟩
  | going going' ip' =>
      rw [← ip'] at third
      have same : between.Arrangeable conditions filtered.result ↔
          store.Arrangeable conditions (store.kept refs residual) := by
        simp only [Store.Arrangeable, compareAt_congr content, kept]
      by_cases arrangeable : store.Arrangeable conditions (store.kept refs residual)
      · have closes := reaches_closing going' (same.2 arrangeable) third
        have answer : between.arranged conditions filtered.result =
            store.answer refs residual conditions := by
          rw [arranged_congr content, kept]
          rfl
        exact ⟨count + (Program.closing conditions).length, _, _, by omega,
          (run.trans closes).stops rfl, .answered arrangeable
          ⟨rfl, rfl, stack', documents', answer⟩⟩
      · have fails := ends_closing going' (fun other => arrangeable (same.1 other)) third
        have positive : 1 ≤ (Program.closing conditions).length := by
          rw [Program.closing, List.length_append, List.length_append]
          exact Nat.le_add_left 1 _
        exact ⟨count + 1, _, _, by omega, run.ends fails, .unranked arrangeable documents'⟩

/-- A program that fetches its candidates, and whose blocks compute the conditions on them, ends as
it should, in one pass for each candidate and one more at most. -/
theorem ends_of_fetches {fetching : Program} {blocks : List Block}
    {conditions : Conditions} (parts : Parts program fetching blocks conditions)
    (pending : Option Program) (upsert : Bool)
    (fetches : Fetches program (load program pending upsert) store (fetching.length + 1)
      (store.candidates refs))
    (decides : ∀ other ∈ store.candidates refs, ∃ doc values, store.document? other = some doc ∧
      List.Forall₂ (Computes doc) blocks values ∧ values.all id = store.holdsOf residual other) :
    ∃ count failure after between,
      count ≤ program.length * ((store.candidates refs).length + 1) ∧
      Ends count (load program pending upsert) store failure after between ∧
      Store.SameContent between store ∧ Concludes store refs residual conditions failure after := by
  have passes := parts.passes (store.candidates refs).length
  obtain ⟨count, fetched, between, few, run, content, fetches⟩ := fetches
  have result : fetched.result = [] := fetches.result
  cases fetches.ahead with
  | halted nothing stopped halted =>
      exact ⟨count, _, fetched, between, by omega, run.stops stopped, content, concludes_of_nothing
        nothing residual conditions stopped halted fetches.stack fetches.documents result⟩
  | going going' ip =>
      have decides' : ∀ other ∈ store.candidates refs, ∃ doc values,
          between.document? other = some doc ∧ List.Forall₂ (Computes doc) blocks values ∧
            values.all id = store.holdsOf residual other := by
        intro other there
        obtain ⟨doc, truths, stored, each, same⟩ := decides other there
        refine ⟨doc, truths, ?_, each, same⟩
        rw [Store.document?, content.documents]
        exact stored
      have place : fetched.ip = fetching.length + 1 := by
        rw [ip]
        exact Nat.zero_add _
      obtain ⟨count', failure, after, few', ends, concludes⟩ := ends_from parts content decides'
        going' place fetches.documents fetches.unread fetches.stack result
      exact ⟨count + count', failure, after, between, by omega, run.ends ends, content, concludes⟩

/-- The program of a query with lookups in front ends as it should, in one pass for each candidate
and one more at most. -/
theorem query_program_ends (sound : store.Sound none)
    (formed : QueryNode.AllFormed good residual)
    (serves : ∀ ref ∈ refs, ref.Serves store.indices) {conditions : Conditions}
    (compiled : ofQuery ⟨refs.map .lookup ++ residual⟩ conditions store.name = .ok program)
    (pending : Option Program) (upsert : Bool) :
    ∃ count failure after between,
      count ≤ program.length * ((store.candidates refs).length + 1) ∧
      Ends count (load program pending upsert) store failure after between ∧
      Store.SameContent between store ∧ Concludes store refs residual conditions failure after := by
  obtain ⟨blocks, ran, -, values⟩ := blocksOfAll_spec formed
  have parts := parts_ofQuery formed ran compiled
  have going : Going program (load program pending upsert) := ⟨rfl, rfl⟩
  have fetches := fetches_source sound serves going ⟨rfl, rfl, rfl⟩ parts.fetch
  apply ends_of_fetches parts pending upsert fetches
  intro other there
  obtain ⟨doc, stored, -⟩ := ((Store.candidates_spec sound serves).2 other).1 there
  obtain ⟨truths, each, same⟩ := values doc
  apply Exists.intro doc
  apply Exists.intro truths
  rw [same, Store.holdsOf, stored, Option.any_some]
  exact ⟨rfl, each, rfl⟩

end Program

end Docstore
