import Docstore.Proofs.Machine.Editing
import Docstore.Proofs.Machine.Reaching
import Docstore.Proofs.Mutation.Updates

set_option autoImplicit false

namespace Docstore

namespace Table

variable {α β : Type} [DecidableEq α]

theorem put_self {table : Table α β} {key : α} {value : β} (there : table.get? key = some value) :
    table.put key value = table := by
  obtain ⟨entries⟩ := table
  refine congrArg Table.mk (?_ : replaceOrAdd key value entries = entries)
  induction entries with
  | nil => cases there
  | cons entry rest ih =>
      obtain ⟨k, v⟩ := entry
      change find key ((k, v) :: rest) = some value at there
      rw [find] at there
      by_cases here : k = key
      · rw [if_pos here] at there
        rw [replaceOrAdd, if_pos here, here, Option.some.inj there]
      · rw [if_neg here] at there
        rw [replaceOrAdd, if_neg here, ih there]

theorem put_put (table : Table α β) (key : α) (value value' : β) :
    (table.put key value).put key value' = table.put key value' := by
  obtain ⟨entries⟩ := table
  suffices same : replaceOrAdd key value' (replaceOrAdd key value entries) =
      replaceOrAdd key value' entries from congrArg Table.mk same
  induction entries with
  | nil => simp [replaceOrAdd]
  | cons entry rest ih =>
      obtain ⟨k, v⟩ := entry
      by_cases here : k = key
      · simp [replaceOrAdd, here]
      · rw [replaceOrAdd, if_neg here, replaceOrAdd, if_neg here, replaceOrAdd, if_neg here, ih]

end Table

namespace Store

variable {store : Store} {id : DocId} {doc : Json}

theorem write_self (there : store.document? id = some doc) : store.write id doc = store := by
  rw [write, Table.put_self there]

theorem write_write (store : Store) (id : DocId) (doc doc' : Json) :
    (store.write id doc).write id doc' = store.write id doc' := by
  rw [write, write, write, Table.put_put]

end Store

namespace Machine

open Mutation

variable {program : Program} {machine : Machine} {store : Store} {mutations : List Mutation}
  {id : DocId} {doc after : Json}

theorem documentToMutate_eq (phase : machine.phase = .mutate) (current : machine.current = some id)
    (stored : store.document? id = some doc) (opcode : Opcode) :
    machine.documentToMutate store opcode = .ok (id, doc) := by
  simp only [documentToMutate, requireMutatePhase, phase, if_true, currentFor, current,
    Store.document, stored, ok_bind, pure_eq_ok]

theorem effect_mutate_ok (phase : machine.phase = .mutate) (current : machine.current = some id)
    (stored : store.document? id = some doc) {mutation : Mutation}
    (applied : mutation.apply machine.upsert doc = (.ok (), after)) :
    machine.effect store (.mutate mutation) = (.ok machine, store.write id after) := by
  simp only [effect, mutate, documentToMutate_eq phase current stored, applied]

theorem effect_mutate_error (phase : machine.phase = .mutate) (current : machine.current = some id)
    (stored : store.document? id = some doc) {mutation : Mutation} {fault : ExecutionFault}
    (applied : mutation.apply machine.upsert doc = (.error fault, after)) :
    machine.effect store (.mutate mutation) =
      (.error (.inOpcode mutation.op.opcode fault), store.write id after) := by
  simp only [effect, mutate, documentToMutate_eq phase current stored, applied]

/-- Mutations that succeed change their document and nothing else. -/
theorem reaches_mutations (going : Going program machine) (phase : machine.phase = .mutate)
    (code : program.CodeAt machine.ip (mutations.map .mutate))
    (current : machine.current = some id) (stored : store.document? id = some doc)
    (done : applyAll machine.upsert mutations doc = (.ok (), after)) :
    Reaches mutations.length machine store (machine.onward mutations.length machine.stack)
      (store.write id after) := by
  induction mutations generalizing machine store doc with
  | nil =>
      obtain rfl : doc = after := congrArg Prod.snd done
      rw [Store.write_self stored]
      exact .refl machine store
  | cons mutation rest ih =>
      obtain ⟨here, code'⟩ := Program.codeAt_cons.1 code
      obtain ⟨changed, applied, all⟩ | ⟨fault, changed, applied, all⟩ :=
        applyAll_cons machine.upsert mutation rest doc
      · rw [all] at done
        have step := going.step here (effect_mutate_ok phase current stored applied)
        have stored' : (store.write id changed).document? id = some changed := by
          rw [Store.document?_write, if_pos rfl]
        have run := ih (going.onward 1 machine.stack) phase code' current stored' done
        have both := step.trans run
        rw [onward_onward, Store.write_write] at both
        rw [List.length_cons, Nat.add_comm]
        exact both
      · rw [all] at done
        cases congrArg Prod.fst done

/-- Where a mutation fails the program ends, and the document carries those before it. -/
theorem ends_mutations (going : Going program machine) (phase : machine.phase = .mutate)
    (code : program.CodeAt machine.ip (mutations.map .mutate))
    (current : machine.current = some id) (stored : store.document? id = some doc) {error : Error}
    (failed : applyAll machine.upsert mutations doc = (.error error, after)) :
    ∃ count last, count ≤ mutations.length ∧ last.result = machine.result ∧
      Ends count machine store (some error) last (store.write id after) := by
  induction mutations generalizing machine store doc with
  | nil => cases congrArg Prod.fst failed
  | cons mutation rest ih =>
      obtain ⟨here, code'⟩ := Program.codeAt_cons.1 code
      obtain ⟨changed, applied, all⟩ | ⟨fault, changed, applied, all⟩ :=
        applyAll_cons machine.upsert mutation rest doc
      · rw [all] at failed
        have step := going.step here (effect_mutate_ok phase current stored applied)
        have stored' : (store.write id changed).document? id = some changed := by
          rw [Store.document?_write, if_pos rfl]
        obtain ⟨count, last, few, result, ends⟩ :=
          ih (going.onward 1 machine.stack) phase code' current stored' failed
        rw [Store.write_write] at ends
        have few' : 1 + count ≤ (mutation :: rest).length := by
          rw [List.length_cons]
          omega
        exact ⟨1 + count, last, few', result, step.ends ends⟩
      · rw [all, Prod.mk.injEq, Except.error.injEq] at failed
        obtain ⟨rfl, rfl⟩ := failed
        have ends := going.fails here (effect_mutate_error phase current stored applied)
        exact ⟨1, machine, by simp, rfl, ends⟩

/-- A machine about to read the next document of its result in a mutation program. -/
structure Due (mutations : List Mutation) (machine : Machine) : Prop where
  going : Going (Program.ofMutations mutations) machine
  phase : machine.phase = .mutate
  start : machine.ip = 0

def reading (machine : Machine) (id : DocId) : Machine :=
  { machine with current := some id, docptr := machine.docptr + 1 }

theorem Due.reading (due : Due mutations machine) (id : DocId) :
    Due mutations (machine.reading id) :=
  ⟨⟨due.going.running, due.going.loaded⟩, due.phase, due.start⟩

theorem ofMutations_code (mutations : List Mutation) :
    (Program.ofMutations mutations)[0]? = some .readResult ∧
      (Program.ofMutations mutations).CodeAt 1 (mutations.map .mutate) ∧
      (Program.ofMutations mutations)[mutations.length + 1]? = some .reindex ∧
      (Program.ofMutations mutations)[mutations.length + 2]? = some (.goto 0) := by
  have code : (Program.ofMutations mutations).CodeAt 0 (Program.ofMutations mutations) :=
    ⟨[], [], (List.append_nil _).symm, rfl⟩
  obtain ⟨read, code⟩ := Program.codeAt_cons.1 code
  obtain ⟨body, code⟩ := Program.codeAt_append.1 code
  rw [List.length_map, Nat.zero_add, Nat.add_comm 1] at code
  obtain ⟨reindex, code⟩ := Program.codeAt_cons.1 code
  obtain ⟨goto, -⟩ := Program.codeAt_cons.1 code
  exact ⟨read, body, reindex, goto⟩

theorem Due.reads (due : Due mutations machine) (next : machine.result[machine.docptr]? = some id) :
    Reaches 1 machine store (machine.reading id).next store := by
  have read : machine.effect store .readResult = (.ok (machine.reading id), store) := by
    simp only [effect, readFrom, next, Machine.reading]
  have here : (Program.ofMutations mutations)[machine.ip]? = some .readResult := by
    rw [due.start]
    exact (ofMutations_code mutations).1
  exact due.going.step here read

theorem Due.code (due : Due mutations machine) :
    (Program.ofMutations mutations).CodeAt (machine.reading id).next.ip
      (mutations.map .mutate) := by
  have place : (machine.reading id).next.ip = 1 := congrArg Nat.succ due.start
  rw [place]
  exact (ofMutations_code mutations).2.1

/-- Behind its mutations a program files the document anew, and goes back to its start. -/
theorem reaches_filing (going : Going (Program.ofMutations mutations) machine)
    (phase : machine.phase = .mutate) (place : machine.ip = mutations.length + 1)
    (current : machine.current = some id) {between : Store}
    (filed : store.reindex id = (.ok (), between)) :
    Reaches 2 machine store { machine with ip := 0 } between := by
  obtain ⟨-, -, reindex, goto⟩ := ofMutations_code mutations
  have files : machine.effect store .reindex = (.ok machine, between) := by
    simp only [effect, Machine.reindex, documentToFile, requireMutatePhase, phase, if_true,
      currentFor, current, filed, ok_bind, Except.map]
  have filing := going.step (place ▸ reindex) files
  have going' : Going (Program.ofMutations mutations) machine.next := ⟨going.running, going.loaded⟩
  have here : (Program.ofMutations mutations)[machine.ip + 1]? = some (.goto 0) := by
    rw [place]
    exact goto
  have back := going'.step here (rfl : _ = (Except.ok _, between))
  exact filing.trans back

/-- A document on which all mutations succeed is changed and filed anew, and the next is due. -/
theorem Due.reaches_next (due : Due mutations machine) (sound : store.Sound none)
    (next : machine.result[machine.docptr]? = some id) (stored : store.document? id = some doc)
    (done : applyAll machine.upsert mutations doc = (.ok (), after)) :
    ∃ between, Reaches (mutations.length + 3) machine store (machine.reading id) between ∧
      between.Sound none ∧ between.documents = store.documents.put id after := by
  have going := (due.reading id).going
  have read : Going (Program.ofMutations mutations) (machine.reading id).next :=
    ⟨going.running, going.loaded⟩
  have mutates := reaches_mutations read due.phase due.code rfl stored done
  have identified : after.Identified id := by
    have keeps : ∀ mutation ∈ mutations, ∀ doc : Json, doc.Identified id →
        (mutation.apply machine.upsert doc).2.Identified id := by
      intro mutation _ doc identified
      exact identified.apply mutation machine.upsert
    have kept := applyAll_keeps keeps (sound.identified id doc stored)
    rwa [done] at kept
  obtain ⟨dirty, -⟩ := (show store.Sound (some id) from sound.weaken).write stored identified
  have there : (store.write id after).document? id = some after := by
    rw [Store.document?_write, if_pos rfl]
  obtain ⟨between, filed, sound', -, documents⟩ := dirty.reindex there
  have place : ((machine.reading id).next.onward mutations.length
      (machine.reading id).next.stack).ip = mutations.length + 1 := by
    simp only [onward, Machine.next, Machine.reading, due.start]
    omega
  have files := reaches_filing (read.onward mutations.length _) due.phase place rfl filed
  have home : ({ (machine.reading id).next.onward mutations.length
      (machine.reading id).next.stack with ip := 0 } : Machine) = machine.reading id :=
    congrArg (fun ip => { machine.reading id with ip }) due.start.symm
  have all := ((due.reads next).trans mutates).trans files
  rw [home, show 1 + mutations.length + 2 = mutations.length + 3 by omega] at all
  exact ⟨between, all, sound', documents⟩

theorem Due.ends_next (due : Due mutations machine)
    (next : machine.result[machine.docptr]? = some id) (stored : store.document? id = some doc)
    {error : Error} (failed : applyAll machine.upsert mutations doc = (.error error, after)) :
    ∃ count last, count ≤ mutations.length + 1 ∧ last.result = machine.result ∧
      Ends count machine store (some error) last (store.write id after) := by
  have going := (due.reading id).going
  have read : Going (Program.ofMutations mutations) (machine.reading id).next :=
    ⟨going.running, going.loaded⟩
  obtain ⟨count, last, few, result, ends⟩ :=
    ends_mutations read due.phase due.code rfl stored failed
  exact ⟨1 + count, last, by omega, result, (due.reads next).ends ends⟩

theorem Due.halts (due : Due mutations machine) (last : machine.result[machine.docptr]? = none) :
    Ends 1 machine store none machine.halt.next store := by
  have read : machine.effect store .readResult = (.ok machine.halt, store) := by
    simp only [effect, readFrom, last]
  have here : (Program.ofMutations mutations)[machine.ip]? = some .readResult := by
    rw [due.start]
    exact (ofMutations_code mutations).1
  exact (due.going.step here read).stops rfl

def failureOf : Except Error Unit → Option Error
  | .ok _ => none
  | .error error => some error

/-- A mutation program does to the documents of its result what the mutations ask, and ends after
so many steps. -/
theorem Due.ends {before ids : List DocId} (due : Due mutations machine) (sound : store.Sound none)
    (result : machine.result = before ++ ids) (start : machine.docptr = before.length)
    (stored : ∀ id ∈ ids, ∃ doc, store.document? id = some doc) :
    ∃ count last between, count ≤ ids.length * (mutations.length + 3) + 1 ∧
      Ends count machine store
        (failureOf (applyEach machine.upsert mutations ids store.documents).1) last between ∧
      between.documents = (applyEach machine.upsert mutations ids store.documents).2 ∧
      last.result = machine.result ∧
      ((applyEach machine.upsert mutations ids store.documents).1 = .ok () →
        last.halted = true) := by
  induction ids generalizing machine store before with
  | nil =>
      have through : machine.result[machine.docptr]? = none := by
        rw [result, start, List.append_nil, List.getElem?_length]
      exact ⟨1, _, store, by simp, due.halts through, rfl, rfl, fun _ => rfl⟩
  | cons id rest ih =>
      obtain ⟨⟨doc, here⟩, others⟩ := List.forall_mem_cons.1 stored
      have next : machine.result[machine.docptr]? = some id := by
        rw [result, start]
        simp
      have room : (id :: rest).length * (mutations.length + 3) =
          rest.length * (mutations.length + 3) + (mutations.length + 3) := by
        rw [List.length_cons, Nat.add_mul, Nat.one_mul]
      cases applied : applyAll machine.upsert mutations doc with
      | mk outcome after =>
          cases outcome with
          | error error =>
              obtain ⟨count, last, few, same, ends⟩ := due.ends_next next here applied
              rw [applyEach_cons_error here applied]
              exact ⟨count, last, _, by omega, ends, rfl, same, fun done => by cases done⟩
          | ok _ =>
              obtain ⟨between, run, sound', documents⟩ := due.reaches_next sound next here applied
              have stored' : ∀ other ∈ rest, ∃ doc, between.document? other = some doc := by
                intro other there
                rw [Store.document?, documents, Table.get?_put]
                split
                · exact ⟨after, rfl⟩
                · exact others other there
              have result' : machine.result = (before ++ [id]) ++ rest := by
                rw [result, List.append_assoc, List.singleton_append]
              have start' : machine.docptr + 1 = (before ++ [id]).length := by
                rw [start, List.length_append, List.length_singleton]
              obtain ⟨count, last, store', few, ends, changed, same, halted⟩ :=
                ih (due.reading id) sound' result' start' stored'
              rw [documents] at ends changed halted
              rw [applyEach_cons_ok here applied]
              exact ⟨_, last, store', by omega, run.ends ends, changed, same, halted⟩

/-- The mutation phase of a machine with a result of stored documents ends in one pass for each and
one more at most. -/
theorem ends_enterMutate (sound : store.Sound none)
    (stored : ∀ id ∈ machine.result, ∃ doc, store.document? id = some doc)
    (mutations : List Mutation) :
    ∃ count last between,
      count ≤ (Program.ofMutations mutations).length * (machine.result.length + 1) ∧
      Ends count (machine.enterMutate (Program.ofMutations mutations)) store
        (failureOf (applyEach machine.upsert mutations machine.result store.documents).1)
        last between ∧
      between.documents = (applyEach machine.upsert mutations machine.result store.documents).2 ∧
      last.result = machine.result ∧
      ((applyEach machine.upsert mutations machine.result store.documents).1 = .ok () →
        last.halted = true) := by
  have due : Due mutations (machine.enterMutate (Program.ofMutations mutations)) :=
    ⟨⟨rfl, rfl⟩, rfl, rfl⟩
  have length : (Program.ofMutations mutations).length = mutations.length + 4 := by
    simp [Program.ofMutations]
  obtain ⟨count, last, between, few, rest⟩ := due.ends sound (List.nil_append _).symm rfl stored
  have passes : count ≤ (Program.ofMutations mutations).length * (machine.result.length + 1) := by
    have more : machine.result.length * (mutations.length + 3) ≤
        machine.result.length * (mutations.length + 4) := Nat.mul_le_mul_left _ (Nat.le_succ _)
    rw [length, Nat.mul_comm, Nat.add_mul, Nat.one_mul]
    have few' : count ≤ machine.result.length * (mutations.length + 3) + 1 := few
    omega
  exact ⟨count, last, between, passes, rest⟩

end Machine
end Docstore
