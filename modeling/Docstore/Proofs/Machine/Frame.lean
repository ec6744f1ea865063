import Docstore.Machine
import Docstore.Proofs.Mutation
import Docstore.Proofs.Program.ReadOnly
import Docstore.Proofs.Store

set_option autoImplicit false

namespace Docstore
namespace Machine

/-- Two machines that have loaded the same programs and are in the same phase. -/
structure SameLoad (after before : Machine) : Prop where
  program : after.program = before.program
  phase : after.phase = before.phase
  pending : after.pending = before.pending
  upsert : after.upsert = before.upsert

namespace SameLoad

variable {first second third : Machine}

theorem refl (machine : Machine) : SameLoad machine machine := ⟨rfl, rfl, rfl, rfl⟩

theorem trans (later : SameLoad third second) (earlier : SameLoad second first) :
    SameLoad third first :=
  ⟨later.program.trans earlier.program, later.phase.trans earlier.phase,
    later.pending.trans earlier.pending, later.upsert.trans earlier.upsert⟩

end SameLoad

variable {machine after : Machine} {store : Store}

theorem advance_sameLoad (machine : Machine) (instruction : Instruction) :
    SameLoad (machine.advance instruction) machine := by
  cases instruction with
  | jump target =>
      unfold advance
      dsimp only
      split
      · exact ⟨rfl, rfl, rfl, rfl⟩
      · exact ⟨rfl, rfl, rfl, rfl⟩
  | _ => exact ⟨rfl, rfl, rfl, rfl⟩

/-- A machine that goes on as before, or has halted on the way. -/
structure Proceeds (after before : Machine) : Prop extends SameLoad after before where
  going : (after.running = before.running ∧ after.halted = before.halted) ∨
    (after.running = false ∧ after.halted = true)

namespace Proceeds

variable {first second third : Machine}

theorem refl (machine : Machine) : Proceeds machine machine :=
  ⟨.refl machine, .inl ⟨rfl, rfl⟩⟩

theorem of_same (load : SameLoad second first) (running : second.running = first.running)
    (halted : second.halted = first.halted) : Proceeds second first :=
  ⟨load, .inl ⟨running, halted⟩⟩

theorem halt (machine : Machine) : Proceeds machine.halt machine :=
  ⟨⟨rfl, rfl, rfl, rfl⟩, .inr ⟨rfl, rfl⟩⟩

end Proceeds

theorem pushOrHalt_proceeds (machine : Machine) (ids : List DocId) :
    Proceeds (machine.pushOrHalt ids) machine := by
  unfold pushOrHalt
  split
  · exact .halt machine
  · exact .of_same ⟨rfl, rfl, rfl, rfl⟩ rfl rfl

theorem readFrom_proceeds (machine : Machine) (ids : List DocId) :
    Proceeds (machine.readFrom ids) machine := by
  cases found : ids[machine.docptr]? with
  | none =>
      simp only [readFrom, found]
      exact .halt machine
  | some id =>
      simp only [readFrom, found]
      exact .of_same ⟨rfl, rfl, rfl, rfl⟩ rfl rfl

theorem join_proceeds {connective : Connective} {count : Nat}
    (ran : machine.join connective count = .ok after) : Proceeds after machine := by
  obtain ⟨popped, -, same⟩ := bind_eq_ok.1 ran
  obtain rfl := Except.ok.inj same
  exact .of_same ⟨rfl, rfl, rfl, rfl⟩ rfl rfl

theorem test_proceeds {path : String} {clause : Clause}
    (ran : machine.test store path clause = .ok after) : Proceeds after machine := by
  obtain ⟨id, -, rest⟩ := bind_eq_ok.1 ran
  obtain ⟨doc, -, same⟩ := bind_eq_ok.1 rest
  obtain rfl := Except.ok.inj same
  exact .of_same ⟨rfl, rfl, rfl, rfl⟩ rfl rfl

theorem shift_proceeds (ran : machine.shift = .ok after) : Proceeds after machine := by
  obtain ⟨⟨keep, stack⟩, -, rest⟩ := bind_eq_ok.1 ran
  cases keep with
  | false =>
      obtain rfl := Except.ok.inj rest
      exact .of_same ⟨rfl, rfl, rfl, rfl⟩ rfl rfl
  | true =>
      obtain ⟨id, -, same⟩ := bind_eq_ok.1 rest
      obtain rfl := Except.ok.inj same
      exact .of_same ⟨rfl, rfl, rfl, rfl⟩ rfl rfl

theorem storeDocuments_proceeds (ran : machine.storeDocuments = .ok after) :
    Proceeds after machine := by
  obtain ⟨popped, -, same⟩ := bind_eq_ok.1 ran
  obtain rfl := Except.ok.inj same
  exact .of_same ⟨rfl, rfl, rfl, rfl⟩ rfl rfl

theorem intersect_proceeds (ran : machine.intersect = .ok after) : Proceeds after machine := by
  obtain ⟨lists, -, rest⟩ := bind_eq_ok.1 ran
  cases common : intersection lists with
  | none => simp [common] at rest
  | some ids =>
      simp only [common, pure_eq_ok, Except.ok.injEq] at rest
      obtain rfl := rest
      have pushed := pushOrHalt_proceeds { machine with stack := [] } ids
      exact ⟨pushed.toSameLoad.trans ⟨rfl, rfl, rfl, rfl⟩, pushed.going⟩

theorem scan_proceeds {collection : String} (ran : machine.scan store collection = .ok after) :
    Proceeds after machine := by
  by_cases other : collection ≠ store.name
  · simp [scan, other] at ran
  · simp only [scan, if_neg other, Except.ok.injEq] at ran
    obtain rfl := ran
    exact pushOrHalt_proceeds _ _

theorem sort_eq {spec : SortSpec} (ran : machine.sort store spec = .ok after) :
    ∃ result, after = { machine with result } := by
  cases sorted : sortBy store spec machine.result with
  | none => simp [Machine.sort, sorted] at ran
  | some result => exact ⟨result, by simpa [Machine.sort, sorted, eq_comm] using ran⟩

theorem mutate_eq {mutation : Mutation}
    (ran : (machine.mutate store mutation).1 = .ok after) : after = machine := by
  cases found : machine.documentToMutate store mutation.op.opcode with
  | error error => simp [mutate, found] at ran
  | ok target =>
      cases applied : mutation.apply machine.upsert target.2 with
      | mk outcome doc =>
          cases outcome with
          | error fault => simp [mutate, found, applied] at ran
          | ok _ => simpa [mutate, found, applied, eq_comm] using ran

theorem currentFor_eq_ok {opcode : Opcode} {id : DocId}
    (ran : machine.currentFor opcode = .ok id) : machine.current = some id := by
  unfold currentFor at ran
  cases found : machine.current with
  | none => simp [found] at ran
  | some other => simpa [found] using ran

/-- What is mutated is the current document, in the phase for it. -/
theorem documentToMutate_eq_ok {opcode : Opcode} {id : DocId} {doc : Json}
    (ran : machine.documentToMutate store opcode = .ok (id, doc)) :
    machine.current = some id ∧ store.document? id = some doc := by
  obtain ⟨_, -, rest⟩ := bind_eq_ok.1 ran
  obtain ⟨other, current, rest⟩ := bind_eq_ok.1 rest
  obtain ⟨found, stored, same⟩ := bind_eq_ok.1 rest
  obtain ⟨rfl, rfl⟩ := Prod.mk.inj (Except.ok.inj same)
  refine ⟨currentFor_eq_ok current, ?_⟩
  unfold Store.document at stored
  cases there : store.document? other with
  | none => simp [there] at stored
  | some doc => simpa [there] using stored

/-- The changed document is written back whether the mutation fails or not. -/
theorem mutate_snd {mutation : Mutation} {id : DocId} {doc : Json}
    (found : machine.documentToMutate store mutation.op.opcode = .ok (id, doc)) :
    (machine.mutate store mutation).2 = store.write id (mutation.apply machine.upsert doc).2 := by
  cases applied : mutation.apply machine.upsert doc with
  | mk outcome changed =>
      cases outcome with
      | error fault => simp only [mutate, found, applied]
      | ok _ => simp only [mutate, found, applied]

theorem orKeep_proceeds {attempt : Except Error (Machine × Store)}
    (keeps : ∀ machine' store', attempt = .ok (machine', store') → Proceeds machine' machine)
    (ran : (orKeep store attempt).1 = .ok after) : Proceeds after machine := by
  cases attempt with
  | error error => cases ran
  | ok result =>
      obtain rfl := Except.ok.inj ran
      exact keeps _ _ rfl

theorem fetch_proceeds {ref : IndexRef} {store' : Store}
    (ran : machine.fetch store ref = .ok (after, store')) : Proceeds after machine := by
  obtain ⟨fetched, -, same⟩ := bind_eq_ok.1 ran
  obtain ⟨rfl, -⟩ : machine.push (.documents fetched.1) = after ∧ fetched.2 = store' := by
    simpa using same
  exact .of_same ⟨rfl, rfl, rfl, rfl⟩ rfl rfl

/-- What is filed anew is the current document, if there is one in the phase for it. -/
theorem reindex_cases (machine : Machine) (store : Store) :
    (∃ error, machine.documentToFile = .error error ∧
      machine.reindex store = (.error error, store)) ∨
    ∃ id, machine.phase = .mutate ∧ machine.current = some id ∧
      machine.reindex store =
        ((store.reindex id).1.map fun _ => machine, (store.reindex id).2) := by
  cases found : machine.documentToFile with
  | error error => exact .inl ⟨error, rfl, by simp only [reindex, found]⟩
  | ok id =>
      obtain ⟨_, required, current⟩ := bind_eq_ok.1 found
      have phase : machine.phase = .mutate := by
        by_contra other
        simp [requireMutatePhase, other] at required
      exact .inr ⟨id, phase, currentFor_eq_ok current, by simp only [reindex, found]⟩

theorem reindex_eq (ran : (machine.reindex store).1 = .ok after) : after = machine := by
  obtain ⟨error, -, same⟩ | ⟨id, -, -, same⟩ := reindex_cases machine store
  · rw [same] at ran
    cases ran
  · rw [same] at ran
    cases done : (store.reindex id).1 with
    | error error => simp [done, Except.map] at ran
    | ok _ => simpa [done, Except.map, eq_comm] using ran

/-- After an instruction the machine goes on or has halted, unless the instruction breaks it off or
starts it. -/
theorem effect_proceeds {instruction : Instruction}
    (ran : (machine.effect store instruction).1 = .ok after) :
    Proceeds after machine ∨ (instruction = .break ∧ after = { machine with running := false }) ∨
      (instruction = .start ∧ after = { machine with running := true }) := by
  cases instruction with
  | «break» => exact .inr (.inl ⟨rfl, (Except.ok.inj ran).symm⟩)
  | start => exact .inr (.inr ⟨rfl, (Except.ok.inj ran).symm⟩)
  | join connective count => exact .inl (join_proceeds ran)
  | test path clause => exact .inl (test_proceeds ran)
  | mutate mutation =>
      obtain rfl := mutate_eq ran
      exact .inl (.refl after)
  | lookup ref => exact .inl (orKeep_proceeds (fun _ _ done => fetch_proceeds done) ran)
  | scan collection => exact .inl (scan_proceeds ran)
  | shift => exact .inl (shift_proceeds ran)
  | store => exact .inl (storeDocuments_proceeds ran)
  | intersect => exact .inl (intersect_proceeds ran)
  | read =>
      obtain rfl := Except.ok.inj ran
      exact .inl (readFrom_proceeds machine machine.documents)
  | readResult =>
      obtain rfl := Except.ok.inj ran
      exact .inl (readFrom_proceeds machine machine.result)
  | reindex =>
      obtain rfl := reindex_eq ran
      exact .inl (.refl after)
  | sort spec =>
      obtain ⟨result, rfl⟩ := sort_eq ran
      exact .inl (.of_same ⟨rfl, rfl, rfl, rfl⟩ rfl rfl)
  | halt =>
      obtain rfl := Except.ok.inj ran
      exact .inl (.halt machine)
  | _ =>
      obtain rfl := Except.ok.inj ran
      exact .inl (.of_same ⟨rfl, rfl, rfl, rfl⟩ rfl rfl)

theorem effect_sameLoad {instruction : Instruction}
    (ran : (machine.effect store instruction).1 = .ok after) : SameLoad after machine := by
  rcases effect_proceeds ran with proceeds | ⟨-, rfl⟩ | ⟨-, rfl⟩
  · exact proceeds.toSameLoad
  · exact ⟨rfl, rfl, rfl, rfl⟩
  · exact ⟨rfl, rfl, rfl, rfl⟩

/-- A step is the effect of an instruction and the way on from there. -/
theorem effect_of_step {instruction : Instruction}
    (stepped : (machine.step store instruction).1 = .ok after) :
    ∃ between, (machine.effect store instruction).1 = .ok between ∧
      between.advance instruction = after := by
  cases done : (machine.effect store instruction).1 with
  | error error => simp [step, done, Except.map] at stepped
  | ok between => exact ⟨between, rfl, by simpa [step, done, Except.map] using stepped⟩

theorem step_sameLoad {instruction : Instruction} {store' : Store}
    (ran : machine.step store instruction = (.ok after, store')) : SameLoad after machine := by
  obtain ⟨between, done, rfl⟩ := effect_of_step (congrArg Prod.fst ran)
  exact (advance_sameLoad between instruction).trans (effect_sameLoad done)

theorem runPhase_sameLoad (fuel : Nat) (machine : Machine) (store : Store) :
    SameLoad (runPhase fuel machine store).2.1 machine := by
  fun_induction runPhase fuel machine store with
  | case1 machine store => exact .refl machine
  | case2 fuel machine store running error missing => exact .refl machine
  | case3 fuel machine store running instruction fetched after between stepped ih =>
      exact ih.trans (step_sameLoad stepped)
  | case4 fuel machine store running instruction fetched error between stepped =>
      exact .refl machine
  | case5 fuel machine store stopped => exact .refl machine

/-- A run is that of the loaded program, or goes on with the pending one behind it. -/
theorem run_cases (fuel : Nat) (machine : Machine) (store : Store) :
    run fuel machine store = runPhase fuel machine store ∨
    ∃ after between program, runPhase fuel machine store = (none, after, between) ∧
      machine.pending = some program ∧
      run fuel machine store = runPhase fuel (after.enterMutate program) between := by
  have same := runPhase_sameLoad fuel machine store
  fun_cases Machine.run fuel machine store with
  | case1 error after between ran => exact .inl ran.symm
  | case2 after between ran program pending phase halted =>
      rw [ran] at same
      exact .inr ⟨after, between, program, ran, same.pending.symm.trans pending, rfl⟩
  | case3 after between ran idle => exact .inl ran.symm

/-- A drive answers with the result of the run, stays where it broke down, or settles a failure. -/
theorem drive_cases (fuel : Nat) (machine : Machine) (store : Store) :
    (∃ after between, run fuel machine store = (none, after, between) ∧
      drive fuel machine store = (.ok after.result, after, between)) ∨
    (∃ error after between, run fuel machine store = (some error, after, between) ∧
      error.isBreakdown = true ∧ drive fuel machine store = (.error error, after, between)) ∨
    ∃ error after between, run fuel machine store = (some error, after, between) ∧
      error.isBreakdown = false ∧
      drive fuel machine store = (.error error, after.fail, after.settleFailure between) := by
  fun_cases Machine.drive fuel machine store with
  | case1 after between ran => exact .inl ⟨after, between, ran, rfl⟩
  | case2 error after between ran broken =>
      exact .inr (.inl ⟨error, after, between, ran, broken, rfl⟩)
  | case3 error after between ran failed =>
      exact .inr (.inr ⟨error, after, between, ran, Bool.eq_false_of_not_eq_true failed, rfl⟩)

/-- A machine takes its instructions from the program it has loaded. -/
theorem loaded_of_instruction {instruction : Instruction}
    (fetched : machine.instruction = .ok instruction) :
    ∃ program, machine.program = some program ∧ program[machine.ip]? = some instruction := by
  cases loaded : machine.program with
  | none => simp [Machine.instruction, loaded] at fetched
  | some program =>
      cases found : program[machine.ip]? with
      | none => simp [Machine.instruction, loaded, found] at fetched
      | some other =>
          obtain rfl : other = instruction := by
            simpa [Machine.instruction, loaded, found] using fetched
          exact ⟨program, rfl, found⟩

/-- What every instruction keeps of the store holds after a run, whether it ends well or not. -/
theorem runPhase_invariant (good : Store → Prop) (fuel : Nat)
    (kept : ∀ other between instruction, SameLoad other machine →
      other.instruction = .ok instruction → good between →
      good (other.effect between instruction).2)
    (start : good store) : good (runPhase fuel machine store).2.2 := by
  fun_induction runPhase fuel machine store with
  | case1 machine store => exact start
  | case2 fuel machine store running error missing => exact start
  | case3 fuel machine store running instruction fetched after between stepped ih =>
      obtain rfl : (machine.effect store instruction).2 = between := congrArg Prod.snd stepped
      apply ih _ (kept machine store instruction (.refl machine) fetched start)
      intro other between instruction' same
      exact kept other between instruction' (same.trans (step_sameLoad stepped))
  | case4 fuel machine store running instruction fetched error between stepped =>
      obtain rfl : (machine.effect store instruction).2 = between := congrArg Prod.snd stepped
      exact kept machine store instruction (.refl machine) fetched start
  | case5 fuel machine store stopped => exact start

/-- A store whose documents are those of another, with the indices as sound as before. -/
structure KeepsDocuments (after before : Store) : Prop where
  sound : after.Sound none
  outline : Store.SameOutline after before
  documents : after.documents = before.documents

theorem KeepsDocuments.refl (sound : store.Sound none) : KeepsDocuments store store :=
  ⟨sound, .refl store, rfl⟩

/-- A machine that cannot change documents: it is in the query phase, or its program has no
mutation. -/
def Quiet (machine : Machine) : Prop :=
  machine.phase = .query ∨ ∀ program, machine.program = some program → program.ReadOnly

theorem Quiet.of_sameLoad (quiet : machine.Quiet) (same : SameLoad after machine) :
    after.Quiet := by
  unfold Quiet
  rw [same.phase, same.program]
  exact quiet

theorem mutate_query (query : machine.phase = .query) (mutation : Mutation) :
    (machine.mutate store mutation).2 = store := by
  have refused : machine.documentToMutate store mutation.op.opcode =
      .error (.inOpcode mutation.op.opcode .outsideMutatePhase) := by
    simp [documentToMutate, requireMutatePhase, query]
  simp only [mutate, refused]

theorem orKeep_keeps (sound : store.Sound none) {attempt : Except Error (Machine × Store)}
    (keeps : ∀ machine' store', attempt = .ok (machine', store') → KeepsDocuments store' store) :
    KeepsDocuments (orKeep store attempt).2 store := by
  cases attempt with
  | error error => exact .refl sound
  | ok result => exact keeps _ _ rfl

theorem effect_keeps (machine : Machine) (sound : store.Sound none) {instruction : Instruction}
    (quiet : machine.phase = .query ∨ ∀ mutation, instruction ≠ .mutate mutation) :
    KeepsDocuments (machine.effect store instruction).2 store := by
  cases instruction with
  | mutate mutation =>
      obtain query | other := quiet
      · rw [show (machine.effect store (.mutate mutation)).2 = store from mutate_query query _]
        exact .refl sound
      · exact absurd rfl (other mutation)
  | lookup ref =>
      refine orKeep_keeps sound fun machine' store' ran => ?_
      obtain ⟨⟨ids, fetched⟩, done, same⟩ := bind_eq_ok.1 ran
      obtain ⟨-, rfl⟩ : machine.push (.documents ids) = machine' ∧ fetched = store' := by
        simpa using same
      obtain ⟨sound', outline, documents⟩ := sound.fetch done
      exact ⟨sound', outline, documents⟩
  | reindex =>
      change KeepsDocuments (machine.reindex store).2 store
      obtain ⟨error, -, same⟩ | ⟨id, -, -, same⟩ := reindex_cases machine store
      · rw [same]
        exact .refl sound
      · rw [same]
        cases there : store.document? id with
        | none =>
            simp only [Store.reindex, there]
            exact .refl sound
        | some doc =>
            obtain ⟨after, ran, sound', outline, documents⟩ :=
              (show store.Sound (some id) from sound.weaken).reindex there
            rw [ran]
            exact ⟨sound', outline, documents⟩
  | _ => exact .refl sound

/-- Run to the end or to a failure, a quiet machine changes no document. -/
theorem runPhase_keeps (fuel : Nat) (quiet : machine.Quiet) (sound : store.Sound none) :
    KeepsDocuments (runPhase fuel machine store).2.2 store := by
  apply runPhase_invariant (KeepsDocuments · store) fuel _ (.refl sound)
  intro other between instruction same fetched kept
  obtain ⟨program, loaded, there⟩ := loaded_of_instruction fetched
  have harmless : other.phase = .query ∨ ∀ mutation, instruction ≠ .mutate mutation := by
    apply (quiet.of_sameLoad same).imp_right
    intro absent mutation eq
    exact absent program loaded mutation (eq ▸ List.mem_of_getElem? there)
  have kept' := effect_keeps other kept.sound harmless
  exact ⟨kept'.sound, kept'.outline.trans kept.outline, kept'.documents.trans kept.documents⟩

end Machine
end Docstore
