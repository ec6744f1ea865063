import Docstore.Proofs.Machine.Resuming
import Docstore.Proofs.Machine.Runs

set_option autoImplicit false

namespace Docstore

namespace Instruction

def isBreak : Instruction → Bool
  | .break => true
  | _ => false

/-- Puts in place of a break what changes nothing while the machine runs. -/
def smooth : Instruction → Instruction
  | .break => .start
  | instruction => instruction

theorem eq_break {instruction : Instruction} (isBreak : instruction.isBreak = true) :
    instruction = .break := by
  cases instruction with
  | «break» => rfl
  | _ => cases isBreak

theorem smooth_eq {instruction : Instruction} (other : instruction.isBreak = false) :
    instruction.smooth = instruction := by
  cases instruction with
  | «break» => cases other
  | _ => rfl

end Instruction

def Program.smooth (program : Program) : Program :=
  program.map Instruction.smooth

namespace Machine

variable {machine after last smoothed : Machine} {store between final : Store}
  {failure : Option Error} {error : Error} {program : Program} {pending : Option Program}
  {instruction : Instruction}

/-- A machine that differs in what it has loaded, and in nothing else. -/
def reload (machine : Machine) (program pending : Option Program) : Machine :=
  { machine with program, pending }

theorem pushOrHalt_reload (machine : Machine) (program pending : Option Program)
    (ids : List DocId) :
    (machine.reload program pending).pushOrHalt ids =
      (machine.pushOrHalt ids).reload program pending := by
  unfold pushOrHalt
  split
  · rfl
  · rfl

theorem readFrom_reload (machine : Machine) (program pending : Option Program)
    (ids : List DocId) :
    (machine.reload program pending).readFrom ids =
      (machine.readFrom ids).reload program pending := by
  cases found : ids[machine.docptr]? with
  | none => simp only [readFrom, reload, found, halt]
  | some id => simp only [readFrom, reload, found]

section Instructions

variable (machine) (store) (program pending : Option Program)

theorem join_reload (connective : Connective) (count : Nat) :
    (machine.reload program pending).join connective count =
      (machine.join connective count).map (·.reload program pending) := by
  simp only [join, map_of_bind]
  rfl

theorem test_reload (path : String) (clause : Clause) :
    (machine.reload program pending).test store path clause =
      (machine.test store path clause).map (·.reload program pending) := by
  simp only [test, map_of_bind]
  rfl

theorem shift_reload :
    (machine.reload program pending).shift = machine.shift.map (·.reload program pending) := by
  simp only [shift, map_of_bind]
  refine bind_congr fun ⟨keep, stack⟩ => ?_
  cases keep with
  | false => rfl
  | true =>
      simp only [if_true, map_of_bind]
      rfl

theorem storeDocuments_reload :
    (machine.reload program pending).storeDocuments =
      machine.storeDocuments.map (·.reload program pending) := by
  simp only [storeDocuments, map_of_bind]
  rfl

theorem intersect_reload :
    (machine.reload program pending).intersect =
      machine.intersect.map (·.reload program pending) := by
  simp only [intersect, map_of_bind]
  refine bind_congr fun lists => ?_
  cases intersection lists with
  | none => rfl
  | some ids =>
      exact congrArg Except.ok (pushOrHalt_reload { machine with stack := [] } program pending ids)

theorem scan_reload (collection : String) :
    (machine.reload program pending).scan store collection =
      (machine.scan store collection).map (·.reload program pending) := by
  unfold scan
  split
  · rfl
  · exact congrArg Except.ok (pushOrHalt_reload machine program pending _)

theorem mutate_reload (mutation : Mutation) :
    (machine.reload program pending).mutate store mutation =
      ((machine.mutate store mutation).1.map (·.reload program pending),
        (machine.mutate store mutation).2) := by
  have same : (machine.reload program pending).documentToMutate store mutation.op.opcode =
      machine.documentToMutate store mutation.op.opcode := rfl
  unfold mutate
  rw [same]
  cases machine.documentToMutate store mutation.op.opcode with
  | error error => rfl
  | ok target =>
      cases applied : mutation.apply machine.upsert target.2 with
      | mk outcome doc =>
          simp only [reload, applied]
          cases outcome with
          | error fault => rfl
          | ok _ => rfl

theorem orKeep_reload (attempt : Except Error (Machine × Store)) :
    orKeep store (attempt.map fun after => (after.1.reload program pending, after.2)) =
      ((orKeep store attempt).1.map (·.reload program pending), (orKeep store attempt).2) := by
  cases attempt with
  | error error => rfl
  | ok result => rfl

theorem fetch_reload (ref : IndexRef) :
    (machine.reload program pending).fetch store ref =
      (machine.fetch store ref).map fun after => (after.1.reload program pending, after.2) := by
  simp only [fetch, map_of_bind]
  rfl

theorem sort_reload (spec : SortSpec) :
    (machine.reload program pending).sort store spec =
      (machine.sort store spec).map (·.reload program pending) := by
  simp only [Machine.sort, reload]
  cases sortBy store spec machine.result with
  | none => rfl
  | some result => rfl

theorem reindex_reload :
    (machine.reload program pending).reindex store =
      ((machine.reindex store).1.map (·.reload program pending), (machine.reindex store).2) := by
  have same : (machine.reload program pending).documentToFile = machine.documentToFile := rfl
  unfold reindex
  rw [same]
  cases machine.documentToFile with
  | error error => rfl
  | ok id =>
      dsimp only
      cases (store.reindex id).1 with
      | error error => rfl
      | ok _ => rfl

/-- What an instruction does does not depend on what the machine has loaded. -/
theorem effect_reload (instruction : Instruction) :
    (machine.reload program pending).effect store instruction =
      ((machine.effect store instruction).1.map (·.reload program pending),
        (machine.effect store instruction).2) := by
  cases instruction with
  | join connective count =>
      exact Prod.ext (join_reload machine program pending connective count) rfl
  | test path clause => exact Prod.ext (test_reload machine store program pending path clause) rfl
  | mutate mutation => exact mutate_reload machine store program pending mutation
  | lookup ref =>
      rw [effect, fetch_reload]
      exact orKeep_reload store program pending (machine.fetch store ref)
  | scan collection => exact Prod.ext (scan_reload machine store program pending collection) rfl
  | shift => exact Prod.ext (shift_reload machine program pending) rfl
  | store => exact Prod.ext (storeDocuments_reload machine program pending) rfl
  | intersect => exact Prod.ext (intersect_reload machine program pending) rfl
  | read => exact Prod.ext (congrArg Except.ok (readFrom_reload machine program pending _)) rfl
  | readResult =>
    exact Prod.ext (congrArg Except.ok (readFrom_reload machine program pending _)) rfl
  | sort spec => exact Prod.ext (sort_reload machine store program pending spec) rfl
  | reindex => exact reindex_reload machine store program pending
  | _ => rfl

end Instructions

theorem advance_reload (machine : Machine) (program pending : Option Program)
    (instruction : Instruction) :
    (machine.reload program pending).advance instruction =
      (machine.advance instruction).reload program pending := by
  cases instruction with
  | jump target =>
      by_cases done : machine.documents.length ≤ machine.docptr
      · have done' : (machine.reload program pending).documents.length ≤
            (machine.reload program pending).docptr := done
        simp only [advance, if_pos done, if_pos done']
        rfl
      · have done' : ¬ (machine.reload program pending).documents.length ≤
            (machine.reload program pending).docptr := done
        simp only [advance, if_neg done, if_neg done']
        rfl
  | _ => rfl

theorem step_reload (machine : Machine) (program pending : Option Program) (store : Store)
    (instruction : Instruction) :
    (machine.reload program pending).step store instruction =
      ((machine.step store instruction).1.map (·.reload program pending),
        (machine.step store instruction).2) := by
  simp only [step, effect_reload]
  cases (machine.effect store instruction).1 with
  | error error => rfl
  | ok after => exact Prod.ext (congrArg Except.ok (advance_reload after program pending _)) rfl

def smooth (machine : Machine) : Machine :=
  machine.reload (machine.program.map Program.smooth) (machine.pending.map Program.smooth)

theorem instruction_smooth (machine : Machine) :
    machine.smooth.instruction = machine.instruction.map Instruction.smooth := by
  cases loaded : machine.program with
  | none => simp only [instruction, smooth, reload, loaded, Option.map_none, Except.map]
  | some program =>
      simp only [instruction, smooth, reload, loaded, Option.map_some, Program.smooth,
        List.getElem?_map]
      cases program[machine.ip]? with
      | none => rfl
      | some here => rfl

theorem fetched_smooth {replaced : Instruction}
    (fetched : machine.smooth.instruction = .ok replaced) :
    ∃ instruction, machine.instruction = .ok instruction ∧ instruction.smooth = replaced := by
  rw [instruction_smooth] at fetched
  cases here : machine.instruction with
  | error error => simp [here, Except.map] at fetched
  | ok instruction =>
      rw [here] at fetched
      exact ⟨instruction, rfl, Except.ok.inj fetched⟩

theorem smooth_fetched (fetched : machine.instruction = .ok instruction) :
    machine.smooth.instruction = .ok instruction.smooth := by
  rw [instruction_smooth, fetched]
  rfl

theorem strays_smooth : machine.smooth.instruction = .error error ↔
    machine.instruction = .error error := by
  rw [instruction_smooth]
  cases machine.instruction with
  | error error => rfl
  | ok instruction => simp [Except.map]

theorem follows_smooth (machine : Machine) :
    machine.smooth.follows = machine.follows.map Program.smooth := by
  simp only [follows, smooth, reload]
  cases machine.halted with
  | false => rfl
  | true =>
      cases machine.phase with
      | mutate => rfl
      | query =>
          cases machine.pending with
          | none => rfl
          | some program => rfl

/-- An instruction that is no break does the same without the breaks elsewhere. -/
theorem step_smooth (machine : Machine) (store : Store) (instruction : Instruction) :
    machine.smooth.step store instruction =
      ((machine.step store instruction).1.map smooth, (machine.step store instruction).2) := by
  rw [smooth, step_reload]
  cases stepped : machine.step store instruction with
  | mk outcome between =>
      cases outcome with
      | error error => rfl
      | ok after =>
          have same := step_sameLoad stepped
          simp only [Except.map, smooth, same.program, same.pending]

theorem fails_smooth : machine.smooth.step store instruction = (.error error, between) ↔
    machine.step store instruction = (.error error, between) := by
  rw [step_smooth]
  cases machine.step store instruction with
  | mk outcome between' =>
      cases outcome with
      | error error' => rfl
      | ok after => simp [Except.map]

theorem steps_smooth : machine.smooth.step store instruction = (.ok smoothed, between) ↔
    ∃ after, machine.step store instruction = (.ok after, between) ∧ after.smooth = smoothed := by
  rw [step_smooth]
  cases machine.step store instruction with
  | mk outcome between' =>
      cases outcome with
      | error error => simp [Except.map]
      | ok after => simp [Except.map, and_comm]

theorem step_start (running : machine.running = true) (store : Store) :
    machine.smooth.step store .start = (.ok machine.next.smooth, store) := by
  have alive : { machine with running := true } = machine := by rw [← running]
  exact congrArg (fun other => (Except.ok other.next.smooth, store)) alive

def Live (machine : Machine) : Prop :=
  machine.halted = !machine.running

theorem effect_live (live : machine.Live) (running : machine.running = true)
    (other : instruction.isBreak = false)
    (ran : (machine.effect store instruction).1 = .ok after) : after.Live := by
  rcases effect_proceeds ran with proceeds | ⟨rfl, -⟩ | ⟨-, rfl⟩
  · obtain ⟨runs, halted⟩ | ⟨runs, halted⟩ := proceeds.going
    · rw [Live, runs, halted, live]
    · rw [Live, runs, halted]
      rfl
  · cases other
  · rw [Live, live, running]

theorem advance_live (live : machine.Live) (instruction : Instruction) :
    (machine.advance instruction).Live := by
  cases instruction with
  | jump target =>
      unfold advance
      dsimp only
      split
      · exact live
      · exact live
  | _ => exact live

theorem step_live (live : machine.Live) (running : machine.running = true)
    (other : instruction.isBreak = false)
    (stepped : machine.step store instruction = (.ok after, between)) : after.Live := by
  obtain ⟨middle, done, rfl⟩ := effect_of_step (congrArg Prod.fst stepped)
  exact advance_live (effect_live live running other done) instruction

def loadedIn (program : Program) (pending : Option Program) : Phase → Option Program
  | .query => some program
  | .mutate => pending

def breakAt (program : Program) (pending : Option Program) (place : Place) : Bool :=
  (loadedIn program pending place.1).any fun program =>
    program[place.2]?.any Instruction.isBreak

/-- A machine on its way through the programs, not broken off. -/
structure Underway (program : Program) (pending : Option Program) (machine : Machine) : Prop where
  live : machine.Live
  loaded : machine.program = loadedIn program pending machine.phase
  present : machine.program.isSome = true
  pending : machine.phase = .query → machine.pending = pending

theorem underway_load (program : Program) (pending : Option Program) (upsert : Bool) :
    Underway program pending (load program pending upsert) :=
  ⟨rfl, rfl, rfl, fun _ => rfl⟩

namespace Underway

variable (underway : Underway program pending machine)

include underway

theorem enterMutate {next : Program} (follows : machine.follows = some next) :
    Underway program pending (machine.enterMutate next) := by
  obtain ⟨-, query, there⟩ := follows_eq_some.1 follows
  refine ⟨rfl, ?_, rfl, fun same => by cases same⟩
  exact there.symm.trans (underway.pending query)

theorem isBreak (fetched : machine.instruction = .ok instruction) :
    breakAt program pending machine.place = instruction.isBreak := by
  obtain ⟨loaded, present, here⟩ := loaded_of_instruction fetched
  have same : loadedIn program pending machine.phase = some loaded :=
    underway.loaded.symm.trans present
  simp only [breakAt, place, same, Option.any_some, here]

theorem of_sameLoad (same : SameLoad after machine) (live : after.Live) :
    Underway program pending after := by
  refine ⟨live, ?_, ?_, ?_⟩
  · rw [same.program, same.phase]
    exact underway.loaded
  · rw [same.program]
    exact underway.present
  · rw [same.phase, same.pending]
    exact underway.pending

theorem step (running : machine.running = true) (other : instruction.isBreak = false)
    (stepped : machine.step store instruction = (.ok after, between)) :
    Underway program pending after :=
  underway.of_sameLoad (step_sameLoad stepped) (step_live underway.live running other stepped)

theorem next : Underway program pending machine.next :=
  underway.of_sameLoad ⟨rfl, rfl, rfl, rfl⟩ underway.live

theorem not_suspended : machine.isSuspended = false := by
  rw [isSuspended, underway.live]
  cases machine.running with
  | false => rfl
  | true => rfl

end Underway

/-- The run, resumed so many times, stops for good or fails. -/
inductive RunsOn : Nat → Machine → Store → Option Error → Machine → Store → Prop
  | ends {machine last : Machine} {store final : Store} {trace : List Place}
      {failure : Option Error} (runs : Runs machine store trace failure last final)
      (done : last.isSuspended = false) : RunsOn 0 machine store failure last final
  | resumes {machine middle last : Machine} {store between final : Store} {trace : List Place}
      {failure : Option Error} {count : Nat} (runs : Runs machine store trace none middle between)
      (suspended : middle.isSuspended = true)
      (rest : RunsOn count middle.woken between failure last final) :
      RunsOn (count + 1) machine store failure last final

/-- What comes in front of a run comes in front of it when it is broken off as well. -/
theorem RunsOn.behind {count : Nat} (runs : RunsOn count after between failure last final)
    (before : ∀ {trace failure last final}, Runs after between trace failure last final →
      ∃ trace', Runs machine store trace' failure last final) :
    RunsOn count machine store failure last final := by
  cases runs with
  | ends runs done =>
      obtain ⟨trace', runs'⟩ := before runs
      exact .ends runs' done
  | resumes runs suspended rest =>
      obtain ⟨trace', runs'⟩ := before runs
      exact .resumes runs' suspended rest

def brokenOff (machine : Machine) : Machine :=
  { machine with running := false }.next

theorem suspended_brokenOff (underway : Underway program pending machine)
    (running : machine.running = true) : machine.brokenOff.isSuspended = true := by
  have halted : machine.halted = false := by rw [underway.live, running]; rfl
  simp only [brokenOff, isSuspended, next, halted, underway.present]
  rfl

theorem resumed_brokenOff (running : machine.running = true) :
    machine.brokenOff.woken = machine.next := by
  unfold brokenOff next woken
  rw [running]

theorem follows_brokenOff (underway : Underway program pending machine)
    (running : machine.running = true) : machine.brokenOff.follows = none := by
  have halted : machine.brokenOff.halted = false := by
    change machine.halted = false
    rw [underway.live, running]
    rfl
  simp only [follows, halted]

theorem runs_to_break (underway : Underway program pending machine)
    (running : machine.running = true) (fetched : machine.instruction = .ok .break)
    (store : Store) : Runs machine store [machine.place] none machine.brokenOff store :=
  .steps running fetched rfl (.rests rfl (follows_brokenOff underway running))

theorem eq_brokenOff (underway : Underway program pending machine)
    (running : machine.running = true) {trace : List Place}
    (runs : Runs machine.brokenOff store trace failure last final) :
    (failure, last, final) = (none, machine.brokenOff, store) := by
  cases runs with
  | rests stopped nothing => rfl
  | enters stopped next rest =>
      rw [follows_brokenOff underway running] at next
      cases next
  | strays running _ => cases running
  | fails running _ _ => cases running
  | steps running _ _ _ => cases running

/-- What runs without breaks runs with them, resumed once for each break that it passes. -/
theorem RunsOn.of_smooth {trace : List Place} (underway : Underway program pending machine)
    (runs : Runs machine.smooth store trace failure smoothed final) :
    ∃ last, RunsOn (trace.countP (breakAt program pending)) machine store failure last final ∧
      last.smooth = smoothed := by
  generalize same : machine.smooth = start at runs
  -- Both machines are at the same place all the time, and part at no instruction but a break.
  induction runs generalizing machine with
  | rests stopped nothing =>
      subst same
      refine ⟨machine, .ends (.rests stopped ?_) underway.not_suspended, rfl⟩
      rwa [follows_smooth, Option.map_eq_none_iff] at nothing
  | enters stopped next rest ih =>
      subst same
      rw [follows_smooth, Option.map_eq_some_iff] at next
      obtain ⟨program', next, rfl⟩ := next
      obtain ⟨last, runs, same⟩ := ih (underway.enterMutate next) rfl
      exact ⟨last, runs.behind fun runs => ⟨_, .enters stopped next runs⟩, same⟩
  | strays running missing =>
      subst same
      exact ⟨machine, .ends (.strays running (strays_smooth.1 missing)) underway.not_suspended, rfl⟩
  | fails running fetched stepped =>
      subst same
      obtain ⟨instruction, here, rfl⟩ := fetched_smooth fetched
      cases isBreak : instruction.isBreak with
      | true =>
          obtain rfl := Instruction.eq_break isBreak
          cases stepped
      | false =>
          rw [Instruction.smooth_eq isBreak, fails_smooth] at stepped
          have counted : breakAt program pending machine.smooth.place = false :=
            (underway.isBreak here).trans isBreak
          rw [List.countP_singleton, counted]
          exact ⟨machine, .ends (.fails running here stepped) underway.not_suspended, rfl⟩
  | steps running fetched stepped rest ih =>
      subst same
      obtain ⟨instruction, here, rfl⟩ := fetched_smooth fetched
      have counted : breakAt program pending machine.smooth.place = instruction.isBreak :=
        underway.isBreak here
      rw [List.countP_cons, counted]
      cases isBreak : instruction.isBreak with
      | true =>
          obtain rfl := Instruction.eq_break isBreak
          have running' : machine.running = true := running
          -- With breaks the run is over here, and what is left belongs to the next one.
          obtain ⟨same, rfl⟩ := Prod.mk.inj ((step_start running' _).symm.trans stepped)
          obtain ⟨last, rest', same'⟩ := ih underway.next (Except.ok.inj same)
          rw [← resumed_brokenOff running'] at rest'
          exact ⟨last, .resumes (runs_to_break underway running' here _)
            (suspended_brokenOff underway running') rest', same'⟩
      | false =>
          rw [Instruction.smooth_eq isBreak] at stepped
          obtain ⟨onward, done, same⟩ := steps_smooth.1 stepped
          obtain ⟨last, rest', same'⟩ := ih (underway.step running isBreak done) same
          exact ⟨last, rest'.behind fun runs => ⟨_, .steps running here done runs⟩, same'⟩

/-- Up to its end or to a break, the run without breaks does the same. Behind a break it goes on as
the machine does that is resumed there. -/
theorem Runs.smooth {trace : List Place} {count : Nat} {failure' : Option Error} {last' : Machine}
    {final' : Store} (runs : Runs machine store trace failure last final)
    (underway : Underway program pending machine)
    (ending : last.isSuspended = false →
      count = 0 ∧ (failure', last', final') = (failure, last.smooth, final))
    (going : last.isSuspended = true → Underway program pending last.woken →
      ∃ rest, rest.countP (breakAt program pending) + 1 = count ∧
        Runs (last.woken.smooth) final rest failure' last' final') :
    ∃ trace', trace'.countP (breakAt program pending) = count ∧
      Runs machine.smooth store trace' failure' last' final' := by
  induction runs with
  | rests stopped nothing =>
      obtain ⟨rfl, same⟩ := ending underway.not_suspended
      obtain ⟨rfl, rfl, rfl⟩ : _ ∧ _ ∧ _ := by simpa only [Prod.mk.injEq] using same
      refine ⟨[], rfl, .rests stopped ?_⟩
      rw [follows_smooth, nothing, Option.map_none]
  | enters stopped next rest ih =>
      obtain ⟨trace', counted, runs⟩ := ih (underway.enterMutate next) ending going
      refine ⟨trace', counted, .enters stopped ?_ runs⟩
      rw [follows_smooth, next, Option.map_some]
  | strays running missing =>
      obtain ⟨rfl, same⟩ := ending underway.not_suspended
      obtain ⟨rfl, rfl, rfl⟩ : _ ∧ _ ∧ _ := by simpa only [Prod.mk.injEq] using same
      exact ⟨[], rfl, .strays running (strays_smooth.2 missing)⟩
  | @fails machine store between instruction error running fetched stepped =>
      obtain ⟨rfl, same⟩ := ending underway.not_suspended
      obtain ⟨rfl, rfl, rfl⟩ : _ ∧ _ ∧ _ := by simpa only [Prod.mk.injEq] using same
      have other : instruction.isBreak = false := by
        cases isBreak : instruction.isBreak with
        | false => rfl
        | true =>
            obtain rfl := Instruction.eq_break isBreak
            cases stepped
      have fetched' := smooth_fetched fetched
      rw [Instruction.smooth_eq other] at fetched'
      refine ⟨[machine.smooth.place], ?_, .fails running fetched' (fails_smooth.2 stepped)⟩
      have counted : breakAt program pending machine.smooth.place = false :=
        (underway.isBreak fetched).trans other
      rw [List.countP_singleton, counted]
      rfl
  | @steps machine after last store between final instruction trace failure running fetched stepped
      rest ih =>
      have fetched' := smooth_fetched fetched
      have counted : breakAt program pending machine.smooth.place = instruction.isBreak :=
        underway.isBreak fetched
      cases isBreak : instruction.isBreak with
      | true =>
          obtain rfl := Instruction.eq_break isBreak
          obtain ⟨same, rfl⟩ := Prod.mk.inj stepped
          obtain rfl := Except.ok.inj same
          -- A break is the last instruction of its run, so the next run goes on from here.
          have same := eq_brokenOff underway running rest
          obtain ⟨rfl, rfl, rfl⟩ : _ ∧ _ ∧ _ := by simpa only [Prod.mk.injEq] using same
          have resumed := resumed_brokenOff running
          rw [resumed] at going
          obtain ⟨rest', total, runs⟩ :=
            going (suspended_brokenOff underway running) underway.next
          refine ⟨machine.smooth.place :: rest', ?_,
            .steps running fetched' (step_start running _) runs⟩
          rw [List.countP_cons, counted, if_pos isBreak, total]
      | false =>
          obtain ⟨trace', total, runs⟩ :=
            ih (underway.step running isBreak stepped) ending going
          rw [Instruction.smooth_eq isBreak] at fetched'
          refine ⟨machine.smooth.place :: trace', ?_,
            .steps running fetched' (steps_smooth.2 ⟨after, stepped, rfl⟩) runs⟩
          rw [List.countP_cons, counted, isBreak, total]
          rfl

/-- What runs with breaks, resumed at each of them, runs without them and passes as many. -/
theorem RunsOn.smooth {count : Nat} (underway : Underway program pending machine)
    (runs : RunsOn count machine store failure last final) :
    ∃ trace, trace.countP (breakAt program pending) = count ∧
      Runs machine.smooth store trace failure last.smooth final := by
  induction runs with
  | ends runs done =>
      apply runs.smooth underway fun _ => ⟨rfl, rfl⟩
      intro suspended
      rw [done] at suspended
      cases suspended
  | resumes runs suspended rest ih =>
      apply runs.smooth underway
      · intro done
        rw [suspended] at done
        cases done
      · intro _ underway'
        obtain ⟨trace, counted, runs'⟩ := ih underway'
        exact ⟨trace, congrArg (· + 1) counted, runs'⟩

def conclude : Option Error × Machine × Store → Outcome
  | (none, machine, store) => (.ok machine.result, machine, store)
  | (some error, machine, store) =>
    if error.isBreakdown then (.error error, machine, store)
    else (.error error, machine.fail, machine.settleFailure store)

theorem drive_eq (fuel : Nat) (machine : Machine) (store : Store) :
    drive fuel machine store = conclude (run fuel machine store) := by
  unfold drive conclude
  cases run fuel machine store with
  | mk failure rest =>
      cases failure with
      | none => rfl
      | some error => rfl

theorem conclude_smooth (failure : Option Error) (last : Machine) (final : Store) :
    conclude (failure, last.smooth, final) =
      ((conclude (failure, last, final)).1, (conclude (failure, last, final)).2.1.smooth,
        (conclude (failure, last, final)).2.2) := by
  cases failure with
  | none => rfl
  | some error =>
      unfold conclude
      dsimp only
      split
      · rfl
      · rfl

/-- The outcome, resumed so many times as long as it is suspended, becomes the other. -/
inductive ResumedTo (fuel : Nat) : Nat → Outcome → Outcome → Prop
  | done {outcome : Outcome} (awake : outcome.2.1.isSuspended = false) :
      ResumedTo fuel 0 outcome outcome
  | again {outcome last : Outcome} {count : Nat} (suspended : outcome.2.1.isSuspended = true)
      (rest : ResumedTo fuel count (resume fuel outcome.2.1 outcome.2.2) last) :
      ResumedTo fuel (count + 1) outcome last

theorem resume_suspended (suspended : machine.isSuspended = true) (fuel : Nat) (store : Store) :
    resume fuel machine store = drive fuel machine.woken store := by
  simp only [isSuspended, Bool.and_eq_true, Bool.not_eq_true'] at suspended
  obtain ⟨⟨-, halted⟩, present⟩ := suspended
  rw [resume, if_neg (by rw [halted]; exact Bool.false_ne_true),
    if_neg (by rw [Option.isNone_eq_false_iff.2 present]; exact Bool.false_ne_true)]
  rfl

theorem suspended_of_conclude
    (suspended : (conclude (failure, last, final)).2.1.isSuspended = true) :
    last.isSuspended = true := by
  unfold conclude at suspended
  split at suspended
  · rename_i same
    cases same
    exact suspended
  · rename_i error machine store same
    cases same
    split at suspended
    · exact suspended
    · cases suspended

theorem Runs.unfailing {trace : List Place} (runs : Runs machine store trace failure last final)
    (suspended : last.isSuspended = true) : failure = none := by
  cases failure with
  | none => rfl
  | some error =>
      rw [isSuspended, runs.running_of_failure] at suspended
      cases suspended

theorem run_of_runs {trace : List Place} (runs : Runs machine store trace failure last final) :
    ∃ bound, ∀ fuel, bound ≤ fuel →
      drive fuel machine store = conclude (failure, last, final) ∧
        places fuel fuel machine store = trace := by
  obtain ⟨bound, runsFrom⟩ := runs.runsFrom
  refine ⟨bound, fun fuel enough => ?_⟩
  obtain ⟨ran, passed⟩ := runsFrom fuel fuel enough enough
  rw [drive_eq, run_eq_runBoth, ran]
  exact ⟨rfl, passed⟩

/-- With enough fuel, what is broken off and resumed ends as it should. -/
theorem RunsOn.resumed {count : Nat} (runs : RunsOn count machine store failure last final) :
    ∃ bound, ∀ fuel, bound ≤ fuel →
      ResumedTo fuel count (drive fuel machine store) (conclude (failure, last, final)) := by
  induction runs with
  | @ends machine last store final trace failure runs done =>
      obtain ⟨bound, ran⟩ := run_of_runs runs
      refine ⟨bound, fun fuel enough => ?_⟩
      rw [(ran fuel enough).1]
      apply ResumedTo.done
      apply Bool.eq_false_of_not_eq_true
      intro suspended
      rw [suspended_of_conclude suspended] at done
      cases done
  | @resumes machine middle last store between final trace failure count runs suspended rest ih =>
      obtain ⟨bound, ran⟩ := run_of_runs runs
      obtain ⟨bound', resumed⟩ := ih
      refine ⟨max bound bound', fun fuel enough => ?_⟩
      rw [(ran fuel (Nat.le_trans (Nat.le_max_left _ _) enough)).1]
      have rest' := resumed fuel (Nat.le_trans (Nat.le_max_right _ _) enough)
      rw [← resume_suspended suspended] at rest'
      exact .again suspended rest'

theorem runs_of_drive {fuel : Nat} {outcome : Outcome}
    (ran : drive fuel machine store = outcome) (whole : outcome.1 ≠ .error cutShort) :
    ∃ failure last final, Runs machine store (places fuel fuel machine store) failure last final ∧
      conclude (failure, last, final) = outcome := by
  rw [drive_eq] at ran
  cases done : run fuel machine store with
  | mk failure rest =>
      obtain ⟨last, final⟩ := rest
      rw [done] at ran
      refine ⟨failure, last, final, ?_, ran⟩
      apply runs_of_runBoth fuel fuel
      · rw [← run_eq_runBoth, done]
      · intro same
        rw [← ran, same] at whole
        exact whole rfl

theorem runsOn_of_resumed {count fuel : Nat} {outcome : Outcome}
    (resumed : ResumedTo fuel count (drive fuel machine store) outcome)
    (whole : outcome.1 ≠ .error cutShort) :
    ∃ failure last final, RunsOn count machine store failure last final ∧
      conclude (failure, last, final) = outcome := by
  generalize first : drive fuel machine store = start at resumed
  induction resumed generalizing machine store with
  | done awake =>
      obtain ⟨failure, last, final, runs, rfl⟩ := runs_of_drive first whole
      refine ⟨failure, last, final, .ends runs ?_, rfl⟩
      cases failure with
      | none => exact awake
      | some error =>
          rw [isSuspended, runs.running_of_failure]
          rfl
  | @again outcome last count suspended rest ih =>
      have whole' : outcome.1 ≠ .error cutShort := by
        intro short
        rw [drive_eq] at first
        rcases ran : run fuel machine store with ⟨_ | error, after, between⟩
        · rw [ran] at first
          rw [← first] at short
          cases short
        · rw [ran] at first
          -- a run that is cut short has failed, and a failed machine is not suspended
          obtain rfl : error = cutShort := by
            rw [← first] at short
            unfold conclude at short
            dsimp only at short
            split at short
            · exact Except.error.inj short
            · exact Except.error.inj short
          rw [← first] at suspended
          cases suspended
      obtain ⟨failure, middle, between, runs, rfl⟩ := runs_of_drive first whole'
      have suspended' := suspended_of_conclude suspended
      obtain rfl := runs.unfailing suspended'
      obtain ⟨failure', last', final', rest', same⟩ :=
        ih whole (resume_suspended suspended' fuel between).symm
      exact ⟨failure', last', final', .resumes runs suspended' rest', same⟩

/-- Breaks only interrupt. Where the run without them ends, so does the run with them, resumed once
for each break that is passed, with the same answer, store and machine but for what is loaded. Where
the resumed run ends, so does the run without breaks, which passes as many. -/
theorem breaks_only_interrupt (program : Program) (pending : Option Program) (upsert : Bool)
    (store : Store) :
    (∀ fuel answer smoothed final,
      execute fuel store program.smooth (pending.map Program.smooth) upsert =
        (answer, smoothed, final) → answer ≠ .error cutShort →
      ∃ last bound, last.smooth = smoothed ∧ ∀ more, bound ≤ more →
        ResumedTo more
          ((places fuel fuel (load program.smooth (pending.map Program.smooth) upsert) store).countP
            (breakAt program pending))
          (execute more store program pending upsert) (answer, last, final)) ∧
    (∀ fuel count answer last final,
      ResumedTo fuel count (execute fuel store program pending upsert) (answer, last, final) →
      answer ≠ .error cutShort →
      ∃ bound, ∀ more, bound ≤ more →
        execute more store program.smooth (pending.map Program.smooth) upsert =
            (answer, last.smooth, final) ∧
        (places more more (load program.smooth (pending.map Program.smooth) upsert) store).countP
          (breakAt program pending) = count) := by
  have underway := underway_load program pending upsert
  constructor
  · intro fuel answer smoothed final ran whole
    obtain ⟨failure, last', final', runs, same⟩ := runs_of_drive ran whole
    obtain ⟨last, runsOn, rfl⟩ := RunsOn.of_smooth underway runs
    obtain ⟨bound, resumed⟩ := runsOn.resumed
    rw [conclude_smooth] at same
    obtain ⟨rfl, rest⟩ := Prod.mk.inj same
    obtain ⟨rfl, rfl⟩ := Prod.mk.inj rest
    exact ⟨_, bound, rfl, resumed⟩
  · intro fuel count answer last final resumed whole
    obtain ⟨failure, last', final', runsOn, same⟩ := runsOn_of_resumed resumed whole
    obtain ⟨trace, counted, runs⟩ := runsOn.smooth underway
    obtain ⟨bound, ran⟩ := run_of_runs runs
    refine ⟨bound, fun more enough => ?_⟩
    obtain ⟨ran, passed⟩ := ran more enough
    constructor
    · rw [conclude_smooth, same] at ran
      exact ran
    · rw [← counted, ← passed]
      rfl

/-- One break in the query program and one in the mutation program, which two notes pass. -/
theorem notes_resumed_three_times :
    let program : Program := [.scan "notes", .store, .break, .transpose, .halt]
    let mutations : Program := [.readResult, .break, .reindex, .goto 0]
    let store : Store := ⟨"notes", ⟨[(1, .null), (2, .null)]⟩, [1, 2], []⟩
    let whole := execute 14 store program.smooth (some mutations.smooth) false
    whole.1 = .ok [1, 2] ∧
      ∃ last fuel, last.smooth = whole.2.1 ∧
        ResumedTo fuel 3 (execute fuel store program (some mutations) false)
          (.ok [1, 2], last, whole.2.2) ∧
        ∃ bound, ∀ more, bound ≤ more →
          execute more store program.smooth (some mutations.smooth) false =
            (.ok [1, 2], last.smooth, whole.2.2) := by
  intro program mutations store whole
  have answered : whole.1 = .ok [1, 2] := rfl
  have counted : (places 14 14 (load program.smooth (some mutations.smooth) false) store).countP
      (breakAt program (some mutations)) = 3 := by decide +kernel
  have ran : whole = (.ok [1, 2], whole.2.1, whole.2.2) := Prod.ext answered rfl
  have unfailing : (Except.ok [1, 2] : Except Error (List DocId)) ≠ .error cutShort :=
    fun same => by cases same
  obtain ⟨ends, breaks⟩ := breaks_only_interrupt program (some mutations) false store
  obtain ⟨last, fuel, same, resumed⟩ := ends 14 _ _ _ ran unfailing
  have resumed' := resumed fuel (Nat.le_refl fuel)
  rw [Option.map_some, counted] at resumed'
  obtain ⟨bound, rest⟩ := breaks fuel 3 _ _ _ resumed' unfailing
  exact ⟨answered, last, fuel, same, resumed', bound, fun more enough => (rest more enough).1⟩

end Machine
end Docstore
