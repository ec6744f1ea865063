import Docstore.Proofs.Machine.Frame
import Docstore.Proofs.Machine.Reaching

set_option autoImplicit false

namespace Docstore
namespace Machine

variable {machine after last : Machine} {store between final : Store}
  {failure : Option Error} {error : Error}

def cutShort : Error :=
  .execution "run" .stepLimit

/-- The mutation program that follows when the machine has halted in the query phase. -/
def follows (machine : Machine) : Option Program :=
  match machine.halted, machine.phase, machine.pending with
  | true, .query, some program => some program
  | _, _, _ => none

theorem follows_mutate (mutating : machine.phase = .mutate) : machine.follows = none := by
  unfold follows
  split
  · rename_i query _
    rw [mutating] at query
    cases query
  · rfl

theorem follows_eq_some {program : Program} : machine.follows = some program ↔
    machine.halted = true ∧ machine.phase = .query ∧ machine.pending = some program := by
  unfold follows
  split
  · rename_i halted query pending
    rw [halted, query, pending]
    exact ⟨fun same => ⟨rfl, rfl, same⟩, fun same => same.2.2⟩
  · rename_i others
    constructor
    · intro same
      cases same
    · intro ⟨halted, query, pending⟩
      exact (others program halted query pending).elim

abbrev Place := Phase × Nat

def place (machine : Machine) : Place :=
  (machine.phase, machine.ip)

/-- The machine runs through the instructions at the places and stops or fails in the end. -/
inductive Runs : Machine → Store → List Place → Option Error → Machine → Store → Prop
  | rests {machine : Machine} {store : Store} (stopped : machine.running = false)
      (nothing : machine.follows = none) : Runs machine store [] none machine store
  | enters {machine last : Machine} {store final : Store} {program : Program}
      {places : List Place} {failure : Option Error} (stopped : machine.running = false)
      (next : machine.follows = some program)
      (rest : Runs (machine.enterMutate program) store places failure last final) :
      Runs machine store places failure last final
  | strays {machine : Machine} {store : Store} {error : Error} (running : machine.running = true)
      (missing : machine.instruction = .error error) :
      Runs machine store [] (some error) machine store
  | fails {machine : Machine} {store between : Store} {instruction : Instruction} {error : Error}
      (running : machine.running = true) (fetched : machine.instruction = .ok instruction)
      (stepped : machine.step store instruction = (.error error, between)) :
      Runs machine store [machine.place] (some error) machine between
  | steps {machine after last : Machine} {store between final : Store} {instruction : Instruction}
      {places : List Place} {failure : Option Error} (running : machine.running = true)
      (fetched : machine.instruction = .ok instruction)
      (stepped : machine.step store instruction = (.ok after, between))
      (rest : Runs after between places failure last final) :
      Runs machine store (machine.place :: places) failure last final

theorem Runs.running_of_failure {places : List Place}
    (runs : Runs machine store places (some error) last final) : last.running = true := by
  generalize same : some error = outcome at runs
  induction runs with
  | rests => cases same
  | strays running _ => exact running
  | fails running _ _ => exact running
  | enters _ _ _ ih => exact ih same
  | steps _ _ _ _ ih => exact ih same

/-- The places that the run of one program passes through. -/
def placesInPhase : Nat → Machine → Store → List Place
  | 0, _, _ => []
  | fuel + 1, machine, store =>
    if machine.running then
      match machine.instruction with
      | .error _ => []
      | .ok instruction =>
        match machine.step store instruction with
        | (.ok after, between) => machine.place :: placesInPhase fuel after between
        | (.error _, _) => [machine.place]
    else []

/-- What comes after the query program, if the run goes on. -/
def goOn {α : Type} (first : Option Error × Machine × Store) (stop : α)
    (enter : Machine → Store → α) : α :=
  match first with
  | (none, after, between) =>
    match after.follows with
    | some program => enter (after.enterMutate program) between
    | none => stop
  | (some _, _, _) => stop

def runBoth (fuel fuel' : Nat) (machine : Machine) (store : Store) :
    Option Error × Machine × Store :=
  goOn (runPhase fuel machine store) (runPhase fuel machine store) (runPhase fuel')

/-- The places that the run of both programs passes through. -/
def places (fuel fuel' : Nat) (machine : Machine) (store : Store) : List Place :=
  placesInPhase fuel machine store ++
    goOn (runPhase fuel machine store) [] (placesInPhase fuel')

theorem run_eq_runBoth (fuel : Nat) (machine : Machine) (store : Store) :
    run fuel machine store = runBoth fuel fuel machine store := by
  unfold run runBoth goOn
  cases runPhase fuel machine store with
  | mk failure rest =>
      obtain ⟨after, between⟩ := rest
      cases failure with
      | some error => rfl
      | none =>
          dsimp only
          split
          · rename_i program halted query pending
            rw [follows_eq_some.2 ⟨halted, query, pending⟩]
          · rename_i others
            cases next : after.follows with
            | none => rfl
            | some program =>
                obtain ⟨halted, query, pending⟩ := follows_eq_some.1 next
                exact (others program halted query pending).elim

/-- What the result of one phase says of derivations: a phase that stops goes on as its last machine
does, and one that fails, though not for want of fuel, is over. -/
def Leads (machine : Machine) (store : Store) (passed : List Place) :
    Option Error × Machine × Store → Prop
  | (none, after, between) => after.running = false ∧
      ∀ {places failure last final}, Runs after between places failure last final →
        Runs machine store (passed ++ places) failure last final
  | (some error, after, between) => error ≠ cutShort →
      Runs machine store passed (some error) after between

variable {passed : List Place} {result : Option Error × Machine × Store}

theorem Leads.steps {instruction : Instruction} (running : machine.running = true)
    (fetched : machine.instruction = .ok instruction)
    (stepped : machine.step store instruction = (.ok after, between))
    (leads : Leads after between passed result) :
    Leads machine store (machine.place :: passed) result := by
  obtain ⟨failure, last, final⟩ := result
  cases failure with
  | none => exact ⟨leads.1, fun rest => .steps running fetched stepped (leads.2 rest)⟩
  | some error => exact fun whole => .steps running fetched stepped (leads whole)

theorem Leads.runs (leads : Leads machine store passed result) (whole : result.1 ≠ some cutShort)
    (nothing : result.1 = none → result.2.1.follows = none) :
    Runs machine store passed result.1 result.2.1 result.2.2 := by
  obtain ⟨failure, last, final⟩ := result
  cases failure with
  | none =>
      rw [← passed.append_nil]
      exact leads.2 (.rests leads.1 (nothing rfl))
  | some error => exact leads fun same => whole (congrArg some same)

theorem leads_runPhase (fuel : Nat) (machine : Machine) (store : Store) :
    Leads machine store (placesInPhase fuel machine store) (runPhase fuel machine store) := by
  fun_induction runPhase fuel machine store with
  | case1 machine store =>
      cases running : machine.running with
      | false => exact ⟨running, fun rest => rest⟩
      | true => exact fun whole => absurd rfl whole
  | case2 fuel machine store running error missing =>
      simp only [placesInPhase, running, missing]
      exact fun _ => .strays running missing
  | case3 fuel machine store running instruction fetched after between stepped ih =>
      simp only [placesInPhase, running, fetched, stepped]
      exact ih.steps running fetched stepped
  | case4 fuel machine store running instruction fetched error between stepped =>
      simp only [placesInPhase, running, fetched, stepped]
      exact fun _ => .fails running fetched stepped
  | case5 fuel machine store stopped =>
      simp only [placesInPhase, stopped]
      exact ⟨Bool.eq_false_of_not_eq_true stopped, fun rest => rest⟩

/-- A run that is not cut short has a derivation. -/
theorem runs_of_runBoth (fuel fuel' : Nat)
    (ran : runBoth fuel fuel' machine store = (failure, last, final))
    (whole : failure ≠ some cutShort) :
    Runs machine store (places fuel fuel' machine store) failure last final := by
  have first := leads_runPhase fuel machine store
  unfold runBoth goOn at ran
  unfold places goOn
  cases phase : runPhase fuel machine store with
  | mk failure' rest =>
      obtain ⟨after, between⟩ := rest
      rw [phase] at first ran
      cases failure' with
      | some error =>
          obtain ⟨rfl, rfl, rfl⟩ : _ ∧ _ ∧ _ := by simpa only [Prod.mk.injEq] using ran
          simpa only [List.append_nil] using first fun same => whole (congrArg some same)
      | none =>
          cases next : after.follows with
          | none =>
              simp only [next, Prod.mk.injEq] at ran
              obtain ⟨rfl, rfl, rfl⟩ := ran
              simpa only [next, List.append_nil] using first.runs whole fun _ => next
          | some program =>
              simp only [next] at ran ⊢
              have second := leads_runPhase fuel' (after.enterMutate program) between
              have mutating : (runPhase fuel' (after.enterMutate program) between).2.1.phase =
                  .mutate := (runPhase_sameLoad fuel' _ between).phase
              rw [ran] at second mutating
              exact first.2 (.enters first.1 next
                (second.runs whole fun _ => follows_mutate mutating))

/-- With enough fuel the machine runs so and through these places. -/
def RunsFrom (bound : Nat) (machine : Machine) (store : Store) (trace : List Place)
    (result : Option Error × Machine × Store) : Prop :=
  ∀ fuel fuel', bound ≤ fuel → bound ≤ fuel' →
    runBoth fuel fuel' machine store = result ∧ places fuel fuel' machine store = trace

theorem goOn_mutate {α : Type} (fuel : Nat) (mutating : machine.phase = .mutate) (stop : α)
    (enter : Machine → Store → α) : goOn (runPhase fuel machine store) stop enter = stop := by
  have phase := (runPhase_sameLoad fuel machine store).phase.trans mutating
  cases ran : runPhase fuel machine store with
  | mk failure rest =>
      obtain ⟨after, between⟩ := rest
      rw [ran] at phase
      cases failure with
      | some error => rfl
      | none => simp only [goOn, follows_mutate phase]

theorem placesInPhase_stopped (fuel : Nat) (stopped : machine.running = false) :
    placesInPhase fuel machine store = [] := by
  cases fuel with
  | zero => rfl
  | succ fuel => simp [placesInPhase, stopped]

/-- With enough fuel a machine runs as its derivation says. -/
theorem Runs.runsFrom {trace : List Place} (runs : Runs machine store trace failure last final) :
    ∃ bound, RunsFrom bound machine store trace (failure, last, final) := by
  induction runs with
  | rests stopped nothing =>
      refine ⟨0, fun fuel fuel' _ _ => ?_⟩
      simp only [runBoth, places, goOn, runPhase_stopped stopped, nothing,
        placesInPhase_stopped fuel stopped, List.append_nil, and_self]
  | @enters machine last store final program trace failure stopped next rest ih =>
      obtain ⟨bound, ih⟩ := ih
      refine ⟨bound, fun fuel fuel' enough enough' => ?_⟩
      have mutating : (machine.enterMutate program).phase = .mutate := rfl
      have same := ih fuel' fuel' enough' enough'
      simp only [runBoth, places, goOn_mutate fuel' mutating, List.append_nil] at same
      simpa only [runBoth, places, goOn, runPhase_stopped stopped, next,
        placesInPhase_stopped fuel stopped, List.nil_append] using same
  | strays running missing =>
      refine ⟨1, fun fuel fuel' enough _ => ?_⟩
      obtain ⟨fuel, rfl⟩ := Nat.exists_eq_add_of_le' enough
      simp only [runBoth, places, goOn, runPhase, placesInPhase, running, missing, if_true,
        List.append_nil, and_self]
  | fails running fetched stepped =>
      refine ⟨1, fun fuel fuel' enough _ => ?_⟩
      obtain ⟨fuel, rfl⟩ := Nat.exists_eq_add_of_le' enough
      simp only [runBoth, places, goOn, runPhase, placesInPhase, running, fetched, stepped, if_true,
        List.append_nil, and_self]
  | steps running fetched stepped rest ih =>
      obtain ⟨bound, ih⟩ := ih
      refine ⟨bound + 1, fun fuel fuel' enough enough' => ?_⟩
      obtain ⟨fuel, rfl⟩ := Nat.exists_eq_add_of_le' (Nat.le_trans (Nat.le_add_left 1 bound) enough)
      have same := ih fuel fuel' (Nat.le_of_succ_le_succ enough) (Nat.le_of_succ_le enough')
      simp only [runBoth, places] at same
      simp only [runBoth, places, runPhase, placesInPhase, running, fetched, stepped, if_true,
        List.cons_append, same.1, same.2, and_self]

/-- A phase that is not cut short runs the same with more fuel. -/
theorem runPhase_add {fuel : Nat} (whole : (runPhase fuel machine store).1 ≠ some cutShort)
    (more : Nat) : runPhase (fuel + more) machine store = runPhase fuel machine store := by
  fun_induction runPhase fuel machine store with
  | case1 machine store =>
      cases running : machine.running with
      | false => simp only [runPhase_stopped running, Bool.false_eq_true, if_false]
      | true => simp [running, cutShort] at whole
  | case2 fuel machine store running error missing =>
      rw [Nat.succ_add]
      simp only [runPhase, running, missing, if_true]
  | case3 fuel machine store running instruction fetched after between stepped ih =>
      rw [Nat.succ_add]
      simp only [runPhase, running, fetched, stepped, if_true]
      exact ih whole
  | case4 fuel machine store running instruction fetched error between stepped =>
      rw [Nat.succ_add]
      simp only [runPhase, running, fetched, stepped, if_true]
  | case5 fuel machine store stopped =>
      exact runPhase_stopped (Bool.eq_false_of_not_eq_true stopped) _

/-- A run that comes to an end does so with any fuel, unless it is cut short. -/
theorem Ends.runPhase_or {count : Nat} (ends : Ends count machine store failure after between)
    (fuel : Nat) : (runPhase fuel machine store).1 = some cutShort ∨
      runPhase fuel machine store = (failure, after, between) := by
  by_cases short : (runPhase fuel machine store).1 = some cutShort
  · exact .inl short
  · right
    rw [← runPhase_add short count, Nat.add_comm]
    exact ends fuel

def outcome : Option Error × Machine × Store → Except Error (List DocId)
  | (none, machine, _) => .ok machine.result
  | (some error, _, _) => .error error

/-- Without a pending program, an execution is the run of one program. -/
theorem execute_outcome (fuel : Nat) (store : Store) (program : Program) (upsert : Bool) :
    (execute fuel store program none upsert).1 =
      outcome (runPhase fuel (load program none upsert) store) := by
  have same := (runPhase_sameLoad fuel (load program none upsert) store).pending
  unfold execute drive run
  generalize runPhase fuel (load program none upsert) store = result at same ⊢
  obtain ⟨failure, after, between⟩ := result
  cases failure with
  | some error =>
      dsimp only
      split
      · rfl
      · rfl
  | none =>
      have idle : after.pending = none := same
      simp only [idle]
      cases after.halted <;> cases after.phase <;> rfl

end Machine
end Docstore
