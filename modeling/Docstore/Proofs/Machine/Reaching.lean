import Docstore.Machine
import Docstore.Proofs.Fallible

set_option autoImplicit false

namespace Docstore

namespace Program

variable {program : Program} {position : Nat} {first second : List Instruction}

def CodeAt (program : Program) (position : Nat) (code : List Instruction) : Prop :=
  ∃ before behind, program = before ++ (code ++ behind) ∧ before.length = position

theorem codeAt_append : program.CodeAt position (first ++ second) ↔
    program.CodeAt position first ∧ program.CodeAt (position + first.length) second := by
  constructor
  · rintro ⟨before, behind, rfl, rfl⟩
    refine ⟨⟨before, second ++ behind, by rw [List.append_assoc], rfl⟩,
      before ++ first, behind, ?_, List.length_append⟩
    simp only [List.append_assoc]
  · rintro ⟨⟨before, behind, rfl, rfl⟩, before', behind', same, length⟩
    refine ⟨before, behind', ?_, rfl⟩
    have fronts : before ++ first = before' := by
      rw [← List.append_assoc] at same
      exact (List.append_inj same (by rw [List.length_append, length])).1
    rw [← fronts] at same
    rw [same, List.append_assoc, List.append_assoc]

theorem codeAt_cons {instruction : Instruction} :
    program.CodeAt position (instruction :: second) ↔
      program[position]? = some instruction ∧ program.CodeAt (position + 1) second := by
  rw [show instruction :: second = [instruction] ++ second from rfl, codeAt_append]
  refine and_congr_left fun _ => ?_
  constructor
  · rintro ⟨before, behind, rfl, rfl⟩
    simp
  · intro there
    obtain ⟨bound, here⟩ := List.getElem?_eq_some_iff.1 there
    refine ⟨program.take position, program.drop (position + 1), ?_, ?_⟩
    · rw [List.singleton_append, ← here, List.getElem_cons_drop, List.take_append_drop]
    · rw [List.length_take, Nat.min_eq_left (Nat.le_of_lt bound)]

end Program

namespace Machine

variable {machine after later : Machine} {store between last : Store} {program : Program}

/-- In so many steps one machine becomes the other, whatever fuel is left then. -/
def Reaches (count : Nat) (machine : Machine) (store : Store) (after : Machine)
    (between : Store) : Prop :=
  ∀ fuel, runPhase (count + fuel) machine store = runPhase fuel after between

theorem Reaches.refl (machine : Machine) (store : Store) : Reaches 0 machine store machine store :=
  fun fuel => by rw [Nat.zero_add]

theorem Reaches.trans {count count' : Nat} (first : Reaches count machine store after between)
    (second : Reaches count' after between later last) :
    Reaches (count + count') machine store later last := by
  intro fuel
  rw [Nat.add_assoc, first, second]

theorem runPhase_stopped (stopped : machine.running = false) (fuel : Nat) :
    runPhase fuel machine store = (none, machine, store) := by
  cases fuel with
  | zero => simp [runPhase, stopped]
  | succ fuel => simp [runPhase, stopped]

/-- A machine on its way through a program. -/
structure Going (program : Program) (machine : Machine) : Prop where
  running : machine.running = true
  loaded : machine.program = some program

def onward (machine : Machine) (count : Nat) (stack : List Cell) : Machine :=
  { machine with ip := machine.ip + count, stack }

theorem onward_onward (machine : Machine) (first second : Nat) (stack stack' : List Cell) :
    (machine.onward first stack).onward second stack' =
      machine.onward (first + second) stack' := by
  simp only [onward, Nat.add_assoc]

theorem Going.onward (going : Going program machine) (count : Nat) (stack : List Cell) :
    Going program (machine.onward count stack) :=
  ⟨going.running, going.loaded⟩

theorem Going.step (going : Going program machine) {instruction : Instruction}
    (here : program[machine.ip]? = some instruction)
    (done : machine.effect store instruction = (.ok after, between)) :
    Reaches 1 machine store (after.advance instruction) between := by
  intro fuel
  have fetched : machine.instruction = .ok instruction := by
    simp only [Machine.instruction, going.loaded, here]
  have stepped : machine.step store instruction = (.ok (after.advance instruction), between) := by
    simp only [Machine.step, done]
    rfl
  rw [Nat.add_comm]
  simp only [runPhase, going.running, if_true, fetched, stepped]

/-- In so many steps the machine stops or fails, whatever fuel is left then. -/
def Ends (count : Nat) (machine : Machine) (store : Store) (failure : Option Error)
    (after : Machine) (between : Store) : Prop :=
  ∀ fuel, runPhase (count + fuel) machine store = (failure, after, between)

variable {count count' fuel : Nat} {failure : Option Error}

theorem Ends.runPhase_eq (ends : Ends count machine store failure after between)
    (enough : count ≤ fuel) : runPhase fuel machine store = (failure, after, between) := by
  rw [← Nat.add_sub_of_le enough]
  exact ends _

theorem Reaches.stops (run : Reaches count machine store after between)
    (stopped : after.running = false) : Ends count machine store none after between := by
  intro fuel
  rw [run, runPhase_stopped stopped]

theorem Reaches.ends (run : Reaches count machine store after between)
    (rest : Ends count' after between failure later last) :
    Ends (count + count') machine store failure later last := by
  intro fuel
  rw [Nat.add_assoc, run, rest]

theorem Going.fails (going : Going program machine) {instruction : Instruction} {error : Error}
    (here : program[machine.ip]? = some instruction)
    (failed : machine.effect store instruction = (.error error, between)) :
    Ends 1 machine store (some error) machine between := by
  intro fuel
  have fetched : machine.instruction = .ok instruction := by
    simp only [Machine.instruction, going.loaded, here]
  have stepped : machine.step store instruction = (.error error, between) := by
    simp only [Machine.step, failed]
    rfl
  rw [Nat.add_comm]
  simp only [runPhase, going.running, if_true, fetched, stepped]

end Machine

end Docstore
