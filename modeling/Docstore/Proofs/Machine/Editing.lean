import Docstore.Program.Compile
import Docstore.Proofs.Machine.Failures

set_option autoImplicit false

namespace Docstore

theorem Json.Identified.apply {doc : Json} {id : DocId} (identified : doc.Identified id)
    (mutation : Mutation) (upsert : Bool) : (mutation.apply upsert doc).2.Identified id := by
  obtain ⟨members, n, rfl, there, value⟩ := identified
  obtain ⟨members', after, there'⟩ := mutation.apply_keeps_identity upsert there
  exact ⟨members', n, after, there', value⟩

namespace Program

variable {mutations : List Mutation} {position : Nat} {instruction : Instruction}

/-- The instructions of a mutation program by their positions. -/
theorem ofMutations_at (there : (ofMutations mutations)[position]? = some instruction) :
    position = 0 ∧ instruction = .readResult ∨
      (∃ mutation, 1 ≤ position ∧ position ≤ mutations.length ∧
        instruction = .mutate mutation) ∨
      position = mutations.length + 1 ∧ instruction = .reindex ∨
      position = mutations.length + 2 ∧ instruction = .goto 0 ∨
      position = mutations.length + 3 ∧ instruction = .halt := by
  unfold ofMutations at there
  cases position with
  | zero => exact .inl ⟨rfl, by simpa [eq_comm] using there⟩
  | succ position =>
      rw [List.getElem?_cons_succ] at there
      by_cases early : position < mutations.length
      · rw [List.getElem?_append_left (by simpa using early), List.getElem?_map,
          List.getElem?_eq_getElem early] at there
        exact .inr (.inl ⟨mutations[position], by omega, by omega,
          by simpa [eq_comm] using there⟩)
      · rw [List.getElem?_append_right (by simpa using early), List.length_map] at there
        obtain ⟨offset, rfl⟩ : ∃ offset, position = mutations.length + offset :=
          ⟨position - mutations.length, by omega⟩
        rw [Nat.add_sub_cancel_left] at there
        rcases offset with _ | _ | _ | offset
        · exact .inr (.inr (.inl ⟨rfl, by simpa [eq_comm] using there⟩))
        · exact .inr (.inr (.inr (.inl ⟨rfl, by simpa [eq_comm] using there⟩)))
        · exact .inr (.inr (.inr (.inr ⟨rfl, by simpa [eq_comm] using there⟩)))
        · simp at there

end Program

namespace Machine

variable {machine after : Machine} {store store' : Store} {mutations : List Mutation}

/-- The document that may have been changed since it was filed. -/
def dirty (mutations : List Mutation) (machine : Machine) : Option DocId :=
  if machine.running = true ∧ 1 ≤ machine.ip ∧ machine.ip ≤ mutations.length + 1 then
    machine.current
  else none

/-- A machine in the middle of a mutation program, with what it works on. -/
structure Editing (mutations : List Mutation) (machine : Machine) (store : Store) : Prop where
  phase : machine.phase = .mutate
  program : machine.program = some (Program.ofMutations mutations)
  sound : store.Sound (machine.dirty mutations)

namespace Editing

/-- Once a failure is settled, it does not matter whether the current document was dirty. -/
theorem sound_current (editing : Editing mutations machine store) :
    store.Sound machine.current := by
  have sound := editing.sound
  unfold dirty at sound
  split at sound
  · exact sound
  · exact sound.weaken

theorem sound_of_clean (editing : Editing mutations machine store)
    (outside : ¬(machine.running = true ∧ 1 ≤ machine.ip ∧ machine.ip ≤ mutations.length + 1)) :
    store.Sound none := by
  have sound := editing.sound
  rwa [dirty, if_neg outside] at sound

theorem sound_of_stopped (editing : Editing mutations machine store)
    (stopped : ¬machine.running = true) : store.Sound none :=
  editing.sound_of_clean fun inside => stopped inside.1

theorem of_clean (editing : Editing mutations machine store) (load : SameLoad after machine)
    (sound : store'.Sound none) : Editing mutations after store' where
  phase := load.phase.trans editing.phase
  program := load.program.trans editing.program
  sound := sound.weaken

theorem readResult (editing : Editing mutations machine store) (start : machine.ip = 0) :
    Editing mutations ((machine.readFrom machine.result).advance .readResult) store :=
  editing.of_clean ((advance_sameLoad _ _).trans (readFrom_proceeds _ _).toSameLoad)
    (editing.sound_of_clean (by omega))

theorem mutate (editing : Editing mutations machine store) (running : machine.running = true)
    (high : machine.ip ≤ mutations.length) (mutation : Mutation) :
    (machine.mutate store mutation).2.Sound machine.current ∧
      Store.SameOutline (machine.mutate store mutation).2 store ∧
      ∀ after, (machine.mutate store mutation).1 = .ok after →
        Editing mutations (after.advance (.mutate mutation)) (machine.mutate store mutation).2 := by
  cases found : machine.documentToMutate store mutation.op.opcode with
  | error error =>
      simp only [Machine.mutate, found]
      exact ⟨editing.sound_current, .refl store, fun _ failed => by cases failed⟩
  | ok target =>
      obtain ⟨id, doc⟩ := target
      obtain ⟨current, stored⟩ := documentToMutate_eq_ok found
      have before := editing.sound_current
      rw [current] at before
      obtain ⟨sound, outline⟩ := before.write stored
        ((before.identified id doc stored).apply mutation machine.upsert)
      rw [mutate_snd found, current]
      refine ⟨sound, outline, fun after same => ?_⟩
      obtain rfl := mutate_eq same
      refine ⟨editing.phase, editing.program, ?_⟩
      rw [dirty, if_pos ⟨running, by simp [advance, next], by simp only [advance, next]; omega⟩]
      exact current ▸ sound

theorem reindex (editing : Editing mutations machine store) :
    (machine.reindex store).2.Sound machine.current ∧
      Store.SameOutline (machine.reindex store).2 store ∧
      ∀ after, (machine.reindex store).1 = .ok after →
        Editing mutations (after.advance .reindex) (machine.reindex store).2 := by
  obtain ⟨error, -, same⟩ | ⟨id, -, current, same⟩ := reindex_cases machine store
  · rw [same]
    exact ⟨editing.sound_current, .refl store, fun _ failed => by cases failed⟩
  · have before := editing.sound_current
    rw [current] at before
    obtain ⟨sound, outline⟩ := before.reindexed
    have kept : ∀ after, (machine.reindex store).1 = .ok after → after = machine :=
      fun after ran => reindex_eq ran
    rw [same] at kept ⊢
    refine ⟨sound.weaken, outline, fun after ran => ?_⟩
    obtain rfl := kept after ran
    exact editing.of_clean (advance_sameLoad _ _) sound

/-- One instruction of a mutation program. -/
theorem step (editing : Editing mutations machine store) (running : machine.running = true)
    {instruction : Instruction} (fetched : machine.instruction = .ok instruction) :
    (machine.step store instruction).2.Sound machine.current ∧
      Store.SameOutline (machine.step store instruction).2 store ∧
      ∀ after, (machine.step store instruction).1 = .ok after →
        Editing mutations after (machine.step store instruction).2 := by
  have there : (Program.ofMutations mutations)[machine.ip]? = some instruction := by
    obtain ⟨program, loaded, there⟩ := loaded_of_instruction fetched
    rw [editing.program, Option.some.injEq] at loaded
    rw [loaded]
    exact there
  obtain ⟨start, rfl⟩ | ⟨mutation, -, high, rfl⟩ | ⟨at_, rfl⟩ | ⟨at_, rfl⟩ | ⟨at_, rfl⟩ :=
    Program.ofMutations_at there
  · refine ⟨editing.sound_current, .refl store, fun after same => ?_⟩
    obtain rfl := Except.ok.inj same
    exact editing.readResult start
  · obtain ⟨sound, outline, editing'⟩ := editing.mutate running high mutation
    refine ⟨sound, outline, fun after same => ?_⟩
    obtain ⟨between, done, rfl⟩ := effect_of_step same
    exact editing' between done
  · obtain ⟨sound, outline, editing'⟩ := editing.reindex
    refine ⟨sound, outline, fun after same => ?_⟩
    obtain ⟨between, done, rfl⟩ := effect_of_step same
    exact editing' between done
  · have sound := editing.sound_of_clean (by omega)
    refine ⟨editing.sound_current, .refl store, fun after same => ?_⟩
    obtain rfl := Except.ok.inj same
    exact editing.of_clean (advance_sameLoad _ _) sound
  · have sound := editing.sound_of_clean (by omega)
    refine ⟨editing.sound_current, .refl store, fun after same => ?_⟩
    obtain rfl := Except.ok.inj same
    exact editing.of_clean ((advance_sameLoad _ _).trans ⟨rfl, rfl, rfl, rfl⟩) sound

/-- Where a mutation program stops, nothing is dirty; where it fails, the current document may
be. -/
theorem runPhase (fuel : Nat) (editing : Editing mutations machine store) :
    (runPhase fuel machine store).2.2.Sound (runPhase fuel machine store).2.1.current ∧
      ((runPhase fuel machine store).1 = none → (runPhase fuel machine store).2.2.Sound none) ∧
      Store.SameOutline (runPhase fuel machine store).2.2 store ∧
      (runPhase fuel machine store).2.1.phase = .mutate := by
  fun_induction Machine.runPhase fuel machine store with
  | case1 machine store =>
      refine ⟨editing.sound_current, fun stopped => editing.sound_of_stopped fun running => ?_,
        .refl store, editing.phase⟩
      simp [running] at stopped
  | case2 fuel machine store running error missing =>
      exact ⟨editing.sound_current, (fun stopped => by cases stopped), .refl store, editing.phase⟩
  | case3 fuel machine store running instruction fetched after between stepped ih =>
      have done := editing.step running fetched
      rw [stepped] at done
      obtain ⟨-, outline, editing'⟩ := done
      obtain ⟨sound, clean, outline', phase⟩ := ih (editing' after rfl)
      exact ⟨sound, clean, outline'.trans outline, phase⟩
  | case4 fuel machine store running instruction fetched error between stepped =>
      have done := editing.step running fetched
      rw [stepped] at done
      exact ⟨done.1, (fun stopped => by cases stopped), done.2.1, editing.phase⟩
  | case5 fuel machine store stopped =>
      exact ⟨editing.sound_current, fun _ => editing.sound_of_stopped stopped, .refl store,
        editing.phase⟩

end Editing

/-- A program that can follow a query: one without mutations, or a mutation program. -/
def Proper (program : Program) : Prop :=
  program.ReadOnly ∨ ∃ mutations, program = Program.ofMutations mutations

/-- How a run leaves the store it began with. Unless it failed in the mutations, the indices agree
with the documents; after such a failure the current document may be dirty. -/
structure Leaves (before : Store) (ended : Option Error × Machine × Store) : Prop where
  current : ended.2.2.Sound ended.2.1.current
  clean : ended.1 = none ∨ ended.2.1.phase = .query → ended.2.2.Sound none
  broken : ∀ error, ended.1 = some error → error.isBreakdown = true → ended.2.2.Sound none
  outline : Store.SameOutline ended.2.2 before

theorem Leaves.of_clean {ended : Option Error × Machine × Store} (sound : ended.2.2.Sound none)
    (outline : Store.SameOutline ended.2.2 store) : Leaves store ended :=
  ⟨sound.weaken, fun _ => sound, fun _ _ _ => sound, outline⟩

/-- A mutation program sorts nothing, so it does not break down. -/
theorem not_breakdown_of_editing (editing : Editing mutations machine store) {fuel : Nat}
    {error : Error} (failed : (runPhase fuel machine store).1 = some error) :
    error.isBreakdown = false := by
  have same := runPhase_sameLoad fuel machine store
  rcases ran : runPhase fuel machine store with ⟨failure, after, between⟩
  rw [ran] at failed same
  obtain rfl := failed
  by_contra broken
  obtain ⟨⟨-, spec, fetched, -⟩, -⟩ :=
    runPhase_breakdown ran (Bool.eq_true_of_not_eq_false broken)
  obtain ⟨program, loaded, there⟩ := loaded_of_instruction fetched
  rw [same.program, editing.program, Option.some.injEq] at loaded
  rw [← loaded] at there
  obtain ⟨-, other⟩ | ⟨_, -, -, other⟩ | ⟨-, other⟩ | ⟨-, other⟩ | ⟨-, other⟩ :=
    Program.ofMutations_at there
  all_goals cases other

theorem leaves_enterMutate (fuel : Nat) (machine : Machine) {program : Program}
    (proper : Proper program) (sound : store.Sound none) :
    Leaves store (runPhase fuel (machine.enterMutate program) store) := by
  obtain readOnly | ⟨mutations, rfl⟩ := proper
  · have quiet : (machine.enterMutate program).Quiet :=
      .inr fun loaded same => Option.some.inj same ▸ readOnly
    have kept := runPhase_keeps fuel quiet sound
    exact .of_clean kept.sound kept.outline
  · have editing : Editing mutations (machine.enterMutate (Program.ofMutations mutations)) store :=
      ⟨rfl, rfl, sound.weaken⟩
    obtain ⟨current, clean, outline, mutating⟩ := editing.runPhase fuel
    refine ⟨current, fun ended => ended.elim clean fun query => ?_,
      fun error failed broken => ?_, outline⟩
    · rw [mutating] at query
      cases query
    · rw [not_breakdown_of_editing editing failed] at broken
      cases broken

theorem leaves_run (fuel : Nat) (machine : Machine) (query : machine.phase = .query)
    (proper : ∀ program, machine.pending = some program → Proper program)
    (sound : store.Sound none) : Leaves store (run fuel machine store) := by
  have kept := runPhase_keeps fuel (.inl query) sound
  obtain alone | ⟨after, between, program, ran, pending, followed⟩ := run_cases fuel machine store
  · rw [alone]
    exact .of_clean kept.sound kept.outline
  · rw [ran] at kept
    have left := leaves_enterMutate fuel after (proper program pending) kept.sound
    rw [followed]
    exact ⟨left.current, left.clean, left.broken, left.outline.trans kept.outline⟩

/-- Settling a failure files what the mutations may have left dirty. -/
theorem Leaves.settled {before after : Store} {outcome : Option Error}
    (left : Leaves before (outcome, machine, after)) :
    (machine.settleFailure after).Sound none ∧
      Store.SameOutline (machine.settleFailure after) after := by
  have current := left.current
  cases phase : machine.phase with
  | query =>
      simp only [settleFailure, phase]
      exact ⟨left.clean (.inr phase), .refl after⟩
  | mutate =>
      cases held : machine.current with
      | none =>
          simp only [settleFailure, phase, held]
          exact ⟨held ▸ current, .refl after⟩
      | some id =>
          simp only [settleFailure, phase, held]
          exact (held ▸ current : after.Sound (some id)).reindexed

/-- After a run, whether it fails or not, the indices agree with the documents. -/
theorem execute_sound (fuel : Nat) (sound : store.Sound none) (program : Program)
    {pending : Option Program} (proper : ∀ program, pending = some program → Proper program)
    (upsert : Bool) :
    (execute fuel store program pending upsert).2.2.Sound none ∧
      Store.SameOutline (execute fuel store program pending upsert).2.2 store := by
  have left := leaves_run fuel (load program pending upsert) rfl proper sound
  rw [execute]
  obtain ⟨after, between, ran, ended⟩ | ⟨error, after, between, ran, broken, ended⟩ |
    ⟨error, after, between, ran, -, ended⟩ := drive_cases fuel (load program pending upsert) store
  · rw [ran] at left
    rw [ended]
    exact ⟨left.clean (.inl rfl), left.outline⟩
  · rw [ran] at left
    rw [ended]
    exact ⟨left.broken error rfl broken, left.outline⟩
  · rw [ran] at left
    obtain ⟨sound', outline⟩ := left.settled
    rw [ended]
    exact ⟨sound', outline.trans left.outline⟩

end Machine
end Docstore
