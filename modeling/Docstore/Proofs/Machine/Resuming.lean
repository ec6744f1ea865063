import Docstore.Proofs.Machine.Failures

set_option autoImplicit false

namespace Docstore

theorem PageTree.search_recent {K V : Type} [Ord K] [DecidableEq K] {tree after : PageTree K V}
    {key : K} {found : Option V} (ran : tree.search key = .ok (found, after)) :
    ∃ recent, after = { tree with recent } := by
  unfold PageTree.search at ran
  split at ran
  · rename_i recent _
    exact ⟨recent, (congrArg Prod.snd (Except.ok.inj ran)).symm⟩
  · obtain ⟨id, -, ran⟩ := bind_eq_ok.1 ran
    obtain ⟨leaf, -, ran⟩ := bind_eq_ok.1 ran
    split at ran
    · exact ⟨_, (congrArg Prod.snd (Except.ok.inj ran)).symm⟩
    · exact ⟨tree.recent, (congrArg Prod.snd (Except.ok.inj ran)).symm⟩

namespace Index

/-- An index without the recent answers of its tree, which are no part of what it holds. -/
def content : Index → Index
  | .ordered index => .ordered { index with tree := { index.tree with recent := Recent.empty 0 } }
  | .hashed index => .hashed index

theorem content_search {index after : Index} {key : Key} {ids : List DocId}
    (ran : index.search key = .ok (ids, after)) : after.content = index.content := by
  cases index with
  | hashed index =>
      rw [← (Prod.mk.inj (Except.ok.inj ran)).2]
  | ordered index =>
      obtain ⟨⟨ids', between⟩, searched, same⟩ := bind_eq_ok.1 ran
      obtain ⟨⟨bucket, tree⟩, read, same'⟩ := bind_eq_ok.1 searched
      have sought : index.tree.search key = .ok (bucket, tree) := by
        cases outcome : index.tree.search key with
        | error fault => simp [outcome, damaged] at read
        | ok pair => simpa [outcome, damaged] using read
      obtain ⟨recent, rfl⟩ := PageTree.search_recent sought
      rw [← (Prod.mk.inj (Except.ok.inj same)).2, ← (Prod.mk.inj (Except.ok.inj same')).2]
      rfl

end Index

namespace Store

/-- A store with the documents of another in the same order, and with indices that hold the same. -/
structure Unwritten (after before : Store) : Prop where
  name : after.name = before.name
  documents : after.documents = before.documents
  order : after.order = before.order
  indices : after.indices.map Index.content = before.indices.map Index.content

namespace Unwritten

variable {first second third : Store}

theorem refl (store : Store) : Unwritten store store := ⟨rfl, rfl, rfl, rfl⟩

theorem trans (later : Unwritten third second) (earlier : Unwritten second first) :
    Unwritten third first :=
  ⟨later.name.trans earlier.name, later.documents.trans earlier.documents,
    later.order.trans earlier.order, later.indices.trans earlier.indices⟩

end Unwritten

theorem unwritten_fetch {store after : Store} {ref : IndexRef} {ids : List DocId}
    (ran : store.fetch ref = .ok (ids, after)) : Unwritten after store := by
  unfold fetch at ran
  split at ran
  · cases ran
  · rename_i index there
    split at ran
    · obtain ⟨⟨ids', refreshed⟩, searched, same⟩ := bind_eq_ok.1 ran
      rw [← (Prod.mk.inj (Except.ok.inj same)).2]
      refine ⟨rfl, rfl, rfl, ?_⟩
      obtain ⟨bound, rfl⟩ := List.getElem?_eq_some_iff.1 there
      rw [List.map_set, Index.content_search searched, ← List.map_set, List.set_getElem_self]
    · obtain ⟨ids', -, same⟩ := bind_eq_ok.1 ran
      rw [← (Prod.mk.inj (Except.ok.inj same)).2]
      exact .refl store

end Store

namespace Machine

variable {machine : Machine} {store : Store}

theorem orKeep_unwritten {attempt : Except Error (Machine × Store)}
    (unwritten : ∀ after between, attempt = .ok (after, between) → between.Unwritten store) :
    (orKeep store attempt).2.Unwritten store := by
  cases attempt with
  | error error => exact .refl store
  | ok result => exact unwritten _ _ rfl

theorem effect_unwritten (query : machine.phase = .query) (instruction : Instruction) :
    (machine.effect store instruction).2.Unwritten store := by
  cases instruction with
  | mutate mutation =>
      rw [show (machine.effect store (.mutate mutation)).2 = store from mutate_query query _]
      exact .refl store
  | lookup ref =>
      apply orKeep_unwritten
      intro after between ran
      obtain ⟨⟨ids, fetched⟩, done, same⟩ := bind_eq_ok.1 ran
      rw [← (Prod.mk.inj (Except.ok.inj same)).2]
      exact Store.unwritten_fetch done
  | reindex =>
      obtain ⟨error, -, same⟩ | ⟨id, mutating, -, -⟩ := reindex_cases machine store
      · rw [effect, same]
        exact .refl store
      · rw [query] at mutating
        cases mutating
  | _ => exact .refl store

theorem runPhase_unwritten (fuel : Nat) (query : machine.phase = .query) :
    (runPhase fuel machine store).2.2.Unwritten store := by
  apply runPhase_invariant (Store.Unwritten · store) fuel _ (.refl store)
  intro other between instruction same fetched unwritten
  exact (effect_unwritten (same.phase.trans query) instruction).trans unwritten

abbrev Outcome := Except Error (List DocId) × Machine × Store

def woken (machine : Machine) : Machine :=
  { machine with running := true }

/-- Resumes a run again and again, with so much fuel each time. -/
def resumeEach : List Nat → Outcome → Outcome
  | [], outcome => outcome
  | fuel :: fuels, outcome => resumeEach fuels (resume fuel outcome.2.1 outcome.2.2)

theorem resumeEach_append (fuels later : List Nat) (outcome : Outcome) :
    resumeEach (fuels ++ later) outcome = resumeEach later (resumeEach fuels outcome) := by
  induction fuels generalizing outcome with
  | nil => rfl
  | cons fuel rest ih => exact ih _

/-- What a drive keeps and a resumption finds again holds however often a run is resumed. -/
theorem resumeEach_invariant (good : Outcome → Prop)
    (kept : ∀ fuel outcome, good outcome → good (resume fuel outcome.2.1 outcome.2.2))
    (fuels : List Nat) {outcome : Outcome} (start : good outcome) :
    good (resumeEach fuels outcome) := by
  induction fuels generalizing outcome with
  | nil => exact start
  | cons fuel rest ih => exact ih (kept fuel outcome start)

/-- A machine in the query phase with no mutation program to follow. -/
structure Querying (machine : Machine) : Prop where
  phase : machine.phase = .query
  pending : machine.pending = none

theorem Querying.of_sameLoad {after : Machine} (querying : machine.Querying)
    (same : SameLoad after machine) : after.Querying :=
  ⟨same.phase.trans querying.phase, same.pending.trans querying.pending⟩

theorem Querying.run_eq (querying : machine.Querying) (fuel : Nat) (store : Store) :
    run fuel machine store = runPhase fuel machine store := by
  obtain alone | ⟨after, between, program, ran, pending, followed⟩ := run_cases fuel machine store
  · exact alone
  · rw [querying.pending] at pending
    cases pending

theorem Querying.drive (querying : machine.Querying) (fuel : Nat) (store : Store) :
    (drive fuel machine store).2.1.Querying ∧
      (drive fuel machine store).2.2.Unwritten store := by
  have querying' := querying.of_sameLoad (runPhase_sameLoad fuel machine store)
  have unwritten : (runPhase fuel machine store).2.2.Unwritten store :=
    runPhase_unwritten fuel querying.phase
  rw [← querying.run_eq] at querying' unwritten
  obtain ⟨after, between, ran, ended⟩ | ⟨error, after, between, ran, -, ended⟩ |
    ⟨error, after, between, ran, -, ended⟩ := drive_cases fuel machine store
  · rw [ran] at querying' unwritten
    rw [ended]
    exact ⟨querying', unwritten⟩
  · rw [ran] at querying' unwritten
    rw [ended]
    exact ⟨querying', unwritten⟩
  · rw [ran] at querying' unwritten
    have settled : after.settleFailure between = between := by
      rw [settleFailure, show after.phase = .query from querying'.phase]
    rw [ended, settled]
    exact ⟨⟨querying'.phase, querying'.pending⟩, unwritten⟩

theorem Querying.resume (querying : machine.Querying) (fuel : Nat) (store : Store) :
    (resume fuel machine store).2.1.Querying ∧
      (resume fuel machine store).2.2.Unwritten store := by
  unfold Machine.resume
  split
  · exact ⟨querying, .refl store⟩
  · split
    · exact ⟨querying, .refl store⟩
    · have querying' : machine.woken.Querying := ⟨querying.phase, querying.pending⟩
      exact querying'.drive fuel store

/-- A machine that has stopped for good and holds nothing. -/
structure Spent (machine : Machine) : Prop where
  halted : machine.halted = true
  stack : machine.stack = []
  result : machine.result = []

theorem Spent.resume (spent : machine.Spent) (fuel : Nat) (store : Store) :
    resume fuel machine store = (.ok [], machine, store) := by
  simp only [Machine.resume, spent.halted, if_true, spent.result]

theorem Spent.resumeEach (spent : machine.Spent) (fuel : Nat) (fuels : List Nat) (store : Store)
    (answer : Except Error (List DocId)) :
    resumeEach (fuel :: fuels) (answer, machine, store) = (.ok [], machine, store) := by
  have once := spent.resume fuel store
  apply resumeEach_invariant (· = (.ok [], machine, store)) _ fuels once
  intro fuel outcome same
  rw [same]
  exact spent.resume fuel store

def Awake (machine : Machine) : Prop :=
  machine.running = true → machine.halted = false

theorem Awake.advance (awake : machine.Awake) (instruction : Instruction) :
    (machine.advance instruction).Awake := by
  cases instruction with
  | jump target =>
      unfold Machine.advance
      dsimp only
      split
      · exact awake
      · exact awake
  | _ => exact awake

theorem Awake.step (awake : machine.Awake) (running : machine.running = true)
    {instruction : Instruction} {after : Machine} {between : Store}
    (stepped : machine.step store instruction = (.ok after, between)) : after.Awake := by
  obtain ⟨middle, done, rfl⟩ := effect_of_step (congrArg Prod.fst stepped)
  apply Awake.advance
  rcases effect_proceeds done with proceeds | ⟨-, rfl⟩ | ⟨-, rfl⟩
  · obtain ⟨-, halted⟩ | ⟨stopped, -⟩ := proceeds.going
    · exact fun _ => halted.trans (awake running)
    · exact fun running' => by rw [stopped] at running'; cases running'
  · exact fun running' => by cases running'
  · exact fun _ => awake running

theorem Awake.runPhase (awake : machine.Awake) (fuel : Nat) (store : Store) :
    (runPhase fuel machine store).2.1.Awake := by
  fun_induction Machine.runPhase fuel machine store with
  | case1 machine store => exact awake
  | case2 fuel machine store running error missing => exact awake
  | case3 fuel machine store running instruction fetched after between stepped ih =>
      exact ih (awake.step running stepped)
  | case4 fuel machine store running instruction fetched error between stepped => exact awake
  | case5 fuel machine store stopped => exact awake

/-- A machine from which nothing more can be had: it has failed, or it stands before a sort that
breaks down. -/
inductive Barren (machine : Machine) (store : Store) : Prop
  | spent (spent : machine.Spent)
  | stalled (stalled : machine.Stalled store) (awake : machine.Awake)

/-- No documents come from an outcome, nor from what it leaves. -/
structure Fruitless (outcome : Outcome) : Prop where
  answer : ∀ ids, outcome.1 = .ok ids → ids = []
  barren : Barren outcome.2.1 outcome.2.2

theorem Barren.resume (barren : Barren machine store) (fuel : Nat) :
    Fruitless (resume fuel machine store) := by
  cases barren with
  | spent spent =>
      rw [spent.resume]
      exact ⟨fun ids same => (Except.ok.inj same).symm, .spent spent⟩
  | stalled stalled awake =>
      obtain ⟨program, loaded, -⟩ := loaded_of_instruction stalled.sorts.choose_spec.1
      have woken : { machine with running := true } = machine := by rw [← stalled.running]
      rw [Machine.resume, if_neg (by rw [awake stalled.running]; exact Bool.false_ne_true),
        if_neg (by rw [loaded]; exact Bool.false_ne_true), woken]
      cases fuel with
      | zero =>
          -- cut short before it comes to the sort, it fails like any other
          have ran : Machine.run 0 machine store =
              (some (.execution "run" .stepLimit), machine, store) := by
            simp only [run, Machine.runPhase, stalled.running, if_true]
          simp only [drive, ran, Error.isBreakdown, Bool.false_eq_true, if_false]
          exact ⟨(fun ids same => by cases same), .spent ⟨rfl, rfl, rfl⟩⟩
      | succ fuel =>
          simp only [drive, run, stalled.runPhase fuel, Error.isBreakdown, if_true]
          exact ⟨(fun ids same => by cases same), .stalled stalled awake⟩

/-- A run whose machine has a program, and gives nothing more if the run has failed. -/
structure Accounted (outcome : Outcome) : Prop where
  loaded : outcome.2.1.program.isSome = true
  awake : outcome.2.1.Awake
  spent : ∀ error, outcome.1 = .error error → error ≠ .unrankedValues → outcome.2.1.Spent
  barren : ∀ error, outcome.1 = .error error → Barren outcome.2.1 outcome.2.2

theorem run_accounted (loaded : machine.program.isSome = true) (awake : machine.Awake) (fuel : Nat)
    (store : Store) :
    (run fuel machine store).2.1.program.isSome = true ∧
      (run fuel machine store).2.1.Awake ∧
      ∀ error after between, run fuel machine store = (some error, after, between) →
        error.isBreakdown = true → after.Stalled between ∧ error = .unrankedValues := by
  obtain alone | ⟨after, between, program, -, -, followed⟩ := run_cases fuel machine store
  · rw [alone, (runPhase_sameLoad fuel machine store).program]
    exact ⟨loaded, awake.runPhase fuel store, fun error last final => runPhase_breakdown⟩
  · have awake' : (after.enterMutate program).Awake := fun _ => rfl
    rw [followed, (runPhase_sameLoad fuel _ between).program]
    exact ⟨rfl, awake'.runPhase fuel between, fun error last final => runPhase_breakdown⟩

theorem drive_accounted (loaded : machine.program.isSome = true) (awake : machine.Awake)
    (fuel : Nat) (store : Store) : Accounted (drive fuel machine store) := by
  obtain ⟨loaded', awake', stalled⟩ := run_accounted loaded awake fuel store
  obtain ⟨after, between, ran, ended⟩ | ⟨error, after, between, ran, broken, ended⟩ |
    ⟨error, after, between, ran, -, ended⟩ := drive_cases fuel machine store
  · rw [ran] at loaded' awake'
    rw [ended]
    exact ⟨loaded', awake', (fun _ failed => by cases failed), fun _ failed => by cases failed⟩
  · rw [ran] at loaded' awake'
    obtain ⟨stalled', same⟩ := stalled error after between ran broken
    rw [ended]
    refine ⟨loaded', awake', fun other failed sorted => ?_, fun _ _ => .stalled stalled' awake'⟩
    rw [← Except.error.inj failed] at sorted
    exact absurd same sorted
  · rw [ran] at loaded'
    have spent : after.fail.Spent := ⟨rfl, rfl, rfl⟩
    rw [ended]
    exact ⟨loaded', (fun running => by cases running), fun _ _ _ => spent, fun _ _ => .spent spent⟩

theorem Accounted.resume {outcome : Outcome} (accounted : Accounted outcome) (fuel : Nat) :
    Accounted (resume fuel outcome.2.1 outcome.2.2) := by
  unfold Machine.resume
  split
  · exact ⟨accounted.loaded, accounted.awake, (fun _ failed => by cases failed),
      fun _ failed => by cases failed⟩
  · rename_i going
    rw [if_neg (by simp [Option.isNone_iff_eq_none, Option.isSome_iff_ne_none.1 accounted.loaded])]
    have loaded : outcome.2.1.woken.program.isSome = true := accounted.loaded
    have awake : outcome.2.1.woken.Awake := fun _ => Bool.eq_false_of_not_eq_true going
    exact drive_accounted loaded awake fuel outcome.2.2

/-- Without a mutation program a run writes nothing, however often it is resumed, and whether it
halts, is broken off or fails. A run that fails, with a mutation program or without, leaves the
machine spent, and all that comes after answers with nothing; one that breaks down in a sort gives
no documents either, as often as it is resumed. -/
theorem query_phase_writes_nothing (fuel : Nat) (fuels : List Nat) (store : Store)
    (program : Program) (upsert : Bool) :
    (resumeEach fuels (execute fuel store program none upsert)).2.2.Unwritten store ∧
    ∀ pending error,
      (resumeEach fuels (execute fuel store program pending upsert)).1 = .error error →
      (error ≠ .unrankedValues →
        (resumeEach fuels (execute fuel store program pending upsert)).2.1.Spent ∧
        ∀ fuel' later,
          (resumeEach (fuels ++ fuel' :: later) (execute fuel store program pending upsert)).1 =
            .ok []) ∧
      ∀ fuel' later ids,
        (resumeEach (fuels ++ fuel' :: later) (execute fuel store program pending upsert)).1 =
          .ok ids → ids = [] := by
  constructor
  · apply And.right (a := (resumeEach fuels (execute fuel store program none upsert)).2.1.Querying)
    apply resumeEach_invariant fun outcome => outcome.2.1.Querying ∧ outcome.2.2.Unwritten store
    · intro fuel outcome ⟨querying, unwritten⟩
      obtain ⟨querying', unwritten'⟩ := querying.resume fuel outcome.2.2
      exact ⟨querying', unwritten'.trans unwritten⟩
    · exact Querying.drive ⟨rfl, rfl⟩ fuel store
  · intro pending error failed
    have start : Accounted (execute fuel store program pending upsert) :=
      drive_accounted rfl (fun _ => rfl) _ _
    have accounted : Accounted (resumeEach fuels (execute fuel store program pending upsert)) :=
      resumeEach_invariant Accounted (fun fuel _ accounted => accounted.resume fuel) fuels start
    simp only [resumeEach_append]
    constructor
    · intro sorted
      have spent := accounted.spent error failed sorted
      exact ⟨spent, fun fuel' later => congrArg Prod.fst (spent.resumeEach fuel' later _ _)⟩
    · intro fuel' later
      have fruitless := (accounted.barren error failed).resume fuel'
      exact (resumeEach_invariant Fruitless (fun fuel _ fruitless => fruitless.barren.resume fuel)
        later fruitless).answer

/-- A note is looked up in an index before the break; behind it the program cannot file the note
anew. -/
theorem notes_stay_unwritten :
    let note : Json := .object [("tag", .string "a")]
    let index := (OrderedIndex.create ["tag"] 4 2 8 >>= fun index => index.insert 1 note).toOption
    let store : Store := ⟨"notes", ⟨[(1, note)]⟩, [1], index.toList.map .ordered⟩
    let program : Program :=
      [.lookup ⟨0, "tag", .exact (.ofDocument note ["tag"])⟩, .store, .read, .transpose, .break,
        .reindex, .halt]
    let started := execute 9 store program none false
    store.indices.length = 1 ∧ started.1 = .ok [1] ∧
      (resumeEach [9] started).1 = .error (.inOpcode .reindex .outsideMutatePhase) ∧
      (resumeEach [9] started).2.2.Unwritten store ∧
      (resumeEach [9] started).2.1.Spent ∧
      (resumeEach [9, 9, 9] started).1 = .ok [] := by
  intro note index store program started
  have failed : (resumeEach [9] started).1 = .error (.inOpcode .reindex .outsideMutatePhase) := rfl
  have whole := query_phase_writes_nothing 9 [9] store program false
  obtain ⟨spent, nothing⟩ := (whole.2 none _ failed).1 fun same => by cases same
  exact ⟨rfl, rfl, failed, whole.1, spent, nothing 9 [9]⟩

end Machine

end Docstore
