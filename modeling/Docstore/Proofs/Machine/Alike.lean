import Docstore.Machine
import Docstore.Proofs.Index.Alike

set_option autoImplicit false

namespace Docstore

namespace Index

variable {act : Index → Except Error Index} {first second : Index} {indices others : List Index}

theorem Alike.without (alike : Alike first second) (id : DocId) :
    Alike (first.without id) (second.without id) := by
  have inStep := alike.remove id
  unfold Index.without
  generalize first.remove id = removed at inStep
  generalize second.remove id = removed' at inStep
  cases inStep with
  | ok same => exact same
  | error error => exact alike

/-- An action that treats alike indices alike ends alike on lists of them. -/
theorem each_alike
    (one : ∀ first second, Alike first second → InStep Alike (act first) (act second))
    (alike : List.Forall₂ Alike indices others) :
    (each act indices).1 = (each act others).1 ∧
      List.Forall₂ Alike (each act indices).2 (each act others).2 := by
  induction alike with
  | nil => exact ⟨rfl, .nil⟩
  | @cons index other rest rest' same behind ih =>
      have inStep := one index other same
      unfold each
      generalize act index = acted at inStep
      generalize act other = acted' at inStep
      cases inStep with
      | error error => exact ⟨rfl, .cons same behind⟩
      | ok same' =>
          obtain ⟨ending, afters⟩ := ih
          exact ⟨congrArg (Except.mapError _) ending, .cons same' afters⟩

end Index

namespace Store

/-- Stores with the same documents in the same order and with indices that hold the same. -/
structure Alike (first second : Store) : Prop where
  name : first.name = second.name
  documents : first.documents = second.documents
  order : first.order = second.order
  indices : List.Forall₂ Index.Alike first.indices second.indices

namespace Alike

variable {first second : Store} (alike : Alike first second)

include alike

theorem document (id : DocId) : first.document id = second.document id := by
  simp only [Store.document, document?, alike.documents]

theorem fetch (ref : IndexRef) :
    InStep (fun a b => a.1 = b.1 ∧ Alike a.2 b.2) (first.fetch ref) (second.fetch ref) := by
  unfold Store.fetch
  obtain ⟨missing, missing'⟩ | ⟨index, index', here, here', same⟩ :=
    forall₂_getElem? alike.indices ref.position
  · simp only [missing, missing']
    exact .error _
  · simp only [here, here']
    cases ref.lookup with
    | exact key =>
        apply (same.search key).bind
        intro found found' ⟨ids, after⟩
        exact .ok ⟨ids, alike.name, alike.documents, alike.order, forall₂_set alike.indices after _⟩
    | range range =>
        simp only [same.range range]
        apply (InStep.refl (index'.range range)).bind
        intro ids ids' eq
        exact .ok ⟨eq, alike⟩

theorem insert (id : DocId) (doc : Json) :
    (first.insert id doc).1 = (second.insert id doc).1 ∧
      Alike (first.insert id doc).2 (second.insert id doc).2 := by
  obtain ⟨ending, afters⟩ :=
    Index.each_alike (fun _ _ same => same.insert id doc) alike.indices
  unfold Store.insert
  generalize Index.each (·.insert id doc) first.indices = done at ending afters
  generalize Index.each (·.insert id doc) second.indices = done' at ending afters
  obtain ⟨outcome, indices⟩ := done
  obtain ⟨outcome', indices'⟩ := done'
  obtain rfl := ending
  cases outcome with
  | ok _ =>
      exact ⟨rfl, alike.name, congrArg (Table.put · id doc) alike.documents,
        congrArg (· ++ [id]) alike.order, afters⟩
  | error failure =>
      have cleared : List.Forall₂ Index.Alike ((indices.take failure.1).map (·.without id))
          ((indices'.take failure.1).map (·.without id)) :=
        List.forall₂_map_left_iff.2 (List.forall₂_map_right_iff.2
          ((List.forall₂_take failure.1 afters).imp fun _ _ same => same.without id))
      exact ⟨rfl, alike.name, alike.documents, alike.order,
        List.rel_append cleared (List.forall₂_drop failure.1 afters)⟩

theorem remove (id : DocId) :
    (first.remove id).1 = (second.remove id).1 ∧
      Alike (first.remove id).2 (second.remove id).2 := by
  obtain ⟨ending, afters⟩ := Index.each_alike (fun _ _ same => same.remove id) alike.indices
  unfold Store.remove
  rw [show first.document? id = second.document? id from
    congrArg (Table.get? · id) alike.documents]
  generalize Index.each (·.remove id) first.indices = done at ending afters
  generalize Index.each (·.remove id) second.indices = done' at ending afters
  obtain ⟨outcome, indices⟩ := done
  obtain ⟨outcome', indices'⟩ := done'
  obtain rfl := ending
  have documents := congrArg (Table.erase · id) alike.documents
  cases second.document? id with
  | none => exact ⟨rfl, alike⟩
  | some doc =>
      cases outcome with
      | ok _ =>
          exact ⟨rfl, alike.name, documents, congrArg (List.filter (· ≠ id)) alike.order, afters⟩
      | error failure => exact ⟨rfl, alike.name, documents, alike.order, afters⟩

theorem reindex (id : DocId) :
    (first.reindex id).1 = (second.reindex id).1 ∧
      Alike (first.reindex id).2 (second.reindex id).2 := by
  unfold Store.reindex
  rw [show first.document? id = second.document? id from
    congrArg (Table.get? · id) alike.documents]
  cases second.document? id with
  | none => exact ⟨rfl, alike⟩
  | some doc =>
      obtain ⟨ending, afters⟩ :=
        Index.each_alike (fun _ _ same => same.reindex id doc) alike.indices
      exact ⟨congrArg (Except.mapError Prod.snd) ending, alike.name, alike.documents, alike.order,
        afters⟩

theorem write (id : DocId) (doc : Json) : Alike (first.write id doc) (second.write id doc) :=
  ⟨alike.name, congrArg (Table.put · id doc) alike.documents, alike.order, alike.indices⟩

end Alike

end Store

namespace Machine

variable {first second : Store}

theorem orKeep_alike (alike : first.Alike second)
    {attempt attempt' : Except Error (Machine × Store)}
    (inStep : InStep (fun a b => a.1 = b.1 ∧ a.2.Alike b.2) attempt attempt') :
    (orKeep first attempt).1 = (orKeep second attempt').1 ∧
      (orKeep first attempt).2.Alike (orKeep second attempt').2 := by
  cases inStep with
  | ok same => exact ⟨congrArg Except.ok same.1, same.2⟩
  | error error => exact ⟨rfl, alike⟩

theorem mutate_alike (alike : first.Alike second) (machine : Machine) (mutation : Mutation) :
    (machine.mutate first mutation).1 = (machine.mutate second mutation).1 ∧
      (machine.mutate first mutation).2.Alike (machine.mutate second mutation).2 := by
  have same : machine.documentToMutate first mutation.op.opcode =
      machine.documentToMutate second mutation.op.opcode := by
    simp only [documentToMutate, alike.document]
  unfold mutate
  rw [same]
  cases machine.documentToMutate second mutation.op.opcode with
  | error error => exact ⟨rfl, alike⟩
  | ok target =>
      cases applied : mutation.apply machine.upsert target.2 with
      | mk outcome doc =>
          simp only [applied]
          cases outcome with
          | ok _ => exact ⟨rfl, alike.write target.1 doc⟩
          | error fault => exact ⟨rfl, alike.write target.1 doc⟩

theorem effect_alike (alike : first.Alike second) (machine : Machine) (instruction : Instruction) :
    (machine.effect first instruction).1 = (machine.effect second instruction).1 ∧
      (machine.effect first instruction).2.Alike (machine.effect second instruction).2 := by
  cases instruction with
  | mutate mutation => exact mutate_alike alike machine mutation
  | test path clause =>
      simp only [effect, test, alike.document]
      exact ⟨trivial, alike⟩
  | lookup ref =>
      apply orKeep_alike alike
      apply (alike.fetch ref).bind
      intro found found' ⟨ids, after⟩
      refine .ok ⟨?_, after⟩
      rw [ids]
  | scan collection =>
      simp only [effect, scan, alike.name, alike.order]
      exact ⟨trivial, alike⟩
  | sort spec =>
      have same : sortKey first spec.path = sortKey second spec.path := by
        funext id
        simp only [sortKey, Store.document?, alike.documents]
      simp only [effect, sort, sortBy, same]
      exact ⟨trivial, alike⟩
  | reindex =>
      simp only [effect, reindex]
      cases machine.documentToFile with
      | error error => exact ⟨rfl, alike⟩
      | ok id =>
          obtain ⟨ending, after⟩ := alike.reindex id
          exact ⟨congrArg (Except.map fun _ => machine) ending, after⟩
  | _ => exact ⟨rfl, alike⟩

theorem step_alike (alike : first.Alike second) (machine : Machine) (instruction : Instruction) :
    (machine.step first instruction).1 = (machine.step second instruction).1 ∧
      (machine.step first instruction).2.Alike (machine.step second instruction).2 := by
  obtain ⟨same, alike'⟩ := effect_alike alike machine instruction
  refine ⟨?_, alike'⟩
  simp only [step, same]

/-- Results of runs that differ in the stores only, and there in what is of no account. -/
structure AlikeResults {α : Type} (result result' : α × Machine × Store) : Prop where
  answer : result.1 = result'.1
  machine : result.2.1 = result'.2.1
  store : result.2.2.Alike result'.2.2

theorem AlikeResults.other {α : Type} {result result' : α × Machine × Store}
    (both : AlikeResults result result') {answer : α} {machine : Machine} {store : Store}
    (same : result = (answer, machine, store)) :
    ∃ store', result' = (answer, machine, store') ∧ store.Alike store' := by
  obtain ⟨answer', machine', store'⟩ := result'
  obtain rfl := same
  obtain ⟨rfl, rfl, alike⟩ := both
  exact ⟨store', rfl, alike⟩

theorem runPhase_alike (alike : first.Alike second) (fuel : Nat) (machine : Machine) :
    AlikeResults (runPhase fuel machine first) (runPhase fuel machine second) := by
  fun_induction runPhase fuel machine first generalizing second with
  | case1 machine first => exact ⟨rfl, rfl, alike⟩
  | case2 fuel machine first running error missing =>
      simp only [runPhase, running, missing]
      exact ⟨rfl, rfl, alike⟩
  | case3 fuel machine first running instruction fetched next after stepped ih =>
      obtain ⟨same, alike'⟩ := step_alike alike machine instruction
      cases stepped' : machine.step second instruction with
      | mk outcome after' =>
          rw [stepped, stepped'] at same alike'
          obtain rfl : .ok next = outcome := same
          simp only [runPhase, running, fetched, stepped']
          exact ih alike'
  | case4 fuel machine first running instruction fetched error after stepped =>
      obtain ⟨same, alike'⟩ := step_alike alike machine instruction
      cases stepped' : machine.step second instruction with
      | mk outcome after' =>
          rw [stepped, stepped'] at same alike'
          obtain rfl : .error error = outcome := same
          simp only [runPhase, running, fetched, stepped']
          exact ⟨rfl, rfl, alike'⟩
  | case5 fuel machine first stopped =>
      simp only [runPhase, stopped]
      exact ⟨rfl, rfl, alike⟩

theorem run_alike (alike : first.Alike second) (fuel : Nat) (machine : Machine) :
    AlikeResults (run fuel machine first) (run fuel machine second) := by
  have both := runPhase_alike alike fuel machine
  rcases ran : runPhase fuel machine first with ⟨failure, after, between⟩
  obtain ⟨between', ran', alike'⟩ := both.other ran
  unfold run
  rw [ran, ran']
  cases failure with
  | some error => exact ⟨rfl, rfl, alike'⟩
  | none =>
      dsimp only
      split
      · exact runPhase_alike alike' fuel _
      · exact ⟨rfl, rfl, alike'⟩

theorem settleFailure_alike (alike : first.Alike second) (machine : Machine) :
    (machine.settleFailure first).Alike (machine.settleFailure second) := by
  unfold settleFailure
  split
  · exact (alike.reindex _).2
  · exact alike

theorem drive_alike (alike : first.Alike second) (fuel : Nat) (machine : Machine) :
    AlikeResults (drive fuel machine first) (drive fuel machine second) := by
  have both := run_alike alike fuel machine
  rcases ran : run fuel machine first with ⟨failure, after, between⟩
  obtain ⟨between', ran', alike'⟩ := both.other ran
  unfold drive
  rw [ran, ran']
  cases failure with
  | none => exact ⟨rfl, rfl, alike'⟩
  | some error =>
      dsimp only
      split
      · exact ⟨rfl, rfl, alike'⟩
      · exact ⟨rfl, rfl, settleFailure_alike alike' after⟩

end Machine

end Docstore
