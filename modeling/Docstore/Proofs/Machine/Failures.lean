import Docstore.Proofs.Machine.Frame

set_option autoImplicit false

namespace Docstore

/-- What succeeds, or fails with an error that names the operation, the document or the page at
fault. -/
inductive Attributed {α : Type} : Except Error α → Prop
  | ok (a : α) : Attributed (.ok a)
  | operation (opcode : Opcode) (fault : ExecutionFault) :
      Attributed (.error (.inOpcode opcode fault))
  | document (id : DocId) : Attributed (.error (.documentNotFound id))
  | page (fault : PageFault) : Attributed (.error (.damagedTree fault))

namespace Attributed

variable {α β : Type}

theorem retype {error : Error} (attributed : Attributed (.error error : Except Error α)) :
    Attributed (.error error : Except Error β) := by
  cases attributed with
  | operation opcode fault => exact .operation opcode fault
  | document id => exact .document id
  | page fault => exact .page fault

theorem bind {first : Except Error α} {next : α → Except Error β} (attributed : Attributed first)
    (rest : ∀ a, Attributed (next a)) : Attributed (first >>= next) := by
  cases first with
  | ok a => exact rest a
  | error error => exact attributed.retype

theorem map {attempt : Except Error α} (attributed : Attributed attempt) (f : α → β) :
    Attributed (attempt.map f) := by
  cases attempt with
  | ok a => exact .ok (f a)
  | error error => exact attributed.retype

theorem damaged (attempt : Except PageFault α) : Attributed (Docstore.damaged attempt) := by
  cases attempt with
  | ok a => exact .ok a
  | error fault => exact .page fault

theorem not_breakdown {error : Error} (attributed : Attributed (.error error : Except Error α)) :
    error.isBreakdown = false := by
  cases attributed with
  | operation opcode fault => rfl
  | document id => rfl
  | page fault => rfl

end Attributed

theorem OrderedIndex.remove_attributed (index : OrderedIndex) (id : DocId) :
    Attributed (index.remove id) := by
  unfold OrderedIndex.remove
  split
  · exact .ok index
  · apply (Attributed.damaged _).bind
    rintro ⟨bucket, tree⟩
    cases bucket with
    | none => exact .ok _
    | some ids =>
        dsimp only
        split
        · exact (Attributed.damaged _).bind fun _ => .ok _
        · exact (Attributed.damaged _).bind fun _ => .ok _

namespace Index

theorem search_attributed (index : Index) (key : Key) : Attributed (index.search key) := by
  cases index with
  | ordered index =>
      have search : Attributed (index.search key) := (Attributed.damaged _).bind fun _ => .ok _
      exact search.bind fun _ => .ok _
  | hashed index => exact .ok _

theorem range_attributed (index : Index) (range : KeyRange Key) :
    Attributed (index.range range) := by
  cases index with
  | ordered index => exact (Attributed.damaged _).bind fun _ => .ok _
  | hashed index => exact .operation .range _

theorem remove_attributed (index : Index) (id : DocId) : Attributed (index.remove id) := by
  cases index with
  | ordered index => exact (index.remove_attributed id).bind fun _ => .ok _
  | hashed index => exact .ok _

theorem insert_attributed (index : Index) (id : DocId) (doc : Json) :
    Attributed (index.insert id doc) := by
  cases index with
  | ordered index =>
      have cleared :
          Attributed (if index.keyOf.contains id then index.remove id else .ok index) := by
        split
        · exact index.remove_attributed id
        · exact .ok index
      have insert : Attributed (index.insert id doc) := by
        rw [OrderedIndex.insert_eq]
        exact cleared.bind fun _ => (Attributed.damaged _).bind fun _ =>
          (Attributed.damaged _).bind fun _ => .ok _
      exact insert.bind fun _ => .ok _
  | hashed index => exact .ok _

theorem each_attributed {act : Index → Except Error Index} (one : ∀ index, Attributed (act index))
    (indices : List Index) : Attributed ((each act indices).1.mapError Prod.snd) := by
  induction indices with
  | nil => exact .ok ()
  | cons index rest ih =>
      have acted := one index
      unfold each
      generalize act index = done at acted
      cases done with
      | error error => exact acted.map fun _ => ()
      | ok after =>
          dsimp only
          generalize (each act rest).1 = others at ih
          cases others with
          | error failure => exact ih
          | ok _ => exact .ok ()

end Index

namespace Store

theorem document_attributed (store : Store) (id : DocId) : Attributed (store.document id) := by
  unfold document
  split
  · exact .ok _
  · exact .document id

theorem fetch_attributed (store : Store) (ref : IndexRef) : Attributed (store.fetch ref) := by
  unfold fetch
  split
  · exact .operation _ _
  · rename_i index _
    split
    · exact (index.search_attributed _).bind fun _ => .ok _
    · exact (index.range_attributed _).bind fun _ => .ok _

theorem reindex_attributed (store : Store) (id : DocId) : Attributed (store.reindex id).1 := by
  unfold reindex
  split
  · exact .document id
  · rename_i doc _
    exact Index.each_attributed
      (fun index => (index.remove_attributed id).bind fun after => after.insert_attributed id doc) _

end Store

namespace Machine

variable {machine : Machine} {store : Store}

theorem currentFor_attributed (machine : Machine) (opcode : Opcode) :
    Attributed (machine.currentFor opcode) := by
  unfold currentFor
  split
  · exact .ok _
  · exact .operation opcode _

theorem requireMutatePhase_attributed (machine : Machine) (opcode : Opcode) :
    Attributed (machine.requireMutatePhase opcode) := by
  unfold requireMutatePhase
  split
  · exact .ok _
  · exact .operation opcode _

theorem popTruth_attributed (opcode : Opcode) (stack : List Cell) :
    Attributed (popTruth opcode stack) := by
  unfold popTruth
  split
  · exact .ok _
  · exact .operation opcode _
  · exact .operation opcode _

theorem popTruths_attributed (opcode : Opcode) (count : Nat) (stack : List Cell) :
    Attributed (popTruths opcode count stack) := by
  induction count generalizing stack with
  | zero => exact .ok _
  | succ count ih =>
      apply (popTruth_attributed opcode stack).bind
      intro popped
      exact (ih popped.2).bind fun _ => .ok _

theorem popAllDocuments_attributed (opcode : Opcode) (stack : List Cell) :
    Attributed (popAllDocuments opcode stack) := by
  induction stack with
  | nil => exact .ok _
  | cons cell rest ih =>
      cases cell with
      | documents ids => exact ih.bind fun _ => .ok _
      | truth value => exact .operation opcode _

theorem orKeep_attributed {attempt : Except Error (Machine × Store)}
    (attributed : Attributed attempt) :
    Attributed (orKeep store attempt).1 := by
  cases attempt with
  | ok result => exact .ok result.1
  | error error => exact attributed.retype

theorem mutate_attributed (machine : Machine) (store : Store) (mutation : Mutation) :
    Attributed (machine.mutate store mutation).1 := by
  have target : Attributed (machine.documentToMutate store mutation.op.opcode) := by
    apply (machine.requireMutatePhase_attributed _).bind
    intro _
    apply (machine.currentFor_attributed _).bind
    intro id
    exact (store.document_attributed id).bind fun _ => .ok _
  unfold mutate
  generalize machine.documentToMutate store mutation.op.opcode = found at target
  cases found with
  | error error => exact target.retype
  | ok found =>
      dsimp only
      split
      · exact .ok _
      · exact .operation _ _

/-- Every instruction but one says what it fails of. -/
theorem effect_attributed (machine : Machine) (store : Store) {instruction : Instruction}
    (other : ∀ spec, instruction ≠ .sort spec) :
    Attributed (machine.effect store instruction).1 := by
  cases instruction with
  | sort spec => exact absurd rfl (other spec)
  | join connective count => exact (popTruths_attributed _ _ _).bind fun _ => .ok _
  | test path clause =>
      apply (machine.currentFor_attributed _).bind
      intro id
      exact (store.document_attributed id).bind fun _ => .ok _
  | mutate mutation => exact machine.mutate_attributed store mutation
  | lookup ref => exact orKeep_attributed ((store.fetch_attributed ref).bind fun _ => .ok _)
  | scan collection =>
      simp only [effect, scan]
      split
      · exact .operation .scan _
      · exact .ok _
  | shift =>
      apply (popTruth_attributed _ _).bind
      rintro ⟨keep, stack⟩
      cases keep with
      | true => exact (machine.currentFor_attributed _).bind fun _ => .ok _
      | false => exact .ok _
  | store =>
      have popped : Attributed (popDocuments .store machine.stack) := by
        unfold popDocuments
        split
        · exact .ok _
        · exact .operation .store _
        · exact .operation .store _
      exact popped.bind fun _ => .ok _
  | intersect =>
      apply (popAllDocuments_attributed _ _).bind
      intro lists
      cases intersection lists with
      | none => exact .operation .intersect _
      | some ids => exact .ok _
  | reindex =>
      obtain ⟨error, refused, same⟩ | ⟨id, -, -, same⟩ := reindex_cases machine store
      · have file : Attributed machine.documentToFile := by
          apply (machine.requireMutatePhase_attributed _).bind
          intro _
          exact machine.currentFor_attributed _
        rw [refused] at file
        rw [effect, same]
        exact file.map fun _ => machine
      · rw [effect, same]
        exact (store.reindex_attributed id).map _
  | _ => exact .ok _

theorem step_attributed (machine : Machine) (store : Store) {instruction : Instruction}
    (other : ∀ spec, instruction ≠ .sort spec) : Attributed (machine.step store instruction).1 :=
  (effect_attributed machine store other).map _

theorem instruction_error {error : Error} (missing : machine.instruction = .error error) :
    error.isBreakdown = false := by
  unfold instruction at missing
  split at missing
  · rw [← Except.error.inj missing]
    rfl
  · split at missing
    · cases missing
    · rw [← Except.error.inj missing]
      rfl

/-- A machine about to sort its result by values that have no ranks. -/
structure Stalled (machine : Machine) (store : Store) : Prop where
  running : machine.running = true
  sorts : ∃ spec, machine.instruction = .ok (.sort spec) ∧
    sortBy store spec machine.result = none

/-- A run breaks down at nothing but such a sort. -/
theorem runPhase_breakdown {fuel : Nat} {error : Error} {after : Machine} {between : Store}
    (ran : runPhase fuel machine store = (some error, after, between))
    (broken : error.isBreakdown = true) : after.Stalled between ∧ error = .unrankedValues := by
  fun_induction runPhase fuel machine store with
  | case1 machine store =>
      have failed := congrArg Prod.fst ran
      dsimp only at failed
      split at failed
      · rw [← Option.some.inj failed] at broken
        cases broken
      · cases failed
  | case2 fuel machine store running other missing =>
      obtain rfl := Option.some.inj (congrArg Prod.fst ran)
      rw [instruction_error missing] at broken
      cases broken
  | case3 fuel machine store running instruction fetched next store' stepped ih => exact ih ran
  | case4 fuel machine store running instruction fetched other store' stepped =>
      simp only [Prod.mk.injEq, Option.some.injEq] at ran
      obtain ⟨rfl, rfl, rfl⟩ := ran
      by_cases sorting : ∃ spec, instruction = .sort spec
      · obtain ⟨spec, rfl⟩ := sorting
        cases sorted : sortBy store spec machine.result with
        | none =>
            obtain ⟨rfl, rfl⟩ : Error.unrankedValues = other ∧ store = store' := by
              simpa [step, effect, Machine.sort, sorted, Except.map] using stepped
            exact ⟨⟨running, spec, fetched, sorted⟩, rfl⟩
        | some result => simp [step, effect, Machine.sort, sorted, Except.map] at stepped
      · have attributed :=
          machine.step_attributed store fun spec same => sorting ⟨spec, same⟩
        rw [stepped] at attributed
        rw [attributed.not_breakdown] at broken
        cases broken
  | case5 fuel machine store stopped => cases congrArg Prod.fst ran

theorem Stalled.runPhase (stalled : machine.Stalled store) (fuel : Nat) :
    runPhase (fuel + 1) machine store = (some .unrankedValues, machine, store) := by
  obtain ⟨running, spec, fetched, unsorted⟩ := stalled
  simp only [Machine.runPhase, running, if_true, fetched, step, effect, Machine.sort, unsorted,
    Except.map]

end Machine
end Docstore
