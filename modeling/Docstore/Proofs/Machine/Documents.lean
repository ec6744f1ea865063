import Docstore.Proofs.Machine.Frame

set_option autoImplicit false

namespace Docstore

/-- Every mutation of the program keeps a property of documents. -/
def Program.Keeps (good : Json → Prop) (program : Program) : Prop :=
  ∀ mutation, .mutate mutation ∈ program → ∀ upsert doc, good doc →
    good (mutation.apply upsert doc).2

theorem Program.ReadOnly.keeps {program : Program} (readOnly : program.ReadOnly)
    (good : Json → Prop) : program.Keeps good := by
  intro mutation there
  exact absurd there (readOnly mutation)

namespace Store

variable {store after : Store} {id : DocId}

def All (good : Json → Prop) (store : Store) : Prop :=
  ∀ id doc, store.document? id = some doc → good doc

theorem All.of_documents {good : Json → Prop} (all : store.All good)
    (same : after.documents = store.documents) : after.All good := by
  intro id doc there
  apply all id doc
  rw [document?, ← same]
  exact there

theorem All.write {good : Json → Prop} (all : store.All good) {doc : Json} (fit : good doc)
    (id : DocId) : (store.write id doc).All good := by
  intro other found there
  rw [document?_write] at there
  split at there
  · rw [← Option.some.inj there]
    exact fit
  · exact all other found there

theorem documents_fetch {ref : IndexRef} {ids : List DocId}
    (ran : store.fetch ref = .ok (ids, after)) : after.documents = store.documents := by
  unfold fetch at ran
  split at ran
  · cases ran
  · split at ran
    · obtain ⟨found, -, same⟩ := bind_eq_ok.1 ran
      rw [← (Prod.mk.inj (Except.ok.inj same)).2]
    · obtain ⟨found, -, same⟩ := bind_eq_ok.1 ran
      rw [← (Prod.mk.inj (Except.ok.inj same)).2]

theorem documents_reindex (store : Store) (id : DocId) :
    (store.reindex id).2.documents = store.documents := by
  unfold reindex
  split
  · rfl
  · rfl

end Store

namespace Machine

variable {good : Json → Prop} {machine after : Machine} {store : Store}

theorem documents_orKeep {attempt : Except Error (Machine × Store)}
    (same : ∀ machine' store', attempt = .ok (machine', store') →
      store'.documents = store.documents) :
    (orKeep store attempt).2.documents = store.documents := by
  cases attempt with
  | error error => rfl
  | ok result => exact same _ _ rfl

theorem mutate_keeps (all : store.All good) (machine : Machine) {mutation : Mutation}
    (keeps : ∀ upsert doc, good doc → good (mutation.apply upsert doc).2) :
    (machine.mutate store mutation).2.All good := by
  cases found : machine.documentToMutate store mutation.op.opcode with
  | error error =>
      simp only [mutate, found]
      exact all
  | ok target =>
      obtain ⟨id, doc⟩ := target
      obtain ⟨-, stored⟩ := documentToMutate_eq_ok found
      rw [mutate_snd found]
      exact all.write (keeps machine.upsert doc (all id doc stored)) id

theorem effect_all (all : store.All good) (machine : Machine) {instruction : Instruction}
    (keeps : ∀ mutation, instruction = .mutate mutation → ∀ upsert doc, good doc →
      good (mutation.apply upsert doc).2) :
    (machine.effect store instruction).2.All good := by
  cases instruction with
  | mutate mutation => exact mutate_keeps all machine (keeps mutation rfl)
  | lookup ref =>
      apply all.of_documents
      apply documents_orKeep
      intro machine' store' ran
      obtain ⟨⟨ids, fetched⟩, done, same⟩ := bind_eq_ok.1 ran
      rw [← (Prod.mk.inj (Except.ok.inj same)).2]
      exact Store.documents_fetch done
  | reindex =>
      obtain ⟨error, -, same⟩ | ⟨id, -, -, same⟩ := reindex_cases machine store
      · rw [effect, same]
        exact all
      · rw [effect, same]
        exact all.of_documents (store.documents_reindex id)
  | _ => exact all

def Keeping (good : Json → Prop) (machine : Machine) : Prop :=
  ∀ program, machine.program = some program → program.Keeps good

theorem runPhase_all (fuel : Nat) (keeping : machine.Keeping good) (all : store.All good) :
    (runPhase fuel machine store).2.2.All good := by
  apply runPhase_invariant (Store.All good) fuel _ all
  intro other between instruction same fetched all'
  apply effect_all all'
  intro mutation eq
  obtain ⟨program, loaded, there⟩ := loaded_of_instruction fetched
  exact keeping program (same.program ▸ loaded) mutation (eq ▸ List.mem_of_getElem? there)

theorem documents_settleFailure (machine : Machine) (store : Store) :
    (machine.settleFailure store).documents = store.documents := by
  unfold settleFailure
  split
  · exact store.documents_reindex _
  · rfl

theorem run_all (fuel : Nat) (keeping : machine.Keeping good)
    (keeping' : ∀ program, machine.pending = some program → program.Keeps good)
    (all : store.All good) : (run fuel machine store).2.2.All good := by
  have first := runPhase_all fuel keeping all
  obtain alone | ⟨after, between, program, ran, pending, followed⟩ := run_cases fuel machine store
  · rw [alone]
    exact first
  · rw [ran] at first
    have keeping'' : (after.enterMutate program).Keeping good := by
      intro loaded eq
      rw [← Option.some.inj eq]
      exact keeping' program pending
    rw [followed]
    exact runPhase_all fuel keeping'' first

/-- A property that the mutations of both programs keep holds of all documents after a run. -/
theorem execute_all (fuel : Nat) {program : Program} {pending : Option Program}
    (keeps : program.Keeps good) (keeps' : ∀ program, pending = some program → program.Keeps good)
    (all : store.All good) (upsert : Bool) :
    (execute fuel store program pending upsert).2.2.All good := by
  have keeping : (load program pending upsert).Keeping good := by
    intro loaded same
    rw [← Option.some.inj same]
    exact keeps
  have after := run_all fuel keeping keeps' all
  rw [execute]
  obtain ⟨last, between, ran, ended⟩ | ⟨error, last, between, ran, -, ended⟩ |
    ⟨error, last, between, ran, -, ended⟩ := drive_cases fuel (load program pending upsert) store
  · rw [ran] at after
    rw [ended]
    exact after
  · rw [ran] at after
    rw [ended]
    exact after
  · rw [ran] at after
    rw [ended]
    exact after.of_documents (documents_settleFailure last between)

end Machine
end Docstore
