import Docstore.Proofs.Mutation.Outcomes
import Docstore.Proofs.Store

set_option autoImplicit false

namespace Docstore
namespace Mutation

variable {upsert : Bool} {mutations : List Mutation} {doc : Json} {ids : List DocId}
  {documents : Table DocId Json}

/-- The first mutation succeeds and the others follow, or it fails and ends them. -/
theorem applyAll_cons (upsert : Bool) (mutation : Mutation) (rest : List Mutation) (doc : Json) :
    (∃ after, mutation.apply upsert doc = (.ok (), after) ∧
      applyAll upsert (mutation :: rest) doc = applyAll upsert rest after) ∨
    ∃ fault after, mutation.apply upsert doc = (.error fault, after) ∧
      applyAll upsert (mutation :: rest) doc =
        (.error (.inOpcode mutation.op.opcode fault), after) := by
  cases applied : mutation.apply upsert doc with
  | mk outcome after =>
      cases outcome with
      | ok _ => exact .inl ⟨after, rfl, by simp only [applyAll, applied]⟩
      | error fault => exact .inr ⟨fault, after, rfl, by simp only [applyAll, applied]⟩

theorem applyAll_keeps {good : Json → Prop}
    (keeps : ∀ mutation ∈ mutations, ∀ doc, good doc → good (mutation.apply upsert doc).2)
    (fit : good doc) : good (applyAll upsert mutations doc).2 := by
  induction mutations generalizing doc with
  | nil => exact fit
  | cons mutation rest ih =>
      obtain ⟨first, others⟩ := List.forall_mem_cons.1 keeps
      have kept := first doc fit
      obtain ⟨after, applied, all⟩ | ⟨fault, after, applied, all⟩ :=
        applyAll_cons upsert mutation rest doc
      · rw [applied] at kept
        rw [all]
        exact ih others kept
      · rw [applied] at kept
        rw [all]
        exact kept

/-- Mutations fail with the fault of one of them on what those before it have made. -/
theorem applyAll_error {error : Error} (failed : (applyAll upsert mutations doc).1 = .error error) :
    ∃ front mutation behind reached fault, mutations = front ++ mutation :: behind ∧
      applyAll upsert front doc = (.ok (), reached) ∧
      mutation.apply upsert reached = (.error fault, (applyAll upsert mutations doc).2) ∧
      error = .inOpcode mutation.op.opcode fault := by
  induction mutations generalizing doc with
  | nil => cases failed
  | cons mutation rest ih =>
      obtain ⟨after, applied, all⟩ | ⟨fault, after, applied, all⟩ :=
        applyAll_cons upsert mutation rest doc
      · rw [all] at failed ⊢
        obtain ⟨front, wrong, behind, reached, fault, split, ran, refused, same⟩ := ih failed
        refine ⟨mutation :: front, wrong, behind, reached, fault, congrArg _ split, ?_, refused,
          same⟩
        simp only [applyAll, applied, ran]
      · rw [all] at failed ⊢
        have same := Except.error.inj failed
        exact ⟨[], mutation, rest, doc, fault, rfl, rfl, applied, same.symm⟩

/-- Where mutations fail, the document carries those before the one that failed. -/
theorem applyAll_failed (fit : ∀ mutation ∈ mutations, mutation.operand.Ordered)
    (ordered : doc.Ordered) {error : Error}
    (failed : (applyAll upsert mutations doc).1 = .error error) :
    ∃ front mutation behind fault, mutations = front ++ mutation :: behind ∧
      applyAll upsert front doc = (.ok (), (applyAll upsert mutations doc).2) ∧
      (mutation.apply upsert (applyAll upsert mutations doc).2).1 = .error fault ∧
      error = .inOpcode mutation.op.opcode fault := by
  obtain ⟨front, mutation, behind, reached, fault, split, ran, refused, same⟩ :=
    applyAll_error failed
  have fit' : ∀ mutation ∈ front, mutation.operand.Ordered := by
    intro mutation there
    exact fit mutation (split ▸ List.mem_append_left _ there)
  have ordered' : reached.Ordered := by
    have kept := applyAll_keeps (fun mutation there _ => apply_ordered upsert (fit' mutation there))
      ordered
    rwa [ran] at kept
  have unchanged : (applyAll upsert mutations doc).2 = reached := by
    have kept := apply_failed ordered' (congrArg Prod.fst refused)
    rwa [refused] at kept
  rw [unchanged]
  exact ⟨front, mutation, behind, fault, split, ran, congrArg Prod.fst refused, same⟩

theorem applyEach_cons_ok {id : DocId} {rest : List DocId} {after : Json}
    (stored : documents.get? id = some doc)
    (done : applyAll upsert mutations doc = (.ok (), after)) :
    applyEach upsert mutations (id :: rest) documents =
      applyEach upsert mutations rest (documents.put id after) := by
  simp only [applyEach, stored, done]

theorem applyEach_cons_error {id : DocId} {rest : List DocId} {after : Json} {error : Error}
    (stored : documents.get? id = some doc)
    (failed : applyAll upsert mutations doc = (.error error, after)) :
    applyEach upsert mutations (id :: rest) documents =
      (.error error, documents.put id after) := by
  simp only [applyEach, stored, failed]

/-- Documents on which all mutations succeed carry all of them, and the others are left alone. -/
theorem applyEach_succeeds (nodup : ids.Nodup) (succeeds : ∀ id ∈ ids, ∃ doc,
    documents.get? id = some doc ∧ (applyAll upsert mutations doc).1 = .ok ()) :
    (applyEach upsert mutations ids documents).1 = .ok () ∧
      (∀ id ∈ ids, ∀ doc, documents.get? id = some doc →
        (applyEach upsert mutations ids documents).2.get? id =
          some (applyAll upsert mutations doc).2) ∧
      ∀ id, id ∉ ids →
        (applyEach upsert mutations ids documents).2.get? id = documents.get? id := by
  induction ids generalizing documents with
  | nil => exact ⟨rfl, fun _ there => (by cases there), fun _ _ => rfl⟩
  | cons id rest ih =>
      obtain ⟨fresh, nodup'⟩ := List.nodup_cons.1 nodup
      obtain ⟨⟨doc, stored, done⟩, others⟩ := List.forall_mem_cons.1 succeeds
      have applied : applyAll upsert mutations doc =
          (.ok (), (applyAll upsert mutations doc).2) := Prod.ext done rfl
      have elsewhere : ∀ other, other ≠ id →
          (documents.put id (applyAll upsert mutations doc).2).get? other =
            documents.get? other := by
        intro other apart
        rw [Table.get?_put, if_neg (Ne.symm apart)]
      have apart : ∀ other ∈ rest, other ≠ id := by
        rintro other there rfl
        exact fresh there
      rw [applyEach_cons_ok stored applied]
      obtain ⟨outcome, changed, alone⟩ := ih nodup' fun other there => by
        rw [elsewhere other (apart other there)]
        exact others other there
      constructor
      · exact outcome
      constructor
      · intro other there doc' stored'
        obtain rfl | there := List.mem_cons.1 there
        · rw [stored] at stored'
          rw [alone other fresh, Table.get?_put, if_pos rfl, Option.some.inj stored']
        · apply changed other there doc'
          rw [elsewhere other (apart other there)]
          exact stored'
      · intro other absent
        obtain ⟨apart, absent⟩ := not_or.1 (mt List.mem_cons.2 absent)
        rw [alone other absent, elsewhere other apart]

/-- Behind documents on which all mutations succeed the update goes on. -/
theorem applyEach_append {before behind : List DocId}
    (succeeds : (applyEach upsert mutations before documents).1 = .ok ()) :
    applyEach upsert mutations (before ++ behind) documents =
      applyEach upsert mutations behind (applyEach upsert mutations before documents).2 := by
  induction before generalizing documents with
  | nil => rfl
  | cons id rest ih =>
      cases stored : documents.get? id with
      | none => simp [applyEach, stored] at succeeds
      | some doc =>
          cases applied : applyAll upsert mutations doc with
          | mk outcome changed =>
              cases outcome with
              | error error =>
                  rw [applyEach_cons_error stored applied] at succeeds
                  cases succeeds
              | ok _ =>
                  rw [applyEach_cons_ok stored applied] at succeeds
                  rw [List.cons_append, applyEach_cons_ok stored applied,
                    applyEach_cons_ok stored applied, ih succeeds]

/-- The first document on which the mutations fail ends the update. -/
theorem applyEach_fails {before behind : List DocId} {id : DocId} {error : Error}
    (nodup : (before ++ id :: behind).Nodup) (succeeds : ∀ id ∈ before, ∃ doc,
      documents.get? id = some doc ∧ (applyAll upsert mutations doc).1 = .ok ())
    (stored : documents.get? id = some doc)
    (failed : (applyAll upsert mutations doc).1 = .error error) :
    applyEach upsert mutations (before ++ id :: behind) documents =
      (.error error, (applyEach upsert mutations before documents).2.put id
        (applyAll upsert mutations doc).2) := by
  obtain ⟨nodup', -, disjoint⟩ := List.nodup_append.1 nodup
  have fresh : id ∉ before := by
    intro there
    exact disjoint id there id List.mem_cons_self rfl
  obtain ⟨outcome, -, alone⟩ := applyEach_succeeds nodup' succeeds
  have here : (applyEach upsert mutations before documents).2.get? id = some doc := by
    rw [alone id fresh, stored]
  have applied : applyAll upsert mutations doc =
      (.error error, (applyAll upsert mutations doc).2) := Prod.ext failed rfl
  rw [applyEach_append outcome, applyEach_cons_error here applied]

/-- Mutations succeed on all of some documents, or there is a first on which they fail. -/
theorem succeeds_or_fails (upsert : Bool) (mutations : List Mutation)
    (stored : ∀ id ∈ ids, ∃ doc, documents.get? id = some doc) :
    (∀ id ∈ ids, ∃ doc, documents.get? id = some doc ∧
      (applyAll upsert mutations doc).1 = .ok ()) ∨
    ∃ before id behind doc error, ids = before ++ id :: behind ∧
      (∀ id ∈ before, ∃ doc, documents.get? id = some doc ∧
        (applyAll upsert mutations doc).1 = .ok ()) ∧
      documents.get? id = some doc ∧ (applyAll upsert mutations doc).1 = .error error := by
  induction ids with
  | nil => exact .inl fun _ there => by cases there
  | cons id rest ih =>
      obtain ⟨⟨doc, here⟩, others⟩ := List.forall_mem_cons.1 stored
      cases outcome : (applyAll upsert mutations doc).1 with
      | error error =>
          exact .inr ⟨[], id, rest, doc, error, rfl, fun _ there => (by cases there), here, outcome⟩
      | ok _ =>
          obtain all | ⟨before, wrong, behind, doc', error, split, succeeds, there, failed⟩ :=
            ih others
          · exact .inl (List.forall_mem_cons.2 ⟨⟨doc, here, outcome⟩, all⟩)
          · exact .inr ⟨id :: before, wrong, behind, doc', error, congrArg _ split,
              List.forall_mem_cons.2 ⟨⟨doc, here, outcome⟩, succeeds⟩, there, failed⟩

/-- A mutation fails on one of some documents, after those before it have changed it. -/
inductive Refused (upsert : Bool) (mutations : List Mutation) (documents : Table DocId Json)
    (ids : List DocId) : Error → Prop
  | intro {id : DocId} {doc reached : Json} {front behind : List Mutation} {mutation : Mutation}
      {fault : ExecutionFault} (there : id ∈ ids) (stored : documents.get? id = some doc)
      (split : mutations = front ++ mutation :: behind)
      (ran : applyAll upsert front doc = (.ok (), reached))
      (refused : (mutation.apply upsert reached).1 = .error fault) :
      Refused upsert mutations documents ids (.inOpcode mutation.op.opcode fault)

theorem refused_of_applyEach (nodup : ids.Nodup)
    (stored : ∀ id ∈ ids, ∃ doc, documents.get? id = some doc) {error : Error}
    (failed : (applyEach upsert mutations ids documents).1 = .error error) :
    Refused upsert mutations documents ids error := by
  obtain all | ⟨before, id, behind, doc, error', split, succeeds, here, failed'⟩ :=
    succeeds_or_fails upsert mutations stored
  · obtain ⟨done, -⟩ := applyEach_succeeds nodup all
    rw [done] at failed
    cases failed
  · rw [split] at nodup failed
    rw [applyEach_fails nodup succeeds here failed'] at failed
    obtain rfl := Except.error.inj failed
    obtain ⟨front, mutation, rest, reached, fault, parts, ran, refused, same⟩ :=
      applyAll_error failed'
    have there : id ∈ ids := split ▸ List.mem_append_right _ List.mem_cons_self
    rw [same]
    exact .intro there here parts ran (congrArg Prod.fst refused)

end Mutation
end Docstore
