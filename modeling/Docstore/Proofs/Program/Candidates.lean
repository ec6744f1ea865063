import Docstore.Proofs.Program.Blocks
import Docstore.Proofs.Query.Selected

set_option autoImplicit false

namespace Docstore

namespace IndexRef

variable {as bs : List Index}

theorem shape_at (same : as.map Index.shape = bs.map Index.shape) {position : Nat} {index : Index}
    (found : as[position]? = some index) :
    ∃ other, bs[position]? = some other ∧ other.shape = index.shape := by
  have shapes := congrArg (fun shapes : List (IndexKind × List String) => shapes[position]?) same
  simp only [List.getElem?_map, found, Option.map_some] at shapes
  obtain ⟨other, there, shape⟩ := Option.map_eq_some_iff.1 shapes.symm
  exact ⟨other, there, shape⟩

theorem Serves.congr {ref : IndexRef} (serves : ref.Serves as)
    (same : as.map Index.shape = bs.map Index.shape) : ref.Serves bs := by
  obtain ⟨index, found, serves⟩ := serves
  obtain ⟨other, there, shape⟩ := shape_at same found
  refine ⟨other, there, ?_⟩
  cases lookup : ref.lookup with
  | exact key => trivial
  | range range =>
      rw [lookup] at serves
      exact (congrArg Prod.fst shape).trans serves

end IndexRef

namespace Machine

theorem popAllDocuments_map (opcode : Opcode) (lists : List (List DocId)) :
    popAllDocuments opcode (lists.map .documents) = .ok lists := by
  induction lists with
  | nil => rfl
  | cons ids rest ih => simp only [List.map_cons, popAllDocuments, ih, ok_bind, pure_eq_ok]

/-- The documents of the list at the bottom of the stack that are in all others above it. -/
theorem intersection_reverse (first : List DocId) (others : List (List DocId)) :
    intersection (first :: others).reverse =
      some (first.filter fun id => others.all (·.contains id)) := by
  rw [intersection, List.reverse_cons, List.getLast?_append_of_ne_nil _ (List.cons_ne_nil _ _),
    List.dropLast_concat]
  simp only [List.getLast?_singleton, Option.map_some, List.all_reverse]

end Machine

namespace Store

variable {store : Store} {refs : List IndexRef}

/-- The candidates are the stored documents that every lookup should find, each once. -/
theorem candidates_spec (sound : store.Sound none)
    (serves : ∀ ref ∈ refs, ref.Serves store.indices) :
    (store.candidates refs).Nodup ∧ ∀ id, id ∈ store.candidates refs ↔
      ∃ doc, store.document? id = some doc ∧ refs.all (·.meets store.indices doc) = true := by
  have each : ∀ ref ∈ refs, (store.found ref).Nodup ∧ ∀ id, id ∈ store.found ref ↔
      ∃ doc, store.document? id = some doc ∧ ref.meets store.indices doc = true := by
    intro ref there
    obtain ⟨index, found, suited⟩ := serves ref there
    simp only [IndexRef.meets, found, Option.any_some]
    exact found_spec sound found suited
  cases refs with
  | nil =>
      apply And.intro sound.nodup
      intro id
      simp only [candidates, sound.listed, List.all_nil, and_true]
  | cons first others =>
      obtain ⟨⟨nodup, member⟩, each⟩ := List.forall_mem_cons.1 each
      apply And.intro (nodup.filter _)
      intro id
      rw [candidates, List.mem_filter, member, List.all_eq_true]
      constructor
      · rintro ⟨⟨doc, stored, meets⟩, rest⟩
        apply Exists.intro doc
        apply And.intro stored
        rw [List.all_cons, meets, Bool.true_and, List.all_eq_true]
        intro ref there
        -- A document is stored once, so the other lookups find it for the same content.
        obtain ⟨doc', stored', meets'⟩ :=
          ((each ref there).2 id).1 (List.contains_iff_mem.1 (rest ref there))
        rw [stored] at stored'
        rw [Option.some.inj stored']
        exact meets'
      · rintro ⟨doc, stored, all⟩
        rw [List.all_cons, Bool.and_eq_true, List.all_eq_true] at all
        apply And.intro ⟨doc, stored, all.1⟩
        intro ref there
        exact List.contains_iff_mem.2 (((each ref there).2 id).2 ⟨doc, stored, all.2 ref there⟩)

theorem length_le_order (sound : store.Sound none) {ids : List DocId} (nodup : ids.Nodup)
    (stored : ∀ id ∈ ids, ∃ doc, store.document? id = some doc) :
    ids.length ≤ store.order.length := by
  have inside : ids ⊆ store.order := by
    intro id there
    exact (sound.listed id).2 (stored id there)
  exact (nodup.subperm inside).length_le

theorem arranged_subperm (store : Store) (conditions : Conditions) (ids : List DocId) :
    (store.arranged conditions ids).Subperm ids := by
  obtain ⟨sort, limit⟩ := conditions
  have inOrder (spec : SortSpec) : (store.sorted spec ids).Perm ids := stableSort_perm _ ids
  cases sort with
  | none =>
      cases limit with
      | none => exact .refl ids
      | some count => exact (List.take_sublist count ids).subperm
  | some spec =>
      cases limit with
      | none => exact (inOrder spec).subperm
      | some count => exact (List.take_sublist count _).subperm.trans (inOrder spec).subperm

theorem answer_spec (sound : store.Sound none)
    (serves : ∀ ref ∈ refs, ref.Serves store.indices) (nodes : List QueryNode)
    (conditions : Conditions) :
    (store.answer refs nodes conditions).Nodup ∧ ∀ id ∈ store.answer refs nodes conditions,
      ∃ doc, store.document? id = some doc := by
  obtain ⟨nodup, member⟩ := candidates_spec sound serves
  have arranged : (store.answer refs nodes conditions).Subperm
    ((store.candidates refs).filter (store.holdsOf nodes)) := arranged_subperm _ _ _
  obtain ⟨ids, same, inside⟩ := arranged
  constructor
  · exact same.nodup_iff.1 ((nodup.filter _).sublist inside)
  · intro id there
    have candidate := List.mem_of_mem_filter (inside.subset (same.mem_iff.2 there))
    obtain ⟨doc, stored, -⟩ := (member id).1 candidate
    exact ⟨doc, stored⟩

end Store

namespace Program

open Machine

variable {program : Program} {machine : Machine} {store : Store} {refs : List IndexRef}

/-- A lookup that an index serves puts what it finds on the stack. -/
theorem effect_lookup (machine : Machine) (sound : store.Sound none) {ref : IndexRef}
    (serves : ref.Serves store.indices) :
    ∃ after, machine.effect store (.lookup ref) =
        (.ok (machine.push (.documents (store.found ref))), after) ∧
      after.Sound none ∧ Store.SameOutline after store ∧ Store.SameContent after store := by
  obtain ⟨index, there, suited⟩ := serves
  obtain ⟨after, ran, content⟩ := Store.fetch_eq sound there suited
  obtain ⟨sound', outline, -⟩ := sound.fetch ran
  apply Exists.intro after
  simp only [effect, fetch, ran, ok_bind, pure_eq_ok, orKeep]
  exact ⟨trivial, sound', outline, content⟩

/-- Lookups one after the other leave what they find, the last on top. -/
theorem reaches_lookups (sound : store.Sound none) (serves : ∀ ref ∈ refs, ref.Serves store.indices)
    (going : Going program machine) (code : program.CodeAt machine.ip (refs.map .lookup)) :
    ∃ between, Reaches refs.length machine store (machine.onward refs.length
        ((refs.map store.found).reverse.map .documents ++ machine.stack)) between ∧
      Store.SameContent between store := by
  induction refs generalizing machine store with
  | nil => exact ⟨store, .refl machine store, .refl store⟩
  | cons ref rest ih =>
      obtain ⟨here, code'⟩ := codeAt_cons.1 code
      obtain ⟨first, others⟩ := List.forall_mem_cons.1 serves
      obtain ⟨after, ran, sound', outline, content⟩ := effect_lookup machine sound first
      have step := going.step here ran
      have others' : ∀ ref ∈ rest, ref.Serves after.indices := by
        intro ref there
        exact (others ref there).congr outline.shapes.symm
      obtain ⟨between, run, content'⟩ := ih sound' others'
        (going.onward 1 (.documents (store.found ref) :: machine.stack)) code'
      have both := step.trans run
      rw [onward_onward, show after.found = store.found from funext content.found] at both
      apply Exists.intro between
      rw [List.length_cons, Nat.add_comm, List.map_cons, List.reverse_cons, List.map_append,
        List.append_assoc]
      exact ⟨both, content'.trans content⟩

/-- What is ahead of a program with candidates: it has halted because there are none, or it goes on
at a position. -/
inductive Ahead (program : Program) (position : Nat) (ids : List DocId) (machine : Machine) : Prop
  | halted (nothing : ids = []) (stopped : machine.running = false) (halted : machine.halted = true)
  | going (going : Going program machine) (ip : machine.ip = position)

/-- A machine that has fetched candidates as its working documents, none of them read yet. -/
structure Fetched (program : Program) (position : Nat) (ids : List DocId)
    (before after : Machine) : Prop where
  documents : after.documents = ids
  unread : after.docptr = 0
  stack : after.stack = []
  result : after.result = before.result
  ahead : Ahead program position ids after

/-- Nothing on the stack, and no working documents. -/
structure Blank (machine : Machine) : Prop where
  documents : machine.documents = []
  unread : machine.docptr = 0
  stack : machine.stack = []

/-- A list put on an empty stack and then stored is that of the working documents. -/
theorem reaches_store (store : Store) (going : Going program machine) {ids : List DocId}
    (code : program.CodeAt machine.ip [.store]) (top : machine.stack = [.documents ids]) :
    ∃ after, Reaches 1 machine store after store ∧
      Fetched program (machine.ip + 1) ids machine after := by
  have done : machine.effect store .store =
      (.ok { machine with documents := ids, stack := [], docptr := 0 }, store) := by
    simp only [effect, storeDocuments, top, popDocuments, ok_bind, pure_eq_ok]
  have step := going.step (codeAt_cons.1 code).1 done
  exact ⟨_, step, ⟨rfl, rfl, rfl, rfl, .going ⟨going.running, going.loaded⟩ rfl⟩⟩

/-- A list that is put on an empty stack and stored, unless it is empty. -/
theorem reaches_pushOrHalt (going : Going program machine) (nothing : machine.documents = [])
    (unread : machine.docptr = 0) (ids : List DocId) {instruction : Instruction}
    (code : program.CodeAt machine.ip [instruction, .store])
    (moves : ∀ machine : Machine, machine.advance instruction = machine.next)
    (done : machine.effect store instruction =
      (.ok (({ machine with stack := [] } : Machine).pushOrHalt ids), store)) :
    ∃ count after, count ≤ 2 ∧ Reaches count machine store after store ∧
      Fetched program (machine.ip + 2) ids machine after := by
  obtain ⟨here, code'⟩ := codeAt_cons.1 code
  have step := going.step here done
  rw [moves, pushOrHalt] at step
  by_cases empty : ids.isEmpty = true
  · rw [if_pos empty] at step
    obtain rfl := List.isEmpty_iff.1 empty
    exact ⟨1, _, by omega, step, ⟨nothing, unread, rfl, rfl, .halted rfl rfl rfl⟩⟩
  · rw [if_neg empty] at step
    have pushed : Going program
        ((({ machine with stack := [] } : Machine).push (.documents ids)).next) :=
      ⟨going.running, going.loaded⟩
    obtain ⟨after, stored, fetched⟩ := reaches_store store pushed code' rfl
    exact ⟨2, after, Nat.le_refl 2, step.trans stored, ⟨fetched.documents, fetched.unread,
      fetched.stack, fetched.result, fetched.ahead⟩⟩

/-- Code that a machine runs through in one pass at most, and that fetches some candidates. -/
def Fetches (program : Program) (machine : Machine) (store : Store) (length : Nat)
    (ids : List DocId) : Prop :=
  ∃ count after between, count ≤ length ∧ Reaches count machine store after between ∧
    Store.SameContent between store ∧ Fetched program (machine.ip + length) ids machine after

theorem fetches_scan (store : Store) (going : Going program machine) (blank : Blank machine)
    (code : program.CodeAt machine.ip [.scan store.name, .store]) :
    Fetches program machine store 2 (store.candidates []) := by
  have empty : machine = { machine with stack := [] } := by
    rw [← blank.stack]
  have done : machine.effect store (.scan store.name) =
      (.ok (({ machine with stack := [] } : Machine).pushOrHalt store.order), store) := by
    rw [← empty]
    simp only [effect, scan, ne_eq, not_true_eq_false, if_false]
  obtain ⟨count, after, few, run, fetched⟩ :=
    reaches_pushOrHalt going blank.documents blank.unread _ code (fun _ => rfl) done
  exact ⟨count, after, store, few, run, .refl store, fetched⟩

theorem fetches_single (sound : store.Sound none) {ref : IndexRef}
    (serves : ref.Serves store.indices) (going : Going program machine) (blank : Blank machine)
    (code : program.CodeAt machine.ip [.lookup ref, .store]) :
    Fetches program machine store 2 (store.candidates [ref]) := by
  obtain ⟨between, ran, -, -, content⟩ := effect_lookup machine sound serves
  obtain ⟨here, code'⟩ := codeAt_cons.1 code
  have step := going.step here ran
  have top : (machine.push (.documents (store.found ref))).stack =
      [.documents (store.found ref)] := by
    rw [push, blank.stack]
  have pushed : Going program (machine.push (.documents (store.found ref))).next :=
    ⟨going.running, going.loaded⟩
  obtain ⟨after, stored, fetched⟩ := reaches_store between pushed code' top
  have all : store.candidates [ref] = store.found ref := List.filter_eq_self.2 fun _ _ => rfl
  rw [all]
  exact ⟨2, after, between, Nat.le_refl 2, step.trans stored, content, ⟨fetched.documents,
    fetched.unread, fetched.stack, fetched.result, fetched.ahead⟩⟩

/-- Of the lists that lookups have left, the intersection is pushed. -/
theorem effect_intersect (machine : Machine) (store between : Store) (first : IndexRef)
    (others : List IndexRef) (stack : machine.stack =
      ((first :: others).map store.found).reverse.map .documents) :
    machine.effect between .intersect =
      (.ok (({ machine with stack := [] } : Machine).pushOrHalt
        (store.candidates (first :: others))), between) := by
  have popped := popAllDocuments_map .intersect ((first :: others).map store.found).reverse
  have common := intersection_reverse (store.found first) (others.map store.found)
  simp only [effect, intersect, stack, popped, ok_bind, pure_eq_ok]
  rw [List.map_cons, common]
  simp only [List.all_map, Store.candidates, Function.comp_def]

/-- Of what several lookups find, the common documents are fetched. -/
theorem fetches_common (sound : store.Sound none) {first : IndexRef} {others : List IndexRef}
    (serves : ∀ ref ∈ first :: others, ref.Serves store.indices)
    (going : Going program machine) (blank : Blank machine)
    (code : program.CodeAt machine.ip
      ((first :: others).map .lookup ++ [.intersect, .store])) :
    Fetches program machine store ((first :: others).length + 2)
      (store.candidates (first :: others)) := by
  obtain ⟨lookups, code'⟩ := codeAt_append.1 code
  obtain ⟨between, run, content⟩ := reaches_lookups sound serves going lookups
  rw [blank.stack, List.append_nil] at run
  rw [List.length_map] at code'
  have looked := going.onward (first :: others).length
    (((first :: others).map store.found).reverse.map .documents)
  obtain ⟨count, after, few, run', fetched⟩ := reaches_pushOrHalt looked blank.documents
    blank.unread _ code' (fun _ => rfl) (effect_intersect _ store between first others rfl)
  apply Exists.intro ((first :: others).length + count)
  exact ⟨after, between, by omega, run.trans run', content, ⟨fetched.documents,
    fetched.unread, fetched.stack, fetched.result, fetched.ahead⟩⟩

/-- The source of a program fetches the candidates of its lookups. -/
theorem fetches_source (sound : store.Sound none)
    (serves : ∀ ref ∈ refs, ref.Serves store.indices) (going : Going program machine)
    (blank : Blank machine)
    (code : program.CodeAt machine.ip (source refs store.name ++ [.store])) :
    Fetches program machine store ((source refs store.name).length + 1)
      (store.candidates refs) := by
  cases refs with
  | nil => exact fetches_scan store going blank code
  | cons first others =>
      cases others with
      | nil => exact fetches_single sound (serves first List.mem_cons_self) going blank code
      | cons second rest =>
          have form : source (first :: second :: rest) store.name ++ [.store] =
              (first :: second :: rest).map .lookup ++ [.intersect, .store] := by
            simp [source]
          have length : (source (first :: second :: rest) store.name).length =
              (first :: second :: rest).length + 1 := by
            simp [source]
          rw [form] at code
          rw [length]
          exact fetches_common sound serves going blank code

end Program

end Docstore
