import Docstore.Proofs.Machine.Runs
import Docstore.Proofs.Program.Answering

set_option autoImplicit false

namespace Docstore

/-- A failure for want of an entry of the stack, or for an entry of another kind. -/
def Error.isStackFault : Error → Bool
  | .execution _ .stackUnderflow => true
  | .execution _ .notBoolean => true
  | .execution _ .notDocuments => true
  | _ => false

namespace Machine

theorem popTruths_short (opcode : Opcode) {count : Nat} {truths : List Bool}
    (few : truths.length < count) :
    popTruths opcode count (truths.map .truth) = .error (.inOpcode opcode .stackUnderflow) := by
  induction count generalizing truths with
  | zero => exact absurd few (Nat.not_lt_zero _)
  | succ count ih =>
      cases truths with
      | nil => rfl
      | cons value rest =>
          have fewer : rest.length < count := Nat.lt_of_succ_lt_succ few
          simp only [List.map_cons, popTruths, popTruth, ok_bind, ih fewer]
          rfl

def Underflows (bound : Nat) (machine : Machine) (store : Store) : Prop :=
  ∃ opcode count after between, count ≤ bound ∧
    Ends count machine store (some (.inOpcode opcode .stackUnderflow)) after between

variable {machine after : Machine} {store between : Store} {program : Program}

theorem Reaches.underflows {count bound : Nat} (run : Reaches count machine store after between)
    (rest : Underflows bound after between) : Underflows (count + bound) machine store := by
  obtain ⟨opcode, count', last, final, few, ends⟩ := rest
  exact ⟨opcode, count + count', last, final, Nat.add_le_add_left few count, run.ends ends⟩

theorem Underflows.mono {bound more : Nat} (short : Underflows bound machine store)
    (fewer : bound ≤ more) : Underflows more machine store := by
  obtain ⟨opcode, count, last, final, few, ends⟩ := short
  exact ⟨opcode, count, last, final, few.trans fewer, ends⟩

theorem Going.underflows (going : Going program machine) {instruction : Instruction}
    (here : program[machine.ip]? = some instruction) {opcode : Opcode}
    (failed : machine.effect store instruction =
      (.error (.inOpcode opcode .stackUnderflow), between)) : Underflows 1 machine store :=
  ⟨opcode, 1, machine, between, Nat.le_refl 1, going.fails here failed⟩

end Machine

namespace Program

open Machine

variable {program : Program} {machine : Machine} {store : Store} {doc : Json} {docId : DocId}

def isPlain : Instruction → Bool
  | .test _ _ => true
  | .join _ _ => true
  | _ => false

/-- The number of truth values on a stack of so many after plain code, if they suffice for it. -/
def height : Block → Nat → Option Nat
  | [], truths => some truths
  | .join _ count :: code, truths =>
    if count ≤ truths then height code (truths - count + 1) else none
  | _ :: code, truths => height code (truths + 1)

theorem height_append (first second : Block) (truths : Nat) :
    height (first ++ second) truths = (height first truths).bind (height second) := by
  induction first generalizing truths with
  | nil => rfl
  | cons instruction code ih =>
      cases instruction with
      | join connective count =>
          simp only [List.cons_append, height, ih]
          split <;> rfl
      | _ => exact ih (truths + 1)

/-- Code that runs as its height says: with enough truth values it leaves so many others, and
without them the stack runs out. -/
structure RunsByHeight (code : Block) (truths : Nat) (machine : Machine) (store : Store) :
    Prop where
  enough : ∀ {left}, height code truths = some left → ∃ others : List Bool, others.length = left ∧
    Reaches code.length machine store (machine.onward code.length (others.map .truth)) store
  short : height code truths = none → Underflows code.length machine store

/-- An instruction that leaves other truth values, in front of code that runs on them. -/
theorem RunsByHeight.cons {code : Block} {truths : Nat} {next : List Bool}
    {instruction : Instruction}
    (first : Reaches 1 machine store (machine.onward 1 (next.map .truth)) store)
    (same : height (instruction :: code) truths = height code next.length)
    (rest : RunsByHeight code next.length (machine.onward 1 (next.map .truth)) store) :
    RunsByHeight (instruction :: code) truths machine store where
  enough {left} found := by
    obtain ⟨others, length, run⟩ := rest.enough (same.symm.trans found)
    have both := first.trans run
    rw [onward_onward, Nat.add_comm] at both
    exact ⟨others, length, both⟩
  short missing := by
    have short := first.underflows (rest.short (same.symm.trans missing))
    rwa [Nat.add_comm] at short

/-- A join with enough truth values on the stack replaces them by one. -/
theorem effect_join (connective : Connective) {count : Nat} {truths : List Bool}
    (enough : count ≤ truths.length) (stack : machine.stack = truths.map .truth) :
    machine.effect store (.join connective count) =
      (.ok { machine with stack := (joinTruths connective (truths.take count) ::
        truths.drop count).map .truth }, store) := by
  have taken : (truths.take count).length = count := List.length_take_of_le enough
  have popped := popTruths_append connective.opcode (truths.take count)
    ((truths.drop count).map .truth)
  rw [← List.map_append, List.take_append_drop, taken, ← stack] at popped
  simp only [effect, join, popped, ok_bind]
  rfl

theorem effect_join_short (connective : Connective) {count : Nat} {truths : List Bool}
    (few : truths.length < count) (stack : machine.stack = truths.map .truth) :
    machine.effect store (.join connective count) =
      (.error (.inOpcode connective.opcode .stackUnderflow), store) := by
  have popped := popTruths_short connective.opcode few
  rw [← stack] at popped
  simp only [effect, join, popped]
  rfl

/-- Plain code runs by its height. `Computes` would not do, because code with a hollow group takes
values that belong to the code before it. -/
theorem runs_by_height {code : Block} (plain : code.all isPlain = true)
    (going : Going program machine) (lies : program.CodeAt machine.ip code)
    (current : machine.current = some docId) (there : store.document? docId = some doc)
    {truths : List Bool} (stack : machine.stack = truths.map .truth) :
    RunsByHeight code truths.length machine store := by
  induction code generalizing machine truths with
  | nil =>
      refine ⟨fun {left} same => ⟨truths, Option.some.inj same, ?_⟩, nofun⟩
      rw [← stack]
      exact .refl machine store
  | cons instruction code ih =>
      obtain ⟨here, behind⟩ := codeAt_cons.1 lies
      rw [List.all_cons, Bool.and_eq_true] at plain
      have rest (next : List Bool) :
          RunsByHeight code next.length (machine.onward 1 (next.map .truth)) store :=
        ih plain.2 (going.onward 1 (next.map .truth)) behind current rfl
      cases instruction with
      | test path clause =>
          have first : Reaches 1 machine store (machine.onward 1
              ((clause.holds (doc.lookup path) :: truths).map .truth)) store := by
            rw [List.map_cons, ← stack]
            exact computes_test doc path clause going (codeAt_append.1 lies).1 current there
          exact .cons first rfl (rest _)
      | join connective count =>
          by_cases enough : count ≤ truths.length
          · have first : Reaches 1 machine store (machine.onward 1 ((joinTruths connective
                (truths.take count) :: truths.drop count).map .truth)) store :=
              going.step here (effect_join connective enough stack)
            refine .cons first ?_ (rest _)
            rw [height, if_pos enough, List.length_cons, List.length_drop]
          · have few := Nat.lt_of_not_le enough
            have fails : Underflows 1 machine store :=
              going.underflows here (effect_join_short connective few stack)
            refine ⟨fun {left} found => ?_, fun _ => fails.mono (Nat.le_add_left 1 _)⟩
            rw [height, if_neg enough] at found
            cases found
      | _ => cases plain.1

/-- Plain blocks that leave as many truth values as there are blocks, but for the missing ones. -/
structure Tallies (blocks : List Block) (missing : Nat) : Prop where
  plain : blocks.flatten.all isPlain = true
  sum : ∀ truths {left}, height blocks.flatten truths = some left →
    left + missing = truths + blocks.length

variable {blocks others : List Block} {missing missing' : Nat}

theorem tallies_nil : Tallies [] 0 := by
  refine ⟨rfl, fun truths left same => ?_⟩
  obtain rfl := Option.some.inj same
  rfl

theorem Tallies.append (first : Tallies blocks missing) (second : Tallies others missing') :
    Tallies (blocks ++ others) (missing + missing') where
  plain := by rw [List.flatten_append, List.all_append, first.plain, second.plain, Bool.and_self]
  sum truths left same := by
    rw [List.flatten_append, height_append, Option.bind_eq_some_iff] at same
    obtain ⟨between, before, behind⟩ := same
    have sum := first.sum _ before
    have sum' := second.sum _ behind
    rw [List.length_append]
    omega

theorem tallies_tests (path : String) (clauses : List Clause) :
    Tallies (clauses.map fun clause => [.test path clause]) 0 := by
  induction clauses with
  | nil => exact tallies_nil
  | cons clause rest ih =>
      have one : Tallies [[.test path clause]] 0 := by
        refine ⟨rfl, fun truths left same => ?_⟩
        obtain rfl := Option.some.inj same
        rfl
      exact one.append ih

/-- Joined blocks count as one, so without blocks one value more is missing. -/
theorem Tallies.joined (tallies : Tallies blocks missing) (connective : Connective) :
    Tallies [Program.joined connective blocks] (missing + if blocks.isEmpty then 1 else 0) where
  plain := by
    rw [List.flatten_singleton, Program.joined, List.all_append, tallies.plain, Bool.true_and]
    split <;> rfl
  sum truths left same := by
    rw [List.flatten_singleton, Program.joined, height_append, Option.bind_eq_some_iff] at same
    obtain ⟨between, before, behind⟩ := same
    have sum := tallies.sum _ before
    cases blocks with
    | nil =>
        obtain rfl := Option.some.inj behind
        simp only [List.isEmpty_nil, if_true, List.length_nil, List.length_singleton] at sum ⊢
        omega
    | cons first rest =>
        simp only [List.isEmpty_cons, Bool.false_eq_true, if_false, List.length_cons,
          List.length_nil]
          at sum behind ⊢
        split at behind
        · rw [height] at behind
          split at behind
          · obtain rfl := Option.some.inj behind
            omega
          · cases behind
        · obtain rfl := Option.some.inj behind
          omega

def hollows (inside : List QueryNode) : Nat :=
  inside.countP QueryNode.isHollow

theorem hollows_eq_zero_iff {inside : List QueryNode} :
    hollows inside = 0 ↔ QueryNode.Solid inside := by
  simp only [hollows, List.countP_eq_zero, QueryNode.Solid, Bool.not_eq_true]

theorem hollows_append (first second : List QueryNode) :
    hollows (first ++ second) = hollows first + hollows second :=
  List.countP_append

theorem hollows_group (connective : Connective) (children : List QueryNode) :
    hollows (QueryNode.within (.group connective children)) =
      hollows (QueryNode.withinAll children) +
        if (QueryNode.group connective children).isHollow then 1 else 0 :=
  List.countP_cons

open QueryNode in
mutual

/-- Of the values that the blocks of a node count for, each hollow group in it misses one. -/
theorem blocksOf_tallies : ∀ {node : QueryNode} {blocks : List Block},
    blocksOf node = .ok blocks → Tallies blocks (hollows (within node))
  | .field path clauses, blocks, ran => by
      obtain rfl := Except.ok.inj ran
      exact tallies_tests path clauses
  | .group .and children, blocks, ran => by
      obtain ⟨inner, compiled, rfl⟩ := blocksOf_and ran
      have tallies := (blocksOfAll_tallies compiled).joined .and
      rw [hollows_group, isHollow]
      rwa [Bool.eq_iff_iff.2 (List.isEmpty_iff.trans (blocksOfAll_eq_nil compiled))] at tallies
  | .group .or children, blocks, ran => by
      obtain ⟨inner, compiled, rfl⟩ := blocksOf_or ran
      have tallies := (branchesOf_tallies compiled).joined .or
      rw [hollows_group, isHollow]
      rwa [Bool.eq_iff_iff.2 (List.isEmpty_iff.trans (branchesOf_eq_nil compiled))] at tallies
  | .lookup ref, blocks, ran => by cases ran

theorem blocksOfAll_tallies : ∀ {nodes : List QueryNode} {blocks : List Block},
    blocksOfAll nodes = .ok blocks → Tallies blocks (hollows (withinAll nodes))
  | [], blocks, ran => by
      obtain rfl := Except.ok.inj ran
      exact tallies_nil
  | node :: rest, blocks, ran => by
      obtain ⟨first, others, compiled, compiled', rfl⟩ := blocksOfAll_cons ran
      rw [withinAll, hollows_append]
      exact (blocksOf_tallies compiled).append (blocksOfAll_tallies compiled')

theorem branchesOf_tallies : ∀ {nodes : List QueryNode} {blocks : List Block},
    Program.branchesOf nodes = .ok blocks → Tallies blocks (hollows (withinAll nodes))
  | [], blocks, ran => by
      obtain rfl := Except.ok.inj ran
      exact tallies_nil
  | node :: rest, blocks, ran => by
      obtain ⟨inner, others, compiled, nonempty, compiled', rfl⟩ := branchesOf_cons ran
      have branch := (blocksOf_tallies compiled).joined .and
      rw [if_neg fun empty => nonempty (List.isEmpty_iff.1 empty)] at branch
      rw [withinAll, hollows_append]
      exact branch.append (branchesOf_tallies compiled')

end

/-- Where a value is missing, the stack runs out on the first document that is read. -/
theorem filter_underflows (tallies : Tallies blocks missing) (lacking : 0 < missing)
    (going : Going program machine) (code : program.CodeAt machine.ip (filter machine.ip blocks))
    (here : machine.documents[machine.docptr]? = some docId)
    (there : store.document? docId = some doc)
    (stack : machine.stack = []) :
    Underflows (filter machine.ip blocks).length machine store := by
  have full : blocks.isEmpty = false := by
    rw [Bool.eq_false_iff]
    intro empty
    obtain rfl := List.isEmpty_iff.1 empty
    have sum := tallies.sum 0 rfl
    rw [List.length_nil] at sum
    omega
  rw [filter, full, if_neg Bool.false_ne_true] at code ⊢
  rw [length_loop]
  obtain ⟨first, code⟩ := codeAt_cons.1 code
  obtain ⟨middle, last⟩ := codeAt_append.1 code
  have read : machine.effect store .read = _ := effect_read here
  have reading := going.step first read
  have going' : Going program
      ({ machine with current := some docId, docptr := machine.docptr + 1 } : Machine).next :=
    ⟨going.running, going.loaded⟩
  have body := tallies.joined .and
  have plain := body.plain
  rw [List.flatten_singleton] at plain
  have blank : machine.stack = ([] : List Bool).map .truth := stack
  have runs := runs_by_height plain going' middle rfl there blank
  have place : (joined .and blocks).length + 4 = 1 + ((joined .and blocks).length + 3) := by omega
  rw [place]
  apply reading.underflows
  -- the stack runs out at a join, or else at the shift behind the code of all conditions
  cases left : height (joined .and blocks) 0 with
  | none => exact (runs.short left).mono (Nat.le_add_right _ 3)
  | some left' =>
      obtain ⟨truths, length, run⟩ := runs.enough left
      have flat : height [joined .and blocks].flatten 0 = some left' := by
        rw [List.flatten_singleton, left]
      have sum := body.sum 0 flat
      rw [full, if_neg Bool.false_ne_true, List.length_singleton] at sum
      obtain rfl : truths = [] := List.eq_nil_of_length_eq_zero (by omega)
      have shifting : Underflows 1 _ store :=
        (going'.onward (joined .and blocks).length []).underflows (codeAt_cons.1 last).1
          (rfl : _ = (Except.error (Error.inOpcode .shift .stackUnderflow), store))
      exact (run.underflows shifting).mono (by omega)

variable {query : Query} {conditions : Conditions} {collection : String}

theorem parts_of_scan (free : ∀ ref, .lookup ref ∉ QueryNode.withinAll query.root)
    (compiled : ofQuery query conditions collection = .ok program) :
    ∃ blocks, blocksOfAll query.root = .ok blocks ∧
      Parts program [.scan collection] blocks conditions := by
  have lookups : Query.leadingLookups query.root = [] := by
    cases root : query.root with
    | nil => rfl
    | cons node rest =>
        cases node with
        | lookup ref =>
            refine absurd ?_ (free ref)
            rw [root, QueryNode.withinAll]
            exact List.mem_append_left _ (List.mem_singleton_self _)
        | _ => rfl
  simp only [ofQuery, lookups, List.length_nil, List.drop_zero] at compiled
  obtain ⟨blocks, ran, same⟩ := bind_eq_ok.1 compiled
  exact ⟨blocks, ran, parts_of_layout (Except.ok.inj same)⟩

theorem solid_of_mem {nodes : List QueryNode} {node : QueryNode}
    (solid : QueryNode.Solid (QueryNode.withinAll nodes)) (member : node ∈ nodes) :
    QueryNode.Solid node.within := by
  intro inner there
  apply solid inner
  rw [QueryNode.withinAll_eq_flatMap]
  exact List.mem_flatMap.2 ⟨node, member, there⟩

theorem blocksOf_of_mem {nodes : List QueryNode} (ran : blocksOfAll nodes = .ok blocks) :
    ∀ node ∈ nodes, ∃ blocks, blocksOf node = .ok blocks := by
  induction nodes generalizing blocks with
  | nil => exact List.forall_mem_nil _
  | cons first rest ih =>
      obtain ⟨here, others, compiled, compiled', -⟩ := blocksOfAll_cons ran
      exact List.forall_mem_cons.2 ⟨⟨here, compiled⟩, ih compiled'⟩

theorem blocksOf_of_mem_branches {nodes : List QueryNode} (ran : branchesOf nodes = .ok blocks) :
    ∀ node ∈ nodes, ∃ blocks, blocksOf node = .ok blocks := by
  induction nodes generalizing blocks with
  | nil => exact List.forall_mem_nil _
  | cons first rest ih =>
      obtain ⟨here, others, compiled, -, compiled', -⟩ := branchesOf_cons ran
      exact List.forall_mem_cons.2 ⟨⟨here, compiled⟩, ih compiled'⟩

theorem compiles_within {nodes : List QueryNode} (ran : blocksOfAll nodes = .ok blocks)
    (solid : QueryNode.Solid (QueryNode.withinAll nodes)) :
    ∀ node ∈ QueryNode.withinAll nodes,
      QueryNode.Solid node.within ∧ ∃ blocks, blocksOf node = .ok blocks := by
  refine QueryNode.of_withinAll ?_ fun node member =>
    ⟨solid_of_mem solid member, blocksOf_of_mem ran node member⟩
  intro connective children ⟨solid, blocks, ran⟩ child member
  refine ⟨solid_of_mem (QueryNode.solid_group.1 solid).2 member, ?_⟩
  cases connective with
  | and =>
      obtain ⟨inner, compiled, -⟩ := blocksOf_and ran
      exact blocksOf_of_mem compiled child member
  | or =>
      obtain ⟨inner, compiled, -⟩ := blocksOf_or ran
      exact blocksOf_of_mem_branches compiled child member

/-- Without hollow groups the program ends as the query asks. -/
theorem ends_if_solid (free : ∀ ref, .lookup ref ∉ QueryNode.withinAll query.root)
    (compiled : ofQuery query conditions store.name = .ok program)
    (solid : QueryNode.Solid (QueryNode.withinAll query.root))
    (listed : ∀ id ∈ store.order, ∃ doc, store.document? id = some doc) (upsert : Bool) :
    ∃ count failure after between, count ≤ program.length * (store.order.length + 1) ∧
      Ends count (load program none upsert) store failure after between ∧
      Concludes store [] query.root conditions failure after := by
  obtain ⟨blocks, ran, parts⟩ := parts_of_scan free compiled
  have going : Going program (load program none upsert) := ⟨rfl, rfl⟩
  have fetches := fetches_scan store going ⟨rfl, rfl, rfl⟩ parts.fetch
  have decides : ∀ other ∈ store.candidates [], ∃ doc values, store.document? other = some doc ∧
      List.Forall₂ (Computes doc) blocks values ∧
        values.all id = store.holdsOf query.root other := by
    intro other there
    obtain ⟨doc, stored⟩ := listed other there
    obtain ⟨values, each, same⟩ := blocksOfAll_computes ran solid doc
    refine ⟨doc, values, stored, each, ?_⟩
    rw [same, Store.holdsOf, stored, Option.any_some]
  obtain ⟨count, failure, after, between, few, ends, -, concludes⟩ :=
    ends_of_fetches parts none upsert fetches decides
  exact ⟨count, failure, after, between, few, ends, concludes⟩

/-- With a hollow group the stack runs out, if there is a document. -/
theorem underflows_if_hollow (free : ∀ ref, .lookup ref ∉ QueryNode.withinAll query.root)
    (compiled : ofQuery query conditions store.name = .ok program)
    (hollow : ¬ QueryNode.Solid (QueryNode.withinAll query.root))
    (listed : ∀ id ∈ store.order, ∃ doc, store.document? id = some doc)
    (occupied : store.order ≠ []) (upsert : Bool) :
    Underflows program.length (load program none upsert) store := by
  obtain ⟨blocks, ran, parts⟩ := parts_of_scan free compiled
  have lacking : 0 < hollows (QueryNode.withinAll query.root) :=
    Nat.pos_of_ne_zero fun zero => hollow (hollows_eq_zero_iff.1 zero)
  have going : Going program (load program none upsert) := ⟨rfl, rfl⟩
  obtain ⟨count, fetched, between, few, run, content, fetches⟩ :=
    fetches_scan store going ⟨rfl, rfl, rfl⟩ parts.fetch
  cases fetches.ahead with
  | halted empty => exact absurd empty occupied
  | going going' ip =>
      obtain ⟨first, rest, order⟩ := List.exists_cons_of_ne_nil occupied
      have here : fetched.documents[fetched.docptr]? = some first := by
        rw [fetches.documents, fetches.unread, Store.candidates, order]
        rfl
      obtain ⟨doc, stored⟩ := listed first (order ▸ List.mem_cons_self)
      have there : between.document? first = some doc := by
        rw [Store.document?, content.documents]
        exact stored
      have place : fetched.ip = [Instruction.scan store.name].length + 1 := by
        rw [ip]
        exact Nat.zero_add _
      have code := parts.filter
      rw [← place] at code
      have short := filter_underflows (blocksOfAll_tallies ran) lacking going' code here there
        fetches.stack
      have length := parts.length
      rw [← place] at length
      rw [List.length_singleton] at place
      exact (run.underflows short).mono (by omega)

theorem ends_if_empty (free : ∀ ref, .lookup ref ∉ QueryNode.withinAll query.root)
    (compiled : ofQuery query conditions store.name = .ok program)
    (empty : store.order = []) (upsert : Bool) :
    ∃ count after between, Ends count (load program none upsert) store none after between := by
  obtain ⟨blocks, -, parts⟩ := parts_of_scan free compiled
  have going : Going program (load program none upsert) := ⟨rfl, rfl⟩
  have done : (load program none upsert).effect store (.scan store.name) =
      (.ok (load program none upsert).halt, store) := by
    simp only [effect, scan, ne_eq, not_true_eq_false, if_false, empty, pushOrHalt]
    rfl
  have step := going.step (codeAt_cons.1 parts.fetch).1 done
  exact ⟨1, _, store, step.stops rfl⟩

/-- A program that can end without a fault of the stack has none with any fuel. -/
theorem no_fault_of_ends {count : Nat} {failure : Option Error} {after : Machine} {between : Store}
    {upsert : Bool} (ends : Ends count (load program none upsert) store failure after between)
    (harmless : ∀ error, failure = some error → error.isStackFault = false) (fuel : Nat)
    {error : Error} (failed : (execute fuel store program none upsert).1 = .error error) :
    error.isStackFault = false := by
  rw [execute_outcome] at failed
  obtain short | same := ends.runPhase_or fuel
  · generalize runPhase fuel (load program none upsert) store = result at short failed
    obtain ⟨failure, last⟩ := result
    obtain rfl : failure = some cutShort := short
    obtain rfl := Except.error.inj failed
    rfl
  · rw [same] at failed
    cases failure with
    | none => cases failed
    | some other =>
        obtain rfl := Except.error.inj failed
        exact harmless other rfl

/-- The program of a query without lookups fails on the stack just if there is a hollow group in the
query and a document in the collection. Without hollow groups every block leaves one truth value,
and the program answers the query, if what it keeps can be sorted as asked. -/
theorem balances_unless_hollow (free : ∀ ref, .lookup ref ∉ QueryNode.withinAll query.root)
    (compiled : ofQuery query conditions collection = .ok program) :
    (∀ (store : Store) (upsert : Bool), store.name = collection →
      (∀ id ∈ store.order, ∃ doc, store.document? id = some doc) →
      ((∃ fuel error, (execute fuel store program none upsert).1 = .error error ∧
          error.isStackFault = true) ↔
        ¬ QueryNode.Solid (QueryNode.withinAll query.root) ∧ store.order ≠ [])) ∧
    (QueryNode.Solid (QueryNode.withinAll query.root) →
      (∀ node ∈ QueryNode.withinAll query.root, ∃ blocks, blocksOf node = .ok blocks ∧
        ∀ doc, ∃ values, List.Forall₂ (Computes doc) blocks values ∧
          values.all id = node.holds doc) ∧
      ∀ (store : Store) (fuel : Nat) (upsert : Bool), store.name = collection →
        (∀ id ∈ store.order, ∃ doc, store.document? id = some doc) →
        program.length * (store.order.length + 1) ≤ fuel →
        store.Arrangeable conditions (store.kept [] query.root) →
        (execute fuel store program none upsert).1 =
          .ok (store.answer [] query.root conditions)) := by
  refine ⟨fun store upsert named listed => ?_, fun solid => ⟨fun node member => ?_,
    fun store fuel upsert named listed enough arrangeable => ?_⟩⟩
  · subst named
    constructor
    · rintro ⟨fuel, error, failed, fault⟩
      constructor
      · intro solid
        obtain ⟨count, failure, after, between, -, ends, concludes⟩ :=
          ends_if_solid free compiled solid listed upsert
        have harmless : ∀ error, failure = some error → error.isStackFault = false := by
          intro error same
          cases concludes with
          | answered => cases same
          | unranked =>
              rw [← Option.some.inj same]
              rfl
        rw [no_fault_of_ends ends harmless fuel failed] at fault
        cases fault
      · intro empty
        obtain ⟨count, after, between, ends⟩ := ends_if_empty free compiled empty upsert
        rw [no_fault_of_ends ends (fun _ same => by cases same) fuel failed] at fault
        cases fault
    · rintro ⟨hollow, occupied⟩
      obtain ⟨opcode, count, after, between, few, ends⟩ :=
        underflows_if_hollow free compiled hollow listed occupied upsert
      refine ⟨program.length, .inOpcode opcode .stackUnderflow, ?_, rfl⟩
      rw [execute_outcome, ends.runPhase_eq few]
      rfl
  · obtain ⟨blocks, ran, -⟩ := parts_of_scan free compiled
    obtain ⟨solid, blocks, ran⟩ := compiles_within ran solid node member
    exact ⟨blocks, ran, blocksOf_computes ran solid⟩
  · subst named
    obtain ⟨count, failure, after, between, few, ends, concludes⟩ :=
      ends_if_solid free compiled solid listed upsert
    cases concludes with
    | unranked refused => exact absurd arrangeable refused
    | answered _ answered =>
        rw [execute_outcome, ends.runPhase_eq (few.trans enough), ← answered.result]
        rfl

/-- A condition without clauses and a group of one child leave the stack in balance. -/
theorem single_groups_balance :
    let flag : QueryNode := .field "a" [⟨.eq, .literal (.bool true)⟩]
    let query : Query := ⟨[.field "b" [], .group .or [.group .and [flag], flag]]⟩
    let store : Store := ⟨"notes", ⟨[(1, .object [("a", .bool true)])]⟩, [1], []⟩
    ∃ program, ofQuery query ⟨none, none⟩ "notes" = .ok program ∧
      (execute (program.length * 2) store program none false).1 = .ok [1] := by
  intro flag query store
  have free : ∀ ref, .lookup ref ∉ QueryNode.withinAll query.root := by
    intro ref there
    simp [query, flag, QueryNode.withinAll, QueryNode.within] at there
  have solid : QueryNode.Solid (QueryNode.withinAll query.root) := by
    simp [query, flag, QueryNode.Solid, QueryNode.withinAll, QueryNode.within, QueryNode.isHollow,
      QueryNode.isIdle]
  obtain ⟨program, compiled⟩ : ∃ program, ofQuery query ⟨none, none⟩ "notes" = .ok program :=
    ⟨_, rfl⟩
  obtain ⟨-, balanced⟩ := balances_unless_hollow free compiled
  have listed : ∀ id ∈ store.order, ∃ doc, store.document? id = some doc := by
    intro id there
    obtain rfl := List.mem_singleton.1 there
    exact ⟨_, rfl⟩
  have enough : program.length * (store.order.length + 1) ≤ program.length * 2 := Nat.le_refl _
  have arrangeable := store.arrangeable_unsorted none (store.kept [] query.root)
  exact ⟨program, compiled, (balanced solid).2 store _ false rfl listed enough arrangeable⟩

/-- A program may fail on the stack: a branch that is an empty conjunction compiles, and leaves
nothing for the alternative to join. -/
theorem empty_branch_underflows : ¬ ∀ (query : Query) (conditions : Conditions)
    (collection : String) (program : Program),
    (∀ ref, .lookup ref ∉ QueryNode.withinAll query.root) →
    ofQuery query conditions collection = .ok program →
    ∀ (store : Store) (fuel : Nat) (upsert : Bool) (error : Error), store.name = collection →
      (execute fuel store program none upsert).1 = .error error → error.isStackFault = false := by
  intro balanced
  let one : Json := .number (.int 1 (by decide) (by decide))
  let query : Query := ⟨[.group .or [.group .and [], .field "a" [⟨.eq, .literal one⟩]]]⟩
  have free : ∀ ref, .lookup ref ∉ QueryNode.withinAll query.root := by
    intro ref there
    simp [query, QueryNode.withinAll, QueryNode.within] at there
  have fault := balanced query ⟨none, none⟩ "notes" _ free rfl
    ⟨"notes", ⟨[(1, .object [("a", one)])]⟩, [1], []⟩ 9 false
    (.inOpcode .or .stackUnderflow) rfl rfl
  cases fault

end Program
end Docstore
