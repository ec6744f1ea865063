import Docstore.Program.Compile
import Docstore.Proofs.Machine.Reaching
import Docstore.Proofs.Query.NormalForm
import Docstore.Proofs.Query.TakingOut

set_option autoImplicit false

namespace Docstore

namespace QueryNode

def isIdle : QueryNode → Bool
  | .field _ clauses => clauses.isEmpty
  | _ => false

/-- A group without code: it has no branches, or nothing but conditions without clauses. -/
def isHollow : QueryNode → Bool
  | .group .and children => children.all isIdle
  | .group .or children => children.isEmpty
  | _ => false

def Solid (inside : List QueryNode) : Prop :=
  ∀ node ∈ inside, node.isHollow = false

theorem solid_append {first second : List QueryNode} :
    Solid (first ++ second) ↔ Solid first ∧ Solid second :=
  List.forall_mem_append

theorem solid_group {connective : Connective} {children : List QueryNode} :
    Solid (within (.group connective children)) ↔
      (group connective children).isHollow = false ∧ Solid (withinAll children) :=
  List.forall_mem_cons

end QueryNode

namespace Machine

theorem popTruths_append (opcode : Opcode) (values : List Bool) (stack : List Cell) :
    popTruths opcode values.length (values.map .truth ++ stack) = .ok (values, stack) := by
  induction values with
  | nil => rfl
  | cons value rest ih =>
      simp only [List.map_cons, List.cons_append, List.length_cons, popTruths, popTruth, ok_bind,
        ih]
      rfl

theorem joinTruths_reverse (connective : Connective) (values : List Bool) :
    joinTruths connective values.reverse = joinTruths connective values := by
  cases connective with
  | and => exact List.all_reverse
  | or => exact List.any_reverse

end Machine

namespace Program

open Machine

variable {doc : Json} {blocks : List Block} {values : List Bool}

/-- Code that leaves a truth value on the stack of a machine with a document under test. -/
def Computes (doc : Json) (block : Block) (value : Bool) : Prop :=
  ∀ {program : Program} {machine : Machine} {store : Store} {id : DocId}, Going program machine →
    program.CodeAt machine.ip block → machine.current = some id → store.document? id = some doc →
    Reaches block.length machine store
      (machine.onward block.length (.truth value :: machine.stack)) store

theorem computes_test (doc : Json) (path : String) (clause : Clause) :
    Computes doc [.test path clause] (clause.holds (doc.lookup path)) := by
  intro program machine store id going code current there
  have done : machine.effect store (.test path clause) =
      (.ok (machine.push (.truth (clause.holds (doc.lookup path)))), store) := by
    simp only [effect, test, currentFor, current, ok_bind, Store.document, there, pure_eq_ok]
  exact going.step (codeAt_cons.1 code).1 done

/-- Blocks one after the other leave their values, the last on top. -/
theorem reaches_flatten (each : List.Forall₂ (Computes doc) blocks values) {program : Program}
    {machine : Machine} {store : Store} {id : DocId} (going : Going program machine)
    (code : program.CodeAt machine.ip blocks.flatten) (current : machine.current = some id)
    (there : store.document? id = some doc) :
    Reaches blocks.flatten.length machine store
      (machine.onward blocks.flatten.length (values.reverse.map .truth ++ machine.stack))
      store := by
  induction each generalizing machine with
  | nil => exact .refl machine store
  | @cons block value blocks values computes each ih =>
      rw [List.flatten_cons] at code ⊢
      obtain ⟨first, others⟩ := codeAt_append.1 code
      have here := computes going first current there
      have later := ih (going.onward block.length (.truth value :: machine.stack)) others current
      have both := here.trans later
      rw [onward_onward] at both
      rw [List.length_append, List.reverse_cons, List.map_append, List.append_assoc]
      exact both

/-- Joined blocks leave one value for all. -/
theorem computes_joined (connective : Connective) (each : List.Forall₂ (Computes doc) blocks values)
    (nonempty : blocks ≠ []) :
    Computes doc (joined connective blocks) (joinTruths connective values) := by
  intro program machine store id going code current there
  rw [joined] at code ⊢
  obtain ⟨first, last⟩ := codeAt_append.1 code
  have values' := reaches_flatten each going first current there
  have lengths := each.length_eq
  by_cases several : 1 < blocks.length
  · rw [if_pos several] at last ⊢
    have joins : (machine.onward blocks.flatten.length
        (values.reverse.map .truth ++ machine.stack)).join connective blocks.length =
          .ok (machine.onward blocks.flatten.length
            (.truth (joinTruths connective values) :: machine.stack)) := by
      have popped := popTruths_append connective.opcode values.reverse machine.stack
      rw [List.length_reverse, ← lengths] at popped
      simp only [join, onward, popped, ok_bind, joinTruths_reverse]
      rfl
    have done : (machine.onward blocks.flatten.length
        (values.reverse.map .truth ++ machine.stack)).effect store
          (.join connective blocks.length) = (.ok (machine.onward blocks.flatten.length
            (.truth (joinTruths connective values) :: machine.stack)), store) := by
      rw [effect, joins]
    have step := (going.onward _ _).step (codeAt_cons.1 last).1 done
    have both := values'.trans step
    rw [List.length_append]
    exact both
  · rw [if_neg several, List.append_nil]
    obtain ⟨block, rfl⟩ : ∃ block, blocks = [block] := by
      cases blocks with
      | nil => exact absurd rfl nonempty
      | cons block rest =>
          cases rest with
          | nil => exact ⟨block, rfl⟩
          | cons next others => simp at several
    obtain ⟨value, rfl⟩ := List.length_eq_one_iff.1 lengths.symm
    have same : joinTruths connective [value] = value := by
      cases connective <;> cases value <;> rfl
    rw [same]
    exact values'

/-- A branch is the conjunction of its blocks, of which it has one at least. -/
theorem branchOf_eq_ok {block : Block} :
    branchOf blocks = .ok block ↔ blocks ≠ [] ∧ block = joined .and blocks := by
  cases blocks with
  | nil => simp [branchOf]
  | cons first rest =>
      cases rest with
      | nil => simp [branchOf, joined, eq_comm]
      | cons second others => simp [branchOf, eq_comm]

theorem blocksOf_and {children : List QueryNode}
    (ran : blocksOf (.group .and children) = .ok blocks) :
    ∃ inner, blocksOfAll children = .ok inner ∧ blocks = [joined .and inner] := by
  rw [blocksOf] at ran
  obtain ⟨inner, compiled, same⟩ := bind_eq_ok.1 ran
  exact ⟨inner, compiled, (Except.ok.inj same).symm⟩

theorem blocksOf_or {children : List QueryNode}
    (ran : blocksOf (.group .or children) = .ok blocks) :
    ∃ inner, branchesOf children = .ok inner ∧ blocks = [joined .or inner] := by
  rw [blocksOf] at ran
  obtain ⟨inner, compiled, same⟩ := bind_eq_ok.1 ran
  exact ⟨inner, compiled, (Except.ok.inj same).symm⟩

theorem blocksOfAll_cons {node : QueryNode} {rest : List QueryNode}
    (ran : blocksOfAll (node :: rest) = .ok blocks) :
    ∃ first others, blocksOf node = .ok first ∧ blocksOfAll rest = .ok others ∧
      blocks = first ++ others := by
  rw [blocksOfAll] at ran
  obtain ⟨first, compiled, ran⟩ := bind_eq_ok.1 ran
  obtain ⟨others, compiled', same⟩ := bind_eq_ok.1 ran
  exact ⟨first, others, compiled, compiled', (Except.ok.inj same).symm⟩

theorem branchesOf_cons {node : QueryNode} {rest : List QueryNode}
    (ran : branchesOf (node :: rest) = .ok blocks) :
    ∃ inner others, blocksOf node = .ok inner ∧ inner ≠ [] ∧ branchesOf rest = .ok others ∧
      blocks = joined .and inner :: others := by
  rw [branchesOf] at ran
  obtain ⟨inner, compiled, ran⟩ := bind_eq_ok.1 ran
  obtain ⟨block, branch, ran⟩ := bind_eq_ok.1 ran
  obtain ⟨others, compiled', same⟩ := bind_eq_ok.1 ran
  obtain ⟨nonempty, rfl⟩ := branchOf_eq_ok.1 branch
  exact ⟨inner, others, compiled, nonempty, compiled', (Except.ok.inj same).symm⟩

theorem blocksOf_eq_nil {node : QueryNode} (ran : blocksOf node = .ok blocks) :
    blocks = [] ↔ node.isIdle = true := by
  cases node with
  | field path clauses =>
      rw [← Except.ok.inj ran, List.map_eq_nil_iff, QueryNode.isIdle, List.isEmpty_iff]
  | group connective children =>
      cases connective with
      | and =>
          obtain ⟨inner, -, rfl⟩ := blocksOf_and ran
          simp [QueryNode.isIdle]
      | or =>
          obtain ⟨inner, -, rfl⟩ := blocksOf_or ran
          simp [QueryNode.isIdle]
  | lookup ref => cases ran

theorem blocksOfAll_eq_nil {nodes : List QueryNode} (ran : blocksOfAll nodes = .ok blocks) :
    blocks = [] ↔ nodes.all QueryNode.isIdle = true := by
  induction nodes generalizing blocks with
  | nil =>
      obtain rfl := Except.ok.inj ran
      simp
  | cons node rest ih =>
      obtain ⟨first, others, compiled, compiled', rfl⟩ := blocksOfAll_cons ran
      rw [List.append_eq_nil_iff, blocksOf_eq_nil compiled, ih compiled', List.all_cons,
        Bool.and_eq_true]

theorem length_branchesOf {nodes : List QueryNode} (ran : branchesOf nodes = .ok blocks) :
    blocks.length = nodes.length := by
  induction nodes generalizing blocks with
  | nil =>
      obtain rfl := Except.ok.inj ran
      rfl
  | cons node rest ih =>
      obtain ⟨inner, others, -, -, compiled, rfl⟩ := branchesOf_cons ran
      rw [List.length_cons, List.length_cons, ih compiled]

theorem branchesOf_eq_nil {nodes : List QueryNode} (ran : branchesOf nodes = .ok blocks) :
    blocks = [] ↔ nodes.isEmpty = true := by
  rw [← List.length_eq_zero_iff, length_branchesOf ran, List.length_eq_zero_iff, List.isEmpty_iff]

theorem computes_group (connective : Connective) (each : List.Forall₂ (Computes doc) blocks values)
    (nonempty : blocks ≠ []) :
    ∃ values', List.Forall₂ (Computes doc) [joined connective blocks] values' ∧
      values'.all id = joinTruths connective values := by
  refine ⟨[joinTruths connective values], .cons (computes_joined connective each nonempty) .nil, ?_⟩
  rw [List.all_cons, List.all_nil, Bool.and_true]
  rfl

open QueryNode in
mutual

/-- The blocks of a node leave values that are all true just if the node holds, unless there is a
hollow group in it. -/
theorem blocksOf_computes : ∀ {node : QueryNode} {blocks : List Block},
    blocksOf node = .ok blocks → Solid (within node) → ∀ doc,
      ∃ values, List.Forall₂ (Computes doc) blocks values ∧ values.all id = node.holds doc
  | .field path clauses, blocks, ran, _, doc => by
      obtain rfl := Except.ok.inj ran
      refine ⟨clauses.map fun clause => clause.holds (doc.lookup path), ?_, ?_⟩
      · rw [List.forall₂_map_left_iff, List.forall₂_map_right_iff, List.forall₂_same]
        exact fun clause _ => computes_test doc path clause
      · rw [List.all_map]
        rfl
  | .group .and children, blocks, ran, solid, doc => by
      obtain ⟨inner, compiled, rfl⟩ := blocksOf_and ran
      obtain ⟨filled, solid⟩ := solid_group.1 solid
      obtain ⟨values, computes, same⟩ := blocksOfAll_computes compiled solid doc
      have nonempty : inner ≠ [] := fun empty =>
        Bool.eq_false_iff.1 filled ((blocksOfAll_eq_nil compiled).1 empty)
      obtain ⟨values', computes', same'⟩ := computes_group .and computes nonempty
      exact ⟨values', computes', same'.trans same⟩
  | .group .or children, blocks, ran, solid, doc => by
      obtain ⟨inner, compiled, rfl⟩ := blocksOf_or ran
      obtain ⟨filled, solid⟩ := solid_group.1 solid
      obtain ⟨values, computes, same⟩ := branchesOf_computes compiled solid doc
      have nonempty : inner ≠ [] := fun empty =>
        Bool.eq_false_iff.1 filled ((branchesOf_eq_nil compiled).1 empty)
      obtain ⟨values', computes', same'⟩ := computes_group .or computes nonempty
      exact ⟨values', computes', same'.trans same⟩
  | .lookup ref, blocks, ran, _, _ => by cases ran

theorem blocksOfAll_computes : ∀ {nodes : List QueryNode} {blocks : List Block},
    blocksOfAll nodes = .ok blocks → Solid (withinAll nodes) → ∀ doc,
      ∃ values, List.Forall₂ (Computes doc) blocks values ∧ values.all id = allHold doc nodes
  | [], blocks, ran, _, doc => by
      obtain rfl := Except.ok.inj ran
      exact ⟨[], .nil, rfl⟩
  | node :: rest, blocks, ran, solid, doc => by
      obtain ⟨first, others, compiled, compiled', rfl⟩ := blocksOfAll_cons ran
      obtain ⟨solid, solid'⟩ := solid_append.1 solid
      obtain ⟨values, computes, same⟩ := blocksOf_computes compiled solid doc
      obtain ⟨values', computes', same'⟩ := blocksOfAll_computes compiled' solid' doc
      refine ⟨values ++ values', List.rel_append computes computes', ?_⟩
      rw [List.all_append, same, same']
      rfl

theorem branchesOf_computes : ∀ {nodes : List QueryNode} {blocks : List Block},
    Program.branchesOf nodes = .ok blocks → Solid (withinAll nodes) → ∀ doc,
      ∃ values, List.Forall₂ (Computes doc) blocks values ∧ values.any id = anyHolds doc nodes
  | [], blocks, ran, _, doc => by
      obtain rfl := Except.ok.inj ran
      exact ⟨[], .nil, rfl⟩
  | node :: rest, blocks, ran, solid, doc => by
      obtain ⟨inner, others, compiled, nonempty, compiled', rfl⟩ := branchesOf_cons ran
      obtain ⟨solid, solid'⟩ := solid_append.1 solid
      obtain ⟨values, computes, same⟩ := blocksOf_computes compiled solid doc
      obtain ⟨values', computes', same'⟩ := branchesOf_computes compiled' solid' doc
      refine ⟨values.all id :: values', .cons (computes_joined .and computes nonempty) computes',
        ?_⟩
      rw [List.any_cons, same, same']
      rfl

end

variable {good : Json → Prop}

open QueryNode in
mutual

/-- Nodes with clauses and children compile, to one block at least. -/
theorem blocksOf_ok : ∀ {node : QueryNode}, node.Formed good →
    Solid (within node) ∧ ∃ blocks, blocksOf node = .ok blocks ∧ blocks ≠ []
  | .field path clauses, formed => by
      refine ⟨List.forall_mem_singleton.2 rfl, _, rfl, fun empty => ?_⟩
      exact formed.1 (List.map_eq_nil_iff.1 empty)
  | .group .and children, formed => by
      obtain ⟨solid, blocks, ran, nonempty⟩ :=
        blocksOfAll_ok (show AllFormed good children from formed.2)
      have filled : (group .and children).isHollow = false := by
        rw [Bool.eq_false_iff]
        exact fun hollow => nonempty formed.1 ((blocksOfAll_eq_nil ran).2 hollow)
      refine ⟨solid_group.2 ⟨filled, solid⟩, [joined .and blocks], ?_, List.cons_ne_nil _ _⟩
      rw [blocksOf, ran, ok_bind]
      rfl
  | .group .or children, formed => by
      obtain ⟨solid, blocks, ran⟩ := branchesOf_ok (show AllFormed good children from formed.2)
      have filled : (group .or children).isHollow = false := by
        rw [Bool.eq_false_iff]
        exact fun hollow => formed.1 (List.isEmpty_iff.1 hollow)
      refine ⟨solid_group.2 ⟨filled, solid⟩, [joined .or blocks], ?_, List.cons_ne_nil _ _⟩
      rw [blocksOf, ran, ok_bind]
      rfl
  | .lookup ref, formed => formed.elim

theorem blocksOfAll_ok : ∀ {nodes : List QueryNode}, AllFormed good nodes →
    Solid (withinAll nodes) ∧
      ∃ blocks, blocksOfAll nodes = .ok blocks ∧ (nodes ≠ [] → blocks ≠ [])
  | [], _ => ⟨List.forall_mem_nil _, [], rfl, fun nonempty => absurd rfl nonempty⟩
  | node :: rest, formed => by
      obtain ⟨solid, first, ran, nonempty⟩ := blocksOf_ok formed.1
      obtain ⟨solid', others, ran', -⟩ := blocksOfAll_ok (show AllFormed good rest from formed.2)
      refine ⟨solid_append.2 ⟨solid, solid'⟩, first ++ others, ?_,
        fun _ empty => nonempty (List.append_eq_nil_iff.1 empty).1⟩
      rw [blocksOfAll, ran, ok_bind, ran', ok_bind]
      rfl

theorem branchesOf_ok : ∀ {nodes : List QueryNode}, AllFormed good nodes →
    Solid (withinAll nodes) ∧ ∃ blocks, Program.branchesOf nodes = .ok blocks
  | [], _ => ⟨List.forall_mem_nil _, [], rfl⟩
  | node :: rest, formed => by
      obtain ⟨solid, inner, ran, nonempty⟩ := blocksOf_ok formed.1
      obtain ⟨solid', others, ran'⟩ := branchesOf_ok (show AllFormed good rest from formed.2)
      refine ⟨solid_append.2 ⟨solid, solid'⟩, joined .and inner :: others, ?_⟩
      rw [Program.branchesOf, ran, ok_bind, branchOf_eq_ok.2 ⟨nonempty, rfl⟩, ok_bind, ran',
        ok_bind]
      rfl

end

theorem blocksOfAll_spec {nodes : List QueryNode} (formed : QueryNode.AllFormed good nodes) :
    ∃ blocks, blocksOfAll nodes = .ok blocks ∧ (nodes ≠ [] → blocks ≠ []) ∧
      ∀ doc, ∃ values, List.Forall₂ (Computes doc) blocks values ∧
        values.all id = QueryNode.allHold doc nodes := by
  obtain ⟨solid, blocks, ran, nonempty⟩ := blocksOfAll_ok formed
  exact ⟨blocks, ran, nonempty, blocksOfAll_computes ran solid⟩

end Program

end Docstore
