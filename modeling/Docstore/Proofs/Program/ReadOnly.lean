import Docstore.Program.Compile
import Docstore.Proofs.Fallible

set_option autoImplicit false

namespace Docstore
namespace Program

variable {blocks : List Block}

def ReadOnly (program : Program) : Prop :=
  ∀ mutation, Instruction.mutate mutation ∉ program

theorem readOnly_flatten (readOnly : ∀ block ∈ blocks, ReadOnly block) :
    ReadOnly blocks.flatten := by
  intro mutation there
  obtain ⟨block, member, inside⟩ := List.mem_flatten.1 there
  exact readOnly block member mutation inside

theorem readOnly_append {first second : Program} (left : first.ReadOnly)
    (right : second.ReadOnly) : Program.ReadOnly (first ++ second) := by
  intro mutation there
  exact (List.mem_append.1 there).elim (left mutation) (right mutation)

theorem readOnly_joined (connective : Connective) (readOnly : ∀ block ∈ blocks, ReadOnly block) :
    ReadOnly (joined connective blocks) := by
  refine readOnly_append (readOnly_flatten readOnly) fun mutation there => ?_
  split at there
  · simp at there
  · cases there

theorem readOnly_branchOf {block : Block} (readOnly : ∀ block ∈ blocks, ReadOnly block)
    (compiled : branchOf blocks = .ok block) : ReadOnly block := by
  unfold branchOf at compiled
  split at compiled
  · cases compiled
  · obtain rfl := Except.ok.inj compiled
    exact readOnly _ List.mem_cons_self
  · obtain rfl := Except.ok.inj compiled
    exact readOnly_joined _ readOnly

mutual

theorem readOnly_blocksOf : ∀ {node : QueryNode} {blocks : List Block},
    blocksOf node = .ok blocks → ∀ block ∈ blocks, ReadOnly block
  | .field path clauses, blocks, compiled => by
      obtain rfl := Except.ok.inj compiled
      intro block member mutation there
      obtain ⟨clause, -, rfl⟩ := List.mem_map.1 member
      simp at there
  | .group .and children, blocks, compiled => by
      obtain ⟨inner, done, same⟩ := bind_eq_ok.1 compiled
      obtain rfl := Except.ok.inj same
      intro block member
      obtain rfl := List.mem_singleton.1 member
      exact readOnly_joined _ (readOnly_blocksOfAll done)
  | .group .or children, blocks, compiled => by
      obtain ⟨inner, done, same⟩ := bind_eq_ok.1 compiled
      obtain rfl := Except.ok.inj same
      intro block member
      obtain rfl := List.mem_singleton.1 member
      exact readOnly_joined _ (readOnly_branchesOf done)
  | .lookup ref, blocks, compiled => by cases compiled

theorem readOnly_blocksOfAll : ∀ {nodes : List QueryNode} {blocks : List Block},
    blocksOfAll nodes = .ok blocks → ∀ block ∈ blocks, ReadOnly block
  | [], blocks, compiled => by
      obtain rfl := Except.ok.inj compiled
      intro block member
      cases member
  | node :: rest, blocks, compiled => by
      obtain ⟨first, done, others⟩ := bind_eq_ok.1 compiled
      obtain ⟨following, done', same⟩ := bind_eq_ok.1 others
      obtain rfl := Except.ok.inj same
      intro block member
      obtain here | there := List.mem_append.1 member
      · exact readOnly_blocksOf done block here
      · exact readOnly_blocksOfAll done' block there

theorem readOnly_branchesOf : ∀ {nodes : List QueryNode} {blocks : List Block},
    Program.branchesOf nodes = .ok blocks → ∀ block ∈ blocks, ReadOnly block
  | [], blocks, compiled => by
      obtain rfl := Except.ok.inj compiled
      intro block member
      cases member
  | node :: rest, blocks, compiled => by
      obtain ⟨inner, done, others⟩ := bind_eq_ok.1 compiled
      obtain ⟨first, branch, others'⟩ := bind_eq_ok.1 others
      obtain ⟨following, done', same⟩ := bind_eq_ok.1 others'
      obtain rfl := Except.ok.inj same
      intro block member
      obtain rfl | there := List.mem_cons.1 member
      · exact readOnly_branchOf (readOnly_blocksOf done) branch
      · exact readOnly_branchesOf done' block there

end

/-- The program of a query has no mutation. -/
theorem readOnly_ofQuery {query : Query} {conditions : Conditions} {collection : String}
    {program : Program} (compiled : ofQuery query conditions collection = .ok program) :
    program.ReadOnly := by
  obtain ⟨blocks, done, same⟩ := bind_eq_ok.1 compiled
  obtain rfl := Except.ok.inj same
  have inner := readOnly_blocksOfAll done
  refine readOnly_append (readOnly_append ?_ ?_) (readOnly_append ?_ ?_)
  · intro mutation there
    unfold source at there
    split at there <;> simp at there
  · intro mutation there
    simp at there
  · unfold filter
    split
    · intro mutation there
      simp at there
    · intro mutation there
      have body := readOnly_joined .and inner mutation
      simp only [loop, List.mem_cons, List.mem_append, reduceCtorEq, List.not_mem_nil, or_false,
        false_or] at there
      exact body there
  · intro mutation there
    unfold closing at there
    cases sort : conditions.sort <;> cases limit : conditions.limit <;>
      simp [sort, limit] at there

end Program

end Docstore
