import Docstore.Proofs.Mutation.Outcomes

set_option autoImplicit false

namespace Docstore
namespace Mutation

variable {source value : Json} {symbol : String} {mutations : List Mutation}

/-- Mutations of a smaller operator come first, and of one operator those on smaller paths. -/
def Before (first second : Mutation) : Prop :=
  first.op.symbol < second.op.symbol ∨ first.op = second.op ∧ first.path < second.path

/-- The member of a mutation object has an operator and a path with an operand for each mutation. -/
theorem ofMember_eq_ok (read : ofMember source symbol value = .ok mutations) :
    ∃ op paths, op.symbol = symbol ∧ value = .object paths ∧ mutations = ofPaths op paths := by
  unfold ofMember at read
  cases named : MutationOperator.ofSymbol? symbol with
  | none =>
      rw [named] at read
      cases read
  | some op =>
      rw [named] at read
      have same : op.symbol = symbol := by
        have found := List.find?_some named
        exact beq_iff_eq.1 found
      cases value with
      | object paths => exact ⟨op, paths, same, rfl, (Except.ok.inj read).symm⟩
      | _ => cases read

/-- A mutation object has a member for each list of mutations with one operator. -/
theorem parse_eq_ok (read : parse source = .ok mutations) :
    ∃ members each, source = .object members ∧ mutations = each.flatten ∧
      List.Forall₂ (fun member mutations => ofMember source member.1 member.2 = .ok mutations)
        members each := by
  cases source with
  | object members =>
      obtain ⟨each, ran, same⟩ := bind_eq_ok.1 read
      exact ⟨members, each, rfl, (Except.ok.inj same).symm, mapM_eq_ok ran⟩
  | _ => cases read

/-- The operands of a mutation object in order are in order. -/
theorem ordered_parse (ordered : source.Ordered) (read : parse source = .ok mutations) :
    ∀ mutation ∈ mutations, mutation.operand.Ordered := by
  obtain ⟨members, each, same, rfl, steps⟩ := parse_eq_ok read
  rw [same] at ordered
  have inside := Json.orderedMembers_iff.1 ordered.2
  clear read same ordered
  induction steps with
  | nil =>
      intro mutation there
      cases there
  | @cons member mutations members each here rest ih =>
      obtain ⟨first, others⟩ := List.forall_mem_cons.1 inside
      obtain ⟨op, paths, -, object, rfl⟩ := ofMember_eq_ok here
      rw [object] at first
      rw [List.flatten_cons, List.forall_mem_append]
      apply And.intro _ (ih others)
      intro mutation there
      obtain ⟨entry, inside, rfl⟩ := List.mem_map.1 there
      exact Json.orderedMembers_iff.1 first.2 entry inside

/-- Every mutation of a mutation object has the symbol of a member. -/
theorem symbol_mem {members : Members} {each : List (List Mutation)}
    (steps : List.Forall₂ (fun member mutations =>
      ofMember source member.1 member.2 = .ok mutations) members each) :
    ∀ mutation ∈ each.flatten, mutation.op.symbol ∈ members.map Prod.fst := by
  induction steps with
  | nil =>
      intro mutation there
      cases there
  | @cons member mutations members each here rest ih =>
      obtain ⟨op, paths, symbol, -, rfl⟩ := ofMember_eq_ok here
      rw [List.flatten_cons, List.forall_mem_append]
      constructor
      · intro mutation there
        obtain ⟨entry, -, rfl⟩ := List.mem_map.1 there
        exact symbol ▸ List.mem_cons_self
      · intro mutation there
        exact List.mem_cons_of_mem _ (ih mutation there)

/-- The mutations of a mutation object in order come in order. -/
theorem before_parse (ordered : source.Ordered) (read : parse source = .ok mutations) :
    mutations.Pairwise Before := by
  obtain ⟨members, each, same, rfl, steps⟩ := parse_eq_ok read
  rw [same] at ordered
  obtain ⟨keys, ordered⟩ := ordered
  have inside := Json.orderedMembers_iff.1 ordered
  clear read same ordered
  induction steps with
  | nil => exact .nil
  | @cons member mutations members each here rest ih =>
      rw [List.map_cons, List.pairwise_cons] at keys
      obtain ⟨first, others⟩ := List.forall_mem_cons.1 inside
      obtain ⟨op, paths, symbol, object, rfl⟩ := ofMember_eq_ok here
      rw [object] at first
      rw [List.flatten_cons, List.pairwise_append]
      refine ⟨?_, ih keys.2 others, ?_⟩
      · apply List.pairwise_map.2
        apply (List.pairwise_map.1 first.1).imp
        intro entry later less
        exact .inr ⟨rfl, less⟩
      · intro earlier there later there'
        obtain ⟨entry, -, rfl⟩ := List.mem_map.1 there
        left
        rw [show op.symbol = member.1 from symbol]
        exact keys.1 _ (symbol_mem rest later there')

end Mutation
end Docstore
