import Docstore.Proofs.Query.Substituted

set_option autoImplicit false

namespace Docstore
namespace Query

variable {offer : Offer} {root : List QueryNode}

/-- A lookup in one of some indices, with the clauses that it stands for. -/
structure Takeover (indices : List Index) where
  position : Nat
  index : Index
  there : indices[position]? = some index
  lookup : IndexLookup
  clauses : List (String × Clause)
  encodes : Encodes index lookup clauses

def Takeover.node {indices : List Index} (taken : Takeover indices) : QueryNode :=
  .lookup ⟨taken.position, taken.index.name, taken.lookup⟩

/-- If no index repeats an attribute, what was substituted was taken over. -/
def Substitution.takeover {indices : List Index}
    (distinct : ∀ index ∈ indices, index.attributes.Nodup) (one : Substitution indices) :
    Takeover indices where
  position := one.position
  index := one.index
  there := one.there
  lookup := one.lookup
  clauses := one.clauses
  encodes := one.stands.encodes (distinct one.index (List.mem_of_getElem? one.there))

theorem takeAll_accounts {indices : List Index} (covers : offer.Covers)
    (fit : ∀ index ∈ indices, index.attributes ≠ [] ∧ index.attributes.Nodup)
    {front rest : List Index} (split : indices = front ++ rest) (lookups : List QueryNode)
    (named : Named offer root) :
    ∃ (taken : List (Takeover indices)) (after : List QueryNode),
      takeAll offer front.length rest lookups root =
        .ok (taken.reverse.map Takeover.node ++ lookups, after) ∧
      taken.Pairwise (fun first second => first.position < second.position) ∧
      (∀ one ∈ taken, front.length ≤ one.position) ∧
      Accounts root (taken.flatMap Takeover.clauses) after := by
  have distinct : ∀ index ∈ indices, index.attributes.Nodup := fun index there =>
    (fit index there).2
  obtain ⟨-, index, there, repeats, -⟩ | ⟨taken, lost, after, ran, behind, exchange⟩ :=
    takeAll_substitutes covers (fun index there => (fit index there).1) split lookups named
  · exact absurd (distinct index there) repeats
  · obtain rfl : lost = [] := (Substitution.lost_eq_nil_iff exchange.surplus).2 fun one _ _ _ =>
      distinct one.index (List.mem_of_getElem? one.there)
    have accounts := exchange.accounts
    rw [List.append_nil] at accounts
    refine ⟨taken.map (Substitution.takeover distinct), after, ?_, ?_, ?_, ?_⟩
    · rw [ran, ← List.map_reverse, List.map_map]
      rfl
    · exact List.pairwise_map.2 exchange.order
    · exact List.forall_mem_map.2 behind
    · rw [List.flatMap_map]
      exact accounts

/-- With indices that have attributes and repeat none, selection puts in front of a query one lookup
for each index that takes clauses over, those of later indices first. Every clause of the query is
either one that these stand for or still in its node, in its order, and a node without clauses goes.
With no index the query stays as it is. -/
theorem select_accounts (indices : List Index) (query : Query)
    (fit : ∀ index ∈ indices, index.attributes ≠ [] ∧ index.attributes.Nodup) :
    (indices = [] → query.select indices = .ok query) ∧
    (indices ≠ [] → ∃ (taken : List (Takeover indices)) (after : List QueryNode),
      query.select indices =
        .ok ⟨taken.reverse.map Takeover.node ++ after.filter hasClauses⟩ ∧
      taken.Pairwise (fun first second => first.position < second.position) ∧
      Accounts query.root (taken.flatMap Takeover.clauses) after) := by
  constructor
  · rintro rfl
    rfl
  · intro nonempty
    by_cases none : query.root = []
    · refine ⟨[], [], ?_, .nil, none ▸ .refl []⟩
      obtain ⟨root⟩ := query
      obtain rfl : root = [] := none
      simp [select]
    · have both : ¬ (indices.isEmpty || query.root.isEmpty) = true := by
        simp [nonempty, none]
      obtain ⟨taken, after, ran, order, -, accounts⟩ :=
        takeAll_accounts (covers_offerOf query.root) fit (show indices = [] ++ indices from rfl) []
          (named_offerOf query.root)
      refine ⟨taken, after, ?_, order, accounts⟩
      have taking : takeAll (offerOf query.root) 0 indices [] query.root = _ := ran
      rw [select, if_neg both, taking, List.append_nil]

/-- An index takes an equality over and the index behind it a bound; what neither took stays. -/
theorem two_lookups_in_front :
    let indices : List Index := [.hashed (.create ["a"]),
      .ordered ⟨["b"], .empty 3 1 (.empty 0), .empty⟩]
    let query : Query := ⟨[.field "a" [⟨.ne, .literal (.bool true)⟩, ⟨.eq, .literal .null⟩],
      .field "b" [⟨.gt, .literal (.string "x")⟩]]⟩
    let selected : List QueryNode :=
      [.lookup ⟨1, "b", .range ⟨some (.text "x"), none, false, true⟩⟩,
      .lookup ⟨0, "a", .exact .null⟩, .field "a" [⟨.ne, .literal (.bool true)⟩]]
    query.select indices = .ok ⟨selected⟩ ∧
    ∃ (taken : List (Takeover indices)) (after : List QueryNode),
      selected = taken.reverse.map Takeover.node ++ after.filter hasClauses ∧
      Accounts query.root (taken.flatMap Takeover.clauses) after := by
  intro indices query selected
  have fit : ∀ index ∈ indices, index.attributes ≠ [] ∧ index.attributes.Nodup := by
    refine List.forall_mem_cons.2 ⟨?_, List.forall_mem_singleton.2 ?_⟩
    · exact ⟨List.cons_ne_nil _ _, List.nodup_singleton _⟩
    · exact ⟨List.cons_ne_nil _ _, List.nodup_singleton _⟩
  have ran : query.select indices = .ok ⟨selected⟩ := rfl
  obtain ⟨taken, after, ran', -, accounts⟩ :=
    (select_accounts indices query fit).2 (List.cons_ne_nil _ _)
  rw [ran] at ran'
  exact ⟨ran, taken, after, congrArg Query.root (Except.ok.inj ran'), accounts⟩

/-- Without any index even a condition without clauses stays. -/
theorem condition_without_clauses_kept :
    let query : Query := ⟨[.field "a" []]⟩
    query.select [] = .ok query ∧
    ¬ ∃ (taken : List (Takeover [])) (after : List QueryNode),
      query.select [] = .ok ⟨taken.reverse.map Takeover.node ++ after.filter hasClauses⟩ := by
  refine ⟨rfl, ?_⟩
  rintro ⟨taken, after, ran⟩
  have root : [QueryNode.field "a" []] =
      taken.reverse.map Takeover.node ++ after.filter hasClauses :=
    congrArg Query.root (Except.ok.inj ran)
  have there : QueryNode.field "a" [] ∈
      taken.reverse.map Takeover.node ++ after.filter hasClauses :=
    root ▸ List.mem_cons_self
  obtain isLookup | kept := List.mem_append.1 there
  · obtain ⟨one, -, same⟩ := List.mem_map.1 isLookup
    cases same
  · exact absurd (List.mem_filter.1 kept).2 (by decide)

end Query

end Docstore
