import Docstore.Collection
import Docstore.Proofs.Query.Selected
import Docstore.Proofs.Query.Substituted

set_option autoImplicit false

namespace Docstore
namespace Query

open QueryNode

variable {indices : List Index} {query : Query} {root after after' : List QueryNode}
  {taken taken' : List (Substitution indices)} {lost : List (String × Clause)}

/-- Selection succeeds, and it takes out the clauses that its lookups stand for and no others, where
two clauses that read the same are two. -/
def Safe (indices : List Index) (query : Query) : Prop :=
  ∃ (taken : List (Substitution indices)) (after : List QueryNode),
    query.select indices = .ok ⟨taken.reverse.map Substitution.node ++ after.filter hasClauses⟩ ∧
    Accounts query.root (taken.flatMap Substitution.clauses) after

/-- After a safe selection every clause is asked, by a lookup or where it was. -/
theorem Safe.asked (safe : Safe indices query) :
    ∃ (taken : List (Substitution indices)) (residual : List QueryNode),
      query.select indices = .ok ⟨taken.reverse.map Substitution.node ++ residual⟩ ∧
      ∀ doc, query.holds doc =
        (asks doc (taken.flatMap Substitution.clauses) && allHold doc residual) := by
  obtain ⟨taken, after, ran, accounts⟩ := safe
  refine ⟨taken, _, ran, fun doc => ?_⟩
  rw [allHold_filter, ← accounts.allHold]
  rfl

theorem filter_hasClauses_self (formed : AllFormed (fun _ => True) root) :
    root.filter hasClauses = root := by
  refine List.filter_eq_self.2 fun node there => ?_
  have formed := allFormed_iff.1 formed node there
  cases node with
  | field path clauses =>
      obtain ⟨clause, rest, rfl⟩ := List.exists_cons_of_ne_nil formed.1
      rfl
  | group connective children => rfl
  | lookup ref => rfl

/-- Selection fails only for an index that is asked twice for an attribute, or else it puts lookups
in front. -/
theorem select_substitutes (formed : AllFormed (fun _ => True) query.root)
    (fit : ∀ index ∈ indices, index.attributes ≠ []) :
    (query.select indices = .error .clauseOutOfRange ∧
      ∃ index ∈ indices, AskedTwice query.root index) ∨
    ∃ (taken : List (Substitution indices)) (lost : List (String × Clause))
      (after : List QueryNode),
      query.select indices =
        .ok ⟨taken.reverse.map Substitution.node ++ after.filter hasClauses⟩ ∧
      Exchange query.root taken lost after := by
  unfold select
  split
  · refine .inr ⟨[], [], query.root, ?_, .nil, .refl query.root, rfl⟩
    rw [filter_hasClauses_self formed]
    rfl
  · obtain ⟨failed, cause⟩ | ⟨taken, lost, after, ran, -, exchange⟩ :=
      takeAll_substitutes (covers_offerOf query.root) fit (show indices = [] ++ indices from rfl)
        [] (named_offerOf query.root)
    · rw [show takeAll (offerOf query.root) 0 indices [] query.root = _ from failed]
      exact .inl ⟨rfl, cause⟩
    · rw [show takeAll (offerOf query.root) 0 indices [] query.root = _ from ran, List.append_nil]
      exact .inr ⟨taken, lost, after, rfl, exchange⟩

theorem clausesIn_filter (root : List QueryNode) :
    clausesIn (root.filter hasClauses) = clausesIn root := by
  induction root with
  | nil => rfl
  | cons node rest ih =>
      have split : clausesIn (node :: rest) = node.clauses ++ clausesIn rest := List.flatMap_cons
      rw [List.filter_cons, split, ← ih]
      split
      · exact List.flatMap_cons
      · rename_i empty
        have bare : node.clauses = [] := by
          cases node with
          | field path clauses =>
              cases clauses with
              | nil => rfl
              | cons clause rest => exact absurd rfl empty
          | group connective children => rfl
          | lookup ref => rfl
        rw [bare, List.nil_append]

theorem lookup_notMem_of_thinned (formed : AllFormed (fun _ => True) root)
    (thinned : List.Forall₂ Thinned root after) (ref : IndexRef) : .lookup ref ∉ after := by
  induction thinned with
  | nil => exact List.not_mem_nil
  | cons less _ ih =>
      intro there
      obtain rfl | there := List.mem_cons.1 there
      · cases less
        exact formed.1
      · exact ih formed.2 there

/-- The number of clauses that a lookup in one of some indices stands for. -/
def lookupSize (indices : List Index) (ref : IndexRef) : Nat :=
  (indices[ref.position]?).elim 0 ref.lookup.size

theorem length_clauses (taken : List (Substitution indices)) :
    (taken.flatMap Substitution.clauses).length =
      ((taken.map Substitution.ref).map (lookupSize indices)).sum := by
  have each : ∀ one : Substitution indices, one.clauses.length = lookupSize indices one.ref := by
    intro one
    rw [one.stands.length, lookupSize, Substitution.ref, one.there]
    rfl
  rw [List.length_flatMap, List.map_map]
  exact congrArg List.sum (List.map_congr_left fun one _ => each one)

/-- A selection reads as its lookups and the nodes behind them in one way. -/
theorem selection_injective (free : ∀ ref, .lookup ref ∉ after)
    (free' : ∀ ref, .lookup ref ∉ after')
    (same : taken.reverse.map Substitution.node ++ after.filter hasClauses =
      taken'.reverse.map Substitution.node ++ after'.filter hasClauses) :
    taken.map Substitution.ref = taken'.map Substitution.ref ∧
      after.filter hasClauses = after'.filter hasClauses := by
  have fronts : ∀ taken : List (Substitution indices), taken.reverse.map Substitution.node =
      (taken.map Substitution.ref).reverse.map .lookup := by
    intro taken
    rw [← List.map_reverse, List.map_map]
    rfl
  have read : ∀ (refs : List IndexRef) (after : List QueryNode), (∀ ref, .lookup ref ∉ after) →
      (refs.map QueryNode.lookup ++ after.filter hasClauses).filterMap lookup? = refs := by
    intro refs after free
    have behind : (after.filter hasClauses).filterMap lookup? = [] := by
      refine List.filterMap_eq_nil_iff.2 fun node there => ?_
      cases node with
      | field path clauses => rfl
      | group connective children => rfl
      | lookup ref => exact absurd (List.mem_filter.1 there).1 (free ref)
    rw [List.filterMap_append, behind, List.append_nil, List.filterMap_map]
    exact List.filterMap_some
  rw [fronts, fronts] at same
  have refs := congrArg (List.filterMap lookup?) same
  rw [read _ _ free, read _ _ free'] at refs
  rw [refs] at same
  exact ⟨List.reverse_inj.1 refs, List.append_cancel_left same⟩

/-- A selection is safe if no index with an exact lookup in it repeats an attribute, and only then.
-/
theorem safe_iff (formed : AllFormed (fun _ => True) query.root)
    (fit : ∀ index ∈ indices, index.attributes ≠ []) :
    Safe indices query ↔ ∃ selected, query.select indices = .ok selected ∧
      ∀ ref key, .lookup ref ∈ selected.root → ref.lookup = .exact key →
        ∀ index, indices[ref.position]? = some index → index.attributes.Nodup := by
  obtain ⟨failed, -⟩ | ⟨taken, lost, after, ran, -, accounts, surplus⟩ :=
    select_substitutes formed fit
  · constructor
    · rintro ⟨taken, after, ran, -⟩
      rw [failed] at ran
      cases ran
    · rintro ⟨selected, ran, -⟩
      rw [failed] at ran
      cases ran
  · have free := lookup_notMem_of_thinned formed accounts.thinned
    constructor
    · rintro ⟨taken', after', ran', accounts'⟩
      rw [ran] at ran'
      obtain ⟨refs, left⟩ := selection_injective free
        (lookup_notMem_of_thinned formed accounts'.thinned)
        (congrArg Query.root (Except.ok.inj ran'))
      -- as many clauses are left, and the same lookups stand for as many, so none is lost
      have count := accounts.clauses.length_eq.symm.trans accounts'.clauses.length_eq
      have clauses : clausesIn after = clausesIn after' := by
        rw [← clausesIn_filter, left, clausesIn_filter]
      rw [List.length_append, List.length_append, List.length_append, length_clauses, refs,
        ← length_clauses, clauses] at count
      have nothing : lost = [] := List.length_eq_zero_iff.1 (by omega)
      refine ⟨_, ran, fun ref key there exact index placed => ?_⟩
      obtain there | there := List.mem_append.1 there
      · obtain ⟨one, member, same⟩ := List.mem_map.1 there
        obtain rfl : one.ref = ref := QueryNode.lookup.inj same
        obtain rfl := Option.some.inj (one.there.symm.trans placed)
        exact (Substitution.lost_eq_nil_iff surplus).1 nothing one (List.mem_reverse.1 member) key
          exact
      · exact absurd (List.mem_filter.1 there).1 (free ref)
    · rintro ⟨selected, ran', distinct⟩
      rw [ran] at ran'
      obtain rfl := Except.ok.inj ran'
      obtain rfl : lost = [] := (Substitution.lost_eq_nil_iff surplus).2
        fun one member key exact => by
          have there : one.node ∈ taken.reverse.map Substitution.node :=
            List.mem_map_of_mem (List.mem_reverse.2 member)
          exact distinct one.ref key (List.mem_append_left _ there) exact one.index one.there
      rw [List.append_nil] at accounts
      exact ⟨taken, after, ran, accounts⟩

/-- A selection is safe if no index could be asked twice for an attribute. -/
theorem safe_of_not_askedTwice (formed : AllFormed (fun _ => True) query.root)
    (fit : ∀ index ∈ indices, index.attributes ≠ [])
    (never : ∀ index ∈ indices, ¬ AskedTwice query.root index) : Safe indices query := by
  obtain ⟨-, index, there, twice⟩ | ⟨taken, lost, after, ran, -, accounts, surplus⟩ :=
    select_substitutes formed fit
  · exact absurd twice (never index there)
  · have distinct : ∀ one ∈ taken, ∀ key, one.lookup = .exact key →
        one.index.attributes.Nodup := by
      intro one member key exact
      by_contra repeats
      have stands := one.stands
      rw [exact] at stands
      refine never one.index (List.mem_of_getElem? one.there) ⟨repeats, stands.hasExact ?_⟩
      intro entry there
      exact accounts.subset entry
        (.inl (List.mem_append_left _ (List.mem_flatMap.2 ⟨one, member, there⟩)))
    obtain rfl : lost = [] := (Substitution.lost_eq_nil_iff surplus).2 distinct
    rw [List.append_nil] at accounts
    exact ⟨taken, after, ran, accounts⟩

/-- For a query that a predicate states and indices that have attributes, selection either fails,
which takes an index that could be asked twice for an attribute, or it puts lookups in front, each
for the clauses that it stands for, and loses one clause for every time that an index with an exact
lookup repeats an attribute. So it is safe exactly if it succeeds without an exact lookup in such an
index, and always where no index could be asked twice. After a safe selection every clause is still
asked. -/
theorem selection_safe_unless_attribute_repeated {predicate : Json} {query : Query}
    (read : Query.parse predicate = .ok query) {indices : List Index}
    (fit : ∀ index ∈ indices, index.attributes ≠ []) :
    ((query.select indices = .error .clauseOutOfRange ∧
        ∃ index ∈ indices, AskedTwice query.root index) ∨
      ∃ (taken : List (Substitution indices)) (lost : List (String × Clause))
        (after : List QueryNode),
        query.select indices =
          .ok ⟨taken.reverse.map Substitution.node ++ after.filter hasClauses⟩ ∧
        Exchange query.root taken lost after) ∧
    (Safe indices query ↔ ∃ selected, query.select indices = .ok selected ∧
      ∀ ref key, .lookup ref ∈ selected.root → ref.lookup = .exact key →
        ∀ index, indices[ref.position]? = some index → index.attributes.Nodup) ∧
    ((∀ index ∈ indices, ¬ AskedTwice query.root index) → Safe indices query) ∧
    (Safe indices query → ∃ (taken : List (Substitution indices)) (residual : List QueryNode),
      query.select indices = .ok ⟨taken.reverse.map Substitution.node ++ residual⟩ ∧
      ∀ doc, query.holds doc =
        (asks doc (taken.flatMap Substitution.clauses) && allHold doc residual)) := by
  have formed := (parse_spec Json.inherited_any trivial read).1
  exact ⟨select_substitutes formed fit, safe_iff formed fit, safe_of_not_askedTwice formed fit,
    Safe.asked⟩

/-- An index that repeats an attribute does no harm where another of its attributes is not asked
for. -/
theorem repeated_attribute_not_asked :
    let predicate := Json.object [("a", .null), ("c", .string "x")]
    let indices : List Index := [.hashed (.create ["a", "b", "a"]), .hashed (.create ["c"])]
    ∃ query, Query.parse predicate = .ok query ∧ (∀ index ∈ indices, index.attributes ≠ []) ∧
      query.select indices = .ok ⟨[.lookup ⟨1, "c", .exact (.text "x")⟩,
        .field "a" [⟨.eq, .literal .null⟩]]⟩ ∧ Safe indices query := by
  intro predicate indices
  have read : Query.parse predicate = .ok ⟨[.field "a" [⟨.eq, .literal .null⟩],
      .field "c" [⟨.eq, .literal (.string "x")⟩]]⟩ := rfl
  have fit : ∀ index ∈ indices, index.attributes ≠ [] :=
    List.forall_mem_cons.2
      ⟨List.cons_ne_nil _ _, List.forall_mem_singleton.2 (List.cons_ne_nil _ _)⟩
  refine ⟨_, read, fit, rfl, (selection_safe_unless_attribute_repeated read fit).2.2.1 ?_⟩
  refine List.forall_mem_cons.2 ⟨?_, List.forall_mem_singleton.2 ?_⟩
  · rintro ⟨-, asked⟩
    obtain ⟨value, there, -⟩ := asked "b" (by decide)
    simp [clausesIn, clauses] at there
  · rintro ⟨repeats, -⟩
    exact repeats (List.nodup_singleton _)

/-- A hashed index over `["a", "a"]` is accepted. For `{"a": "x"}` selection takes out a clause that
is not there, and for `{"a": {"$eq": "x", "$gt": "y"}}` the bound goes although the lookup does not
stand for it. -/
theorem repeated_attribute_unsafe :
    let x := Json.string "x"
    let y := Json.string "y"
    let index := Index.hashed (.create ["a", "a"])
    let equality := Json.object [("a", x)]
    let bounded := Json.object [("a", .object [("$eq", x), ("$gt", y)])]
    (∃ empty after, Collection.create "people" Config.default = .ok empty ∧
      empty.ensureIndex ["a", "a"] .hash = (.ok "a_a", after) ∧ after.store.indices = [index]) ∧
    (∃ query, Query.parse equality = .ok query ∧
      query.select [index] = .error .clauseOutOfRange ∧ ¬ Safe [index] query) ∧
    ∃ query, Query.parse bounded = .ok query ∧ ("a", ⟨.gt, .literal y⟩) ∈ clausesIn query.root ∧
      query.select [index] = .ok ⟨[.lookup ⟨0, "a_a", .exact (Key.ofOperands [x, x])⟩]⟩ ∧
      ¬ Safe [index] query := by
  intro x y index equality bounded
  have fit : ∀ other ∈ [index], other.attributes ≠ [] :=
    List.forall_mem_singleton.2 (List.cons_ne_nil _ _)
  have read : Query.parse
        (.object [("a", .object [("$eq", .string "x"), ("$gt", .string "y")])]) =
      .ok ⟨[.field "a" [⟨.eq, .literal x⟩, ⟨.gt, .literal y⟩]]⟩ := rfl
  have formed := (parse_spec Json.inherited_any trivial read).1
  have fails : Query.select [index] ⟨[.field "a" [⟨.eq, .literal x⟩]]⟩ =
      .error .clauseOutOfRange := rfl
  have ran : Query.select [index] ⟨[.field "a" [⟨.eq, .literal x⟩, ⟨.gt, .literal y⟩]]⟩ =
      .ok ⟨[.lookup ⟨0, "a_a", .exact (Key.ofOperands [x, x])⟩]⟩ := rfl
  refine ⟨⟨_, _, rfl, rfl, rfl⟩, ⟨⟨[.field "a" [⟨.eq, .literal x⟩]]⟩, rfl, fails, ?_⟩,
    ⟨_, read, ?_, ran, ?_⟩⟩
  · rintro ⟨taken, after, ran, -⟩
    rw [fails] at ran
    cases ran
  · exact List.mem_cons_of_mem _ List.mem_cons_self
  · intro safe
    obtain ⟨selected, ran', distinct⟩ := (safe_iff formed fit).1 safe
    rw [ran] at ran'
    obtain rfl := Except.ok.inj ran'
    exact absurd (distinct _ _ List.mem_cons_self rfl index rfl) (by decide)

end Query

end Docstore
