import Docstore.Proofs.Query.TakingOver

set_option autoImplicit false

namespace Docstore

namespace IndexRef

/-- There is an index at the position that serves the lookup. -/
def Serves (indices : List Index) (ref : IndexRef) : Prop :=
  ∃ index, indices[ref.position]? = some index ∧ index.Serves ref.lookup

def meets (indices : List Index) (doc : Json) (ref : IndexRef) : Bool :=
  indices[ref.position]?.any fun index => index.meets doc ref.lookup

end IndexRef

namespace Query

open QueryNode

variable {indices : List Index} {offer : Offer} {root : List QueryNode}

theorem takeAll_spec {fits : Clause → Prop} {front rest : List Index}
    (split : indices = front ++ rest) (lookups : List QueryNode)
    (offered : Offered fits offer root) :
    (∃ refusal, takeAll offer front.length rest lookups root = .error refusal ∧
      ((∀ index ∈ indices, index.attributes.Nodup) → refusal ≠ .clauseOutOfRange)) ∨
    ∃ (refs : List IndexRef) (after : List QueryNode),
      takeAll offer front.length rest lookups root = .ok (refs.map .lookup ++ lookups, after) ∧
      Offered fits offer after ∧ (∀ ref ∈ refs, ref.Serves indices) ∧
      ((∀ index ∈ indices, index.attributes.Nodup) → (∀ clause, fits clause → clause.Fit) →
        ∀ doc, doc.Ordered → (∀ index ∈ indices, index.Plain doc) →
          allHold doc root = (refs.all (·.meets indices doc) && allHold doc after)) := by
  induction rest generalizing front lookups root with
  | nil =>
      exact .inr ⟨[], root, rfl, offered, (fun _ there => by cases there), fun _ _ _ _ _ => rfl⟩
  | cons index rest ih =>
      obtain ⟨here, split', length⟩ := getElem?_of_split split
      have member := List.mem_of_getElem? here
      have took : Takes fits offer index root (takeFor root offer index) := takeFor_takes offered
      rw [takeAll]
      generalize takeFor root offer index = outcome at took ⊢
      cases took with
      | @refused refusal other =>
          refine .inl ⟨refusal, by rw [error_bind], ?_⟩
          intro distinct
          exact other (distinct index member)
      | nothing =>
          rw [ok_bind, ← length]
          exact ih split' lookups offered
      | @taken lookup between serves offered' same =>
          rw [ok_bind]
          have later := ih split' (.lookup ⟨front.length, index.name, lookup⟩ :: lookups) offered'
          rw [length] at later
          obtain refused | ⟨refs, after, ran, offered'', each, same'⟩ := later
          · exact .inl refused
          · refine .inr ⟨refs ++ [⟨front.length, index.name, lookup⟩], after, ?_, offered'', ?_, ?_⟩
            · rw [List.map_append, List.append_assoc]
              exact ran
            · rw [List.forall_mem_append]
              exact ⟨each, List.forall_mem_singleton.2 ⟨index, here, serves⟩⟩
            · intro distinct fit doc ordered plain
              have meets : IndexRef.meets indices doc ⟨front.length, index.name, lookup⟩ =
                  index.meets doc lookup := by
                rw [IndexRef.meets, here]
                rfl
              rw [same (distinct index member) fit doc ordered (plain index member),
                same' distinct fit doc ordered plain, List.all_append, List.all_cons, List.all_nil,
                meets]
              ac_rfl

theorem residual_of_formed {fits : Clause → Prop} {node : QueryNode}
    (formed : node.Formed fun _ => True)
    (fit : ∀ path clauses, node = .field path clauses → ∀ clause ∈ clauses, fits clause) :
    node.Residual fits := by
  cases node with
  | field path clauses => exact fit path clauses rfl
  | group connective children => exact formed
  | lookup ref => exact formed.elim

theorem allHold_filter (root : List QueryNode) (doc : Json) :
    allHold doc (root.filter hasClauses) = allHold doc root := by
  rw [allHold_eq_all, allHold_eq_all, List.all_filter]
  refine List.all_congr rfl fun node => ?_
  cases node with
  | field path clauses =>
      cases clauses with
      | nil => rfl
      | cons clause rest => rfl
  | group connective children => rfl
  | lookup ref => rfl

theorem filter_hasClauses {fits : Clause → Prop} (fit : ∀ node ∈ root, node.Residual fits) :
    AllFormed (fun _ => True) (root.filter hasClauses) := by
  apply allFormed_iff.2
  intro node there
  obtain ⟨member, nonempty⟩ := List.mem_filter.1 there
  have fit := fit node member
  cases node with
  | field path clauses =>
      apply Clause.formed_any
      rintro rfl
      cases nonempty
  | group connective children => exact fit
  | lookup ref => exact fit

/-- Lookups and other nodes that stand for a query: indices serve the lookups, and the meaning of
the query is kept if no index repeats an attribute and the clauses fit. -/
structure Selected (indices : List Index) (query : Query) (refs : List IndexRef)
    (residual : List QueryNode) : Prop where
  formed : AllFormed (fun _ => True) residual
  serves : ∀ ref ∈ refs, ref.Serves indices
  means : (∀ index ∈ indices, index.attributes.Nodup) → query.Fit →
    ∀ doc, doc.Ordered → (∀ index ∈ indices, index.Plain doc) →
      query.holds doc = (refs.all (·.meets indices doc) && allHold doc residual)

theorem selected_self {query : Query} (formed : AllFormed (fun _ => True) query.root) :
    Selected indices query [] query.root where
  formed := formed
  serves _ there := by cases there
  means _ _ _ _ _ := rfl

/-- Selection puts lookups in front of a well-formed query. It fails only for an index that repeats
an attribute. -/
theorem select_spec (indices : List Index) {query : Query}
    (formed : AllFormed (fun _ => True) query.root) :
    (query.select indices = .error .clauseOutOfRange ∧
      ¬ ∀ index ∈ indices, index.attributes.Nodup) ∨
    ∃ (refs : List IndexRef) (residual : List QueryNode),
      query.select indices = .ok ⟨refs.map .lookup ++ residual⟩ ∧
      Selected indices query refs residual := by
  have self : Selected indices query [] query.root := selected_self formed
  unfold select
  split
  · exact .inr ⟨[], query.root, rfl, self⟩
  · have residual : ∀ node ∈ query.root,
        node.Residual fun clause => query.Fit → clause.Fit := by
      intro node there
      apply residual_of_formed (allFormed_iff.1 formed node there)
      rintro path clauses rfl clause inside fit
      exact fit path clauses there clause inside
    obtain ⟨refusal, ran, other⟩ | ⟨refs, after, ran, offered, each, meaning⟩ :=
      takeAll_spec (show indices = [] ++ indices from rfl) [] ⟨named_offerOf query.root, residual⟩
    · rw [show takeAll (offerOf query.root) 0 indices [] query.root = .error refusal from ran]
      cases refusal with
      | clauseOutOfRange => exact .inl ⟨rfl, fun distinct => other distinct rfl⟩
      | noAttributes => exact .inr ⟨[], query.root, rfl, self⟩
      | noNode => exact .inr ⟨[], query.root, rfl, self⟩
    · rw [show takeAll (offerOf query.root) 0 indices [] query.root = _ from ran]
      refine .inr ⟨refs, after.filter hasClauses, ?_, filter_hasClauses offered.fit, each, ?_⟩
      · rw [List.append_nil]
      · intro distinct fit doc ordered plain
        rw [allHold_filter, ← meaning distinct (fun clause fits => fits fit) doc ordered plain]
        rfl

theorem takeFor_congr {a b : Index} (same : a.shape = b.shape) (root : List QueryNode)
    (offer : Offer) : takeFor root offer a = takeFor root offer b := by
  have attributes := Index.attributes_of_shape same
  cases a with
  | ordered a =>
      cases b with
      | ordered b =>
          obtain ⟨names, tree, keyOf⟩ := a
          obtain ⟨names', tree', keyOf'⟩ := b
          obtain rfl : names = names' := attributes
          rfl
      | hashed b => cases congrArg Prod.fst same
  | hashed a =>
      cases b with
      | ordered b => cases congrArg Prod.fst same
      | hashed b =>
          obtain ⟨names, buckets, keyOf⟩ := a
          obtain ⟨names', buckets', keyOf'⟩ := b
          obtain rfl : names = names' := attributes
          rfl

theorem takeAll_congr {as bs : List Index} (same : as.map Index.shape = bs.map Index.shape)
    (offer : Offer) (position : Nat) (lookups root : List QueryNode) :
    takeAll offer position as lookups root = takeAll offer position bs lookups root := by
  induction as generalizing bs position lookups root with
  | nil =>
      obtain rfl := List.map_eq_nil_iff.1 same.symm
      rfl
  | cons a as ih =>
      cases bs with
      | nil => cases same
      | cons b bs =>
          obtain ⟨shape, others⟩ := List.cons.inj same
          have names : a.name = b.name := by
            have attributes := Index.attributes_of_shape shape
            cases a <;> cases b <;> exact congrArg Index.nameOf attributes
          rw [takeAll, takeAll, takeFor_congr shape, names]
          simp only [ih others]

theorem select_congr {as bs : List Index} (same : as.map Index.shape = bs.map Index.shape)
    (query : Query) : query.select as = query.select bs := by
  have empty : as.isEmpty = bs.isEmpty := by
    have lengths := congrArg List.length same
    rw [List.length_map, List.length_map] at lengths
    cases as <;> cases bs <;> first | rfl | cases lengths
  rw [select, select, empty, takeAll_congr same]

end Query

end Docstore
