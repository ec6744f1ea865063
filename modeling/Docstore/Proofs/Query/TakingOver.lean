import Docstore.Proofs.Index.Lookups
import Docstore.Proofs.Query.TakingOut

set_option autoImplicit false

namespace Docstore

/-- Clauses whose literals are told apart by their keys. -/
structure Clause.InScope (clause : Clause) : Prop where
  /-- Numbers inside the arrays and objects of equalities are below `2 ^ 53`. -/
  nested : ∀ value, clause.op = .eq → clause.operand = .literal value → value.SmallInside
  /-- No bound is the negative zero. -/
  bound : ∀ n, clause.op.shape = .bound → clause.operand = .literal (.number n) →
    n.isNegativeZero = false

def Query.InScope (query : Query) : Prop :=
  ∀ path clauses, .field path clauses ∈ query.root → ∀ clause ∈ clauses, clause.InScope

/-- No attribute of the index is the negative zero in the document. -/
def Index.Plain (index : Index) (doc : Json) : Prop :=
  ∀ path ∈ index.attributes, ∀ n, doc.lookup path = some (.number n) → n.isNegativeZero = false

/-- A clause with an operand in order, in scope. -/
structure Clause.Fit (clause : Clause) : Prop where
  ordered : clause.operand.Good Json.Ordered
  scope : clause.InScope

/-- Every clause of a root node has its operand in order and is in scope. -/
def Query.Fit (query : Query) : Prop :=
  ∀ path clauses, .field path clauses ∈ query.root → ∀ clause ∈ clauses, clause.Fit

theorem Query.fit_of_scope {query : Query}
    (literals : QueryNode.AllFormed Json.Ordered query.root) (scope : query.InScope) :
    query.Fit := by
  intro path clauses there clause inside
  have formed := QueryNode.allFormed_iff.1 literals _ there
  exact ⟨formed.2 clause inside, scope path clauses there clause inside⟩

/-- A condition with clauses that fit, perhaps none, or a well-formed group. -/
def QueryNode.Residual (fits : Clause → Prop) : QueryNode → Prop
  | .field _ clauses => ∀ clause ∈ clauses, fits clause
  | node => node.Formed fun _ => True

namespace Query

open QueryNode

/-- Nodes with conditions at the positions that are offered for their paths. -/
def Named (offer : Offer) (root : List QueryNode) : Prop :=
  ∀ path position, offer.positions.get? path = some position →
    ∃ clauses, root[position]? = some (.field path clauses)

/-- Nodes that fit, with conditions at the positions that are offered. -/
structure Offered (fits : Clause → Prop) (offer : Offer) (root : List QueryNode) : Prop where
  named : Named offer root
  fit : ∀ node ∈ root, node.Residual fits

variable {fits : Clause → Prop} {offer : Offer} {root after : List QueryNode} {index : Index}
  {path : String}

theorem thins_named (offer : Offer) : Thins (Named offer) := by
  intro root position path clauses slot named found other place offered
  have bound : position < root.length := (List.getElem?_eq_some_iff.1 found).1
  obtain ⟨present, found'⟩ := named other place offered
  by_cases same : position = place
  · subst same
    rw [found] at found'
    obtain ⟨rfl, rfl⟩ := QueryNode.field.inj (Option.some.inj found')
    exact ⟨_, List.getElem?_set_self bound⟩
  · exact ⟨present, by rw [List.getElem?_set_ne same, found']⟩

theorem thins_offered (fits : Clause → Prop) (offer : Offer) : Thins (Offered fits offer) := by
  intro root position path clauses slot offered found
  refine ⟨thins_named offer root position path clauses slot offered.named found,
    fun node there => ?_⟩
  obtain there | rfl := List.mem_or_eq_of_mem_set there
  · exact offered.fit node there
  · intro clause kept
    exact offered.fit _ (List.mem_of_getElem? found) clause (List.mem_of_mem_eraseIdx kept)

theorem Offered.fit_clause (offered : Offered fits offer root) {position : ClausePosition}
    {clause : Clause} (there : clauseAt root position = some (path, clause)) : fits clause := by
  obtain ⟨clauses, found, found'⟩ := clauseAt_eq_some.1 there
  exact offered.fit _ (List.mem_of_getElem? found) clause (List.mem_of_getElem? found')

theorem named_offerFrom {nodes front : List QueryNode} {position : Nat}
    (length : front.length = position) (named : Named offer (front ++ nodes)) :
    Named (offerFrom offer position nodes) (front ++ nodes) := by
  induction nodes generalizing front position offer with
  | nil => exact named
  | cons node rest ih =>
      have shifted : front ++ node :: rest = (front ++ [node]) ++ rest := by simp
      have length' : (front ++ [node]).length = position + 1 := by simp [length]
      rw [shifted] at named ⊢
      cases node with
      | field path clauses =>
          refine ih length' fun other place offered => ?_
          rw [show (offer.add position path clauses).positions =
            offer.positions.put path position from rfl, Table.get?_put] at offered
          by_cases same : path = other
          · rw [if_pos same] at offered
            rw [← Option.some.inj offered, ← same]
            exact ⟨clauses, by rw [← length]; simp⟩
          · rw [if_neg same] at offered
            exact named other place offered
      | group connective children => exact ih length' named
      | lookup ref => exact ih length' named

theorem named_offerOf (root : List QueryNode) : Named (offerOf root) root := by
  have first : Named ⟨Table.empty, [], []⟩ ([] ++ root) :=
    fun path position offered => by cases offered
  exact named_offerFrom rfl first

theorem nodeOn_spec (named : Named offer root) (path : String) :
    (nodeOn root offer path = .error .noNode ∧ offer.positions.get? path = none) ∨
    ∃ position clauses, nodeOn root offer path = .ok (position, clauses) ∧
      root[position]? = some (.field path clauses) := by
  unfold nodeOn
  cases place : offer.positions.get? path with
  | none => exact .inl ⟨rfl, rfl⟩
  | some position =>
      obtain ⟨clauses, found⟩ := named path position place
      exact .inr ⟨position, clauses, by simp only [found], found⟩

/-- An index refuses, or takes over nothing, or takes over a lookup that it serves. If it does not
repeat an attribute, no clause is missed, and if the clauses fit, the lookup asks what they ask. -/
inductive Takes (fits : Clause → Prop) (offer : Offer) (index : Index) (root : List QueryNode) :
    Except Refusal (Option (IndexLookup × List QueryNode)) → Prop
  | refused {refusal : Refusal}
      (other : index.attributes.Nodup → refusal ≠ .clauseOutOfRange) :
      Takes fits offer index root (.error refusal)
  | nothing : Takes fits offer index root (.ok none)
  | taken {lookup : IndexLookup} {after : List QueryNode} (serves : index.Serves lookup)
      (offered : Offered fits offer after)
      (same : index.attributes.Nodup → (∀ clause, fits clause → clause.Fit) →
        ∀ doc, doc.Ordered → index.Plain doc →
          allHold doc root = (index.meets doc lookup && allHold doc after)) :
      Takes fits offer index root (.ok (some (lookup, after)))

theorem firstExact_spec {clauses : List Clause} {position found : Nat} {value : Json}
    (first : firstExact clauses position = some (found, value)) :
    ∃ i, found = position + i ∧ clauses[i]? = some ⟨.eq, .literal value⟩ ∧
      Key.isExact value = true := by
  induction clauses generalizing position with
  | nil => cases first
  | cons clause rest ih =>
      have later (first : firstExact rest (position + 1) = some (found, value)) :
          ∃ i, found = position + i ∧ (clause :: rest)[i]? = some ⟨.eq, .literal value⟩ ∧
            Key.isExact value = true := by
        obtain ⟨i, rfl, there, exact⟩ := ih first
        exact ⟨i + 1, by omega, there, exact⟩
      unfold firstExact at first
      split at first
      · cases first
      · rename_i value' rest' same
        obtain ⟨rfl, rfl⟩ := List.cons.inj same
        split at first
        · rename_i exact
          obtain ⟨rfl, rfl⟩ := Prod.mk.inj (Option.some.inj first)
          exact ⟨0, rfl, rfl, exact⟩
        · exact later first
      · rename_i other rest' _ same
        obtain ⟨rfl, rfl⟩ := List.cons.inj same
        exact later first

/-- An equality on a path that an exact lookup can stand for. -/
structure Exact (root : List QueryNode) (path : String) (found : ClausePosition × Json) :
    Prop where
  clause : clauseAt root found.1 = some (path, ⟨.eq, .literal found.2⟩)
  exact : Key.isExact found.2 = true

def exactOn (root : List QueryNode) (offer : Offer) (path : String) :
    Option (ClausePosition × Json) :=
  match nodeOn root offer path with
  | .ok (position, clauses) =>
    (firstExact clauses 0).map fun found => ((position, found.1), found.2)
  | .error _ => none

theorem exact_of_exactOn (named : Named offer root) {found : ClausePosition × Json}
    (first : exactOn root offer path = some found) : Exact root path found := by
  unfold exactOn at first
  obtain ⟨missing, -⟩ | ⟨position, clauses, node, here⟩ := nodeOn_spec named path
  · rw [missing] at first
    cases first
  · rw [node] at first
    obtain ⟨⟨slot, value⟩, clause, rfl⟩ := Option.map_eq_some_iff.1 first
    obtain ⟨i, rfl, there, exact⟩ := firstExact_spec clause
    rw [Nat.zero_add]
    exact ⟨clauseAt_eq_some.2 ⟨clauses, here, there⟩, exact⟩

theorem exactClauses_spec (named : Named offer root) (paths : List String) :
    (exactClauses root offer paths = .error .noNode ∧
      ∃ path ∈ paths, offer.positions.get? path = none) ∨
    exactClauses root offer paths = .ok (paths.filterMap (exactOn root offer)) := by
  induction paths with
  | nil => exact .inr rfl
  | cons path rest ih =>
      obtain ⟨missing, absent⟩ | ⟨position, clauses, node, -⟩ := nodeOn_spec named path
      · exact .inl ⟨by rw [exactClauses, missing, error_bind], path, List.mem_cons_self, absent⟩
      · obtain ⟨missing, other, there, absent⟩ | ran := ih
        · exact .inl ⟨by simp only [exactClauses, node, ok_bind, missing, error_bind], other,
            List.mem_cons_of_mem _ there, absent⟩
        · right
          have here : exactOn root offer path =
              (firstExact clauses 0).map fun found => ((position, found.1), found.2) := by
            rw [exactOn, node]
          rw [exactClauses, node, ok_bind, List.filterMap_cons, here]
          simp only [ran, ok_bind]
          cases firstExact clauses 0 with
          | none => rfl
          | some clause => rfl

theorem asks_exact {paths : List String} {found : List (ClausePosition × Json)}
    (each : List.Forall₂ (Exact root) paths found) (doc : Json) :
    asks doc ((found.map Prod.fst).filterMap (clauseAt root)) = true ↔
      List.Forall₂ (fun present value => (present.getD .null).equal value = true)
        (paths.map doc.lookup) (found.map Prod.snd) := by
  induction each with
  | nil => exact ⟨fun _ => .nil, fun _ => rfl⟩
  | @cons path first paths others exact each ih =>
      rw [List.map_cons, List.map_cons, List.map_cons, List.forall₂_cons, ← ih,
        List.filterMap_cons, exact.clause]
      simp only [asks, List.all_cons, Bool.and_eq_true]
      rfl

theorem exact_of_mem {paths : List String} {found : List (ClausePosition × Json)}
    (each : List.Forall₂ (Exact root) paths found) :
    ∀ entry ∈ found, ∃ path, Exact root path entry := by
  induction each with
  | nil => exact fun entry there => (by cases there)
  | @cons path first paths others exact each ih => exact List.forall_mem_cons.2 ⟨⟨path, exact⟩, ih⟩

theorem placed_of_exact {paths : List String} {found : List (ClausePosition × Json)}
    (each : List.Forall₂ (Exact root) paths found) :
    ∀ position ∈ found.map Prod.fst, (clauseAt root position).isSome := by
  intro position there
  obtain ⟨entry, member, rfl⟩ := List.mem_map.1 there
  obtain ⟨path, exact⟩ := exact_of_mem each entry member
  rw [exact.clause]
  rfl

/-- Equalities on different paths are at different positions. -/
theorem positions_distinct {paths : List String} {found : List (ClausePosition × Json)}
    (each : List.Forall₂ (Exact root) paths found) (distinct : paths.Nodup) :
    (found.map Prod.fst).Nodup := by
  have named : (found.map Prod.fst).map (fun position =>
      (clauseAt root position).map Prod.fst) = paths.map some := by
    clear distinct
    induction each with
    | nil => rfl
    | @cons path first paths others exact each ih =>
        rw [List.map_cons, List.map_cons, List.map_cons, ih, exact.clause]
        rfl
  refine List.Nodup.of_map (fun position => (clauseAt root position).map Prod.fst) ?_
  rw [named]
  exact distinct.map (Option.some_injective _)

/-- Equalities on the attributes of an index ask what the exact lookup of their literals does. -/
theorem meets_exact (offered : Offered fits offer root) (fit : ∀ clause, fits clause → clause.Fit)
    {found : List (ClausePosition × Json)} (nonempty : index.attributes ≠ [])
    (each : List.Forall₂ (Exact root) index.attributes found) {doc : Json}
    (ordered : doc.Ordered) :
    asks doc ((found.map Prod.fst).filterMap (clauseAt root)) =
      index.meets doc (.exact (Key.ofOperands (found.map Prod.snd))) := by
  rw [Bool.eq_iff_iff, asks_exact each, Index.meets, IndexLookup.finds, beq_iff_eq]
  symm
  apply Key.ofValues_eq_iff_of_small
  · rw [List.length_map, List.length_map, each.length_eq]
  · intro empty
    have length := each.length_eq
    rw [List.map_eq_nil_iff.1 empty, List.length_nil] at length
    exact nonempty (List.length_eq_zero_iff.1 length)
  · intro value there
    obtain ⟨path, -, rfl⟩ := List.mem_map.1 there
    exact ordered.lookup path
  · intro value there
    obtain ⟨entry, member, rfl⟩ := List.mem_map.1 there
    obtain ⟨path, exact⟩ := exact_of_mem each entry member
    have fit := fit _ (offered.fit_clause exact.clause)
    exact ⟨fit.ordered, Json.small_of_exact exact.exact (fit.scope.nested _ rfl rfl)⟩

/-- An exact lookup is refused for want of attributes or of a node, or not every attribute has an
exact clause, or the clauses chosen for the attributes are taken out. -/
theorem takeExact_cases (named : Named offer root) (index : Index) :
    (∃ refusal, takeExact root offer index = .error refusal ∧ refusal ≠ .clauseOutOfRange ∧
      (index.attributes = [] ∨ ∃ path ∈ index.attributes, offer.positions.get? path = none)) ∨
    takeExact root offer index = .ok none ∨
    ∃ (choice : String → ClausePosition × Json) (found : List (ClausePosition × Json)),
      found = index.attributes.map choice ∧ index.attributes ≠ [] ∧
      List.Forall₂ (Exact root) index.attributes found ∧
      takeExact root offer index = (do
        let root ← takeOutAll root (found.map Prod.fst)
        return some (.exact (Key.ofOperands (found.map Prod.snd)), root)) := by
  unfold takeExact
  by_cases none : index.attributes.isEmpty = true
  · exact .inl ⟨.noAttributes, if_pos none, by simp, .inl (List.isEmpty_iff.1 none)⟩
  · rw [if_neg none]
    obtain ⟨refused, absent⟩ | ran := exactClauses_spec named index.attributes
    · exact .inl ⟨.noNode, by rw [refused, error_bind], by simp, .inr absent⟩
    · rw [ran, ok_bind]
      by_cases short : (index.attributes.filterMap (exactOn root offer)).length ≠
          index.attributes.length
      · exact .inr (.inl (if_pos short))
      · have every := List.filterMap_length_eq_length.1 (not_not.1 short)
        let choice := fun path => (exactOn root offer path).getD ((0, 0), .null)
        have chosen : ∀ path ∈ index.attributes, exactOn root offer path = some (choice path) := by
          intro path there
          obtain ⟨found, first⟩ := Option.isSome_iff_exists.1 (every path there)
          simp only [choice, first, Option.getD_some]
        have found : index.attributes.filterMap (exactOn root offer) =
          index.attributes.map choice :=
          List.filterMap_eq_map_iff_forall_eq_some.2 chosen
        refine .inr (.inr ⟨choice, _, rfl, fun empty => none (List.isEmpty_iff.2 empty), ?_, ?_⟩)
        · exact List.forall₂_map_right_iff.2 (List.forall₂_same.2 fun path there =>
            exact_of_exactOn named (chosen path there))
        · rw [if_neg short, found]

theorem takeExact_takes (offered : Offered fits offer root) :
    Takes fits offer index root (takeExact root offer index) := by
  obtain ⟨refusal, refused, other, -⟩ | nothing | ⟨-, found, -, nonempty, each, ran⟩ :=
    takeExact_cases offered.named index
  · exact refused ▸ .refused fun _ => other
  · exact nothing ▸ .nothing
  · have whole (distinct : index.attributes.Nodup) :=
      takeOutAll_spec (thins_offered fits offer) (positions_distinct each distinct) offered
        (placed_of_exact each)
    rw [ran]
    cases taken : takeOutAll root (found.map Prod.fst) with
    | error refusal =>
        apply Takes.refused
        intro distinct
        obtain ⟨after, ran', -⟩ := whole distinct
        rw [taken] at ran'
        cases ran'
    | ok after =>
        refine .taken trivial (takeOutAll_keeps (thins_offered fits offer) offered taken) ?_
        intro distinct fit doc ordered _
        obtain ⟨after', ran', -, accounts⟩ := whole distinct
        rw [taken] at ran'
        obtain rfl := Except.ok.inj ran'
        rw [accounts.allHold, meets_exact offered fit nonempty each ordered]

theorem firstBound_spec {strict inclusive : Operator} {clauses : List Clause} {position : Nat}
    {bound : Bound} (first : firstBound strict inclusive clauses position = some bound) :
    ∃ i op value, bound.clause = position + i ∧ clauses[i]? = some ⟨op, .literal value⟩ ∧
      boundKey? value = some bound.key ∧ (op = strict ∨ op = inclusive) ∧
      bound.inclusive = (op == inclusive) := by
  induction clauses generalizing position with
  | nil => cases first
  | cons clause rest ih =>
      have later (first : firstBound strict inclusive rest (position + 1) = some bound) :
          ∃ i op value, bound.clause = position + i ∧
            (clause :: rest)[i]? = some ⟨op, .literal value⟩ ∧
            boundKey? value = some bound.key ∧ (op = strict ∨ op = inclusive) ∧
            bound.inclusive = (op == inclusive) := by
        obtain ⟨i, op, value, place, there, key, fits, kind⟩ := ih first
        exact ⟨i + 1, op, value, by omega, there, key, fits, kind⟩
      obtain ⟨op, operand⟩ := clause
      unfold firstBound at first
      cases operand with
      | literal value =>
          cases key : boundKey? value with
          | none =>
              simp only [key] at first
              exact later first
          | some k =>
              simp only [key] at first
              by_cases fits : op = strict ∨ op = inclusive
              · rw [if_pos fits] at first
                obtain rfl := Option.some.inj first
                exact ⟨0, op, value, rfl, rfl, key, fits, rfl⟩
              · rw [if_neg fits] at first
                exact later first
      | items items => exact later first
      | area area => exact later first

/-- A bound on a path, by its clause among the nodes. -/
structure Bounds (root : List QueryNode) (path : String) (position : Nat)
    (strict inclusive : Operator) (bound : Bound) (op : Operator) (value : Json) : Prop where
  clause : clauseAt root (position, bound.clause) = some (path, ⟨op, .literal value⟩)
  key : boundKey? value = some bound.key
  fits : op = strict ∨ op = inclusive
  kind : bound.inclusive = (op == inclusive)

theorem bounds_of_first {strict inclusive : Operator} {clauses : List Clause} {position : Nat}
    (found : root[position]? = some (.field path clauses)) {bound : Bound}
    (first : firstBound strict inclusive clauses 0 = some bound) :
    ∃ op value, Bounds root path position strict inclusive bound op value := by
  obtain ⟨i, op, value, place, there, key, fits, kind⟩ := firstBound_spec first
  refine ⟨op, value, clauseAt_eq_some.2 ⟨clauses, found, ?_⟩, key, fits, kind⟩
  rw [place, Nat.zero_add]
  exact there

def clausesFor (root : List QueryNode) (position : Nat) (bound : Option Bound) :
    List (String × Clause) :=
  (bound.toList.map fun b => (position, b.clause)).filterMap (clauseAt root)

theorem clausesFor_some {strict inclusive op : Operator} {value : Json} {position : Nat}
    {bound : Bound} (bounds : Bounds root path position strict inclusive bound op value) :
    clausesFor root position (some bound) = [(path, ⟨op, .literal value⟩)] := by
  rw [clausesFor, Option.toList_some, List.map_singleton, List.filterMap_cons, bounds.clause]
  rfl

variable {doc : Json} {position : Nat} {clauses : List Clause}

/-- What a bound asks is that the key is of its kind and lies on its side, or equals it if it is
inclusive. -/
theorem asks_bound {strict inclusive : Operator} (side : Ordering)
    (offered : Offered fits offer root) (fit : ∀ clause, fits clause → clause.Fit)
    (found : root[position]? = some (.field path clauses)) {bound : Bound}
    (first : firstBound strict inclusive clauses 0 = some bound)
    (plain : ∀ n, doc.lookup path = some (.number n) → n.isNegativeZero = false)
    (reads : ∀ op, op = strict ∨ op = inclusive → op.shape = .bound ∧
      ∀ value, Clause.holds ⟨op, .literal value⟩ (doc.lookup path) =
        Clause.isOrdered (side :: if op == inclusive then [.eq] else [])
          ((doc.lookup path).getD .null) value) :
    asks doc (clausesFor root position (some bound)) =
      (bound.key.sameKind (Key.ofValue (doc.lookup path)) &&
        (side :: if bound.inclusive then [.eq] else []).contains
          (Ord.compare (Key.ofValue (doc.lookup path)) bound.key)) := by
  obtain ⟨op, value, bounds⟩ := bounds_of_first found first
  obtain ⟨shape, reads⟩ := reads op bounds.fits
  have scope := (fit _ (offered.fit_clause bounds.clause)).scope
  have order := Key.isOrdered_eq bounds.key plain fun m same =>
    scope.bound m shape (congrArg Operand.literal same)
  rw [clausesFor_some bounds]
  simp only [asks, List.all_cons, List.all_nil, Bool.and_true]
  rw [reads, order, bounds.kind]

/-- What a lower bound asks is that the key is of its kind and not below the range. -/
theorem asks_lower (range : KeyRange Key) (offered : Offered fits offer root)
    (fit : ∀ clause, fits clause → clause.Fit)
    (found : root[position]? = some (.field path clauses)) {low : Option Bound}
    (first : firstBound .gt .gte clauses 0 = low)
    (plain : ∀ n, doc.lookup path = some (.number n) → n.isNegativeZero = false)
    (min : range.min = low.map Bound.key) (kind : range.includeMin = low.all Bound.inclusive) :
    asks doc (clausesFor root position low) =
      (range.min.all (·.sameKind (Key.ofValue (doc.lookup path))) &&
        !range.isBelow (Key.ofValue (doc.lookup path))) := by
  cases low with
  | none =>
      rw [KeyRange.isBelow, min]
      rfl
  | some bound =>
      rw [asks_bound .gt offered fit found first plain, KeyRange.isBelow, min, kind]
      · simp only [Option.map_some, Option.all_some]
        cases Ord.compare (Key.ofValue (doc.lookup path)) bound.key <;>
          cases bound.inclusive <;> rfl
      · rintro op (rfl | rfl)
        · exact ⟨rfl, fun _ => rfl⟩
        · exact ⟨rfl, fun _ => rfl⟩

/-- What an upper bound asks is that the key is of its kind and not above the range. -/
theorem asks_upper (range : KeyRange Key) (offered : Offered fits offer root)
    (fit : ∀ clause, fits clause → clause.Fit)
    (found : root[position]? = some (.field path clauses)) {high : Option Bound}
    (first : firstBound .lt .lte clauses 0 = high)
    (plain : ∀ n, doc.lookup path = some (.number n) → n.isNegativeZero = false)
    (max : range.max = high.map Bound.key) (kind : range.includeMax = high.all Bound.inclusive) :
    asks doc (clausesFor root position high) =
      (range.max.all (·.sameKind (Key.ofValue (doc.lookup path))) &&
        !range.isAbove (Key.ofValue (doc.lookup path))) := by
  cases high with
  | none =>
      rw [KeyRange.isAbove, max]
      rfl
  | some bound =>
      rw [asks_bound .lt offered fit found first plain, KeyRange.isAbove, max, kind]
      · simp only [Option.map_some, Option.all_some]
        cases Ord.compare (Key.ofValue (doc.lookup path)) bound.key <;>
          cases bound.inclusive <;> rfl
      · rintro op (rfl | rfl)
        · exact ⟨rfl, fun _ => rfl⟩
        · exact ⟨rfl, fun _ => rfl⟩

/-- A lower and an upper bound are different clauses. -/
theorem bounds_distinct (found : root[position]? = some (.field path clauses))
    {low high : Option Bound} (lower : firstBound .gt .gte clauses 0 = low)
    (upper : firstBound .lt .lte clauses 0 = high) :
    ((low.toList ++ high.toList).map fun bound => (position, bound.clause)).Nodup ∧
      ∀ place ∈ (low.toList ++ high.toList).map fun bound => (position, bound.clause),
        (clauseAt root place).isSome := by
  have there : ∀ {strict inclusive : Operator} {bound : Bound},
      firstBound strict inclusive clauses 0 = some bound →
      (clauseAt root (position, bound.clause)).isSome := fun first => by
    obtain ⟨op, value, bounds⟩ := bounds_of_first found first
    rw [bounds.clause]
    rfl
  constructor
  · cases low with
    | none => cases high <;> simp
    | some l =>
        cases high with
        | none => simp
        | some h =>
            obtain ⟨op, value, bounds⟩ := bounds_of_first found lower
            obtain ⟨op', value', bounds'⟩ := bounds_of_first found upper
            have apart : l.clause ≠ h.clause := by
              intro same
              have clause := bounds.clause
              rw [same, bounds'.clause] at clause
              have ops : op' = op := congrArg (fun entry => entry.2.op) (Option.some.inj clause)
              obtain rfl | rfl := bounds.fits <;> obtain rfl | rfl := bounds'.fits <;> cases ops
            simpa using apart
  · intro place member
    obtain ⟨bound, inside, rfl⟩ := List.mem_map.1 member
    obtain inLow | inHigh := List.mem_append.1 inside
    · rw [Option.mem_toList.1 inLow] at lower
      exact there lower
    · rw [Option.mem_toList.1 inHigh] at upper
      exact there upper

/-- A range lookup is refused for want of a node, or there are no bounds or bounds of two kinds, or
the bounds found are taken out. -/
theorem takeRange_cases (named : Named offer root) (path : String) :
    (takeRange root offer path = .error .noNode ∧ offer.positions.get? path = none) ∨
    takeRange root offer path = .ok none ∨
    ∃ position clauses low high, root[position]? = some (.field path clauses) ∧
      firstBound .gt .gte clauses 0 = low ∧ firstBound .lt .lte clauses 0 = high ∧
      low.toList ++ high.toList ≠ [] ∧
      (low.all fun l => high.all fun h => l.key.sameKind h.key) = true ∧
      takeRange root offer path = (do
        let root ← takeOutAll root
          ((low.toList ++ high.toList).map fun bound => (position, bound.clause))
        return some (.range ⟨low.map Bound.key, high.map Bound.key, low.all Bound.inclusive,
          high.all Bound.inclusive⟩, root)) := by
  unfold takeRange
  obtain ⟨missing, absent⟩ | ⟨position, clauses, node, found⟩ := nodeOn_spec named path
  · exact .inl ⟨by rw [missing, error_bind], absent⟩
  · rw [node, ok_bind]
    obtain ⟨low, lower⟩ : ∃ low, firstBound .gt .gte clauses 0 = low := ⟨_, rfl⟩
    obtain ⟨high, upper⟩ : ∃ high, firstBound .lt .lte clauses 0 = high := ⟨_, rfl⟩
    simp only [lower, upper]
    by_cases bare : (low.toList ++ high.toList).isEmpty = true
    · exact .inr (.inl (if_pos bare))
    · rw [if_neg bare]
      by_cases kinds : (!(low.all fun l => high.all fun h => l.key.sameKind h.key)) = true
      · exact .inr (.inl (if_pos kinds))
      · exact .inr (.inr ⟨position, clauses, low, high, found, lower, upper,
          fun empty => bare (List.isEmpty_iff.2 empty), by simpa using kinds, if_neg kinds⟩)

theorem takeRange_takes (offered : Offered fits offer root) (ordered : index.kind = .tree)
    (single : index.attributes = [path]) :
    Takes fits offer index root (takeRange root offer path) := by
  obtain ⟨refused, -⟩ | nothing | ⟨position, clauses, low, high, found, lower, upper, -, -, ran⟩ :=
    takeRange_cases offered.named path
  · exact refused ▸ .refused fun _ => by simp
  · exact nothing ▸ .nothing
  · obtain ⟨distinct, there⟩ := bounds_distinct found lower upper
    obtain ⟨after, taken, offered', accounts⟩ :=
      takeOutAll_spec (thins_offered fits offer) distinct offered there
    rw [ran, taken, ok_bind]
    refine .taken (show index.kind = .tree from ordered) offered' ?_
    intro _ fit doc _ plain
    have plain := plain path (single ▸ List.mem_cons_self)
    have asked : asks doc (((low.toList ++ high.toList).map fun bound =>
        (position, bound.clause)).filterMap (clauseAt root)) =
          (asks doc (clausesFor root position low) &&
            asks doc (clausesFor root position high)) := by
      rw [List.map_append, List.filterMap_append, asks_append]
      rfl
    have key : Key.ofDocument doc index.attributes = Key.ofValue (doc.lookup path) := by
      rw [single]
      rfl
    generalize form : (⟨low.map Bound.key, high.map Bound.key, low.all Bound.inclusive,
      high.all Bound.inclusive⟩ : KeyRange Key) = range
    have below := asks_lower range offered fit found lower plain (form ▸ rfl) (form ▸ rfl)
    have above := asks_upper range offered fit found upper plain (form ▸ rfl) (form ▸ rfl)
    rw [accounts.allHold, asked, Index.meets, key, IndexLookup.finds, KeyRange.finds,
      KeyRange.admits, below, above]
    ac_rfl

/-- An index whose attributes all have equalities is asked for an exact lookup, an ordered index
over one attribute that has bounds for a range lookup, and any other index for nothing. -/
theorem takeFor_cases (root : List QueryNode) (offer : Offer) (index : Index) :
    ((∀ path ∈ index.attributes, path ∈ offer.exact) ∧
      takeFor root offer index = takeExact root offer index) ∨
    (∃ path ∈ offer.bounded, index.attributes = [path] ∧ index.kind = .tree ∧
      takeFor root offer index = takeRange root offer path) ∨
    takeFor root offer index = .ok none := by
  unfold takeFor
  by_cases exact : index.applies offer.exact false = true
  · rw [if_pos exact]
    refine .inl ⟨fun path there => ?_, rfl⟩
    simp only [Index.applies, Bool.false_and, Bool.not_false, Bool.true_and, List.all_eq_true,
      List.contains_iff_mem] at exact
    exact exact path there
  · rw [if_neg exact]
    by_cases bounded : index.applies offer.bounded true = true
    · rw [if_pos bounded]
      simp only [Index.applies, Bool.true_and, Bool.and_eq_true, List.all_eq_true,
        List.contains_iff_mem] at bounded
      obtain ⟨alone, offered⟩ := bounded
      obtain ⟨path, single⟩ : ∃ path, index.attributes = [path] := by
        apply List.length_eq_one_iff.1
        by_contra several
        simp [several] at alone
      have ordered : index.kind = .tree := by simpa [single] using alone
      refine .inr (.inl ⟨path, offered path (single ▸ List.mem_cons_self), single, ordered, ?_⟩)
      simp only [single]
    · exact .inr (.inr (if_neg bounded))

theorem takeFor_takes (offered : Offered fits offer root) :
    Takes fits offer index root (takeFor root offer index) := by
  obtain ⟨-, same⟩ | ⟨path, -, single, ordered, same⟩ | nothing := takeFor_cases root offer index
  · exact same ▸ takeExact_takes offered
  · exact same ▸ takeRange_takes offered ordered single
  · exact nothing ▸ .nothing

end Query

end Docstore
