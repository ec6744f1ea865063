import Docstore.Proofs.Query.NormalForm

set_option autoImplicit false

namespace Docstore

namespace QueryNode

variable {nodes : List QueryNode}

def isLeaf : QueryNode → Bool
  | .group _ _ => false
  | _ => true

/-- The conditions and lookups inside nodes, from left to right. -/
def leaves (nodes : List QueryNode) : List QueryNode :=
  (withinAll nodes).filter isLeaf

theorem leaves_append (first second : List QueryNode) :
    leaves (first ++ second) = leaves first ++ leaves second := by
  rw [leaves, withinAll_append, List.filter_append]
  rfl

theorem leaves_cons (node : QueryNode) (rest : List QueryNode) :
    leaves (node :: rest) = leaves [node] ++ leaves rest :=
  leaves_append [node] rest

theorem leaves_group (connective : Connective) (children : List QueryNode) :
    leaves [.group connective children] = leaves children := by
  rw [leaves, withinAll, withinAll, List.append_nil]
  rfl

theorem normalizeAll_cons (node : QueryNode) (rest : List QueryNode) :
    normalizeAll (node :: rest) = normalizeAll [node] ++ normalizeAll rest :=
  normalizeAll_append [node] rest

theorem allNormal_append {first second : List QueryNode} (normal : AllNormal first)
    (normal' : AllNormal second) : AllNormal (first ++ second) :=
  allNormal_iff.2 (List.forall_mem_append.2 ⟨allNormal_iff.1 normal, allNormal_iff.1 normal'⟩)

mutual

theorem normal_normalizeAll_singleton : ∀ node : QueryNode, AllNormal (normalizeAll [node])
  | .field path clauses => ⟨trivial, trivial⟩
  | .lookup ref => ⟨trivial, trivial⟩
  | .group connective children => by
      have below := normal_normalizeAll children
      obtain ⟨same, -⟩ | ⟨same, several⟩ := normalizeAll_group connective children
      · rw [same]
        exact below
      · rw [same]
        exact ⟨⟨several, below⟩, trivial⟩

theorem normal_normalizeAll : ∀ nodes : List QueryNode, AllNormal (normalizeAll nodes)
  | [] => trivial
  | node :: rest => by
      rw [normalizeAll_cons]
      exact allNormal_append (normal_normalizeAll_singleton node) (normal_normalizeAll rest)

end

mutual

theorem leaves_normalizeAll_singleton : ∀ node : QueryNode,
    leaves (normalizeAll [node]) = leaves [node]
  | .field path clauses => rfl
  | .lookup ref => rfl
  | .group connective children => by
      have below := leaves_normalizeAll children
      obtain ⟨same, -⟩ | ⟨same, -⟩ := normalizeAll_group connective children
      · rw [same, leaves_group, below]
      · rw [same, leaves_group, leaves_group, below]

theorem leaves_normalizeAll : ∀ nodes : List QueryNode, leaves (normalizeAll nodes) = leaves nodes
  | [] => rfl
  | node :: rest => by
      rw [normalizeAll_cons, leaves_append, leaves_normalizeAll_singleton node,
        leaves_normalizeAll rest, ← leaves_cons]

end

theorem anyHolds_eq_any (doc : Json) (nodes : List QueryNode) :
    anyHolds doc nodes = nodes.any (holds doc) := by
  induction nodes with
  | nil => rfl
  | cons node rest ih => rw [anyHolds, ih, List.any_cons]

theorem Same.append {after before after' before' : List QueryNode} (same : Same after before)
    (same' : Same after' before') : Same (after ++ after') (before ++ before') where
  length := by rw [List.length_append, List.length_append, same.length, same'.length]
  all doc := by rw [allHold_append, allHold_append, same.all, same'.all]
  any doc := by
    have first := same.any doc
    have second := same'.any doc
    rw [anyHolds_eq_any, anyHolds_eq_any] at first second
    rw [anyHolds_eq_any, anyHolds_eq_any, List.any_append, List.any_append, first, second]

theorem same_singleton {node other : QueryNode} (means : ∀ doc, holds doc node = holds doc other) :
    Same [node] [other] := by
  refine ⟨rfl, ?_, ?_⟩
  · intro doc
    rw [allHold, means]
    rfl
  · intro doc
    rw [anyHolds, means]
    rfl

/-- Every group inside nodes has a condition or a lookup below it. -/
def Peopled (nodes : List QueryNode) : Prop :=
  ∀ connective children, .group connective children ∈ withinAll nodes → leaves children ≠ []

theorem peopled_cons {node : QueryNode} {rest : List QueryNode} :
    Peopled (node :: rest) ↔ Peopled [node] ∧ Peopled rest := by
  simp only [Peopled, withinAll, List.append_nil, List.mem_append, or_imp, forall_and]

theorem peopled_group {connective : Connective} {children : List QueryNode} :
    Peopled [.group connective children] ↔ leaves children ≠ [] ∧ Peopled children := by
  simp only [Peopled, withinAll, within, List.append_nil, List.mem_cons, group.injEq, or_imp,
    forall_and]
  refine and_congr_left fun _ => ?_
  constructor
  · intro each
    exact each connective children ⟨rfl, rfl⟩
  · rintro some _ _ ⟨rfl, rfl⟩
    exact some

mutual

theorem same_normalizeAll_singleton : ∀ {node : QueryNode}, Peopled [node] →
    Same (normalizeAll [node]) [node]
  | .field path clauses, _ => same_singleton fun _ => rfl
  | .lookup ref, _ => same_singleton fun _ => rfl
  | .group connective children, peopled => by
      obtain ⟨nonempty, peopled'⟩ := peopled_group.1 peopled
      have below := same_normalizeAll peopled'
      obtain ⟨same, few⟩ | ⟨same, -⟩ := normalizeAll_group connective children
      · -- What is below the group is still there, so one node has taken its place.
        rw [← leaves_normalizeAll children] at nonempty
        obtain ⟨only, form⟩ : ∃ only, normalizeAll children = [only] := by
          apply List.length_eq_one_iff.1
          have full : normalizeAll children ≠ [] := by
            intro empty
            rw [empty] at nonempty
            exact nonempty rfl
          have positive := List.length_pos_iff.2 full
          omega
        rw [form] at below
        rw [same, form]
        apply same_singleton
        intro doc
        rw [← below.holds_group, holds_group_singleton]
      · rw [same]
        exact same_singleton (below.holds_group connective)

theorem same_normalizeAll : ∀ {nodes : List QueryNode}, Peopled nodes →
    Same (normalizeAll nodes) nodes
  | [], _ => ⟨rfl, fun _ => rfl, fun _ => rfl⟩
  | node :: rest, peopled => by
      obtain ⟨here, others⟩ := peopled_cons.1 peopled
      rw [normalizeAll_cons]
      exact (same_normalizeAll_singleton here).append (same_normalizeAll others)

end

/-- Bringing nodes to normal form a second time changes nothing, leaves no group with fewer than two
children at any depth, and keeps the conditions and lookups in their order. If every group has a
condition below it, then the nodes together ask what they asked before. -/
theorem normalization_settles (nodes : List QueryNode) :
    normalizeAll (normalizeAll nodes) = normalizeAll nodes ∧
    (∀ connective children, .group connective children ∈ withinAll (normalizeAll nodes) →
      2 ≤ children.length) ∧
    leaves (normalizeAll nodes) = leaves nodes ∧
    ((∀ connective children, .group connective children ∈ withinAll nodes →
        ∃ path clauses, .field path clauses ∈ withinAll children) →
      ∀ doc, allHold doc (normalizeAll nodes) = allHold doc nodes) := by
  have normal := normal_normalizeAll nodes
  refine ⟨normalizeAll_of_normal normal, ?_, leaves_normalizeAll nodes, ?_⟩
  · intro connective children there
    have group : Normal (.group connective children) := normal_of_within normal _ there
    exact group.1
  · intro conditions
    have peopled : Peopled nodes := by
      intro connective children there empty
      obtain ⟨path, clauses, inside⟩ := conditions connective children there
      have leaf : .field path clauses ∈ leaves children := List.mem_filter.2 ⟨inside, rfl⟩
      rw [empty] at leaf
      cases leaf
    exact (same_normalizeAll peopled).all

/-- A branch that is a group in a group comes out of both. -/
theorem nested_groups_settled :
    let one : Clause := ⟨.eq, .literal (Json.ofInt 1)⟩
    let nodes : List QueryNode :=
      [.group .or [.group .and [.group .or [.field "a" [one]]]], .field "b" [one]]
    (∀ connective children, .group connective children ∈ withinAll nodes →
        ∃ path clauses, .field path clauses ∈ withinAll children) ∧
      ∀ doc, allHold doc [.field "a" [one], .field "b" [one]] = allHold doc nodes := by
  intro one nodes
  have conditions : ∀ connective children, .group connective children ∈ withinAll nodes →
      ∃ path clauses, .field path clauses ∈ withinAll children := by
    intro connective children there
    refine ⟨"a", [one], ?_⟩
    simp only [nodes, withinAll, within, List.append_nil, List.mem_cons, List.mem_append,
      List.not_mem_nil, group.injEq, reduceCtorEq, or_false] at there
    obtain ⟨-, rfl⟩ | ⟨-, rfl⟩ | ⟨-, rfl⟩ := there <;> simp [withinAll, within]
  exact ⟨conditions, (normalization_settles nodes).2.2.2 conditions⟩

end QueryNode

end Docstore
