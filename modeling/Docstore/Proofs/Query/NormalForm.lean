import Docstore.Proofs.Query.Parsed

set_option autoImplicit false

namespace Docstore

namespace QueryNode

mutual

/-- The node and what is inside it, a group before its children. -/
def within : QueryNode → List QueryNode
  | .field path clauses => [.field path clauses]
  | .group connective children => .group connective children :: withinAll children
  | .lookup ref => [.lookup ref]

def withinAll : List QueryNode → List QueryNode
  | [] => []
  | node :: rest => within node ++ withinAll rest

end

def path? : QueryNode → Option String
  | .field path _ => some path
  | _ => none

def paths (nodes : List QueryNode) : List String :=
  nodes.filterMap path?

def branches? : QueryNode → Option (List QueryNode)
  | .group .or children => some children
  | _ => none

def choices (nodes : List QueryNode) : List (List QueryNode) :=
  (withinAll nodes).filterMap branches?

/-- No conjunction inside nodes has two conditions on one path. -/
def Distinct (nodes : List QueryNode) : Prop :=
  ∀ children, .group .and children ∈ withinAll nodes → (paths children).Nodup

end QueryNode

namespace Predicate

mutual

/-- The items of each `$or` in a predicate, at any depth, an outer one before those inside it. -/
def choices : Json → List (List Json)
  | .object members => choicesOfMembers members
  | _ => []

def choicesOfMembers : List (String × Json) → List (List Json)
  | [] => []
  | (key, value) :: rest => choicesOfMember key value ++ choicesOfMembers rest

def choicesOfMember (key : String) : Json → List (List Json)
  | .array items =>
    if key = Connective.and.symbol then choicesOfItems items
    else if key = Connective.or.symbol then items :: choicesOfItems items
    else []
  | _ => []

def choicesOfItems : List Json → List (List Json)
  | [] => []
  | item :: rest => choices item ++ choicesOfItems rest

end

theorem choicesOfMember_path {key : String} (other : key ≠ Connective.and.symbol)
    (other' : key ≠ Connective.or.symbol) (value : Json) : choicesOfMember key value = [] := by
  cases value with
  | array items => rw [choicesOfMember, if_neg other, if_neg other']
  | _ => rfl

end Predicate

/-- What reading makes of a query. -/
structure Query.InNormalForm (query : Query) : Prop where
  /-- The root is a run of conditions and then a group, or none. -/
  order : ∃ conditions rest, query.root = conditions ++ rest ∧
    (∀ node ∈ conditions, ∃ path clauses, node = .field path clauses) ∧
    rest.length ≤ 1 ∧ ∀ node ∈ rest, ∃ connective children, node = .group connective children
  distinct : (QueryNode.paths query.root).Nodup
  distinct_within : QueryNode.Distinct query.root
  clauses : ∀ path clauses, .field path clauses ∈ QueryNode.withinAll query.root → clauses ≠ []
  children : ∀ connective children,
    .group connective children ∈ QueryNode.withinAll query.root → 2 ≤ children.length
  lookups : ∀ ref, .lookup ref ∉ QueryNode.withinAll query.root
  settled : QueryNode.normalizeAll query.root = query.root

namespace QueryNode

variable {good : Json → Prop} {node after : QueryNode} {nodes : List QueryNode}

theorem withinAll_eq_flatMap (nodes : List QueryNode) : withinAll nodes = nodes.flatMap within := by
  induction nodes with
  | nil => rfl
  | cons node rest ih => rw [withinAll, ih, List.flatMap_cons]

theorem withinAll_append (first second : List QueryNode) :
    withinAll (first ++ second) = withinAll first ++ withinAll second := by
  rw [withinAll_eq_flatMap, withinAll_eq_flatMap, withinAll_eq_flatMap, List.flatMap_append]

theorem choices_append (first second : List QueryNode) :
    choices (first ++ second) = choices first ++ choices second := by
  rw [choices, withinAll_append, List.filterMap_append]
  rfl

theorem choices_cons (node : QueryNode) (rest : List QueryNode) :
    choices (node :: rest) = choices [node] ++ choices rest :=
  choices_append [node] rest

theorem choices_singleton (node : QueryNode) :
    choices [node] = node.within.filterMap branches? := by
  rw [choices, withinAll, withinAll, List.append_nil]

theorem choices_and (children : List QueryNode) :
    choices [.group .and children] = choices children := by
  rw [choices_singleton]
  rfl

theorem choices_or (children : List QueryNode) :
    choices [.group .or children] = children :: choices children := by
  rw [choices_singleton]
  rfl

theorem distinct_append {first second : List QueryNode} :
    Distinct (first ++ second) ↔ Distinct first ∧ Distinct second := by
  simp only [Distinct, withinAll_append, List.mem_append, or_imp, forall_and]

theorem distinct_cons {rest : List QueryNode} :
    Distinct (node :: rest) ↔ Distinct [node] ∧ Distinct rest := by
  rw [← distinct_append]
  rfl

theorem distinct_and {children : List QueryNode} :
    Distinct [.group .and children] ↔ (paths children).Nodup ∧ Distinct children := by
  simp [Distinct, withinAll, within]

theorem distinct_or {children : List QueryNode} :
    Distinct [.group .or children] ↔ Distinct children := by
  simp [Distinct, withinAll, within]

mutual

/-- A property that the children of a node share with it is shared by all that is inside it. -/
theorem of_within {property : QueryNode → Prop}
    (inherited : ∀ connective children, property (.group connective children) →
      ∀ child ∈ children, property child) :
    ∀ {node : QueryNode}, property node → ∀ inner ∈ within node, property inner
  | .field path clauses, here, inner, there => List.mem_singleton.1 there ▸ here
  | .lookup ref, here, inner, there => List.mem_singleton.1 there ▸ here
  | .group connective children, here, inner, there => by
      obtain rfl | there := List.mem_cons.1 there
      · exact here
      · exact of_withinAll inherited (inherited connective children here) inner there

theorem of_withinAll {property : QueryNode → Prop}
    (inherited : ∀ connective children, property (.group connective children) →
      ∀ child ∈ children, property child) :
    ∀ {nodes : List QueryNode}, (∀ node ∈ nodes, property node) →
      ∀ inner ∈ withinAll nodes, property inner
  | [], _, inner, there => by cases there
  | node :: rest, each, inner, there => by
      obtain ⟨here, others⟩ := List.forall_mem_cons.1 each
      obtain there | there := List.mem_append.1 there
      · exact of_within inherited here inner there
      · exact of_withinAll inherited others inner there

end

theorem allNormal_iff : AllNormal nodes ↔ ∀ node ∈ nodes, node.Normal := by
  induction nodes with
  | nil => simp [AllNormal]
  | cons node rest ih => rw [AllNormal, ih, List.forall_mem_cons]

theorem formed_of_within (formed : AllFormed good nodes) :
    ∀ inner ∈ withinAll nodes, inner.Formed good :=
  of_withinAll (fun _ _ group => allFormed_iff.1 group.2) (allFormed_iff.1 formed)

theorem normal_of_within (normal : AllNormal nodes) : ∀ inner ∈ withinAll nodes, inner.Normal :=
  of_withinAll (fun _ _ group => allNormal_iff.1 group.2) (allNormal_iff.1 normal)

theorem normalizeAll_append (first second : List QueryNode) :
    normalizeAll (first ++ second) = normalizeAll first ++ normalizeAll second := by
  induction first with
  | nil => rfl
  | cons node rest ih =>
      rw [List.cons_append, normalizeAll, normalizeAll, ih]
      cases normalize? node <;> rfl

theorem normalize?_group {children : List QueryNode} (connective : Connective)
    (several : 2 ≤ (normalizeAll children).length) :
    normalize? (.group connective children) = some (.group connective (normalizeAll children)) := by
  rw [normalize?]
  match normalizeAll children, several with
  | first :: second :: rest, _ => rfl

mutual

theorem normalize?_of_normal : ∀ {node : QueryNode}, node.Normal → normalize? node = some node
  | .field path clauses, _ => rfl
  | .lookup ref, _ => rfl
  | .group connective children, normal => by
      have same := normalizeAll_of_normal (show AllNormal children from normal.2)
      rw [normalize?_group connective (by rw [same]; exact normal.1), same]

theorem normalizeAll_of_normal : ∀ {nodes : List QueryNode}, AllNormal nodes →
    normalizeAll nodes = nodes
  | [], _ => rfl
  | node :: rest, normal => by
      rw [normalizeAll, normalize?_of_normal normal.1,
        normalizeAll_of_normal (show AllNormal rest from normal.2)]

end

/-- A group alone gives way to what it has, or keeps two children at least. -/
theorem normalizeAll_group (connective : Connective) (children : List QueryNode) :
    (normalizeAll [.group connective children] = normalizeAll children ∧
      (normalizeAll children).length ≤ 1) ∨
    (normalizeAll [.group connective children] = [.group connective (normalizeAll children)] ∧
      2 ≤ (normalizeAll children).length) := by
  rw [normalizeAll, normalize?]
  match normalizeAll children with
  | [] => exact .inl ⟨rfl, Nat.zero_le 1⟩
  | [only] => exact .inl ⟨rfl, Nat.le_refl 1⟩
  | first :: second :: rest => exact .inr ⟨rfl, Nat.le_add_left 2 rest.length⟩

theorem distinct_normalizeAll_and {children : List QueryNode}
    (once : (paths (normalizeAll children)).Nodup) (distinct : Distinct (normalizeAll children)) :
    Distinct (normalizeAll [.group .and children]) := by
  obtain ⟨same, -⟩ | ⟨same, -⟩ := normalizeAll_group .and children
  · rw [same]
    exact distinct
  · rw [same, distinct_and]
    exact ⟨once, distinct⟩

/-- Nodes that ask what other nodes ask, each what the one at its position asks. -/
def EachSame (after before : List QueryNode) : Prop :=
  List.Forall₂ (fun node other => ∀ doc, node.holds doc = other.holds doc) after before

theorem normalizeAll_each (formed : AllFormed good nodes) :
    EachSame (normalizeAll nodes) nodes := by
  induction nodes with
  | nil => exact .nil
  | cons node rest ih =>
      obtain ⟨after, reduced, -, -, means⟩ := normalize_spec formed.1
      rw [normalizeAll, reduced]
      exact .cons means (ih formed.2)

mutual

/-- Alternatives of two branches at least stay alternatives, and keep their branches. -/
theorem choices_normalize? : ∀ {node after : QueryNode}, node.Formed good →
    (∀ branches ∈ choices [node], 2 ≤ branches.length) → normalize? node = some after →
    List.Forall₂ EachSame (choices [after]) (choices [node])
  | .field path clauses, _, _, _, reduced => by
      obtain rfl := Option.some.inj reduced
      exact .nil
  | .lookup ref, _, formed, _, _ => formed.elim
  | .group .or children, after, formed, several, reduced => by
      rw [choices_or, List.forall_mem_cons] at several
      have each := normalizeAll_each formed.2
      rw [normalize?_group .or (by rw [each.length_eq]; exact several.1)] at reduced
      obtain rfl := Option.some.inj reduced
      rw [choices_or, choices_or]
      exact .cons each (choices_normalizeAll (show AllFormed good children from formed.2) several.2)
  | .group .and children, after, formed, several, reduced => by
      rw [choices_and] at several
      have alone : normalizeAll [.group .and children] = [after] := by
        rw [normalizeAll, reduced]
        rfl
      have same : choices [after] = choices (normalizeAll children) := by
        rw [← alone]
        obtain ⟨same, -⟩ | ⟨same, -⟩ := normalizeAll_group .and children
        · rw [same]
        · rw [same, choices_and]
      rw [same, choices_and]
      exact choices_normalizeAll (show AllFormed good children from formed.2) several

theorem choices_normalizeAll : ∀ {nodes : List QueryNode}, AllFormed good nodes →
    (∀ branches ∈ choices nodes, 2 ≤ branches.length) →
    List.Forall₂ EachSame (choices (normalizeAll nodes)) (choices nodes)
  | [], _, _ => .nil
  | node :: rest, formed, several => by
      obtain ⟨after, reduced, -⟩ := normalize_spec formed.1
      rw [choices_cons, List.forall_mem_append] at several
      rw [normalizeAll, reduced, choices_cons node]
      dsimp only
      rw [choices_cons after]
      exact List.rel_append (choices_normalize? formed.1 several.1 reduced)
        (choices_normalizeAll (show AllFormed good rest from formed.2) several.2)

end

end QueryNode

namespace Conjunction

open QueryNode

variable {good : Json → Prop} {conjunction after : Conjunction}

/-- The nodes are conditions, one for each path and with a position kept for it, and the groups are
alternatives of two branches at least, in whose normal form no conjunction has a path twice. -/
structure Tidy (conjunction : Conjunction) : Prop where
  conditions : ∀ node ∈ conjunction.nodes, ∃ path clauses, node = .field path clauses
  once : (paths conjunction.nodes).Nodup
  kept : ∀ path ∈ paths conjunction.nodes, conjunction.positions.get? path ≠ none
  alternatives : ∀ node ∈ conjunction.alternatives, ∃ branches, node = .group .or branches ∧
    2 ≤ (normalizeAll branches).length ∧ Distinct (normalizeAll branches)

theorem tidy_empty : Tidy empty := by
  constructor
  · intro node there
    cases there
  · exact List.nodup_nil
  · intro path there
    cases there
  · intro node there
    cases there

/-- A node that takes the place of one on the same path leaves the paths as they are. -/
theorem paths_set {nodes : List QueryNode} {position : Nat} {path : String}
    {present : List Clause} (found : nodes[position]? = some (.field path present))
    (clauses : List Clause) :
    paths (nodes.set position (.field path clauses)) = paths nodes := by
  obtain ⟨bound, here⟩ := List.getElem?_eq_some_iff.1 found
  obtain ⟨front, behind, split, -, changed⟩ : ∃ front behind,
      nodes = front ++ nodes[position] :: behind ∧ front.length = position ∧
        nodes.set position (.field path clauses) = front ++ .field path clauses :: behind :=
    List.exists_of_set bound
  rw [here] at split
  rw [changed, split]
  simp [paths, List.filterMap_append, path?]

/-- Clauses find the node of their path, or begin one for a path that has none. -/
theorem addClauses_tidy {path : String} {clauses : List Clause} (formed : conjunction.Formed good)
    (tidy : conjunction.Tidy) (done : conjunction.addClauses path clauses = .ok after) :
    after.Tidy ∧ after.alternatives = conjunction.alternatives := by
  unfold addClauses at done
  cases named : conjunction.positions.get? path with
  | some position =>
      obtain ⟨present, found⟩ := formed.placed path position named
      rw [named] at done
      dsimp only at done
      rw [found] at done
      obtain rfl := Except.ok.inj done
      have same := paths_set found (present ++ clauses)
      refine ⟨⟨?_, same ▸ tidy.once, same ▸ tidy.kept, tidy.alternatives⟩, rfl⟩
      intro node there
      obtain there | rfl := List.mem_or_eq_of_mem_set there
      · exact tidy.conditions node there
      · exact ⟨path, _, rfl⟩
  | none =>
      rw [named] at done
      obtain rfl := Except.ok.inj done
      have longer : paths (conjunction.nodes ++ [.field path clauses]) =
          paths conjunction.nodes ++ [path] := List.filterMap_append
      have new : path ∉ paths conjunction.nodes := fun there => tidy.kept path there named
      refine ⟨⟨?_, ?_, ?_, tidy.alternatives⟩, rfl⟩
      · intro node there
        obtain there | there := List.mem_append.1 there
        · exact tidy.conditions node there
        · exact ⟨path, clauses, List.mem_singleton.1 there⟩
      · rw [longer]
        exact tidy.once.append (List.nodup_singleton path) (List.disjoint_singleton.2 new)
      · intro other there
        rw [longer, List.mem_append, List.mem_singleton] at there
        rw [Table.get?_put]
        by_cases same : path = other
        · simp [same]
        · rw [if_neg same]
          exact tidy.kept other (there.resolve_right (Ne.symm same))

theorem normalizeAll_alternatives {nodes : List QueryNode}
    (each : ∀ node ∈ nodes, ∃ branches, node = .group .or branches ∧
      2 ≤ (normalizeAll branches).length ∧ Distinct (normalizeAll branches)) :
    paths (normalizeAll nodes) = [] ∧ Distinct (normalizeAll nodes) ∧
      ∀ node ∈ normalizeAll nodes, ∃ branches, node = .group .or branches := by
  induction nodes with
  | nil => exact ⟨rfl, by simp [Distinct, normalizeAll, withinAll], by simp [normalizeAll]⟩
  | cons node rest ih =>
      obtain ⟨⟨branches, rfl, several, distinct⟩, others⟩ := List.forall_mem_cons.1 each
      obtain ⟨bare, distinct', groups⟩ := ih others
      rw [normalizeAll, normalize?_group .or several]
      refine ⟨bare, distinct_cons.2 ⟨distinct_or.2 distinct, distinct'⟩, ?_⟩
      exact List.forall_mem_cons.2 ⟨⟨_, rfl⟩, groups⟩

/-- In normal form a conjunction is its conditions and then one group, or none. -/
theorem finish_normal (tidy : conjunction.Tidy) :
    ∃ rest, normalizeAll conjunction.finish = conjunction.nodes ++ rest ∧ rest.length ≤ 1 ∧
      (∀ node ∈ rest, ∃ connective children, node = .group connective children) ∧
      Distinct rest := by
  have stay : normalizeAll conjunction.nodes = conjunction.nodes := by
    apply normalizeAll_of_normal
    rw [allNormal_iff]
    intro node there
    obtain ⟨path, clauses, rfl⟩ := tidy.conditions node there
    trivial
  obtain ⟨bare, distinct, groups⟩ := normalizeAll_alternatives tidy.alternatives
  unfold finish
  split
  · exact ⟨[], by rw [stay, List.append_nil], Nat.zero_le 1, by simp, by simp [Distinct, withinAll]⟩
  · refine ⟨normalizeAll [.group .and conjunction.alternatives], by rw [normalizeAll_append, stay],
      ?_, ?_, distinct_normalizeAll_and (bare ▸ List.nodup_nil) distinct⟩
    · obtain ⟨same, few⟩ | ⟨same, -⟩ := normalizeAll_group .and conjunction.alternatives
      · rw [same]
        exact few
      · rw [same]
        exact Nat.le_refl 1
    · obtain ⟨same, -⟩ | ⟨same, -⟩ := normalizeAll_group .and conjunction.alternatives
      · rw [same]
        intro node there
        exact ⟨.or, groups node there⟩
      · rw [same, List.forall_mem_singleton]
        exact ⟨.and, _, rfl⟩

theorem finish_distinct (tidy : conjunction.Tidy) :
    (paths (normalizeAll conjunction.finish)).Nodup ∧
      Distinct (normalizeAll conjunction.finish) := by
  obtain ⟨rest, same, -, groups, distinct⟩ := finish_normal tidy
  have bare : paths rest = [] := by
    rw [paths, List.filterMap_eq_nil_iff]
    intro node there
    obtain ⟨connective, children, rfl⟩ := groups node there
    rfl
  rw [same]
  constructor
  · rw [paths, List.filterMap_append, ← paths, ← paths, bare, List.append_nil]
    exact tidy.once
  · refine distinct_append.2 ⟨?_, distinct⟩
    intro children there
    obtain ⟨node, here, inner⟩ :=
      List.mem_flatMap.1 (withinAll_eq_flatMap conjunction.nodes ▸ there)
    obtain ⟨path, clauses, rfl⟩ := tidy.conditions node here
    cases List.mem_singleton.1 inner

theorem choices_nodes (tidy : conjunction.Tidy) : choices conjunction.nodes = [] := by
  rw [choices, List.filterMap_eq_nil_iff]
  intro inner there
  obtain ⟨node, here, inner⟩ :=
    List.mem_flatMap.1 (withinAll_eq_flatMap conjunction.nodes ▸ there)
  obtain ⟨path, clauses, rfl⟩ := tidy.conditions node here
  rw [List.mem_singleton.1 inner]
  rfl

theorem choices_finish (tidy : conjunction.Tidy) :
    choices conjunction.finish = choices conjunction.alternatives := by
  unfold finish
  split
  · rename_i empty
    rw [choices_nodes tidy, List.isEmpty_iff.1 empty]
    rfl
  · rw [choices_append, choices_nodes tidy, choices_and, List.nil_append]

/-- Branches for items, two at least, each of which asks what its item asks. -/
def Offers (branches : List QueryNode) (items : List Json) : Prop :=
  2 ≤ branches.length ∧
    List.Forall₂ (fun node item => ∀ doc, node.holds doc = Predicate.satisfies doc item)
      branches items

/-- What reading does to a tidy conjunction: its alternatives are followed by those that are read,
and they offer what they are read from. -/
structure Reads (before after : Conjunction) (source : List (List Json)) : Prop where
  tidy : after.Tidy
  offered : ∃ added, choices after.alternatives = choices before.alternatives ++ added ∧
    List.Forall₂ Offers added source

variable {between : Conjunction} {source source' : List (List Json)}

theorem Reads.refl (tidy : conjunction.Tidy) : Reads conjunction conjunction [] where
  tidy := tidy
  offered := ⟨[], (List.append_nil _).symm, .nil⟩

theorem Reads.trans (first : Reads conjunction between source)
    (second : Reads between after source') : Reads conjunction after (source ++ source') where
  tidy := second.tidy
  offered := by
    obtain ⟨added, same, offers⟩ := first.offered
    obtain ⟨added', same', offers'⟩ := second.offered
    refine ⟨added ++ added', ?_, List.rel_append offers offers'⟩
    rw [same', same, List.append_assoc]

end Conjunction

open QueryNode Predicate Conjunction in
mutual

/-- A member leaves a conjunction tidy and adds its alternatives. -/
theorem addMember_reads (value : Json) {conjunction after : Conjunction} {key : String}
    (formed : conjunction.Formed fun _ => True) (tidy : conjunction.Tidy)
    (done : addMember conjunction key value = .ok after) :
    conjunction.Reads after (choicesOfMember key value) := by
  obtain ⟨items, same, named, several, each, added⟩ |
    ⟨items, branches, same, named, several, each, read, rfl⟩ |
    ⟨clauses, other, other', read, added⟩ := addMember_cases done
  · cases value with
    | array items' =>
        obtain rfl := Json.array.inj same
        rw [choicesOfMember, if_pos named]
        exact addItems_reads items' formed tidy each added
    | _ => cases same
  · cases value with
    | array items' =>
        obtain rfl := Json.array.inj same
        obtain ⟨offers, inside, distinct⟩ := branchesOf_reads items' each read
        obtain ⟨length, formed', -⟩ :=
          branchesOf_spec Json.inherited_any items' (fun _ _ => trivial) each read
        have several' : 2 ≤ branches.length := by omega
        subst named
        rw [choicesOfMember, if_neg (by decide), if_pos rfl]
        refine ⟨⟨tidy.conditions, tidy.once, tidy.kept, ?_⟩, choices [.group .or branches],
          choices_append _ _, ?_⟩
        · rw [List.forall_mem_append, List.forall_mem_singleton]
          have kept := (normalizeAll_each formed').length_eq
          exact ⟨tidy.alternatives, branches, rfl, by omega, distinct⟩
        · rw [choices_or]
          exact .cons ⟨several', offers⟩ inside
    | _ => cases same
  · obtain ⟨tidy', same⟩ := addClauses_tidy formed tidy added
    rw [choicesOfMember_path other other']
    exact ⟨tidy', [], by rw [same, List.append_nil], .nil⟩

theorem addMembers_reads (members : List (String × Json)) {conjunction after : Conjunction}
    (formed : conjunction.Formed fun _ => True) (tidy : conjunction.Tidy)
    (done : addMembers conjunction members = .ok after) :
    conjunction.Reads after (choicesOfMembers members) := by
  cases members with
  | nil =>
      obtain rfl := Except.ok.inj done
      exact .refl tidy
  | cons member rest =>
      obtain ⟨key, value⟩ := member
      obtain ⟨between, first, done⟩ := bind_eq_ok.1 done
      have formed' := (addMember_spec Json.inherited_any value trivial formed first).formed
      have reads := addMember_reads value formed tidy first
      exact reads.trans (addMembers_reads rest formed' reads.tidy done)

theorem addItems_reads (items : List Json) {conjunction after : Conjunction}
    (formed : conjunction.Formed fun _ => True) (tidy : conjunction.Tidy)
    (each : ∀ item ∈ items, GroupItem .and item) (done : addItems conjunction items = .ok after) :
    conjunction.Reads after (choicesOfItems items) := by
  cases items with
  | nil =>
      obtain rfl := Except.ok.inj done
      exact .refl tidy
  | cons item rest =>
      obtain ⟨⟨members, same, -, full⟩, each'⟩ := List.forall_mem_cons.1 each
      cases item with
      | object members' =>
          obtain rfl := Json.object.inj same
          obtain ⟨between, first, done⟩ := bind_eq_ok.1 done
          have formed' := (addMembers_spec Json.inherited_any members' (fun _ _ => trivial) formed
            full first).formed
          have reads := addMembers_reads members' formed tidy first
          exact reads.trans (addItems_reads rest formed' reads.tidy each' done)
      | _ => cases same

/-- The branches of an alternative offer its items, and the alternatives in them the items of those
inside. -/
theorem branchesOf_reads (items : List Json) {branches : List QueryNode}
    (each : ∀ item ∈ items, GroupItem .or item) (done : branchesOf items = .ok branches) :
    List.Forall₂ (fun node item => ∀ doc, node.holds doc = satisfies doc item) branches items ∧
      List.Forall₂ Offers (choices branches) (choicesOfItems items) ∧
      Distinct (normalizeAll branches) := by
  cases items with
  | nil =>
      obtain rfl := Except.ok.inj done
      exact ⟨.nil, .nil, by simp [Distinct, normalizeAll, withinAll]⟩
  | cons item rest =>
      obtain ⟨⟨members, same, -, full⟩, each'⟩ := List.forall_mem_cons.1 each
      cases item with
      | object members' =>
          obtain rfl := Json.object.inj same
          obtain ⟨conjunction, first, done⟩ := bind_eq_ok.1 done
          obtain ⟨others, read, same⟩ := bind_eq_ok.1 done
          obtain rfl := Except.ok.inj same
          have adds := addMembers_spec Json.inherited_any members' (fun _ _ => trivial)
            formed_empty full first
          have reads := addMembers_reads members' formed_empty tidy_empty first
          obtain ⟨added, gathered, offered⟩ := reads.offered
          obtain ⟨offers, inside, distinct⟩ := branchesOf_reads rest each' read
          have split : choices (.group .and conjunction.finish :: others) =
              added ++ choices others := by
            rw [choices_cons, choices_and, choices_finish reads.tidy, gathered]
            rfl
          refine ⟨.cons (fun doc => ?_) offers, split ▸ List.rel_append offered inside, ?_⟩
          · rw [QueryNode.holds, finish_holds, adds.holds]
            rfl
          · obtain ⟨once, distinct'⟩ := finish_distinct reads.tidy
            have first := distinct_normalizeAll_and once distinct'
            exact normalizeAll_append [.group .and conjunction.finish] others ▸
              distinct_append.2 ⟨first, distinct⟩
      | _ => cases same

end

namespace Query

/-- The query of a predicate is in normal form, and each alternative in it has for each item of the
`$or` that it is read from a branch that asks what the item asks. -/
theorem parse_in_normal_form {predicate : Json} {query : Query}
    (read : Query.parse predicate = .ok query) :
    query.InNormalForm ∧
      List.Forall₂ (List.Forall₂ fun node item => ∀ doc,
        node.holds doc = Predicate.satisfies doc item)
        (QueryNode.choices query.root) (Predicate.choices predicate) := by
  obtain ⟨formed, normal, -⟩ := parse_spec Json.inherited_any trivial read
  obtain ⟨members, conjunction, rfl, done, rfl⟩ := parse_eq_ok read
  obtain ⟨tidy, added, gathered, offered⟩ :=
    addMembers_reads members Conjunction.formed_empty Conjunction.tidy_empty done
  have formed' := (adds_to_empty Json.inherited_any (fun _ _ => trivial) done).1
  have offers : List.Forall₂ Conjunction.Offers (QueryNode.choices conjunction.finish)
      (Predicate.choicesOfMembers members) := by
    rw [Conjunction.choices_finish tidy, gathered]
    exact offered
  constructor
  · obtain ⟨rest, split, few, groups, -⟩ := Conjunction.finish_normal tidy
    obtain ⟨once, distinct⟩ := Conjunction.finish_distinct tidy
    exact {
      order := ⟨conjunction.nodes, rest, split, tidy.conditions, few, groups⟩
      distinct := once
      distinct_within := distinct
      clauses := fun path clauses there => (QueryNode.formed_of_within formed _ there).1
      children := fun connective children there => (QueryNode.normal_of_within normal _ there).1
      lookups := fun ref there => QueryNode.formed_of_within formed _ there
      settled := QueryNode.normalizeAll_of_normal normal }
  · obtain ⟨several, offers⟩ := List.forall₂_and_left _ _ |>.1 offers
    refine forall₂_compose
      (QueryNode.choices_normalizeAll (Conjunction.finish_formed formed') several) offers ?_
    intro after branches items same offers
    refine forall₂_compose same offers ?_
    intro node other item same asks doc
    rw [same, asks]

/-- A predicate with an `$or` inside an `$and` and another one behind it. -/
def twoChoices : Json :=
  let one := Json.ofInt 1
  let above := Json.object [("$gt", one)]
  .object [
    ("$and", .array [.object [("a", one)], .object [("$or", .array [.object [("b", one)],
      .object [("$and", .array [.object [("a", one)], .object [("a", above)]])]])]]),
    ("$or", .array [.object [("a", one), ("b", one)], .object [("b", above)]]),
    ("a", above)]

/-- Two alternatives of one conjunction come together behind its condition, in the order in which
they are read, and a branch with two conditions on one path has one in the end. -/
theorem two_choices_in_normal_form :
    let one := Operand.literal (Json.ofInt 1)
    let both := QueryNode.field "a" [⟨.eq, one⟩, ⟨.gt, one⟩]
    let query : Query := ⟨[both, .group .and [
      .group .or [.field "b" [⟨.eq, one⟩], both],
      .group .or [.group .and [.field "a" [⟨.eq, one⟩], .field "b" [⟨.eq, one⟩]],
        .field "b" [⟨.gt, one⟩]]]]⟩
    Query.parse twoChoices = .ok query ∧ query.InNormalForm ∧
      List.Forall₂ (List.Forall₂ fun node item => ∀ doc,
        node.holds doc = Predicate.satisfies doc item)
        (QueryNode.choices query.root) (Predicate.choices twoChoices) := by
  apply And.intro rfl
  exact parse_in_normal_form rfl

end Query
end Docstore
