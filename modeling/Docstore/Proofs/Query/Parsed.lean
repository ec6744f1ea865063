import Docstore.Proofs.Fallible
import Docstore.Proofs.Json.Ordered
import Docstore.Query.Meaning

set_option autoImplicit false

namespace Docstore

namespace Json

/-- A property of values that passes on to what is inside them. -/
structure Inherited (good : Json → Prop) : Prop where
  items : ∀ items, good (.array items) → ∀ item ∈ items, good item
  members : ∀ members, good (.object members) → ∀ member ∈ members, good member.2

theorem inherited_any : Inherited fun _ => True := by
  constructor
  · intros
    trivial
  · intros
    trivial

theorem inherited_ordered : Inherited Ordered := by
  constructor
  · intro items ordered
    exact orderedItems_iff.1 ordered
  · intro members ordered
    exact orderedMembers_iff.1 ordered.2

end Json

variable {good : Json → Prop}

def Operand.Good (good : Json → Prop) : Operand → Prop
  | .literal value => good value
  | _ => True

/-- Clauses of a condition: one at least, with literals that have a property. -/
def Clause.Formed (good : Json → Prop) (clauses : List Clause) : Prop :=
  clauses ≠ [] ∧ ∀ clause ∈ clauses, clause.operand.Good good

theorem Clause.formed_any {clauses : List Clause} (nonempty : clauses ≠ []) :
    Clause.Formed (fun _ => True) clauses := by
  apply And.intro nonempty
  intro clause _
  cases clause.operand <;> trivial

namespace QueryNode

mutual

/-- Every condition inside the node has well-formed clauses, every group has a child, and there is
no lookup. -/
def Formed (good : Json → Prop) : QueryNode → Prop
  | .field _ clauses => Clause.Formed good clauses
  | .group _ children => children ≠ [] ∧ AllFormed good children
  | .lookup _ => False

def AllFormed (good : Json → Prop) : List QueryNode → Prop
  | [] => True
  | node :: rest => Formed good node ∧ AllFormed good rest

end

mutual

def Normal : QueryNode → Prop
  | .group _ children => 2 ≤ children.length ∧ AllNormal children
  | _ => True

def AllNormal : List QueryNode → Prop
  | [] => True
  | node :: rest => Normal node ∧ AllNormal rest

end

theorem allFormed_iff {nodes : List QueryNode} :
    AllFormed good nodes ↔ ∀ node ∈ nodes, node.Formed good := by
  induction nodes with
  | nil => simp [AllFormed]
  | cons node rest ih => rw [AllFormed, ih, List.forall_mem_cons]

theorem allFormed_append {first second : List QueryNode} :
    AllFormed good (first ++ second) ↔ AllFormed good first ∧ AllFormed good second := by
  rw [allFormed_iff, allFormed_iff, allFormed_iff, List.forall_mem_append]

theorem allHold_eq_all (doc : Json) (nodes : List QueryNode) :
    allHold doc nodes = nodes.all (holds doc) := by
  induction nodes with
  | nil => rfl
  | cons node rest ih => rw [allHold, ih, List.all_cons]

theorem allHold_append (doc : Json) (first second : List QueryNode) :
    allHold doc (first ++ second) = (allHold doc first && allHold doc second) := by
  rw [allHold_eq_all, allHold_eq_all, allHold_eq_all, List.all_append]

/-- Nodes that ask what other nodes ask, one for one. -/
structure Same (after before : List QueryNode) : Prop where
  length : after.length = before.length
  all : ∀ doc, allHold doc after = allHold doc before
  any : ∀ doc, anyHolds doc after = anyHolds doc before

theorem Same.holds_group {after before : List QueryNode} (same : Same after before)
    (connective : Connective) (doc : Json) :
    holds doc (.group connective after) = holds doc (.group connective before) := by
  cases connective with
  | and => exact same.all doc
  | or => exact same.any doc

theorem holds_group_singleton (connective : Connective) (only : QueryNode) (doc : Json) :
    holds doc (.group connective [only]) = holds doc only := by
  cases connective with
  | and => exact Bool.and_true _
  | or => exact Bool.or_false _

mutual

/-- A node with children in every group does not vanish, and it keeps its meaning. -/
theorem normalize_spec : ∀ {node : QueryNode}, node.Formed good →
    ∃ after, normalize? node = some after ∧ after.Formed good ∧ after.Normal ∧
      ∀ doc, after.holds doc = node.holds doc
  | .field path clauses, formed => ⟨_, rfl, formed, trivial, fun _ => rfl⟩
  | .lookup ref, formed => formed.elim
  | .group connective children, formed => by
      obtain ⟨formed', normal, same⟩ :=
        normalizeAll_spec (show AllFormed good children from formed.2)
      have nonempty : normalizeAll children ≠ [] := by
        intro empty
        apply formed.1
        apply List.length_eq_zero_iff.1
        rw [← same.length, empty]
        rfl
      have means := same.holds_group connective
      rw [normalize?]
      cases reduced : normalizeAll children with
      | nil => exact absurd reduced nonempty
      | cons first rest =>
          rw [reduced] at formed' normal means
          cases rest with
          | nil =>
              refine ⟨first, rfl, formed'.1, normal.1, ?_⟩
              intro doc
              rw [← means, holds_group_singleton]
          | cons second others =>
              exact ⟨_, rfl, ⟨List.cons_ne_nil _ _, formed'⟩,
                ⟨Nat.le_add_left 2 others.length, normal⟩, means⟩

theorem normalizeAll_spec : ∀ {nodes : List QueryNode}, AllFormed good nodes →
    AllFormed good (normalizeAll nodes) ∧ AllNormal (normalizeAll nodes) ∧
      Same (normalizeAll nodes) nodes
  | [], _ => ⟨trivial, trivial, rfl, fun _ => rfl, fun _ => rfl⟩
  | node :: rest, formed => by
      obtain ⟨after, reduced, formed', normal, means⟩ := normalize_spec formed.1
      obtain ⟨others, normal', same⟩ := normalizeAll_spec (show AllFormed good rest from formed.2)
      rw [normalizeAll, reduced]
      refine ⟨⟨formed', others⟩, ⟨normal, normal'⟩, ?_, ?_, ?_⟩
      · rw [List.length_cons, List.length_cons, same.length]
      · intro doc
        rw [allHold, allHold, means, same.all]
      · intro doc
        rw [anyHolds, anyHolds, means, same.any]

end

end QueryNode

/-- An operand is read off a value as the operator takes it. -/
theorem operandOf_spec {path : String} {op : Operator} {value : Json} {operand : Operand}
    (fit : good value) (read : operandOf path op value = .ok operand) :
    operand.Good good ∧ Predicate.operand? op value = some operand := by
  unfold operandOf at read
  split at read
  · rename_i shape
    split at read
    · obtain rfl := Except.ok.inj read
      exact ⟨trivial, by rw [Predicate.operand?, shape]; rfl⟩
    · cases read
  · rename_i shape
    split at read
    · rename_i area found
      obtain rfl := Except.ok.inj read
      exact ⟨trivial, by simp only [Predicate.operand?, shape, found, Option.map_some]⟩
    · cases read
  · rename_i shape
    split at read
    · cases read
    · split at read
      · cases read
      · obtain rfl := Except.ok.inj read
        exact ⟨fit, by rw [Predicate.operand?, shape]⟩
  · rename_i shape
    obtain rfl := Except.ok.inj read
    exact ⟨fit, by rw [Predicate.operand?, shape]⟩

theorem clauseOf_spec {path symbol : String} {value : Json} {clause : Clause} (fit : good value)
    (read : clauseOf path symbol value = .ok clause) :
    clause.operand.Good good ∧
      ∀ found, clause.holds found = Predicate.operatorHolds found symbol value := by
  unfold clauseOf at read
  split at read
  · rename_i op named
    obtain ⟨operand, read', same⟩ := bind_eq_ok.1 read
    obtain rfl := Except.ok.inj same
    obtain ⟨fit', taken⟩ := operandOf_spec fit read'
    refine ⟨fit', ?_⟩
    intro found
    simp only [Predicate.operatorHolds, named, taken, Option.any_some]
    rfl
  · split at read
    · cases read
    · cases read

theorem mapM_clauseOf {path : String} {members : List (String × Json)} {clauses : List Clause}
    (fit : ∀ member ∈ members, good member.2)
    (read : members.mapM (fun member => clauseOf path member.1 member.2) = .ok clauses) :
    clauses.length = members.length ∧ (∀ clause ∈ clauses, clause.operand.Good good) ∧
      ∀ found, clauses.all (·.holds found) =
        members.all fun member => Predicate.operatorHolds found member.1 member.2 := by
  induction members generalizing clauses with
  | nil =>
      obtain rfl := Except.ok.inj read
      exact ⟨rfl, fun _ there => (by cases there), fun _ => rfl⟩
  | cons member rest ih =>
      rw [List.mapM_cons] at read
      obtain ⟨clause, first, others⟩ := bind_eq_ok.1 read
      obtain ⟨following, read', same⟩ := bind_eq_ok.1 others
      obtain rfl := Except.ok.inj same
      obtain ⟨here, behind⟩ := List.forall_mem_cons.1 fit
      obtain ⟨length, each, means⟩ := ih behind read'
      obtain ⟨fit', means'⟩ := clauseOf_spec here first
      refine ⟨congrArg Nat.succ length, List.forall_mem_cons.2 ⟨fit', each⟩, ?_⟩
      intro found
      rw [List.all_cons, List.all_cons, means, means']

/-- A value gives its path well-formed clauses that ask what the value asks. -/
theorem clausesOf_spec (inherited : Json.Inherited good) {path : String} {value : Json}
    {clauses : List Clause} (fit : good value) (read : clausesOf path value = .ok clauses) :
    Clause.Formed good clauses ∧
      ∀ found, clauses.all (·.holds found) = Predicate.conditionHolds found value := by
  have equality : Clause.Formed good [⟨.eq, .literal value⟩] :=
    ⟨List.cons_ne_nil _ _, List.forall_mem_singleton.2 fit⟩
  have single : ∀ found, List.all [⟨.eq, .literal value⟩] (Clause.holds · found) =
      Clause.evaluate .eq found (.literal value) := by
    intro found
    rw [List.all_cons, List.all_nil, Bool.and_true]
    rfl
  unfold clausesOf at read
  split at read
  · rename_i members
    split at read
    · rename_i any
      split at read
      · obtain ⟨length, each, means⟩ := mapM_clauseOf (inherited.members members fit) read
        refine ⟨⟨?_, each⟩, ?_⟩
        · intro empty
          rw [empty] at length
          rw [List.length_eq_zero_iff.1 length.symm] at any
          cases any
        · intro found
          rw [means, Predicate.conditionHolds]
          simp only [any, if_true]
      · cases read
    · rename_i plain
      obtain rfl := Except.ok.inj read
      refine ⟨equality, ?_⟩
      intro found
      rw [single, Predicate.conditionHolds]
      simp only [if_neg plain]
  · rename_i other
    obtain rfl := Except.ok.inj read
    refine ⟨equality, ?_⟩
    intro found
    rw [single]
    cases value with
    | object members => exact absurd rfl (other members)
    | _ => rfl

/-- An item of a group: an object that is not empty and does not have the group as a member. -/
def GroupItem (connective : Connective) (item : Json) : Prop :=
  ∃ members, item = .object members ∧ Members.contains connective.symbol members = false ∧
    members ≠ []

theorem checkGroupItem_eq_ok {connective : Connective} {item : Json} :
    checkGroupItem connective item = .ok () ↔ GroupItem connective item := by
  constructor
  · intro checked
    unfold checkGroupItem at checked
    split at checked
    · rename_i members
      split at checked
      · cases checked
      · rename_i absent
        split at checked
        · cases checked
        · rename_i full
          refine ⟨members, rfl, by simpa using absent, ?_⟩
          rintro rfl
          exact full rfl
    · cases checked
  · rintro ⟨members, rfl, absent, full⟩
    have nonempty : members.isEmpty = false := by simpa using full
    simp only [checkGroupItem, absent, nonempty, Bool.false_eq_true, if_false]

theorem checkGroup_eq_ok {connective : Connective} {value : Json} :
    checkGroup connective value = .ok () ↔
      ∃ items, value = .array items ∧ 2 ≤ items.length ∧
        ∀ item ∈ items, GroupItem connective item := by
  unfold checkGroup
  cases value with
  | array items =>
      by_cases short : items.length < 2
      · simp only [if_pos short, reduceCtorEq, false_iff]
        rintro ⟨items', same, long, -⟩
        obtain rfl := Json.array.inj same
        omega
      · have long : 2 ≤ items.length := by omega
        simp only [if_neg short, forM_eq_ok, checkGroupItem_eq_ok, Json.array.injEq,
          exists_eq_left', long, true_and]
  | _ => simp

namespace Conjunction

open QueryNode

def holds (conjunction : Conjunction) (doc : Json) : Bool :=
  allHold doc conjunction.nodes && allHold doc conjunction.alternatives

/-- The nodes and the groups of a conjunction are well formed, and every path has its condition at
the position kept for it. -/
structure Formed (good : Json → Prop) (conjunction : Conjunction) : Prop where
  nodes : AllFormed good conjunction.nodes
  alternatives : AllFormed good conjunction.alternatives
  placed : ∀ path position, conjunction.positions.get? path = some position →
    ∃ clauses, conjunction.nodes[position]? = some (.field path clauses)

/-- What adding to a conjunction does: it then asks something more. -/
structure Adds (good : Json → Prop) (before after : Conjunction) (asked : Json → Bool) : Prop where
  formed : after.Formed good
  nonempty : after.finish ≠ []
  holds : ∀ doc, after.holds doc = (before.holds doc && asked doc)

variable {conjunction after : Conjunction}

theorem formed_empty : Formed good empty where
  nodes := trivial
  alternatives := trivial
  placed path position found := by cases found

theorem finish_ne_nil (nonempty : conjunction.nodes ≠ [] ∨ conjunction.alternatives ≠ []) :
    conjunction.finish ≠ [] := by
  unfold finish
  split
  · rename_i empty
    exact nonempty.resolve_right fun there => there (List.isEmpty_iff.1 empty)
  · simp

theorem finish_formed (formed : conjunction.Formed good) : AllFormed good conjunction.finish := by
  unfold finish
  split
  · exact formed.nodes
  · rename_i nonempty
    refine allFormed_append.2 ⟨formed.nodes, ⟨?_, formed.alternatives⟩, trivial⟩
    intro empty
    exact nonempty (List.isEmpty_iff.2 empty)

theorem finish_holds (conjunction : Conjunction) (doc : Json) :
    allHold doc conjunction.finish = conjunction.holds doc := by
  unfold finish holds
  split
  · rename_i empty
    rw [List.isEmpty_iff.1 empty, allHold, Bool.and_true]
  · rw [allHold_append, allHold, QueryNode.holds, allHold, Bool.and_true]

/-- Clauses join those that their path has already. -/
theorem merge_adds {path : String} {present clauses : List Clause} {position : Nat}
    (formed : conjunction.Formed good) (added : Clause.Formed good clauses)
    (found : conjunction.nodes[position]? = some (.field path present)) :
    Adds good conjunction { conjunction with
      nodes := conjunction.nodes.set position (.field path (present ++ clauses)) }
      fun doc => clauses.all (·.holds (doc.lookup path)) := by
  obtain ⟨bound, here⟩ := List.getElem?_eq_some_iff.1 found
  refine ⟨⟨allFormed_iff.2 ?_, formed.alternatives, ?_⟩, ?_, ?_⟩
  · intro node there
    obtain there | rfl := List.mem_or_eq_of_mem_set there
    · exact allFormed_iff.1 formed.nodes node there
    · have old : Clause.Formed good present :=
        allFormed_iff.1 formed.nodes _ (List.mem_of_getElem? found)
      refine ⟨?_, List.forall_mem_append.2 ⟨old.2, added.2⟩⟩
      intro empty
      exact old.1 (List.append_eq_nil_iff.1 empty).1
  · intro other place named
    obtain ⟨others, found'⟩ := formed.placed other place named
    by_cases same : position = place
    · subst same
      rw [found] at found'
      obtain ⟨rfl, rfl⟩ := QueryNode.field.inj (Option.some.inj found')
      exact ⟨_, List.getElem?_set_self bound⟩
    · exact ⟨others, by rw [List.getElem?_set_ne same, found']⟩
  · apply finish_ne_nil
    left
    intro empty
    have length := congrArg List.length empty
    rw [List.length_set, List.length_nil] at length
    omega
  · intro doc
    obtain ⟨front, behind, split, -, changed⟩ : ∃ front behind,
        conjunction.nodes = front ++ conjunction.nodes[position] :: behind ∧
          front.length = position ∧
          conjunction.nodes.set position (.field path (present ++ clauses)) =
            front ++ .field path (present ++ clauses) :: behind := List.exists_of_set bound
    rw [here] at split
    simp only [holds, changed]
    rw [split]
    simp only [allHold_append, allHold, QueryNode.holds, List.all_append]
    ac_rfl

/-- Clauses on a new path follow all other nodes. -/
theorem append_adds (path : String) {clauses : List Clause} (formed : conjunction.Formed good)
    (added : Clause.Formed good clauses) :
    Adds good conjunction { conjunction with
      nodes := conjunction.nodes ++ [.field path clauses]
      positions := conjunction.positions.put path conjunction.nodes.length }
      fun doc => clauses.all (·.holds (doc.lookup path)) := by
  refine ⟨⟨allFormed_append.2 ⟨formed.nodes, added, trivial⟩, formed.alternatives, ?_⟩, ?_, ?_⟩
  · intro other place named
    rw [Table.get?_put] at named
    by_cases same : path = other
    · rw [if_pos same] at named
      obtain rfl := Option.some.inj named
      exact ⟨clauses, by rw [← same]; simp⟩
    · rw [if_neg same] at named
      obtain ⟨others, found⟩ := formed.placed other place named
      have bound := (List.getElem?_eq_some_iff.1 found).1
      exact ⟨others, by rw [List.getElem?_append_left bound, found]⟩
  · apply finish_ne_nil
    left
    simp
  · intro doc
    simp only [holds, allHold_append, allHold, QueryNode.holds, Bool.and_true]
    ac_rfl

theorem addClauses_spec {path : String} {clauses : List Clause} (formed : conjunction.Formed good)
    (added : Clause.Formed good clauses) (done : conjunction.addClauses path clauses = .ok after) :
    Adds good conjunction after fun doc => clauses.all (·.holds (doc.lookup path)) := by
  unfold addClauses at done
  split at done
  · rename_i position named
    obtain ⟨present, found⟩ := formed.placed path position named
    rw [found] at done
    obtain rfl := Except.ok.inj done
    exact merge_adds formed added found
  · obtain rfl := Except.ok.inj done
    exact append_adds path formed added

theorem addBranches_spec {branches : List QueryNode} (formed : conjunction.Formed good)
    (added : AllFormed good branches) (nonempty : branches ≠ []) :
    Adds good conjunction { conjunction with
      alternatives := conjunction.alternatives ++ [.group .or branches] }
      fun doc => anyHolds doc branches where
  formed := ⟨formed.nodes, allFormed_append.2 ⟨formed.alternatives, ⟨nonempty, added⟩, trivial⟩,
    formed.placed⟩
  nonempty := by
    apply finish_ne_nil
    right
    simp
  holds doc := by
    simp only [holds, allHold_append, allHold, QueryNode.holds, Bool.and_true]
    ac_rfl

theorem Adds.trans {between : Conjunction} {first second : Json → Bool}
    (earlier : Adds good conjunction between first) (later : Adds good between after second) :
    Adds good conjunction after fun doc => first doc && second doc where
  formed := later.formed
  nonempty := later.nonempty
  holds doc := by rw [later.holds, earlier.holds, Bool.and_assoc]

end Conjunction

/-- A member adds the items of an `$and`, an alternative, or the clauses on a path. -/
theorem addMember_cases {conjunction after : Conjunction} {key : String} {value : Json}
    (done : addMember conjunction key value = .ok after) :
    (∃ items, value = .array items ∧ key = Connective.and.symbol ∧ 2 ≤ items.length ∧
      (∀ item ∈ items, GroupItem .and item) ∧ addItems conjunction items = .ok after) ∨
    (∃ items branches, value = .array items ∧ key = Connective.or.symbol ∧ 2 ≤ items.length ∧
      (∀ item ∈ items, GroupItem .or item) ∧ branchesOf items = .ok branches ∧
      after = { conjunction with
        alternatives := conjunction.alternatives ++ [.group .or branches] }) ∨
    ∃ clauses, key ≠ Connective.and.symbol ∧ key ≠ Connective.or.symbol ∧
      clausesOf key value = .ok clauses ∧ conjunction.addClauses key clauses = .ok after := by
  unfold addMember at done
  split at done
  · rename_i named
    obtain ⟨_, checked, done⟩ := bind_eq_ok.1 done
    obtain ⟨items, rfl, long, each⟩ := checkGroup_eq_ok.1 checked
    exact .inl ⟨items, rfl, named, long, each, done⟩
  · rename_i other
    split at done
    · rename_i named
      obtain ⟨_, checked, done⟩ := bind_eq_ok.1 done
      obtain ⟨items, rfl, long, each⟩ := checkGroup_eq_ok.1 checked
      obtain ⟨branches, read, same⟩ := bind_eq_ok.1 done
      exact .inr (.inl ⟨items, branches, rfl, named, long, each, read, (Except.ok.inj same).symm⟩)
    · rename_i other'
      split at done
      · cases done
      · obtain ⟨clauses, read, done⟩ := bind_eq_ok.1 done
        exact .inr (.inr ⟨clauses, other, other', read, done⟩)

open QueryNode Predicate in
mutual

/-- One member adds what it asks. -/
theorem addMember_spec (inherited : Json.Inherited good) (value : Json)
    {conjunction after : Conjunction} {key : String} (fit : good value)
    (formed : conjunction.Formed good) (done : addMember conjunction key value = .ok after) :
    conjunction.Adds good after fun doc => satisfiesMember doc key value := by
  obtain ⟨items, same, named, several, each, added⟩ |
    ⟨items, branches, same, named, several, each, read, rfl⟩ |
    ⟨clauses, other, other', read, added⟩ := addMember_cases done
  · cases value with
    | array items' =>
        obtain rfl := Json.array.inj same
        subst named
        have nonempty : items' ≠ [] := List.ne_nil_of_length_pos (by omega)
        simp only [satisfiesMember_and]
        exact addItems_spec inherited items' (inherited.items _ fit) formed nonempty each added
    | _ => cases same
  · cases value with
    | array items' =>
        obtain rfl := Json.array.inj same
        obtain ⟨length, formed', means⟩ :=
          branchesOf_spec inherited items' (inherited.items _ fit) each read
        have full : branches ≠ [] := List.ne_nil_of_length_pos (by omega)
        subst named
        simp only [satisfiesMember_or, ← means]
        exact Conjunction.addBranches_spec formed formed' full
    | _ => cases same
  · obtain ⟨formed', means⟩ := clausesOf_spec inherited fit read
    simp only [satisfiesMember_path other other', ← means]
    exact Conjunction.addClauses_spec formed formed' added

theorem addMembers_spec (inherited : Json.Inherited good) (members : List (String × Json))
    {conjunction after : Conjunction} (fit : ∀ member ∈ members, good member.2)
    (formed : conjunction.Formed good) (nonempty : members ≠ [])
    (done : addMembers conjunction members = .ok after) :
    conjunction.Adds good after fun doc => satisfiesMembers doc members := by
  cases members with
  | nil => exact absurd rfl nonempty
  | cons member rest =>
      obtain ⟨key, value⟩ := member
      obtain ⟨between, first, done⟩ := bind_eq_ok.1 done
      obtain ⟨here, behind⟩ := List.forall_mem_cons.1 fit
      have added := addMember_spec inherited value here formed first
      by_cases last : rest = []
      · subst last
        obtain rfl := Except.ok.inj done
        simpa only [satisfiesMembers, Bool.and_true] using added
      · have others := addMembers_spec inherited rest behind added.formed last done
        simpa only [satisfiesMembers] using added.trans others

theorem addItems_spec (inherited : Json.Inherited good) (items : List Json)
    {conjunction after : Conjunction} (fit : ∀ item ∈ items, good item)
    (formed : conjunction.Formed good) (nonempty : items ≠ [])
    (each : ∀ item ∈ items, GroupItem .and item) (done : addItems conjunction items = .ok after) :
    conjunction.Adds good after fun doc => satisfiesAll doc items := by
  cases items with
  | nil => exact absurd rfl nonempty
  | cons item rest =>
      obtain ⟨⟨members, same, -, full⟩, each'⟩ := List.forall_mem_cons.1 each
      obtain ⟨here, behind⟩ := List.forall_mem_cons.1 fit
      cases item with
      | object members' =>
          obtain rfl := Json.object.inj same
          obtain ⟨between, first, done⟩ := bind_eq_ok.1 done
          have added :=
            addMembers_spec inherited members' (inherited.members _ here) formed full first
          by_cases last : rest = []
          · subst last
            obtain rfl := Except.ok.inj done
            simpa only [satisfiesAll, satisfies, Bool.and_true] using added
          · have others := addItems_spec inherited rest behind added.formed last each' done
            simpa only [satisfiesAll, satisfies] using added.trans others
      | _ => cases same

/-- The branches of an alternative, one for each item. -/
theorem branchesOf_spec (inherited : Json.Inherited good) (items : List Json)
    {branches : List QueryNode} (fit : ∀ item ∈ items, good item)
    (each : ∀ item ∈ items, GroupItem .or item) (done : branchesOf items = .ok branches) :
    branches.length = items.length ∧ AllFormed good branches ∧
      ∀ doc, anyHolds doc branches = satisfiesAny doc items := by
  cases items with
  | nil =>
      obtain rfl := Except.ok.inj done
      exact ⟨rfl, trivial, fun _ => rfl⟩
  | cons item rest =>
      obtain ⟨⟨members, same, -, full⟩, each'⟩ := List.forall_mem_cons.1 each
      obtain ⟨here, behind⟩ := List.forall_mem_cons.1 fit
      cases item with
      | object members' =>
          obtain rfl := Json.object.inj same
          obtain ⟨conjunction, first, done⟩ := bind_eq_ok.1 done
          obtain ⟨others, read, same⟩ := bind_eq_ok.1 done
          obtain rfl := Except.ok.inj same
          have added := addMembers_spec inherited members' (inherited.members _ here)
            Conjunction.formed_empty full first
          obtain ⟨length, formed, means⟩ := branchesOf_spec inherited rest behind each' read
          refine ⟨congrArg Nat.succ length,
            ⟨⟨added.nonempty, Conjunction.finish_formed added.formed⟩, formed⟩, ?_⟩
          intro doc
          rw [anyHolds, means, QueryNode.holds, Conjunction.finish_holds, added.holds]
          rfl
      | _ => cases same

end

namespace Query

/-- A query is what its members make of an empty conjunction, in normal form. -/
theorem parse_eq_ok {predicate : Json} {query : Query} (read : Query.parse predicate = .ok query) :
    ∃ members conjunction, predicate = .object members ∧
      addMembers .empty members = .ok conjunction ∧
      query = ⟨QueryNode.normalizeAll conjunction.finish⟩ := by
  unfold Query.parse at read
  cases done : Query.nodesOf predicate with
  | error fault =>
      rw [done] at read
      cases read
  | ok nodes =>
      rw [done] at read
      obtain rfl := Except.ok.inj read
      cases predicate with
      | object members =>
          obtain ⟨conjunction, added, same⟩ := bind_eq_ok.1 done
          obtain rfl := Except.ok.inj same
          exact ⟨members, conjunction, rfl, added, rfl⟩
      | _ => cases done

/-- Members add to an empty conjunction what they ask, and nothing if there are none. -/
theorem adds_to_empty (inherited : Json.Inherited good) {members : Members}
    {conjunction : Conjunction} (fit : ∀ member ∈ members, good member.2)
    (added : addMembers .empty members = .ok conjunction) :
    conjunction.Formed good ∧
      ∀ doc, conjunction.holds doc = Predicate.satisfiesMembers doc members := by
  by_cases none : members = []
  · subst none
    obtain rfl := Except.ok.inj added
    exact ⟨Conjunction.formed_empty, fun _ => rfl⟩
  · have adds := addMembers_spec inherited members fit Conjunction.formed_empty none added
    refine ⟨adds.formed, ?_⟩
    intro doc
    rw [adds.holds]
    rfl

/-- The query of a predicate is well formed and in normal form, and it asks what the predicate
asks. -/
theorem parse_spec (inherited : Json.Inherited good) {predicate : Json} {query : Query}
    (fit : good predicate) (read : Query.parse predicate = .ok query) :
    QueryNode.AllFormed good query.root ∧ QueryNode.AllNormal query.root ∧
      ∀ doc, query.holds doc = Predicate.satisfies doc predicate := by
  obtain ⟨members, conjunction, rfl, added, rfl⟩ := parse_eq_ok read
  obtain ⟨formed, means⟩ := adds_to_empty inherited (inherited.members _ fit) added
  obtain ⟨formed', normal, asks⟩ :=
    QueryNode.normalizeAll_spec (Conjunction.finish_formed formed)
  refine ⟨formed', normal, ?_⟩
  intro doc
  exact (asks.all doc).trans ((conjunction.finish_holds doc).trans (means doc))

/-- What is read from a predicate asks of a document what the predicate asks. -/
theorem parse_keeps_meaning {predicate : Json} {query : Query}
    (read : Query.parse predicate = .ok query) (doc : Json) :
    query.holds doc = Predicate.satisfies doc predicate :=
  (parse_spec Json.inherited_any trivial read).2.2 doc

/-- An alternative inside a conjunction comes last, and conditions on one path come together. -/
theorem nested_predicate_keeps_meaning :
    let one := Json.ofInt 1
    let two := Json.ofInt 2
    let predicate := Json.object [
      ("$and", .array [.object [("a", one)],
        .object [("$or", .array [.object [("a", one), ("b", two)], .object [("b", one)]])]]),
      ("a", .object [("$gt", one)])]
    let query : Query := ⟨[
      .field "a" [⟨.eq, .literal one⟩, ⟨.gt, .literal one⟩],
      .group .or [
        .group .and [.field "a" [⟨.eq, .literal one⟩], .field "b" [⟨.eq, .literal two⟩]],
        .field "b" [⟨.eq, .literal one⟩]]]⟩
    Query.parse predicate = .ok query ∧
      ∀ doc, query.holds doc = Predicate.satisfies doc predicate := by
  apply And.intro rfl
  intro doc
  exact parse_keeps_meaning rfl doc

end Query

end Docstore
