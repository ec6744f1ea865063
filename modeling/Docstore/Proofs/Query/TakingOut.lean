import Docstore.Proofs.Index.Literals
import Docstore.Proofs.Query.Parsed

set_option autoImplicit false

namespace Docstore

section Lists

variable {α β : Type}

theorem getElem?_of_split {xs front rest : List α} {x : α} (split : xs = front ++ x :: rest) :
    xs[front.length]? = some x ∧ xs = (front ++ [x]) ++ rest ∧
      (front ++ [x]).length = front.length + 1 := by
  subst split
  simp

/-- To replace an item takes away what it had more than the new one. -/
theorem perm_flatMap_set {parts : α → List β} {xs : List α} {i : Nat} {x y : α} {b : β}
    (found : xs[i]? = some x) (split : (parts x).Perm (b :: parts y)) :
    (xs.flatMap parts).Perm (b :: (xs.set i y).flatMap parts) := by
  induction xs generalizing i with
  | nil => cases found
  | cons z rest ih =>
      cases i with
      | zero =>
          obtain rfl := Option.some.inj found
          exact split.append_right _
      | succ i =>
          rw [List.set_cons_succ, List.flatMap_cons, List.flatMap_cons]
          exact ((ih found).append_left _).trans List.perm_middle

theorem perm_filterMap_swap [DecidableEq α] {f g : α → Option β} {xs : List α} {x : α} {b c : β}
    (distinct : xs.Nodup) (there : x ∈ xs) (first : f x = some b) (second : g x = some c)
    (others : ∀ y ∈ xs, y ≠ x → g y = f y) :
    (b :: xs.filterMap g).Perm (c :: xs.filterMap f) := by
  have split := List.perm_cons_erase there
  have same : (xs.erase x).filterMap g = (xs.erase x).filterMap f :=
    List.filterMap_congr fun y member =>
      others y (List.mem_of_mem_erase member) ((distinct.mem_erase_iff.1 member).1)
  have before : (xs.filterMap f).Perm (b :: (xs.erase x).filterMap f) := by
    simpa only [List.filterMap_cons, first] using split.filterMap f
  have behind : (xs.filterMap g).Perm (c :: (xs.erase x).filterMap f) := by
    simpa only [List.filterMap_cons, second, same] using split.filterMap g
  exact (behind.cons b).trans ((List.Perm.swap c b _).trans (before.symm.cons c))

end Lists

namespace QueryNode

def clauses : QueryNode → List (String × Clause)
  | .field path clauses => clauses.map (Prod.mk path)
  | _ => []

/-- A condition on an attribute that has lost clauses, perhaps none, or the same node. -/
inductive Thinned : QueryNode → QueryNode → Prop
  | field {path : String} {clauses kept : List Clause} (order : kept.Sublist clauses) :
      Thinned (.field path clauses) (.field path kept)
  | group (connective : Connective) (children : List QueryNode) :
      Thinned (.group connective children) (.group connective children)
  | lookup (ref : IndexRef) : Thinned (.lookup ref) (.lookup ref)

theorem Thinned.refl (node : QueryNode) : Thinned node node := by
  cases node with
  | field path clauses => exact .field (List.Sublist.refl clauses)
  | group connective children => exact .group connective children
  | lookup ref => exact .lookup ref

theorem Thinned.trans {first second third : QueryNode} (less : Thinned first second)
    (further : Thinned second third) : Thinned first third := by
  cases less with
  | field order =>
      cases further with
      | field order' => exact .field (order'.trans order)
  | group connective children => exact further
  | lookup ref => exact further

end QueryNode

namespace Query

open QueryNode

def clausesIn (root : List QueryNode) : List (String × Clause) :=
  root.flatMap QueryNode.clauses

def asks (doc : Json) (taken : List (String × Clause)) : Bool :=
  taken.all fun entry => entry.2.holds (doc.lookup entry.1)

theorem asks_append (doc : Json) (first second : List (String × Clause)) :
    asks doc (first ++ second) = (asks doc first && asks doc second) :=
  List.all_append

/-- Nodes ask what their clauses ask, and what no clause less changes. -/
theorem allHold_of_thinned {root after : List QueryNode} (doc : Json)
    (thinned : List.Forall₂ QueryNode.Thinned root after) :
    ∃ others, allHold doc root = (asks doc (clausesIn root) && others) ∧
      allHold doc after = (asks doc (clausesIn after) && others) := by
  induction thinned with
  | nil => exact ⟨true, rfl, rfl⟩
  | @cons node node' rest rest' less _ ih =>
      obtain ⟨others, before, behind⟩ := ih
      have unfolded : ∀ (node : QueryNode) (rest : List QueryNode),
          clausesIn (node :: rest) = node.clauses ++ clausesIn rest := fun node rest =>
        List.flatMap_cons
      simp only [allHold, unfolded, asks_append, before, behind]
      cases less with
      | @field path clauses kept order =>
          have asked : ∀ clauses : List Clause, (field path clauses).holds doc =
              asks doc (field path clauses).clauses := fun clauses => by
            rw [QueryNode.holds, QueryNode.clauses, asks, List.all_map]
            rfl
          rw [asked, asked]
          exact ⟨others, (Bool.and_assoc _ _ _).symm, (Bool.and_assoc _ _ _).symm⟩
      | group connective children =>
          refine ⟨(group connective children).holds doc && others, ?_, ?_⟩
          · exact Bool.and_left_comm _ _ _
          · exact Bool.and_left_comm _ _ _
      | lookup ref => exact ⟨others, rfl, rfl⟩

/-- Clauses taken out of nodes: the nodes have kept their order and the others of their clauses. -/
structure Accounts (root : List QueryNode) (taken : List (String × Clause))
    (after : List QueryNode) : Prop where
  thinned : List.Forall₂ QueryNode.Thinned root after
  clauses : (clausesIn root).Perm (taken ++ clausesIn after)

namespace Accounts

variable {root between after : List QueryNode} {taken taken' : List (String × Clause)}

theorem refl (root : List QueryNode) : Accounts root [] root where
  thinned := List.forall₂_same.2 fun node _ => .refl node
  clauses := .refl _

theorem trans (first : Accounts root taken between) (second : Accounts between taken' after) :
    Accounts root (taken ++ taken') after where
  thinned := forall₂_compose first.thinned second.thinned fun _ _ _ => Thinned.trans
  clauses := by
    rw [List.append_assoc]
    exact first.clauses.trans (second.clauses.append_left taken)

theorem of_perm (accounts : Accounts root taken after) (perm : taken.Perm taken') :
    Accounts root taken' after where
  thinned := accounts.thinned
  clauses := accounts.clauses.trans (perm.append_right _)

/-- What the nodes asked is what the clauses taken out ask and what the nodes ask now. -/
theorem allHold (accounts : Accounts root taken after) (doc : Json) :
    QueryNode.allHold doc root = (asks doc taken && QueryNode.allHold doc after) := by
  obtain ⟨others, before, behind⟩ := allHold_of_thinned doc accounts.thinned
  have asked : asks doc (clausesIn root) = (asks doc taken && asks doc (clausesIn after)) := by
    rw [← asks_append, asks, accounts.clauses.all_eq]
    rfl
  rw [before, behind, asked, Bool.and_assoc]

end Accounts

def clauseAt (root : List QueryNode) (position : ClausePosition) : Option (String × Clause) :=
  match root[position.1]? with
  | some (.field path clauses) => (clauses[position.2]?).map (Prod.mk path)
  | _ => none

variable {root after : List QueryNode} {position other : ClausePosition} {path : String}
  {clause : Clause}

theorem clauseAt_eq_some : clauseAt root position = some (path, clause) ↔
    ∃ clauses, root[position.1]? = some (.field path clauses) ∧
      clauses[position.2]? = some clause := by
  unfold clauseAt
  constructor
  · intro there
    split at there
    · rename_i path' clauses found
      obtain ⟨clause', found', same⟩ := Option.map_eq_some_iff.1 there
      obtain ⟨rfl, rfl⟩ := Prod.mk.inj same
      exact ⟨clauses, found, found'⟩
    · cases there
  · rintro ⟨clauses, found, found'⟩
    rw [found]
    simp only [found', Option.map_some]

def Before (a b : ClausePosition) : Prop :=
  a.1 < b.1 ∨ a.1 = b.1 ∧ a.2 < b.2

theorem comparePositions_eq_lex :
    comparePositions = compareLex (compareOn Prod.fst) (compareOn Prod.snd) := rfl

instance : Std.TransCmp comparePositions := by
  rw [comparePositions_eq_lex]
  infer_instance

theorem before_of_isLE {a b : ClausePosition} (order : (comparePositions a b).isLE)
    (distinct : a ≠ b) : Before a b := by
  unfold comparePositions at order
  rcases Nat.lt_trichotomy a.1 b.1 with less | same | more
  · exact .inl less
  · refine .inr ⟨same, ?_⟩
    rw [Nat.compare_eq_eq.2 same] at order
    rcases Nat.lt_trichotomy a.2 b.2 with less | same' | more
    · exact less
    · exact absurd (Prod.ext same same') distinct
    · rw [Nat.compare_eq_gt.2 more] at order
      cases order
  · rw [Nat.compare_eq_gt.2 more] at order
    cases order

theorem eq_cons_of_descending {rest : List ClausePosition}
    (descending : (position :: rest).Pairwise fun a b => (comparePositions b a).isLE)
    (repeated : position ∈ rest) : ∃ rest', rest = position :: rest' := by
  obtain ⟨other, rest', rfl⟩ := List.exists_cons_of_ne_nil (List.ne_nil_of_mem repeated)
  obtain ⟨behind, following⟩ := List.pairwise_cons.1 descending
  obtain rfl | later := List.mem_cons.1 repeated
  · exact ⟨rest', rfl⟩
  · by_cases same : other = position
    · exact ⟨rest', by rw [same]⟩
    · have below := before_of_isLE (behind other List.mem_cons_self) same
      have above := before_of_isLE ((List.pairwise_cons.1 following).1 _ later) (Ne.symm same)
      unfold Before at below above
      omega

/-- Only the clause at the position is taken out, and the clauses before it stay where they are. -/
theorem takeOut_spec (there : clauseAt root position = some (path, clause)) :
    ∃ clauses, root[position.1]? = some (.field path clauses) ∧
      takeOut root position =
        .ok (root.set position.1 (.field path (clauses.eraseIdx position.2))) ∧
      Accounts root [(path, clause)]
        (root.set position.1 (.field path (clauses.eraseIdx position.2))) ∧
      ∀ other, Before other position →
        clauseAt (root.set position.1 (.field path (clauses.eraseIdx position.2))) other =
          clauseAt root other := by
  obtain ⟨clauses, found, found'⟩ := clauseAt_eq_some.1 there
  obtain ⟨inside, here⟩ := List.getElem?_eq_some_iff.1 found'
  refine ⟨clauses, found, ?_, ⟨?_, ?_⟩, fun other before => ?_⟩
  · rw [takeOut, found]
    simp only [if_pos inside]
  · obtain ⟨bound, node⟩ := List.getElem?_eq_some_iff.1 found
    have self : List.Forall₂ Thinned root root := List.forall₂_same.2 fun node _ => .refl node
    have less : Thinned (.field path clauses) (.field path (clauses.eraseIdx position.2)) :=
      .field (List.eraseIdx_sublist clauses position.2)
    have thinned := forall₂_set self less position.1
    rwa [← node, List.set_getElem_self] at thinned
  · refine perm_flatMap_set found ?_
    have taken := (List.getElem_cons_eraseIdx_perm inside).symm
    rw [here] at taken
    exact taken.map (Prod.mk path)
  · unfold clauseAt
    obtain less | ⟨same, less⟩ := before
    · rw [List.getElem?_set_ne (Nat.ne_of_gt less)]
    · have bound : position.1 < root.length := (List.getElem?_eq_some_iff.1 found).1
      rw [same, List.getElem?_set_self bound, found]
      simp only [List.getElem?_eraseIdx_of_lt less]

def Thins (holds : List QueryNode → Prop) : Prop :=
  ∀ root position path clauses slot, holds root → root[position]? = some (.field path clauses) →
    holds (root.set position (.field path (clauses.eraseIdx slot)))

theorem takeOut_past_end {clauses : List Clause}
    (found : root[position.1]? = some (.field path clauses))
    (absent : clauseAt root position = none) :
    takeOut root position = .error .clauseOutOfRange := by
  have beyond : clauses[position.2]? = none := by
    simpa only [clauseAt, found, Option.map_eq_none_iff] using absent
  rw [takeOut, found]
  exact if_neg (Nat.not_lt.2 (List.getElem?_eq_none_iff.1 beyond))

/-- Clauses taken out at positions: the one at each position once, and for every time that a
position is repeated a clause that is lost. -/
structure TakesOut (root : List QueryNode) (positions : List ClausePosition)
    (lost : List (String × Clause)) (after : List QueryNode) : Prop where
  accounts : Accounts root (positions.dedup.filterMap (clauseAt root) ++ lost) after
  length : positions.length = positions.dedup.length + lost.length

section First

variable {between : List QueryNode} {rest : List ClausePosition} {entry next : String × Clause}
  {lost : List (String × Clause)}

theorem TakesOut.fresh (first : Accounts root [entry] between)
    (here : clauseAt root position = some entry) (fresh : position ∉ rest)
    (kept : ∀ other ∈ rest, clauseAt between other = clauseAt root other)
    (others : TakesOut between rest lost after) : TakesOut root (position :: rest) lost after where
  accounts := by
    have same : rest.dedup.filterMap (clauseAt between) = rest.dedup.filterMap (clauseAt root) :=
      List.filterMap_congr fun other member => kept other (List.mem_dedup.1 member)
    rw [List.dedup_cons_of_notMem fresh, List.filterMap_cons, here, ← same]
    exact first.trans others.accounts
  length := by
    rw [List.dedup_cons_of_notMem fresh, List.length_cons, List.length_cons, others.length]
    omega

/-- Of the clauses taken out at one position, the first was there before and the next is lost. -/
theorem TakesOut.repeated (first : Accounts root [entry] between)
    (here : clauseAt root position = some entry) (behind : clauseAt between position = some next)
    (repeated : position ∈ rest)
    (kept : ∀ other ∈ rest, other ≠ position → clauseAt between other = clauseAt root other)
    (others : TakesOut between rest lost after) :
    TakesOut root (position :: rest) (next :: lost) after where
  accounts := by
    have swapped := perm_filterMap_swap rest.nodup_dedup (List.mem_dedup.2 repeated) here behind
      fun other member => kept other (List.mem_dedup.1 member)
    rw [List.dedup_cons_of_mem repeated]
    exact (first.trans others.accounts).of_perm
      ((swapped.append_right lost).trans List.perm_middle.symm)
  length := by
    rw [List.dedup_cons_of_mem repeated, List.length_cons, others.length, List.length_cons,
      Nat.add_assoc]

end First

/-- Clauses taken out one after the other, none behind the last. Where a position is repeated, a
further clause is lost, or there is none and taking out fails. -/
theorem foldlM_takeOut_cases {holds : List QueryNode → Prop} (thins : Thins holds)
    {positions : List ClausePosition}
    (descending : positions.Pairwise fun a b => (comparePositions b a).isLE)
    (held : holds root) (there : ∀ position ∈ positions, (clauseAt root position).isSome) :
    (positions.foldlM takeOut root = .error .clauseOutOfRange ∧ ¬ positions.Nodup) ∨
    ∃ after lost, positions.foldlM takeOut root = .ok after ∧ holds after ∧
      TakesOut root positions lost after := by
  induction positions generalizing root with
  | nil => exact .inr ⟨root, [], rfl, held, .refl root, rfl⟩
  | cons position rest ih =>
      obtain ⟨first, following⟩ := List.forall_mem_cons.1 there
      obtain ⟨⟨path, clause⟩, first⟩ := Option.isSome_iff_exists.1 first
      obtain ⟨behind, descending'⟩ := List.pairwise_cons.1 descending
      obtain ⟨clauses, found, ran, accounts, kept⟩ := takeOut_spec first
      have bound : position.1 < root.length := (List.getElem?_eq_some_iff.1 found).1
      have thinned := thins root position.1 path clauses position.2 held found
      have here : (root.set position.1 (.field path (clauses.eraseIdx position.2)))[position.1]? =
          some (.field path (clauses.eraseIdx position.2)) := List.getElem?_set_self bound
      generalize root.set position.1 (.field path (clauses.eraseIdx position.2)) = between at *
      have others : ∀ other ∈ rest, other ≠ position →
          clauseAt between other = clauseAt root other := fun other member apart =>
        kept other (before_of_isLE (behind other member) apart)
      rw [List.foldlM_cons, ran, ok_bind]
      by_cases repeated : position ∈ rest
      · have twice : ¬ (position :: rest).Nodup := fun distinct =>
          (List.nodup_cons.1 distinct).1 repeated
        cases next : clauseAt between position with
        | none =>
            obtain ⟨rest', rfl⟩ := eq_cons_of_descending descending repeated
            refine .inl ⟨?_, twice⟩
            rw [List.foldlM_cons, takeOut_past_end here next, error_bind]
        | some lost =>
            have there' : ∀ other ∈ rest, (clauseAt between other).isSome := by
              intro other member
              by_cases same : other = position
              · rw [same, next]
                rfl
              · rw [others other member same]
                exact following other member
            obtain ⟨failed, -⟩ | ⟨after, lost', ran', held', taken⟩ := ih descending' thinned there'
            · exact .inl ⟨failed, twice⟩
            · exact .inr ⟨after, lost :: lost', ran', held',
                .repeated accounts first next repeated others taken⟩
      · have same : ∀ other ∈ rest, clauseAt between other = clauseAt root other :=
          fun other member => others other member fun same => repeated (same ▸ member)
        obtain ⟨failed, twice⟩ | ⟨after, lost, ran', held', taken⟩ :=
          ih descending' thinned fun other member => by
            rw [same other member]
            exact following other member
        · exact .inl ⟨failed, fun distinct => twice (List.nodup_cons.1 distinct).2⟩
        · exact .inr ⟨after, lost, ran', held', .fresh accounts first repeated same taken⟩

/-- However clauses are taken out, what thinning keeps is kept. -/
theorem takeOutAll_keeps {holds : List QueryNode → Prop} (thins : Thins holds)
    {positions : List ClausePosition} (held : holds root)
    (taken : takeOutAll root positions = .ok after) : holds after := by
  unfold takeOutAll at taken
  generalize (stableSort comparePositions positions).reverse = positions at taken
  induction positions generalizing root with
  | nil =>
      obtain rfl := Except.ok.inj taken
      exact held
  | cons position rest ih =>
      rw [List.foldlM_cons] at taken
      obtain ⟨between, first, others⟩ := bind_eq_ok.1 taken
      apply ih _ others
      unfold takeOut at first
      split at first
      · rename_i path clauses found
        split at first
        · obtain rfl := Except.ok.inj first
          exact thins root position.1 path clauses position.2 held found
        · cases first
      · obtain rfl := Except.ok.inj first
        exact held

/-- Clauses taken out at once. Where a position is repeated, a further clause is lost, or there is
none and taking out fails. -/
theorem takeOutAll_cases {holds : List QueryNode → Prop} (thins : Thins holds)
    {positions : List ClausePosition} (held : holds root)
    (there : ∀ position ∈ positions, (clauseAt root position).isSome) :
    (takeOutAll root positions = .error .clauseOutOfRange ∧ ¬ positions.Nodup) ∨
    ∃ after lost, takeOutAll root positions = .ok after ∧ holds after ∧
      TakesOut root positions lost after := by
  have perm : (stableSort comparePositions positions).reverse.Perm positions :=
    (List.reverse_perm _).trans (stableSort_perm _ _)
  have descending : (stableSort comparePositions positions).reverse.Pairwise
      fun a b => (comparePositions b a).isLE :=
    List.pairwise_reverse.2 (Ranks.of_transCmp positions).pairwise_stableSort
  obtain ⟨failed, twice⟩ | ⟨after, lost, ran, held', taken⟩ :=
    foldlM_takeOut_cases thins descending held
      fun position member => there position (perm.mem_iff.1 member)
  · exact .inl ⟨failed, fun distinct => twice (perm.nodup_iff.2 distinct)⟩
  · refine .inr ⟨after, lost, ran, held', ?_, ?_⟩
    · exact taken.accounts.of_perm ((perm.dedup.filterMap (clauseAt root)).append_right lost)
    · rw [← perm.length_eq, ← perm.dedup.length_eq]
      exact taken.length

theorem takeOutAll_spec {holds : List QueryNode → Prop} (thins : Thins holds)
    {positions : List ClausePosition} (distinct : positions.Nodup) (held : holds root)
    (there : ∀ position ∈ positions, (clauseAt root position).isSome) :
    ∃ after, takeOutAll root positions = .ok after ∧ holds after ∧
      Accounts root (positions.filterMap (clauseAt root)) after := by
  obtain ⟨-, twice⟩ | ⟨after, lost, ran, held', accounts, length⟩ :=
    takeOutAll_cases thins held there
  · exact absurd distinct twice
  · rw [distinct.dedup] at accounts length
    obtain rfl : lost = [] := List.length_eq_zero_iff.1 (by omega)
    rw [List.append_nil] at accounts
    exact ⟨after, ran, held', accounts⟩

end Query

end Docstore
