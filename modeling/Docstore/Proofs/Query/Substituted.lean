import Docstore.Proofs.Query.TakingOver

set_option autoImplicit false

namespace Docstore

/-- The number of clauses that a lookup in an index stands for. -/
def IndexLookup.size (index : Index) : IndexLookup → Nat
  | .exact _ => index.attributes.dedup.length
  | .range bounds => bounds.min.toList.length + bounds.max.toList.length

/-- The number of clauses that are taken out for a lookup beyond those that it stands for. -/
def IndexLookup.surplus (index : Index) : IndexLookup → Nat
  | .exact _ => index.attributes.length - index.attributes.dedup.length
  | .range _ => 0

theorem IndexLookup.surplus_eq_zero {index : Index} {lookup : IndexLookup} :
    lookup.surplus index = 0 ↔ ∀ key, lookup = .exact key → index.attributes.Nodup := by
  cases lookup with
  | exact key =>
      rw [surplus, Nat.sub_eq_zero_iff_le]
      constructor
      · intro most _ _
        exact List.dedup_eq_self.1 ((List.dedup_sublist _).eq_of_length_le most)
      · intro distinct
        rw [(distinct key rfl).dedup]
  | range bounds => exact ⟨fun _ key same => (by cases same), fun _ => rfl⟩

namespace Query

/-- The clauses that set one end of a range: one, or none where that end is open. -/
inductive SetsEnd (strict inclusive : Operator) : List Clause → Option Key → Bool → Prop
  | unset : SetsEnd strict inclusive [] none true
  | strict {value : Json} {key : Key} (bound : boundKey? value = some key) :
      SetsEnd strict inclusive [⟨strict, .literal value⟩] (some key) false
  | inclusive {value : Json} {key : Key} (bound : boundKey? value = some key) :
      SetsEnd strict inclusive [⟨inclusive, .literal value⟩] (some key) true

/-- A lookup in an index stands for one equality with an exact literal on each of its attributes,
or, if it is an ordered index over one attribute, for a lower bound or an upper bound or both, of
one kind. -/
inductive Encodes (index : Index) : IndexLookup → List (String × Clause) → Prop
  | exact {values : List Json} (length : values.length = index.attributes.length)
      (exact : ∀ value ∈ values, Key.isExact value = true) :
      Encodes index (.exact (Key.ofOperands values))
        (List.zipWith (fun path value => (path, ⟨.eq, .literal value⟩)) index.attributes values)
  | range {path : String} {lower upper : List Clause} {range : KeyRange Key}
      (ordered : index.kind = .tree) (single : index.attributes = [path])
      (low : SetsEnd .gt .gte lower range.min range.includeMin)
      (high : SetsEnd .lt .lte upper range.max range.includeMax)
      (nonempty : lower ++ upper ≠ [])
      (kinds : ∀ low ∈ range.min, ∀ high ∈ range.max, low.sameKind high = true) :
      Encodes index (.range range) ((lower ++ upper).map (Prod.mk path))

/-- A lookup stands for one equality with an exact literal on each attribute that its index has,
even where the index repeats it, or for the bounds of a range. -/
inductive StandsFor (index : Index) : IndexLookup → List (String × Clause) → Prop
  | exact {literal : String → Json}
      (exact : ∀ path ∈ index.attributes, Key.isExact (literal path) = true) :
      StandsFor index (.exact (Key.ofOperands (index.attributes.map literal)))
        (index.attributes.dedup.map fun path => (path, ⟨.eq, .literal (literal path)⟩))
  | range {range : KeyRange Key} {clauses : List (String × Clause)}
      (encodes : Encodes index (.range range) clauses) : StandsFor index (.range range) clauses

/-- An equality on a path that an exact lookup can stand for is among the clauses. -/
def HasExact (root : List QueryNode) (path : String) : Prop :=
  ∃ value, (path, ⟨.eq, .literal value⟩) ∈ clausesIn root ∧ Key.isExact value = true

/-- The index repeats an attribute, and all its attributes have equalities that it could be asked
for. -/
def AskedTwice (root : List QueryNode) (index : Index) : Prop :=
  ¬ index.attributes.Nodup ∧ ∀ path ∈ index.attributes, HasExact root path

variable {offer : Offer} {root between after : List QueryNode} {index : Index} {path : String}
  {lookup : IndexLookup} {clauses taken : List (String × Clause)}

theorem SetsEnd.length {strict inclusive : Operator} {ends : List Clause} {key : Option Key}
    {closed : Bool} (sets : SetsEnd strict inclusive ends key closed) :
    ends.length = key.toList.length := by
  cases sets <;> rfl

theorem StandsFor.length (stands : StandsFor index lookup clauses) :
    clauses.length = lookup.size index := by
  cases stands with
  | exact exact => rw [List.length_map, IndexLookup.size]
  | range encodes =>
      cases encodes with
      | range ordered single low high some kinds =>
          rw [List.length_map, List.length_append, low.length, high.length, IndexLookup.size]

/-- If an index repeats no attribute, a lookup stands for one clause for every time that an
attribute is named. -/
theorem StandsFor.encodes (stands : StandsFor index lookup clauses)
    (distinct : index.attributes.Nodup) : Encodes index lookup clauses := by
  cases stands with
  | @exact literal exact =>
      have named : Encodes index (.exact (Key.ofOperands (index.attributes.map literal))) _ :=
        .exact (List.length_map _) (List.forall_mem_map.2 exact)
      rw [distinct.dedup]
      rwa [List.zipWith_map_right, List.zipWith_self] at named
  | range encodes => exact encodes

/-- What an exact lookup in an index stands for has an equality on each of its attributes. -/
theorem StandsFor.hasExact {key : Key} (stands : StandsFor index (.exact key) clauses)
    (there : ∀ entry ∈ clauses, entry ∈ clausesIn root) :
    ∀ path ∈ index.attributes, HasExact root path := by
  cases stands with
  | @exact literal exact =>
      intro path named
      exact ⟨literal path, there _ (List.mem_map_of_mem (List.mem_dedup.2 named)), exact path named⟩

theorem Accounts.subset (accounts : Accounts root taken after) :
    ∀ entry, entry ∈ taken ∨ entry ∈ clausesIn after → entry ∈ clausesIn root :=
  fun _ there => accounts.clauses.mem_iff.2 (List.mem_append.2 there)

theorem HasExact.of_accounts (accounts : Accounts root taken after) (has : HasExact after path) :
    HasExact root path := by
  obtain ⟨value, there, exact⟩ := has
  exact ⟨value, accounts.subset _ (.inr there), exact⟩

theorem AskedTwice.of_accounts (accounts : Accounts root taken after)
    (twice : AskedTwice after index) : AskedTwice root index :=
  ⟨twice.1, fun path there => (twice.2 path there).of_accounts accounts⟩

theorem mem_clausesIn {position : ClausePosition} {entry : String × Clause}
    (there : clauseAt root position = some entry) : entry ∈ clausesIn root := by
  obtain ⟨path, clause⟩ := entry
  obtain ⟨clauses, found, found'⟩ := clauseAt_eq_some.1 there
  exact List.mem_flatMap.2 ⟨_, List.mem_of_getElem? found,
    List.mem_map_of_mem (List.mem_of_getElem? found')⟩

def Offer.Covers (offer : Offer) : Prop :=
  ∀ path, path ∈ offer.exact ∨ path ∈ offer.bounded →
    ∃ position, offer.positions.get? path = some position

theorem Offer.Covers.add (covers : offer.Covers) (position : Nat) (path : String)
    (clauses : List Clause) : (offer.add position path clauses).Covers := by
  intro other offered
  rw [show (offer.add position path clauses).positions = offer.positions.put path position from rfl,
    Table.get?_put]
  by_cases same : path = other
  · exact ⟨position, if_pos same⟩
  · rw [if_neg same]
    have kept : ∀ {more : Bool} {paths : List String},
        other ∈ (if more = true then path :: paths else paths) → other ∈ paths := by
      intro more paths there
      cases more with
      | false => exact there
      | true => exact (List.mem_cons.1 there).resolve_left (Ne.symm same)
    exact covers other (offered.imp kept kept)

theorem covers_offerFrom {nodes : List QueryNode} {position : Nat} (covers : offer.Covers) :
    (offerFrom offer position nodes).Covers := by
  induction nodes generalizing offer position with
  | nil => exact covers
  | cons node rest ih =>
      cases node with
      | field path clauses => exact ih (covers.add position path clauses)
      | group connective children => exact ih covers
      | lookup ref => exact ih covers

theorem covers_offerOf (root : List QueryNode) : (offerOf root).Covers := by
  refine covers_offerFrom fun path offered => ?_
  rcases offered with there | there
  · cases there
  · cases there

/-- An index takes over nothing, or takes out the clauses that its lookup stands for and as many
others as it repeats attributes. If it repeats some, it can fail to find one. -/
inductive Substitutes (offer : Offer) (index : Index) (root : List QueryNode) :
    Except Refusal (Option (IndexLookup × List QueryNode)) → Prop
  | nothing : Substitutes offer index root (.ok none)
  | failed (twice : AskedTwice root index) :
      Substitutes offer index root (.error .clauseOutOfRange)
  | taken {lookup : IndexLookup} {clauses lost : List (String × Clause)} {after : List QueryNode}
      (stands : StandsFor index lookup clauses) (surplus : lost.length = lookup.surplus index)
      (accounts : Accounts root (clauses ++ lost) after) (named : Named offer after) :
      Substitutes offer index root (.ok (some (lookup, after)))

theorem perm_dedup_map {α β : Type} [DecidableEq α] [DecidableEq β] {f : α → β} {xs : List α}
    (injective : ∀ x ∈ xs, ∀ y ∈ xs, f x = f y → x = y) :
    (xs.map f).dedup.Perm (xs.dedup.map f) := by
  refine (List.perm_ext_iff_of_nodup (List.nodup_dedup _) ?_).2 fun y => ?_
  · refine (List.nodup_dedup xs).map_on fun x there y there' => ?_
    exact injective x (List.mem_dedup.1 there) y (List.mem_dedup.1 there')
  · simp only [List.mem_dedup, List.mem_map]

/-- The clauses chosen for the attributes of an index, each of them once. -/
theorem chosen_clauses {choice : String → ClausePosition × Json} {paths : List String}
    (each : ∀ path ∈ paths, Exact root path (choice path)) :
    ((paths.map fun path => (choice path).1).dedup.length = paths.dedup.length) ∧
      ((paths.map fun path => (choice path).1).dedup.filterMap (clauseAt root)).Perm
        (paths.dedup.map fun path => (path, ⟨.eq, .literal (choice path).2⟩)) := by
  have perm : (paths.map fun path => (choice path).1).dedup.Perm
      (paths.dedup.map fun path => (choice path).1) := by
    refine perm_dedup_map fun path there path' there' same => ?_
    have clause := (each path there).clause
    rw [same, (each path' there').clause] at clause
    exact (congrArg Prod.fst (Option.some.inj clause)).symm
  refine ⟨by rw [perm.length_eq, List.length_map], (perm.filterMap _).trans (.of_eq ?_)⟩
  rw [List.filterMap_map, ← List.filterMap_eq_map]
  exact List.filterMap_congr fun path there => (each path (List.mem_dedup.1 there)).clause

theorem takeExact_substitutes (named : Named offer root)
    (offered : ∀ path ∈ index.attributes, ∃ position, offer.positions.get? path = some position)
    (nonempty : index.attributes ≠ []) :
    Substitutes offer index root (takeExact root offer index) := by
  obtain ⟨refusal, -, -, empty | ⟨path, there, absent⟩⟩ | nothing |
      ⟨choice, found, rfl, -, each, ran⟩ :=
    takeExact_cases named index
  · exact absurd empty nonempty
  · obtain ⟨position, present⟩ := offered path there
    rw [absent] at present
    cases present
  · exact nothing ▸ .nothing
  · have chosen : ∀ path ∈ index.attributes, Exact root path (choice path) :=
      List.forall₂_same.1 (List.forall₂_map_right_iff.1 each)
    rw [ran]
    obtain ⟨failed, twice⟩ | ⟨after, lost, taken, named', accounts, length⟩ :=
      takeOutAll_cases (thins_named offer) named (placed_of_exact each)
    · rw [failed, error_bind]
      refine .failed ⟨fun distinct => twice (positions_distinct each distinct),
        fun path there => ?_⟩
      exact ⟨_, mem_clausesIn (chosen path there).clause, (chosen path there).exact⟩
    · rw [taken, ok_bind]
      rw [List.map_map] at accounts length
      obtain ⟨count, clauses⟩ := chosen_clauses chosen
      rw [List.length_map, show Prod.fst ∘ choice = fun path => (choice path).1 from rfl,
        count] at length
      rw [List.map_map]
      refine .taken (.exact fun path there => (chosen path there).exact) ?_
        (accounts.of_perm (clauses.append_right lost)) named'
      rw [IndexLookup.surplus]
      omega

theorem setsEnd_of_first {strict inclusive : Operator} (apart : strict ≠ inclusive)
    {position : Nat} {clauses : List Clause} (found : root[position]? = some (.field path clauses))
    {bound : Option Bound} (first : firstBound strict inclusive clauses 0 = bound) :
    ∃ ends, SetsEnd strict inclusive ends (bound.map Bound.key) (bound.all Bound.inclusive) ∧
      clausesFor root position bound = ends.map (Prod.mk path) ∧ (ends = [] → bound = none) := by
  cases bound with
  | none => exact ⟨[], .unset, rfl, fun _ => rfl⟩
  | some bound =>
      obtain ⟨op, value, bounds⟩ := bounds_of_first found first
      refine ⟨[⟨op, .literal value⟩], ?_, clausesFor_some bounds, fun empty => by cases empty⟩
      rw [Option.map_some, Option.all_some, bounds.kind]
      obtain rfl | rfl := bounds.fits
      · rw [beq_eq_false_iff_ne.2 apart]
        exact .strict bounds.key
      · rw [beq_self_eq_true]
        exact .inclusive bounds.key

theorem takeRange_encodes (named : Named offer root)
    (offered : ∃ position, offer.positions.get? path = some position)
    (ordered : index.kind = .tree) (single : index.attributes = [path]) :
    takeRange root offer path = .ok none ∨ ∃ range clauses after,
      takeRange root offer path = .ok (some (.range range, after)) ∧
      Encodes index (.range range) clauses ∧ Accounts root clauses after ∧ Named offer after := by
  obtain ⟨-, absent⟩ | nothing |
    ⟨position, clauses, low, high, found, lower, upper, nonempty, kinds, ran⟩ :=
      takeRange_cases named path
  · obtain ⟨position, present⟩ := offered
    rw [absent] at present
    cases present
  · exact .inl nothing
  · obtain ⟨distinct, there⟩ := bounds_distinct found lower upper
    obtain ⟨after, taken, named', accounts⟩ :=
      takeOutAll_spec (thins_named offer) distinct named there
    obtain ⟨starts, low', from', otherwise⟩ := setsEnd_of_first (by decide) found lower
    obtain ⟨ends, high', to', otherwise'⟩ := setsEnd_of_first (by decide) found upper
    have clauses : ((low.toList ++ high.toList).map fun bound =>
        (position, bound.clause)).filterMap (clauseAt root) =
          (starts ++ ends).map (Prod.mk path) := by
      rw [List.map_append, List.filterMap_append, List.map_append, ← from', ← to']
      rfl
    rw [clauses] at accounts
    refine .inr ⟨_, _, after, by rw [ran, taken, ok_bind]; rfl,
      .range ordered single low' high' ?_ ?_, accounts, named'⟩
    · intro empty
      obtain ⟨rfl, rfl⟩ := List.append_eq_nil_iff.1 empty
      rw [otherwise rfl, otherwise' rfl] at nonempty
      exact nonempty rfl
    · intro l inLow h inHigh
      obtain ⟨l, rfl, rfl⟩ := Option.map_eq_some_iff.1 inLow
      obtain ⟨h, rfl, rfl⟩ := Option.map_eq_some_iff.1 inHigh
      exact kinds

theorem takeFor_substitutes (named : Named offer root) (covers : offer.Covers)
    (nonempty : index.attributes ≠ []) :
    Substitutes offer index root (takeFor root offer index) := by
  obtain ⟨offered, same⟩ | ⟨path, offered, single, ordered, same⟩ | nothing :=
    takeFor_cases root offer index
  · exact same ▸ takeExact_substitutes named
      (fun path there => covers path (.inl (offered path there))) nonempty
  · rw [same]
    obtain nothing | ⟨range, clauses, after, ran, encodes, accounts, named'⟩ :=
      takeRange_encodes named (covers path (.inr offered)) ordered single
    · exact nothing ▸ .nothing
    · rw [ran]
      rw [← List.append_nil clauses] at accounts
      exact .taken (.range encodes) rfl accounts named'
  · exact nothing ▸ .nothing

/-- A lookup in one of some indices, with the clauses that it stands for. -/
structure Substitution (indices : List Index) where
  position : Nat
  index : Index
  there : indices[position]? = some index
  lookup : IndexLookup
  clauses : List (String × Clause)
  stands : StandsFor index lookup clauses

namespace Substitution

variable {indices : List Index}

def ref (substitution : Substitution indices) : IndexRef :=
  ⟨substitution.position, substitution.index.name, substitution.lookup⟩

def node (substitution : Substitution indices) : QueryNode :=
  .lookup substitution.ref

def surplus (substitution : Substitution indices) : Nat :=
  substitution.lookup.surplus substitution.index

/-- No clause is lost if every exact lookup is in an index that repeats no attribute. -/
theorem lost_eq_nil_iff {taken : List (Substitution indices)} {lost : List (String × Clause)}
    (count : lost.length = (taken.map surplus).sum) :
    lost = [] ↔ ∀ one ∈ taken, ∀ key, one.lookup = .exact key → one.index.attributes.Nodup := by
  rw [← List.length_eq_zero_iff, count, List.sum_eq_zero_iff, List.forall_mem_map]
  exact forall₂_congr fun one _ => IndexLookup.surplus_eq_zero

end Substitution

/-- Lookups in the order of their indices, in place of the clauses that they stand for and of others
that are lost: one for every time that an index with an exact lookup repeats an attribute. -/
structure Exchange {indices : List Index} (root : List QueryNode)
    (taken : List (Substitution indices)) (lost : List (String × Clause))
    (after : List QueryNode) : Prop where
  order : taken.Pairwise fun first second => first.position < second.position
  accounts : Accounts root (taken.flatMap Substitution.clauses ++ lost) after
  surplus : lost.length = (taken.map Substitution.surplus).sum

theorem Exchange.cons {indices : List Index} {one : Substitution indices}
    {taken : List (Substitution indices)} {lost lost' : List (String × Clause)}
    (first : Accounts root (one.clauses ++ lost) between) (surplus : lost.length = one.surplus)
    (behind : ∀ other ∈ taken, one.position < other.position)
    (others : Exchange between taken lost' after) :
    Exchange root (one :: taken) (lost ++ lost') after where
  order := List.pairwise_cons.2 ⟨behind, others.order⟩
  accounts := by
    refine (first.trans others.accounts).of_perm ?_
    rw [List.flatMap_cons, List.append_assoc, List.append_assoc]
    refine List.Perm.append_left one.clauses ?_
    rw [← List.append_assoc, ← List.append_assoc]
    exact List.perm_append_comm.append_right lost'
  surplus := by
    rw [List.length_append, surplus, others.surplus, List.map_cons, List.sum_cons]

theorem takeAll_substitutes {indices : List Index} (covers : offer.Covers)
    (fit : ∀ index ∈ indices, index.attributes ≠ [])
    {front rest : List Index} (split : indices = front ++ rest) (lookups : List QueryNode)
    (named : Named offer root) :
    (takeAll offer front.length rest lookups root = .error .clauseOutOfRange ∧
      ∃ index ∈ indices, AskedTwice root index) ∨
    ∃ (taken : List (Substitution indices)) (lost : List (String × Clause))
      (after : List QueryNode),
      takeAll offer front.length rest lookups root =
        .ok (taken.reverse.map Substitution.node ++ lookups, after) ∧
      (∀ one ∈ taken, front.length ≤ one.position) ∧ Exchange root taken lost after := by
  -- Nodes keep their positions, so the offer of the whole query serves after every index.
  induction rest generalizing front lookups root with
  | nil =>
      exact .inr ⟨[], [], root, rfl, fun one there => (by cases there), .nil, .refl root, rfl⟩
  | cons index rest ih =>
      obtain ⟨here, split', length⟩ := getElem?_of_split split
      have member := List.mem_of_getElem? here
      have took : Substitutes offer index root (takeFor root offer index) :=
        takeFor_substitutes named covers (fit index member)
      rw [takeAll]
      generalize takeFor root offer index = outcome at took ⊢
      cases took with
      | nothing =>
          obtain failed | ⟨taken, lost, after, ran, behind, exchange⟩ := ih split' lookups named
          · rw [length] at failed
            exact .inl failed
          · rw [length] at ran behind
            exact .inr ⟨taken, lost, after, ran, fun one there => Nat.le_of_lt (behind one there),
              exchange⟩
      | failed twice => exact .inl ⟨rfl, index, member, twice⟩
      | @taken lookup clauses lost between stands surplus accounts named' =>
          obtain ⟨failed, other, there, twice⟩ | ⟨taken, lost', after, ran, behind, exchange⟩ :=
            ih split' (.lookup ⟨front.length, index.name, lookup⟩ :: lookups) named'
          · rw [length] at failed
            exact .inl ⟨failed, other, there, twice.of_accounts accounts⟩
          · rw [length] at ran behind
            let one : Substitution indices := ⟨front.length, index, here, lookup, clauses, stands⟩
            refine .inr ⟨one :: taken, lost ++ lost', after, ?_, ?_,
              .cons accounts surplus behind exchange⟩
            · rw [ok_bind, List.reverse_cons, List.map_append, List.append_assoc]
              exact ran
            · exact List.forall_mem_cons.2 ⟨Nat.le_refl _, fun other there =>
                Nat.le_of_lt (behind other there)⟩

end Query

end Docstore
