import Docstore.Proofs.Number.Equality
import Docstore.Proofs.Query.Parsed
import Docstore.Query.Grammar

set_option autoImplicit false

namespace Docstore

/-- A number is zero or more just if its double is not marked as less than zero. -/
theorem Number.isNonnegative_iff (n : Number) :
    n.IsNonnegative ↔ (n.toBinary64.negative && !n.toBinary64.isZero) = false := by
  cases n with
  | int a lower upper =>
      rw [toBinary64, sign_ofInt, decide_eq_false_iff_not, not_lt]
      rfl
  | float x finite =>
      have zero : x.isZero = true ↔ x.units = 0 := Binary64.isZero_iff
      rw [IsNonnegative, toBinary64, Binary64.signedUnits]
      cases x.negative with
      | false => simp
      | true => simp [zero]

theorem Geo.coordinate?_eq_some {value : Json} {x : Binary64} :
    Geo.coordinate? value = some x ↔ ∃ n, value = .number n ∧ n.toBinary64 = x := by
  cases value <;> simp [Geo.coordinate?, Json.number?]

namespace Operator

theorem ofSymbol?_eq_some {symbol : String} {op : Operator} :
    Operator.ofSymbol? symbol = some op ↔ op.symbol = symbol := by
  constructor
  · intro named
    have found := List.find?_some named
    exact beq_iff_eq.1 found
  · rintro rfl
    cases op <;> rfl

theorem isOperatorKey_symbol (op : Operator) : isOperatorKey op.symbol = true := by
  cases op <;> rfl

theorem takes_list {op : Operator} (shape : op.shape = .list) {value : Json} :
    op.Takes value ↔ ∃ items, value = .array items := by
  cases op with
  | isIn | notIn | all => rfl
  | _ => cases shape

/-- An area is read where there is a centre with a distance that is not negative. -/
theorem takes_area {op : Operator} (shape : op.shape = .area) {value : Json} :
    op.Takes value ↔ ∃ area, areaOf? value = some area := by
  have takes : op.Takes value ↔ ∃ lat lon distance, value.get? "lat" = some (.number lat) ∧
      value.get? "lon" = some (.number lon) ∧ value.get? "distance" = some (.number distance) ∧
      distance.IsNonnegative := by
    cases op with
    | near | within => rfl
    | _ => cases shape
  rw [takes]
  simp only [areaOf?, Option.bind_eq_bind, Option.bind_eq_some_iff, Geo.coordinate?_eq_some,
    Number.isNonnegative_iff]
  constructor
  · rintro ⟨lat, lon, distance, there, there', there'', positive⟩
    refine ⟨⟨lat.toBinary64, lon.toBinary64, distance.toBinary64⟩, _, ⟨_, there, lat, rfl, rfl⟩, _,
      ⟨_, there', lon, rfl, rfl⟩, _, ⟨_, there'', distance, rfl, rfl⟩, ?_⟩
    rw [positive]
    rfl
  · rintro ⟨area, _, ⟨_, there, lat, rfl, rfl⟩, _, ⟨_, there', lon, rfl, rfl⟩, _,
      ⟨_, there'', distance, rfl, rfl⟩, read⟩
    rw [Option.ite_none_left_eq_some] at read
    exact ⟨lat, lon, distance, there, there', there'', by simpa using read.1⟩

theorem takes_size {value : Json} : size.Takes value ↔ value.unsigned? ≠ none := by
  cases value with
  | number n =>
      cases n with
      | int a lower upper =>
          simp only [Takes, Json.unsigned?, Json.number?, Option.bind_some, Number.unsigned?]
          constructor
          · rintro ⟨count, _, _, same, positive⟩
            obtain ⟨rfl⟩ := Number.int.inj (Json.number.inj same)
            simp [positive]
          · intro counts
            exact ⟨a, lower, upper, rfl, by simpa using counts⟩
      | float x finite => simp [Takes, Json.unsigned?, Json.number?, Number.unsigned?]
  | _ => simp [Takes, Json.unsigned?, Json.number?]

theorem takes_present {value : Json} : present.Takes value ↔ value.bool? ≠ none := by
  cases value <;> simp [Takes, Json.bool?]

end Operator

/-- An operator reads the operands that it takes. -/
theorem operandOf_accepts (path : String) (op : Operator) (value : Json) :
    (∃ operand, operandOf path op value = .ok operand) ↔ op.Takes value := by
  unfold operandOf
  cases shape : op.shape with
  | list =>
      rw [Operator.takes_list shape]
      cases value <;> simp
  | area =>
      rw [Operator.takes_area shape]
      cases areaOf? value <;> simp
  | bound =>
      cases op with
      | gt | gte | lt | lte => exact iff_of_true ⟨_, rfl⟩ trivial
      | _ => cases shape
  | single =>
      cases op with
      | eq | ne => exact iff_of_true ⟨_, rfl⟩ trivial
      | size =>
          rw [Operator.takes_size]
          cases value.unsigned? <;> simp
      | present =>
          rw [Operator.takes_present]
          cases value.bool? <;> simp
      | _ => cases shape

/-- A symbol with an operand is read if it is of an operator that takes the operand. -/
theorem clauseOf_accepts (path symbol : String) (value : Json) :
    (∃ clause, clauseOf path symbol value = .ok clause) ↔
      ∃ op : Operator, op.symbol = symbol ∧ op.Takes value := by
  unfold clauseOf
  cases named : Operator.ofSymbol? symbol with
  | none =>
      constructor
      · rintro ⟨clause, read⟩
        dsimp only at read
        split at read
        · cases read
        · cases read
      · rintro ⟨op, called, -⟩
        rw [Operator.ofSymbol?_eq_some.2 called] at named
        cases named
  | some op =>
      dsimp only
      rw [exists_bind_eq_ok]
      constructor
      · rintro ⟨operand, read, -⟩
        exact ⟨op, Operator.ofSymbol?_eq_some.1 named,
          (operandOf_accepts path op value).1 ⟨_, read⟩⟩
      · rintro ⟨op', called, takes⟩
        obtain rfl : op = op' :=
          Option.some.inj (named.symm.trans (Operator.ofSymbol?_eq_some.2 called))
        obtain ⟨operand, read⟩ := (operandOf_accepts path op value).2 takes
        exact ⟨operand, read, _, rfl⟩

/-- A path reads the conditions. -/
theorem clausesOf_accepts (path : String) (value : Json) :
    (∃ clauses, clausesOf path value = .ok clauses) ↔ Predicate.Condition value := by
  unfold clausesOf
  cases value with
  | object members =>
      rw [Predicate.condition_object]
      dsimp only
      by_cases any : (members.any fun member => isOperatorKey member.1) = true
      · have mixed : ¬ ∀ member ∈ members, isOperatorKey member.1 = false := by
          obtain ⟨member, there, called⟩ := List.any_eq_true.1 any
          intro plain
          rw [plain member there] at called
          cases called
        rw [if_pos any, or_iff_right mixed]
        by_cases all : (members.all fun member => isOperatorKey member.1) = true
        · simp only [if_pos all, exists_mapM_eq_ok, clauseOf_accepts]
        · rw [if_neg all]
          apply iff_of_false
          · simp
          · intro each
            apply all
            rw [List.all_eq_true]
            intro member there
            obtain ⟨op, called, -⟩ := each member there
            rw [← called, op.isOperatorKey_symbol]
      · rw [if_neg any]
        apply iff_of_true
        · exact ⟨_, rfl⟩
        · left
          simpa using any
  | _ => exact iff_of_true ⟨_, rfl⟩ (.value rfl)

theorem groupItem_iff {connective : Connective} {item : Json} :
    GroupItem connective item ↔ Predicate.Item connective item := by
  refine exists_congr fun members => and_congr_right fun _ => ?_
  rw [and_comm, ← Members.contains_iff, Bool.not_eq_true]

/-- A group is read on if there are items enough and each is what the grammar asks of it. -/
theorem checkGroup_accepts {α : Type} {connective : Connective} {items : List Json}
    {next : Except QueryFault α} :
    (∃ a, (checkGroup connective (.array items) >>= fun _ => next) = .ok a) ↔
      2 ≤ items.length ∧ (∀ item ∈ items, Predicate.Item connective item) ∧
        ∃ a, next = .ok a := by
  have checks : checkGroup connective (.array items) = .ok () ↔
      2 ≤ items.length ∧ ∀ item ∈ items, Predicate.Item connective item := by
    simp only [checkGroup_eq_ok, Json.array.injEq, exists_eq_left', groupItem_iff]
  rw [exists_bind_eq_ok, ← and_assoc, ← checks]
  exact ⟨fun ⟨_, checked⟩ => checked, fun checked => ⟨(), checked⟩⟩

/-- Where every path has its condition at the position kept for it, clauses find their place. -/
theorem Conjunction.addClauses_succeeds {good : Json → Prop} {conjunction : Conjunction}
    (formed : conjunction.Formed good) (path : String) (clauses : List Clause) :
    ∃ after, conjunction.addClauses path clauses = .ok after := by
  unfold addClauses
  cases named : conjunction.positions.get? path with
  | none => exact ⟨_, rfl⟩
  | some position =>
      obtain ⟨present, found⟩ := formed.placed path position named
      dsimp only
      rw [found]
      exact ⟨_, rfl⟩

open Predicate in
mutual

/-- A conjunction takes in a member of the grammar and no other. -/
theorem addMember_accepts (value : Json) {conjunction : Conjunction}
    (formed : conjunction.Formed fun _ => True) (key : String) :
    (∃ after, addMember conjunction key value = .ok after) ↔ GrammaticalMember key value := by
  unfold addMember
  by_cases named : key = Connective.and.symbol
  · subst named
    rw [if_pos rfl, grammaticalMember_group]
    cases value with
    | array items =>
        simp only [checkGroup_accepts, Json.array.injEq, exists_eq_left']
        refine and_congr_right fun _ => and_congr_right fun each => ?_
        exact addItems_accepts items formed each
    | _ => simp [bind_eq_ok]
  · rw [if_neg named]
    by_cases named' : key = Connective.or.symbol
    · subst named'
      rw [if_pos rfl, grammaticalMember_group]
      cases value with
      | array items =>
          simp only [checkGroup_accepts, Json.array.injEq, exists_eq_left']
          refine and_congr_right fun _ => and_congr_right fun each => ?_
          rw [exists_bind_eq_ok, ← branchesOf_accepts items each]
          simp
      | _ => simp [bind_eq_ok]
    · rw [if_neg named', grammaticalMember_path named named', ← clausesOf_accepts key]
      by_cases called : isOperatorKey key = true
      · simp [called]
      · rw [if_neg called, exists_bind_eq_ok]
        simp only [Conjunction.addClauses_succeeds formed, and_true, Bool.eq_false_iff.2 called,
          true_and]

theorem addMembers_accepts (members : Members) {conjunction : Conjunction}
    (formed : conjunction.Formed fun _ => True) :
    (∃ after, addMembers conjunction members = .ok after) ↔
      ∀ member ∈ members, GrammaticalMember member.1 member.2 := by
  cases members with
  | nil => exact iff_of_true ⟨conjunction, rfl⟩ (by simp)
  | cons member rest =>
      obtain ⟨key, value⟩ := member
      rw [addMembers, List.forall_mem_cons, ← addMember_accepts value formed key]
      refine exists_bind_iff fun between first => ?_
      exact addMembers_accepts rest
        (addMember_spec Json.inherited_any value trivial formed first).formed

theorem addItems_accepts (items : List Json) {conjunction : Conjunction}
    (formed : conjunction.Formed fun _ => True) (each : ∀ item ∈ items, Item .and item) :
    (∃ after, addItems conjunction items = .ok after) ↔ ∀ item ∈ items, Grammatical item := by
  cases items with
  | nil => exact iff_of_true ⟨conjunction, rfl⟩ (by simp)
  | cons item rest =>
      obtain ⟨⟨members, same, full, -⟩, each'⟩ := List.forall_mem_cons.1 each
      cases item with
      | object members' =>
          obtain rfl := Json.object.inj same
          rw [addItems, List.forall_mem_cons, grammatical_object,
            ← addMembers_accepts members' formed]
          refine exists_bind_iff fun between first => ?_
          exact addItems_accepts rest (addMembers_spec Json.inherited_any members'
            (fun _ _ => trivial) formed full first).formed each'
      | _ => cases same

theorem branchesOf_accepts (items : List Json) (each : ∀ item ∈ items, Item .or item) :
    (∃ branches, branchesOf items = .ok branches) ↔ ∀ item ∈ items, Grammatical item := by
  cases items with
  | nil => exact iff_of_true ⟨[], rfl⟩ (by simp)
  | cons item rest =>
      obtain ⟨⟨members, same, -⟩, each'⟩ := List.forall_mem_cons.1 each
      cases item with
      | object members' =>
          rw [branchesOf, List.forall_mem_cons, grammatical_object,
            ← addMembers_accepts members' Conjunction.formed_empty, ← branchesOf_accepts rest each']
          refine exists_bind_iff fun conjunction _ => ?_
          rw [exists_bind_eq_ok]
          simp
      | _ => cases same

end

/-- A query is read from the predicates of the grammar and from no other value. -/
theorem Query.parse_accepts_grammar (predicate : Json) :
    (∃ query, Query.parse predicate = .ok query) ↔ Predicate.Grammatical predicate := by
  have read : (∃ query, Query.parse predicate = .ok query) ↔
      ∃ nodes, Query.nodesOf predicate = .ok nodes := by
    unfold Query.parse
    cases Query.nodesOf predicate <;> simp
  rw [read]
  cases predicate with
  | object members =>
      rw [Query.nodesOf, exists_bind_eq_ok, Predicate.grammatical_object,
        ← addMembers_accepts members Conjunction.formed_empty]
      simp
  | _ => exact iff_of_false (by rintro ⟨nodes, read⟩; cases read) (by rintro ⟨⟩)

end Docstore
