import Docstore.Proofs.Mutation.Effects

set_option autoImplicit false

namespace Docstore
namespace Mutation

open Json

variable {op : MutationOperator} {path : String} {create creates upsert : Bool}
  {doc operand : Json} {members : Members} {items : List Json}
  {edit first second : List Json → List Json}

def onArrays : List MutationOperator :=
  [.push, .pushAll, .pull, .pullAll, .pop]

/-- Edits the array that a member is. What is missing is an empty array, if it may be created. -/
def editArray (creates : Bool) (path : String) (edit : List Json → List Json) (members : Members) :
    Except ExecutionFault Unit × Members :=
  match Members.get? (Path.leaf path) members with
  | some (.array items) => (.ok (), Members.put (Path.leaf path) (.array (edit items)) members)
  | some _ => (.error (.targetNotArray path), members)
  | none =>
    if creates then (.ok (), Members.put (Path.leaf path) (.array (edit [])) members)
    else (.ok (), members)

theorem editMembers_array (listed : op ∈ onArrays) (operand : Json) (members : Members) :
    editMembers ⟨op, path, operand⟩ members =
      editArray op.creates path (editItems op operand) members := by
  unfold editMembers editArray
  simp only [onArrays, List.mem_cons, List.not_mem_nil, or_false] at listed
  cases present : Members.get? (Path.leaf path) members with
  | none =>
      have erased : Members.erase (Path.leaf path) members = members :=
        Members.erase_of_absent present
      obtain rfl | rfl | rfl | rfl | rfl := listed
      all_goals simp [present, editValue, MutationOperator.creates, erased]
  | some found =>
      obtain rfl | rfl | rfl | rfl | rfl := listed
      all_goals cases found <;> simp [present, editValue]

/-- An edit finds an array, or makes one, or finds nothing and may not make it, or fails. -/
theorem editArray_cases (creates : Bool) (path : String) (members : Members) :
    (∃ items, (Members.get? (Path.leaf path) members).getD (.array []) = .array items ∧
      ∀ edit, editArray creates path edit members =
        (.ok (), Members.put (Path.leaf path) (.array (edit items)) members)) ∨
    (creates = false ∧ ∀ edit, editArray creates path edit members = (.ok (), members)) ∨
    ∀ edit, editArray creates path edit members = (.error (.targetNotArray path), members) := by
  unfold editArray
  cases present : Members.get? (Path.leaf path) members with
  | none =>
      cases creates with
      | true => exact .inl ⟨[], rfl, fun _ => rfl⟩
      | false => exact .inr (.inl ⟨rfl, fun _ => rfl⟩)
  | some found =>
      cases found with
      | array items => exact .inl ⟨items, rfl, fun _ => rfl⟩
      | _ => exact .inr (.inr fun _ => rfl)

theorem editArray_put (creates : Bool) (path : String) (edit : List Json → List Json)
    (items : List Json) (members : Members) :
    editArray creates path edit (Members.put (Path.leaf path) (.array items) members) =
      (.ok (), Members.put (Path.leaf path) (.array (edit items)) members) := by
  simp only [editArray, Members.get?_put, if_true, Members.put_put]

theorem editArray_editArray (done : (editArray creates path first members).1 = .ok ()) :
    editArray creates path second (editArray creates path first members).2 =
      editArray creates path (second ∘ first) members := by
  obtain ⟨items, -, made⟩ | ⟨-, idle⟩ | failed := editArray_cases creates path members
  · rw [made, made, editArray_put]
    rfl
  · rw [idle, idle, idle]
  · rw [failed] at done
    cases done

/-- Edits the array at a path, where the walk of the path ends at an object. -/
def editAt (create creates : Bool) (path : String) (edit : List Json → List Json) (doc : Json) :
    Except ExecutionFault Unit × Json :=
  let edited := doc.atContainer create (editArray creates path edit) (Path.walk path)
  (edited.1.getD (.ok ()), edited.2)

theorem editAt_reached (reached : doc.container? create (Path.walk path) = some members) :
    editAt create creates path edit doc = ((editArray creates path edit members).1,
      doc.withMembers create (Path.walk path) (editArray creates path edit members).2) := by
  simp only [editAt, atContainer_eq _ reached, Option.getD_some]

theorem editAt_nowhere (ordered : doc.Ordered)
    (nowhere : doc.container? create (Path.walk path) = none) :
    editAt create creates path edit doc = (.ok (), doc) := by
  refine Prod.ext ?_ (atContainer_self ordered fun members reached => ?_)
  · simp only [editAt, atContainer_result, nowhere, Option.map_none, Option.getD_none]
  · rw [nowhere] at reached
    cases reached

theorem apply_array (listed : op ∈ onArrays)
    (checked : (⟨op, path, operand⟩ : Mutation).check = .ok ()) :
    (⟨op, path, operand⟩ : Mutation).apply upsert doc =
      editAt (upsert && op.creates) op.creates path (editItems op operand) doc := by
  have same : editMembers ⟨op, path, operand⟩ =
      editArray op.creates path (editItems op operand) := funext (editMembers_array listed operand)
  simp only [apply, checked, same, editAt]

theorem editAt_editAt (ordered : doc.Ordered)
    (done : (editAt create creates path first doc).1 = .ok ()) :
    editAt create creates path second (editAt create creates path first doc).2 =
      editAt create creates path (second ∘ first) doc := by
  cases reached : doc.container? create (Path.walk path) with
  | none => simp only [editAt_nowhere ordered reached]
  | some members =>
      rw [editAt_reached reached] at done ⊢
      rw [editAt_reached (container?_withMembers create reached _), editArray_editArray done,
        withMembers_withMembers create reached, editAt_reached reached]

/-- Whether an edit succeeds is not up to what it makes of the items, nor is what it leaves where it
fails. -/
theorem editAt_succeeds_or_fails (create creates : Bool) (path : String) (doc : Json) :
    (∀ edit, (editAt create creates path edit doc).1 = .ok ()) ∨
      ∃ fault after, ∀ edit, editAt create creates path edit doc = (.error fault, after) := by
  cases reached : doc.container? create (Path.walk path) with
  | none =>
      left
      intro edit
      simp only [editAt, atContainer_result, reached, Option.map_none, Option.getD_none]
  | some members =>
      simp only [editAt_reached reached]
      obtain ⟨items, -, made⟩ | ⟨-, idle⟩ | failed := editArray_cases creates path members
      · exact .inl fun edit => by rw [made]
      · exact .inl fun edit => by rw [idle]
      · exact .inr ⟨_, _, fun edit => by rw [failed]⟩

def each (op : MutationOperator) (path : String) (operands : List Json) : List Mutation :=
  operands.map fun operand => ⟨op, path, operand⟩

/-- The items of an array after one operator with each of some operands. -/
def editEach (op : MutationOperator) (operands items : List Json) : List Json :=
  operands.foldl (fun items operand => editItems op operand items) items

section Runs

variable (listed : op ∈ onArrays)
  (checked : ∀ operand, (⟨op, path, operand⟩ : Mutation).check = .ok ())

include listed checked

/-- After an edit that succeeds, mutations one after the other edit further what it has made. -/
theorem applyAll_after (ordered : doc.Ordered) (edit : List Json → List Json)
    (operands : List Json)
    (succeeds : ∀ edit, (editAt (upsert && op.creates) op.creates path edit doc).1 = .ok ()) :
    applyAll upsert (each op path operands)
        (editAt (upsert && op.creates) op.creates path edit doc).2 =
      (.ok (), (editAt (upsert && op.creates) op.creates path
        (editEach op operands ∘ edit) doc).2) := by
  -- Each mutation joins the edits before it, so the document stays the one at the start.
  induction operands generalizing edit with
  | nil => rfl
  | cons operand rest ih =>
      have applied : (⟨op, path, operand⟩ : Mutation).apply upsert
          (editAt (upsert && op.creates) op.creates path edit doc).2 =
            (.ok (), (editAt (upsert && op.creates) op.creates path
              (editItems op operand ∘ edit) doc).2) := by
        rw [apply_array listed (checked operand), editAt_editAt ordered (succeeds edit)]
        exact Prod.ext (succeeds _) rfl
      simp only [each, List.map_cons, applyAll, applied]
      exact ih (editItems op operand ∘ edit)

/-- Mutations one after the other, at least one, edit the array at their path once. -/
theorem applyAll_each (ordered : doc.Ordered) (operand : Json) (rest : List Json) :
    applyAll upsert (each op path (operand :: rest)) doc =
      let edited :=
        editAt (upsert && op.creates) op.creates path (editEach op (operand :: rest)) doc
      (edited.1.mapError (.inOpcode op.opcode), edited.2) := by
  have applied : (⟨op, path, operand⟩ : Mutation).apply upsert doc =
      editAt (upsert && op.creates) op.creates path (editItems op operand) doc :=
    apply_array listed (checked operand)
  obtain succeeds | ⟨fault, after, fails⟩ :=
    editAt_succeeds_or_fails (upsert && op.creates) op.creates path doc
  · have further := applyAll_after listed checked ordered (editItems op operand) rest succeeds
    have done : editAt (upsert && op.creates) op.creates path (editItems op operand) doc =
        (.ok (), (editAt (upsert && op.creates) op.creates path (editItems op operand) doc).2) :=
      Prod.ext (succeeds _) rfl
    rw [done] at applied
    simp only [each, List.map_cons, applyAll, applied, succeeds]
    exact further
  · rw [fails] at applied
    simp only [each, List.map_cons, applyAll, applied, fails]
    rfl

end Runs

theorem editEach_push (operands items : List Json) :
    editEach .push operands items = items ++ operands := by
  induction operands generalizing items with
  | nil => exact (List.append_nil items).symm
  | cons operand rest ih =>
      calc editEach .push rest (items ++ [operand])
          = items ++ [operand] ++ rest := ih (items ++ [operand])
        _ = items ++ operand :: rest := (List.append_cons items operand rest).symm

theorem editEach_pull (operands items : List Json) :
    editEach .pull operands items =
      items.filter fun item => !operands.any fun operand => item.equal operand := by
  induction operands generalizing items with
  | nil => simp [editEach]
  | cons operand rest ih =>
      calc editEach .pull rest (items.filter fun item => !item.equal operand)
          = (items.filter fun item => !item.equal operand).filter
              fun item => !rest.any fun operand => item.equal operand := ih _
        _ = items.filter fun item => !(operand :: rest).any fun operand => item.equal operand := by
            rw [List.filter_filter]
            congr 1
            funext item
            rw [List.any_cons, Bool.not_or, Bool.and_comm]

/-- A mutation makes of a document what mutations of one operator at its path make of it one after
the other, up to the first that fails, and with the same outcome. -/
def Repeats (bulk : Mutation) (op : MutationOperator) (operands : List Json) (upsert : Bool)
    (doc : Json) : Prop :=
  applyAll upsert (each op bulk.path operands) doc =
    ((bulk.apply upsert doc).1.mapError (.inOpcode op.opcode), (bulk.apply upsert doc).2)

/-- Where the bulk operator makes of the items what single ones make of them, it makes of the
document what they do. -/
theorem repeats_of_items (op bulk : MutationOperator) (ordered : doc.Ordered)
    (listed : op ∈ onArrays) (listed' : bulk ∈ onArrays) (alike : op.creates = bulk.creates)
    (checked : ∀ operand, (⟨op, path, operand⟩ : Mutation).check = .ok ())
    (checked' : (⟨bulk, path, operand⟩ : Mutation).check = .ok ()) {operands : List Json}
    (nonempty : operands ≠ []) (same : editEach op operands = editItems bulk operand)
    (upsert : Bool) :
    (⟨bulk, path, operand⟩ : Mutation).Repeats op operands upsert doc := by
  obtain ⟨first, rest, rfl⟩ := List.exists_cons_of_ne_nil nonempty
  rw [Repeats, applyAll_each listed checked ordered, apply_array listed' checked', same, alike]

/-- Values are pulled from an array at a path: what is left are the items that equal none of them,
in their order. -/
def Pulled (path : String) (items values : List Json)
    (applied : Except ExecutionFault Unit × Json) : Prop :=
  applied.1 = .ok () ∧ ∃ rest, applied.2.lookup path = some (.array rest) ∧
    rest = (items.filter fun item => !values.any fun value => item.equal value) ∧
    ∀ item ∈ rest, ∀ value ∈ values, item.equal value = false

/-- Values are pulled from an array that is there by an edit that leaves the other items. -/
theorem pulled_of_found {values : List Json} (listed : op ∈ onArrays)
    (checked : (⟨op, path, operand⟩ : Mutation).check = .ok ())
    (found : doc.target? (upsert && op.creates) path = some (some (.array items)))
    (left : editItems op operand items =
      items.filter fun item => !values.any fun value => item.equal value) :
    Pulled path items values ((⟨op, path, operand⟩ : Mutation).apply upsert doc) := by
  obtain ⟨members, reached, present⟩ := Option.map_eq_some_iff.1 found
  have edited : editArray op.creates path (editItems op operand) members =
      (.ok (), Members.put (Path.leaf path) (.array (editItems op operand items)) members) := by
    simp only [editArray, present]
  rw [← editMembers_array listed operand members] at edited
  have read := lookup_apply checked reached
  have outcome := congrArg Prod.fst (apply_reached checked reached)
  rw [edited] at read outcome
  refine ⟨outcome, _, read.trans ((Members.get?_put _ _ _ _).trans (if_pos rfl)), left, ?_⟩
  intro item there value pulled
  rw [left, List.mem_filter, Bool.not_eq_true', List.any_eq_false] at there
  simpa using there.2 value pulled

def lastItem : Json := .number (.int 1 (by decide) (by decide))

section Writes

variable (free : path ≠ identity)

include free

theorem check_push (operand : Json) : (⟨.push, path, operand⟩ : Mutation).check = .ok () := by
  simp [check, free]

theorem check_pushAll (operands : List Json) :
    (⟨.pushAll, path, .array operands⟩ : Mutation).check = .ok () := by
  simp [check, free, Json.items?]

theorem check_pull (operand : Json) : (⟨.pull, path, operand⟩ : Mutation).check = .ok () := by
  simp [check, free]

theorem check_pullAll (operands : List Json) :
    (⟨.pullAll, path, .array operands⟩ : Mutation).check = .ok () := by
  simp [check, free, Json.items?]

theorem check_pop : (⟨.pop, path, lastItem⟩ : Mutation).check = .ok () := by
  simp [check, free, lastItem, Json.number?, Number.signed?]

/-- To pop what has just been pushed is to set the array that was there, or an empty one. -/
theorem pop_after_push {present : Option Json} (found : doc.target? upsert path = some present)
    (done : ((⟨.push, path, operand⟩ : Mutation).apply upsert doc).1 = .ok ()) (again : Bool) :
    ∃ items, present.getD (.array []) = .array items ∧
      (⟨.pop, path, lastItem⟩ : Mutation).apply again
          ((⟨.push, path, operand⟩ : Mutation).apply upsert doc).2 =
        (.ok (), ((⟨.set, path, .array items⟩ : Mutation).apply upsert doc).2) := by
  obtain ⟨members, reached, rfl⟩ := Option.map_eq_some_iff.1 found
  have pushed := apply_creating (check_push free operand) rfl reached
  rw [editMembers_array (by decide)] at pushed
  rw [pushed] at done ⊢
  obtain ⟨items, array, made⟩ | ⟨never, -⟩ | failed :=
    editArray_cases MutationOperator.push.creates path members
  · refine ⟨items, array, ?_⟩
    -- The array is in place now, so it is no matter to the pop whether it was made on the way.
    have there := container?_withMembers (again && MutationOperator.pop.creates) reached
      (Members.put (Path.leaf path) (.array (items ++ [operand])) members)
    have popped := apply_reached (check_pop free) there
    rw [editMembers_array (by decide), editArray_put, withMembers_withMembers _ reached] at popped
    have last : editItems .pop lastItem (items ++ [operand]) = items := List.dropLast_concat
    rw [last] at popped
    rw [made, apply_creating (check_set free (.array items)) rfl reached]
    exact popped
  · cases never
  · rw [failed] at done
    cases done

theorem pushAll_repeats (ordered : doc.Ordered) {values : List Json} (nonempty : values ≠ [])
    (upsert : Bool) :
    (⟨.pushAll, path, .array values⟩ : Mutation).Repeats .push values upsert doc :=
  repeats_of_items .push .pushAll ordered (by decide) (by decide) rfl (check_push free)
    (check_pushAll free values) nonempty (funext (editEach_push values)) upsert

theorem pullAll_repeats (ordered : doc.Ordered) {values others : List Json}
    (nonempty : values ≠ []) (perm : others.Perm values) (upsert : Bool) :
    (⟨.pullAll, path, .array values⟩ : Mutation).Repeats .pull others upsert doc := by
  have nonempty' : others ≠ [] := fun empty => nonempty (List.nil_perm.1 (empty ▸ perm))
  refine repeats_of_items .pull .pullAll ordered (by decide) (by decide) rfl (check_pull free)
    (check_pullAll free values) nonempty' (funext fun items => ?_) upsert
  simp only [editEach_pull, editItems, perm.any_eq]

end Writes

/-- To push or pull many values is to push or pull one after the other, for pulls in any order: the
document and the outcome are the same. From an array a pull takes what equals a pulled value and
nothing else, and to pop what has been pushed brings back the array that was there, or leaves an
empty one where nothing was. -/
theorem bulk_repeats_single (ordered : doc.Ordered) (free : path ≠ identity) (upsert : Bool)
    {values : List Json} (nonempty : values ≠ []) :
    (⟨.pushAll, path, .array values⟩ : Mutation).Repeats .push values upsert doc ∧
    (∀ others, others.Perm values →
      (⟨.pullAll, path, .array values⟩ : Mutation).Repeats .pull others upsert doc) ∧
    (∀ items, doc.target? false path = some (some (.array items)) →
      (∀ value, Pulled path items [value] ((⟨.pull, path, value⟩ : Mutation).apply upsert doc)) ∧
      Pulled path items values
        ((⟨.pullAll, path, .array values⟩ : Mutation).apply upsert doc)) ∧
    ∀ value present again,
      let pushed := (⟨.push, path, value⟩ : Mutation).apply upsert doc
      let popped := (⟨.pop, path, lastItem⟩ : Mutation).apply again pushed.2
      doc.target? upsert path = some present → pushed.1 = .ok () →
        popped.1 = .ok () ∧ (∀ there, present = some there → popped.2 = doc) ∧
        (present = none →
          popped.2 = ((⟨.set, path, .array []⟩ : Mutation).apply upsert doc).2) := by
  refine ⟨pushAll_repeats free ordered nonempty upsert,
    fun others perm => pullAll_repeats free ordered nonempty perm upsert, fun items found => ?_,
    ?_⟩
  · rw [← Bool.and_false upsert] at found
    have one : ∀ value, editItems .pull value items =
        items.filter fun item => !([value].any fun value => item.equal value) := by
      simp [editItems]
    exact ⟨fun value => pulled_of_found (by decide) (check_pull free value) found (one value),
      pulled_of_found (by decide) (check_pullAll free values) found rfl⟩
  · intro value present again pushed popped found done
    obtain ⟨items, array, same⟩ := pop_after_push free found done again
    have result : popped =
        (.ok (), ((⟨.set, path, .array items⟩ : Mutation).apply upsert doc).2) := same
    refine ⟨by rw [result], ?_, ?_⟩
    · rintro there rfl
      obtain rfl : there = .array items := array
      rw [result]
      exact set_there free (.array items) upsert ordered (lookup_of_target? found)
    · rintro rfl
      cases array
      rw [result]

/-- From marks among which a zero is written in two ways, zeros and nulls are pulled in either
order. A mark that is pushed can be popped again, from the marks that are there and from new ones.
-/
theorem marks_pulled_and_pushed :
    let float := Json.number (.float .zero rfl)
    let marks := [.number .zero, .string "late", .null, float]
    let doc := Json.object [("marks", .array marks)]
    let values : List Json := [.null, .number .zero]
    let pullAll : Mutation := ⟨.pullAll, "marks", .array values⟩
    let push (path : String) : Mutation := ⟨.push, path, .null⟩
    let pop (path : String) : Mutation := ⟨.pop, path, lastItem⟩
    (⟨.pushAll, "marks", .array values⟩ : Mutation).Repeats .push values true doc ∧
    pullAll.Repeats .pull values.reverse true doc ∧
    Pulled "marks" marks values (pullAll.apply true doc) ∧
    (pullAll.apply true doc).2.lookup "marks" = some (.array [.string "late"]) ∧
    ((pop "marks").apply false ((push "marks").apply true doc).2).2 = doc ∧
    ((pop "home.marks").apply false ((push "home.marks").apply true doc).2).2.lookup "home.marks" =
      some (.array []) := by
  intro float marks doc values pullAll push pop
  have ordered : doc.Ordered :=
    ⟨List.pairwise_singleton _ _, ⟨trivial, trivial, trivial, trivial, trivial⟩, trivial⟩
  have nonempty : values ≠ [] := List.cons_ne_nil _ _
  have found : doc.target? false "marks" = some (some (.array marks)) := by cbv
  obtain ⟨pushed, pulled, left, popped⟩ :=
    bulk_repeats_single ordered (show "marks" ≠ identity by decide) true nonempty
  obtain ⟨-, -, -, popped'⟩ :=
    bulk_repeats_single ordered (show "home.marks" ≠ identity by decide) true nonempty
  obtain ⟨-, restored, -⟩ := popped .null (some (.array marks)) false (by cbv) (by cbv)
  obtain ⟨-, -, emptied⟩ := popped' .null none false (by cbv) (by cbv)
  refine ⟨pushed, pulled _ (List.reverse_perm values), (left marks found).2, by cbv,
    restored _ rfl, ?_⟩
  rw [emptied rfl]
  cbv

end Mutation
end Docstore
