import Docstore.Proofs.Mutation
import Docstore.Proofs.Mutation.Outcomes

set_option autoImplicit false

namespace Docstore

namespace Path

theorem segments_eq (path : String) : segments path = walk path ++ [leaf path] := by
  have full : segments path ≠ [] := by simp [segments, splitDots_ne_nil]
  rw [walk, leaf, List.getLast?_eq_some_getLast full, Option.getD_some,
    List.dropLast_append_getLast full]

end Path

namespace Json

variable {doc : Json} {path : String}

theorem follow_append (first second : List String) (doc : Json) :
    doc.follow (first ++ second) = (doc.follow first).bind (follow second) := by
  induction first generalizing doc with
  | nil => rfl
  | cons segment rest ih =>
      rw [List.cons_append, follow, follow, Option.bind_assoc]
      exact congrArg _ (funext ih)

theorem lookup_eq (doc : Json) (path : String) :
    doc.lookup path = (doc.follow (Path.walk path)).bind (child? (Path.leaf path)) := by
  rw [lookup, Path.segments_eq, follow_append]
  refine congrArg _ (funext fun value => ?_)
  rw [follow]
  cases value.child? (Path.leaf path) <;> rfl

theorem lookup_of_follow {members : Members}
    (there : doc.follow (Path.walk path) = some (.object members)) :
    doc.lookup path = Members.get? (Path.leaf path) members := by
  rw [lookup_eq, there]
  rfl

/-- What a mutation finds at the end of its path: a member of the object there, or no such member.
Where the walk ends at no object it finds no place. -/
def target? (create : Bool) (path : String) (doc : Json) : Option (Option Json) :=
  (doc.container? create (Path.walk path)).map (Members.get? (Path.leaf path))

theorem lookup_of_target? {create : Bool} {value : Json}
    (found : doc.target? create path = some (some value)) : doc.lookup path = some value := by
  obtain ⟨members, reached, present⟩ := Option.map_eq_some_iff.1 found
  obtain there | ⟨-, -, rfl⟩ := follow_of_container? reached
  · rw [lookup_of_follow there, present]
  · cases present

end Json

namespace Mutation

open Json

variable {mutation : Mutation} {upsert : Bool} {doc : Json} {path : String}

def removing : List MutationOperator :=
  [.unset, .pull, .pullAll, .pop]

theorem not_creates (removes : mutation.op ∈ removing) : mutation.op.creates = false := by
  have each : ∀ op ∈ removing, op.creates = false := by decide
  exact each _ removes

theorem editItems_sublist {op : MutationOperator} (removes : op ∈ removing) (operand : Json)
    (items : List Json) : (editItems op operand items).Sublist items := by
  simp only [removing, List.mem_cons, List.not_mem_nil, or_false] at removes
  obtain rfl | rfl | rfl | rfl := removes
  · exact .refl items
  · exact List.filter_sublist
  · cases operand with
    | array pulled => exact List.filter_sublist
    | _ => exact .refl items
  · rw [editItems]
    split
    · exact List.tail_sublist items
    · exact List.dropLast_sublist items

/-- What a removing operator leaves of a member is an array that was there, with items taken out. -/
theorem editValue_removing (removes : mutation.op ∈ removing) {present : Option Json} {value : Json}
    (edited : mutation.editValue present = .ok (some value)) :
    ∃ items, present = some (.array items) ∧
      value = .array (editItems mutation.op mutation.operand items) := by
  obtain ⟨op, path, operand⟩ := mutation
  simp only [removing, List.mem_cons, List.not_mem_nil, or_false] at removes
  obtain rfl | rfl | rfl | rfl := removes
  · cases edited
  all_goals
    cases present with
    | none => cases edited
    | some found =>
        cases found with
        | array items => exact ⟨items, rfl, (Option.some.inj (Except.ok.inj edited)).symm⟩
        | _ => cases edited

/-- A removing operator leaves something of an object and adds nothing to it. -/
theorem partOf_editMembers (removes : mutation.op ∈ removing) {members : Members}
    (ordered : (object members).Ordered) :
    PartOf (.object (mutation.editMembers members).2) (.object members) := by
  unfold editMembers
  cases edited : mutation.editValue (Members.get? (Path.leaf mutation.path) members) with
  | error fault =>
      simp only [edited]
      exact .self _
  | ok value =>
      cases value with
      | none =>
          simp only [edited]
          exact .of_members (Members.erase_sublist _ members)
      | some value =>
          simp only [edited]
          obtain ⟨items, present, rfl⟩ := editValue_removing removes edited
          exact .withChild ordered present (.of_items (editItems_sublist removes _ items))

theorem editMembers_absent (removes : mutation.op ∈ removing) {members : Members}
    (absent : members.get? (Path.leaf mutation.path) = none) :
    (mutation.editMembers members).2 = members := by
  obtain ⟨op, path, operand⟩ := mutation
  have erased : Members.erase (Path.leaf path) members = members :=
    Members.erase_of_absent absent
  simp only [removing, List.mem_cons, List.not_mem_nil, or_false] at removes
  obtain rfl | rfl | rfl | rfl := removes
  all_goals
    simp only [editMembers, editValue, absent]
    exact erased

/-- A mutation changes its document as a whole or not at all: where it fails, and where its walk
ends at no object, nothing has been created on the way. The operators that take something out create
nothing at all: they leave a part of the document, they leave a document alone that has nothing at
the path, and it makes no difference to them whether others may create. -/
theorem changes_whole_or_not {doc : Json} (ordered : doc.Ordered) (mutation : Mutation)
    (upsert : Bool) :
    (∀ fault, (mutation.apply upsert doc).1 = .error fault →
      (mutation.apply upsert doc).2 = doc) ∧
    (∀ (α : Type) (create : Bool) (edit : Members → α × Members) (path : String),
      (doc.atContainer create edit (Path.walk path)).1 = none →
        (doc.atContainer create edit (Path.walk path)).2 = doc) ∧
    (mutation.op ∈ [.unset, .pull, .pullAll, .pop] →
      PartOf (mutation.apply upsert doc).2 doc ∧
      (doc.lookup mutation.path = none → (mutation.apply upsert doc).2 = doc) ∧
      mutation.apply upsert doc = mutation.apply (!upsert) doc) := by
  refine ⟨fun fault => apply_failed ordered, fun α create edit path nowhere => ?_,
    fun removes => ?_⟩
  · rw [atContainer_result, Option.map_eq_none_iff] at nowhere
    apply atContainer_self ordered
    intro members reached
    rw [nowhere] at reached
    cases reached
  · -- A removing operator takes the walk that creates nothing, whatever the flag says.
    have never : ∀ given : Bool, (given && mutation.op.creates) = false := fun given => by
      rw [not_creates removes, Bool.and_false]
    cases checked : mutation.check with
    | error fault =>
        rw [apply_refused checked, apply_refused checked]
        exact ⟨.self doc, fun _ => rfl, rfl⟩
    | ok _ =>
        rw [apply_checked checked, apply_checked checked, never, never]
        refine ⟨.atContainer ordered fun members ordered => partOf_editMembers removes ordered,
          fun missing => ?_, rfl⟩
        apply atContainer_self ordered
        intro members reached
        obtain there | ⟨creates, -⟩ := follow_of_container? reached
        · rw [lookup_of_follow there] at missing
          exact ⟨there, editMembers_absent removes missing⟩
        · cases creates

/-- A document with a text in an object, and a zero and a null in an array. -/
def townAndMarks : Json :=
  .object [("home", .object [("town", .string "Bern")]), ("marks", .array [.number .zero, .null])]

theorem ordered_townAndMarks : townAndMarks.Ordered := by
  refine ⟨?_, ⟨?_, trivial, trivial⟩, ⟨trivial, trivial, trivial⟩, trivial⟩
  · exact (by decide : ["home", "marks"].Pairwise (· < ·))
  · exact List.pairwise_singleton _ _

/-- A text cannot be incremented, and a walk does not go on behind it. To pull zeros from an array
leaves a part of the document, and to pull them from nothing makes no array. -/
theorem town_and_marks_whole_or_not :
    let increment : Mutation := ⟨.inc, "home.town", .number .zero⟩
    let pull (path : String) : Mutation := ⟨.pull, path, .number .zero⟩
    (increment.apply true townAndMarks).1 = .error .targetNotNumber ∧
    (increment.apply true townAndMarks).2 = townAndMarks ∧
    (townAndMarks.atContainer true (fun members => ((), members)) (Path.walk "home.town.x.y")).2 =
      townAndMarks ∧
    PartOf ((pull "marks").apply true townAndMarks).2 townAndMarks ∧
    ((pull "marks").apply true townAndMarks).2.lookup "marks.0" = some .null ∧
    ((pull "home.marks").apply true townAndMarks).2 = townAndMarks := by
  intro increment pull
  have fails : (increment.apply true townAndMarks).1 = .error .targetNotNumber := by cbv
  have nowhere : (townAndMarks.atContainer true (fun members => ((), members))
      (Path.walk "home.town.x.y")).1 = none := by
    decide +kernel
  obtain ⟨kept, reached, -⟩ := changes_whole_or_not ordered_townAndMarks increment true
  have missing : townAndMarks.lookup "home.marks" = none := by cbv
  obtain ⟨-, -, removed⟩ := changes_whole_or_not ordered_townAndMarks (pull "marks") true
  obtain ⟨-, -, removed'⟩ := changes_whole_or_not ordered_townAndMarks (pull "home.marks") true
  exact ⟨fails, kept _ fails, reached _ _ _ _ nowhere, (removed (by decide)).1, by cbv,
    (removed' (by decide)).2.1 missing⟩

/-- Where a walk ends at an object, a mutation puts its edited members in place. -/
theorem apply_reached (checked : mutation.check = .ok ()) {members : Members}
    (reached : doc.container? (upsert && mutation.op.creates) (Path.walk mutation.path) =
      some members) :
    mutation.apply upsert doc = ((mutation.editMembers members).1,
      doc.withMembers (upsert && mutation.op.creates) (Path.walk mutation.path)
        (mutation.editMembers members).2) := by
  simp only [apply, checked, atContainer_eq mutation.editMembers reached, Option.getD_some]

theorem apply_creating (checked : mutation.check = .ok ()) (creates : mutation.op.creates = true)
    {members : Members} (reached : doc.container? upsert (Path.walk mutation.path) = some members) :
    mutation.apply upsert doc = ((mutation.editMembers members).1,
      doc.withMembers upsert (Path.walk mutation.path) (mutation.editMembers members).2) := by
  have told : (upsert && mutation.op.creates) = upsert := by rw [creates, Bool.and_true]
  have applied := apply_reached checked (told.symm ▸ reached)
  rwa [told] at applied

/-- After a mutation the path reads what the mutation has made of the member at its end. -/
theorem lookup_apply (checked : mutation.check = .ok ()) {members : Members}
    (reached : doc.container? (upsert && mutation.op.creates) (Path.walk mutation.path) =
      some members) :
    (mutation.apply upsert doc).2.lookup mutation.path =
      Members.get? (Path.leaf mutation.path) (mutation.editMembers members).2 := by
  rw [apply_checked checked]
  exact lookup_of_follow (follow_atContainer reached)

theorem apply_nowhere (ordered : doc.Ordered)
    (nowhere : doc.container? (upsert && mutation.op.creates) (Path.walk mutation.path) = none) :
    (mutation.apply upsert doc).2 = doc := by
  cases checked : mutation.check with
  | error fault => rw [apply_refused checked]
  | ok _ =>
      rw [apply_checked checked]
      apply atContainer_self ordered
      intro members reached
      rw [nowhere] at reached
      cases reached

/-- A mutation whose edits do not fail succeeds, whether or not there is an object to edit. -/
theorem apply_succeeds (checked : mutation.check = .ok ())
    (always : ∀ members, (mutation.editMembers members).1 = .ok ()) (upsert : Bool) (doc : Json) :
    (mutation.apply upsert doc).1 = .ok () := by
  rw [apply_checked checked]
  cases doc.container? (upsert && mutation.op.creates) (Path.walk mutation.path) with
  | none => rfl
  | some members => exact always members

/-- What an edit leaves alone once it has made it, a mutation changes only once. -/
theorem apply_again (checked : mutation.check = .ok ())
    (again : ∀ members, doc.container? (upsert && mutation.op.creates) (Path.walk mutation.path) =
      some members → (mutation.editMembers (mutation.editMembers members).2).2 =
        (mutation.editMembers members).2) :
    (mutation.apply upsert (mutation.apply upsert doc).2).2 = (mutation.apply upsert doc).2 := by
  rw [apply_checked checked, apply_checked checked]
  exact atContainer_again again

/-- No mutation changes what is read along a path that parts from its own. -/
theorem lookup_apply_parted {other : String}
    (parted : doc.Parted (Path.segments mutation.path) (Path.segments other)) :
    (mutation.apply upsert doc).2.lookup other = doc.lookup other := by
  cases checked : mutation.check with
  | error fault => rw [apply_refused checked]
  | ok _ =>
      rw [apply_checked checked]
      rw [Path.segments_eq mutation.path] at parted
      exact follow_parted parted fun members key distinct => editMembers_keeps distinct

section Writes

variable (free : path ≠ identity) (value : Json) (upsert : Bool)

include free

theorem check_set : (⟨.set, path, value⟩ : Mutation).check = .ok () := by
  simp [check, free]

theorem check_unset : (⟨.unset, path, value⟩ : Mutation).check = .ok () := by
  simp [check, free]

theorem lookup_set (reached : doc.container? upsert (Path.walk path) ≠ none) :
    ((⟨.set, path, value⟩ : Mutation).apply upsert doc).2.lookup path = some value := by
  obtain ⟨members, reached⟩ := Option.ne_none_iff_exists'.1 reached
  rw [← Bool.and_true upsert] at reached
  have read := lookup_apply (check_set free value) reached
  exact read.trans ((Members.get?_put _ _ value members).trans (if_pos rfl))

theorem lookup_unset (ordered : doc.Ordered)
    (reached : doc.container? false (Path.walk path) ≠ none) :
    ((⟨.unset, path, value⟩ : Mutation).apply upsert doc).2.lookup path = none := by
  obtain ⟨members, reached⟩ := Option.ne_none_iff_exists'.1 reached
  have keys := (ordered.container? reached).1
  rw [← Bool.and_false upsert] at reached
  have read := lookup_apply (check_unset free value) reached
  exact read.trans ((Members.get?_erase keys).trans (if_pos rfl))

theorem set_there (ordered : doc.Ordered) (there : doc.lookup path = some value) :
    ((⟨.set, path, value⟩ : Mutation).apply upsert doc).2 = doc := by
  obtain ⟨holder, walked, found⟩ := Option.bind_eq_some_iff.1 (lookup_eq doc path ▸ there)
  rw [apply_checked (check_set free value)]
  apply atContainer_self ordered
  intro members reached
  rw [container?_of_follow _ walked] at reached
  cases holder with
  | object members' =>
      obtain rfl := Option.some.inj reached
      exact ⟨walked, Members.put_self (ordered.follow walked).1 found⟩
  | _ => cases reached

theorem set_again :
    let set := apply ⟨.set, path, value⟩ upsert
    (set (set doc).2).2 = (set doc).2 :=
  apply_again (check_set free value) fun members _ => Members.put_put _ value value members

theorem unset_again (ordered : doc.Ordered) :
    let unset := apply ⟨.unset, path, value⟩ upsert
    (unset (unset doc).2).2 = (unset doc).2 := by
  refine apply_again (check_unset free value) fun members reached => ?_
  have keys := (ordered.container? reached).1
  exact Members.erase_of_absent ((Members.get?_erase keys).trans (if_pos rfl))

end Writes

/-- What is set at a path is read there and what is unset is not, where the walk of the path ends at
an object; elsewhere nothing changes. To set what is there already, or to do the same twice, changes
nothing either, and along a path that parts from the one that is written everything stays. -/
theorem writes_read_back {doc : Json} (ordered : doc.Ordered) {path : String}
    (free : path ≠ identity) (value : Json) (upsert : Bool) :
    let set := apply ⟨.set, path, value⟩ upsert
    let unset := apply ⟨.unset, path, value⟩ upsert
    ((set doc).1 = .ok () ∧ (unset doc).1 = .ok ()) ∧
    (doc.container? upsert (Path.walk path) ≠ none → (set doc).2.lookup path = some value) ∧
    (doc.container? upsert (Path.walk path) = none → (set doc).2 = doc) ∧
    (doc.container? false (Path.walk path) ≠ none → (unset doc).2.lookup path = none) ∧
    (doc.container? false (Path.walk path) = none → (unset doc).2 = doc) ∧
    (doc.lookup path = some value → (set doc).2 = doc) ∧
    (set (set doc).2 = (.ok (), (set doc).2) ∧ unset (unset doc).2 = (.ok (), (unset doc).2)) ∧
    ∀ other, doc.Parted (Path.segments path) (Path.segments other) →
      (set doc).2.lookup other = doc.lookup other ∧
        (unset doc).2.lookup other = doc.lookup other := by
  intro set unset
  have sets : ∀ doc, (set doc).1 = .ok () :=
    apply_succeeds (check_set free value) (fun members => rfl) upsert
  have unsets : ∀ doc, (unset doc).1 = .ok () :=
    apply_succeeds (check_unset free value) (fun members => rfl) upsert
  refine ⟨⟨sets doc, unsets doc⟩, lookup_set free value upsert, fun nowhere => ?_,
    lookup_unset free value upsert ordered, fun nowhere => ?_, set_there free value upsert ordered,
    ⟨Prod.ext (sets _) (set_again free value upsert),
      Prod.ext (unsets _) (unset_again free value upsert ordered)⟩,
    fun other parted => ⟨lookup_apply_parted parted, lookup_apply_parted parted⟩⟩
  · rw [← Bool.and_true upsert] at nowhere
    exact apply_nowhere ordered nowhere
  · rw [← Bool.and_false upsert] at nowhere
    exact apply_nowhere ordered nowhere

/-- The mark at the second position is set, whether the position is spelled with a zero or without.
The mark at the first position stays, and so does what the second one has beside its value. -/
theorem second_mark_read_back :
    let mark := Json.object [("of", .number .zero)]
    let doc := Json.object [("marks", .array [mark, mark])]
    let set : Mutation := ⟨.set, "marks.01.of", .null⟩
    (set.apply true doc).1 = .ok () ∧
    (set.apply true doc).2.lookup "marks.01.of" = some .null ∧
    (set.apply true doc).2.lookup "marks.1.of" = some .null ∧
    (set.apply true doc).2.lookup "marks.0.of" = doc.lookup "marks.0.of" ∧
    (set.apply true doc).2.lookup "marks.1.by" = doc.lookup "marks.1.by" := by
  intro mark doc set
  have ordered : doc.Ordered := by
    have inside : mark.Ordered := ⟨List.pairwise_singleton _ _, trivial, trivial⟩
    exact ⟨List.pairwise_singleton _ _, ⟨inside, inside, trivial⟩, trivial⟩
  obtain ⟨⟨done, -⟩, there, -, -, -, -, -, others⟩ :=
    writes_read_back ordered (show "marks.01.of" ≠ identity by decide) .null true
  have reached : doc.container? true (Path.walk "marks.01.of") ≠ none := by
    rw [show doc.container? true (Path.walk "marks.01.of") = some [("of", .number .zero)] by cbv]
    exact Option.some_ne_none _
  have second : Path.segments "marks.01.of" = ["marks", "01", "of"] := by decide +kernel
  have first : Path.segments "marks.0.of" = ["marks", "0", "of"] := by decide +kernel
  have beside : Path.segments "marks.1.by" = ["marks", "1", "by"] := by decide +kernel
  have positions : doc.Parted (Path.segments "marks.01.of") (Path.segments "marks.0.of") := by
    rw [second, first]
    exact .member (.positions (by decide +kernel))
  have keys : doc.Parted (Path.segments "marks.01.of") (Path.segments "marks.1.by") := by
    rw [second, beside]
    have there : (Json.array [mark, mark]).child? "01" = some mark := by rfl
    exact .member (.item (by decide +kernel) there (.keys (by decide)))
  exact ⟨done, there reached, by cbv, (others _ positions).1, (others _ keys).1⟩

end Mutation

end Docstore
