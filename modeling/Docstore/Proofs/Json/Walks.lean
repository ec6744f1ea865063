import Docstore.Proofs.Fallible
import Docstore.Proofs.Json.Ordered

set_option autoImplicit false

namespace Docstore
namespace Json

variable {create : Bool} {segment : String} {walk : List String} {value child : Json}

/-- The value one segment further. Where `create` is set, a member that is missing is a new
object. -/
def onward? (create : Bool) (segment : String) : Json → Option Json
  | .object members =>
    (Members.get? segment members).or (if create then some (.object []) else none)
  | value => value.child? segment

def withChild (value : Json) (segment : String) (child : Json) : Json :=
  match value with
  | .object members => .object (Members.put segment child members)
  | .array items =>
    match Path.position? segment with
    | some position => .array (items.set position child)
    | none => .array items
  | value => value

/-- A step goes to a child, or to a new object in place of a missing member. -/
theorem onward?_eq_some (step : value.onward? create segment = some child) :
    value.child? segment = some child ∨
      create = true ∧ value.child? segment = none ∧ child = .object [] := by
  cases value with
  | object members =>
      cases found : Members.get? segment members with
      | some there =>
          rw [onward?, found] at step
          exact .inl (by rw [child?, found, ← step]; rfl)
      | none =>
          rw [onward?, found, Option.none_or, Option.ite_none_right_eq_some] at step
          exact .inr ⟨step.1, found, (Option.some.inj step.2).symm⟩
  | _ => exact .inl step

theorem onward?_of_child (there : value.child? segment = some child) :
    value.onward? create segment = some child := by
  cases value with
  | object members =>
      have found : Members.get? segment members = some child := there
      rw [onward?, found]
      rfl
  | _ => exact there

theorem child?_withChild (step : value.onward? create segment = some child) (new : Json) :
    (value.withChild segment new).child? segment = some new := by
  cases value with
  | object members => rw [withChild, child?, Members.get?_put, if_pos rfl]
  | array items =>
      obtain ⟨position, read, item⟩ := Option.bind_eq_some_iff.1 step
      have inside := (List.getElem?_eq_some_iff.1 item).1
      simp [withChild, child?, read, inside]
  | _ => cases step

theorem withChild_self (ordered : value.Ordered) (there : value.child? segment = some child) :
    value.withChild segment child = value := by
  cases value with
  | object members => rw [withChild, Members.put_self ordered.1 there]
  | array items =>
      obtain ⟨position, read, item⟩ := Option.bind_eq_some_iff.1 there
      obtain ⟨inside, rfl⟩ := List.getElem?_eq_some_iff.1 item
      simp [withChild, read]
  | _ => cases there

theorem withChild_withChild (value : Json) (segment : String) (child later : Json) :
    (value.withChild segment child).withChild segment later = value.withChild segment later := by
  cases value with
  | object members => simp only [withChild, Members.put_put]
  | array items =>
      cases read : Path.position? segment with
      | none => simp [withChild, read]
      | some position => simp [withChild, read]
  | _ => rfl

theorem Ordered.onward? (ordered : value.Ordered)
    (step : value.onward? create segment = some child) : child.Ordered := by
  obtain there | ⟨-, -, rfl⟩ := onward?_eq_some step
  · exact ordered.child? there
  · exact ⟨.nil, trivial⟩

theorem Ordered.withChild (ordered : value.Ordered) (fit : child.Ordered) (segment : String) :
    (value.withChild segment child).Ordered := by
  cases value with
  | object members => exact ordered_put ordered fit segment
  | array items =>
      cases read : Path.position? segment with
      | none =>
          rw [Json.withChild, read]
          exact ordered
      | some position =>
          rw [Json.withChild, read]
          exact ordered_set ordered fit position
  | _ => exact ordered

/-- The members of the object that a walk ends at. Where `create` is set, a member that is missing
on the way is a new object. -/
def container? (create : Bool) : List String → Json → Option Members
  | [], value => value.members?
  | segment :: rest, value => (value.onward? create segment).bind (container? create rest)

theorem container?_new (walk : List String) : container? true walk (.object []) = some [] := by
  induction walk with
  | nil => rfl
  | cons segment rest ih => exact ih

theorem container?_of_follow (create : Bool) (found : value.follow walk = some child) :
    value.container? create walk = child.members? := by
  induction walk generalizing value with
  | nil =>
      obtain rfl := Option.some.inj found
      rfl
  | cons segment rest ih =>
      obtain ⟨next, there, further⟩ := Option.bind_eq_some_iff.1 found
      rw [container?, onward?_of_child there, Option.bind_some, ih further]

/-- A walk ends at an object that can be read there, or at a new one. -/
theorem follow_of_container? {members : Members}
    (reached : value.container? create walk = some members) :
    value.follow walk = some (.object members) ∨
      create = true ∧ value.follow walk = none ∧ members = [] := by
  induction walk generalizing value with
  | nil =>
      cases value with
      | object members' => exact .inl (congrArg (some ∘ object) (Option.some.inj reached))
      | _ => cases reached
  | cons segment rest ih =>
      obtain ⟨next, step, further⟩ := Option.bind_eq_some_iff.1 reached
      obtain there | ⟨rfl, missing, rfl⟩ := onward?_eq_some step
      · simp only [follow, there, Option.bind_some]
        exact ih further
      · rw [container?_new] at further
        exact .inr ⟨rfl, by rw [follow, missing]; rfl, (Option.some.inj further).symm⟩

theorem Ordered.container? {members : Members} (ordered : value.Ordered)
    (reached : value.container? create walk = some members) : (object members).Ordered := by
  obtain there | ⟨-, -, rfl⟩ := follow_of_container? reached
  · exact ordered.follow there
  · exact ⟨.nil, trivial⟩

section Edits

variable {α : Type} (edit : Members → α × Members)

/-- An edit goes a step on and puts the edited child back, or there is no step to go. -/
theorem atContainer_cons (create : Bool) (segment : String) (rest : List String) (value : Json) :
    atContainer create edit (segment :: rest) value =
      match value.onward? create segment with
      | some child =>
        ((atContainer create edit rest child).1,
          value.withChild segment (atContainer create edit rest child).2)
      | none => (none, value) := by
  cases value with
  | object members =>
      cases found : Members.get? segment members with
      | some child => simp only [atContainer, found, onward?, Option.some_or, withChild]
      | none =>
          cases create with
          | false => simp [atContainer, found, onward?]
          | true => simp [atContainer, found, onward?, withChild]
  | array items =>
      cases read : Path.position? segment with
      | none => simp [atContainer, read, onward?, child?]
      | some position =>
          cases item : items[position]? with
          | none => simp [atContainer, read, item, onward?, child?]
          | some child => simp [atContainer, read, item, onward?, child?, withChild]
  | _ => rfl

variable {edit}

theorem atContainer_step (step : value.onward? create segment = some child) (rest : List String) :
    atContainer create edit (segment :: rest) value =
      ((atContainer create edit rest child).1,
        value.withChild segment (atContainer create edit rest child).2) := by
  rw [atContainer_cons, step]

theorem atContainer_stuck (stuck : value.onward? create segment = none) (rest : List String) :
    atContainer create edit (segment :: rest) value = (none, value) := by
  rw [atContainer_cons, stuck]

/-- There is a result of the edit just if the walk ends at an object. -/
theorem atContainer_result (create : Bool) (edit : Members → α × Members) (walk : List String)
    (value : Json) : (atContainer create edit walk value).1 =
      (value.container? create walk).map fun members => (edit members).1 := by
  induction walk generalizing value with
  | nil => cases value <;> rfl
  | cons segment rest ih =>
      cases step : value.onward? create segment with
      | none =>
          rw [atContainer_stuck step, container?, step]
          rfl
      | some child =>
          rw [atContainer_step step, container?, step, ih]
          rfl

/-- Where an edit is made, its object is read at the end of the walk. -/
theorem follow_atContainer {members : Members}
    (reached : value.container? create walk = some members) :
    (atContainer create edit walk value).2.follow walk = some (.object (edit members).2) := by
  induction walk generalizing value with
  | nil =>
      cases value with
      | object members' =>
          obtain rfl := Option.some.inj reached
          rfl
      | _ => cases reached
  | cons segment rest ih =>
      obtain ⟨child, step, further⟩ := Option.bind_eq_some_iff.1 reached
      rw [atContainer_step step, follow, child?_withChild step, Option.bind_some, ih further]

/-- An edit that keeps objects in order keeps the whole value in order. -/
theorem atContainer_ordered
    (keeps : ∀ members, (object members).Ordered → (object (edit members).2).Ordered)
    (ordered : value.Ordered) : (atContainer create edit walk value).2.Ordered := by
  induction walk generalizing value with
  | nil =>
      cases value with
      | object members => exact keeps members ordered
      | _ => exact ordered
  | cons segment rest ih =>
      cases step : value.onward? create segment with
      | none =>
          rw [atContainer_stuck step]
          exact ordered
      | some child =>
          rw [atContainer_step step]
          exact ordered.withChild (ih (ordered.onward? step)) segment

/-- Where no object is made on the way and the edit leaves its object alone, or there is none to
edit, the value stays as it was. -/
theorem atContainer_self (ordered : value.Ordered)
    (alone : ∀ members, value.container? create walk = some members →
      value.follow walk = some (.object members) ∧ (edit members).2 = members) :
    (atContainer create edit walk value).2 = value := by
  induction walk generalizing value with
  | nil =>
      cases value with
      | object members => exact congrArg object (alone members rfl).2
      | _ => rfl
  | cons segment rest ih =>
      cases step : value.onward? create segment with
      | none => rw [atContainer_stuck step]
      | some child =>
          have further : ∀ members, child.container? create rest = some members →
              value.follow (segment :: rest) = some (.object members) ∧
                (edit members).2 = members := by
            intro members reached
            exact alone members (by rw [container?, step, Option.bind_some, reached])
          rw [atContainer_step step]
          obtain there | ⟨rfl, missing, rfl⟩ := onward?_eq_some step
          · have same := ih (ordered.child? there) fun members reached => by
              have read := further members reached
              rwa [follow, there, Option.bind_some] at read
            rw [same, withChild_self ordered there]
          · -- In a new object an edit is always made, and its object cannot have been read.
            have read := (further [] (container?_new rest)).1
            rw [follow, missing] at read
            cases read

/-- Where an edit has a result that says that it left its members alone and would not have come
about on new members, the value stays as it was. -/
theorem atContainer_unchanged {result : α}
    (alone : ∀ members, (edit members).1 = result → (edit members).2 = members)
    (new : create = true → (edit []).1 ≠ result) (ordered : value.Ordered)
    (gave : (atContainer create edit walk value).1 = some result) :
    (atContainer create edit walk value).2 = value := by
  rw [atContainer_result] at gave
  apply atContainer_self ordered
  intro members reached
  obtain same : (edit members).1 = result := by simpa [reached] using gave
  obtain there | ⟨creates, -, rfl⟩ := follow_of_container? reached
  · exact ⟨there, alone members same⟩
  · exact absurd same (new creates)

/-- An edit that leaves its own result alone changes nothing the second time. -/
theorem atContainer_again
    (again : ∀ members, value.container? create walk = some members →
      (edit (edit members).2).2 = (edit members).2) :
    (atContainer create edit walk (atContainer create edit walk value).2).2 =
      (atContainer create edit walk value).2 := by
  induction walk generalizing value with
  | nil =>
      cases value with
      | object members => exact congrArg object (again members rfl)
      | _ => rfl
  | cons segment rest ih =>
      cases step : value.onward? create segment with
      | none => rw [atContainer_stuck step, atContainer_stuck step]
      | some child =>
          have further : ∀ members, child.container? create rest = some members →
              (edit (edit members).2).2 = (edit members).2 := fun members reached =>
            again members (by rw [container?, step, Option.bind_some, reached])
          rw [atContainer_step step]
          have there := child?_withChild step (atContainer create edit rest child).2
          rw [atContainer_step (onward?_of_child there), ih further, withChild_withChild]

end Edits

/-- The value with the given members in the object at the end of a walk. -/
def withMembers (create : Bool) (walk : List String) (members : Members) (value : Json) : Json :=
  (atContainer create (fun _ => ((), members)) walk value).2

section InPlace

variable {members old : Members}

/-- An edit of the object at the end of a walk depends on the members of this object alone. -/
theorem atContainer_eq {α : Type} (edit : Members → α × Members)
    (reached : value.container? create walk = some members) :
    atContainer create edit walk value =
      (some (edit members).1, value.withMembers create walk (edit members).2) := by
  refine Prod.ext (by rw [atContainer_result, reached]; rfl) ?_
  induction walk generalizing value with
  | nil =>
      cases value with
      | object members' =>
          obtain rfl := Option.some.inj reached
          rfl
      | _ => cases reached
  | cons segment rest ih =>
      obtain ⟨child, step, further⟩ := Option.bind_eq_some_iff.1 reached
      simp only [withMembers, atContainer_step step] at ih ⊢
      rw [ih further]

theorem container?_withMembers (create' : Bool)
    (reached : value.container? create walk = some old) (members : Members) :
    (value.withMembers create walk members).container? create' walk = some members :=
  container?_of_follow create' (follow_atContainer reached)

/-- Of members put in place one after the other the later stay. -/
theorem withMembers_withMembers (create' : Bool)
    (reached : value.container? create walk = some old) (members later : Members) :
    (value.withMembers create walk members).withMembers create' walk later =
      value.withMembers create walk later := by
  induction walk generalizing value with
  | nil =>
      cases value with
      | object members' => rfl
      | _ => cases reached
  | cons segment rest ih =>
      obtain ⟨child, step, further⟩ := Option.bind_eq_some_iff.1 reached
      have same := ih further
      unfold withMembers at same ⊢
      rw [atContainer_step step, atContainer_step step]
      rw [atContainer_step (onward?_of_child (child?_withChild step _)), same,
        withChild_withChild]

end InPlace

/-- Two walks go the same way in a value until they part: in an object by different keys, or in an
array by different positions. A missing member is taken for a new object, as it is on the way to
what is to be created. -/
inductive Parted : Json → List String → List String → Prop
  | keys {key other : String} {members : Members} {rest rest' : List String}
      (distinct : key ≠ other) : Parted (.object members) (key :: rest) (other :: rest')
  | positions {first second : String} {items : List Json} {rest rest' : List String}
      (distinct : Path.position? first ≠ Path.position? second) :
      Parted (.array items) (first :: rest) (second :: rest')
  | member {key : String} {members : Members} {rest rest' : List String}
      (further : Parted ((Members.get? key members).getD (.object [])) rest rest') :
      Parted (.object members) (key :: rest) (key :: rest')
  | item {first second : String} {items : List Json} {child : Json} {rest rest' : List String}
      (same : Path.position? first = Path.position? second)
      (there : (array items).child? first = some child) (further : Parted child rest rest') :
      Parted (.array items) (first :: rest) (second :: rest')

namespace Parted

variable {other : List String}

theorem ne_nil (parted : value.Parted walk other) : walk ≠ [] := by
  cases parted <;> exact List.cons_ne_nil _ _

theorem follow_new (parted : (object []).Parted walk other) : (object []).follow other = none := by
  cases parted <;> rfl

end Parted

theorem child?_withChild_keys {members : Members} {key other : String} (distinct : key ≠ other)
    (new : Json) :
    ((object members).withChild key new).child? other = (object members).child? other := by
  rw [withChild, child?, child?, Members.get?_put, if_neg distinct]

theorem child?_withChild_positions {items : List Json} {first second : String}
    (distinct : Path.position? first ≠ Path.position? second) (new : Json) :
    ((array items).withChild first new).child? second = (array items).child? second := by
  cases read : Path.position? first with
  | none => rw [withChild, read]
  | some position =>
      rw [read] at distinct
      simp only [withChild, read, child?]
      cases read' : Path.position? second with
      | none => rfl
      | some position' =>
          have apart : position ≠ position' := fun same => distinct (by rw [read', same])
          exact List.getElem?_set_ne apart

/-- An edit of one member at the end of a walk leaves alone what is read along a path that parts
from the path to that member. -/
theorem follow_parted {α : Type} {edit : Members → α × Members} {leaf : String}
    {other : List String} (parted : value.Parted (walk ++ [leaf]) other)
    (alone : ∀ members key, leaf ≠ key →
      Members.get? key (edit members).2 = Members.get? key members) :
    (atContainer create edit walk value).2.follow other = value.follow other := by
  induction walk generalizing value other with
  | nil =>
      rw [List.nil_append] at parted
      cases parted with
      | keys distinct => simp only [atContainer, follow, child?, alone _ _ distinct]
      | positions distinct => rfl
      | member further => exact absurd rfl further.ne_nil
      | item same there further => exact absurd rfl further.ne_nil
  | cons segment rest ih =>
      rw [List.cons_append] at parted
      -- The paths part at this step, or below the child that the step goes to.
      cases step : value.onward? create segment with
      | none => rw [atContainer_stuck step]
      | some child =>
          rw [atContainer_step step]
          cases parted with
          | keys distinct => simp only [follow, child?_withChild_keys distinct]
          | positions distinct => simp only [follow, child?_withChild_positions distinct]
          | member further =>
              rw [follow, child?_withChild step, Option.bind_some, follow]
              obtain there | ⟨-, missing, rfl⟩ := onward?_eq_some step
              · have found : Members.get? segment _ = some child := there
                rw [found, Option.getD_some] at further
                rw [ih further, there, Option.bind_some]
              · have absent : Members.get? segment _ = none := missing
                rw [absent, Option.getD_none] at further
                rw [ih further, further.follow_new, missing, Option.bind_none]
          | @item _ second items next _ rest' same there further =>
              -- The segments may spell one position differently, so the step is taken by the other.
              have here : (array items).onward? create segment = some next := there
              obtain rfl := Option.some.inj (here.symm.trans step)
              have there' : (array items).child? second = some next := by
                rw [← there, child?, child?, same]
              have spelled : ∀ new, (array items).withChild segment new =
                  (array items).withChild second new := fun new => by
                rw [withChild, withChild, same]
              have step' : (array items).onward? create second = some next :=
                onward?_of_child there'
              rw [spelled, follow, child?_withChild step', Option.bind_some, ih further, follow,
                there', Option.bind_some]

/-- A value from which members and items are left out, at its top or further in. What is left of an
object or an array keeps its order, and each member its key. -/
inductive PartOf : Json → Json → Prop
  | self (value : Json) : PartOf value value
  | object {fewer kept members : Members} (sub : kept.Sublist members)
      (keys : fewer.map Prod.fst = kept.map Prod.fst)
      (each : List.Forall₂ PartOf (fewer.map Prod.snd) (kept.map Prod.snd)) :
      PartOf (.object fewer) (.object members)
  | array {fewer kept items : List Json} (sub : kept.Sublist items)
      (each : List.Forall₂ PartOf fewer kept) : PartOf (.array fewer) (.array items)

namespace PartOf

theorem each_self (values : List Json) : List.Forall₂ PartOf values values :=
  List.forall₂_same.2 fun value _ => .self value

theorem of_items {fewer items : List Json} (sub : fewer.Sublist items) :
    PartOf (.array fewer) (.array items) :=
  .array sub (each_self fewer)

theorem of_members {fewer members : Members} (sub : fewer.Sublist members) :
    PartOf (.object fewer) (.object members) :=
  .object sub rfl (each_self _)

theorem withChild (ordered : value.Ordered) {part : Json}
    (there : value.child? segment = some child) (less : PartOf part child) :
    PartOf (value.withChild segment part) value := by
  cases value with
  | object members =>
      obtain ⟨front, back, split, replaced⟩ := Members.put_split ordered.1 there part
      rw [Json.withChild, replaced]
      refine .object (.refl members) (by simp [split]) ?_
      rw [split, List.map_append, List.map_append]
      exact List.rel_append (each_self _) (.cons less (each_self _))
  | array items =>
      obtain ⟨position, read, item⟩ := Option.bind_eq_some_iff.1 there
      obtain ⟨inside, rfl⟩ := List.getElem?_eq_some_iff.1 item
      have each := forall₂_set (each_self items) less position
      rw [List.set_getElem_self] at each
      simp only [Json.withChild, read]
      exact .array (.refl items) each
  | _ => cases there

/-- Where nothing is created, an edit that leaves something out of its object leaves it out of the
whole value. -/
theorem atContainer {α : Type} {edit : Members → α × Members} (ordered : value.Ordered)
    (less : ∀ members, (Json.object members).Ordered →
      PartOf (.object (edit members).2) (.object members)) :
    PartOf (atContainer false edit walk value).2 value := by
  induction walk generalizing value with
  | nil =>
      cases value with
      | object members => exact less members ordered
      | _ => exact .self _
  | cons segment rest ih =>
      cases step : value.onward? false segment with
      | none =>
          rw [atContainer_stuck step]
          exact .self value
      | some child =>
          rw [atContainer_step step]
          obtain there | ⟨creates, -⟩ := onward?_eq_some step
          · exact withChild ordered there (ih (ordered.child? there))
          · cases creates

end PartOf

end Json

end Docstore
