import Mathlib
import Docstore.Json.Path

set_option autoImplicit false

namespace Docstore

namespace Members

variable {key : String} {value : Json} {members : Members}

theorem mem_of_get? (found : members.get? key = some value) : (key, value) ∈ members := by
  induction members with
  | nil => cases found
  | cons member rest ih =>
      obtain ⟨k, v⟩ := member
      rw [get?] at found
      split at found
      · rename_i same
        rw [← same, ← Option.some.inj found]
        exact List.mem_cons_self
      · exact List.mem_cons_of_mem _ (ih found)

theorem contains_iff : members.contains key = true ↔ key ∈ members.map Prod.fst := by
  constructor
  · intro contains
    obtain ⟨value, found⟩ := Option.isSome_iff_exists.1 contains
    exact List.mem_map.2 ⟨_, mem_of_get? found, rfl⟩
  · intro there
    induction members with
    | nil => cases there
    | cons member rest ih =>
        rw [contains, get?]
        by_cases same : member.1 = key
        · rw [if_pos same]
          rfl
        · rw [if_neg same]
          exact ih ((List.mem_cons.1 there).resolve_left (Ne.symm same))

theorem mem_put {member : String × Json} (there : member ∈ members.put key value) :
    member = (key, value) ∨ member ∈ members := by
  induction members with
  | nil => exact .inl (List.mem_singleton.1 there)
  | cons first rest ih =>
      obtain ⟨k, v⟩ := first
      rw [put] at there
      split at there
      · obtain here | there := List.mem_cons.1 there
        · exact .inr (here ▸ List.mem_cons_self)
        · exact (ih there).imp_right (List.mem_cons_of_mem _)
      · split at there
        · exact (List.mem_cons.1 there).imp_right (List.mem_cons_of_mem _)
        · exact List.mem_cons.1 there

/-- To put a member where there is one is to replace its value. -/
theorem put_split (ordered : (members.map Prod.fst).Pairwise (· < ·))
    (found : members.get? key = some value) (new : Json) :
    ∃ front back, members = front ++ (key, value) :: back ∧
      members.put key new = front ++ (key, new) :: back := by
  induction members with
  | nil => cases found
  | cons first rest ih =>
      obtain ⟨k, v⟩ := first
      obtain ⟨below, ordered'⟩ := List.pairwise_cons.1 ordered
      rw [get?] at found
      by_cases here : k = key
      · rw [if_pos here] at found
        obtain rfl := Option.some.inj found
        refine ⟨[], rest, by rw [here]; rfl, ?_⟩
        rw [put, here, if_neg (String.lt_irrefl key), if_pos rfl]
        rfl
      · rw [if_neg here] at found
        have before : k < key := below key (List.mem_map.2 ⟨_, mem_of_get? found, rfl⟩)
        obtain ⟨front, back, split, replaced⟩ := ih ordered' found
        refine ⟨(k, v) :: front, back, by rw [split]; rfl, ?_⟩
        rw [put, if_pos before, replaced]
        rfl

theorem put_self (ordered : (members.map Prod.fst).Pairwise (· < ·))
    (found : members.get? key = some value) : members.put key value = members := by
  obtain ⟨front, back, split, replaced⟩ := put_split ordered found value
  rw [replaced, split]

theorem put_put (key : String) (value later : Json) (members : Members) :
    (members.put key value).put key later = members.put key later := by
  induction members with
  | nil => simp [put]
  | cons first rest ih =>
      obtain ⟨k, v⟩ := first
      by_cases before : k < key
      · simp only [put, if_pos before, ih]
      · by_cases here : k = key
        · simp [put, here]
        · simp [put, before, here]

theorem erase_of_absent (absent : members.get? key = none) : members.erase key = members := by
  induction members with
  | nil => rfl
  | cons first rest ih =>
      obtain ⟨k, v⟩ := first
      by_cases here : k = key
      · simp [get?, here] at absent
      · rw [get?, if_neg here] at absent
        rw [erase, if_neg here, ih absent]

end Members

namespace Json

theorem orderedItems_iff {items : List Json} :
    OrderedItems items ↔ ∀ item ∈ items, item.Ordered := by
  induction items with
  | nil => simp [OrderedItems]
  | cons item rest ih => rw [OrderedItems, ih, List.forall_mem_cons]

theorem orderedMembers_iff {members : List (String × Json)} :
    OrderedMembers members ↔ ∀ member ∈ members, member.2.Ordered := by
  induction members with
  | nil => simp [OrderedMembers]
  | cons member rest ih =>
      obtain ⟨key, value⟩ := member
      rw [OrderedMembers, ih, List.forall_mem_cons]

theorem Ordered.child? {segment : String} {value child : Json} (ordered : value.Ordered)
    (there : value.child? segment = some child) : child.Ordered := by
  cases value with
  | object members =>
      exact orderedMembers_iff.1 ordered.2 (segment, child) (Members.mem_of_get? there)
  | array items =>
      obtain ⟨position, -, item⟩ := Option.bind_eq_some_iff.1 there
      exact orderedItems_iff.1 ordered child (List.mem_of_getElem? item)
  | _ => cases there

theorem Ordered.follow {segments : List String} {doc value : Json} (ordered : doc.Ordered)
    (found : doc.follow segments = some value) : value.Ordered := by
  induction segments generalizing doc with
  | nil =>
      obtain rfl := Option.some.inj found
      exact ordered
  | cons segment rest ih =>
      obtain ⟨child, there, further⟩ := Option.bind_eq_some_iff.1 found
      exact ih (ordered.child? there) further

theorem Ordered.lookup {doc : Json} (ordered : doc.Ordered) (path : String) :
    ((doc.lookup path).getD .null).Ordered := by
  cases found : doc.lookup path with
  | none => trivial
  | some value => exact ordered.follow found

theorem ordered_put {members : Members} {value : Json} (ordered : (object members).Ordered)
    (fit : value.Ordered) (key : String) : (object (members.put key value)).Ordered := by
  constructor
  · exact Members.pairwise_put ordered.1
  · apply orderedMembers_iff.2
    intro member there
    obtain rfl | there := Members.mem_put there
    · exact fit
    · exact orderedMembers_iff.1 ordered.2 member there

theorem ordered_erase {members : Members} (ordered : (object members).Ordered) (key : String) :
    (object (members.erase key)).Ordered := by
  constructor
  · exact Members.pairwise_erase ordered.1
  · apply orderedMembers_iff.2
    intro member there
    exact orderedMembers_iff.1 ordered.2 member ((Members.erase_sublist key members).subset there)

theorem ordered_set {items : List Json} {value : Json} (ordered : (array items).Ordered)
    (fit : value.Ordered) (position : Nat) : (array (items.set position value)).Ordered := by
  apply orderedItems_iff.2
  intro item there
  obtain there | rfl := List.mem_or_eq_of_mem_set there
  · exact orderedItems_iff.1 ordered item there
  · exact fit

end Json

end Docstore
