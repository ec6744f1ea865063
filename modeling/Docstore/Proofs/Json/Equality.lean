import Docstore.Proofs.Json.Text
import Docstore.Proofs.Number.Nearest

set_option autoImplicit false

namespace Docstore

namespace Number

theorem signed_digital {negative : Bool} {text : List Char} (unsigned : Decimal.Unsigned text) :
    (∃ c rest, signed negative text = c :: rest) ∧
      ∀ c ∈ signed negative text, Decimal.Numeric c := by
  obtain ⟨c, rest, rfl, -⟩ := unsigned.head
  cases negative with
  | false => exact ⟨⟨c, rest, rfl⟩, unsigned.all⟩
  | true =>
      refine ⟨⟨'-', c :: rest, rfl⟩, fun d there => ?_⟩
      rcases List.mem_cons.1 there with rfl | inside
      · exact .inr (.inl rfl)
      · exact unsigned.all d inside

theorem digital_of_signed {number : Number → List Char}
    (form : ∀ n, ∃ negative text, number n = signed negative text ∧ Decimal.Unsigned text) :
    Json.Digital number := by
  refine ⟨fun n => ?_, fun n => ?_⟩
  · obtain ⟨negative, text, same, unsigned⟩ := form n
    rw [same]
    exact (signed_digital unsigned).1
  · obtain ⟨negative, text, same, unsigned⟩ := form n
    rw [same]
    exact (signed_digital unsigned).2

theorem digital_canonicalText : Json.Digital canonicalText := by
  refine digital_of_signed fun n => ?_
  cases n with
  | int a lower upper => exact ⟨_, _, integerText_eq a, unsigned_toDigits _⟩
  | float x finite =>
      obtain ⟨text, same, unsigned, -⟩ := canonicalText_float x finite
      exact ⟨_, text, same, unsigned⟩

end Number

namespace Json

mutual

def Small : Json → Prop
  | .number n => n.IsSmall
  | .array items => SmallItems items
  | .object members => SmallMembers members
  | _ => True

def SmallItems : List Json → Prop
  | [] => True
  | item :: rest => Small item ∧ SmallItems rest

def SmallMembers : List (String × Json) → Prop
  | [] => True
  | (_, value) :: rest => Small value ∧ SmallMembers rest

end

/-- Members that all have equals on the other side have their keys there. -/
theorem mem_keys_of_equal {members other : List (String × Json)}
    (equal : equalMembers members other = true) :
    ∀ key ∈ members.map Prod.fst, key ∈ other.map Prod.fst := by
  induction members with
  | nil => exact fun key there => absurd there List.not_mem_nil
  | cons member rest ih =>
      obtain ⟨k, v⟩ := member
      rw [equalMembers, Bool.and_eq_true] at equal
      intro key there
      rcases List.mem_cons.1 there with rfl | later
      · by_contra absent
        rw [Members.get?_eq_none absent] at equal
        simp at equal
      · exact ih equal.2 key later

/-- As many members with equals on the other side have the same keys. -/
theorem keys_eq_of_equal {members other : List (String × Json)}
    (sorted : (members.map Prod.fst).Pairwise (· < ·))
    (sorted' : (other.map Prod.fst).Pairwise (· < ·)) (length : members.length = other.length)
    (equal : equalMembers members other = true) :
    members.map Prod.fst = other.map Prod.fst := by
  have nodup : (members.map Prod.fst).Nodup := sorted.imp fun below same => by
    rw [same] at below
    exact String.lt_irrefl _ below
  have subperm := List.subperm_of_subset nodup (mem_keys_of_equal equal)
  have perm := subperm.perm_of_length_le (by simp [length])
  refine perm.eq_of_pairwise (fun a b _ _ below above => ?_) sorted sorted'
  exact absurd (String.lt_trans below above) (String.lt_irrefl a)

theorem equalMembers_cons {members other : List (String × Json)} {key : String} {value : Json}
    (absent : key ∉ members.map Prod.fst) :
    equalMembers members ((key, value) :: other) = equalMembers members other := by
  induction members with
  | nil => rfl
  | cons member rest ih =>
      obtain ⟨k, v⟩ := member
      rw [List.map_cons, List.mem_cons, not_or] at absent
      rw [equalMembers, equalMembers, ih absent.2, Members.get?, if_neg absent.1]

mutual

/-- Somewhere two values have numbers at the same place that are related. -/
def Facing (related : Number → Number → Prop) : Json → Json → Prop
  | .number a, .number b => related a b
  | .array a, .array b => FacingItems related a b
  | .object a, .object b => FacingMembers related a b
  | _, _ => False

def FacingItems (related : Number → Number → Prop) : List Json → List Json → Prop
  | a :: as, b :: bs => Facing related a b ∨ FacingItems related as bs
  | _, _ => False

def FacingMembers (related : Number → Number → Prop) :
    List (String × Json) → List (String × Json) → Prop
  | (key, a) :: as, (key', b) :: bs =>
    key = key' ∧ Facing related a b ∨ FacingMembers related as bs
  | _, _ => False

end

mutual

/-- Values are alike in canonical text just if they are equal and no number of the one is written
differently in the other. -/
theorem alike_iff : ∀ (a b : Json), a.Ordered → b.Ordered →
    (Alike Number.canonicalText a b ↔ a.equal b = true ∧ ¬ Facing Number.Splits a b)
  | .null, b, _, _ => by
      cases b <;> simp [Alike, equal, Facing]
  | .bool x, b, _, _ => by
      cases b <;> simp [Alike, equal, Facing]
  | .number n, b, _, _ => by
      cases b with
      | number m => exact Number.canonicalText_eq_iff_splits
      | _ => simp [Alike, equal]
  | .string x, b, _, _ => by
      cases b <;> simp [Alike, equal, Facing]
  | .array items, b, ordered, ordered' => by
      cases b with
      | array others =>
          simp only [Alike, equal, Facing]
          exact alikeItems_iff items others ordered ordered'
      | _ => simp [Alike, equal]
  | .object members, b, ordered, ordered' => by
      cases b with
      | object others =>
          simp only [Alike, equal, Facing, Bool.and_eq_true, beq_iff_eq]
          exact alikeMembers_iff members others ordered.1 ordered'.1 ordered.2 ordered'.2
      | _ => simp [Alike, equal]

theorem alikeItems_iff : ∀ (as bs : List Json), OrderedItems as → OrderedItems bs →
    (AlikeItems Number.canonicalText as bs ↔
      equalItems as bs = true ∧ ¬ FacingItems Number.Splits as bs)
  | [], bs, _, _ => by
      cases bs <;> simp [AlikeItems, equalItems, FacingItems]
  | a :: as, bs, ordered, ordered' => by
      cases bs with
      | nil => simp [AlikeItems, equalItems]
      | cons b bs =>
          rw [AlikeItems, equalItems, FacingItems, Bool.and_eq_true, not_or,
            alike_iff a b ordered.1 ordered'.1, alikeItems_iff as bs ordered.2 ordered'.2]
          exact and_and_and_comm

theorem alikeMembers_iff : ∀ (as bs : List (String × Json)),
    (as.map Prod.fst).Pairwise (· < ·) → (bs.map Prod.fst).Pairwise (· < ·) →
    OrderedMembers as → OrderedMembers bs →
    (AlikeMembers Number.canonicalText as bs ↔
      (as.length = bs.length ∧ equalMembers as bs = true) ∧ ¬ FacingMembers Number.Splits as bs)
  | [], bs, _, _, _, _ => by
      cases bs <;> simp [AlikeMembers, equalMembers, FacingMembers]
  | (key, a) :: as, bs, sorted, sorted', ordered, ordered' => by
      cases bs with
      | nil => simp [AlikeMembers]
      | cons member bs =>
          obtain ⟨key', b⟩ := member
          have value := alike_iff a b ordered.1 ordered'.1
          have tails := alikeMembers_iff as bs (List.pairwise_cons.1 sorted).2
            (List.pairwise_cons.1 sorted').2 ordered.2 ordered'.2
          have fresh : key ∉ as.map Prod.fst := fun there =>
            String.lt_irrefl key ((List.pairwise_cons.1 sorted).1 key there)
          rw [AlikeMembers, FacingMembers, not_or]
          constructor
          · rintro ⟨rfl, alike, others⟩
            obtain ⟨equalValue, wholeValue⟩ := value.1 alike
            obtain ⟨⟨length, equal⟩, whole⟩ := tails.1 others
            refine ⟨⟨by rw [List.length_cons, List.length_cons, length], ?_⟩,
              fun facing => wholeValue facing.2, whole⟩
            rw [equalMembers, equalMembers_cons fresh, equal, Members.get?, if_pos rfl]
            simp only [equalValue, Bool.and_true]
          · -- Both sides have the same keys in the same order, so members of one key face each
            -- other.
            rintro ⟨⟨length, equal⟩, wholeValue, whole⟩
            have keys := keys_eq_of_equal sorted sorted' length equal
            obtain rfl : key = key' := (List.cons.inj keys).1
            rw [equalMembers, equalMembers_cons fresh, Members.get?, if_pos rfl,
              Bool.and_eq_true] at equal
            exact ⟨rfl, value.2 ⟨equal.1, fun facing => wholeValue ⟨rfl, facing⟩⟩,
              tails.2 ⟨⟨Nat.succ.inj length, equal.2⟩, whole⟩⟩

end

mutual

theorem not_facing_of_small : ∀ (a b : Json), b.Small → ¬ Facing Number.Splits a b
  | a, .number m, small => by
      cases a with
      | number n => exact fun splits => splits.spec.2.1 small
      | _ => exact id
  | a, .array others, small => by
      cases a with
      | array items => exact not_facingItems_of_small items others small
      | _ => exact id
  | a, .object others, small => by
      cases a with
      | object members => exact not_facingMembers_of_small members others small
      | _ => exact id
  | a, .null, _ => by cases a <;> exact id
  | a, .bool _, _ => by cases a <;> exact id
  | a, .string _, _ => by cases a <;> exact id

theorem not_facingItems_of_small : ∀ (as bs : List Json), SmallItems bs →
    ¬ FacingItems Number.Splits as bs
  | [], _, _ => id
  | _ :: _, [], _ => id
  | a :: as, b :: bs, small => by
      rintro (facing | facing)
      · exact not_facing_of_small a b small.1 facing
      · exact not_facingItems_of_small as bs small.2 facing

theorem not_facingMembers_of_small : ∀ (as bs : List (String × Json)), SmallMembers bs →
    ¬ FacingMembers Number.Splits as bs
  | [], _, _ => id
  | _ :: _, [], _ => id
  | (_, a) :: as, (_, b) :: bs, small => by
      rintro (⟨-, facing⟩ | facing)
      · exact not_facing_of_small a b small.1 facing
      · exact not_facingMembers_of_small as bs small.2 facing

end

/-- Values have one canonical text just if they are equal and no number of the one is written
differently in the other. -/
theorem canonicalChars_eq_iff {a b : Json} (ordered : a.Ordered) (ordered' : b.Ordered) :
    a.canonicalChars = b.canonicalChars ↔ a.equal b = true ∧ ¬ Facing Number.Splits a b := by
  rw [canonicalChars, canonicalChars, textWith_eq_iff Number.digital_canonicalText,
    alike_iff a b ordered ordered']

end Json
end Docstore
