import Docstore.Proofs.Mutation.Effects

set_option autoImplicit false

namespace Docstore

namespace Number

variable {a : Int} {n : Number}

theorem ofInt?_eq_some (literal : ofInt? a = some n) : ∃ lower upper, n = .int a lower upper := by
  unfold ofInt? at literal
  split at literal
  · exact ⟨_, _, (Option.some.inj literal).symm⟩
  · cases literal

theorem signed?_of_ofInt? (literal : ofInt? a = some n) :
    n.signed? = if a < 0x8000000000000000 then some a else none := by
  obtain ⟨lower, upper, rfl⟩ := ofInt?_eq_some literal
  rfl

end Number

namespace Mutation

open Json

variable {doc : Json} {path : String} {upsert : Bool} {a b : Int} {n m : Number}

section Sums

variable (first : Number.ofInt? a = some n) (second : Number.ofInt? b = some m)

include first second

/-- The sum of integers of 64 signed bits is exact, or these bits do not hold it. -/
theorem sum_signed (signed : a < 0x8000000000000000) (signed' : b < 0x8000000000000000) :
    (∃ total, Number.ofInt? (a + b) = some total ∧ sum n m = .ok total ∧
      -0x8000000000000000 ≤ a + b ∧ a + b < 0x8000000000000000) ∨
    sum n m = .error .integerOverflow ∧
      ¬(-0x8000000000000000 ≤ a + b ∧ a + b < 0x8000000000000000) := by
  have left := Number.signed?_of_ofInt? first
  have right := Number.signed?_of_ofInt? second
  rw [if_pos signed] at left
  rw [if_pos signed'] at right
  simp only [sum, left, right]
  by_cases fits : -0x8000000000000000 ≤ a + b ∧ a + b < 0x8000000000000000
  · have word : -0x8000000000000000 ≤ a + b ∧ a + b < 0x10000000000000000 := by omega
    have literal : Number.ofInt? (a + b) = some (.int (a + b) word.1 word.2) := dif_pos word
    simp only [if_pos fits, literal]
    exact .inl ⟨_, rfl, rfl, fits⟩
  · rw [if_neg fits]
    exact .inr ⟨rfl, fits⟩

/-- Where 64 signed bits do not hold both integers, the sum is the one of their doubles. -/
theorem sum_unsigned (unsigned : ¬(a < 0x8000000000000000 ∧ b < 0x8000000000000000)) :
    ∃ finite, sum n m = .ok (.float ((Binary64.ofInt a).add (Binary64.ofInt b)) finite) := by
  have left := Number.signed?_of_ofInt? first
  have right := Number.signed?_of_ofInt? second
  obtain ⟨lower, upper, rfl⟩ := Number.ofInt?_eq_some first
  obtain ⟨lower', upper', rfl⟩ := Number.ofInt?_eq_some second
  have finite : ((Binary64.ofInt a).add (Binary64.ofInt b)).isFinite = true :=
    Binary64.isFinite_add_ofInt (by omega) (by omega)
  have literal : Number.ofFloat? ((Binary64.ofInt a).add (Binary64.ofInt b)) =
      some (.float _ finite) := dif_pos finite
  refine ⟨finite, ?_⟩
  by_cases signed : a < 0x8000000000000000
  · have unsigned' : ¬b < 0x8000000000000000 := fun signed' => unsigned ⟨signed, signed'⟩
    simp only [sum, left, right, if_pos signed, if_neg unsigned', Number.toBinary64, literal]
  · simp only [sum, left, if_neg signed, Number.toBinary64, literal]

end Sums

/-- A path starts from a number in a document: it ends at the number, or at no member of an object
where the number is zero. -/
def StartsFrom (doc : Json) (upsert : Bool) (path : String) (n : Number) : Prop :=
  ∃ present, doc.target? upsert path = some present ∧
    present.getD (.number .zero) = .number n

/-- A mutation stores a number at its path and changes nothing else. -/
def Stores (mutation : Mutation) (upsert : Bool) (doc : Json) (n : Number) : Prop :=
  mutation.apply upsert doc =
      (.ok (), ((⟨.set, mutation.path, .number n⟩ : Mutation).apply upsert doc).2) ∧
    (mutation.apply upsert doc).2.lookup mutation.path = some (.number n)

/-- A mutation stores an integer, or reports that integers overflow and leaves its document as it
was. -/
def StoresOrOverflows (mutation : Mutation) (upsert : Bool) (doc : Json) (total : Int) : Prop :=
  (∃ n, Number.ofInt? total = some n ∧ mutation.Stores upsert doc n) ∨
    mutation.apply upsert doc = (.error .integerOverflow, doc)

theorem check_inc (free : path ≠ identity) (m : Number) :
    (⟨.inc, path, .number m⟩ : Mutation).check = .ok () := by
  simp [check, free, Json.number?]

theorem editMembers_inc {members : Members}
    (starts : (Members.get? (Path.leaf path) members).getD (.number .zero) = .number n) :
    editMembers ⟨.inc, path, .number m⟩ members =
      match sum n m with
      | .ok total => (.ok (), Members.put (Path.leaf path) (.number total) members)
      | .error fault => (.error fault, members) := by
  cases added : sum n m with
  | ok total => simp only [editMembers, editValue, starts, increment, added, Except.map]
  | error fault => simp only [editMembers, editValue, starts, increment, added, Except.map]

theorem stores_of_sum (free : path ≠ identity) (starts : StartsFrom doc upsert path n)
    {total : Number} (added : sum n m = .ok total) :
    (⟨.inc, path, .number m⟩ : Mutation).Stores upsert doc total := by
  obtain ⟨present, found, starts⟩ := starts
  obtain ⟨members, reached, rfl⟩ := Option.map_eq_some_iff.1 found
  have edited := editMembers_inc (m := m) starts
  rw [added] at edited
  have same : (⟨.inc, path, .number m⟩ : Mutation).apply upsert doc =
      (.ok (), ((⟨.set, path, .number total⟩ : Mutation).apply upsert doc).2) := by
    rw [apply_creating (check_inc free m) rfl reached, edited,
      apply_creating (check_set free (.number total)) rfl reached]
    rfl
  refine ⟨same, ?_⟩
  rw [same]
  apply lookup_set free
  rw [reached]
  exact Option.some_ne_none members

theorem fails_without_sum (ordered : doc.Ordered) (free : path ≠ identity)
    (starts : StartsFrom doc upsert path n) {fault : ExecutionFault}
    (failed : sum n m = .error fault) :
    (⟨.inc, path, .number m⟩ : Mutation).apply upsert doc = (.error fault, doc) := by
  obtain ⟨present, found, starts⟩ := starts
  obtain ⟨members, reached, rfl⟩ := Option.map_eq_some_iff.1 found
  have edited := editMembers_inc (m := m) starts
  rw [failed] at edited
  have outcome : ((⟨.inc, path, .number m⟩ : Mutation).apply upsert doc).1 = .error fault := by
    rw [apply_creating (check_inc free m) rfl reached, edited]
  exact Prod.ext outcome (apply_failed ordered outcome)

/-- A mutation that stores a float has not stored an integer, nor has it failed. -/
theorem not_storesOrOverflows {mutation : Mutation} {x : Binary64} {finite : x.isFinite = true}
    (stored : mutation.Stores upsert doc (.float x finite)) (total : Int) :
    ¬mutation.StoresOrOverflows upsert doc total := by
  rintro (⟨n, literal, -, read⟩ | failed)
  · obtain ⟨lower, upper, rfl⟩ := Number.ofInt?_eq_some literal
    rw [stored.2] at read
    cases read
  · rw [stored.1] at failed
    cases failed

/-- Where 64 signed bits hold both integers, their sum is stored or overflows. -/
theorem storesOrOverflows_of_signed (ordered : doc.Ordered) (free : path ≠ identity)
    (starts : StartsFrom doc upsert path n) (first : Number.ofInt? a = some n)
    (second : Number.ofInt? b = some m) (signed : a < 0x8000000000000000)
    (signed' : b < 0x8000000000000000) :
    (⟨.inc, path, .number m⟩ : Mutation).StoresOrOverflows upsert doc (a + b) ∧
      (((⟨.inc, path, .number m⟩ : Mutation).apply upsert doc).1 = .error .integerOverflow ↔
        ¬(-0x8000000000000000 ≤ a + b ∧ a + b < 0x8000000000000000)) := by
  obtain ⟨total, literal, added, fits⟩ | ⟨failed, beyond⟩ := sum_signed first second signed signed'
  · have stored := stores_of_sum free starts added
    refine ⟨.inl ⟨total, literal, stored⟩, ?_⟩
    rw [stored.1]
    exact iff_of_false (by simp) (not_not.2 fits)
  · have failed' := fails_without_sum ordered free starts failed
    refine ⟨.inr failed', ?_⟩
    rw [failed']
    exact iff_of_true rfl beyond

theorem stores_double (free : path ≠ identity) (starts : StartsFrom doc upsert path n)
    (first : Number.ofInt? a = some n) (second : Number.ofInt? b = some m)
    (unsigned : ¬(a < 0x8000000000000000 ∧ b < 0x8000000000000000)) :
    ∃ finite, (⟨.inc, path, .number m⟩ : Mutation).Stores upsert doc
      (.float ((Binary64.ofInt a).add (Binary64.ofInt b)) finite) := by
  obtain ⟨finite, added⟩ := sum_unsigned first second unsigned
  exact ⟨finite, stores_of_sum free starts added⟩

theorem inc_nowhere (ordered : doc.Ordered) (free : path ≠ identity)
    (nowhere : doc.target? upsert path = none) :
    (⟨.inc, path, .number m⟩ : Mutation).apply upsert doc = (.ok (), doc) := by
  rw [target?, Option.map_eq_none_iff, ← Bool.and_true upsert] at nowhere
  have unchanged : ((⟨.inc, path, .number m⟩ : Mutation).apply upsert doc).2 = doc :=
    apply_nowhere ordered nowhere
  have creates : (⟨.inc, path, .number m⟩ : Mutation).op.creates = true := rfl
  refine Prod.ext ?_ unchanged
  rw [apply_checked (check_inc free m), creates, nowhere]
  rfl

/-- An increment of an integer by an integer stores their exact sum or overflows just if 64 signed
bits hold the two, wherever it may be made at all; it overflows just if these bits do not hold the
sum. Between other integers it stores the sum of the nearest doubles, as a double. The identity is
refused, and where the walk of the path ends at no object nothing happens. -/
theorem increments_exact_just_if_signed (ordered : doc.Ordered) (upsert : Bool) (path : String)
    (first : Number.ofInt? a = some n) (second : Number.ofInt? b = some m) :
    let inc : Mutation := ⟨.inc, path, .number m⟩
    (StartsFrom doc upsert path n →
      (inc.StoresOrOverflows upsert doc (a + b) ↔
        path ≠ identity ∧ a < 0x8000000000000000 ∧ b < 0x8000000000000000) ∧
      (path ≠ identity → a < 0x8000000000000000 → b < 0x8000000000000000 →
        ((inc.apply upsert doc).1 = .error .integerOverflow ↔
          ¬(-0x8000000000000000 ≤ a + b ∧ a + b < 0x8000000000000000))) ∧
      (path ≠ identity → ¬(a < 0x8000000000000000 ∧ b < 0x8000000000000000) →
        ∃ finite, inc.Stores upsert doc
          (.float ((Binary64.ofInt a).add (Binary64.ofInt b)) finite))) ∧
    (path = identity → inc.apply upsert doc = (.error .fixedIdentity, doc)) ∧
    (path ≠ identity → doc.target? upsert path = none →
      inc.apply upsert doc = (.ok (), doc)) := by
  intro inc
  have refused : path = identity → inc.apply upsert doc = (.error .fixedIdentity, doc) := by
    intro fixed
    exact apply_refused (if_pos fixed)
  refine ⟨fun starts => ⟨⟨fun settled => ?_, ?_⟩, fun free signed signed' => ?_,
    fun free unsigned =>
    stores_double free starts first second unsigned⟩, refused, fun free nowhere =>
    inc_nowhere ordered free nowhere⟩
  · have free : path ≠ identity := by
      intro fixed
      obtain ⟨total, -, stored, -⟩ | overflowed := settled
      · rw [refused fixed] at stored
        cases stored
      · rw [refused fixed] at overflowed
        cases overflowed
    refine ⟨free, ?_⟩
    -- Otherwise a double has been stored, which is no integer.
    by_contra unsigned
    obtain ⟨finite, stored⟩ := stores_double free starts first second unsigned
    exact not_storesOrOverflows stored _ settled
  · rintro ⟨free, signed, signed'⟩
    exact (storesOrOverflows_of_signed ordered free starts first second signed signed').1
  · exact (storesOrOverflows_of_signed ordered free starts first second signed signed').2

/-- To forty seats that are free in the first row of a hall, two are added. -/
theorem two_added_to_forty :
    let forty : Number := .int 40 (by decide) (by decide)
    let two : Number := .int 2 (by decide) (by decide)
    let hall := Json.object [("rows", .array [.object [("free", .number forty)]])]
    let inc : Mutation := ⟨.inc, "rows.0.free", .number two⟩
    inc.StoresOrOverflows false hall (40 + 2) ∧
    (inc.apply false hall).1 ≠ .error .integerOverflow ∧
    (⟨.inc, "_id", .number two⟩ : Mutation).apply false hall = (.error .fixedIdentity, hall) ∧
    (⟨.inc, "stairs.free", .number two⟩ : Mutation).apply false hall = (.ok (), hall) := by
  intro forty two hall inc
  have ordered : hall.Ordered := by
    have row : (Json.object [("free", .number forty)]).Ordered :=
      ⟨List.pairwise_singleton _ _, trivial, trivial⟩
    exact ⟨List.pairwise_singleton _ _, ⟨row, trivial⟩, trivial⟩
  have first : Number.ofInt? 40 = some forty := rfl
  have second : Number.ofInt? 2 = some two := rfl
  have starts : StartsFrom hall false "rows.0.free" forty :=
    ⟨some (.number forty), by cbv, rfl⟩
  have free : "rows.0.free" ≠ identity := by decide
  obtain ⟨made, -, -⟩ :=
    increments_exact_just_if_signed ordered false "rows.0.free" first second
  obtain ⟨settled, overflows, -⟩ := made starts
  obtain ⟨-, refused, -⟩ := increments_exact_just_if_signed ordered false "_id" first second
  obtain ⟨-, -, skipped⟩ := increments_exact_just_if_signed ordered false "stairs.free" first second
  refine ⟨settled.2 ⟨free, by decide, by decide⟩, fun overflowed => ?_, refused rfl,
    skipped (by decide) (by cbv)⟩
  exact (overflows free (by decide) (by decide)).1 overflowed (by decide)

/-- To the least integer that 64 signed bits do not hold one is added. A double is stored, which is
the one nearest to the integer itself. -/
theorem one_added_is_lost :
    let large : Number := .int 0x8000000000000000 (by decide) (by decide)
    let one : Number := .int 1 (by decide) (by decide)
    let doc := Json.object [("n", .number large)]
    let inc : Mutation := ⟨.inc, "n", .number one⟩
    let total := (Binary64.ofInt 0x8000000000000000).add (Binary64.ofInt 1)
    doc.Ordered ∧ StartsFrom doc false "n" large ∧
    ¬inc.StoresOrOverflows false doc (0x8000000000000000 + 1) ∧
    (∃ finite, inc.Stores false doc (.float total finite)) ∧
    total = Binary64.ofInt 0x8000000000000000 := by
  intro large one doc inc total
  have ordered : doc.Ordered := ⟨List.pairwise_singleton _ _, trivial, trivial⟩
  have starts : StartsFrom doc false "n" large := ⟨some (.number large), by cbv, rfl⟩
  have first : Number.ofInt? 0x8000000000000000 = some large := rfl
  have second : Number.ofInt? 1 = some one := rfl
  obtain ⟨finite, stored⟩ := stores_double (by decide) starts first second (by decide)
  have rounded : total = Binary64.ofInt 0x8000000000000000 := by decide +kernel
  exact ⟨ordered, starts, not_storesOrOverflows stored _, ⟨finite, stored⟩, rounded⟩

end Mutation
end Docstore
