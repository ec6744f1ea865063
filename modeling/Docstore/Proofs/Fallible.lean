import Mathlib

set_option autoImplicit false

namespace Docstore

variable {ε α β γ : Type}

@[simp] theorem ok_bind (a : α) (next : α → Except ε β) : (Except.ok a >>= next) = next a := rfl

@[simp] theorem error_bind (e : ε) (next : α → Except ε β) :
    (Except.error e >>= next) = .error e := rfl

@[simp] theorem pure_eq_ok (a : α) : (pure a : Except ε α) = .ok a := rfl

theorem map_of_bind (change : β → γ) (first : Except ε α) (next : α → Except ε β) :
    (first >>= next).map change = first >>= fun a => (next a).map change :=
  map_bind change first next

theorem bind_eq_ok {first : Except ε α} {next : α → Except ε β} {b : β} :
    (first >>= next) = .ok b ↔ ∃ a, first = .ok a ∧ next a = .ok b := by
  cases first with
  | ok a => simp
  | error e => simp

theorem forM_eq_ok {step : α → Except ε Unit} {items : List α} :
    items.forM step = .ok () ↔ ∀ item ∈ items, step item = .ok () := by
  induction items with
  | nil => exact ⟨fun _ item there => (by cases there), fun _ => rfl⟩
  | cons item rest ih =>
      change (step item >>= fun _ => rest.forM step) = .ok () ↔ _
      rw [bind_eq_ok, List.forall_mem_cons, ← ih]
      exact ⟨fun ⟨_, here, others⟩ => ⟨here, others⟩, fun ⟨here, others⟩ => ⟨(), here, others⟩⟩

/-- Where steps for the items of a list succeed, each result is that of its item. -/
theorem mapM_eq_ok {step : α → Except ε β} {items : List α} {results : List β}
    (ran : items.mapM step = .ok results) :
    List.Forall₂ (fun item result => step item = .ok result) items results := by
  induction items generalizing results with
  | nil =>
      obtain rfl := Except.ok.inj ran
      exact .nil
  | cons item rest ih =>
      rw [List.mapM_cons] at ran
      obtain ⟨result, here, ran⟩ := bind_eq_ok.1 ran
      obtain ⟨others, there, same⟩ := bind_eq_ok.1 ran
      obtain rfl := Except.ok.inj same
      exact .cons here (ih there)

theorem exists_bind_eq_ok {first : Except ε α} {next : α → Except ε β} :
    (∃ b, (first >>= next) = .ok b) ↔ ∃ a, first = .ok a ∧ ∃ b, next a = .ok b := by
  simp only [bind_eq_ok]
  exact ⟨fun ⟨b, a, here, there⟩ => ⟨a, here, b, there⟩,
    fun ⟨a, here, b, there⟩ => ⟨b, a, here, there⟩⟩

/-- If the next step succeeds on the same condition after each result of the first, this is a
condition beside the first. -/
theorem exists_bind_iff {first : Except ε α} {next : α → Except ε β} {rest : Prop}
    (inside : ∀ a, first = .ok a → ((∃ b, next a = .ok b) ↔ rest)) :
    (∃ b, (first >>= next) = .ok b) ↔ (∃ a, first = .ok a) ∧ rest := by
  rw [exists_bind_eq_ok]
  constructor
  · rintro ⟨a, here, there⟩
    exact ⟨⟨a, here⟩, (inside a here).1 there⟩
  · rintro ⟨⟨a, here⟩, there⟩
    exact ⟨a, here, (inside a here).2 there⟩

theorem exists_mapM_eq_ok {step : α → Except ε β} {items : List α} :
    (∃ results, items.mapM step = .ok results) ↔
      ∀ item ∈ items, ∃ result, step item = .ok result := by
  induction items with
  | nil => exact iff_of_true ⟨[], rfl⟩ (by simp)
  | cons item rest ih =>
      simp only [List.mapM_cons, exists_bind_eq_ok, pure_eq_ok, List.forall_mem_cons, ← ih]
      simp

/-- In related lists items at one position may be replaced by related ones. -/
theorem forall₂_set {related : α → β → Prop} {items : List α} {others : List β}
    (each : List.Forall₂ related items others) {item : α} {other : β} (same : related item other)
    (position : Nat) :
    List.Forall₂ related (items.set position item) (others.set position other) := by
  induction each generalizing position with
  | nil => exact .nil
  | cons here rest ih =>
      cases position with
      | zero => exact .cons same rest
      | succ position => exact .cons here (ih position)

/-- Lists related to one list, item by item, are related as their items are. -/
theorem forall₂_compose {first : α → β → Prop} {second : β → γ → Prop} {both : α → γ → Prop}
    {as : List α} {bs : List β} {cs : List γ} (each : List.Forall₂ first as bs)
    (each' : List.Forall₂ second bs cs) (compose : ∀ a b c, first a b → second b c → both a c) :
    List.Forall₂ both as cs := by
  induction each generalizing cs with
  | nil =>
      cases each'
      exact .nil
  | cons here _ ih =>
      cases each' with
      | cons here' others => exact .cons (compose _ _ _ here here') (ih others)

/-- At a position of related lists there are related items, or none. -/
theorem forall₂_getElem? {related : α → β → Prop} {items : List α} {results : List β}
    (each : List.Forall₂ related items results) (position : Nat) :
    (items[position]? = none ∧ results[position]? = none) ∨
      ∃ item result, items[position]? = some item ∧ results[position]? = some result ∧
        related item result := by
  have length := each.length_eq
  by_cases inside : position < items.length
  · right
    exact ⟨_, _, List.getElem?_eq_getElem inside, List.getElem?_eq_getElem (length ▸ inside),
      each.get inside (length ▸ inside)⟩
  · left
    have outside : items.length ≤ position := Nat.le_of_not_lt inside
    exact ⟨List.getElem?_eq_none outside, List.getElem?_eq_none (length ▸ outside)⟩

/-- Two steps that fail alike, or succeed with results that are related. -/
inductive InStep (related : α → β → Prop) : Except ε α → Except ε β → Prop
  | ok {a : α} {b : β} (same : related a b) : InStep related (.ok a) (.ok b)
  | error (e : ε) : InStep related (.error e) (.error e)

namespace InStep

variable {related : α → β → Prop} {first : Except ε α} {second : Except ε β}

theorem refl (step : Except ε α) : InStep Eq step step := by
  cases step with
  | ok a => exact .ok rfl
  | error e => exact .error e

theorem bind {δ : Type} {related' : γ → δ → Prop} {next : α → Except ε γ} {next' : β → Except ε δ}
    (inStep : InStep related first second)
    (rest : ∀ a b, related a b → InStep related' (next a) (next' b)) :
    InStep related' (first >>= next) (second >>= next') := by
  cases inStep with
  | ok same => exact rest _ _ same
  | error e => exact .error e

/-- Steps for related items are in step where those for each of them are. -/
theorem mapM {δ : Type} {related' : γ → δ → Prop} {step : α → Except ε γ} {step' : β → Except ε δ}
    {items : List α} {items' : List β} (alike : List.Forall₂ related items items')
    (each : ∀ a b, related a b → InStep related' (step a) (step' b)) :
    InStep (List.Forall₂ related') (items.mapM step) (items'.mapM step') := by
  induction alike with
  | nil => exact .ok .nil
  | cons here _ ih =>
      rw [List.mapM_cons, List.mapM_cons]
      apply (each _ _ here).bind
      intro c d same
      apply ih.bind
      intro cs ds rest
      exact .ok (.cons same rest)

theorem foldlM {step : α → γ → Except ε α} {step' : β → γ → Except ε β} (items : List γ) {a : α}
    {b : β} (start : related a b)
    (each : ∀ a b item, related a b → InStep related (step a item) (step' b item)) :
    InStep related (items.foldlM step a) (items.foldlM step' b) := by
  induction items generalizing a b with
  | nil => exact .ok start
  | cons item rest ih =>
      rw [List.foldlM_cons, List.foldlM_cons]
      exact (each a b item start).bind fun a b same => ih same

end InStep

end Docstore
