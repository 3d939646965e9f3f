import Mathlib

/-!
# Fallible steps

A fallible program returns `Except`. An early return is `rejectIf`, a missing value turned
into an error is `okOr`, and a checked loop is `List.forM`. Each has one equivalence saying
when it succeeds, so that a successful program unfolds into the conjunction of its checks.
-/
namespace Outcome

universe u v

variable {ε : Type u} {α β : Type v}

/-- Return early with an error when the condition holds. -/
def rejectIf (condition : Prop) [Decidable condition] (error : ε) : Except ε Unit :=
  if condition then .error error else .ok ()

/-- The value of an option, or an error when there is none. -/
def okOr (value : Option α) (error : ε) : Except ε α :=
  match value with
  | some found => .ok found
  | none => .error error

/-- Replace the error of a failed step. -/
def mapError {ε' : Type*} (f : ε → ε') : Except ε α → Except ε' α
  | .ok value => .ok value
  | .error error => .error (f error)

/-- A sequence succeeds when both parts do, the second on the first's value. -/
@[simp] theorem bind_eq_ok {x : Except ε α} {f : α → Except ε β} {b : β} :
    (x >>= f) = .ok b ↔ ∃ a, x = .ok a ∧ f a = .ok b := by
  cases x <;> simp [bind, Except.bind]

/-- A pure step returns its value. -/
@[simp] theorem pure_eq_ok {a b : α} : (pure a : Except ε α) = .ok b ↔ a = b := by
  simp [pure, Except.pure]

/-- An early return is passed exactly when its condition fails. -/
@[simp] theorem rejectIf_eq_ok {condition : Prop} [Decidable condition] {error : ε} {u : Unit} :
    rejectIf condition error = .ok u ↔ ¬condition := by
  unfold rejectIf
  split <;> simp_all

/-- A required value is found exactly when the option holds it. -/
@[simp] theorem okOr_eq_ok {value : Option α} {error : ε} {a : α} :
    okOr value error = .ok a ↔ value = some a := by
  cases value <;> simp [okOr]

/-- Replacing the error does not change the successes. -/
@[simp] theorem mapError_eq_ok {ε' : Type*} {f : ε → ε'} {x : Except ε α} {a : α} :
    mapError f x = .ok a ↔ x = .ok a := by
  cases x <;> simp [mapError]

/-- A check returns nothing but its success. -/
@[simp] theorem exists_unit {p : Unit → Prop} : (∃ u, p u) ↔ p () :=
  ⟨fun ⟨_, passed⟩ => passed, fun passed => ⟨(), passed⟩⟩

/-- A checked loop succeeds exactly when every element passes. -/
@[simp] theorem forM_eq_ok {check : α → Except ε Unit} {items : List α} {u : Unit} :
    items.forM check = .ok u ↔ ∀ item ∈ items, check item = .ok () := by
  induction items with
  | nil => simp [pure, Except.pure]
  | cons head tail ih =>
    have rest : (forM tail check = .ok u) ↔ ∀ item ∈ tail, check item = .ok () := ih
    simp [List.forM_cons, rest]

/-- Mapping a step over a list succeeds exactly when the step does on every element, with the
results in order. -/
theorem mapM_eq_ok {γ : Type v} {f : γ → Except ε α} {items : List γ} {results : List α} :
    items.mapM f = .ok results ↔
      List.Forall₂ (fun item result => f item = .ok result) items results := by
  induction items generalizing results with
  | nil => simp [pure, Except.pure, eq_comm]
  | cons head tail ih =>
    simp only [List.mapM_cons, bind_eq_ok, ih, pure_eq_ok, List.forall₂_cons_left_iff]
    constructor
    · intro h
      obtain ⟨first, here, rest, later, equal⟩ := h
      exact ⟨first, rest, here, later, equal.symm⟩
    · intro h
      obtain ⟨first, rest, here, later, equal⟩ := h
      exact ⟨first, here, rest, later, equal.symm⟩

/-! ## How a program fails -/

/-- Every failure of the step has the property. -/
def FailsWith (P : ε → Prop) (x : Except ε α) : Prop := ∀ e, x = .error e → P e

section FailsWith

variable {P : ε → Prop}

/-- A sequence fails as its parts do. -/
theorem FailsWith.bind {x : Except ε α} {f : α → Except ε β} (first : FailsWith P x)
    (rest : ∀ a, FailsWith P (f a)) : FailsWith P (x >>= f) := by
  intro e failed
  cases x with
  | error e' =>
    obtain rfl : e' = e := Except.error.inj failed
    exact first e' rfl
  | ok a => exact rest a e failed

/-- An early return fails with its error. -/
theorem failsWith_rejectIf {condition : Prop} [Decidable condition] {error : ε} (holds : P error) :
    FailsWith P (rejectIf condition error) := by
  intro e failed
  unfold rejectIf at failed
  split at failed
  · exact Except.error.inj failed ▸ holds
  · exact absurd failed nofun

/-- A missing value fails with its error. -/
theorem failsWith_okOr {value : Option α} {error : ε} (holds : P error) :
    FailsWith P (okOr value error) := by
  intro e failed
  cases value with
  | some a => exact absurd failed nofun
  | none => exact Except.error.inj failed ▸ holds

/-- A checked loop fails as one of its elements does. -/
theorem FailsWith.forM {check : α → Except ε Unit} (each : ∀ item, FailsWith P (check item))
    (items : List α) : FailsWith P (items.forM check) := by
  induction items with
  | nil => exact fun e failed => absurd failed nofun
  | cons head tail ih => exact (each head).bind fun _ => ih

end FailsWith

/-- A fallible step either fails or returns a value. -/
theorem error_or_ok (x : Except ε α) : (∃ e, x = .error e) ∨ ∃ a, x = .ok a := by
  cases x <;> simp

end Outcome
