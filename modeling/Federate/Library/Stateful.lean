import Federate.Library.Outcome

/-!
# Fallible programs on a state

A program reads and changes a state and then fails or returns a value; the changes made before
a failure stay. Running a program gives the outcome together with the state it leaves. A failure
may be caught, and a list of alternatives tried until one returns. A relation that every
primitive step keeps is kept by the programs built from them.
-/
namespace Stateful

variable {σ ε α β : Type}

/-- A program on a state `σ` with errors `ε`. -/
abbrev Prog (σ ε α : Type) : Type := ExceptT ε (StateM σ) α

/-- The outcome of a program and the state it leaves. -/
def exec (program : Prog σ ε α) (s : σ) : Except ε α × σ := program s

/-- A sequence stops at the first failure, in the state that failure leaves. -/
theorem exec_bind (first : Prog σ ε α) (next : α → Prog σ ε β) (s : σ) :
    exec (first >>= next) s =
      match exec first s with
      | (.ok a, s') => exec (next a) s'
      | (.error e, s') => (.error e, s') := by
  simp only [exec, bind, ExceptT.bind, ExceptT.mk, StateT.bind, Id]
  rcases first s with ⟨_ | _, _⟩ <;> rfl

@[simp] theorem exec_pure (a : α) (s : σ) : exec (pure a : Prog σ ε α) s = (.ok a, s) := rfl

@[simp] theorem exec_get (s : σ) : exec (get : Prog σ ε σ) s = (.ok s, s) := rfl

@[simp] theorem exec_modify (f : σ → σ) (s : σ) :
    exec (modify f : Prog σ ε PUnit) s = (.ok ⟨⟩, f s) := rfl

@[simp] theorem exec_throw (e : ε) (s : σ) :
    exec (throw e : Prog σ ε α) s = (.error e, s) := rfl

/-- A fallible step without a state leaves the state alone. -/
@[simp] theorem exec_lift (x : Except ε α) (s : σ) :
    exec (liftM x : Prog σ ε α) s = (x, s) := rfl

/-- Mapping the value changes neither the state nor whether the program fails. -/
@[simp] theorem exec_map (f : α → β) (program : Prog σ ε α) (s : σ) :
    exec (f <$> program) s = ((exec program s).1.map f, (exec program s).2) := by
  simp only [exec, Functor.map, ExceptT.map, ExceptT.mk, StateT.bind, bind, Id]
  rcases program s with ⟨_ | _, _⟩ <;> rfl

/-- A sequence whose first part returns continues from there. -/
theorem exec_bind_ok {first : Prog σ ε α} {next : α → Prog σ ε β} {s s' : σ} {a : α}
    (returned : exec first s = (.ok a, s')) : exec (first >>= next) s = exec (next a) s' := by
  rw [exec_bind, returned]

/-- A sequence whose first part fails fails with it. -/
theorem exec_bind_error {first : Prog σ ε α} {next : α → Prog σ ε β} {s s' : σ} {e : ε}
    (failed : exec first s = (.error e, s')) : exec (first >>= next) s = (.error e, s') := by
  rw [exec_bind, failed]

/-- A sequence returns exactly when both parts do, the second from where the first ends. -/
theorem exec_bind_eq_ok {first : Prog σ ε α} {next : α → Prog σ ε β} {s s' : σ} {b : β} :
    exec (first >>= next) s = (.ok b, s') ↔
      ∃ a s₁, exec first s = (.ok a, s₁) ∧ exec (next a) s₁ = (.ok b, s') := by
  rw [exec_bind]
  rcases exec first s with ⟨e | a, s₁⟩ <;> simp

/-! ## Catching failures -/

/-- Run a program and return its outcome, a failure included. -/
def attempt (program : Prog σ ε α) : Prog σ ε (Except ε α) := fun s =>
  (.ok (exec program s).1, (exec program s).2)

@[simp] theorem exec_attempt (program : Prog σ ε α) (s : σ) :
    exec (attempt program) s = (.ok (exec program s).1, (exec program s).2) := rfl

/-- Catching returns exactly the outcome of the program. -/
theorem exec_attempt_eq_ok {program : Prog σ ε α} {s s' : σ} {outcome : Except ε α} :
    exec (attempt program) s = (.ok outcome, s') ↔ exec program s = (outcome, s') := by
  simp [Prod.ext_iff]

variable {ι : Type}

/-- Try the items in order and return what the first that succeeds gives. A failure that `stop`
holds of ends the search; when every item fails otherwise, the fallback decides. -/
def tryEach (stop : ε → Bool) (fetch : ι → Prog σ ε α) (fallback : Prog σ ε α) :
    List ι → Prog σ ε α
  | [] => fallback
  | item :: rest => do
    match ← attempt (fetch item) with
    | .ok a => pure a
    | .error e => if stop e then throw e else tryEach stop fetch fallback rest

variable {stop : ε → Bool} {fetch : ι → Prog σ ε α} {fallback : Prog σ ε α}

/-- What a search returns comes from one of its items or from the fallback. -/
theorem tryEach_ok {items : List ι} {s s' : σ} {a : α}
    (returned : exec (tryEach stop fetch fallback items) s = (.ok a, s')) :
    (∃ item ∈ items, ∃ s₁, exec (fetch item) s₁ = (.ok a, s')) ∨
      ∃ s₁, exec fallback s₁ = (.ok a, s') := by
  induction items generalizing s with
  | nil => exact .inr ⟨s, returned⟩
  | cons item rest ih =>
    rw [tryEach, exec_bind_eq_ok] at returned
    obtain ⟨outcome, s₁, tried, decided⟩ := returned
    rw [exec_attempt_eq_ok] at tried
    cases outcome with
    | ok found =>
      simp only [exec_pure, Prod.mk.injEq, Except.ok.injEq] at decided
      obtain ⟨rfl, rfl⟩ := decided
      exact .inl ⟨item, List.mem_cons_self, s, tried⟩
    | error e =>
      simp only at decided
      split at decided
      · simp at decided
      · rcases ih decided with ⟨later, member, gave⟩ | fell
        · exact .inl ⟨later, List.mem_cons_of_mem _ member, gave⟩
        · exact .inr fell

/-- A search of a list is a search of its first part with a search of the rest to fall back on. -/
theorem tryEach_append (first second : List ι) :
    tryEach stop fetch fallback (first ++ second) =
      tryEach stop fetch (tryEach stop fetch fallback second) first := by
  induction first with
  | nil => rfl
  | cons item rest ih =>
    rw [List.cons_append, tryEach, tryEach]
    simp only [ih]

/-- A search of renamed items. -/
theorem tryEach_map {κ : Type} (rename : κ → ι) (items : List κ) :
    tryEach stop fetch fallback (items.map rename) =
      tryEach stop (fetch ∘ rename) fallback items := by
  induction items with
  | nil => rfl
  | cons item rest ih =>
    rw [List.map_cons, tryEach, tryEach]
    simp only [ih, Function.comp_apply]

/-! ## The first item of a search that succeeds -/

/-- The first item that succeeds, when they are tried in order from a state, gives a value with
the property, in the state that it leaves. -/
inductive First (fetch : ι → Prog σ ε α) (Q : α → σ → Prop) : σ → List ι → Prop
  | here {s s' : σ} {item : ι} {rest : List ι} {a : α}
      (found : exec (fetch item) s = (.ok a, s')) (holds : Q a s') : First fetch Q s (item :: rest)
  | later {s s' : σ} {item : ι} {rest : List ι} {e : ε}
      (failed : exec (fetch item) s = (.error e, s')) (next : First fetch Q s' rest) :
      First fetch Q s (item :: rest)

/-- A search that no failure ends returns what the first item that succeeds does. -/
theorem tryEach_first {Q : α → σ → Prop} {items : List ι} {last : ι} {s : σ} :
    (∃ a s', exec (tryEach (fun _ => false) fetch (fetch last) items) s = (.ok a, s') ∧ Q a s') ↔
      First fetch Q s (items ++ [last]) := by
  induction items generalizing s with
  | nil =>
    constructor
    · intro returned
      obtain ⟨a, s', found, holds⟩ := returned
      exact .here found holds
    · intro first
      cases first with
      | here found holds => exact ⟨_, _, found, holds⟩
      | later failed next => cases next
  | cons item rest ih =>
    rw [List.cons_append, tryEach, exec_bind, exec_attempt]
    cases outcome : exec (fetch item) s with
    | mk result s₁ =>
      cases result with
      | ok a =>
        simp only [exec_pure, Prod.mk.injEq, Except.ok.injEq]
        constructor
        · intro returned
          obtain ⟨a', s', ⟨rfl, rfl⟩, holds⟩ := returned
          exact .here outcome holds
        · intro first
          cases first with
          | here found holds =>
            rw [outcome, Prod.mk.injEq, Except.ok.injEq] at found
            exact ⟨_, _, found, holds⟩
          | later failed next => simp [outcome] at failed
      | error e =>
        simp only [Bool.false_eq_true, if_false, ih]
        constructor
        · intro next
          exact .later outcome next
        · intro first
          cases first with
          | here found holds => simp [outcome] at found
          | later failed next =>
            rw [outcome, Prod.mk.injEq] at failed
            exact failed.2 ▸ next

/-- From every state with the property `I`, the program returns a value with the property `Q`. -/
def Yields (I : σ → Prop) (Q : α → Prop) (program : Prog σ ε α) : Prop :=
  ∀ s, I s → ∃ a s', exec program s = (.ok a, s') ∧ Q a

/-- A search yields what one of its items yields, when no failure ends it, the others return
nothing else and they keep the states that the one needs. -/
theorem tryEach_yields {I : σ → Prop} {Q : α → Prop} (never : ∀ e, stop e = false)
    (keeps : ∀ item s, I s → I (exec (fetch item) s).2)
    (only : ∀ item s s' a, exec (fetch item) s = (.ok a, s') → Q a) {items : List ι}
    (found : (∃ item ∈ items, Yields I Q (fetch item)) ∨ Yields I Q fallback) :
    Yields I Q (tryEach stop fetch fallback items) := by
  induction items with
  | nil =>
    rcases found with ⟨item, member, yields⟩ | yields
    · cases member
    · exact yields
  | cons item rest ih =>
    intro s holds
    rw [tryEach, exec_bind, exec_attempt]
    cases outcome : exec (fetch item) s with
    | mk result s₁ =>
      cases result with
      | ok a => exact ⟨a, s₁, rfl, only item s s₁ a outcome⟩
      | error e =>
        have kept : I s₁ := by
          have keeps := keeps item s holds
          rwa [outcome] at keeps
        have remains : (∃ item ∈ rest, Yields I Q (fetch item)) ∨ Yields I Q fallback := by
          rcases found with ⟨other, member, yields⟩ | yields
          · rcases List.mem_cons.mp member with rfl | later
            · obtain ⟨a, s', returned, -⟩ := yields s holds
              simp [outcome] at returned
            · exact .inl ⟨other, later, yields⟩
          · exact .inr yields
        simp only [never, Bool.false_eq_true, if_false]
        exact ih remains s₁ kept

/-! ## Relations that a program keeps -/

/-- The state before a program and the one it leaves are related, whatever its outcome. -/
def Keeps (R : σ → σ → Prop) (program : Prog σ ε α) : Prop := ∀ s, R s (exec program s).2

section Keeps

variable {R : σ → σ → Prop} {first : Prog σ ε α} {next : α → Prog σ ε β}

/-- A weaker relation is kept too. -/
theorem Keeps.mono {weaker : σ → σ → Prop} (keeps : Keeps R first)
    (implies : ∀ s s', R s s' → weaker s s') : Keeps weaker first :=
  fun s => implies _ _ (keeps s)

/-- A change of the state keeps a relation that relates every state to its image. -/
theorem keeps_modify {f : σ → σ} (related : ∀ s, R s (f s)) :
    Keeps R (modify f : Prog σ ε PUnit) := related

/-- Catching a failure changes nothing more. -/
theorem Keeps.attempt (keeps : Keeps R first) : Keeps R (attempt first) := keeps

/-- A sequence keeps a relation of its first part that absorbs what its last part keeps. -/
theorem Keeps.followed {S : σ → σ → Prop} (keeps : Keeps R first) (rest : ∀ a, Keeps S (next a))
    (absorbs : ∀ s s₁ s', R s s₁ → S s₁ s' → R s s') : Keeps R (first >>= next) := by
  intro s
  have before := keeps s
  rw [exec_bind]
  generalize exec first s = result at before
  obtain ⟨e | a, s₁⟩ := result
  · exact before
  · exact absorbs _ _ _ before (rest a s₁)

/-- A sequence keeps what both parts keep. -/
theorem Keeps.bind [IsTrans σ R] (keeps : Keeps R first) (rest : ∀ a, Keeps R (next a)) :
    Keeps R (first >>= next) :=
  keeps.followed rest fun _ _ _ => IsTrans.trans _ _ _

variable [Std.Refl R]

theorem keeps_pure (a : α) : Keeps R (pure a : Prog σ ε α) := fun s => Std.Refl.refl s

theorem keeps_get : Keeps R (get : Prog σ ε σ) := fun s => Std.Refl.refl s

theorem keeps_throw (e : ε) : Keeps R (throw e : Prog σ ε α) := fun s => Std.Refl.refl s

theorem keeps_lift (x : Except ε α) : Keeps R (liftM x : Prog σ ε α) := fun s => Std.Refl.refl s

/-- A fallible step before a program changes nothing. -/
theorem Keeps.afterLift (x : Except ε α) (rest : ∀ a, Keeps R (next a)) :
    Keeps R (liftM x >>= next) := by
  intro s
  rw [exec_bind, exec_lift]
  cases x with
  | error e => exact Std.Refl.refl s
  | ok a => exact rest a s

variable [IsTrans σ R]

/-- A search keeps what its items and its fallback keep. -/
theorem Keeps.tryEach (each : ∀ item, Keeps R (fetch item)) (otherwise : Keeps R fallback)
    (items : List ι) : Keeps R (tryEach stop fetch fallback items) := by
  induction items with
  | nil => exact otherwise
  | cons item rest ih =>
    refine (each item).attempt.bind fun outcome => ?_
    cases outcome with
    | ok a => exact keeps_pure a
    | error e =>
      simp only
      split
      · exact keeps_throw e
      · exact ih

end Keeps

/-! ## Properties of what a program returns -/

/-- Whatever the program returns, from any state, has the property. -/
def Returns (Q : α → Prop) (program : Prog σ ε α) : Prop :=
  ∀ s s' a, exec program s = (.ok a, s') → Q a

section Returns

variable {P : α → Prop} {Q : β → Prop} {first : Prog σ ε α} {next : α → Prog σ ε β}

/-- A weaker property. -/
theorem Returns.mono {weaker : α → Prop} (returns : Returns P first)
    (implies : ∀ a, P a → weaker a) : Returns weaker first :=
  fun s s' a returned => implies a (returns s s' a returned)

/-- Nothing is known of an arbitrary program. -/
theorem returns_any (program : Prog σ ε α) : Returns (fun _ => True) program :=
  fun _ _ _ _ => trivial

theorem returns_pure {a : α} (holds : P a) : Returns P (pure a : Prog σ ε α) := by
  intro s s' b returned
  simp only [exec_pure, Prod.mk.injEq, Except.ok.injEq] at returned
  exact returned.1 ▸ holds

theorem returns_throw (e : ε) : Returns P (throw e : Prog σ ε α) := by
  intro s s' a returned
  simp at returned

/-- A fallible step returns its own value. -/
theorem returns_lift (x : Except ε α) : Returns (fun a => x = .ok a) (liftM x : Prog σ ε α) := by
  intro s s' a returned
  exact congrArg Prod.fst returned

/-- A sequence returns what its last part does on what the first returned. -/
theorem Returns.bind (returns : Returns P first) (rest : ∀ a, P a → Returns Q (next a)) :
    Returns Q (first >>= next) := by
  intro s s' b returned
  obtain ⟨a, s₁, before, after⟩ := exec_bind_eq_ok.mp returned
  exact rest a (returns s s₁ a before) s₁ s' b after

/-- A caught program returns an outcome, with the property when it is a value. -/
theorem Returns.attempt (returns : Returns P first) :
    Returns (fun outcome => ∀ a, outcome = .ok a → P a) (attempt first) := by
  intro s s' outcome returned a found
  exact returns s s' a (found ▸ exec_attempt_eq_ok.mp returned)

/-- A search returns what its items and its fallback do. -/
theorem Returns.tryEach (each : ∀ item, Returns P (fetch item)) (otherwise : Returns P fallback)
    (items : List ι) : Returns P (tryEach stop fetch fallback items) := by
  intro s s' a returned
  rcases tryEach_ok returned with ⟨item, -, s₁, gave⟩ | ⟨s₁, fell⟩
  · exact each item s₁ s' a gave
  · exact otherwise s₁ s' a fell

end Returns

end Stateful
