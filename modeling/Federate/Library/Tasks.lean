import Federate.Library.Transition

/-!
# Tasks over a shared state

Any number of tasks run over one shared state. A turn begins a task, or lets one task take one
step, or changes the shared state from outside. What every step keeps, of the shared state and of
the task that takes it, holds of the shared state and of all tasks after any turns in any order;
and a task that is alone runs as if it were a program of its own.
-/

/-- A shared state and the tasks that run over it. -/
structure Tasks (σ τ : Type*) where
  /-- What all tasks read and change. -/
  shared : σ
  /-- Where each task stands. -/
  tasks : List τ

namespace Tasks

variable {σ τ ι κ : Type*}

/-- What happens next. -/
inductive Turn (τ ι κ : Type*) where
  | begin (task : τ)
  | step (place : ℕ) (input : ι)
  | outside (change : κ)

/-- The state after a turn; a step of a task that is not there changes nothing. -/
def turn (step : ι → τ → σ → σ × τ) (outside : κ → σ → σ) (p : Tasks σ τ) :
    Turn τ ι κ → Tasks σ τ
  | .begin task => { p with tasks := p.tasks ++ [task] }
  | .step place input =>
    match p.tasks[place]? with
    | none => p
    | some task =>
      let after := step input task p.shared
      ⟨after.1, p.tasks.set place after.2⟩
  | .outside change => { p with shared := outside change p.shared }

variable {step : ι → τ → σ → σ × τ} {outside : κ → σ → σ}

/-! ## Invariants -/

/-- A condition on the shared state and one on every task. -/
structure Holds (I : σ → Prop) (J : τ → Prop) (p : Tasks σ τ) : Prop where
  /-- Of the shared state. -/
  shared : I p.shared
  /-- Of every task. -/
  tasks : ∀ task ∈ p.tasks, J task

/-- Tasks begin in order and step on inputs of this kind, and the outside keeps what it finds. -/
def Admits (I : σ → Prop) (J : τ → Prop) (A : ι → Prop) (outside : κ → σ → σ) (p : Tasks σ τ) :
    Turn τ ι κ → Prop
  | .begin task => J task
  | .step _ input => A input
  | .outside change => I p.shared → I (outside change p.shared)

variable {I : σ → Prop} {J : τ → Prop} {A : ι → Prop}

/-- A turn keeps what every step of a single task keeps. -/
theorem Holds.turn
    (kept : ∀ input task s, A input → I s → J task →
      I (step input task s).1 ∧ J (step input task s).2)
    {p : Tasks σ τ} (holds : Holds I J p) {t : Turn τ ι κ} (admits : Admits I J A outside p t) :
    Holds I J (p.turn step outside t) := by
  cases t with
  | begin task =>
    refine ⟨holds.shared, fun other member => ?_⟩
    rcases List.mem_append.mp member with before | begun
    · exact holds.tasks other before
    · rw [List.mem_singleton.mp begun]
      exact admits
  | step place input =>
    cases found : p.tasks[place]? with
    | none =>
      have same : p.turn step outside (.step place input) = p := by simp only [Tasks.turn, found]
      rw [same]
      exact holds
    | some task =>
      have there : task ∈ p.tasks := List.mem_of_getElem? found
      have both := kept input task p.shared admits holds.shared (holds.tasks task there)
      have after : p.turn step outside (.step place input) =
          ⟨(step input task p.shared).1, p.tasks.set place (step input task p.shared).2⟩ := by
        simp only [Tasks.turn, found]
      rw [after]
      refine ⟨both.1, fun other member => ?_⟩
      rcases List.mem_or_eq_of_mem_set member with before | same
      · exact holds.tasks other before
      · rw [same]
        exact both.2
  | outside change => exact ⟨admits holds.shared, holds.tasks⟩

/-- Turns in any order keep what every step of a single task keeps. -/
theorem Holds.run
    (kept : ∀ input task s, A input → I s → J task →
      I (step input task s).1 ∧ J (step input task s).2)
    {p : Tasks σ τ} (holds : Holds I J p) {turns : List (Turn τ ι κ)}
    (admits : Transition.Guarded (Tasks.turn step outside) (Admits I J A outside) p turns) :
    Holds I J (Transition.run (Tasks.turn step outside) p turns) :=
  Transition.invariant (fun _ _ holds admits => holds.turn kept admits) holds admits

/-! ## A task that is alone -/

variable (step) in
/-- From the first state and task, some steps under one input lead to the second. -/
def Leads (input : ι) (from' to' : σ × τ) : Prop :=
  ∃ n, Transition.run (fun (at' : σ × τ) (_ : Unit) => step input at'.2 at'.1) from'
    (List.replicate n ()) = to'

/-- No step leads nowhere else. -/
theorem Leads.refl (input : ι) (from' : σ × τ) : Leads step input from' from' := ⟨0, rfl⟩

/-- One step, and then more. -/
theorem Leads.next {input : ι} {s s' : σ} {task task' : τ} {to' : σ × τ}
    (now : step input task s = (s', task')) (later : Leads step input (s', task') to') :
    Leads step input (s, task) to' := by
  obtain ⟨n, ran⟩ := later
  refine ⟨n + 1, ?_⟩
  rw [List.replicate_succ, Transition.run_cons, now]
  exact ran

/-- Some steps, and then more. -/
theorem Leads.trans {input : ι} {from' between to' : σ × τ}
    (first : Leads step input from' between) (second : Leads step input between to') :
    Leads step input from' to' := by
  obtain ⟨n, ran⟩ := first
  obtain ⟨m, ran'⟩ := second
  refine ⟨n + m, ?_⟩
  rw [List.replicate_add, Transition.run_append, ran]
  exact ran'

/-- What a task alone leads to is what turns of that task lead to, among any tasks. -/
theorem Leads.turns {input : ι} {s s' : σ} {task task' : τ} {tasks tasks' : List τ} {place : ℕ}
    (leads : Leads step input (s, task) (s', task')) (found : tasks[place]? = some task)
    (changed : tasks.set place task' = tasks') :
    ∃ n, Transition.run (Tasks.turn step outside) ⟨s, tasks⟩
      (List.replicate n (.step place input)) = ⟨s', tasks'⟩ := by
  subst changed
  obtain ⟨n, ran⟩ := leads
  refine ⟨n, ?_⟩
  induction n generalizing s task tasks with
  | zero =>
    have same : (s, task) = (s', task') := ran
    have there := List.getElem?_eq_some_iff.mp found
    rw [← (Prod.mk.inj same).1, ← (Prod.mk.inj same).2, ← there.2, List.set_getElem_self there.1]
    rfl
  | succ n ih =>
    rw [List.replicate_succ, Transition.run_cons] at ran ⊢
    have bound : place < tasks.length := (List.getElem?_eq_some_iff.mp found).1
    have now : (Tasks.mk s tasks).turn step outside (.step place input) =
        ⟨(step input task s).1, tasks.set place (step input task s).2⟩ := by
      simp only [Tasks.turn, found]
    have later := ih (List.getElem?_set_self bound) ran
    rw [now, later, List.set_set]

end Tasks
