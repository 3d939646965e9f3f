import Federate.Library.Outcome

/-!
# Guarded runs of a transition function

A system is a total transition function on states and inputs. A run is a list of inputs; a
guard is a condition that every input of the run meets in the state it is taken in. An
invariant kept by every guarded step holds after every guarded run, a property that is lost
along a run is lost at a first step, and what a run observes is a list in the order of its
steps.
-/
namespace Transition

variable {σ ι β : Type*}

/-- The state a run ends in. -/
def run (step : σ → ι → σ) (s : σ) (inputs : List ι) : σ := inputs.foldl step s

/-- Every input of the run meets the guard in the state it is taken in. -/
def Guarded (step : σ → ι → σ) (guard : σ → ι → Prop) : σ → List ι → Prop
  | _, [] => True
  | s, input :: rest => guard s input ∧ Guarded step guard (step s input) rest

/-- What a run observes, step by step, in order. -/
def observations (step : σ → ι → σ) (observe : σ → ι → Option β) : σ → List ι → List β
  | _, [] => []
  | s, input :: rest =>
    (observe s input).toList ++ observations step observe (step s input) rest

variable {step : σ → ι → σ} {guard : σ → ι → Prop} {observe : σ → ι → Option β}

@[simp] theorem run_nil (s : σ) : run step s [] = s := rfl

@[simp] theorem run_cons (s : σ) (input : ι) (rest : List ι) :
    run step s (input :: rest) = run step (step s input) rest := rfl

/-- A run of two parts is the second part run from where the first ends. -/
theorem run_append (s : σ) (first second : List ι) :
    run step s (first ++ second) = run step (run step s first) second := by
  simp [run]

/-- A guarded run of two parts is guarded on each. -/
theorem guarded_append (s : σ) (first second : List ι) :
    Guarded step guard s (first ++ second) ↔
      Guarded step guard s first ∧ Guarded step guard (run step s first) second := by
  induction first generalizing s with
  | nil => simp [Guarded]
  | cons input rest ih => simp [Guarded, ih, and_assoc]

/-- Every run is guarded by the condition that always holds. -/
theorem guarded_true (step : σ → ι → σ) (s : σ) (inputs : List ι) :
    Guarded step (fun _ _ => True) s inputs := by
  induction inputs generalizing s with
  | nil => trivial
  | cons input rest ih => exact ⟨trivial, ih _⟩

/-- A condition on inputs alone guards every run whose inputs meet it in every state. -/
theorem guarded_of_forall (guard : σ → ι → Prop) (s : σ) {inputs : List ι}
    (each : ∀ input ∈ inputs, ∀ s, guard s input) : Guarded step guard s inputs := by
  induction inputs generalizing s with
  | nil => trivial
  | cons input rest ih =>
    exact ⟨each input List.mem_cons_self s,
      ih _ fun later member => each later (List.mem_cons_of_mem _ member)⟩

/-- A weaker guard accepts every run a stronger one does. -/
theorem Guarded.mono {weaker : σ → ι → Prop} (implies : ∀ s input, guard s input → weaker s input)
    {s : σ} {inputs : List ι} (guarded : Guarded step guard s inputs) :
    Guarded step weaker s inputs := by
  induction inputs generalizing s with
  | nil => trivial
  | cons input rest ih => exact ⟨implies _ _ guarded.1, ih guarded.2⟩

/-- An invariant kept by every guarded step holds after every guarded run. -/
theorem invariant {I : σ → Prop}
    (kept : ∀ s input, I s → guard s input → I (step s input)) {s : σ} {inputs : List ι}
    (initial : I s) (guarded : Guarded step guard s inputs) : I (run step s inputs) := by
  induction inputs generalizing s with
  | nil => exact initial
  | cons input rest ih => exact ih (kept _ _ initial guarded.1) guarded.2

/-- An invariant with a count that every step raises by one holds after every run, with the
length of the run added. -/
theorem invariant_counted {I : ℕ → σ → Prop}
    (kept : ∀ count s input, I count s → I (count + 1) (step s input)) {count : ℕ} {s : σ}
    (initial : I count s) (inputs : List ι) : I (count + inputs.length) (run step s inputs) := by
  induction inputs generalizing count s with
  | nil => exact initial
  | cons input rest ih =>
    rw [List.length_cons, Nat.add_comm rest.length, ← Nat.add_assoc]
    exact ih (kept _ _ _ initial)

/-- An invariant of guarded steps may be assumed by the guard of every step. -/
theorem Guarded.with_invariant {I : σ → Prop}
    (kept : ∀ s input, I s → guard s input → I (step s input)) {s : σ} {inputs : List ι}
    (initial : I s) (guarded : Guarded step guard s inputs) :
    Guarded step (fun s input => I s ∧ guard s input) s inputs := by
  induction inputs generalizing s with
  | nil => trivial
  | cons input rest ih =>
    exact ⟨⟨initial, guarded.1⟩, ih (kept _ _ initial guarded.1) guarded.2⟩

/-- A property that each assumed step keeps exactly under its guard holds after every part of
a run exactly when the whole run is guarded. -/
theorem holds_iff_guarded {P I : σ → Prop} {assumed : σ → ι → Prop}
    (kept : ∀ s input, I s → I (step s input))
    (exactly : ∀ s input, I s → P s → assumed s input → (P (step s input) ↔ guard s input))
    {s : σ} {inputs : List ι} (invariant : I s) (holds : P s)
    (assumption : Guarded step assumed s inputs) :
    (∀ earlier, earlier <+: inputs → P (run step s earlier)) ↔ Guarded step guard s inputs := by
  induction inputs generalizing s with
  | nil =>
    refine ⟨fun _ => trivial, fun _ earlier isPrefix => ?_⟩
    rw [List.prefix_nil.mp isPrefix]
    exact holds
  | cons input rest ih =>
    have first := exactly s input invariant holds assumption.1
    constructor
    · intro all
      have after : P (step s input) := all [input] (List.prefix_cons_inj input |>.mpr
        List.nil_prefix)
      refine ⟨first.mp after, (ih (kept s input invariant) after assumption.2).mp ?_⟩
      exact fun earlier isPrefix => all (input :: earlier) (List.prefix_cons_inj input |>.mpr
        isPrefix)
    · rintro ⟨now, later⟩ earlier isPrefix
      have after := first.mpr now
      cases earlier with
      | nil => exact holds
      | cons head tail =>
        obtain ⟨rfl, tailPrefix⟩ := List.cons_prefix_cons.mp isPrefix
        exact (ih (kept s head invariant) after assumption.2).mpr later tail tailPrefix

/-- A property lost along a run is lost at a first step: it holds in every state before that
step and fails after it. -/
theorem first_loss {P : σ → Prop} {s : σ} {inputs : List ι} (holds : P s)
    (lost : ¬P (run step s inputs)) :
    ∃ before input after, inputs = before ++ input :: after ∧
      (∀ earlier, earlier <+: before → P (run step s earlier)) ∧
      ¬P (step (run step s before) input) := by
  induction inputs generalizing s with
  | nil => exact absurd holds lost
  | cons input rest ih =>
    by_cases kept : P (step s input)
    · obtain ⟨before, later, after, split, earlierHold, fails⟩ := ih kept lost
      refine ⟨input :: before, later, after, by rw [split]; rfl, ?_, fails⟩
      intro earlier isPrefix
      cases earlier with
      | nil => exact holds
      | cons head tail =>
        obtain ⟨rfl, tailPrefix⟩ := List.cons_prefix_cons.mp isPrefix
        exact earlierHold tail tailPrefix
    · refine ⟨[], input, rest, rfl, ?_, kept⟩
      intro earlier isPrefix
      rw [List.prefix_nil.mp isPrefix]
      exact holds

/-- Every observation of a guarded run has a property that each guarded step gives its own. -/
theorem observations_forall {Q : β → Prop}
    (each : ∀ s input b, guard s input → observe s input = some b → Q b) {s : σ}
    {inputs : List ι} (guarded : Guarded step guard s inputs) :
    ∀ b ∈ observations step observe s inputs, Q b := by
  induction inputs generalizing s with
  | nil => simp [observations]
  | cons input rest ih =>
    intro b member
    rcases List.mem_append.mp member with here | later
    · exact each s input b guarded.1 (Option.mem_toList.mp here)
    · exact ih guarded.2 b later

/-- Every two observations of a guarded run are related in their order, when each leaves a mark
that later steps keep and that relates it to what is observed under it. -/
theorem observations_pairwise {R : β → β → Prop} {M : β → σ → Prop}
    (marks : ∀ s input b, guard s input → observe s input = some b → M b (step s input))
    (stays : ∀ s input b, guard s input → M b s → M b (step s input))
    (related : ∀ s input a b, guard s input → M a s → observe s input = some b → R a b)
    {s : σ} {inputs : List ι} (guarded : Guarded step guard s inputs) :
    (observations step observe s inputs).Pairwise R ∧
      ∀ a, M a s → ∀ b ∈ observations step observe s inputs, R a b := by
  induction inputs generalizing s with
  | nil => simp [observations]
  | cons input rest ih =>
    obtain ⟨ordered, after⟩ := ih guarded.2
    cases seen : observe s input with
    | none =>
      simp only [observations, seen, Option.toList_none, List.nil_append]
      exact ⟨ordered, fun a mark => after a (stays s input a guarded.1 mark)⟩
    | some first =>
      simp only [observations, seen, Option.toList_some, List.singleton_append]
      refine ⟨List.pairwise_cons.mpr ⟨after first (marks s input first guarded.1 seen), ordered⟩, ?_⟩
      intro a mark b member
      rcases List.mem_cons.mp member with rfl | later
      · exact related s input a b guarded.1 mark seen
      · exact after a (stays s input a guarded.1 mark) b later

/-- What is kept of a state and of all that was observed before it holds after every guarded run. -/
theorem invariant_observed {I : List β → σ → Prop}
    (kept : ∀ seen s input, I seen s → guard s input →
      I (seen ++ (observe s input).toList) (step s input)) {seen : List β} {s : σ}
    {inputs : List ι} (initial : I seen s) (guarded : Guarded step guard s inputs) :
    I (seen ++ observations step observe s inputs) (run step s inputs) := by
  induction inputs generalizing seen s with
  | nil =>
    rw [observations, List.append_nil]
    exact initial
  | cons input rest ih =>
    have later := ih (kept seen s input initial guarded.1) guarded.2
    rw [observations, ← List.append_assoc]
    exact later

/-- Observations strictly increase along a run when each lies above a level of the state
before its step, the level after the step reaches it, and no step lowers the level. -/
theorem observations_increasing {value : β → ℕ} {level : σ → ℕ}
    (rises : ∀ s input, guard s input → level s ≤ level (step s input))
    (above : ∀ s input b, guard s input → observe s input = some b →
      level s < value b ∧ value b ≤ level (step s input))
    {s : σ} {inputs : List ι} (guarded : Guarded step guard s inputs) :
    (observations step observe s inputs).Pairwise (fun a b => value a < value b) ∧
      ∀ b ∈ observations step observe s inputs, level s < value b := by
  induction inputs generalizing s with
  | nil => simp [observations]
  | cons input rest ih =>
    obtain ⟨ordered, beyond⟩ := ih guarded.2
    cases seen : observe s input with
    | none =>
      simp only [observations, seen, Option.toList_none, List.nil_append]
      exact ⟨ordered, fun b member =>
        Nat.lt_of_le_of_lt (rises _ _ guarded.1) (beyond b member)⟩
    | some first =>
      obtain ⟨exceeds, reached⟩ := above _ _ _ guarded.1 seen
      have later : ∀ b ∈ observations step observe (step s input) rest,
          value first < value b := fun b member => Nat.lt_of_le_of_lt reached (beyond b member)
      simp only [observations, seen, Option.toList_some, List.singleton_append]
      refine ⟨List.pairwise_cons.mpr ⟨later, ordered⟩, ?_⟩
      intro b member
      rcases List.mem_cons.mp member with rfl | member
      · exact exceeds
      · exact Nat.lt_trans exceeds (later b member)

end Transition
