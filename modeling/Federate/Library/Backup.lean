import Federate.Library.Transition

/-!
# A backup in one slot

A program changes a configuration again and again. Each change saves what it finds, when that can
be read, in a slot that the next change writes over; undoing puts back what the slot holds. When
every change replaces the earlier ones, undoing gives back the first configuration exactly when it
could be read and is what the change before the last one sets.
-/
namespace Backup

open Transition Outcome

variable {C : Type*}

/-- A configuration, and the slot of its backup. -/
structure Saved (C : Type*) where
  /-- The configuration. -/
  config : C
  /-- The backup. -/
  slot : Option C

section Slot

variable (readable : C → Prop) [DecidablePred readable]

/-- Change the configuration, and save what it was if that can be read. -/
def change (s : Saved C) (set : C → C) : Saved C :=
  ⟨set s.config, if readable s.config then some s.config else s.slot⟩

/-- Put back what was saved, if anything, and empty the slot. -/
def undo (s : Saved C) : Saved C := ⟨s.slot.getD s.config, none⟩

variable {readable} {s : Saved C} {sets : List (C → C)}

/-- When every change replaces the earlier ones, the last one decides. -/
theorem run_config (absorbs : ∀ set ∈ sets, ∀ set' ∈ sets, ∀ c, set (set' c) = set c) :
    (run (change readable) s sets).config =
      sets.getLast?.elim s.config fun set => set s.config := by
  rcases List.eq_nil_or_concat' sets with rfl | ⟨earlier, last, rfl⟩
  · rfl
  · have inner : ∀ earlier : List (C → C), (∀ set ∈ earlier, ∀ c, last (set c) = last c) →
        last (run (change readable) s earlier).config = last s.config := by
      intro earlier replaced
      induction earlier using List.reverseRecOn with
      | nil => rfl
      | append_singleton earlier set ih =>
        have here := replaced set (by simp)
        have before := ih fun other member => replaced other (by simp [member])
        rw [run_append, run_cons, run_nil, change, here, before]
    have replaced := inner earlier fun set member c =>
      absorbs last (by simp) set (by simp [member]) c
    rw [run_append, run_cons, run_nil, List.getLast?_concat, Option.elim_some]
    exact replaced

/-- Undoing gives back the first configuration exactly when it could be read and is what the
change before the last one sets. -/
theorem undo_run_iff (nonempty : sets ≠ [])
    (absorbs : ∀ set ∈ sets, ∀ set' ∈ sets, ∀ c, set (set' c) = set c)
    (shown : ∀ set ∈ sets, ∀ c, readable (set c)) (kept : ∀ c ∈ s.slot, readable c) :
    (undo (run (change readable) s sets)).config = s.config ↔
      readable s.config ∧ ∀ set ∈ sets.dropLast.getLast?, set s.config = s.config := by
  obtain rfl | ⟨earlier, last, rfl⟩ := List.eq_nil_or_concat' sets
  · exact absurd rfl nonempty
  have before : (run (change readable) s earlier).config =
      earlier.getLast?.elim s.config fun set => set s.config :=
    run_config fun set member set' member' =>
      absorbs set (by simp [member]) set' (by simp [member'])
  rw [run_append, run_cons, run_nil, List.dropLast_concat]
  rcases List.eq_nil_or_concat' earlier with rfl | ⟨first, set, rfl⟩
  · simp only [run_nil, List.getLast?_nil, Option.mem_def, reduceCtorEq, false_implies,
      implies_true, and_true]
    by_cases read : readable s.config
    · simp [undo, change, read]
    · have other : readable (s.slot.getD (last s.config)) := by
        cases slot : s.slot with
        | none => exact shown last (by simp) _
        | some c => exact kept c slot
      simp only [undo, change, if_neg read]
      constructor
      · intro same
        rw [same] at other
        exact absurd other read
      · intro held
        exact absurd held read
  · rw [List.getLast?_concat, Option.elim_some] at before
    have read : readable (set s.config) := shown set (by simp) _
    have restored :
        (undo (change readable (run (change readable) s (first ++ [set])) last)).config =
          set s.config := by
      simp [undo, change, before, read]
    rw [restored, List.getLast?_concat]
    constructor
    · intro same
      rw [same] at read
      exact ⟨read, fun other member => (Option.some.inj member) ▸ same⟩
    · intro both
      exact both.2 set rfl

/-- When every configuration can be read, every change saves one. -/
theorem run_slot (nonempty : sets ≠ []) (always : ∀ c, readable c) :
    ∃ c, (run (change readable) s sets).slot = some c := by
  obtain rfl | ⟨earlier, last, rfl⟩ := List.eq_nil_or_concat' sets
  · exact absurd rfl nonempty
  · rw [run_append, run_cons, run_nil, change]
    exact ⟨_, if_pos (always _)⟩

end Slot

section Labels

variable {ι κ ε : Type} {label : ι → Except ε κ} {inputs : List ι} {ks : List κ}

/-- A run of steps that may fail, each simulated by a step of another system, is simulated by a
run of that system. -/
theorem simulated {σ τ : Type} {stepM : σ → ι → Except ε σ} {step : τ → κ → τ} {R : σ → τ → Prop}
    (each : ∀ s t, ∀ input ∈ inputs, ∀ s', R s t → stepM s input = .ok s' →
      ∃ k, label input = .ok k ∧ R s' (step t k)) {s s' : σ} {t : τ}
    (start : R s t) (done : inputs.foldlM stepM s = .ok s') :
    ∃ ks, inputs.map label = ks.map Except.ok ∧ R s' (run step t ks) := by
  induction inputs generalizing s t with
  | nil =>
    rw [List.foldlM_nil, pure_eq_ok] at done
    exact ⟨[], rfl, done ▸ start⟩
  | cons input inputs ih =>
    rw [List.foldlM_cons, bind_eq_ok] at done
    obtain ⟨middle, first, rest⟩ := done
    obtain ⟨k, labelled, next⟩ := each s t input List.mem_cons_self middle start first
    obtain ⟨ks, others, last⟩ :=
      ih (fun s t other member => each s t other (List.mem_cons_of_mem _ member)) next rest
    exact ⟨k :: ks, by rw [List.map_cons, List.map_cons, labelled, others], last⟩

/-- What holds of every label before the last one. -/
theorem before_last {P : κ → Prop} (labels : inputs.map label = ks.map Except.ok) :
    (∀ k ∈ ks.dropLast.getLast?, P k) ↔
      ∀ input ∈ inputs.dropLast.getLast?, ∀ k, label input = .ok k → P k := by
  have last := congrArg (fun list => list.dropLast.getLast?) labels
  simp only [← List.map_dropLast, List.getLast?_map] at last
  cases before : inputs.dropLast.getLast? with
  | none =>
    rw [before, Option.map_none, eq_comm, Option.map_eq_none_iff] at last
    simp [last]
  | some input =>
    rw [before, Option.map_some, eq_comm, Option.map_eq_some_iff] at last
    obtain ⟨k, held, labelled⟩ := last
    rw [held]
    constructor
    · intro holds other same k' named
      rw [← Option.some.inj same, ← labelled, Except.ok.injEq] at named
      exact named ▸ holds k rfl
    · intro holds other same
      exact holds input rfl other ((Option.some.inj same) ▸ labelled.symm)

/-- Every label is that of an input. -/
theorem exists_input (labels : inputs.map label = ks.map Except.ok) {k : κ} (member : k ∈ ks) :
    ∃ input ∈ inputs, label input = .ok k := by
  have listed : Except.ok k ∈ inputs.map label := labels ▸ List.mem_map_of_mem member
  exact List.mem_map.mp listed

end Labels

end Backup
