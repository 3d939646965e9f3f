import Mathlib.Data.List.Perm.Basic

/-!
# Removing members by removing groups

A list of groups has the members of each of them. To remove some members only whole groups are
removed; the right members are left exactly when every removed group has nothing else and the
other groups have none of them.
-/

namespace Groups

variable {γ α : Type*} (members : γ → List α) (removed : γ → Bool) (bad : α → Prop)
  [DecidablePred bad]

/-- The members that should be left. -/
def wanted (groups : List γ) : List α := (groups.flatMap members).filter (¬bad ·)

/-- The members of the groups that are not removed. -/
def left (groups : List γ) : List α := (groups.filter (!removed ·)).flatMap members

variable {members removed bad} {groups : List γ}

/-- The wanted members are those of the groups, each by itself. -/
theorem wanted_cons (group : γ) (groups : List γ) :
    wanted members bad (group :: groups) =
      (members group).filter (¬bad ·) ++ wanted members bad groups := by
  simp only [wanted, List.flatMap_cons, List.filter_append]

/-- A removed group leaves nothing. -/
theorem left_cons_removed {group : γ} (gone : removed group = true) :
    left members removed (group :: groups) = left members removed groups := by
  simp [left, gone]

/-- A group that is not removed leaves its members. -/
theorem left_cons_kept {group : γ} (stays : removed group = false) :
    left members removed (group :: groups) = members group ++ left members removed groups := by
  simp [left, stays]

/-- A group is as it should be: all of it is removed, or nothing. -/
def Pure (members : γ → List α) (removed : γ → Bool) (bad : α → Prop) (group : γ) : Prop :=
  (removed group = true → ∀ member ∈ members group, bad member) ∧
    (removed group = false → ∀ member ∈ members group, ¬bad member)

/-- Pure groups leave what should be left. -/
theorem left_eq_wanted (pure : ∀ group ∈ groups, Pure members removed bad group) :
    left members removed groups = wanted members bad groups := by
  induction groups with
  | nil => rfl
  | cons group groups ih =>
    have first := pure group List.mem_cons_self
    have rest := ih fun other member => pure other (List.mem_cons_of_mem _ member)
    rw [wanted_cons]
    by_cases gone : removed group = true
    · have nothing : (members group).filter (¬bad ·) = [] := by
        rw [List.filter_eq_nil_iff]
        intro member listed
        simpa using first.1 gone member listed
      rw [left_cons_removed gone, nothing, List.nil_append, rest]
    · have stays : removed group = false := by simpa using gone
      have all : (members group).filter (¬bad ·) = members group := by
        rw [List.filter_eq_self]
        intro member listed
        simpa using first.2 stays member listed
      rw [left_cons_kept stays, all, rest]

/-- When nothing bad is left, no more is left than should be, and something is lost with each
removed group that has a good member. -/
theorem length_left_le (clean : ∀ member ∈ left members removed groups, ¬bad member) :
    (left members removed groups).length ≤ (wanted members bad groups).length ∧
      ((left members removed groups).length = (wanted members bad groups).length →
        ∀ group ∈ groups, removed group = true → ∀ member ∈ members group, bad member) := by
  induction groups with
  | nil => exact ⟨Nat.le_refl 0, fun _ group listed => absurd listed List.not_mem_nil⟩
  | cons group groups ih =>
    rw [wanted_cons, List.length_append]
    by_cases gone : removed group = true
    · rw [left_cons_removed gone] at clean ⊢
      have rest := ih clean
      refine ⟨by omega, fun same other listed removes => ?_⟩
      have none : ((members group).filter (¬bad ·)).length = 0 := by omega
      rcases List.mem_cons.mp listed with here | later
      · intro member inside
        have empty := List.filter_eq_nil_iff.mp (List.length_eq_zero_iff.mp none)
        simpa using empty member (here ▸ inside)
      · exact rest.2 (by omega) other later removes
    · have stays : removed group = false := by simpa using gone
      rw [left_cons_kept stays] at clean ⊢
      have rest := ih fun member inside => clean member (List.mem_append_right _ inside)
      have all : (members group).filter (¬bad ·) = members group := by
        rw [List.filter_eq_self]
        intro member inside
        simpa using clean member (List.mem_append_left _ inside)
      rw [List.length_append, all]
      refine ⟨by omega, fun same other listed removes => ?_⟩
      rcases List.mem_cons.mp listed with here | later
      · rw [here, stays] at removes
        cases removes
      · exact rest.2 (by omega) other later removes

/-- What is left is what should be exactly when every group is pure. -/
theorem left_eq_wanted_iff :
    left members removed groups = wanted members bad groups ↔
      ∀ group ∈ groups, Pure members removed bad group := by
  refine ⟨fun same group listed => ?_, left_eq_wanted⟩
  have clean : ∀ member ∈ left members removed groups, ¬bad member := by
    intro member inside
    rw [same, wanted] at inside
    simpa using (List.mem_filter.mp inside).2
  refine ⟨(length_left_le clean).2 (congrArg List.length same) group listed, ?_⟩
  intro stays member inside
  apply clean
  exact List.mem_flatMap.mpr ⟨group, List.mem_filter.mpr ⟨listed, by simp [stays]⟩, inside⟩

end Groups
