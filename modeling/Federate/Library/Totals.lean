import Mathlib

/-!
# Totals over a table

The entries of a table can be listed in any order; the total of their sizes does not depend on it.
Erasing keys leaves the entries under other keys, and a table whose entries are among those of
another has no larger total.
-/

namespace Totals

open Std

variable {κ α β : Type}

/-- The sum of the sizes. -/
def sum (size : α → ℕ) (entries : List (κ × α)) : ℕ := (entries.map fun e => size e.2).sum

/-- A list of distinct items that another list has, too, has no larger sum. -/
theorem sum_le_of_subset {items items' : List β} (weight : β → ℕ) (nodup : items.Nodup)
    (within : items ⊆ items') : (items.map weight).sum ≤ (items'.map weight).sum := by
  obtain ⟨middle, perm, sublist⟩ := List.subperm_of_subset nodup within
  have same : (middle.map weight).sum = (items.map weight).sum := (perm.map weight).sum_eq
  have smaller : (middle.map weight).sum ≤ (items'.map weight).sum :=
    (sublist.map weight).sum_le_sum fun _ _ => Nat.zero_le _
  omega

variable [Ord κ]

/-- The sum of the sizes in a table. -/
def total [TransOrd κ] (size : α → ℕ) (t : ExtTreeMap κ α) : ℕ := sum size t.toList

/-- The list has the entries of the table, in some order. -/
structure Lists [TransOrd κ] (t : ExtTreeMap κ α) (entries : List (κ × α)) : Prop where
  /-- Each key once. -/
  distinct : (entries.map Prod.fst).Nodup
  /-- Each entry. -/
  listed : ∀ (k : κ) (v : α), (k, v) ∈ entries ↔ t[k]? = some v

section Lists

variable [TransOrd κ] {t : ExtTreeMap κ α} {entries entries' : List (κ × α)} {size : α → ℕ}

/-- A list has no entry twice. -/
theorem Lists.nodup (lists : Lists t entries) : entries.Nodup := lists.distinct.of_map

/-- Another order. -/
theorem Lists.reorder (lists : Lists t entries) (perm : entries'.Perm entries) :
    Lists t entries' := by
  constructor
  · exact (perm.map Prod.fst).nodup_iff.mpr lists.distinct
  · intro k v
    rw [perm.mem_iff]
    exact lists.listed k v

/-- Two lists of a table differ in order alone. -/
theorem Lists.perm (lists : Lists t entries) (lists' : Lists t entries') :
    entries.Perm entries' := by
  refine (List.perm_ext_iff_of_nodup lists.nodup lists'.nodup).mpr fun entry => ?_
  rw [lists.listed entry.1 entry.2, lists'.listed entry.1 entry.2]

variable [LawfulEqOrd κ]

/-- The table's own list. -/
theorem lists_toList (t : ExtTreeMap κ α) : Lists t t.toList := by
  constructor
  · rw [ExtTreeMap.map_fst_toList_eq_keys]
    exact ExtTreeMap.nodup_keys
  · intro k v
    exact ExtTreeMap.mem_toList_iff_getElem?_eq_some

/-- The total is the sum over any list. -/
theorem Lists.total_eq (lists : Lists t entries) : total size t = sum size entries := by
  have perm := (lists_toList t).perm lists
  exact (perm.map fun e : κ × α => size e.2).sum_eq

/-- An entry is no larger than the total. -/
theorem le_total {k : κ} {v : α} (found : t[k]? = some v) : size v ≤ total size t := by
  have member : (k, v) ∈ t.toList := ExtTreeMap.mem_toList_iff_getElem?_eq_some.mpr found
  exact List.le_sum_of_mem (List.mem_map_of_mem (f := fun e : κ × α => size e.2) member)

/-- What is found after keys are erased. -/
theorem foldl_erase_getElem? [DecidableEq κ] (gone : List κ) (t : ExtTreeMap κ α) (k : κ) :
    (gone.foldl ExtTreeMap.erase t)[k]? = if k ∈ gone then none else t[k]? := by
  induction gone generalizing t with
  | nil => simp
  | cons first gone ih =>
    rw [List.foldl_cons, ih, ExtTreeMap.getElem?_erase]
    by_cases later : k ∈ gone
    · simp [later]
    · by_cases same : k = first
      · simp [same]
      · have apart : compare first k ≠ .eq := fun equal => same (compare_eq_iff_eq.mp equal).symm
        simp [later, same, apart]

/-- What is listed after keys are erased. -/
theorem Lists.erase [DecidableEq κ] (lists : Lists t entries) (gone : List κ) :
    Lists (gone.foldl ExtTreeMap.erase t) (entries.filter fun e => e.1 ∉ gone) := by
  constructor
  · exact lists.distinct.sublist (List.filter_sublist.map Prod.fst)
  · intro k v
    rw [List.mem_filter, lists.listed, foldl_erase_getElem?]
    by_cases erased : k ∈ gone
    · simp [erased]
    · simp [erased]

/-- What is listed after an insertion. -/
theorem Lists.insert [DecidableEq κ] (lists : Lists t entries) (k : κ) (v : α) :
    Lists (t.insert k v) ((k, v) :: entries.filter fun e => e.1 ≠ k) := by
  constructor
  · rw [List.map_cons, List.nodup_cons]
    constructor
    · simp
    · exact lists.distinct.sublist (List.filter_sublist.map Prod.fst)
  · intro k' v'
    rw [List.mem_cons, List.mem_filter, lists.listed, ExtTreeMap.getElem?_insert]
    by_cases same : k' = k
    · simp [same, eq_comm]
    · have apart : compare k k' ≠ .eq := fun equal => same (compare_eq_iff_eq.mp equal).symm
      simp [same, apart]

/-- An insertion adds no more than the size of what is inserted. -/
theorem total_insert_le [DecidableEq κ] (t : ExtTreeMap κ α) (k : κ) (v : α) :
    total size (t.insert k v) ≤ size v + total size t := by
  rw [((lists_toList t).insert k v).total_eq]
  have rest := (t.toList.filter_sublist (p := fun e => e.1 ≠ k)).map fun e : κ × α => size e.2
  have smaller := rest.sum_le_sum fun _ _ => Nat.zero_le _
  simpa [sum, total] using smaller

omit [LawfulEqOrd κ] in
/-- A list of some of the entries, together with what is left once their keys are erased, is the
whole list. -/
theorem Lists.perm_erased [DecidableEq κ] (lists : Lists t entries) {gone : List (κ × α)}
    (some_of : gone.Sublist entries) :
    entries.Perm (gone ++ entries.filter fun e => e.1 ∉ gone.map Prod.fst) := by
  have apart : gone.Disjoint (entries.filter fun e => e.1 ∉ gone.map Prod.fst) := by
    intro e member left
    have fresh := (List.mem_filter.mp left).2
    simp only [decide_eq_true_eq] at fresh
    exact fresh (List.mem_map_of_mem member)
  have distinct : (gone ++ entries.filter fun e => e.1 ∉ gone.map Prod.fst).Nodup :=
    List.nodup_append'.mpr ⟨lists.nodup.sublist some_of, lists.nodup.filter _, apart⟩
  refine (List.perm_ext_iff_of_nodup lists.nodup distinct).mpr fun e => ?_
  rw [List.mem_append, List.mem_filter, decide_eq_true_eq]
  constructor
  · intro member
    by_cases erased : e.1 ∈ gone.map Prod.fst
    · obtain ⟨other, member', same⟩ := List.mem_map.mp erased
      -- an entry under the same key is the same entry
      have equal : other = e :=
        List.inj_on_of_nodup_map lists.distinct (some_of.mem member') member same
      exact .inl (equal ▸ member')
    · exact .inr ⟨member, erased⟩
  · rintro (member | left)
    · exact some_of.mem member
    · exact left.1

/-- What is left once keys are erased, with what is gone, makes the total. -/
theorem Lists.total_erased [DecidableEq κ] (lists : Lists t entries)
    {gone : List (κ × α)} (some_of : gone.Sublist entries) :
    total size ((gone.map Prod.fst).foldl ExtTreeMap.erase t) + sum size gone = total size t := by
  rw [(lists.erase (gone.map Prod.fst)).total_eq, lists.total_eq, Nat.add_comm]
  have whole := (lists.perm_erased some_of).map fun e : κ × α => size e.2
  simpa [sum] using whole.sum_eq.symm

/-- A table has no larger total than one that has its keys with values that are no smaller. -/
theorem total_le {size' : β → ℕ} {t' : ExtTreeMap κ β}
    (within : ∀ (k : κ) (v : α), t[k]? = some v → ∃ w, t'[k]? = some w ∧ size v ≤ size' w) :
    total size t ≤ total size' t' := by
  -- each key weighs what it does in the larger table
  let weight (k : κ) : ℕ := (t'[k]?.map size').getD 0
  have smaller : total size t ≤ (t.keys.map weight).sum := by
    rw [← ExtTreeMap.map_fst_toList_eq_keys, List.map_map]
    refine List.sum_le_sum fun entry member => ?_
    obtain ⟨w, found, le⟩ :=
      within entry.1 entry.2 (ExtTreeMap.mem_toList_iff_getElem?_eq_some.mp member)
    simpa [weight, found] using le
  have whole : (t'.keys.map weight).sum = total size' t' := by
    rw [← ExtTreeMap.map_fst_toList_eq_keys, List.map_map]
    refine congrArg List.sum (List.map_congr_left fun entry member => ?_)
    have found : t'[entry.1]? = some entry.2 :=
      ExtTreeMap.mem_toList_iff_getElem?_eq_some.mp member
    simp [weight, found]
  have keys : t.keys ⊆ t'.keys := by
    intro k member
    have held : k ∈ t := ExtTreeMap.mem_keys.mp member
    obtain ⟨v, found⟩ := Option.isSome_iff_exists.mp (ExtTreeMap.mem_iff_isSome_getElem?.mp held)
    obtain ⟨w, found', -⟩ := within k v found
    exact ExtTreeMap.mem_keys.mpr (ExtTreeMap.mem_iff_isSome_getElem?.mpr (by simp [found']))
  calc
    total size t ≤ (t.keys.map weight).sum := smaller
    _ ≤ (t'.keys.map weight).sum := sum_le_of_subset weight ExtTreeMap.nodup_keys keys
    _ = total size' t' := whole

end Lists

end Totals
