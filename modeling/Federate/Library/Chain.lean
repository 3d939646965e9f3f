import Mathlib.Data.List.Nodup

/-!
# Chains of items

Every item of a log leads from one place to another. A log is linked when each item starts where the
one before it ends. In a linked log that comes to no place twice, the order and the number of the
items are determined: whatever is drawn from the log and leads from its start to its end is the log.
-/

variable {α β : Type*} {source target : β → α}

/-- The items lead from one place to another, each from where the one before it ends. -/
def Linked (source target : β → α) : α → List β → α → Prop
  | start, [], last => start = last
  | start, item :: rest, last => source item = start ∧ Linked source target (target item) rest last

namespace Linked

/-- A log of two parts passes a place between them. -/
theorem append_iff {start last : α} {first second : List β} :
    Linked source target start (first ++ second) last ↔
      ∃ middle, Linked source target start first middle ∧
        Linked source target middle second last := by
  induction first generalizing start with
  | nil => simp [Linked]
  | cons item rest ih =>
    simp only [List.cons_append, Linked, ih]
    constructor
    · rintro ⟨same, middle, left, right⟩
      exact ⟨middle, ⟨same, left⟩, right⟩
    · rintro ⟨middle, ⟨same, left⟩, right⟩
      exact ⟨same, middle, left, right⟩

/-- An item that starts where a log ends is added to it. -/
theorem concat {start last : α} {log : List β} {item : β}
    (linked : Linked source target start log last) (joins : source item = last) :
    Linked source target start (log ++ [item]) (target item) :=
  append_iff.mpr ⟨last, linked, joins, rfl⟩

/-- The places that a log passes are its start and where its items end. -/
theorem places {start last : α} {log : List β} (linked : Linked source target start log last) :
    log.map source ++ [last] = start :: log.map target := by
  induction log generalizing start with
  | nil =>
    have same : start = last := linked
    rw [same, List.map_nil, List.map_nil, List.nil_append]
  | cons item rest ih =>
    rw [List.map_cons, List.cons_append, ih linked.2, linked.1, List.map_cons]

/-- What is drawn from the items of a log, and leads to its end from where one of its items starts,
is the log from there on, when the log comes to no place twice. -/
theorem eq_tail {start last place : α} (before : List β) {after drawn : List β}
    (linked : Linked source target start (before ++ after) last)
    (once : ((before ++ after).map source ++ [last]).Nodup)
    (joins : Linked source target place after last)
    (members : ∀ item ∈ drawn, item ∈ before ++ after)
    (leads : Linked source target place drawn last) : drawn = after := by
  induction drawn generalizing place before after with
  | nil =>
    cases after with
    | nil => rfl
    | cons item rest =>
      -- the log would come to its end before its end
      have early : source item = last := joins.1.trans leads
      have twice : last ∈ (before ++ item :: rest).map source := by
        rw [← early]
        exact List.mem_map_of_mem (List.mem_append_right _ List.mem_cons_self)
      exact absurd twice fun member =>
        (List.nodup_append.mp once).2.2 last member last List.mem_cons_self rfl
  | cons item drawn ih =>
    have listed := members item List.mem_cons_self
    cases after with
    | nil =>
      have late : source item = last := leads.1.trans joins
      have twice : last ∈ (before ++ []).map source := by
        rw [← late]
        exact List.mem_map_of_mem listed
      exact absurd twice fun member =>
        (List.nodup_append.mp once).2.2 last member last List.mem_cons_self rfl
    | cons head rest =>
      have places : source item = source head := leads.1.trans joins.1.symm
      have same : item = head :=
        List.inj_on_of_nodup_map (List.nodup_append.mp once).1 listed
          (List.mem_append_right _ List.mem_cons_self) places
      subst same
      have split : before ++ item :: rest = (before ++ [item]) ++ rest := by simp
      rw [split] at linked once members
      have others : ∀ other ∈ drawn, other ∈ before ++ [item] ++ rest :=
        fun other member => members other (List.mem_cons_of_mem _ member)
      rw [ih (before ++ [item]) linked once joins.2 others leads.2]

/-- What is drawn from a log that comes to no place twice, and leads from its start to its end, is
the log. -/
theorem eq_of_drawn {start last : α} {log drawn : List β}
    (linked : Linked source target start log last) (once : (log.map source ++ [last]).Nodup)
    (members : ∀ item ∈ drawn, item ∈ log) (leads : Linked source target start drawn last) :
    drawn = log :=
  eq_tail [] linked once linked members leads

end Linked
