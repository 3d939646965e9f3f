import Mathlib.Data.List.Infix
import Mathlib.Data.List.TakeDrop

/-!
# Regular expressions

A backtracking matcher tries the ways in which an expression matches at the front of a text one
after the other, and returns the first. Here the ways are a list, in the order in which they are
tried: what follows an expression in a sequence filters and extends its ways.
-/
namespace Regex

/-- A regular expression over the characters of a text. -/
inductive Expr (α : Type) where
  | empty
  /-- One character of a class. -/
  | one (p : α → Bool)
  | seq (first second : Expr α)
  | alt (first second : Expr α)
  /-- Any number of times, as many or as few as possible. -/
  | star (greedy : Bool) (body : Expr α)
  /-- A capturing group. -/
  | group (n : ℕ) (body : Expr α)
  /-- The end of the text. -/
  | atEnd

/-- Where a match stands: the text behind it, and the groups, the last captured first. -/
structure Match (α : Type) where
  /-- The text behind the match. -/
  rest : List α
  /-- The groups that took part. -/
  groups : List (ℕ × List α)

variable {α : Type}

/-- What a group captured; nothing when it took no part. -/
def Match.group (m : Match α) (n : ℕ) : List α := (m.groups.lookup n).getD []

/-- The text between the beginnings of two rests. -/
def between (before after : List α) : List α := before.take (before.length - after.length)

/-- The ways to repeat a step. A repetition that consumes nothing is not tried. -/
def repeated (step : Match α → List (Match α)) (greedy : Bool) : ℕ → Match α → List (Match α)
  | 0, m => [m]
  | n + 1, m =>
    let more := ((step m).filter fun next => next.rest.length < m.rest.length).flatMap
      (repeated step greedy n)
    if greedy then more ++ [m] else m :: more

/-- The ways to match an expression, in the order in which they are tried. -/
def ways : Expr α → Match α → List (Match α)
  | .empty, m => [m]
  | .one p, m =>
    match m.rest with
    | [] => []
    | a :: rest => if p a then [⟨rest, m.groups⟩] else []
  | .seq first second, m => (ways first m).flatMap (ways second)
  | .alt first second, m => ways first m ++ ways second m
  | .star greedy body, m => repeated (ways body) greedy m.rest.length m
  | .group n body, m =>
    (ways body m).map fun next => ⟨next.rest, (n, between m.rest next.rest) :: next.groups⟩
  | .atEnd, m => if m.rest.isEmpty then [m] else []

/-- The first match at the front of a text. -/
def exec (e : Expr α) (text : List α) : Option (Match α) := (ways e ⟨text, []⟩).head?

/-- The first match anywhere in a text, with the text before it. -/
def search (e : Expr α) : List α → Option (List α × Match α)
  | [] => (exec e []).map fun m => ([], m)
  | a :: rest =>
    match exec e (a :: rest) with
    | some m => some ([], m)
    | none => (search e rest).map fun found => (a :: found.1, found.2)

/-- The text without its first match. -/
def removeFirst (e : Expr α) (text : List α) : List α :=
  match search e text with
  | some (before, m) => before ++ m.rest
  | none => text

/-- The text without a match at its front. -/
def removeFront (e : Expr α) (text : List α) : List α :=
  match exec e text with
  | some m => m.rest
  | none => text

namespace Expr

/-- A sequence of expressions. -/
def all : List (Expr α) → Expr α := List.foldr seq empty

/-- One of several expressions. -/
def any (first : Expr α) : List (Expr α) → Expr α
  | [] => first
  | next :: more => alt first (any next more)

/-- A fixed text. -/
def text [DecidableEq α] (chars : List α) : Expr α :=
  all (chars.map fun a => one fun b => decide (b = a))

/-- At least once. -/
def plus (body : Expr α) : Expr α := seq body (star true body)

/-- At most once. -/
def opt (body : Expr α) : Expr α := alt body empty

/-- Exactly so many times. -/
def times (n : ℕ) (body : Expr α) : Expr α := all (List.replicate n body)

/-- At most so many times. -/
def upTo : ℕ → Expr α → Expr α
  | 0, _ => empty
  | n + 1, body => opt (seq body (upTo n body))

end Expr

/-! ## What a match consumes -/

section Consumed

variable {e : Expr α} {m next : Match α}

/-- What holds of the steps of a repetition, is reflexive and transitive, holds of the whole. -/
theorem repeated_induction {step : Match α → List (Match α)} {greedy : Bool}
    {R : Match α → Match α → Prop} (refl : ∀ m, R m m)
    (trans : ∀ a b c, R a b → R b c → R a c) (holds : ∀ m, ∀ next ∈ step m, R m next) {n : ℕ}
    (way : next ∈ repeated step greedy n m) : R m next := by
  induction n generalizing m with
  | zero => exact List.mem_singleton.mp way ▸ refl m
  | succ n ih =>
    have cases : next = m ∨ ∃ middle ∈ step m, next ∈ repeated step greedy n middle := by
      rw [repeated] at way
      have more : next ∈ ((step m).filter fun next =>
          next.rest.length < m.rest.length).flatMap (repeated step greedy n) →
            ∃ middle ∈ step m, next ∈ repeated step greedy n middle := by
        intro inside
        obtain ⟨middle, stepped, later⟩ := List.mem_flatMap.mp inside
        exact ⟨middle, (List.mem_filter.mp stepped).1, later⟩
      cases greedy with
      | true =>
        rcases List.mem_append.mp way with inside | here
        · exact .inr (more inside)
        · exact .inl (List.mem_singleton.mp here)
      | false =>
        rcases List.mem_cons.mp way with here | inside
        · exact .inl here
        · exact .inr (more inside)
    rcases cases with here | ⟨middle, stepped, later⟩
    · exact here ▸ refl m
    · exact trans _ _ _ (holds m middle stepped) (ih later)

/-- A match consumes the front of the text, and every group that it captures is a part of it. -/
structure Consumes (m next : Match α) : Prop where
  /-- The rest is an end of the text. -/
  suffix : next.rest <:+ m.rest
  /-- New groups are parts of the text. -/
  groups : ∀ captured ∈ next.groups, captured ∈ m.groups ∨ captured.2 <:+: m.rest

theorem Consumes.refl (m : Match α) : Consumes m m :=
  ⟨List.suffix_refl _, fun _ member => .inl member⟩

theorem Consumes.trans {last : Match α} (first : Consumes m next) (second : Consumes next last) :
    Consumes m last := by
  refine ⟨second.suffix.trans first.suffix, fun captured member => ?_⟩
  rcases second.groups captured member with earlier | new
  · exact first.groups captured earlier
  · exact .inr (new.trans first.suffix.isInfix)

/-- Every way consumes. -/
theorem ways_consumes (e : Expr α) {m next : Match α} (way : next ∈ ways e m) :
    Consumes m next := by
  induction e generalizing m next with
  | empty => exact List.mem_singleton.mp way ▸ Consumes.refl m
  | one p =>
    rw [ways] at way
    split at way
    · cases way
    · rename_i a rest shape
      split at way
      · rw [List.mem_singleton.mp way]
        exact ⟨shape ▸ List.suffix_cons a rest, fun _ member => .inl member⟩
      · cases way
  | seq first second ihFirst ihSecond =>
    obtain ⟨middle, inside, later⟩ := List.mem_flatMap.mp way
    exact (ihFirst inside).trans (ihSecond later)
  | alt first second ihFirst ihSecond =>
    rcases List.mem_append.mp way with inside | inside
    · exact ihFirst inside
    · exact ihSecond inside
  | star greedy body ih =>
    exact repeated_induction Consumes.refl (fun _ _ _ => Consumes.trans)
      (fun _ _ stepped => ih stepped) way
  | group n body ih =>
    obtain ⟨last, inside, same⟩ := List.mem_map.mp way
    have inner := ih inside
    rw [← same]
    refine ⟨inner.suffix, fun captured member => ?_⟩
    rcases List.mem_cons.mp member with here | earlier
    · rw [here]
      exact .inr (List.take_prefix _ _).isInfix
    · exact inner.groups captured earlier
  | atEnd =>
    rw [ways] at way
    split at way
    · exact List.mem_singleton.mp way ▸ Consumes.refl m
    · cases way

/-- The groups of an expression. -/
def Expr.captures : Expr α → List ℕ
  | empty | one _ | atEnd => []
  | seq first second | alt first second => first.captures ++ second.captures
  | star _ body => body.captures
  | group n body => n :: body.captures

/-- A group is left as it is by an expression without it. -/
theorem group_unchanged {n : ℕ} (e : Expr α) (absent : n ∉ e.captures) {m next : Match α}
    (way : next ∈ ways e m) : next.group n = m.group n := by
  induction e generalizing m next with
  | empty => exact List.mem_singleton.mp way ▸ rfl
  | one p =>
    rw [ways] at way
    split at way
    · cases way
    · split at way
      · rw [List.mem_singleton.mp way]
        rfl
      · cases way
  | seq first second ihFirst ihSecond =>
    rw [Expr.captures, List.mem_append, not_or] at absent
    obtain ⟨middle, inside, later⟩ := List.mem_flatMap.mp way
    exact (ihSecond absent.2 later).trans (ihFirst absent.1 inside)
  | alt first second ihFirst ihSecond =>
    rw [Expr.captures, List.mem_append, not_or] at absent
    rcases List.mem_append.mp way with inside | inside
    · exact ihFirst absent.1 inside
    · exact ihSecond absent.2 inside
  | star greedy body ih =>
    exact repeated_induction (R := fun m next => next.group n = m.group n) (fun _ => rfl)
      (fun _ _ _ first second => second.trans first) (fun _ _ stepped => ih absent stepped) way
  | group k body ih =>
    rw [Expr.captures, List.mem_cons, not_or] at absent
    obtain ⟨last, inside, same⟩ := List.mem_map.mp way
    have other : (n == k) = false := by simpa using absent.1
    rw [← same, ← ih absent.2 inside, Match.group, Match.group, List.lookup_cons, other]
  | atEnd =>
    rw [ways] at way
    split at way
    · exact List.mem_singleton.mp way ▸ rfl
    · cases way

/-- A captured group is among the groups, or empty. -/
theorem group_mem (m : Match α) (n : ℕ) : m.group n = [] ∨ (n, m.group n) ∈ m.groups := by
  rw [Match.group]
  cases found : m.groups.lookup n with
  | none => exact .inl rfl
  | some captured =>
    right
    have member := List.lookup_eq_some_iff.mp found
    obtain ⟨before, after, split, -⟩ := member
    rw [split]
    simp

end Consumed

/-! ## Parts of an expression -/

@[simp] theorem ways_empty (m : Match α) : ways .empty m = [m] := rfl

@[simp] theorem ways_seq (first second : Expr α) (m : Match α) :
    ways (.seq first second) m = (ways first m).flatMap (ways second) := rfl

@[simp] theorem ways_alt (first second : Expr α) (m : Match α) :
    ways (.alt first second) m = ways first m ++ ways second m := rfl

@[simp] theorem ways_all_nil (m : Match α) : ways (.all []) m = [m] := rfl

@[simp] theorem ways_all_cons (e : Expr α) (more : List (Expr α)) (m : Match α) :
    ways (.all (e :: more)) m = (ways e m).flatMap (ways (.all more)) := rfl

@[simp] theorem flatMap_all_nil (ms : List (Match α)) : ms.flatMap (ways (.all [])) = ms :=
  List.flatMap_singleton' ms

/-! ## Fixed texts and sequences -/

section Fixed

variable {m next : Match α} {first second : Expr α} {input : List α}

/-- A fixed text is matched where it stands. -/
theorem mem_ways_text [DecidableEq α] {chars : List α} :
    next ∈ ways (.text chars) m ↔ m.rest = chars ++ next.rest ∧ next.groups = m.groups := by
  induction chars generalizing m with
  | nil =>
    have same : ways (.text []) m = [m] := rfl
    obtain ⟨rest, groups⟩ := m
    obtain ⟨rest', groups'⟩ := next
    rw [same, List.mem_singleton, Match.mk.injEq, List.nil_append]
    exact and_congr_left fun _ => eq_comm
  | cons a chars ih =>
    have unfolded : ways (.text (a :: chars)) m =
        (ways (.one fun b => decide (b = a)) m).flatMap (ways (.text chars)) := rfl
    rw [unfolded, ways]
    cases shape : m.rest with
    | nil => simp
    | cons b rest =>
      by_cases same : b = a
      · simp only [same, decide_true, if_true, List.flatMap_singleton, ih, List.cons_append,
          List.cons.injEq, true_and]
      · simp [same]

/-- A fixed text that is matched at most so many times. -/
theorem upTo_text_length [DecidableEq α] {chars : List α} {n : ℕ}
    (way : next ∈ ways (.upTo n (.text chars)) m) :
    m.rest.length ≤ next.rest.length + n * chars.length := by
  induction n generalizing m with
  | zero =>
    rw [List.mem_singleton.mp way]
    exact Nat.le_add_right _ _
  | succ n ih =>
    rw [Expr.upTo, Expr.opt, ways_alt, List.mem_append, ways_empty, List.mem_singleton] at way
    rcases way with more | none
    · obtain ⟨middle, first, later⟩ := List.mem_flatMap.mp more
      have short := ih later
      rw [(mem_ways_text.mp first).1, List.length_append, Nat.succ_mul]
      omega
    · rw [none]
      exact Nat.le_add_right _ _

/-- What stands behind a part that consumes without capturing is shorter than the text, and so is
every group. -/
theorem exec_seq_shorter (strict : ∀ m, ∀ next ∈ ways first m,
      next.rest.length < m.rest.length ∧ next.groups = m.groups)
    (found : exec (.seq first second) input = some m) :
    m.rest.length < input.length ∧ ∀ n, (m.group n).length < input.length := by
  obtain ⟨middle, inside, later⟩ := List.mem_flatMap.mp (List.mem_of_mem_head? found)
  obtain ⟨shorter, same⟩ := strict _ _ inside
  have consumed := ways_consumes second later
  refine ⟨consumed.suffix.length_le.trans_lt shorter, fun n => ?_⟩
  rcases group_mem m n with nothing | member
  · rw [nothing]
    exact (Nat.zero_le _).trans_lt shorter
  · rcases consumed.groups _ member with earlier | new
    · rw [same] at earlier
      cases earlier
    · exact new.length_le.trans_lt shorter

/-- A fixed text consumes without capturing. -/
theorem text_strict [DecidableEq α] (a : α) (chars : List α) (m : Match α) :
    ∀ next ∈ ways (.text (a :: chars)) m,
      next.rest.length < m.rest.length ∧ next.groups = m.groups := by
  intro next way
  obtain ⟨split, same⟩ := mem_ways_text.mp way
  rw [split, List.length_append, List.length_cons]
  exact ⟨by omega, same⟩

end Fixed

/-- A character of a class is matched at the front. -/
theorem ways_one_of_pos {p : α → Bool} {a : α} (holds : p a = true) (rest : List α)
    (groups : List (ℕ × List α)) :
    ways (.one p) ⟨a :: rest, groups⟩ = [⟨rest, groups⟩] := by
  simp [ways, holds]

/-- A character outside a class is not matched. -/
theorem ways_one_of_neg {p : α → Bool} {a : α} (fails : ¬p a = true) (rest : List α)
    (groups : List (ℕ × List α)) : ways (.one p) ⟨a :: rest, groups⟩ = [] := by
  simp [ways, fails]

theorem ways_group (n : ℕ) (body : Expr α) (m : Match α) : ways (.group n body) m =
    (ways body m).map fun next => ⟨next.rest, (n, between m.rest next.rest) :: next.groups⟩ := rfl

/-- The end of a text is reached when nothing is left. -/
theorem mem_ways_atEnd {m next : Match α} : next ∈ ways .atEnd m ↔ next = m ∧ m.rest = [] := by
  rw [ways]
  by_cases done : m.rest = []
  · simp [done]
  · simp [done]

/-- A pattern matches when there is a way. -/
theorem exec_isSome_iff {e : Expr α} {input : List α} :
    (exec e input).isSome = true ↔ ∃ m, m ∈ ways e ⟨input, []⟩ := by
  rw [exec, List.isSome_head?]
  constructor
  · exact List.exists_mem_of_ne_nil _
  · rintro ⟨m, way⟩
    exact List.ne_nil_of_mem way

/-! ## Runs of a class -/

section Runs

variable (p : α → Bool)

/-- What is left behind the runs of a class at the front of a text, the longest run first. -/
def runs : List α → List (List α)
  | [] => [[]]
  | a :: rest => if p a then runs rest ++ [a :: rest] else [a :: rest]

variable {p}

/-- What is left behind a run. -/
theorem mem_runs {input left : List α} : left ∈ runs p input ↔
    ∃ run, input = run ++ left ∧ ∀ a ∈ run, p a = true := by
  induction input with
  | nil =>
    rw [runs, List.mem_singleton]
    constructor
    · intro same
      exact ⟨[], by rw [same]; rfl, fun a member => absurd member List.not_mem_nil⟩
    · rintro ⟨run, split, -⟩
      exact (List.append_eq_nil_iff.mp split.symm).2
  | cons b input ih =>
    rw [runs]
    by_cases holds : p b = true
    · rw [if_pos holds, List.mem_append, ih, List.mem_singleton]
      constructor
      · rintro (⟨run, split, all⟩ | same)
        · refine ⟨b :: run, by rw [split]; rfl, fun a member => ?_⟩
          rcases List.mem_cons.mp member with here | later
          · exact here ▸ holds
          · exact all a later
        · exact ⟨[], same.symm, fun a member => absurd member List.not_mem_nil⟩
      · rintro ⟨run, split, all⟩
        cases run with
        | nil => exact .inr split.symm
        | cons c run =>
          rw [List.cons_append, List.cons.injEq] at split
          exact .inl ⟨run, split.2, fun a member => all a (List.mem_cons_of_mem _ member)⟩
    · rw [if_neg holds, List.mem_singleton]
      constructor
      · intro same
        exact ⟨[], same.symm, fun a member => absurd member List.not_mem_nil⟩
      · rintro ⟨run, split, all⟩
        cases run with
        | nil => exact split.symm
        | cons c run =>
          rw [List.cons_append, List.cons.injEq] at split
          exact absurd (split.1 ▸ all c List.mem_cons_self) holds

/-- What is left behind the longest run is left behind every run. -/
theorem dropWhile_suffix_of_mem {input left : List α} (member : left ∈ runs p input) :
    input.dropWhile p <:+ left := by
  obtain ⟨run, split, all⟩ := mem_runs.mp member
  rw [split, List.dropWhile_append_of_pos all]
  exact List.dropWhile_suffix p

/-- The longest run is tried first; behind a shorter one stands a character of the class. -/
theorem runs_eq (input : List α) : ∃ shorter, runs p input = input.dropWhile p :: shorter ∧
    ∀ left ∈ shorter, ∃ a rest, left = a :: rest ∧ p a = true := by
  induction input with
  | nil => exact ⟨[], rfl, fun left member => absurd member List.not_mem_nil⟩
  | cons a input ih =>
    by_cases holds : p a = true
    · obtain ⟨shorter, split, marked⟩ := ih
      refine ⟨shorter ++ [a :: input], ?_, fun left member => ?_⟩
      · rw [runs, if_pos holds, split, List.dropWhile_cons_of_pos holds, List.cons_append]
      · rcases List.mem_append.mp member with inside | last
        · exact marked left inside
        · exact ⟨a, input, List.mem_singleton.mp last, holds⟩
    · refine ⟨[], ?_, fun left member => absurd member List.not_mem_nil⟩
      rw [runs, if_neg holds, List.dropWhile_cons_of_neg holds]

/-- A class is repeated over its runs, the longest first. -/
theorem ways_star_one (m : Match α) :
    ways (.star true (.one p)) m = (runs p m.rest).map fun left => ⟨left, m.groups⟩ := by
  have loop : ∀ (n : ℕ) (m : Match α), m.rest.length ≤ n →
      repeated (ways (.one p)) true n m = (runs p m.rest).map fun left => ⟨left, m.groups⟩ := by
    intro n
    induction n with
    | zero =>
      intro m short
      have empty : m.rest = [] := List.length_eq_zero_iff.mp (Nat.le_zero.mp short)
      rw [repeated, empty, runs, List.map_singleton, ← empty]
    | succ n ih =>
      intro m short
      obtain ⟨rest, groups⟩ := m
      cases rest with
      | nil => simp [repeated, ways, runs]
      | cons a rest =>
        by_cases holds : p a = true
        · have shorter : rest.length ≤ n := Nat.le_of_succ_le_succ short
          have step : ways (.one p) ⟨a :: rest, groups⟩ = [⟨rest, groups⟩] := by
            simp [ways, holds]
          have later := ih ⟨rest, groups⟩ shorter
          simp [repeated, step, later, runs, holds]
        · have step : ways (.one p) ⟨a :: rest, groups⟩ = [] := by simp [ways, holds]
          simp [repeated, step, runs, holds]
  exact loop _ m (Nat.le_refl _)

/-- When what follows cannot begin with the class, only the longest run is left. -/
theorem flatMap_star_one {β : Type} (f : Match α → List β) (m : Match α)
    (fails : ∀ a rest, p a = true → f ⟨a :: rest, m.groups⟩ = []) :
    (ways (.star true (.one p)) m).flatMap f = f ⟨m.rest.dropWhile p, m.groups⟩ := by
  obtain ⟨shorter, split, marked⟩ := runs_eq (p := p) m.rest
  have none : (shorter.map fun left => (⟨left, m.groups⟩ : Match α)).flatMap f = [] := by
    rw [List.flatMap_eq_nil_iff]
    intro next member
    obtain ⟨left, inside, same⟩ := List.mem_map.mp member
    obtain ⟨a, rest, shape, holds⟩ := marked left inside
    rw [← same, shape]
    exact fails a rest holds
  rw [ways_star_one, split, List.map_cons, List.flatMap_cons, none, List.append_nil]

/-- A class that is matched exactly so many times. -/
theorem ways_times_one {run : List α} (all : ∀ a ∈ run, p a = true) (rest : List α)
    (groups : List (ℕ × List α)) :
    ways (.times run.length (.one p)) ⟨run ++ rest, groups⟩ = [⟨rest, groups⟩] := by
  induction run with
  | nil => rfl
  | cons a run ih =>
    have later := ih fun b member => all b (List.mem_cons_of_mem _ member)
    rw [Expr.times] at later
    rw [Expr.times, List.length_cons, List.replicate_succ, ways_all_cons, List.cons_append,
      ways_one_of_pos (all a List.mem_cons_self), List.flatMap_singleton, later]

/-- What is left behind a class that is matched exactly so many times. -/
theorem mem_ways_times_one {n : ℕ} {m next : Match α} : next ∈ ways (.times n (.one p)) m ↔
    ∃ run, run.length = n ∧ (∀ a ∈ run, p a = true) ∧ m.rest = run ++ next.rest ∧
      next.groups = m.groups := by
  constructor
  · intro way
    induction n generalizing m with
    | zero =>
      rw [List.mem_singleton.mp way]
      exact ⟨[], rfl, fun a member => absurd member List.not_mem_nil, rfl, rfl⟩
    | succ n ih =>
      obtain ⟨middle, first, later⟩ := List.mem_flatMap.mp way
      obtain ⟨run, length, all, split, same⟩ := ih later
      rw [ways] at first
      cases shape : m.rest with
      | nil => simp [shape] at first
      | cons a rest =>
        by_cases holds : p a = true
        · have here : middle = ⟨rest, m.groups⟩ := by simpa [shape, holds] using first
          rw [here] at split same
          refine ⟨a :: run, by rw [List.length_cons, length], fun b member => ?_, ?_, same⟩
          · rcases List.mem_cons.mp member with here | later
            · exact here ▸ holds
            · exact all b later
          · exact congrArg (a :: ·) split
        · simp [shape, holds] at first
  · rintro ⟨run, length, all, split, same⟩
    have way := ways_times_one all next.rest m.groups
    rw [← split, ← same, length] at way
    have here : m = ⟨m.rest, next.groups⟩ := by rw [same]
    rw [here, way]
    exact List.mem_singleton_self _

/-- A run reaches the end of the text when all of it is of the class. -/
theorem nil_mem_runs {input : List α} : [] ∈ runs p input ↔ ∀ a ∈ input, p a = true := by
  rw [mem_runs]
  constructor
  · rintro ⟨run, split, all⟩
    rw [split, List.append_nil]
    exact all
  · intro all
    exact ⟨input, (List.append_nil input).symm, all⟩

end Runs

end Regex
