import Federate.Verif.Markdown.Termination

/-!
# What lists keep

`parseList` takes the lines below an item as a block. When one of them looks like an item of the
next level, the block is parsed as a list, and what that list leaves of the block is in no output.
-/

namespace Federate.Markdown

open Regex

/-! ## Indentation -/

/-- A line is blank when it has nothing but white space. -/
theorem isBlank_iff {line : JsString} : isBlank line = true ↔ ∀ u ∈ line, isSpace u = true := by
  rw [isBlank, List.isEmpty_iff, trim]
  constructor
  · intro empty
    have white := List.rdropWhile_eq_nil_iff.mp empty
    by_cases core : line.dropWhile isSpace = []
    · exact List.dropWhile_eq_nil_iff.mp core
    · have solid := List.head_dropWhile_not isSpace core
      rw [white _ (List.head_mem core)] at solid
      cases solid
  · intro white
    rw [List.dropWhile_eq_nil_iff.mpr white]
    rfl

/-- A line is deeper when that much white space and more are followed by something else. -/
theorem isDeeper_iff {indent : ℕ} {line : JsString} : isDeeper indent line = true ↔
    ∃ run u rest, line = run ++ u :: rest ∧ (∀ v ∈ run, isSpace v = true) ∧ indent ≤ run.length ∧
      isSpace u = false := by
  rw [isDeeper, matchesFront, exec_isSome_iff]
  simp only [ways_all_cons, flatMap_all_nil, List.mem_flatMap, space, mem_ways_times_one,
    ways_star_one, List.mem_map, mem_runs]
  constructor
  · rintro ⟨m, front, ⟨first, length, white, split, -⟩, behind, ⟨left, ⟨more, later, all⟩, same⟩,
      last⟩
    rw [← same] at last
    cases left with
    | nil => cases last
    | cons u rest =>
      have solid : isSpace u = false := by
        by_contra white
        simp [ways, white] at last
      refine ⟨first ++ more, u, rest, ?_, fun v member => ?_, ?_, solid⟩
      · exact split.trans ((congrArg (first ++ ·) later).trans (List.append_assoc _ _ _).symm)
      · rcases List.mem_append.mp member with inside | inside
        · exact white v inside
        · exact all v inside
      · rw [List.length_append, length]
        exact Nat.le_add_right _ _
  · rintro ⟨run, u, rest, split, white, long, solid⟩
    refine ⟨⟨rest, []⟩, ⟨run.drop indent ++ u :: rest, []⟩,
      ⟨run.take indent, List.length_take_of_le long, fun v member => ?_, ?_, rfl⟩,
      ⟨u :: rest, []⟩, ⟨u :: rest, ⟨run.drop indent, rfl, fun v member => ?_⟩, rfl⟩, ?_⟩
    · exact white v (List.mem_of_mem_take member)
    · show line = run.take indent ++ (run.drop indent ++ u :: rest)
      rw [← List.append_assoc, List.take_append_drop, split]
    · exact white v (List.mem_of_mem_drop member)
    · simp [ways, solid]

/-- Whether a line is read as an item. -/
def IsItem (indent : ℕ) (line : JsString) : Prop :=
  (exec (itemPattern indent) line).isSome = true

instance decidableIsItem (indent : ℕ) (line : JsString) : Decidable (IsItem indent line) :=
  inferInstanceAs (Decidable ((exec (itemPattern indent) line).isSome = true))

variable {indent : ℕ} {line : JsString}

/-- A deeper line is deep. -/
theorem isDeeper_mono (deeper : isDeeper (indent + 2) line = true) :
    isDeeper indent line = true := by
  obtain ⟨run, u, rest, split, white, long, solid⟩ := isDeeper_iff.mp deeper
  exact isDeeper_iff.mpr ⟨run, u, rest, split, white, by omega, solid⟩

/-- A deeper line is not blank. -/
theorem isDeeper_notBlank (deeper : isDeeper indent line = true) : isBlank line = false := by
  obtain ⟨run, u, rest, split, -, -, solid⟩ := isDeeper_iff.mp deeper
  by_contra blank
  have white := isBlank_iff.mp (by simpa using blank) u (by simp [split])
  rw [solid] at white
  cases white

/-- Behind the indentation of an item stands something else than white space. -/
theorem item_indent (item : IsItem indent line) : ∃ run u rest, line = run ++ u :: rest ∧
    (∀ v ∈ run, isSpace v = true) ∧ run.length = indent ∧ isSpace u = false := by
  obtain ⟨m, way⟩ := exec_isSome_iff.mp item
  obtain ⟨behind, first, later⟩ := List.mem_flatMap.mp way
  obtain ⟨marker, second, -⟩ := List.mem_flatMap.mp later
  obtain ⟨run, length, white, split, -⟩ := mem_ways_times_one.mp first
  have marked : marker.rest ∈ behindMarker behind.rest := by
    rw [← rests_marker behind.rest behind.groups]
    exact List.mem_map.mpr ⟨marker, second, rfl⟩
  cases shape : behind.rest with
  | nil =>
    rw [shape] at marked
    cases marked
  | cons u rest =>
    rw [shape] at marked split
    refine ⟨run, u, rest, split, white, length, ?_⟩
    by_contra solid
    rw [behindMarker_space (by simpa using solid)] at marked
    cases marked

/-- An item is as deep as it must be. -/
theorem isDeeper_of_item (item : IsItem indent line) : isDeeper indent line = true := by
  obtain ⟨run, u, rest, split, white, length, solid⟩ := item_indent item
  exact isDeeper_iff.mpr ⟨run, u, rest, split, white, length.ge, solid⟩

/-- An item stands at its indentation. -/
theorem indentOf_item (item : IsItem indent line) : indentOf line = indent := by
  obtain ⟨run, u, rest, split, white, length, solid⟩ := item_indent item
  have stops : ¬isSpace u = true := by simp [solid]
  rw [indentOf, split, List.takeWhile_append_of_pos white, List.takeWhile_cons_of_neg stops,
    List.append_nil, length]

/-! ## Blocks -/

/-- A block goes on at a line: it is deeper, or blank and the next one is deeper. -/
def Continues (indent : ℕ) (line : JsString) (rest : List JsString) : Prop :=
  isDeeper indent line = true ∨
    isBlank line = true ∧ rest.head?.any (isDeeper indent) = true

/-- No block goes on at the first of some lines. -/
def Stops (indent : ℕ) (lines : List JsString) : Prop :=
  ∀ line rest, lines = line :: rest → ¬Continues indent line rest

variable {rest others lines : List JsString}

theorem takeDeeper_taken (continues : Continues indent line rest) :
    takeDeeper indent (line :: rest) =
      (line :: (takeDeeper indent rest).1, (takeDeeper indent rest).2) := by
  rcases continues with deeper | ⟨blank, next⟩
  · simp [takeDeeper, deeper, isDeeper_notBlank deeper]
  · simp [takeDeeper, blank, next]

theorem takeDeeper_stopped (stops : ¬Continues indent line rest) :
    takeDeeper indent (line :: rest) = ([], line :: rest) := by
  rw [Continues, not_or, not_and] at stops
  by_cases blank : isBlank line = true
  · simp [takeDeeper, blank, stops.2 blank]
  · simp [takeDeeper, stops.1, blank]

/-- A block goes on at each of its lines, and stops behind them. -/
theorem takeDeeper_spec (indent : ℕ) (lines : List JsString) :
    Stops indent (takeDeeper indent lines).2 ∧
      ∀ line rest, line :: rest <:+ lines → (takeDeeper indent lines).2.length ≤ rest.length →
        Continues indent line rest := by
  induction lines with
  | nil =>
    refine ⟨fun line rest same => ?_, fun line rest suffix => ?_⟩
    · cases same
    · exact absurd (List.suffix_nil.mp suffix) (List.cons_ne_nil _ _)
  | cons first others ih =>
    by_cases continues : Continues indent first others
    · rw [takeDeeper_taken continues]
      refine ⟨ih.1, fun line rest suffix long => ?_⟩
      rcases List.suffix_cons_iff.mp suffix with same | inside
      · rw [List.cons.injEq] at same
        rwa [same.1, same.2]
      · exact ih.2 line rest inside long
    · rw [takeDeeper_stopped continues]
      refine ⟨fun line rest same => ?_, fun line rest suffix long => ?_⟩
      · rw [List.cons.injEq] at same
        rwa [← same.1, ← same.2]
      · have short := suffix.length_le
        change (first :: others).length ≤ rest.length at long
        rw [List.length_cons] at short
        omega

theorem Continues.of_deeper (continues : Continues (indent + 2) line rest) :
    Continues indent line rest := by
  rcases continues with deeper | ⟨blank, next⟩
  · exact .inl (isDeeper_mono deeper)
  · refine .inr ⟨blank, ?_⟩
    cases rest with
    | nil => cases next
    | cons second rest =>
      simp only [List.head?_cons, Option.any_some] at next ⊢
      exact isDeeper_mono next

theorem Stops.deeper (stops : Stops indent lines) : Stops (indent + 2) lines :=
  fun line rest same continues => stops line rest same continues.of_deeper

/-- A block does not go beyond lines at which it stops. -/
theorem takeDeeper_within (stops : Stops indent others) (front : List JsString) :
    ∃ left, (takeDeeper indent (front ++ others)).2 = left ++ others ∧ left <:+ front := by
  induction front with
  | nil =>
    refine ⟨[], ?_, List.suffix_refl _⟩
    cases others with
    | nil => rfl
    | cons line rest =>
      have stopped := takeDeeper_stopped (stops line rest rfl)
      rw [List.nil_append, stopped]
  | cons line front ih =>
    by_cases continues : Continues indent line (front ++ others)
    · obtain ⟨left, same, suffix⟩ := ih
      refine ⟨left, ?_, suffix.trans (List.suffix_cons line front)⟩
      rw [List.cons_append, takeDeeper_taken continues, same]
    · refine ⟨line :: front, ?_, List.suffix_refl _⟩
      rw [List.cons_append, takeDeeper_stopped continues]

/-- A list does not go beyond lines at which a block of its depth stops. -/
theorem parseItems_within (stops : Stops indent others) (front : List JsString) :
    ∃ left, (parseItems indent (front ++ others)).2 = left ++ others ∧ left <:+ front := by
  induction size : front.length using Nat.strong_induction_on generalizing front with
  | _ n ih =>
    cases front with
    | nil =>
      refine ⟨[], ?_, List.suffix_refl _⟩
      cases others with
      | nil => rw [List.append_nil, parseItems]
      | cons line rest =>
        have noItem : exec (itemPattern indent) line = none := by
          rw [← Option.not_isSome_iff_eq_none]
          intro item
          exact stops line rest rfl (.inl (isDeeper_of_item item))
        rw [List.nil_append, parseItems_none noItem]
    | cons line front =>
      cases item : exec (itemPattern indent) line with
      | none =>
        refine ⟨line :: front, ?_, List.suffix_refl _⟩
        rw [List.cons_append, parseItems_none item]
      | some m =>
        obtain ⟨behind, same, suffix⟩ := takeDeeper_within stops.deeper front
        rw [List.length_cons] at size
        have short := suffix.length_le
        obtain ⟨left, last, inside⟩ := ih behind.length (by omega) behind rfl
        refine ⟨left, ?_, (inside.trans suffix).trans (List.suffix_cons line front)⟩
        rw [List.cons_append, parseItems_next item, same, last]

/-! ## Blocks that are read as lists -/

/-- Lines are read as a list up to others: the first is an item, and each is an item or one at which
an item's block goes on. -/
structure ReadsAll (depth : ℕ) (lines others : List JsString) : Prop where
  /-- The first line is an item, if there is one. -/
  first : lines ≠ others → ∃ line rest, lines = line :: rest ∧ IsItem depth line
  /-- Each line is an item, or belongs to one. -/
  each : ∀ line rest, line :: rest <:+ lines → others.length ≤ rest.length →
    IsItem depth line ∨ Continues (depth + 2) line rest

theorem append_ne_self {front others : List JsString} (nonempty : front ≠ []) :
    front ++ others ≠ others := by
  intro same
  have lengths := congrArg List.length same
  rw [List.length_append] at lengths
  exact nonempty (List.length_eq_zero_iff.mp (by omega))

/-- A list is read up to other lines exactly when its lines are items or belong to items. -/
theorem readsAll_iff (stops : Stops indent others) (front : List JsString) :
    (parseItems indent (front ++ others)).2 = others ↔
      ReadsAll indent (front ++ others) others := by
  induction size : front.length using Nat.strong_induction_on generalizing front with
  | _ n ih =>
    cases front with
    | nil =>
      obtain ⟨left, same, suffix⟩ := parseItems_within stops []
      rw [List.suffix_nil.mp suffix] at same
      refine iff_of_true same ⟨fun other => absurd rfl other, fun line rest suffix long => ?_⟩
      have short := suffix.length_le
      rw [List.nil_append, List.length_cons] at short
      omega
    | cons line front =>
      have apart : line :: front ++ others ≠ others := append_ne_self (List.cons_ne_nil _ _)
      by_cases item : IsItem indent line
      · obtain ⟨m, read⟩ := Option.isSome_iff_exists.mp item
        obtain ⟨behind, same, suffix⟩ := takeDeeper_within stops.deeper front
        rw [List.length_cons] at size
        have short := suffix.length_le
        have block := takeDeeper_spec (indent + 2) (front ++ others)
        rw [same] at block
        have last : behind ++ others <:+ line :: front ++ others := by
          have inner : behind ++ others <:+ front ++ others :=
            ⟨(takeDeeper (indent + 2) (front ++ others)).1, by
              rw [← same, takeDeeper_append]⟩
          exact inner.trans (List.suffix_cons line _)
        rw [List.cons_append, parseItems_next read, same, ih behind.length (by omega) behind rfl]
        constructor
        · intro reads
          refine ⟨fun _ => ⟨line, front ++ others, rfl, item⟩, fun l more inside long => ?_⟩
          rcases List.suffix_cons_iff.mp inside with here | later
          · rw [List.cons.injEq] at here
            exact .inl (here.1 ▸ item)
          · by_cases within : (behind ++ others).length ≤ more.length
            · exact .inr (block.2 l more later within)
            · have tail : l :: more <:+ behind ++ others := by
                refine List.suffix_of_suffix_length_le later (same ▸ ?_) ?_
                · exact ⟨_, takeDeeper_append _ _⟩
                · rw [List.length_cons]
                  omega
              exact reads.each l more tail long
        · intro reads
          refine ⟨fun other => ?_, fun l more inside long => ?_⟩
          · cases behind with
            | nil => exact absurd rfl other
            | cons l left =>
              refine ⟨l, left ++ others, rfl, ?_⟩
              have stopped := block.1 l (left ++ others) rfl
              have long : others.length ≤ (left ++ others).length := by
                rw [List.length_append]
                omega
              exact (reads.each l (left ++ others) last long).resolve_right stopped
          · exact reads.each l more (inside.trans last) long
      · have noItem : exec (itemPattern indent) line = none :=
          Option.not_isSome_iff_eq_none.mp item
        rw [List.cons_append, parseItems_none noItem]
        refine iff_of_false apart fun reads => ?_
        obtain ⟨first, rest, same, isItem⟩ := reads.first apart
        rw [List.cons.injEq] at same
        exact item (same.1 ▸ isItem)

/-- What is left of a block is not all blank. -/
theorem left_nonblank {depth : ℕ} {front left : List JsString}
    (block : (takeDeeper depth (front ++ others)) = (front, others)) (suffix : left <:+ front)
    (nonempty : left ≠ []) : ∃ line rest, line :: rest <:+ left ∧ isBlank line = false := by
  have spec := takeDeeper_spec depth (front ++ others)
  rw [block] at spec
  cases left with
  | nil => exact absurd rfl nonempty
  | cons line rest =>
    by_cases blank : isBlank line = true
    · have inside : line :: (rest ++ others) <:+ front ++ others := by
        obtain ⟨before, split⟩ := suffix
        exact ⟨before, by rw [← split, List.append_assoc]; rfl⟩
      have long : others.length ≤ (rest ++ others).length := by
        rw [List.length_append]
        omega
      rcases spec.2 line (rest ++ others) inside long with deeper | ⟨-, next⟩
      · rw [isDeeper_notBlank deeper] at blank
        cases blank
      · cases rest with
        | nil =>
          cases others with
          | nil => cases next
          | cons second others => exact absurd (.inl next) (spec.1 second others rfl)
        | cons second rest =>
          exact ⟨second, rest, List.suffix_cons line _, isDeeper_notBlank next⟩
    · exact ⟨line, rest, List.suffix_refl _, by simpa using blank⟩

/-! ## The texts of a list -/

/-- The lines, each with the number of lines behind it. -/
def numbered : List JsString → List (ℕ × JsString)
  | [] => []
  | line :: rest => (rest.length, line) :: numbered rest

/-- The text of a line in a piece. -/
def Piece.textOf (n : ℕ) : Piece → Option JsString
  | markup _ => none
  | text line content => if line = n then some content else none

/-- The texts of a line in what a list emits. -/
def textsOf (n : ℕ) (pieces : List Piece) : List JsString := pieces.filterMap (Piece.textOf n)

/-- The line is rendered exactly once, as some text of it. -/
def RendersOnce (IsText : JsString → JsString → Prop) (pieces : List Piece) (n : ℕ)
    (line : JsString) : Prop :=
  ∃ content, IsText line content ∧ textsOf n pieces = [content]

/-- Every line that is taken and not blank is rendered exactly once, as some text of it. -/
def KeepsLines (IsText : JsString → JsString → Prop) (lines : List JsString) (pieces : List Piece)
    (next : List JsString) : Prop :=
  ∀ n line, (n, line) ∈ numbered lines → next.length ≤ n → isBlank line = false →
    RendersOnce IsText pieces n line

section Texts

variable {n : ℕ} {pieces more : List Piece}

@[simp] theorem textsOf_nil : textsOf n [] = [] := rfl

@[simp] theorem textsOf_append : textsOf n (pieces ++ more) = textsOf n pieces ++ textsOf n more :=
  List.filterMap_append

@[simp] theorem textsOf_markup (html : JsString) :
    textsOf n (.markup html :: pieces) = textsOf n pieces := rfl

theorem textsOf_text (k : ℕ) (content : JsString) : textsOf n (.text k content :: pieces) =
    if k = n then content :: textsOf n pieces else textsOf n pieces := by
  by_cases same : k = n <;> simp [textsOf, Piece.textOf, same]

@[simp] theorem textsOf_wrapItems (ordered : Bool) :
    textsOf n (wrapItems ordered pieces) = textsOf n pieces := by
  simp [wrapItems]

theorem numbered_lt {line : JsString} {lines : List JsString}
    (member : (n, line) ∈ numbered lines) : n < lines.length := by
  induction lines with
  | nil => cases member
  | cons first rest ih =>
    rcases List.mem_cons.mp member with same | later
    · rw [(Prod.mk.inj same).1]
      exact Nat.lt_succ_self _
    · exact Nat.lt_succ_of_lt (ih later)

/-- A line keeps its number where lines stand in front. -/
theorem mem_numbered_append {front others : List JsString} {line : JsString} :
    (n, line) ∈ numbered (front ++ others) ↔
      (n, line) ∈ numbered others ∨
        others.length ≤ n ∧ (n - others.length, line) ∈ numbered front := by
  induction front with
  | nil => simp [numbered]
  | cons first front ih =>
    rw [List.cons_append, numbered, numbered, List.mem_cons, List.mem_cons, ih, Prod.mk.injEq,
      Prod.mk.injEq, List.length_append]
    constructor
    · rintro (⟨here, same⟩ | last | ⟨long, inside⟩)
      · exact .inr ⟨by omega, .inl ⟨by omega, same⟩⟩
      · exact .inl last
      · exact .inr ⟨long, .inr inside⟩
    · rintro (last | ⟨long, ⟨here, same⟩ | inside⟩)
      · exact .inr (.inl last)
      · exact .inl ⟨by omega, same⟩
      · exact .inr (.inr ⟨long, inside⟩)

/-- The first of the last lines has the number of those behind it. -/
theorem mem_numbered_suffix {line : JsString} {rest lines : List JsString}
    (suffix : line :: rest <:+ lines) : (rest.length, line) ∈ numbered lines := by
  obtain ⟨front, split⟩ := suffix
  rw [← split, mem_numbered_append]
  exact .inl List.mem_cons_self

/-- Every line has a number. -/
theorem mem_iff_numbered {line : JsString} {lines : List JsString} :
    line ∈ lines ↔ ∃ n, (n, line) ∈ numbered lines := by
  induction lines with
  | nil => simp [numbered]
  | cons first rest ih =>
    rw [List.mem_cons, ih, numbered]
    constructor
    · rintro (same | ⟨n, later⟩)
      · exact ⟨rest.length, same ▸ List.mem_cons_self⟩
      · exact ⟨n, List.mem_cons_of_mem _ later⟩
    · rintro ⟨n, member⟩
      rcases List.mem_cons.mp member with same | later
      · exact .inl (Prod.mk.inj same).2
      · exact .inr ⟨n, later⟩

/-- Continuation lines are the only ones that they render. -/
theorem textsOf_continuation_out (others : ℕ) {lines : List JsString}
    (out : n < others ∨ others + lines.length ≤ n) :
    textsOf n (continuation others lines) = [] := by
  induction lines with
  | nil => rfl
  | cons line rest ih =>
    rw [List.length_cons] at out
    cases rest with
    | nil =>
      have other : others ≠ n := by
        rw [List.length_nil] at out
        omega
      rw [continuation, textsOf_text, if_neg other, textsOf_nil]
    | cons next rest =>
      have other : (next :: rest).length + others ≠ n := by omega
      rw [continuation, textsOf_text, if_neg other, textsOf_markup]
      · exact ih (by omega)
      · exact List.cons_ne_nil _ _

/-- Continuation lines are rendered one by one. -/
theorem textsOf_continuation {line : JsString} (others : ℕ) {lines : List JsString}
    (member : (n, line) ∈ numbered lines) :
    textsOf (n + others) (continuation others lines) = [trim line] := by
  induction lines with
  | nil => cases member
  | cons first rest ih =>
    rcases List.mem_cons.mp member with same | later
    · obtain ⟨number, here⟩ := Prod.mk.inj same
      cases rest with
      | nil =>
        have own : others = n + others := by
          rw [number, List.length_nil, Nat.zero_add]
        rw [continuation, textsOf_text, if_pos own, textsOf_nil, here]
      | cons next rest =>
        have own : (next :: rest).length + others = n + others := by rw [number]
        have out : textsOf (n + others) (continuation others (next :: rest)) = [] :=
          textsOf_continuation_out others (.inr (by omega))
        rw [continuation, textsOf_text, if_pos own, textsOf_markup, out, here]
        exact List.cons_ne_nil _ _
    · have short := numbered_lt later
      cases rest with
      | nil => cases later
      | cons next rest =>
        have other : (next :: rest).length + others ≠ n + others := by omega
        rw [continuation, textsOf_text, if_neg other, textsOf_markup]
        · exact ih later
        · exact List.cons_ne_nil _ _

end Texts

/-! ## What a list keeps -/

section Keeps

variable {n : ℕ}

/-- Whether some line of the block below an item looks like an item of the next level. -/
def HasSubItem (indent : ℕ) (rest : List JsString) : Prop :=
  (takeDeeper (indent + 2) rest).1.any (isSubItem (indent + 2)) = true

instance decidableHasSubItem (indent : ℕ) (rest : List JsString) :
    Decidable (HasSubItem indent rest) :=
  inferInstanceAs (Decidable ((takeDeeper (indent + 2) rest).1.any (isSubItem (indent + 2)) = true))

/-- With an item of the next level, the lines below are parsed as a list. -/
theorem textsOf_nested (sub : HasSubItem indent rest) :
    textsOf n (subPieces indent rest) = textsOf n (parseItems (indent + 2) rest).1 := by
  rw [subPieces]
  rw [HasSubItem] at sub
  split
  · rename_i empty
    rw [empty] at sub
    cases sub
  · rw [if_pos sub, textsOf_wrapItems]

/-- Without one, they are continuation lines. -/
theorem textsOf_continued (noSub : ¬HasSubItem indent rest) : textsOf n (subPieces indent rest) =
    textsOf n (continuation (takeDeeper (indent + 2) rest).2.length
      (takeDeeper (indent + 2) rest).1) := by
  rw [subPieces]
  rw [HasSubItem] at noSub
  split
  · rename_i empty
    rw [empty]
    rfl
  · rw [if_neg noSub, textsOf_markup]

/-- The lines of a block and those behind it. -/
theorem block_length (indent : ℕ) (rest : List JsString) :
    (takeDeeper indent rest).1.length + (takeDeeper indent rest).2.length = rest.length := by
  rw [← List.length_append, takeDeeper_append]

/-- The list below an item stops where the block does, or before. -/
theorem nested_within (indent : ℕ) (rest : List JsString) :
    ∃ left, (parseItems (indent + 2) rest).2 = left ++ (takeDeeper (indent + 2) rest).2 ∧
      left <:+ (takeDeeper (indent + 2) rest).1 := by
  have within := parseItems_within (takeDeeper_spec (indent + 2) rest).1
    (takeDeeper (indent + 2) rest).1
  rwa [takeDeeper_append] at within

/-- A list renders no line but those that it takes. -/
theorem textsOf_parseItems_out (indent : ℕ) (lines : List JsString)
    (out : n < (parseItems indent lines).2.length ∨ lines.length ≤ n) :
    textsOf n (parseItems indent lines).1 = [] := by
  induction size : lines.length using Nat.strong_induction_on generalizing indent lines with
  | _ k ih =>
    cases lines with
    | nil =>
      rw [parseItems]
      rfl
    | cons line rest =>
      cases item : exec (itemPattern indent) line with
      | none =>
        rw [parseItems_none item]
        rfl
      | some m =>
        have block := block_length (indent + 2) rest
        obtain ⟨left, nested, -⟩ := nested_within indent rest
        have long := congrArg List.length nested
        have later := (parseItems_suffix indent (takeDeeper (indent + 2) rest).2).length_le
        rw [List.length_append] at long
        rw [List.length_cons] at size out
        rw [parseItems_next item] at out
        have own : rest.length ≠ n := by omega
        have behind := ih _ (by omega) indent (takeDeeper (indent + 2) rest).2 (by omega) rfl
        have inner : textsOf n (subPieces indent rest) = [] := by
          by_cases sub : HasSubItem indent rest
          · rw [textsOf_nested sub]
            exact ih rest.length (by omega) (indent + 2) rest (by omega) rfl
          · rw [textsOf_continued sub]
            exact textsOf_continuation_out _ (by omega)
        rw [parseItems_some item]
        simp [textsOf_text, own, inner, behind]

/-- What a list with an item renders of a line: as the item, below it or behind it. -/
theorem textsOf_item {m : Match UInt16} (item : exec (itemPattern indent) line = some m) :
    textsOf n (parseItems indent (line :: rest)).1 =
      (if rest.length = n then [m.group 3] else []) ++ textsOf n (subPieces indent rest) ++
        textsOf n (parseItems indent (takeDeeper (indent + 2) rest).2).1 := by
  rw [parseItems_some item]
  by_cases own : rest.length = n <;> simp [textsOf_text, own]

/-- What is below an item renders no line but those of its block. -/
theorem textsOf_subPieces_out (indent : ℕ) (rest : List JsString)
    (out : n < (takeDeeper (indent + 2) rest).2.length ∨ rest.length ≤ n) :
    textsOf n (subPieces indent rest) = [] := by
  have block := block_length (indent + 2) rest
  by_cases sub : HasSubItem indent rest
  · obtain ⟨left, nested, -⟩ := nested_within indent rest
    have long := congrArg List.length nested
    rw [List.length_append] at long
    rw [textsOf_nested sub]
    exact textsOf_parseItems_out (indent + 2) rest (by omega)
  · rw [textsOf_continued sub]
    exact textsOf_continuation_out _ (by omega)

variable {IsText : JsString → JsString → Prop}

/-- A list keeps its lines. -/
abbrev Keeps (IsText : JsString → JsString → Prop) (indent : ℕ) (lines : List JsString) : Prop :=
  KeepsLines IsText lines (parseItems indent lines).1 (parseItems indent lines).2

/-- What an item's content is taken for is a text of its line. -/
def TextOfItems (IsText : JsString → JsString → Prop) : Prop :=
  ∀ indent line m, exec (itemPattern indent) line = some m → IsText line (m.group 3)

/-- What a continuation is taken for is a text of its line, for each line of a block. -/
def TextsOfBlock (IsText : JsString → JsString → Prop) (indent : ℕ) (rest : List JsString) : Prop :=
  ∀ line ∈ (takeDeeper (indent + 2) rest).1, isBlank line = false → IsText line (trim line)

/-- A list with an item keeps its lines when the list behind the item does, the list below does and
takes all of the block, if there is one, and continuations are texts of their lines otherwise. -/
theorem keeps_item (items : TextOfItems IsText) {m : Match UInt16}
    (item : exec (itemPattern indent) line = some m) :
    Keeps IsText indent (line :: rest) ↔ Keeps IsText indent (takeDeeper (indent + 2) rest).2 ∧
      (HasSubItem indent rest → Keeps IsText (indent + 2) rest ∧
        (parseItems (indent + 2) rest).2 = (takeDeeper (indent + 2) rest).2) ∧
      (¬HasSubItem indent rest → TextsOfBlock IsText indent rest) := by
  have block := block_length (indent + 2) rest
  have whole := takeDeeper_append (indent + 2) rest
  have later := (parseItems_suffix indent (takeDeeper (indent + 2) rest).2).length_le
  obtain ⟨left, nested, suffix⟩ := nested_within indent rest
  have long := congrArg List.length nested
  rw [List.length_append] at long
  -- a line of the block is rendered below the item only
  have inBlock : ∀ n, (takeDeeper (indent + 2) rest).2.length ≤ n → n < rest.length →
      textsOf n (parseItems indent (line :: rest)).1 = textsOf n (subPieces indent rest) := by
    intro n within short
    rw [textsOf_item item, if_neg (by omega), textsOf_parseItems_out indent _ (.inr within),
      List.nil_append, List.append_nil]
  -- and a line behind the block behind it
  have behindBlock : ∀ n, n < (takeDeeper (indent + 2) rest).2.length →
      textsOf n (parseItems indent (line :: rest)).1 =
        textsOf n (parseItems indent (takeDeeper (indent + 2) rest).2).1 := by
    intro n behind
    rw [textsOf_item item, if_neg (by omega), textsOf_subPieces_out indent rest (.inl behind),
      List.nil_append, List.nil_append]
  have continued : ¬HasSubItem indent rest → ∀ n l, (n, l) ∈ numbered rest →
      (takeDeeper (indent + 2) rest).2.length ≤ n →
        textsOf n (subPieces indent rest) = [trim l] := by
    intro noSub n l inside within
    rw [← whole, mem_numbered_append] at inside
    rcases inside with last | ⟨-, listed⟩
    · have behind := numbered_lt last
      omega
    · have once := textsOf_continuation (takeDeeper (indent + 2) rest).2.length listed
      rw [Nat.sub_add_cancel within] at once
      rw [textsOf_continued noSub, once]
  rw [Keeps, parseItems_next item]
  constructor
  · intro keeps
    refine ⟨fun n l member taken filled => ?_,
      fun sub => ⟨fun n l member taken filled => ?_, ?_⟩, fun noSub l member filled => ?_⟩
    · have inside : (n, l) ∈ numbered rest := by
        rw [← whole, mem_numbered_append]
        exact .inl member
      have once := keeps n l (List.mem_cons_of_mem _ inside) taken filled
      rwa [RendersOnce, behindBlock n (numbered_lt member)] at once
    · have once := keeps n l (List.mem_cons_of_mem _ member) (by omega) filled
      rwa [RendersOnce, inBlock n (by omega) (numbered_lt member), textsOf_nested sub] at once
    · by_contra other
      have nonempty : left ≠ [] := by
        intro empty
        rw [empty] at nested
        exact other nested
      have same : takeDeeper (indent + 2) ((takeDeeper (indent + 2) rest).1 ++
          (takeDeeper (indent + 2) rest).2) =
            ((takeDeeper (indent + 2) rest).1, (takeDeeper (indent + 2) rest).2) := by rw [whole]
      obtain ⟨l, more, tail, filled⟩ := left_nonblank same suffix nonempty
      have lost : l :: (more ++ (takeDeeper (indent + 2) rest).2) <:+ rest := by
        obtain ⟨front, split⟩ := tail.trans suffix
        have joined := (congrArg (· ++ (takeDeeper (indent + 2) rest).2) split).trans whole
        exact ⟨front, (List.append_assoc front (l :: more) _).symm.trans joined⟩
      have short := tail.length_le
      have inside := lost.length_le
      have member := List.mem_cons_of_mem (rest.length, line) (mem_numbered_suffix lost)
      rw [List.length_append] at member
      rw [List.length_cons] at short inside
      rw [List.length_append] at inside
      obtain ⟨content, -, once⟩ := keeps _ l member (by omega) filled
      rw [inBlock _ (by omega) (by omega), textsOf_nested sub,
        textsOf_parseItems_out (indent + 2) rest (.inl (by omega))] at once
      cases once
    · obtain ⟨k, listed⟩ := mem_iff_numbered.mp member
      have inside : (k + (takeDeeper (indent + 2) rest).2.length, l) ∈ numbered rest := by
        rw [← whole, mem_numbered_append, whole]
        exact .inr ⟨Nat.le_add_left _ _, by rwa [Nat.add_sub_cancel]⟩
      have short := numbered_lt inside
      obtain ⟨content, isText, once⟩ :=
        keeps _ l (List.mem_cons_of_mem _ inside) (by omega) filled
      rw [inBlock _ (by omega) short, continued noSub _ l inside (by omega)] at once
      rwa [(List.cons.inj once).1]
  · rintro ⟨behind, below, texts⟩ n l member taken filled
    rcases List.mem_cons.mp member with own | inside
    · obtain ⟨number, same⟩ := Prod.mk.inj own
      refine ⟨m.group 3, items indent l m (same ▸ item), ?_⟩
      rw [textsOf_item item, if_pos number.symm, textsOf_subPieces_out indent rest (.inr number.ge),
        textsOf_parseItems_out indent _ (.inr (by omega))]
      rfl
    · have short := numbered_lt inside
      by_cases within : (takeDeeper (indent + 2) rest).2.length ≤ n
      · rw [RendersOnce, inBlock n within short]
        by_cases sub : HasSubItem indent rest
        · obtain ⟨keeps, all⟩ := below sub
          rw [textsOf_nested sub]
          exact keeps n l inside (all ▸ within) filled
        · have located := inside
          rw [← whole, mem_numbered_append] at located
          have listed : l ∈ (takeDeeper (indent + 2) rest).1 := by
            rcases located with last | ⟨-, block⟩
            · have behind := numbered_lt last
              omega
            · exact mem_iff_numbered.mpr ⟨_, block⟩
          exact ⟨trim l, texts sub l listed filled, continued sub n l inside within⟩
      · have last : (n, l) ∈ numbered (takeDeeper (indent + 2) rest).2 := by
          rw [← whole, mem_numbered_append] at inside
          exact inside.resolve_right fun block => within block.1
        rw [RendersOnce, behindBlock n (by omega)]
        exact behind n l last taken filled

/-- From the lines of a list with an item, parsing goes on behind the item's block, and below the
item when the block looks like a list. -/
inductive ItemFollows : ℕ × List JsString → ℕ × List JsString → Prop
  | behind {indent : ℕ} {line : JsString} {rest : List JsString} (item : IsItem indent line) :
      ItemFollows (indent, line :: rest) (indent, (takeDeeper (indent + 2) rest).2)
  | below {indent : ℕ} {line : JsString} {rest : List JsString} (item : IsItem indent line)
      (sub : HasSubItem indent rest) : ItemFollows (indent, line :: rest) (indent + 2, rest)

/-- The parser of a list comes to some lines, at some indentation. -/
abbrev ReachesItems : ℕ × List JsString → ℕ × List JsString → Prop :=
  Relation.ReflTransGen ItemFollows

/-- Something holds of the lines below every item of a list, at any level. -/
def BelowItems (P : ℕ → List JsString → Prop) (indent : ℕ) (lines : List JsString) : Prop :=
  ∀ depth line rest, ReachesItems (indent, lines) (depth, line :: rest) → IsItem depth line →
    P depth rest

/-- A block that looks like a list is one: its first line is an item of the next level, and each
line is such an item or belongs to one. -/
def BlockRead (indent : ℕ) (rest : List JsString) : Prop :=
  HasSubItem indent rest → ReadsAll (indent + 2) rest (takeDeeper (indent + 2) rest).2

theorem belowItems_item {P : ℕ → List JsString → Prop} (item : IsItem indent line) :
    BelowItems P indent (line :: rest) ↔ BelowItems P indent (takeDeeper (indent + 2) rest).2 ∧
      P indent rest ∧ (HasSubItem indent rest → BelowItems P (indent + 2) rest) := by
  constructor
  · intro holds
    refine ⟨fun depth l more reaches => ?_, holds indent line rest .refl item,
      fun sub depth l more reaches => ?_⟩
    · exact holds depth l more (.head (.behind item) reaches)
    · exact holds depth l more (.head (.below item sub) reaches)
  · rintro ⟨behind, here, below⟩ depth l more reaches isItem
    rcases reaches.cases_head with same | ⟨next, follows, later⟩
    · obtain ⟨rfl, lines⟩ := Prod.mk.inj same
      obtain ⟨rfl, rfl⟩ := List.cons.inj lines
      exact here
    · cases follows with
      | behind => exact behind depth l more later isItem
      | below _ inner => exact below inner depth l more later isItem

theorem belowItems_none {P : ℕ → List JsString → Prop}
    (noItem : ∀ line rest, lines = line :: rest → ¬IsItem indent line) :
    BelowItems P indent lines := by
  intro depth l more reaches isItem
  rcases reaches.cases_head with same | ⟨next, follows, -⟩
  · obtain ⟨rfl, lines⟩ := Prod.mk.inj same
    exact absurd isItem (noItem l more lines)
  · cases follows with
    | behind item => exact absurd item (noItem _ _ rfl)
    | below item => exact absurd item (noItem _ _ rfl)

/-- A list keeps its lines exactly when below every item, a block that looks like a list is one, and
the lines of another block are texts. -/
theorem keeps_iff (items : TextOfItems IsText) (indent : ℕ) (lines : List JsString) :
    Keeps IsText indent lines ↔ BelowItems (fun depth rest => BlockRead depth rest ∧
      (¬HasSubItem depth rest → TextsOfBlock IsText depth rest)) indent lines := by
  induction size : lines.length using Nat.strong_induction_on generalizing indent lines with
  | _ k ih =>
    cases lines with
    | nil =>
      refine iff_of_true (fun n l member => ?_) (belowItems_none fun line rest same => ?_)
      · cases member
      · cases same
    | cons line rest =>
      rw [List.length_cons] at size
      by_cases item : IsItem indent line
      · obtain ⟨m, read⟩ := Option.isSome_iff_exists.mp item
        have block := block_length (indent + 2) rest
        have behind := ih _ (by omega) indent (takeDeeper (indent + 2) rest).2 rfl
        have below := ih _ (by omega) (indent + 2) rest rfl
        have all := readsAll_iff (takeDeeper_spec (indent + 2) rest).1
          (takeDeeper (indent + 2) rest).1
        rw [takeDeeper_append] at all
        rw [keeps_item items read, belowItems_item item, behind, below, all, BlockRead]
        constructor
        · rintro ⟨keeps, nested, texts⟩
          exact ⟨keeps, ⟨fun sub => (nested sub).2, texts⟩, fun sub => (nested sub).1⟩
        · rintro ⟨keeps, ⟨reads, texts⟩, nested⟩
          exact ⟨keeps, fun sub => ⟨nested sub, reads sub⟩, texts⟩
      · have noItem : exec (itemPattern indent) line = none :=
          Option.not_isSome_iff_eq_none.mp item
        refine iff_of_true (fun n l member taken => ?_) (belowItems_none fun l more same => ?_)
        · have short := numbered_lt member
          rw [parseItems_none noItem] at taken
          change (line :: rest).length ≤ n at taken
          omega
        · exact (List.cons.inj same).1 ▸ item

/-- Wherever rendering a page starts a list, every line that the list takes and that is not blank is
rendered exactly once, as some text of it. -/
def KeepsLists (IsText : JsString → JsString → Prop) (md : JsString) : Prop :=
  ∀ line rest pieces, Reaches (linesOf md) (line :: rest) →
    (nextBlock line rest).1 = .list pieces →
      KeepsLines IsText (line :: rest) pieces (nextBlock line rest).2

/-- Something holds of the lines below every item of a page. -/
def BelowAllItems (P : ℕ → List JsString → Prop) (md : JsString) : Prop :=
  ∀ line rest, Reaches (linesOf md) (line :: rest) → StartsList line rest →
    BelowItems P (indentOf line) (line :: rest)

/-- The lists of a page keep their lines exactly when below every item, a block that looks like a
list is one, and the lines of another block are texts. -/
theorem keepsLists_iff (items : TextOfItems IsText) (md : JsString) :
    KeepsLists IsText md ↔ BelowAllItems (fun depth rest => BlockRead depth rest ∧
      (¬HasSubItem depth rest → TextsOfBlock IsText depth rest)) md := by
  have list : ∀ line rest pieces, (nextBlock line rest).1 = .list pieces →
      (KeepsLines IsText (line :: rest) pieces (nextBlock line rest).2 ↔
        Keeps IsText (indentOf line) (line :: rest)) := by
    intro line rest pieces starts
    rcases nextBlock_cases line rest with ⟨-, -, other⟩ | ⟨-, quote⟩ | ⟨-, same⟩
    · exact absurd starts (other pieces)
    · rw [quote] at starts
      cases starts
    · rw [same] at starts ⊢
      rw [← Block.list.inj starts]
      simp only [KeepsLines, RendersOnce, parseList, textsOf_wrapItems]
  constructor
  · intro keeps line rest reaches starts
    obtain ⟨pieces, found⟩ := starts
    rw [← keeps_iff items, ← list line rest pieces found]
    exact keeps line rest pieces reaches found
  · intro reads line rest pieces reaches found
    rw [list line rest pieces found, keeps_iff items]
    exact reads line rest reaches ⟨pieces, found⟩

/-! ## Texts of lines -/

/-- A text of a line: the line, or without its marker when it is read as an item. -/
def IsTextOf (line content : JsString) : Prop :=
  content = trim line ∨
    ∃ indent m, exec (itemPattern indent) line = some m ∧ content = m.group 3

/-- The text of a line without a marker. -/
def unmarked (line : JsString) : JsString :=
  match exec listPattern line with
  | some m => m.rest
  | none => trim line

/-- What stands behind a marker is shorter. -/
theorem behindMarker_split {s left : JsString} (marked : left ∈ behindMarker s) :
    ∃ front, front ≠ [] ∧ s = front ++ left := by
  cases s with
  | nil => cases marked
  | cons u rest =>
    rw [behindMarker, behindNumber] at marked
    split at marked
    · exact ⟨[u], List.cons_ne_nil _ _, by rw [List.mem_singleton.mp marked]; rfl⟩
    · split at marked
      · obtain ⟨digits, split⟩ := List.dropWhile_suffix (l := rest) (oneOf "0123456789")
        cases shape : rest.dropWhile (oneOf "0123456789") with
        | nil =>
          rw [shape] at marked
          cases marked
        | cons d more =>
          rw [shape, behindDot] at marked
          split at marked
          · refine ⟨u :: digits ++ [d], List.cons_ne_nil _ _, ?_⟩
            rw [List.mem_singleton.mp marked, List.append_assoc, List.singleton_append, ← shape,
              List.cons_append, split]
          · cases marked
      · cases marked

/-- The text without its marker stands behind a part of the line. -/
theorem listRests_split {first : JsString} (listed : first ∈ listRests line) :
    ∃ front, front ≠ [] ∧ line.dropWhile isSpace = front ++ first := by
  obtain ⟨left, marked, inside⟩ := List.mem_flatMap.mp listed
  obtain ⟨front, nonempty, split⟩ := behindMarker_split marked
  cases left with
  | nil => cases inside
  | cons u rest =>
    rw [behindSpace] at inside
    split at inside
    · obtain ⟨run, more, -⟩ := mem_runs.mp inside
      refine ⟨front ++ u :: run, List.append_ne_nil_of_left_ne_nil nonempty _, ?_⟩
      rw [split, more, List.append_assoc]
      rfl
    · cases inside

/-- A line with a marker is read as one that starts a list. -/
theorem exec_list (line : JsString) :
    exec listPattern line = (listRests line).head?.map fun rest => ⟨rest, []⟩ := by
  rw [exec, ways_list, List.head?_map]

/-- The text of a line with a marker is not the line. -/
theorem trim_ne_unmarked (marked : matchesFront listPattern line = true) :
    trim line ≠ unmarked line := by
  obtain ⟨m, found⟩ := Option.isSome_iff_exists.mp marked
  have head := found
  rw [exec_list] at head
  obtain ⟨first, listed, same⟩ := Option.map_eq_some_iff.mp head
  obtain ⟨front, nonempty, split⟩ := listRests_split (List.mem_of_mem_head? listed)
  have without : unmarked line = first := by
    rw [unmarked, found, ← same]
  rw [without]
  intro equal
  have core : line.dropWhile isSpace ≠ [] := by
    rw [split]
    exact List.append_ne_nil_of_left_ne_nil nonempty _
  have ends : (line.dropWhile isSpace).rdropWhile isSpace ++
      (line.dropWhile isSpace).rtakeWhile isSpace = line.dropWhile isSpace :=
    List.rdropWhile_append_rtakeWhile
  change (line.dropWhile isSpace).rdropWhile isSpace = first at equal
  -- the text would be all of the line but white space behind it
  rw [equal] at ends
  have lengths := congrArg List.length (ends.trans split)
  rw [List.length_append, List.length_append] at lengths
  have long : 0 < front.length := List.length_pos_iff.mpr nonempty
  have run : (line.dropWhile isSpace).rtakeWhile isSpace ≠ [] := by
    intro empty
    rw [empty, List.length_nil] at lengths
    omega
  have white := List.mem_rtakeWhile_imp (List.getLast_mem run)
  by_cases empty : first = []
  · have solid := List.head_dropWhile_not isSpace core
    rw [List.rdropWhile_eq_nil_iff.mp (equal.trans empty) _ (List.head_mem core)] at solid
    cases solid
  · have last : ∀ final, (line.dropWhile isSpace).getLast? = some final →
        isSpace final = true := by
      intro final isLast
      rw [← ends, List.getLast?_append_of_ne_nil _ run, List.getLast?_eq_some_getLast run,
        Option.some.injEq] at isLast
      exact isLast ▸ white
    have solid : ¬isSpace (first.getLast empty) = true := by
      subst equal
      exact List.rdropWhile_last_not isSpace _ empty
    refine solid (last _ ?_)
    rw [split, List.getLast?_append_of_ne_nil _ empty, List.getLast?_eq_some_getLast empty]

/-- What stands behind the marker of an item, and white space, is read as its text. -/
theorem group_rest {m last : Match UInt16}
    (way : last ∈ ways (.all [.group 3 (.star true anyUnit), .atEnd]) m) :
    last.group 3 = m.rest := by
  rw [ways_all_cons, ways_group, anyUnit, ways_star_one, List.map_map, List.flatMap_map] at way
  simp only [ways_all_cons, flatMap_all_nil, List.mem_flatMap, mem_ways_atEnd] at way
  obtain ⟨rest, -, same, done⟩ := way
  change rest = [] at done
  rw [same, done]
  simp [Match.group, between]

/-- The text of an item is the line without its marker. -/
theorem item_unmarked {m : Match UInt16} (item : exec (itemPattern indent) line = some m) :
    m.group 3 = unmarked line := by
  have isItem : IsItem indent line := Option.isSome_iff_exists.mpr ⟨m, item⟩
  have read := item
  rw [← indentOf_item isItem] at isItem
  rw [← indentOf_item (Option.isSome_iff_exists.mpr ⟨m, item⟩), exec, ways_item] at read
  have markers := rests_marker (line.dropWhile isSpace) []
  have few := behindMarker_unique (line.dropWhile isSpace)
  obtain ⟨rest, listed, plain⟩ := (item_isSome line).mp isItem
  have rests := listed
  rw [listRests, ← markers] at rests
  rw [← markers, List.length_map] at few
  -- there is one marker, and the most white space is tried first
  cases marks : ways (.alt (.group 1 bulletPattern) (.group 2 numberPattern))
      ⟨line.dropWhile isSpace, []⟩ with
  | nil =>
    rw [marks] at rests
    cases rests
  | cons marked others =>
    rw [marks, List.length_cons] at few
    have none : others = [] := List.length_eq_zero_iff.mp (by omega)
    rw [none] at marks
    rw [marks, List.map_singleton, List.flatMap_singleton] at rests
    rw [marks, List.flatMap_singleton] at read
    cases spaces : behindSpace marked.rest with
    | nil =>
      rw [spaces] at rests
      cases rests
    | cons first more =>
      have head : (listRests line).head? = some first := by
        rw [listRests, ← markers, marks, List.map_singleton, List.flatMap_singleton, spaces,
          List.head?_cons]
      have clean : ∀ u ∈ first, isLineTerminator u = false := fun u member =>
        plain u ((listRests_head listed head).subset member)
      obtain ⟨last, way⟩ := (rest_isRead ⟨first, marked.groups⟩).mpr clean
      rw [spaces, List.flatMap_cons,
        List.head?_append_of_ne_nil _ (List.ne_nil_of_mem way)] at read
      rw [group_rest (List.mem_of_mem_head? read), unmarked, exec_list, head, Option.map_some]

/-- A line with a marker is not blank. -/
theorem marked_notBlank (marked : matchesFront listPattern line = true) : isBlank line = false := by
  obtain ⟨m, found⟩ := Option.isSome_iff_exists.mp marked
  rw [exec_list] at found
  obtain ⟨first, listed, -⟩ := Option.map_eq_some_iff.mp found
  obtain ⟨front, nonempty, split⟩ := listRests_split (List.mem_of_mem_head? listed)
  by_contra blank
  have white := isBlank_iff.mp (by simpa using blank)
  rw [List.dropWhile_eq_nil_iff.mpr white] at split
  exact nonempty (List.append_eq_nil_iff.mp split.symm).1

/-- No continuation line has a marker. -/
def NoMarkers (indent : ℕ) (rest : List JsString) : Prop :=
  ¬HasSubItem indent rest → ∀ line ∈ (takeDeeper (indent + 2) rest).1,
    matchesFront listPattern line = false

/-- The lists of a page render each line that they take and that is not blank exactly once if and
only if below every item a block that looks like a list is one. Then each of these lines is without
its marker exactly when no continuation line has one. -/
theorem lists_keep_iff (md : JsString) :
    (KeepsLists IsTextOf md ↔ BelowAllItems BlockRead md) ∧
      (KeepsLists (fun line content => content = unmarked line) md ↔
        BelowAllItems (fun depth rest => BlockRead depth rest ∧ NoMarkers depth rest) md) := by
  have congr : ∀ {P Q : ℕ → List JsString → Prop}, (∀ depth rest, P depth rest ↔ Q depth rest) →
      (BelowAllItems P md ↔ BelowAllItems Q md) := by
    intro P Q same
    have equal : P = Q := funext fun depth => funext fun rest => propext (same depth rest)
    rw [equal]
  constructor
  · rw [keepsLists_iff fun depth l m item => .inr ⟨depth, m, item, rfl⟩]
    exact congr fun depth rest => ⟨fun both => both.1, fun reads =>
      ⟨reads, fun _ l _ _ => .inl rfl⟩⟩
  · rw [keepsLists_iff fun depth l m item => item_unmarked item]
    refine congr fun depth rest => and_congr_right fun _ => forall_congr' fun noSub => ?_
    constructor
    · intro texts l member
      by_contra marked
      have list : matchesFront listPattern l = true := by simpa using marked
      exact trim_ne_unmarked list (texts l member (marked_notBlank list))
    · intro plain l member _
      have noMarker : exec listPattern l = none :=
        Option.not_isSome_iff_eq_none.mp (by simpa [matchesFront] using plain l member)
      rw [unmarked, noMarker]

end Keeps

end Federate.Markdown

namespace Federate.Reference

open Markdown Regex

/-- An item with a list below it, and a line of text below the list. -/
def mixedPage : JsString := js "- a\n  - b\n  c"

/-- The lines below its item. -/
def mixedLines : List JsString := [js "  - b", js "  c"]

/-- The item is a list's first line. -/
theorem mixedPage_block : nextBlock (js "- a") mixedLines =
    (.list (parseList 0 (js "- a") mixedLines).1, (parseList 0 (js "- a") mixedLines).2) := by
  have blank : isBlank (js "- a") = false := by decide
  have fence : exec fencePattern (js "- a") = none := rfl
  have heading : exec headingPattern (js "- a") = none := rfl
  have rule : matchesFront rulePattern (js "- a") = false := by decide
  have quote : matchesFront quotePattern (js "- a") = false := by decide
  have bar : hasBar (js "- a") = false := by decide
  have list : matchesFront listPattern (js "- a") = true := by decide
  have indent : indentOf (js "- a") = 0 := by decide
  rw [nextBlock, fence, heading]
  simp [blank, rule, quote, bar, list, indent]

/-- All of its lines are taken by the list. -/
theorem mixedPage_taken : (parseItems 0 (js "- a" :: mixedLines)).2 = [] := by
  obtain ⟨m, item⟩ : ∃ m, exec (itemPattern 0) (js "- a") = some m := ⟨_, rfl⟩
  have block : (takeDeeper 2 mixedLines).2 = [] := by decide
  rw [parseItems_next item, block, parseItems]

/-- The lines below the item look like a list, and are none. -/
theorem mixedPage_unread : ¬BlockRead 0 mixedLines := by
  intro reads
  have block : (takeDeeper 2 mixedLines).2 = [] := by decide
  have sub : HasSubItem 0 mixedLines := by decide
  have each := (reads sub).each (js "  c") [] ⟨[js "  - b"], rfl⟩
  rw [block] at each
  rcases each (Nat.le_refl 0) with item | deeper | next
  · exact absurd item (by decide)
  · exact absurd deeper (by decide)
  · exact absurd next.2 (by decide)

/-- Rendering the page ends, and its lists do not keep their lines, with or without markers. -/
theorem mixedPage_loses : ¬∀ md : JsString, (∃ fuel html, render fuel md = some html) →
    KeepsLists (fun line content => content = unmarked line) md ∨ KeepsLists IsTextOf md := by
  intro all
  have lines : linesOf mixedPage = js "- a" :: mixedLines := by decide
  have starts : StartsList (js "- a") mixedLines :=
    ⟨(parseList 0 (js "- a") mixedLines).1, by rw [mixedPage_block]⟩
  have reaches : Reaches (linesOf mixedPage) (js "- a" :: mixedLines) := by rw [lines]
  have indent : indentOf (js "- a") = 0 := by decide
  have first : ReachesItems (indentOf (js "- a"), js "- a" :: mixedLines)
      (0, js "- a" :: mixedLines) := by rw [indent]
  have other : IsOther (nextBlock (js "- a") mixedLines).1 := by
    rw [mixedPage_block, IsOther]
    simp
  have ends : ∃ fuel html, render fuel mixedPage = some html := by
    have looped : ∃ out, renderLoop 2 (linesOf mixedPage) [] [] = some out := by
      rw [lines, renderLoop_other other, mixedPage_block, parseList, mixedPage_taken, renderLoop]
      exact ⟨_, rfl⟩
    obtain ⟨out, loop⟩ := looped
    exact ⟨2, joinLines out, by rw [render, loop, Option.map_some]⟩
  have item : IsItem 0 (js "- a") := by decide
  rcases all mixedPage ends with keeps | keeps
  · rw [keepsLists_iff fun depth l m item => item_unmarked item] at keeps
    exact mixedPage_unread (keeps _ _ reaches starts 0 _ _ first item).1
  · rw [keepsLists_iff fun depth l m item => .inr ⟨depth, m, item, rfl⟩] at keeps
    exact mixedPage_unread (keeps _ _ reaches starts 0 _ _ first item).1

end Federate.Reference
