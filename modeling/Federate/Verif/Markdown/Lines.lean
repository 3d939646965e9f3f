import Federate.Markdown.Blocks

/-!
# What the patterns of lists accept

A line starts a list when a marker stands behind its white space, with white space behind it. As an
item it is read with one more expression, which also reads the rest of the line, and stops at a line
separator.
-/

namespace Federate.Markdown

open Regex

/-! ## Classes -/

/-- What holds of every item of a list is checked item by item. -/
theorem forall_of_all {α : Type} {P : α → Prop} [DecidablePred P] {items : List α}
    (all : items.all (fun item => decide (P item)) = true) : ∀ item ∈ items, P item := by
  simpa using all

/-- No unit of a class of others is white space. -/
theorem oneOf_solid {units : String} (solid : ∀ v ∈ js units, isSpace v = false) {u : UInt16}
    (white : isSpace u = true) : ¬oneOf units u = true := by
  intro listed
  have member : u ∈ js units := by simpa [oneOf] using listed
  rw [solid u member] at white
  cases white

/-- White space is no mark of a list. -/
theorem isSpace_bullet {u : UInt16} (white : isSpace u = true) : ¬oneOf "-*+" u = true :=
  oneOf_solid (forall_of_all (by decide)) white

/-- White space is no digit. -/
theorem isSpace_digit {u : UInt16} (white : isSpace u = true) : ¬oneOf "0123456789" u = true :=
  oneOf_solid (forall_of_all (by decide)) white

/-! ## Markers -/

/-- What stands behind a dot at the front. -/
def behindDot : JsString → List JsString
  | [] => []
  | u :: rest => if u = 0x2E then [rest] else []

/-- What stands behind a number with its dot. -/
def behindNumber : JsString → List JsString
  | [] => []
  | u :: rest =>
    if oneOf "0123456789" u then behindDot (rest.dropWhile (oneOf "0123456789")) else []

/-- What stands behind a marker. -/
def behindMarker : JsString → List JsString
  | [] => []
  | u :: rest => if oneOf "-*+" u then [rest] else behindNumber (u :: rest)

/-- What stands behind some white space, the most of it first. -/
def behindSpace : JsString → List JsString
  | [] => []
  | u :: rest => if isSpace u then runs isSpace rest else []

variable (s : JsString) (groups : List (ℕ × JsString))

theorem ways_dot : ways (lit ".") ⟨s, groups⟩ = (behindDot s).map fun rest => ⟨rest, groups⟩ := by
  have single : lit "." = .all [.one fun u => decide (u = 0x2E)] := rfl
  rw [single]
  cases s with
  | nil => rfl
  | cons u rest => by_cases same : u = 0x2E <;> simp [ways, behindDot, same]

theorem ways_number :
    ways numberPattern ⟨s, groups⟩ = (behindNumber s).map fun rest => ⟨rest, groups⟩ := by
  cases s with
  | nil => rfl
  | cons u rest =>
    rw [numberPattern, ways_seq, Expr.plus, ways_seq, behindNumber]
    by_cases digit : oneOf "0123456789" u = true
    · rw [ways_one_of_pos digit, List.flatMap_singleton, if_pos digit, flatMap_star_one, ways_dot]
      intro a more holds
      have other : a ≠ 0x2E := by
        intro same
        rw [same] at holds
        exact absurd holds (by decide)
      rw [ways_dot, behindDot, if_neg other]
      rfl
    · rw [ways_one_of_neg digit, if_neg digit]
      rfl

theorem ways_bullet {u : UInt16} : ways bulletPattern ⟨u :: s, groups⟩ =
    if oneOf "-*+" u then [⟨s, groups⟩] else [] := by
  simp [bulletPattern, ways]

/-- A mark of a list is no digit. -/
theorem bullet_digit {u : UInt16} (bullet : oneOf "-*+" u = true) :
    ¬oneOf "0123456789" u = true := by
  have member : u ∈ js "-*+" := by simpa [oneOf] using bullet
  have none : ∀ v ∈ js "-*+", ¬oneOf "0123456789" v = true :=
    forall_of_all (by decide)
  exact none u member

theorem ways_marker : ways (.alt bulletPattern numberPattern) ⟨s, groups⟩ =
    (behindMarker s).map fun rest => ⟨rest, groups⟩ := by
  rw [ways_alt, ways_number]
  cases s with
  | nil => rfl
  | cons u rest =>
    rw [ways_bullet, behindMarker]
    by_cases bullet : oneOf "-*+" u = true
    · rw [if_pos bullet, if_pos bullet, behindNumber, if_neg (bullet_digit bullet)]
      rfl
    · rw [if_neg bullet, if_neg bullet, List.nil_append]

theorem rests_marker :
    (ways (.alt (.group 1 bulletPattern) (.group 2 numberPattern)) ⟨s, groups⟩).map Match.rest =
      behindMarker s := by
  have plain := congrArg (List.map Match.rest) (ways_marker s groups)
  rw [List.map_map] at plain
  have same : (behindMarker s).map (Match.rest ∘ fun rest => ⟨rest, groups⟩) = behindMarker s :=
    List.map_id _
  rw [ways_alt, List.map_append, same] at plain
  rw [ways_alt, List.map_append, ← plain]
  simp [ways, Function.comp_def]

theorem ways_plus_space : ways (.plus space) ⟨s, groups⟩ =
    (behindSpace s).map fun rest => ⟨rest, groups⟩ := by
  rw [Expr.plus, ways_seq]
  cases s with
  | nil => rfl
  | cons u rest =>
    rw [space, behindSpace]
    by_cases white : isSpace u = true
    · rw [ways_one_of_pos white, List.flatMap_singleton, if_pos white, ways_star_one]
    · rw [ways_one_of_neg white, if_neg white]
      rfl

/-- No marker begins with white space. -/
theorem behindMarker_space {u : UInt16} (white : isSpace u = true) (rest : JsString) :
    behindMarker (u :: rest) = [] := by
  rw [behindMarker, if_neg (isSpace_bullet white), behindNumber, if_neg (isSpace_digit white)]

/-- There is at most one marker. -/
theorem behindMarker_unique : (behindMarker s).length ≤ 1 := by
  have dot : ∀ s, (behindDot s).length ≤ 1 := by
    intro s
    cases s with
    | nil => exact Nat.zero_le 1
    | cons u rest =>
      rw [behindDot]
      split <;> simp
  cases s with
  | nil => exact Nat.zero_le 1
  | cons u rest =>
    rw [behindMarker, behindNumber]
    split
    · exact Nat.le_refl 1
    · split
      · exact dot _
      · exact Nat.zero_le 1

/-! ## Lines of lists -/

variable {s groups}

/-- What stands behind the marker of a list's first line, and white space. -/
def listRests (line : JsString) : List JsString :=
  (behindMarker (line.dropWhile isSpace)).flatMap behindSpace

/-- What is left behind the front of a list's first line. -/
theorem ways_list (line : JsString) :
    ways listPattern ⟨line, []⟩ = (listRests line).map fun rest => ⟨rest, []⟩ := by
  have fails : ∀ a rest, isSpace a = true →
      ways (.all [.alt bulletPattern numberPattern, .plus space]) ⟨a :: rest, []⟩ = [] := by
    intro a rest white
    rw [ways_all_cons, ways_marker, behindMarker_space white]
    rfl
  have split : ways listPattern ⟨line, []⟩ = (ways (.star true space) ⟨line, []⟩).flatMap
      (ways (.all [.alt bulletPattern numberPattern, .plus space])) := rfl
  rw [split, space, flatMap_star_one _ _ fails, ways_all_cons, ways_marker, listRests,
    List.flatMap_map, List.map_flatMap]
  refine List.flatMap_congr fun rest _ => ?_
  rw [ways_all_cons, ← space, ways_plus_space]
  simp

/-- The most white space is taken first. -/
theorem listRests_head {line rest first : JsString} (listed : rest ∈ listRests line)
    (head : (listRests line).head? = some first) : first <:+ rest := by
  obtain ⟨left, marked, inside⟩ := List.mem_flatMap.mp listed
  have single : behindMarker (line.dropWhile isSpace) = [left] := by
    have few := behindMarker_unique (line.dropWhile isSpace)
    obtain ⟨before, after, split⟩ := List.append_of_mem marked
    rw [split, List.length_append, List.length_cons] at few
    have none : before = [] ∧ after = [] := by
      constructor <;> exact List.length_eq_zero_iff.mp (by omega)
    rw [split, none.1, none.2, List.nil_append]
  rw [listRests, single, List.flatMap_singleton] at head
  cases left with
  | nil => cases inside
  | cons u tail =>
    rw [behindSpace] at inside head
    by_cases white : isSpace u = true
    · rw [if_pos white] at inside head
      obtain ⟨shorter, split, -⟩ := runs_eq (p := isSpace) tail
      rw [split, List.head?_cons, Option.some.injEq] at head
      rw [← head]
      exact dropWhile_suffix_of_mem inside
    · rw [if_neg white] at inside
      cases inside

/-- The rest of a line is read up to its end when it has no line terminator. -/
theorem rest_isRead (m : Match UInt16) :
    (∃ last, last ∈ ways (.all [.group 3 (.star true anyUnit), .atEnd]) m) ↔
      ∀ u ∈ m.rest, isLineTerminator u = false := by
  have ends : (∀ u ∈ m.rest, isLineTerminator u = false) ↔
      [] ∈ runs (fun u => !isLineTerminator u) m.rest := by
    rw [nil_mem_runs]
    simp
  rw [ends, ways_all_cons, ways_group, anyUnit, ways_star_one, List.map_map, List.flatMap_map]
  simp only [ways_all_cons, flatMap_all_nil, List.mem_flatMap, mem_ways_atEnd]
  constructor
  · rintro ⟨last, rest, inside, -, done⟩
    exact done ▸ inside
  · intro inside
    exact ⟨_, [], inside, rfl, rfl⟩

/-- An item is read at its indentation: a marker, white space and the rest of the line. -/
theorem ways_item (line : JsString) : ways (itemPattern (indentOf line)) ⟨line, []⟩ =
    (ways (.alt (.group 1 bulletPattern) (.group 2 numberPattern))
      ⟨line.dropWhile isSpace, []⟩).flatMap fun m =>
        (behindSpace m.rest).flatMap fun rest =>
          ways (.all [.group 3 (.star true anyUnit), .atEnd]) ⟨rest, m.groups⟩ := by
  have blank : ∀ u ∈ line.takeWhile isSpace, isSpace u = true := fun u member =>
    List.mem_takeWhile_imp member
  have front := ways_times_one blank (line.dropWhile isSpace) []
  rw [List.takeWhile_append_dropWhile] at front
  rw [itemPattern, ways_all_cons, indentOf, space, front, List.flatMap_singleton, ways_all_cons]
  refine List.flatMap_congr fun m _ => ?_
  rw [ways_all_cons, ← space, ways_plus_space, List.flatMap_map]

/-- A line is read as an item at its indentation when a marker and white space are followed by a
text without a line terminator. -/
theorem item_isSome (line : JsString) :
    (exec (itemPattern (indentOf line)) line).isSome = true ↔
      ∃ rest ∈ listRests line, ∀ u ∈ rest, isLineTerminator u = false := by
  have markers := rests_marker (line.dropWhile isSpace) []
  rw [exec_isSome_iff, ways_item]
  simp only [List.mem_flatMap, listRests, ← markers, List.mem_map]
  constructor
  · rintro ⟨last, m, marked, rest, inside, way⟩
    exact ⟨rest, ⟨m.rest, ⟨m, marked, rfl⟩, inside⟩, (rest_isRead _).mp ⟨last, way⟩⟩
  · rintro ⟨rest, ⟨left, ⟨m, marked, same⟩, inside⟩, plain⟩
    obtain ⟨last, way⟩ := (rest_isRead ⟨rest, m.groups⟩).mpr plain
    exact ⟨last, m, marked, rest, same ▸ inside, way⟩

/-- A line that starts a list is read as an item exactly when no line terminator stands behind its
marker and white space. -/
theorem item_iff {line : JsString} {m : Match UInt16} (starts : exec listPattern line = some m) :
    (exec (itemPattern (indentOf line)) line).isSome = true ↔
      ∀ u ∈ m.rest, isLineTerminator u = false := by
  rw [exec, ways_list, List.head?_map] at starts
  obtain ⟨first, head, same⟩ := Option.map_eq_some_iff.mp starts
  rw [item_isSome, ← same]
  constructor
  · rintro ⟨rest, listed, plain⟩
    have suffix := listRests_head listed head
    exact fun u member => plain u (suffix.subset member)
  · intro plain
    exact ⟨first, List.mem_of_mem_head? head, plain⟩

/-! ## Items -/

section Items

variable {indent : ℕ} {line : JsString} {rest : List JsString}

/-- A line that is no item ends a list. -/
theorem parseItems_none (other : exec (itemPattern indent) line = none) :
    parseItems indent (line :: rest) = ([], line :: rest) := by
  rw [parseItems, other]

/-- What the deeper lines of an item emit: a nested list, or continuations. -/
def subPieces (indent : ℕ) (rest : List JsString) : List Piece :=
  match (takeDeeper (indent + 2) rest).1 with
  | [] => []
  | first :: _ =>
    if (takeDeeper (indent + 2) rest).1.any (isSubItem (indent + 2)) then
      wrapItems (isOrdered first) (parseItems (indent + 2) rest).1
    else
      .markup (js " ") ::
        continuation (takeDeeper (indent + 2) rest).2.length (takeDeeper (indent + 2) rest).1

/-- An item is emitted with its deeper lines, and the list goes on behind them. -/
theorem parseItems_some {m : Match UInt16} (item : exec (itemPattern indent) line = some m) :
    parseItems indent (line :: rest) =
      (.markup (js "<li>") :: .text rest.length (m.group 3) :: subPieces indent rest ++
          .markup (js "</li>") :: (parseItems indent (takeDeeper (indent + 2) rest).2).1,
        (parseItems indent (takeDeeper (indent + 2) rest).2).2) := by
  rw [parseItems, item]
  rfl

/-- Behind an item and its deeper lines the list goes on. -/
theorem parseItems_next {m : Match UInt16} (item : exec (itemPattern indent) line = some m) :
    (parseItems indent (line :: rest)).2 =
      (parseItems indent (takeDeeper (indent + 2) rest).2).2 := by
  rw [parseItems_some item]

/-- The lines of a block stand in front of the others. -/
theorem takeDeeper_append (indent : ℕ) (lines : List JsString) :
    (takeDeeper indent lines).1 ++ (takeDeeper indent lines).2 = lines := by
  induction lines with
  | nil => rfl
  | cons line rest ih =>
    rw [takeDeeper]
    split
    · split
      · rfl
      · exact congrArg (line :: ·) ih
    · rfl

/-- A list takes lines from the front. -/
theorem parseItems_suffix (indent : ℕ) (lines : List JsString) :
    (parseItems indent lines).2 <:+ lines := by
  induction size : lines.length using Nat.strong_induction_on generalizing lines with
  | _ n ih =>
    cases lines with
    | nil => rw [parseItems]
    | cons line rest =>
      cases item : exec (itemPattern indent) line with
      | none => rw [parseItems_none item]
      | some m =>
        have block := takeDeeper_length (indent + 2) rest
        have after : (takeDeeper (indent + 2) rest).2 <:+ rest :=
          ⟨_, takeDeeper_append (indent + 2) rest⟩
        rw [List.length_cons] at size
        have later := ih (takeDeeper (indent + 2) rest).2.length (by omega) _ rfl
        rw [parseItems_next item]
        exact (later.trans after).trans (List.suffix_cons line rest)

/-- A list with an item takes its first line. -/
theorem parseItems_suffix_rest {m : Match UInt16}
    (item : exec (itemPattern indent) line = some m) :
    (parseItems indent (line :: rest)).2 <:+ rest := by
  rw [parseItems_next item]
  exact (parseItems_suffix indent _).trans ⟨_, takeDeeper_append (indent + 2) rest⟩

end Items

end Federate.Markdown
