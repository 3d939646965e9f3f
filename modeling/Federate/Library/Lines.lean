import Federate.Library.Text

/-!
# Lines and words of a text

The standard ways to take a text apart, `str::lines` and `str::split_whitespace`, and to look for
a text in it. Lines that were each written with a line feed are read back one by one, and so are
words between white space.
-/
namespace Text

/-- The lines of a text: a line feed ends a line, with the carriage return before it, if any. -/
def linesOf : List Char → List (List Char)
  | [] => []
  | c :: rest =>
    if c = Char.ofNat 10 then [] :: linesOf rest
    else if c = Char.ofNat 13 ∧ rest.head? = some (Char.ofNat 10) then linesOf rest
    else match linesOf rest with
      | [] => [[c]]
      | line :: more => (c :: line) :: more

/-- `str::lines`. -/
def lines (s : String) : List String := (linesOf s.toList).map String.ofList

/-- The words of a text: what stands between its white space. -/
def wordsOf (chars : List Char) : List (List Char) :=
  (chars.splitOnP isWhitespace).filter (· ≠ [])

/-- `str::split_whitespace`. -/
def splitWhitespace (s : String) : List String := (wordsOf s.toList).map String.ofList

/-- `str::contains` of a text. -/
def contains (part s : String) : Prop := part.toList <:+: s.toList

instance (part s : String) : Decidable (contains part s) :=
  inferInstanceAs (Decidable (part.toList <:+: s.toList))

/-- `str::find` of a text, counted in characters. -/
def findText (part : List Char) : List Char → Option ℕ
  | [] => if part = [] then some 0 else none
  | c :: rest => if part.isPrefixOf (c :: rest) then some 0 else (findText part rest).map (· + 1)

/-! ## Lines -/

/-- A line that was written with its line feed is the first line read. -/
theorem linesOf_line {line : List Char} (rest : List Char) (oneLine : Char.ofNat 10 ∉ line)
    (ends : line.getLast? ≠ some (Char.ofNat 13)) :
    linesOf (line ++ Char.ofNat 10 :: rest) = line :: linesOf rest := by
  induction line with
  | nil => simp [linesOf]
  | cons c line ih =>
    have other : c ≠ Char.ofNat 10 := by
      intro same
      exact oneLine (same ▸ List.mem_cons_self)
    have inner : Char.ofNat 10 ∉ line := fun member => oneLine (List.mem_cons_of_mem _ member)
    have feed : ¬(c = Char.ofNat 13 ∧
        (line ++ Char.ofNat 10 :: rest).head? = some (Char.ofNat 10)) := by
      rintro ⟨same, next⟩
      cases line with
      | nil => exact ends (by simp [same])
      | cons d line =>
        simp only [List.cons_append, List.head?_cons, Option.some.injEq] at next
        exact inner (next ▸ List.mem_cons_self)
    have tail : line.getLast? ≠ some (Char.ofNat 13) := by
      cases line with
      | nil => simp
      | cons d line => simpa [List.getLast?_cons_cons] using ends
    rw [List.cons_append, linesOf, if_neg other, if_neg feed, ih inner tail]

/-- A line has no line feed. -/
theorem feed_not_mem {chars line : List Char} (listed : line ∈ linesOf chars) :
    Char.ofNat 10 ∉ line := by
  induction chars generalizing line with
  | nil => exact absurd listed List.not_mem_nil
  | cons c chars ih =>
    rw [linesOf] at listed
    split at listed
    · rcases List.mem_cons.mp listed with rfl | later
      · exact List.not_mem_nil
      · exact ih later
    · rename_i other
      split at listed
      · exact ih listed
      · split at listed
        · rw [List.mem_singleton.mp listed, List.mem_singleton]
          exact fun same => other same.symm
        · rename_i first more shape
          have inner := ih (shape ▸ List.mem_cons_self)
          rcases List.mem_cons.mp listed with rfl | later
          · rw [List.mem_cons]
            rintro (same | member)
            · exact other same.symm
            · exact inner member
          · exact ih (shape ▸ List.mem_cons_of_mem _ later)

/-- A line as it is read back behind its line feed: a carriage return at its end is taken for a part
of the line's end. -/
def dropReturn (line : List Char) : List Char :=
  if line.getLast? = some (Char.ofNat 13) then line.dropLast else line

/-- A line that was written with a carriage return and a line feed is the first line read. -/
theorem linesOf_returned {line : List Char} (rest : List Char) (oneLine : Char.ofNat 10 ∉ line) :
    linesOf (line ++ Char.ofNat 13 :: Char.ofNat 10 :: rest) = line :: linesOf rest := by
  induction line with
  | nil => simp [linesOf]
  | cons c line ih =>
    have other : c ≠ Char.ofNat 10 := by
      intro same
      exact oneLine (same ▸ List.mem_cons_self)
    have inner : Char.ofNat 10 ∉ line := fun member => oneLine (List.mem_cons_of_mem _ member)
    have feed : ¬(c = Char.ofNat 13 ∧ (line ++ Char.ofNat 13 :: Char.ofNat 10 :: rest).head? =
        some (Char.ofNat 10)) := by
      rintro ⟨-, next⟩
      cases line with
      | nil => exact absurd (Option.some.inj next) (by decide)
      | cons d line =>
        simp only [List.cons_append, List.head?_cons, Option.some.injEq] at next
        exact inner (next ▸ List.mem_cons_self)
    rw [List.cons_append, linesOf, if_neg other, if_neg feed, ih inner]

/-- A line that was written with its line feed is the first line read, apart from a carriage return
at its end. -/
theorem linesOf_terminated {line : List Char} (rest : List Char) (oneLine : Char.ofNat 10 ∉ line) :
    linesOf (line ++ Char.ofNat 10 :: rest) = dropReturn line :: linesOf rest := by
  by_cases ends : line.getLast? = some (Char.ofNat 13)
  · obtain ⟨front, split⟩ := List.getLast?_eq_some_iff.mp ends
    have inner : Char.ofNat 10 ∉ front := by
      intro member
      exact oneLine (split ▸ List.mem_append_left _ member)
    rw [dropReturn, if_pos ends, split, List.dropLast_concat, List.append_assoc]
    exact linesOf_returned rest inner
  · rw [dropReturn, if_neg ends, linesOf_line rest oneLine ends]

/-- Lines that were written one by one are read back, apart from carriage returns at their ends. -/
theorem linesOf_unlines {written : List (List Char)}
    (oneLine : ∀ line ∈ written, Char.ofNat 10 ∉ line) :
    linesOf (written.flatMap fun line => line ++ [Char.ofNat 10]) = written.map dropReturn := by
  induction written with
  | nil => rfl
  | cons line written ih =>
    have rest := ih fun other member => oneLine other (List.mem_cons_of_mem _ member)
    rw [List.flatMap_cons, List.append_assoc, List.singleton_append,
      linesOf_terminated _ (oneLine line List.mem_cons_self), rest, List.map_cons]

/-- Lines that were written one by one are read back. -/
theorem linesOf_written {written : List (List Char)} (oneLine : ∀ line ∈ written,
    Char.ofNat 10 ∉ line) (ends : ∀ line ∈ written, line.getLast? ≠ some (Char.ofNat 13)) :
    linesOf (written.flatMap fun line => line ++ [Char.ofNat 10]) = written := by
  have same : written.map dropReturn = written := by
    refine (List.map_congr_left fun line listed => ?_).trans (List.map_id _)
    exact if_neg (ends line listed)
  rw [linesOf_unlines oneLine, same]

/-! ## Words -/

/-- The words around a white space are those on each side. -/
theorem wordsOf_append_blank {c : Char} (blank : isWhitespace c = true) (before after : List Char) :
    wordsOf (before ++ c :: after) = wordsOf before ++ wordsOf after := by
  rw [wordsOf, List.splitOnP_append_cons before after blank, List.filter_append]
  rfl

@[simp] theorem wordsOf_nil : wordsOf [] = [] := by simp [wordsOf]

/-- A text without white space is one word. -/
theorem wordsOf_solid {word : List Char} (filled : word ≠ [])
    (solid : ∀ c ∈ word, isWhitespace c = false) : wordsOf word = [word] := by
  rw [wordsOf, List.splitOnP_eq_singleton solid]
  simp [filled]

/-- White space alone has no words. -/
theorem wordsOf_allBlank {chars : List Char} (blank : ∀ c ∈ chars, isWhitespace c = true) :
    wordsOf chars = [] := by
  induction chars with
  | nil => exact wordsOf_nil
  | cons c chars ih =>
    have rest := ih fun d member => blank d (List.mem_cons_of_mem _ member)
    simpa [rest] using wordsOf_append_blank (blank c List.mem_cons_self) [] chars

/-- White space around a text adds no words. -/
theorem wordsOf_surrounded {before chars after : List Char}
    (blank : ∀ c ∈ before, isWhitespace c = true)
    (blankAfter : ∀ c ∈ after, isWhitespace c = true) :
    wordsOf (before ++ chars ++ after) = wordsOf chars := by
  have front : ∀ rest, wordsOf (before ++ rest) = wordsOf rest := by
    intro rest
    induction before with
    | nil => rfl
    | cons c before ih =>
      have shorter := ih fun d member => blank d (List.mem_cons_of_mem _ member)
      have split := wordsOf_append_blank (blank c List.mem_cons_self) [] (before ++ rest)
      simpa [shorter] using split
  rw [List.append_assoc, front]
  cases after with
  | nil => rw [List.append_nil]
  | cons c after =>
    have none := wordsOf_allBlank fun d member => blankAfter d (List.mem_cons_of_mem _ member)
    rw [wordsOf_append_blank (blankAfter c List.mem_cons_self), none, List.append_nil]

/-- Replacing white space by other white space changes no word. -/
theorem wordsOf_map {f : Char → Char} (kept : ∀ c, isWhitespace (f c) = isWhitespace c)
    (solid : ∀ c, isWhitespace c = false → f c = c) (chars : List Char) :
    wordsOf (chars.map f) = wordsOf chars := by
  have parts : (chars.map f).splitOnP isWhitespace = chars.splitOnP isWhitespace := by
    induction chars with
    | nil => rfl
    | cons c chars ih =>
      rw [List.map_cons, List.splitOnP_cons_eq_if_modifyHead,
        List.splitOnP_cons_eq_if_modifyHead, kept, ih]
      by_cases blank : isWhitespace c = true
      · rw [if_pos blank, if_pos blank]
      · rw [if_neg blank, if_neg blank, solid c (by simpa using blank)]
  rw [wordsOf, wordsOf, parts]

/-- Words that were each written with a white space are read back. -/
theorem wordsOf_written {c : Char} (blank : isWhitespace c = true) {written : List (List Char)}
    (words : ∀ word ∈ written, word ≠ [] ∧ ∀ d ∈ word, isWhitespace d = false) :
    wordsOf (written.flatMap fun word => word ++ [c]) = written := by
  induction written with
  | nil => exact wordsOf_nil
  | cons word written ih =>
    have first := words word List.mem_cons_self
    have rest := ih fun other member => words other (List.mem_cons_of_mem _ member)
    rw [List.flatMap_cons, List.append_assoc, List.singleton_append, wordsOf_append_blank blank,
      wordsOf_solid first.1 first.2, rest, List.singleton_append]

end Text
