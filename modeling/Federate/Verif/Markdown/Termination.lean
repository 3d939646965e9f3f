import Federate.Verif.Markdown.Lines
import Mathlib.Logic.Relation
import Mathlib.Tactic.Linarith

/-!
# When rendering ends

The loop of `render` goes on at the line that `parseList` returns. A list's first line is recognised
by one expression and read as an item by another, which stops at a line separator: then the list
takes no line, and the loop stays where it is. In all other cases a block takes a line, and the
lines within a quote are shorter than those of the quote.
-/

namespace Federate.Markdown

open Regex

/-! ## Steps of the loop -/

section Steps

variable {line : JsString} {rest : List JsString}

/-- The lines of the quote at a line. -/
def quoteLines (line : JsString) (rest : List JsString) : List JsString :=
  (line :: rest).takeWhile (matchesFront quotePattern)

/-- A block takes its line; a quote takes all its lines, and a list what `parseList` takes. -/
theorem nextBlock_cases (line : JsString) (rest : List JsString) :
    ((nextBlock line rest).2 <:+ rest ∧ (∀ quoted, (nextBlock line rest).1 ≠ .quote quoted) ∧
        ∀ pieces, (nextBlock line rest).1 ≠ .list pieces) ∨
      (matchesFront quotePattern line = true ∧
        nextBlock line rest = (.quote ((quoteLines line rest).map (removeFront quoteMark)),
          (line :: rest).drop (quoteLines line rest).length)) ∨
      (matchesFront listPattern line = true ∧
        nextBlock line rest = (.list (parseList (indentOf line) line rest).1,
          (parseList (indentOf line) line rest).2)) := by
  unfold nextBlock
  by_cases blank : isBlank line = true
  · simp [blank]
  cases fence : exec fencePattern line with
  | some m => simp [blank, List.drop_suffix]
  | none =>
    cases heading : exec headingPattern line with
    | some m => simp [blank]
    | none =>
      by_cases rule : matchesFront rulePattern line = true
      · simp [blank, rule]
      by_cases quote : matchesFront quotePattern line = true
      · right
        left
        simp [blank, rule, quote, quoteLines]
      by_cases table : (hasBar line && rest.head?.any (matchesFront separatorPattern)) = true
      · simp [blank, rule, quote, table, List.drop_suffix]
      by_cases list : matchesFront listPattern line = true
      · right
        right
        simp [blank, rule, quote, table, list]
      · simp [blank, rule, quote, table, list]

/-- A list is read where the line starts one. -/
theorem nextBlock_list {pieces : List Piece} (starts : (nextBlock line rest).1 = .list pieces) :
    ∃ m, exec listPattern line = some m ∧
      (nextBlock line rest).2 = (parseItems (indentOf line) (line :: rest)).2 := by
  rcases nextBlock_cases line rest with ⟨-, -, other⟩ | ⟨-, quote⟩ | ⟨list, same⟩
  · exact absurd starts (other pieces)
  · rw [quote] at starts
    cases starts
  · rw [same]
    obtain ⟨m, found⟩ := Option.isSome_iff_exists.mp list
    exact ⟨m, found, rfl⟩

end Steps

/-! ## Sizes -/

section Sizes

/-- The size of lines: their code units and their ends. -/
def size (lines : List JsString) : ℕ := (lines.map fun line => line.length + 1).sum

@[simp] theorem size_cons (line : JsString) (rest : List JsString) :
    size (line :: rest) = line.length + 1 + size rest := by simp [size]

@[simp] theorem size_append (front back : List JsString) :
    size (front ++ back) = size front + size back := by simp [size]

theorem size_suffix {lines rest : List JsString} (suffix : rest <:+ lines) :
    size rest ≤ size lines := by
  obtain ⟨front, split⟩ := suffix
  rw [← split, size_append]
  exact Nat.le_add_left _ _

/-- Lines that are joined have one end less. -/
theorem size_joinLines {lines : List JsString} (nonempty : lines ≠ []) :
    size lines = (joinLines lines).length + 1 := by
  induction lines with
  | nil => exact absurd rfl nonempty
  | cons line lines ih =>
    cases lines with
    | nil => simp [joinLines, size]
    | cons next lines =>
      have later := ih (List.cons_ne_nil _ _)
      rw [joinLines] at later ⊢
      rw [size_cons, later, List.intercalate_cons_cons, List.length_append, List.length_append,
        List.length_singleton]
      omega

theorem normalizeLines_length (md : JsString) : (normalizeLines md).length ≤ md.length := by
  induction md with
  | nil => exact Nat.le_refl _
  | cons u rest ih =>
    rw [normalizeLines]
    split
    · split
      · exact Nat.le_succ_of_le ih
      · exact Nat.succ_le_succ ih
    · exact Nat.succ_le_succ ih

/-- The lines of a page are no larger than the page and one end. -/
theorem size_linesOf (md : JsString) : size (linesOf md) ≤ md.length + 1 := by
  have joined : joinLines (linesOf md) = normalizeLines md := List.intercalate_splitOn _
  rw [size_joinLines (show linesOf md ≠ [] from List.splitOn_ne_nil _ _), joined]
  exact Nat.succ_le_succ (normalizeLines_length md)

/-- What stands behind a bracket is shorter than the line. -/
theorem quoteMark_way {line : JsString} {m : Match UInt16} (way : m ∈ ways quoteMark ⟨line, []⟩) :
    m.rest.length < line.length := by
  obtain ⟨blank, first, way⟩ := List.mem_flatMap.mp way
  obtain ⟨bracket, second, way⟩ := List.mem_flatMap.mp way
  have start := (ways_consumes _ first).suffix.length_le
  have strict := (text_strict _ _ blank bracket second).1
  have last := (ways_consumes _ way).suffix.length_le
  exact last.trans_lt (strict.trans_le start)

/-- The mark of a quote is taken off its lines. -/
theorem quoteMark_shorter {line : JsString} (quote : matchesFront quotePattern line = true) :
    (removeFront quoteMark line).length < line.length := by
  obtain ⟨m, way⟩ := exec_isSome_iff.mp quote
  obtain ⟨blank, first, way⟩ := List.mem_flatMap.mp way
  change m ∈ ways (.all [lit ">"]) blank at way
  rw [ways_all_cons, flatMap_all_nil] at way
  have mark : m ∈ ways quoteMark ⟨line, []⟩ := by
    refine List.mem_flatMap.mpr ⟨blank, first, List.mem_flatMap.mpr ⟨m, way, ?_⟩⟩
    change m ∈ ways (.all [.opt space]) m
    rw [ways_all_cons, flatMap_all_nil, Expr.opt, ways_alt, ways_empty]
    exact List.mem_append_right _ (List.mem_singleton_self m)
  obtain ⟨found, executed⟩ := Option.isSome_iff_exists.mp (exec_isSome_iff.mpr ⟨m, mark⟩)
  rw [removeFront, executed]
  exact quoteMark_way (List.mem_of_mem_head? executed)

/-- The lines within a quote are smaller than those of the quote. -/
theorem size_quoted {lines : List JsString} (nonempty : lines ≠ [])
    (quote : ∀ line ∈ lines, matchesFront quotePattern line = true) :
    size (lines.map (removeFront quoteMark)) < size lines := by
  induction lines with
  | nil => exact absurd rfl nonempty
  | cons line lines ih =>
    have first := quoteMark_shorter (quote line List.mem_cons_self)
    rw [List.map_cons, size_cons, size_cons]
    by_cases last : lines = []
    · rw [last, List.map_nil]
      omega
    · have others := ih last fun other member => quote other (List.mem_cons_of_mem _ member)
      omega

end Sizes

/-! ## The loop -/

/-- From some lines the loop goes on with others: those behind a block, or those within a quote. -/
inductive Follows : List JsString → List JsString → Prop
  | next (line : JsString) (rest : List JsString) : Follows (line :: rest) (nextBlock line rest).2
  | within {line : JsString} {rest quoted : List JsString}
      (quote : (nextBlock line rest).1 = .quote quoted) :
      Follows (line :: rest) (linesOf (joinLines quoted))

/-- The loop comes to some lines from others. -/
abbrev Reaches : List JsString → List JsString → Prop := Relation.ReflTransGen Follows

/-- The loop starts a list at a line. -/
def StartsList (line : JsString) (rest : List JsString) : Prop :=
  ∃ pieces, (nextBlock line rest).1 = .list pieces

/-- A line terminator stands behind the marker of a list's first line and white space. -/
def HasSeparator (line : JsString) : Prop :=
  ∃ m, exec listPattern line = some m ∧ ∃ u ∈ m.rest, isLineTerminator u = true

/-- No line at which the loop starts a list has a line separator behind its marker. -/
def Advances (lines : List JsString) : Prop :=
  ∀ line rest, Reaches lines (line :: rest) → StartsList line rest → ¬HasSeparator line

section Loop

variable {line : JsString} {rest para html out quoted : List JsString} {fuel : ℕ}

/-- The block of a line that is neither a paragraph's nor a quote's is added. -/
def IsOther (block : Block) : Prop := block ≠ .paragraph ∧ ∀ quoted, block ≠ .quote quoted

theorem renderLoop_paragraph (found : (nextBlock line rest).1 = .paragraph) :
    renderLoop (fuel + 1) (line :: rest) para html =
      renderLoop fuel (nextBlock line rest).2 (para ++ [line]) html := by
  rw [renderLoop, found]

theorem renderLoop_other (found : IsOther (nextBlock line rest).1) :
    renderLoop (fuel + 1) (line :: rest) para html = renderLoop fuel (nextBlock line rest).2 []
      (html ++ paragraphBuffer para ++ (nextBlock line rest).1.html) := by
  rw [renderLoop]
  split
  · rename_i paragraph
    exact absurd paragraph found.1
  · rename_i quoted quote
    exact absurd quote (found.2 quoted)
  · rfl

theorem renderLoop_quote (found : (nextBlock line rest).1 = .quote quoted) :
    renderLoop (fuel + 1) (line :: rest) para html = some out ↔
      ∃ inner, renderLoop fuel (linesOf (joinLines quoted)) [] [] = some inner ∧
        renderLoop fuel (nextBlock line rest).2 [] (html ++ paragraphBuffer para ++
          [element "blockquote" (joinLines inner)]) = some out := by
  rw [renderLoop, found]
  exact Option.bind_eq_some_iff

/-- A block is a paragraph's line, a quote or another. -/
theorem block_cases (block : Block) :
    block = .paragraph ∨ (∃ quoted, block = .quote quoted) ∨ IsOther block := by
  cases block with
  | paragraph => exact .inl rfl
  | quote quoted => exact .inr (.inl ⟨quoted, rfl⟩)
  | blank | fence | heading | rule | table | list =>
    refine .inr (.inr ⟨?_, fun quoted => ?_⟩) <;> simp

/-- What is rendered on some fuel is rendered on more. -/
theorem renderLoop_mono {lines : List JsString} {more : ℕ} (enough : fuel ≤ more)
    (rendered : renderLoop fuel lines para html = some out) :
    renderLoop more lines para html = some out := by
  induction fuel generalizing lines para html out more with
  | zero => cases rendered
  | succ fuel ih =>
    obtain ⟨most, rfl⟩ : ∃ most, more = most + 1 := ⟨more - 1, by omega⟩
    have least : fuel ≤ most := by omega
    cases lines with
    | nil => exact rendered
    | cons line rest =>
      rcases block_cases (nextBlock line rest).1 with paragraph | ⟨quoted, quote⟩ | other
      · rw [renderLoop_paragraph paragraph] at rendered ⊢
        exact ih least rendered
      · obtain ⟨inner, within, after⟩ := (renderLoop_quote quote).mp rendered
        exact (renderLoop_quote quote).mpr ⟨inner, ih least within, ih least after⟩
      · rw [renderLoop_other other] at rendered ⊢
        exact ih least rendered

/-- The lines behind a block are fewer, unless it is a list whose first line has a separator, and so
are the lines within a quote. -/
theorem size_follows {next : List JsString} (follows : Follows (line :: rest) next)
    (advances : StartsList line rest → ¬HasSeparator line) : size next < size (line :: rest) := by
  have smaller {next : List JsString} (suffix : next <:+ rest) :
      size next < size (line :: rest) := by
    have behind := size_suffix suffix
    rw [size_cons]
    omega
  rcases nextBlock_cases line rest with ⟨suffix, noQuote, -⟩ | ⟨quote, same⟩ | ⟨list, same⟩
  · cases follows with
    | next => exact smaller suffix
    | within quote => exact absurd quote (noQuote _)
  · have lines : quoteLines line rest = line :: rest.takeWhile (matchesFront quotePattern) :=
      List.takeWhile_cons_of_pos quote
    cases follows with
    | next =>
      rw [same, lines, List.length_cons, List.drop_succ_cons]
      exact smaller (List.drop_suffix _ _)
    | within found =>
      rw [same] at found
      have quoted := Block.quote.inj found
      have nonempty : quoteLines line rest ≠ [] := by simp [lines]
      have marked : ∀ l ∈ quoteLines line rest, matchesFront quotePattern l = true :=
        fun l member => List.mem_takeWhile_imp member
      have shorter := size_quoted nonempty marked
      have joined := size_linesOf (joinLines ((quoteLines line rest).map (removeFront quoteMark)))
      have ends : size ((quoteLines line rest).map (removeFront quoteMark)) =
          (joinLines ((quoteLines line rest).map (removeFront quoteMark))).length + 1 :=
        size_joinLines (List.map_eq_nil_iff.not.mpr nonempty)
      have whole : size (quoteLines line rest) ≤ size (line :: rest) := by
        have split : quoteLines line rest ++ (line :: rest).dropWhile (matchesFront quotePattern) =
          line :: rest := List.takeWhile_append_dropWhile
        rw [← split, size_append]
        exact Nat.le_add_right _ _
      rw [← quoted]
      omega
  · have starts : StartsList line rest := ⟨_, congrArg Prod.fst same⟩
    obtain ⟨m, found, next⟩ := nextBlock_list (congrArg Prod.fst same)
    have plain : ∀ u ∈ m.rest, isLineTerminator u = false := by
      intro u member
      by_contra separator
      exact advances starts ⟨m, found, u, member, by simpa using separator⟩
    obtain ⟨item, read⟩ := Option.isSome_iff_exists.mp ((item_iff found).mpr plain)
    cases follows with
    | next =>
      rw [next]
      exact smaller (parseItems_suffix_rest read)
    | within quote =>
      rw [same] at quote
      cases quote

/-- The loop ends when it advances. -/
theorem renderLoop_ends {lines : List JsString} (advances : Advances lines)
    (para html : List JsString) : ∃ fuel out, renderLoop fuel lines para html = some out := by
  induction steps : size lines using Nat.strong_induction_on generalizing lines para html with
  | _ n ih =>
    cases lines with
    | nil => exact ⟨1, _, rfl⟩
    | cons line rest =>
      have here := advances line rest .refl
      have later {next : List JsString} (follows : Follows (line :: rest) next) :
          Advances next := by
        intro other more reaches
        exact advances other more (.head follows reaches)
      have ends {next : List JsString} (follows : Follows (line :: rest) next)
          (para html : List JsString) : ∃ fuel out, renderLoop fuel next para html = some out :=
        ih (size next) (steps ▸ size_follows follows here) (later follows) para html rfl
      rcases block_cases (nextBlock line rest).1 with paragraph | ⟨quoted, quote⟩ | other
      · obtain ⟨fuel, out, rendered⟩ := ends (.next line rest) (para ++ [line]) html
        exact ⟨fuel + 1, out, (renderLoop_paragraph paragraph).trans rendered⟩
      · obtain ⟨first, inner, within⟩ := ends (.within quote) [] []
        obtain ⟨second, out, behind⟩ := ends (.next line rest) []
          (html ++ paragraphBuffer para ++ [element "blockquote" (joinLines inner)])
        refine ⟨max first second + 1, out, (renderLoop_quote quote).mpr ⟨inner, ?_, ?_⟩⟩
        · exact renderLoop_mono (le_max_left _ _) within
        · exact renderLoop_mono (le_max_right _ _) behind
      · obtain ⟨fuel, out, rendered⟩ := ends (.next line rest) []
          (html ++ paragraphBuffer para ++ (nextBlock line rest).1.html)
        exact ⟨fuel + 1, out, (renderLoop_other other).trans rendered⟩

/-- A loop that ends also ends from the lines that it comes to. -/
theorem renderLoop_follows {next : List JsString} (follows : Follows (line :: rest) next)
    (rendered : renderLoop (fuel + 1) (line :: rest) para html = some out) :
    ∃ para html out, renderLoop fuel next para html = some out := by
  rcases block_cases (nextBlock line rest).1 with paragraph | ⟨quoted, quote⟩ | other
  · rw [renderLoop_paragraph paragraph] at rendered
    cases follows with
    | next => exact ⟨_, _, _, rendered⟩
    | within quote =>
      rw [paragraph] at quote
      cases quote
  · obtain ⟨inner, within, behind⟩ := (renderLoop_quote quote).mp rendered
    cases follows with
    | next => exact ⟨_, _, _, behind⟩
    | within found =>
      rw [quote, Block.quote.injEq] at found
      exact ⟨_, _, _, found ▸ within⟩
  · rw [renderLoop_other other] at rendered
    cases follows with
    | next => exact ⟨_, _, _, rendered⟩
    | within quote => exact absurd quote (other.2 _)

/-- A list whose first line has a separator takes no line. -/
theorem stays {pieces : List Piece} (starts : (nextBlock line rest).1 = .list pieces)
    (separator : HasSeparator line) : Follows (line :: rest) (line :: rest) := by
  obtain ⟨m, found, next⟩ := nextBlock_list starts
  obtain ⟨m', found', u, member, terminates⟩ := separator
  rw [found, Option.some.injEq] at found'
  have none : exec (itemPattern (indentOf line)) line = none := by
    rw [← Option.not_isSome_iff_eq_none, item_iff found]
    intro plain
    rw [plain u (found' ▸ member)] at terminates
    cases terminates
  have same : (nextBlock line rest).2 = line :: rest := by rw [next, parseItems_none none]
  have step := Follows.next line rest
  rwa [same] at step

/-- The loop advances when it ends. -/
theorem advances_of_ends {lines : List JsString}
    (rendered : renderLoop fuel lines para html = some out) : Advances lines := by
  induction fuel generalizing lines para html out with
  | zero => cases rendered
  | succ fuel ih =>
    cases lines with
    | nil =>
      intro line rest reaches
      rcases reaches.cases_head with same | ⟨next, follows, -⟩
      · cases same
      · cases follows
    | cons first others =>
      intro line rest reaches starts separator
      -- where the loop stays, it goes on with less fuel
      have step {next : List JsString} (follows : Follows (first :: others) next) :
          Advances next := by
        obtain ⟨para', html', out', less⟩ := renderLoop_follows follows rendered
        exact ih less
      rcases reaches.cases_head with same | ⟨next, follows, later⟩
      · obtain ⟨pieces, list⟩ := starts
        rw [same] at step
        exact step (stays list separator) line rest .refl ⟨pieces, list⟩ separator
      · exact step follows line rest later starts separator

end Loop

/-- Rendering a page ends exactly when no line at which a list is started, on the page or within a
quote, has a line separator behind its marker. -/
theorem render_ends_iff (md : JsString) :
    (∃ fuel html, render fuel md = some html) ↔ Advances (linesOf md) := by
  constructor
  · rintro ⟨fuel, html, rendered⟩
    obtain ⟨out, looped, -⟩ := Option.map_eq_some_iff.mp rendered
    exact advances_of_ends looped
  · intro advances
    obtain ⟨fuel, out, looped⟩ := renderLoop_ends advances [] []
    exact ⟨fuel, joinLines out, Option.map_eq_some_iff.mpr ⟨out, looped, rfl⟩⟩

end Federate.Markdown

namespace Federate.Reference

open Markdown Regex

/-- An item with a line separator. -/
def separatedPage : JsString := js "- a\u2028b"

/-- The item is a list's first line. -/
theorem separatedPage_list : StartsList separatedPage [] ∧ HasSeparator separatedPage := by
  have blank : isBlank separatedPage = false := by decide
  have fence : exec fencePattern separatedPage = none := rfl
  have heading : exec headingPattern separatedPage = none := rfl
  have rule : matchesFront rulePattern separatedPage = false := by decide
  have quote : matchesFront quotePattern separatedPage = false := by decide
  have bar : hasBar separatedPage = false := by decide
  have list : matchesFront listPattern separatedPage = true := by decide
  constructor
  · refine ⟨(parseList (indentOf separatedPage) separatedPage []).1, ?_⟩
    rw [nextBlock, fence, heading]
    simp [blank, rule, quote, bar, list]
  · exact ⟨⟨js "a\u2028b", []⟩, rfl, 0x2028, by decide, by decide⟩

/-- Rendering the page does not end. -/
theorem separatedPage_hangs : ¬∀ md : JsString, ∃ fuel html, render fuel md = some html := by
  intro all
  obtain ⟨fuel, html, rendered⟩ := all separatedPage
  obtain ⟨out, looped, -⟩ := Option.map_eq_some_iff.mp rendered
  have lines : linesOf separatedPage = [separatedPage] := by decide
  rw [lines] at looped
  exact advances_of_ends looped _ _ .refl separatedPage_list.1 separatedPage_list.2

end Federate.Reference
