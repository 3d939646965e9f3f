import Federate.Markdown.Inline

/-!
# Markdown in blocks

`render` takes a page apart line by line. A loop of the script that has come to some line goes on
with the list of the lines from there; `parseList` returns what it emits as pieces, of which texts
are rendered by `inline`. The loop of `render` need not end, so it runs on fuel.
-/

namespace Federate.Markdown

open Regex

/-! ## Lines -/

/-- `replace(/\r\n?/g, '\n')`. -/
def normalizeLines : JsString → JsString
  | [] => []
  | u :: rest =>
    if u = 0x0D then
      -- of a carriage return and a line feed, the line feed is left
      if rest.head? = some 0x0A then normalizeLines rest else 0x0A :: normalizeLines rest
    else u :: normalizeLines rest

/-- The lines of a page. -/
def linesOf (md : JsString) : List JsString := (normalizeLines md).splitOn 0x0A

/-- `join('\n')`. -/
def joinLines (lines : List JsString) : JsString := [0x0A].intercalate lines

/-- Whether a line is blank. -/
def isBlank (line : JsString) : Bool := (trim line).isEmpty

/-- `test` of a pattern that begins with `^`. -/
def matchesFront (pattern : Pattern) (line : JsString) : Bool := (exec pattern line).isSome

/-! ## Lists -/

/-- What a list emits: markup, or a text of a line that `inline` renders. A line is known by the
number of lines behind it. -/
inductive Piece where
  | markup (html : JsString)
  | text (line : ℕ) (content : JsString)

/-- What a piece adds to the page. -/
def Piece.html : Piece → JsString
  | markup html => html
  | text _ content => inline content

/-- `\d+\.` -/
def numberPattern : Pattern := .seq (.plus (.one (oneOf "0123456789"))) (lit ".")

/-- `[-*+]` -/
def bulletPattern : Pattern := .one (oneOf "-*+")

/-- Whether a list is ordered, by its first line. -/
def isOrdered (line : JsString) : Bool :=
  matchesFront (.all [.star true space, numberPattern, space]) line

/-- `itemRe`. -/
def itemPattern (indent : ℕ) : Pattern :=
  .all [.times indent space, .alt (.group 1 bulletPattern) (.group 2 numberPattern), .plus space,
    .group 3 (.star true anyUnit), .atEnd]

/-- `deeper`. -/
def isDeeper (indent : ℕ) (line : JsString) : Bool :=
  matchesFront (.all [.times indent space, .star true space, .one fun u => !isSpace u]) line

/-- `subItem`. -/
def isSubItem (indent : ℕ) (line : JsString) : Bool :=
  matchesFront (.all [.times indent space, .alt bulletPattern numberPattern, space]) line

/-- The inner loop of `parseList`: the lines that belong to an item, and the lines behind them. -/
def takeDeeper (indent : ℕ) : List JsString → List JsString × List JsString
  | [] => ([], [])
  | line :: rest =>
    if isDeeper indent line || isBlank line then
      if isBlank line && !rest.head?.any (isDeeper indent) then ([], line :: rest)
      else (line :: (takeDeeper indent rest).1, (takeDeeper indent rest).2)
    else ([], line :: rest)

/-- The list's tags around its items. -/
def wrapItems (ordered : Bool) (items : List Piece) : List Piece :=
  .markup (if ordered then js "<ol>" else js "<ul>") :: items ++
    [.markup (if ordered then js "</ol>" else js "</ul>")]

/-- Continuation lines: `map` and `join`, in front of so many other lines. -/
def continuation (others : ℕ) : List JsString → List Piece
  | [] => []
  | [line] => [.text others (trim line)]
  | line :: rest =>
    .text (rest.length + others) (trim line) :: .markup (js " ") :: continuation others rest

theorem takeDeeper_length (indent : ℕ) (lines : List JsString) :
    (takeDeeper indent lines).2.length ≤ lines.length := by
  induction lines with
  | nil => exact Nat.le_refl _
  | cons line rest ih =>
    rw [takeDeeper]
    split
    · split
      · exact Nat.le_refl _
      · exact Nat.le_succ_of_le ih
    · exact Nat.le_refl _

/-- The outer loop of `parseList`: the items at an indentation, and the lines behind them. -/
def parseItems (indent : ℕ) (lines : List JsString) : List Piece × List JsString :=
  match lines with
  | [] => ([], [])
  | line :: rest =>
    match exec (itemPattern indent) line with
    | none => ([], line :: rest)
    | some m =>
      let block := takeDeeper (indent + 2) rest
      let sub :=
        match block.1 with
        | [] => []
        | first :: _ =>
          if block.1.any (isSubItem (indent + 2)) then
            wrapItems (isOrdered first) (parseItems (indent + 2) rest).1
          else .markup (js " ") :: continuation block.2.length block.1
      let others := parseItems indent block.2
      (.markup (js "<li>") :: .text rest.length (m.group 3) :: sub ++
        .markup (js "</li>") :: others.1, others.2)
termination_by lines.length
decreasing_by
  · exact Nat.lt_succ_self _
  · exact Nat.lt_succ_of_le (takeDeeper_length _ _)

/-- `parseList`, from a first line on. -/
def parseList (indent : ℕ) (line : JsString) (rest : List JsString) : List Piece × List JsString :=
  let items := parseItems indent (line :: rest)
  (wrapItems (isOrdered line) items.1, items.2)

/-! ## Blocks -/

/-- What stands at a line, with the lines that it takes. -/
inductive Block where
  | blank
  | fence (language : JsString) (code : List JsString)
  | heading (level : ℕ) (text : JsString)
  | rule
  | quote (lines : List JsString)
  | table (head : JsString) (rows : List JsString)
  | list (pieces : List Piece)
  | paragraph

/-- The first line of a fenced code block. -/
def fencePattern : Pattern :=
  .all [lit "```", .group 1 (.star true (.one fun u => !isSpace u)), .star true space, .atEnd]

/-- The last line of a fenced code block. -/
def fenceEnd : Pattern := .all [lit "```", .star true space, .atEnd]

/-- A heading. -/
def headingPattern : Pattern :=
  .all [.group 1 (.seq (lit "#") (.upTo 5 (lit "#"))), .plus space, .group 2 (.star false anyUnit),
    .star true space, .star true (lit "#"), .star true space, .atEnd]

/-- At least three marks, with space behind each. -/
def marks (mark : String) : Pattern :=
  .seq (.times 3 (.seq (lit mark) (.star true space)))
    (.star true (.seq (lit mark) (.star true space)))

/-- A horizontal rule. -/
def rulePattern : Pattern :=
  .all [.star true space, .any (marks "-") [marks "*", marks "_"], .atEnd]

/-- A line of a quote. -/
def quotePattern : Pattern := .all [.star true space, lit ">"]

/-- What is taken off a line of a quote. -/
def quoteMark : Pattern := .all [.star true space, lit ">", .opt space]

/-- The second line of a table. -/
def separatorPattern : Pattern :=
  .all [.star true space, .opt (lit "|"), .plus (.one fun u => isSpace u || oneOf ":|-" u), lit "|",
    .star true (.one fun u => isSpace u || oneOf ":|-" u), .atEnd]

/-- The first line of a list. -/
def listPattern : Pattern :=
  .all [.star true space, .alt bulletPattern numberPattern, .plus space]

/-- The indentation of a line. -/
def indentOf (line : JsString) : ℕ := (line.takeWhile isSpace).length

/-- A line with a bar. -/
def hasBar (line : JsString) : Bool := line.any (oneOf "|")

/-- The block at a line, and the lines behind it. The branches are tried in the order of the loop of
`render`. -/
def nextBlock (line : JsString) (rest : List JsString) : Block × List JsString :=
  if isBlank line then (.blank, rest)
  else
    match exec fencePattern line with
    | some m =>
      let code := rest.takeWhile fun l => !matchesFront fenceEnd l
      (.fence (m.group 1) code, rest.drop (code.length + 1))
    | none =>
      match exec headingPattern line with
      | some m => (.heading (m.group 1).length (m.group 2), rest)
      | none =>
        if matchesFront rulePattern line then (.rule, rest)
        else if matchesFront quotePattern line then
          let quote := (line :: rest).takeWhile (matchesFront quotePattern)
          (.quote (quote.map (removeFront quoteMark)), (line :: rest).drop quote.length)
        else if hasBar line && rest.head?.any (matchesFront separatorPattern) then
          let rows := (rest.drop 1).takeWhile fun l => hasBar l && !isBlank l
          (.table line rows, rest.drop (1 + rows.length))
        else if matchesFront listPattern line then
          let list := parseList (indentOf line) line rest
          (.list list.1, list.2)
        else (.paragraph, rest)

/-! ## Pages -/

/-- An element without attributes around some HTML. -/
def element (name : String) (html : JsString) : JsString :=
  js s!"<{name}>" ++ html ++ js s!"</{name}>"

/-- The cells of a row of a table. -/
def cells (line : JsString) : List JsString :=
  let front := removeFront (.seq (.star true space) (lit "|")) line
  let inner := removeFirst (.all [lit "|", .star true space, .atEnd]) front
  (inner.splitOn 0x7C).map trim

/-- A row of a table. -/
def tableRow (name : String) (line : JsString) : JsString :=
  element "tr" ((cells line).flatMap fun cell => element name (inline cell))

/-- A line of a paragraph. -/
def paragraphLine (line : JsString) : JsString :=
  if (search (.all [space, space, .atEnd]) line).isSome then
    inline (removeFirst (.all [.plus space, .atEnd]) line) ++ js "<br>"
  else inline (trim line)

/-- `paragraphBuffer`. -/
def paragraphBuffer (lines : List JsString) : List JsString :=
  if lines = [] then [] else [element "p" (joinLines (lines.map paragraphLine))]

/-- What a block adds to the page, a quote apart. -/
def Block.html : Block → List JsString
  | blank | paragraph | quote _ => []
  | fence language code =>
    [js "<pre><code" ++
      (if language = [] then [] else js " class=\"language-" ++ escapeHtml language ++ js "\"") ++
      js ">" ++ escapeHtml (joinLines code) ++ js "</code></pre>"]
  | heading level text => [element s!"h{level}" (inline text)]
  | rule => [js "<hr>"]
  | table head rows =>
    [element "table" (element "thead" (tableRow "th" head) ++
      element "tbody" (rows.flatMap (tableRow "td")))]
  | list pieces => [pieces.flatMap Piece.html]

/-- The loop of `render`, with the lines to come, the lines of the open paragraph and the HTML so
far. -/
def renderLoop : ℕ → List JsString → List JsString → List JsString → Option (List JsString)
  | 0, _, _, _ => none
  | _ + 1, [], para, html => some (html ++ paragraphBuffer para)
  | fuel + 1, line :: rest, para, html =>
    let block := nextBlock line rest
    match block.1 with
    | .paragraph => renderLoop fuel block.2 (para ++ [line]) html
    | .quote quoted => do
      let inner ← renderLoop fuel (linesOf (joinLines quoted)) [] []
      renderLoop fuel block.2 [] (html ++ paragraphBuffer para ++
        [element "blockquote" (joinLines inner)])
    | other => renderLoop fuel block.2 [] (html ++ paragraphBuffer para ++ other.html)

/-- `render`, on some fuel. -/
def render (fuel : ℕ) (md : JsString) : Option JsString :=
  (renderLoop fuel (linesOf md) [] []).map joinLines

end Federate.Markdown
