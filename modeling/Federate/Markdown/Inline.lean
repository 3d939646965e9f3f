import Federate.Library.Regex
import Mathlib.Data.List.DropRight
import Mathlib.Tactic.FinCases

/-!
# Markdown within a line

`fed-md.js` renders markdown to HTML. Texts are lists of UTF-16 code units, and each regular
expression of the script is written out. This is `inline`, which renders a line or a part of one.
-/

namespace Federate.Markdown

open Regex

/-- A string of JavaScript. -/
abbrev JsString : Type := List UInt16

/-- A regular expression of JavaScript. -/
abbrev Pattern : Type := Expr UInt16

/-- A string literal, of characters that are one code unit each. -/
def js (s : String) : JsString := s.toList.map fun c => UInt16.ofNat c.toNat

/-! ## Classes of code units -/

/-- The code units that `.` leaves out. -/
def isLineTerminator (u : UInt16) : Bool :=
  u == 0x0A || u == 0x0D || u == 0x2028 || u == 0x2029

/-- `\s`, and what `trim` removes. -/
def isSpace (u : UInt16) : Bool :=
  isLineTerminator u || u == 0x09 || u == 0x0B || u == 0x0C || u == 0x20 || u == 0xA0 ||
    u == 0x1680 || (0x2000 ≤ u && u ≤ 0x200A) || u == 0x202F || u == 0x205F || u == 0x3000 ||
    u == 0xFEFF

/-- A class of code units. -/
def oneOf (units : String) (u : UInt16) : Bool := (js units).contains u

/-- The other code units. -/
def noneOf (units : String) (u : UInt16) : Bool := !oneOf units u

/-- A literal in a pattern. -/
def lit (s : String) : Pattern := .text (js s)

/-- `\s` in a pattern. -/
def space : Pattern := .one isSpace

/-- `.` in a pattern. -/
def anyUnit : Pattern := .one fun u => !isLineTerminator u

/-- `String.prototype.trim`. -/
def trim (s : JsString) : JsString := (s.dropWhile isSpace).rdropWhile isSpace

/-! ## Helpers -/

/-- A global replacement of one code unit. -/
def replaceAll (unit : String) (replacement : String) (s : JsString) : JsString :=
  s.flatMap fun u => if js unit = [u] then js replacement else [u]

/-- `escapeHtml`. -/
def escapeHtml (s : JsString) : JsString :=
  replaceAll "'" "&#39;" <| replaceAll "\"" "&quot;" <| replaceAll ">" "&gt;" <|
    replaceAll "<" "&lt;" <| replaceAll "&" "&amp;" s

/-- A code unit in lowercase, when it is an ASCII letter. -/
def lowerUnit (u : UInt16) : UInt16 := if 0x41 ≤ u && u ≤ 0x5A then u + 0x20 else u

/-- A literal in a pattern with the flag `i`. -/
def litIgnoringCase (s : String) : Pattern :=
  .all ((js s).map fun a => .one fun u => lowerUnit u == lowerUnit a)

/-- The destinations that are let through. -/
def safePattern : Pattern :=
  .any (.all [litIgnoringCase "http", .opt (litIgnoringCase "s"), lit ":"])
    [litIgnoringCase "mailto:", lit "/", lit "./", lit "../", lit "#"]

/-- The destination that is named to be refused. -/
def scriptPattern : Pattern := litIgnoringCase "javascript:"

/-- `safeUrl`. -/
def safeUrl (url : JsString) : JsString :=
  let u := trim url
  if (exec safePattern u).isSome && !(exec scriptPattern u).isSome then u else js "#"

/-! ## Constructs -/

/-- What `inline` finds at the front of a text. -/
inductive Construct where
  | escaped (character : JsString)
  | code (text : JsString)
  | image (label src title : JsString)
  | link (label href title : JsString)
  | strong (text : JsString)
  | em (text : JsString)
  | del (text : JsString)

/-- An escaped markdown character. -/
def escapePattern : Pattern :=
  .seq (lit "\\") (.group 1 (.one (oneOf "\\`*_\x7b\x7d[]()#+-.!~|")))

/-- Inline code. -/
def codePattern : Pattern :=
  .seq (lit "`") (.all [.group 1 (.plus (.one (noneOf "`"))), lit "`"])

/-- A destination and a title in brackets, behind a label. -/
def destination : Pattern :=
  .all [lit "](", .group 2 (.plus (.one fun u => noneOf ")" u && !isSpace u)),
    .opt (.all [.plus space, lit "\"", .group 3 (.star true (.one (noneOf "\""))), lit "\""]),
    lit ")"]

/-- An image. -/
def imagePattern : Pattern :=
  .seq (lit "![") (.seq (.group 1 (.star true (.one (noneOf "]")))) destination)

/-- A link. -/
def linkPattern : Pattern :=
  .seq (lit "[") (.seq (.group 1 (.plus (.one (noneOf "]")))) destination)

/-- Text between two marks, without the code unit they are made of. -/
def markedPattern (mark unit : String) : Pattern :=
  .seq (lit mark) (.all [.group 1 (.plus (.one (noneOf unit))), lit mark])

/-- The patterns in the order in which they are tried. -/
def constructs : List (Pattern × (Match UInt16 → Construct)) :=
  [(escapePattern, fun m => .escaped (m.group 1)),
    (codePattern, fun m => .code (m.group 1)),
    (imagePattern, fun m => .image (m.group 1) (m.group 2) (m.group 3)),
    (linkPattern, fun m => .link (m.group 1) (m.group 2) (m.group 3)),
    (markedPattern "**" "*", fun m => .strong (m.group 1)),
    (markedPattern "__" "_", fun m => .strong (m.group 1)),
    (markedPattern "*" "*", fun m => .em (m.group 1)),
    (markedPattern "_" "_", fun m => .em (m.group 1)),
    (markedPattern "~~" "~", fun m => .del (m.group 1))]

/-- The construct at the front of a text, if there is one, and the text behind it. -/
def firstConstruct (rest : JsString) : Option (Construct × JsString) :=
  constructs.findSome? fun tried => (exec tried.1 rest).map fun m => (tried.2 m, m.rest)

/-- The text that is rendered within a construct. -/
def Construct.inner : Construct → JsString
  | escaped _ | code _ | image .. => []
  | link label .. => label
  | strong text | em text | del text => text

/-- Every pattern begins with a literal. -/
theorem constructs_start : ∀ tried ∈ constructs, ∃ a chars more,
    tried.1 = .seq (.text (a :: chars)) more := by
  intro tried member
  fin_cases member <;> exact ⟨_, _, _, rfl⟩

/-- What is rendered within a construct is a group. -/
theorem constructs_inner : ∀ tried ∈ constructs, ∀ m : Match UInt16, (tried.2 m).inner = [] ∨
    (tried.2 m).inner = m.group 1 := by
  intro tried member m
  fin_cases member
  all_goals first | exact .inl rfl | exact .inr rfl

/-- What stands behind a construct, and what is rendered within, is shorter. -/
theorem firstConstruct_shorter {rest after : JsString} {construct : Construct}
    (found : firstConstruct rest = some (construct, after)) :
    after.length < rest.length ∧ construct.inner.length < rest.length := by
  obtain ⟨tried, member, matched⟩ := List.exists_of_findSome?_eq_some found
  obtain ⟨m, executed, same⟩ := Option.map_eq_some_iff.mp matched
  obtain ⟨a, chars, more, starts⟩ := constructs_start tried member
  rw [starts] at executed
  obtain ⟨shorter, groups⟩ := exec_seq_shorter (text_strict a chars) executed
  rw [Prod.mk.injEq] at same
  rw [← same.1, ← same.2]
  refine ⟨shorter, ?_⟩
  rcases constructs_inner tried member m with nothing | first
  · rw [nothing]
    exact (Nat.zero_le _).trans_lt shorter
  · rw [first]
    exact groups 1

/-! ## Rendering -/

/-- The attribute of a title, when there is one. -/
def titleAttribute (title : JsString) : JsString :=
  if title = [] then [] else js " title=\"" ++ escapeHtml title ++ js "\""

/-- `inline`. -/
def inline (text : JsString) : JsString :=
  match text with
  | [] => []
  | u :: rest =>
    match _ : firstConstruct (u :: rest) with
    | none => escapeHtml [u] ++ inline rest
    | some (.escaped character, after) => escapeHtml character ++ inline after
    | some (.code code, after) =>
      js "<code>" ++ escapeHtml code ++ js "</code>" ++ inline after
    | some (.image label src title, after) =>
      js "<img src=\"" ++ escapeHtml (safeUrl src) ++ js "\" alt=\"" ++ escapeHtml label ++
        js "\"" ++ titleAttribute title ++ js ">" ++ inline after
    | some (.link label href title, after) =>
      js "<a href=\"" ++ escapeHtml (safeUrl href) ++ js "\"" ++ titleAttribute title ++ js ">" ++
        inline label ++ js "</a>" ++ inline after
    | some (.strong inner, after) =>
      js "<strong>" ++ inline inner ++ js "</strong>" ++ inline after
    | some (.em inner, after) => js "<em>" ++ inline inner ++ js "</em>" ++ inline after
    | some (.del inner, after) => js "<del>" ++ inline inner ++ js "</del>" ++ inline after
termination_by text.length
decreasing_by
  · exact Nat.lt_succ_self _
  all_goals first | exact (firstConstruct_shorter ‹_›).1 | exact (firstConstruct_shorter ‹_›).2

end Federate.Markdown
