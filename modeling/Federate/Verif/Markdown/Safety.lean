import Federate.Verif.Markdown.Termination

/-!
# What rendering writes

Text of a page reaches the output only through `escapeHtml`, within tags that the renderer writes
itself: the output is a sequence of texts without brackets and quotes and of tags of a fixed set.
Destinations go through `safeUrl` as well, and escaping is undone when an attribute is read.
-/

namespace Federate.Markdown

open Regex

/-! ## Safe HTML -/

/-- The elements that are written. -/
def elementNames : List String :=
  ["p", "h1", "h2", "h3", "h4", "h5", "h6", "hr", "br", "ul", "ol", "li", "blockquote", "table",
    "thead", "tbody", "tr", "th", "td", "pre", "code", "strong", "em", "del", "a", "img"]

/-- The attributes that are written. -/
def attributeNames : List String := ["class", "href", "src", "alt", "title"]

/-- No bracket and no double quote. -/
def IsPlain (s : JsString) : Prop := ∀ u ∈ s, u ∉ js "<>\""

instance decidableIsPlain (s : JsString) : Decidable (IsPlain s) :=
  List.decidableBAll (fun u => u ∉ js "<>\"") s

/-- The character references of `escapeHtml`. -/
def entities : List (JsString × UInt16) :=
  [(js "&amp;", 0x26), (js "&lt;", 0x3C), (js "&gt;", 0x3E), (js "&quot;", 0x22),
    (js "&#39;", 0x27)]

/-- An attribute as a browser reads it, when it has no other character references. -/
def unescapeHtml (s : JsString) : JsString :=
  match s with
  | [] => []
  | u :: rest =>
    match entities.find? fun entity => entity.1.isPrefixOf (u :: rest) with
    | some entity => entity.2 :: unescapeHtml (rest.drop (entity.1.length - 1))
    | none => u :: unescapeHtml rest
termination_by s.length
decreasing_by
  · rw [List.length_drop, List.length_cons]
    omega
  · exact Nat.lt_succ_self _

/-- A destination that runs no script: what it begins with, whatever the case of letters. -/
def SafeDestination (url : JsString) : Prop :=
  ∃ first ∈ ["#", "http:", "https:", "mailto:", "/", "./", "../"],
    js first <+: url.map lowerUnit

/-- A piece of HTML. -/
inductive Token where
  | text (content : JsString)
  | opening (name : String) (attributes : List (String × JsString))
  | closing (name : String)

/-- An attribute in a tag. -/
def attributeHtml (named : String × JsString) : JsString :=
  js " " ++ js named.1 ++ js "=\"" ++ named.2 ++ js "\""

/-- A token as it is written. -/
def Token.html : Token → JsString
  | text content => content
  | opening name attributes => js "<" ++ js name ++ attributes.flatMap attributeHtml ++ js ">"
  | closing name => js "</" ++ js name ++ js ">"

/-- An attribute is known and has no bracket and no quote in it; a destination is a safe one. -/
structure SafeAttribute (named : String × JsString) : Prop where
  /-- The attribute is one of those that are written. -/
  known : named.1 ∈ attributeNames
  /-- Its value has no bracket and no quote. -/
  plain : IsPlain named.2
  /-- Its value is a safe destination, when it is one. -/
  destination : named.1 = "href" ∨ named.1 = "src" → SafeDestination (unescapeHtml named.2)

/-- A token is plain text or a tag of a known element with safe attributes. -/
def Token.Safe : Token → Prop
  | text content => IsPlain content
  | opening name attributes =>
    name ∈ elementNames ∧ ∀ named ∈ attributes, SafeAttribute named
  | closing name => name ∈ elementNames

/-- HTML that is a sequence of safe tokens. -/
def SafeHtml (html : JsString) : Prop :=
  ∃ tokens : List Token, (∀ token ∈ tokens, token.Safe) ∧ tokens.flatMap Token.html = html

namespace SafeHtml

variable {html more : JsString}

theorem nil : SafeHtml [] := ⟨[], fun _ member => absurd member List.not_mem_nil, rfl⟩

theorem append (first : SafeHtml html) (second : SafeHtml more) : SafeHtml (html ++ more) := by
  obtain ⟨tokens, safe, same⟩ := first
  obtain ⟨others, safe', same'⟩ := second
  refine ⟨tokens ++ others, fun token member => ?_, ?_⟩
  · rcases List.mem_append.mp member with inside | inside
    · exact safe token inside
    · exact safe' token inside
  · rw [List.flatMap_append, same, same']

theorem token {token : Token} (safe : token.Safe) : SafeHtml token.html := by
  refine ⟨[token], fun other member => ?_, List.flatMap_singleton _ _⟩
  exact List.mem_singleton.mp member ▸ safe

/-- Plain text. -/
theorem text (plain : IsPlain html) : SafeHtml html :=
  token (show (Token.text html).Safe from plain)

theorem flatMap {α : Type} {f : α → JsString} {items : List α}
    (safe : ∀ item ∈ items, SafeHtml (f item)) : SafeHtml (items.flatMap f) := by
  induction items with
  | nil => exact nil
  | cons item items ih =>
    rw [List.flatMap_cons]
    exact (safe item List.mem_cons_self).append
      (ih fun other member => safe other (List.mem_cons_of_mem _ member))

/-- Lines that are joined. -/
theorem joinLines {lines : List JsString} (safe : ∀ line ∈ lines, SafeHtml line) :
    SafeHtml (joinLines lines) := by
  induction lines with
  | nil => exact nil
  | cons line lines ih =>
    have first := safe line List.mem_cons_self
    have others := ih fun other member => safe other (List.mem_cons_of_mem _ member)
    cases lines with
    | nil => simpa [Markdown.joinLines] using first
    | cons next lines =>
      have feed : SafeHtml [0x0A] := text (by decide)
      rw [Markdown.joinLines, List.intercalate_cons_cons]
      exact (first.append feed).append others

/-- A tag with attributes. -/
theorem tag {name : String} {attributes : List (String × JsString)}
    (known : name ∈ elementNames) (safe : ∀ named ∈ attributes, SafeAttribute named) :
    SafeHtml (js "<" ++ js name ++ attributes.flatMap attributeHtml ++ js ">") :=
  token (show (Token.opening name attributes).Safe from ⟨known, safe⟩)

/-- A tag without attributes. -/
theorem opening {name : String} (known : name ∈ elementNames) : SafeHtml (js s!"<{name}>") := by
  have same : js s!"<{name}>" =
      js "<" ++ js name ++ ([] : List (String × JsString)).flatMap attributeHtml ++ js ">" := by
    simp [js, toString]
  rw [same]
  exact tag known fun _ member => absurd member List.not_mem_nil

theorem closing {name : String} (known : name ∈ elementNames) : SafeHtml (js s!"</{name}>") := by
  have same : js s!"</{name}>" = js "</" ++ js name ++ js ">" := by simp [js, toString]
  rw [same]
  exact token (show (Token.closing name).Safe from known)

/-- An element around safe HTML. -/
theorem element {name : String} (known : name ∈ elementNames) (inner : SafeHtml html) :
    SafeHtml (element name html) :=
  ((opening known).append inner).append (closing known)

end SafeHtml

/-! ## Escaping -/

/-- What `escapeHtml` makes of one code unit. -/
def escapeUnit (u : UInt16) : JsString :=
  match entities.find? fun entity => entity.2 == u with
  | some entity => entity.1
  | none => [u]

theorem escapeHtml_append (s t : JsString) :
    escapeHtml (s ++ t) = escapeHtml s ++ escapeHtml t := by
  simp only [escapeHtml, replaceAll, List.flatMap_append]

/-- A code unit with a character reference is one that is replaced. -/
theorem entities_special : ∀ entity ∈ entities, entity.2 ∈ js "&<>\"'" := by decide

/-- A code unit has at most the character reference that is found. -/
theorem escapeUnit_other {u : UInt16} (other : u ∉ js "&<>\"'") : escapeUnit u = [u] := by
  have none : (entities.find? fun entity => entity.2 == u) = none := by
    rw [List.find?_eq_none]
    intro entity known same
    rw [beq_iff_eq] at same
    exact other (same ▸ entities_special entity known)
  rw [escapeUnit, none]

/-- The replacements do to a code unit what its character reference says. -/
theorem escapeHtml_singleton (u : UInt16) : escapeHtml [u] = escapeUnit u := by
  by_cases special : u ∈ js "&<>\"'"
  · have all : ∀ v ∈ js "&<>\"'", escapeHtml [v] = escapeUnit v :=
      forall_of_all (by decide)
    exact all u special
  · have units : ∀ unit ∈ ["&", "<", ">", "\"", "'"], ∀ v ∈ js unit,
        v ∈ js "&<>\"'" := by
      intro unit known
      have all : ∀ unit ∈ ["&", "<", ">", "\"", "'"], (js unit).all
          (fun v => decide (v ∈ js "&<>\"'")) = true := forall_of_all (by decide)
      exact forall_of_all (all unit known)
    have kept : ∀ unit ∈ ["&", "<", ">", "\"", "'"], ∀ replacement,
        replaceAll unit replacement [u] = [u] := by
      intro unit listed replacement
      have other : js unit ≠ [u] := by
        intro same
        exact special (units unit listed u (same ▸ List.mem_singleton_self u))
      rw [replaceAll, List.flatMap_singleton, if_neg other]
    rw [escapeUnit_other special, escapeHtml, kept "&" (by simp), kept "<" (by simp),
      kept ">" (by simp), kept "\"" (by simp), kept "'" (by simp)]

/-- The replacements work on each code unit by itself. -/
theorem escapeHtml_eq (s : JsString) : escapeHtml s = s.flatMap escapeUnit := by
  induction s with
  | nil => rfl
  | cons u s ih =>
    have split := escapeHtml_append [u] s
    rw [List.singleton_append, escapeHtml_singleton, ih] at split
    rw [split, List.flatMap_cons]

/-- Escaped text is plain. -/
theorem escapeHtml_plain (s : JsString) : IsPlain (escapeHtml s) := by
  rw [escapeHtml_eq]
  intro u member
  obtain ⟨v, -, inside⟩ := List.mem_flatMap.mp member
  rw [escapeUnit] at inside
  split at inside
  · rename_i entity found
    have known : entity ∈ entities := List.mem_of_find?_eq_some found
    have all : ∀ entity ∈ entities, entity.1.all (fun u => decide (u ∉ js "<>\"")) = true :=
      forall_of_all (by decide)
    exact forall_of_all (all entity known) u inside
  · rename_i none
    rw [List.mem_singleton.mp inside]
    intro special
    have every : ∀ v ∈ js "<>\"", (entities.find? fun entity => entity.2 == v).isSome = true :=
      forall_of_all (by decide)
    have some := every v special
    rw [none] at some
    cases some

/-- A character reference is found where it was written. -/
theorem find_entity {entity : JsString × UInt16} (known : entity ∈ entities) (rest : JsString) :
    (entities.find? fun other => other.1.isPrefixOf (entity.1 ++ rest)) = some entity := by
  have isFound : (entities.find? fun other => other.1.isPrefixOf (entity.1 ++ rest)).isSome := by
    rw [List.find?_isSome]
    exact ⟨entity, known, List.isPrefixOf_iff_prefix.mpr (List.prefix_append _ _)⟩
  obtain ⟨other, found⟩ := Option.isSome_iff_exists.mp isFound
  have holds := List.find?_some found
  have front := List.isPrefixOf_iff_prefix.mp holds
  have apart : ∀ a ∈ entities, ∀ b ∈ entities, a.1 <+: b.1 ∨ b.1 <+: a.1 → a = b := by decide
  have compared := List.prefix_or_prefix_of_prefix front (List.prefix_append entity.1 rest)
  rw [found, apart other (List.mem_of_find?_eq_some found) entity known compared]

/-- An escaped text is read back. -/
theorem unescapeHtml_escapeHtml (s : JsString) : unescapeHtml (escapeHtml s) = s := by
  rw [escapeHtml_eq]
  induction s with
  | nil => rw [List.flatMap_nil, unescapeHtml]
  | cons u s ih =>
    rw [List.flatMap_cons]
    by_cases special : u ∈ js "&<>\"'"
    · have all : ∀ v ∈ js "&<>\"'",
          entities.any fun entity => entity.1 == escapeUnit v && entity.2 == v :=
        forall_of_all (by decide)
      have starts : ∀ entity ∈ entities, ∃ a chars, entity.1 = a :: chars := by
        intro entity known
        fin_cases known <;> exact ⟨_, _, rfl⟩
      obtain ⟨entity, known, both⟩ := List.any_eq_true.mp (all u special)
      have written : entity.1 = escapeUnit u := by simp_all
      have unit : entity.2 = u := by simp_all
      obtain ⟨a, chars, shape⟩ := starts entity known
      have found := find_entity known (s.flatMap escapeUnit)
      rw [← written]
      rw [shape, List.cons_append] at found ⊢
      rw [unescapeHtml, found]
      simp only [shape, List.length_cons, Nat.add_sub_cancel, List.drop_left, ih, unit]
    · have none : (entities.find? fun entity =>
          entity.1.isPrefixOf (u :: s.flatMap escapeUnit)) = none := by
        rw [List.find?_eq_none]
        intro entity known front
        have starts : ∀ entity ∈ entities, ∃ chars, entity.1 = 0x26 :: chars := by
          intro entity known
          fin_cases known <;> exact ⟨_, rfl⟩
        obtain ⟨chars, shape⟩ := starts entity known
        rw [shape] at front
        obtain ⟨rest, same⟩ := List.isPrefixOf_iff_prefix.mp front
        rw [List.cons_append, List.cons.injEq] at same
        exact special (same.1 ▸ by decide)
      rw [escapeUnit_other special, List.singleton_append, unescapeHtml, none]
      simp only [ih]

/-! ## Destinations -/

/-- A literal is matched whatever the case of letters. -/
theorem mem_ways_litIgnoringCase {s : String} {m next : Match UInt16}
    (way : next ∈ ways (litIgnoringCase s) m) :
    m.rest.map lowerUnit = (js s).map lowerUnit ++ next.rest.map lowerUnit := by
  rw [litIgnoringCase] at way
  generalize js s = chars at way ⊢
  induction chars generalizing m with
  | nil =>
    rw [List.mem_singleton.mp way]
    rfl
  | cons a chars ih =>
    rw [List.map_cons, ways_all_cons] at way
    obtain ⟨middle, first, later⟩ := List.mem_flatMap.mp way
    rw [ways] at first
    split at first
    · cases first
    · rename_i u rest shape
      split at first
      · rename_i same
        rw [List.mem_singleton.mp first] at later
        rw [shape, List.map_cons, List.map_cons, ih later, beq_iff_eq.mp same, List.cons_append]
      · cases first

/-- A literal is matched whatever the case of letters. -/
theorem mem_ways_lit {s : String} {m next : Match UInt16} (way : next ∈ ways (lit s) m) :
    m.rest.map lowerUnit = (js s).map lowerUnit ++ next.rest.map lowerUnit := by
  rw [(mem_ways_text.mp way).1, List.map_append]

/-- What is let through is a safe destination. -/
theorem safePattern_safe {url : JsString} (safe : (exec safePattern url).isSome = true) :
    SafeDestination url := by
  obtain ⟨m, way⟩ := exec_isSome_iff.mp safe
  have starts (first : String) (listed : first ∈ ["#", "http:", "https:", "mailto:", "/", "./",
      "../"]) (lower : (js first).map lowerUnit = js first)
      (split : url.map lowerUnit = (js first).map lowerUnit ++ m.rest.map lowerUnit) :
      SafeDestination url := by
    refine ⟨first, listed, ?_⟩
    rw [split, lower]
    exact List.prefix_append _ _
  simp only [safePattern, Expr.any, ways_alt, List.mem_append] at way
  rcases way with http | mailto | slash | here | up | fragment
  · obtain ⟨first, protocol, later⟩ := List.mem_flatMap.mp http
    obtain ⟨second, secure, last⟩ := List.mem_flatMap.mp later
    obtain ⟨third, colon, ends⟩ := List.mem_flatMap.mp last
    have same : m = third := List.mem_singleton.mp ends
    have http := mem_ways_litIgnoringCase protocol
    have bound := mem_ways_lit colon
    rw [← same] at bound
    rw [Expr.opt, ways_alt, List.mem_append, ways_empty, List.mem_singleton] at secure
    rcases secure with withS | plain
    · have letter := mem_ways_litIgnoringCase withS
      refine starts "https:" (by simp) (by decide) ?_
      rw [http, letter, bound]
      rfl
    · refine starts "http:" (by simp) (by decide) ?_
      rw [http, ← plain, bound]
      rfl
  · exact starts "mailto:" (by simp) (by decide) (mem_ways_litIgnoringCase mailto)
  · exact starts "/" (by simp) (by decide) (mem_ways_lit slash)
  · exact starts "./" (by simp) (by decide) (mem_ways_lit here)
  · exact starts "../" (by simp) (by decide) (mem_ways_lit up)
  · exact starts "#" (by simp) (by decide) (mem_ways_lit fragment)

/-- A destination that is written is a safe one. -/
theorem safeUrl_safe (url : JsString) : SafeDestination (safeUrl url) := by
  rw [safeUrl]
  split
  · rename_i passes
    rw [Bool.and_eq_true] at passes
    exact safePattern_safe passes.1
  · exact ⟨"#", by simp, by decide⟩

/-! ## Lines -/

/-- What `inline` writes for a construct. -/
def Construct.html : Construct → JsString
  | escaped character => escapeHtml character
  | code text => element "code" (escapeHtml text)
  | image label src title =>
    js "<img src=\"" ++ escapeHtml (safeUrl src) ++ js "\" alt=\"" ++ escapeHtml label ++ js "\"" ++
      titleAttribute title ++ js ">"
  | link label href title =>
    js "<a href=\"" ++ escapeHtml (safeUrl href) ++ js "\"" ++ titleAttribute title ++ js ">" ++
      inline label ++ js "</a>"
  | strong text => element "strong" (inline text)
  | em text => element "em" (inline text)
  | del text => element "del" (inline text)

/-- A construct is written, and the text behind it. -/
theorem inline_some {u : UInt16} {rest after : JsString} {construct : Construct}
    (found : firstConstruct (u :: rest) = some (construct, after)) :
    inline (u :: rest) = construct.html ++ inline after := by
  rw [inline]
  split
  · rename_i none
    rw [found] at none
    cases none
  all_goals
    rename_i same
    rw [found] at same
    cases same
    rfl

/-- A code unit at which no construct begins is escaped. -/
theorem inline_none {u : UInt16} {rest : JsString} (found : firstConstruct (u :: rest) = none) :
    inline (u :: rest) = escapeHtml [u] ++ inline rest := by
  rw [inline]
  split
  · rfl
  all_goals
    rename_i same
    rw [found] at same
    cases same

/-- An attribute by its name and its value. -/
theorem SafeAttribute.of {name : String} {value : JsString} (known : name ∈ attributeNames)
    (plain : IsPlain value)
    (destination : name = "href" ∨ name = "src" → SafeDestination (unescapeHtml value)) :
    SafeAttribute (name, value) :=
  ⟨known, plain, destination⟩

/-- An escaped value of an attribute that is no destination. -/
theorem escaped_attribute {name : String} (known : name ∈ attributeNames)
    (other : ¬(name = "href" ∨ name = "src")) (value : JsString) :
    SafeAttribute (name, escapeHtml value) :=
  .of known (escapeHtml_plain value) fun named => absurd named other

/-- An escaped destination. -/
theorem escaped_destination {name : String} (known : name ∈ attributeNames) (url : JsString) :
    SafeAttribute (name, escapeHtml (safeUrl url)) := by
  have plain : IsPlain (escapeHtml (safeUrl url)) := escapeHtml_plain (safeUrl url)
  have same : unescapeHtml (escapeHtml (safeUrl url)) = safeUrl url :=
    unescapeHtml_escapeHtml (safeUrl url)
  have safe : SafeDestination (unescapeHtml (escapeHtml (safeUrl url))) := by
    rw [same]
    exact safeUrl_safe url
  exact .of known plain fun _ => safe

/-- The attributes of a title. -/
def titleAttributes (title : JsString) : List (String × JsString) :=
  if title = [] then [] else [("title", escapeHtml title)]

theorem titleAttribute_eq (title : JsString) :
    titleAttribute title = (titleAttributes title).flatMap attributeHtml := by
  rw [titleAttribute, titleAttributes]
  by_cases empty : title = []
  · rw [if_pos empty, if_pos empty, List.flatMap_nil]
  · have front : js " title=\"" = js " " ++ js "title" ++ js "=\"" := by decide
    rw [if_neg empty, if_neg empty, List.flatMap_singleton, attributeHtml, front]

theorem titleAttributes_safe (title : JsString) :
    ∀ named ∈ titleAttributes title, SafeAttribute named := by
  intro named member
  rw [titleAttributes] at member
  split at member
  · cases member
  · rw [List.mem_singleton.mp member]
    exact escaped_attribute (by decide) (by decide) title

/-- A tag with a first attribute, a second one and a title. -/
theorem tag_safe {name : String} (known : name ∈ elementNames)
    {attributes : List (String × JsString)} (safe : ∀ named ∈ attributes, SafeAttribute named)
    (title : JsString) : SafeHtml (js "<" ++ js name ++ attributes.flatMap attributeHtml ++
      titleAttribute title ++ js ">") := by
  have all : ∀ named ∈ attributes ++ titleAttributes title, SafeAttribute named := by
    intro named member
    rcases List.mem_append.mp member with inside | last
    · exact safe named inside
    · exact titleAttributes_safe title named last
  have whole := SafeHtml.tag known all
  rw [List.flatMap_append, ← titleAttribute_eq, ← List.append_assoc] at whole
  exact whole

/-- A construct is safe when the text within is rendered safely. -/
theorem construct_safe (construct : Construct) (inner : SafeHtml (inline construct.inner)) :
    SafeHtml construct.html := by
  cases construct with
  | escaped character => exact .text (escapeHtml_plain character)
  | code text => exact .element (by decide) (.text (escapeHtml_plain text))
  | image label src title =>
    have attributes : ∀ named ∈ [("src", escapeHtml (safeUrl src)), ("alt", escapeHtml label)],
        SafeAttribute named := by
      intro named member
      rcases List.mem_pair.mp member with first | second
      · exact first ▸ escaped_destination (by decide) src
      · exact second ▸ escaped_attribute (by decide) (by decide) label
    have whole := tag_safe (show "img" ∈ elementNames by decide) attributes title
    have front : js "<img src=\"" = js "<" ++ js "img" ++ (js " " ++ js "src" ++ js "=\"") := by
      decide
    have middle : js "\" alt=\"" = js "\"" ++ (js " " ++ js "alt" ++ js "=\"") := by decide
    rw [Construct.html, front, middle]
    simpa only [attributeHtml, List.flatMap_cons, List.flatMap_nil, List.append_nil,
      List.append_assoc] using whole
  | link label href title =>
    have attributes : ∀ named ∈ [("href", escapeHtml (safeUrl href))], SafeAttribute named := by
      intro named member
      exact List.mem_singleton.mp member ▸ escaped_destination (by decide) href
    have whole := tag_safe (show "a" ∈ elementNames by decide) attributes title
    have front : js "<a href=\"" = js "<" ++ js "a" ++ (js " " ++ js "href" ++ js "=\"") := by
      decide
    have opens : SafeHtml (js "<a href=\"" ++ escapeHtml (safeUrl href) ++ js "\"" ++
        titleAttribute title ++ js ">") := by
      rw [front]
      simpa only [attributeHtml, List.flatMap_cons, List.flatMap_nil, List.append_nil,
        List.append_assoc] using whole
    have closes := @SafeHtml.closing "a" (by decide)
    exact (opens.append inner).append closes
  | strong text => exact .element (by decide) inner
  | em text => exact .element (by decide) inner
  | del text => exact .element (by decide) inner

/-- What `inline` writes is safe. -/
theorem inline_safe (text : JsString) : SafeHtml (inline text) := by
  induction size : text.length using Nat.strong_induction_on generalizing text with
  | _ n ih =>
    cases text with
    | nil =>
      rw [inline]
      exact .nil
    | cons u rest =>
      rw [List.length_cons] at size
      cases found : firstConstruct (u :: rest) with
      | none =>
        rw [inline_none found]
        exact (SafeHtml.text (escapeHtml_plain [u])).append (ih rest.length (by omega) rest rfl)
      | some pair =>
        obtain ⟨construct, after⟩ := pair
        obtain ⟨behind, within⟩ := firstConstruct_shorter found
        rw [List.length_cons] at behind within
        rw [inline_some found]
        have inner := ih construct.inner.length (by omega) _ rfl
        exact (construct_safe construct inner).append (ih after.length (by omega) after rfl)

/-! ## Lists -/

/-- The pieces are safe. -/
def SafePieces (pieces : List Piece) : Prop := ∀ piece ∈ pieces, SafeHtml piece.html

theorem SafePieces.append {pieces more : List Piece} (first : SafePieces pieces)
    (second : SafePieces more) : SafePieces (pieces ++ more) := by
  intro piece member
  rcases List.mem_append.mp member with inside | inside
  · exact first piece inside
  · exact second piece inside

theorem SafePieces.cons {piece : Piece} {pieces : List Piece} (first : SafeHtml piece.html)
    (others : SafePieces pieces) : SafePieces (piece :: pieces) := by
  intro other member
  rcases List.mem_cons.mp member with here | later
  · exact here ▸ first
  · exact others other later

theorem SafePieces.nil : SafePieces [] := fun _ member => absurd member List.not_mem_nil

theorem wrapItems_safe (ordered : Bool) {items : List Piece} (safe : SafePieces items) :
    SafePieces (wrapItems ordered items) := by
  have opens : SafeHtml (if ordered then js "<ol>" else js "<ul>") := by
    split
    · exact @SafeHtml.opening "ol" (by decide)
    · exact @SafeHtml.opening "ul" (by decide)
  have closes : SafeHtml (if ordered then js "</ol>" else js "</ul>") := by
    split
    · exact @SafeHtml.closing "ol" (by decide)
    · exact @SafeHtml.closing "ul" (by decide)
  exact .cons opens (safe.append (.cons closes .nil))

theorem continuation_safe (others : ℕ) (lines : List JsString) :
    SafePieces (continuation others lines) := by
  induction lines with
  | nil => exact .nil
  | cons line rest ih =>
    cases rest with
    | nil => exact .cons (inline_safe _) .nil
    | cons next rest =>
      have blank : SafeHtml (js " ") := .text (by decide)
      exact .cons (inline_safe _) (.cons blank ih)

theorem parseItems_safe (indent : ℕ) (lines : List JsString) :
    SafePieces (parseItems indent lines).1 := by
  induction size : lines.length using Nat.strong_induction_on generalizing indent lines with
  | _ n ih =>
    cases lines with
    | nil =>
      rw [parseItems]
      exact .nil
    | cons line rest =>
      rw [List.length_cons] at size
      cases item : exec (itemPattern indent) line with
      | none =>
        rw [parseItems_none item]
        exact .nil
      | some m =>
        have block := takeDeeper_length (indent + 2) rest
        have others := ih (takeDeeper (indent + 2) rest).2.length (by omega) indent _ rfl
        have nested := ih rest.length (by omega) (indent + 2) rest rfl
        have sub : SafePieces (subPieces indent rest) := by
          rw [subPieces]
          split
          · exact .nil
          · split
            · exact wrapItems_safe _ nested
            · have blank : SafeHtml (js " ") := .text (by decide)
              exact .cons blank (continuation_safe _ _)
        have opens := @SafeHtml.opening "li" (by decide)
        have closes := @SafeHtml.closing "li" (by decide)
        rw [parseItems_some item]
        exact .cons opens (.cons (inline_safe _) (sub.append (.cons closes others)))

/-! ## Blocks -/

/-- A heading has a level from one to six. -/
theorem heading_level {line : JsString} {m : Match UInt16}
    (found : exec headingPattern line = some m) :
    1 ≤ (m.group 1).length ∧ (m.group 1).length ≤ 6 := by
  obtain ⟨marks, first, later⟩ := List.mem_flatMap.mp (List.mem_of_mem_head? found)
  have kept : m.group 1 = marks.group 1 := group_unchanged _ (by decide) later
  rw [ways_group] at first
  obtain ⟨next, inside, same⟩ := List.mem_map.mp first
  obtain ⟨middle, one, more⟩ := List.mem_flatMap.mp inside
  have mark : line.length = (js "#" ++ middle.rest).length :=
    congrArg List.length (mem_ways_text.mp one).1
  have most := upTo_text_length more
  have least := (ways_consumes _ more).suffix.length_le
  have single : (js "#").length = 1 := rfl
  have group : marks.group 1 = between line next.rest := by
    rw [← same]
    rfl
  rw [List.length_append, single] at mark
  rw [single] at most
  rw [kept, group, between, List.length_take]
  omega

/-- A heading's level is that of its line. -/
theorem nextBlock_heading {line : JsString} {rest : List JsString} {level : ℕ} {text : JsString}
    (heading : (nextBlock line rest).1 = .heading level text) : 1 ≤ level ∧ level ≤ 6 := by
  unfold nextBlock at heading
  by_cases blank : isBlank line = true
  · simp [blank] at heading
  cases fence : exec fencePattern line with
  | some m => simp [blank, fence] at heading
  | none =>
    cases head : exec headingPattern line with
    | some m =>
      simp only [blank, fence, head, if_false, Bool.false_eq_true, Block.heading.injEq] at heading
      exact heading.1 ▸ heading_level head
    | none =>
      simp only [blank, fence, head, if_false, Bool.false_eq_true] at heading
      split at heading
      · cases heading
      · split at heading
        · cases heading
        · split at heading
          · cases heading
          · split at heading <;> cases heading

/-- The names of the headings. -/
theorem heading_known {level : ℕ} (bounds : 1 ≤ level ∧ level ≤ 6) :
    s!"h{level}" ∈ elementNames := by
  have all : ∀ n ∈ [1, 2, 3, 4, 5, 6], s!"h{n}" ∈ elementNames := by decide
  exact all level (by simp; omega)

theorem tableRow_safe {name : String} (known : name ∈ elementNames) (line : JsString) :
    SafeHtml (tableRow name line) :=
  .element (by decide) (.flatMap fun cell _ => .element known (inline_safe cell))

theorem paragraphBuffer_safe (lines : List JsString) :
    ∀ html ∈ paragraphBuffer lines, SafeHtml html := by
  intro html member
  rw [paragraphBuffer] at member
  split at member
  · cases member
  rw [List.mem_singleton.mp member]
  refine .element (by decide) (.joinLines fun written listed => ?_)
  obtain ⟨line, -, same⟩ := List.mem_map.mp listed
  rw [← same, paragraphLine]
  split
  · exact (inline_safe _).append (@SafeHtml.opening "br" (by decide))
  · exact inline_safe _

/-- The tag of a fenced code block, with its language. -/
theorem fence_safe (language : JsString) : SafeHtml (js "<pre><code" ++
    (if language = [] then [] else js " class=\"language-" ++ escapeHtml language ++ js "\"") ++
    js ">") := by
  have pre : SafeHtml (js "<pre>") := @SafeHtml.opening "pre" (by decide)
  have known : "code" ∈ elementNames := by decide
  by_cases empty : language = []
  · have code := @SafeHtml.opening "code" known
    have split : js "<pre><code" ++ js ">" = js "<pre>" ++ js "<code>" := by decide
    rw [if_pos empty, List.append_nil, split]
    exact pre.append code
  · have plain : IsPlain (js "language-" ++ escapeHtml language) := by
      intro u member
      have front : IsPlain (js "language-") := by decide
      rcases List.mem_append.mp member with inside | inside
      · exact front u inside
      · exact escapeHtml_plain language u inside
    have safe : ∀ named ∈ [("class", js "language-" ++ escapeHtml language)],
        SafeAttribute named := by
      intro named member
      rw [List.mem_singleton.mp member]
      have listed : "class" ∈ attributeNames := by decide
      have other : ¬("class" = "href" ∨ "class" = "src") := by decide
      exact ⟨listed, plain, fun destination => absurd destination other⟩
    have code := SafeHtml.tag known safe
    have front : js "<pre><code" = js "<pre>" ++ (js "<" ++ js "code") := by decide
    have middle : js " class=\"language-" =
        js " " ++ js "class" ++ js "=\"" ++ js "language-" := by decide
    rw [if_neg empty, front, middle]
    simpa only [attributeHtml, List.flatMap_cons, List.flatMap_nil, List.append_nil,
      List.append_assoc] using pre.append code

/-- What a block adds is safe. -/
theorem block_safe (line : JsString) (rest : List JsString) :
    ∀ html ∈ (nextBlock line rest).1.html, SafeHtml html := by
  cases found : (nextBlock line rest).1 with
  | blank | paragraph | quote quoted => exact fun html member => absurd member List.not_mem_nil
  | fence language code =>
    intro html member
    rw [List.mem_singleton.mp member]
    have closes : SafeHtml (js "</code></pre>") :=
      (@SafeHtml.closing "code" (by decide)).append (@SafeHtml.closing "pre" (by decide))
    exact ((fence_safe language).append (.text (escapeHtml_plain _))).append closes
  | heading level text =>
    intro html member
    rw [List.mem_singleton.mp member]
    exact .element (heading_known (nextBlock_heading found)) (inline_safe text)
  | rule =>
    intro html member
    rw [List.mem_singleton.mp member]
    exact @SafeHtml.opening "hr" (by decide)
  | table head rows =>
    intro html member
    rw [List.mem_singleton.mp member]
    have body := SafeHtml.flatMap fun row (_ : row ∈ rows) =>
      tableRow_safe (show "td" ∈ elementNames by decide) row
    have heads := tableRow_safe (show "th" ∈ elementNames by decide) head
    exact .element (by decide) ((SafeHtml.element (by decide) heads).append
      (.element (by decide) body))
  | list pieces =>
    intro html member
    rw [List.mem_singleton.mp member]
    rcases nextBlock_cases line rest with ⟨-, -, other⟩ | ⟨-, quote⟩ | ⟨-, list⟩
    · exact absurd found (other pieces)
    · rw [quote] at found
      cases found
    · rw [list] at found
      rw [← Block.list.inj found]
      exact .flatMap (wrapItems_safe _ (parseItems_safe _ _))

/-- What the loop has written stays safe. -/
theorem renderLoop_safe {fuel : ℕ} {lines para html out : List JsString}
    (safe : ∀ written ∈ html, SafeHtml written)
    (rendered : renderLoop fuel lines para html = some out) :
    ∀ written ∈ out, SafeHtml written := by
  induction fuel generalizing lines para html out with
  | zero => cases rendered
  | succ fuel ih =>
    have flushed : ∀ more : List JsString, (∀ written ∈ more, SafeHtml written) →
        ∀ written ∈ html ++ paragraphBuffer para ++ more, SafeHtml written := by
      intro more others written member
      rcases List.mem_append.mp member with inside | last
      · rcases List.mem_append.mp inside with before | paragraph
        · exact safe written before
        · exact paragraphBuffer_safe para written paragraph
      · exact others written last
    cases lines with
    | nil =>
      have same : html ++ paragraphBuffer para ++ [] = out := by
        rw [List.append_nil]
        exact Option.some.inj rendered
      exact same ▸ flushed [] fun _ member => absurd member List.not_mem_nil
    | cons line rest =>
      rcases block_cases (nextBlock line rest).1 with paragraph | ⟨quoted, quote⟩ | other
      · rw [renderLoop_paragraph paragraph] at rendered
        exact ih safe rendered
      · obtain ⟨inner, within, behind⟩ := (renderLoop_quote quote).mp rendered
        have inside := ih (fun _ member => absurd member List.not_mem_nil) within
        refine ih (flushed _ fun written member => ?_) behind
        rw [List.mem_singleton.mp member]
        exact .element (by decide) (.joinLines inside)
      · rw [renderLoop_other other] at rendered
        exact ih (flushed _ (block_safe line rest)) rendered

/-- What a page is rendered to is a sequence of plain texts and of tags of the renderer, with safe
attributes and destinations. -/
theorem render_safe (md : JsString) (fuel : ℕ) (html : JsString)
    (rendered : render fuel md = some html) : SafeHtml html := by
  obtain ⟨out, looped, same⟩ := Option.map_eq_some_iff.mp rendered
  rw [← same]
  exact .joinLines (renderLoop_safe (fun _ member => absurd member List.not_mem_nil) looped)

end Federate.Markdown

namespace Federate.Reference

open Markdown Regex

/-- A link to a script. -/
def scriptLink : JsString := js "[a](javascript:x)"

/-- The link is rendered without its destination. -/
theorem scriptLink_rendered :
    render 3 scriptLink = some (js "<p><a href=\"#\">a</a></p>") := by
  have lines : linesOf scriptLink = [scriptLink] := by decide
  have fence : exec fencePattern scriptLink = none := rfl
  have heading : exec headingPattern scriptLink = none := rfl
  have flags : isBlank scriptLink = false ∧ matchesFront rulePattern scriptLink = false ∧
      matchesFront quotePattern scriptLink = false ∧ hasBar scriptLink = false ∧
      matchesFront listPattern scriptLink = false := by decide
  have block : nextBlock scriptLink [] = (.paragraph, []) := by
    rw [nextBlock, fence, heading]
    simp [flags]
  have found : firstConstruct scriptLink =
      some (.link (js "a") (js "javascript:x") [], []) := rfl
  have label : Markdown.inline (js "a") = js "a" := by
    have plain : Markdown.inline (js "a") = escapeHtml (js "a") ++ Markdown.inline [] :=
      inline_none rfl
    rw [plain, Markdown.inline]
    decide
  have written : Markdown.inline scriptLink = js "<a href=\"#\">a</a>" := by
    have link : Markdown.inline scriptLink =
        (Construct.link (js "a") (js "javascript:x") []).html ++ Markdown.inline [] :=
      inline_some found
    rw [link, Construct.html, label, Markdown.inline]
    decide
  have noBreak : (search (.all [space, space, .atEnd]) scriptLink).isSome = false := by decide
  have trimmed : trim scriptLink = scriptLink := by decide
  have paragraph : paragraphLine scriptLink = js "<a href=\"#\">a</a>" := by
    rw [paragraphLine, noBreak, trimmed, written]
    rfl
  have looped : renderLoop 3 [scriptLink] [] [] =
      some [element "p" (joinLines [js "<a href=\"#\">a</a>"])] := by
    rw [renderLoop_paragraph (congrArg Prod.fst block), block, ← paragraph]
    rfl
  rw [render, lines, looped]
  decide

/-- A link to a script is rendered safely. -/
theorem scriptLink_safe : SafeHtml (js "<p><a href=\"#\">a</a></p>") :=
  render_safe scriptLink 3 _ scriptLink_rendered

end Federate.Reference
