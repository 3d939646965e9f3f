import Federate.Verif.Extraction

/-!
# Pages that opt out

A page is cut at every `<`, and each piece at its first `>`, whether these stand in quotes or not.
So a page opts out exactly when one stretch between two brackets announces it, and a meta tag that
does is honoured when no bracket stands in it before the words that say so.
-/

namespace Federate

/-! ## Stretches between brackets -/

/-- A bracket of a tag. -/
def IsBracket (c : Char) : Prop := c = '<' ∨ c = '>'

/-- A piece of a text between two separators or the ends of the text. -/
def Between (separator : Char) (chars piece : List Char) : Prop :=
  ∃ before after, chars = before ++ piece ++ after ∧ separator ∉ piece ∧
    (before = [] ∨ before.getLast? = some separator) ∧ ∀ c ∈ after.head?, c = separator

/-- A stretch of a page from its beginning or a `<` to the next bracket or the end. -/
def Stretch (chars piece : List Char) : Prop :=
  ∃ before after, chars = before ++ piece ++ after ∧ (∀ c ∈ piece, ¬IsBracket c) ∧
    (before = [] ∨ before.getLast? = some '<') ∧ ∀ c ∈ after.head?, IsBracket c

/-- A text in lowercase without white space and quotes. -/
def squeezed (chars : List Char) : List Char :=
  (chars.map Char.toLower).filter fun c =>
    !Text.isWhitespace c && c ≠ Char.ofNat 34 && c ≠ Char.ofNat 39

/-- A stretch of a page says that it is a meta tag and that the page opts out. -/
structure Announces (piece : List Char) : Prop where
  /-- It begins with the name of the tag. -/
  begins : "meta".toList <+: piece.map Char.toLower
  /-- It is addressed to robots. -/
  addressed : "name=robots".toList <:+: squeezed piece ∨ "name=federate".toList <:+: squeezed piece
  /-- It says what to do. -/
  refuses : "noindex".toList <:+: squeezed piece

/-- The pieces of a text split at a separator. -/
theorem mem_splitOn_iff {separator : Char} {chars piece : List Char} :
    piece ∈ chars.splitOn separator ↔ Between separator chars piece := by
  constructor
  · intro member
    induction size : chars.length using Nat.strong_induction_on generalizing chars with
    | h n ih =>
      by_cases separated : separator ∈ chars
      · obtain ⟨first, rest, rfl, absent⟩ := List.eq_append_cons_of_mem separated
        rw [List.splitOn_append_cons_self_of_not_mem absent] at member
        rcases List.mem_cons.mp member with rfl | later
        · exact ⟨[], separator :: rest, rfl, absent, .inl rfl,
            fun c head => by simpa using head.symm⟩
        · have shorter : rest.length < n := by
            rw [← size, List.length_append, List.length_cons]
            omega
          obtain ⟨before, after, rfl, apart, start, finish⟩ := ih rest.length shorter later rfl
          refine ⟨first ++ separator :: before, after, by simp, apart, .inr ?_, finish⟩
          rcases start with rfl | last
          · simp
          · rw [List.getLast?_append, List.getLast?_cons, last]
            rfl
      · rw [List.splitOn_eq_singleton separated, List.mem_singleton] at member
        rw [member]
        exact ⟨[], [], by simp, separated, .inl rfl, fun c head => absurd head (by simp)⟩
  · rintro ⟨before, after, rfl, absent, start, finish⟩
    have inner : piece ∈ (piece ++ after).splitOn separator := by
      cases after with
      | nil =>
        rw [List.append_nil, List.splitOn_eq_singleton absent]
        exact List.mem_singleton_self _
      | cons c after =>
        rw [finish c rfl, List.splitOn_append_cons_self_of_not_mem absent]
        exact List.mem_cons_self
    rcases start with rfl | last
    · rwa [List.nil_append]
    · obtain ⟨front, rfl⟩ := List.getLast?_eq_some_iff.mp last
      rw [List.append_assoc, List.append_assoc, List.singleton_append,
        List.splitOn_append_cons_self]
      exact List.mem_append_right _ inner

/-- What is dropped up to a character begins with it. -/
theorem eq_of_dropWhile {b c : Char} {chars rest : List Char}
    (shape : chars.dropWhile (· ≠ b) = c :: rest) : c = b := by
  have nonempty : chars.dropWhile (· ≠ b) ≠ [] := by rw [shape]; exact List.cons_ne_nil _ _
  have stops := List.head_dropWhile_not (fun d => decide (d ≠ b)) nonempty
  simp only [shape, List.head_cons] at stops
  simpa using stops

/-- Lowercasing makes no bracket. -/
theorem isBracket_toLower {c : Char} : IsBracket c.toLower ↔ IsBracket c := by
  rw [IsBracket, IsBracket, Text.toLower_eq_iff (by decide), Text.toLower_eq_iff (by decide)]

/-- What is looked for in a piece is what its part before the first `>` announces. -/
theorem tagOptsOut_iff {piece : List Char} : tagOptsOut (piece.map Char.toLower) = true ↔
    Announces (piece.takeWhile (· ≠ '>')) := by
  have lowered : (piece.map Char.toLower).takeWhile (· ≠ '>') =
      (piece.takeWhile (· ≠ '>')).map Char.toLower := by
    rw [List.takeWhile_map]
    congr 2
    funext c
    simp [Text.toLower_eq_iff (c := c) (d := '>') (by decide)]
  have name : "meta".toList.isPrefixOf (piece.map Char.toLower) =
      "meta".toList.isPrefixOf ((piece.takeWhile (· ≠ '>')).map Char.toLower) := by
    have split := List.takeWhile_append_dropWhile (p := (· ≠ '>')) (l := piece)
    cases rest : piece.dropWhile (· ≠ '>') with
    | nil => rw [rest, List.append_nil] at split; rw [split]
    | cons c rest' =>
      have bracket : c = '>' := eq_of_dropWhile rest
      have lower : Char.toLower '>' = '>' := by decide
      rw [rest, bracket] at split
      conv_lhs => rw [← split, List.map_append, List.map_cons, lower]
      exact isPrefixOf_append (by simp)
  rw [tagOptsOut, normalizedTag, lowered, name, Bool.and_eq_true, Bool.and_eq_true, Bool.or_eq_true,
    decide_eq_true_eq, decide_eq_true_eq, decide_eq_true_eq, List.isPrefixOf_iff_prefix]
  constructor
  · rintro ⟨begins, addressed, refuses⟩
    exact ⟨begins, addressed, refuses⟩
  · rintro ⟨begins, addressed, refuses⟩
    exact ⟨begins, addressed, refuses⟩

/-- The pieces of the page in lowercase are those of the page. -/
theorem between_lower_iff {chars : List Char} {P : List Char → Prop} :
    (∃ piece, Between '<' (chars.map Char.toLower) piece ∧ P piece) ↔
      ∃ piece, Between '<' chars piece ∧ P (piece.map Char.toLower) := by
  have bracket : ∀ c : Char, c.toLower = '<' ↔ c = '<' := fun c => Text.toLower_eq_iff (by decide)
  constructor
  · rintro ⟨piece, ⟨before, after, split, absent, start, finish⟩, holds⟩
    obtain ⟨front, last, rfl, first, lastMap⟩ := List.map_eq_append_iff.mp split
    obtain ⟨start', middle, rfl, startMap, middleMap⟩ := List.map_eq_append_iff.mp first
    refine ⟨middle, ⟨start', last, rfl, ?_, ?_, ?_⟩, middleMap ▸ holds⟩
    · intro member
      apply absent
      rw [← middleMap]
      exact List.mem_map.mpr ⟨'<', member, by decide⟩
    · rcases start with none | ends
      · left
        rw [none] at startMap
        exact List.map_eq_nil_iff.mp startMap
      · right
        rw [← startMap, List.getLast?_map, Option.map_eq_some_iff] at ends
        obtain ⟨c, held, same⟩ := ends
        rw [held, (bracket c).mp same]
    · intro c head
      have lowered : c.toLower ∈ after.head? := by
        rw [← lastMap, List.head?_map, Option.mem_def, head]
        rfl
      exact (bracket c).mp (finish _ lowered)
  · rintro ⟨piece, ⟨before, after, rfl, absent, start, finish⟩, holds⟩
    refine ⟨piece.map Char.toLower, ⟨before.map Char.toLower, after.map Char.toLower,
      by rw [List.map_append, List.map_append], ?_, ?_, ?_⟩, holds⟩
    · intro member
      obtain ⟨c, inside, same⟩ := List.mem_map.mp member
      exact absent ((bracket c).mp same ▸ inside)
    · rcases start with rfl | ends
      · exact .inl rfl
      · right
        rw [List.getLast?_map, ends]
        rfl
    · intro c head
      rw [List.head?_map, Option.mem_def, Option.map_eq_some_iff] at head
      obtain ⟨d, held, rfl⟩ := head
      rw [finish d held]
      decide

/-- A page opts out exactly when a stretch of it says so. -/
theorem optedOut_iff {html : String} :
    optedOut html = true ↔ ∃ piece, Stretch html.toList piece ∧ Announces piece := by
  have lower : (Text.toAsciiLowercase html).toList = html.toList.map Char.toLower := by
    rw [Text.toAsciiLowercase, Text.toList_onChars]
  have pieces : optedOut html = true ↔ ∃ piece, Between '<' (html.toList.map Char.toLower) piece ∧
      tagOptsOut piece = true := by
    rw [optedOut, lower, List.any_eq_true]
    simp only [mem_splitOn_iff]
  rw [pieces, between_lower_iff]
  simp only [tagOptsOut_iff]
  constructor
  · rintro ⟨piece, ⟨before, after, split, absent, start, finish⟩, announces⟩
    have cut := List.takeWhile_append_dropWhile (p := (· ≠ '>')) (l := piece)
    refine ⟨_, ⟨before, piece.dropWhile (· ≠ '>') ++ after, ?_, ?_, start, ?_⟩, announces⟩
    · rw [split]
      conv_lhs => rw [← cut]
      simp only [List.append_assoc]
    · rintro c member (rfl | rfl)
      · exact absent ((List.takeWhile_sublist _).subset member)
      · exact absurd (List.mem_takeWhile_imp member) (by decide)
    · intro c head
      cases rest : piece.dropWhile (· ≠ '>') with
      | nil =>
        rw [rest, List.nil_append] at head
        exact .inl (finish c head)
      | cons d rest' =>
        rw [rest, List.cons_append, List.head?_cons, Option.mem_def, Option.some.injEq] at head
        exact .inr (head ▸ eq_of_dropWhile rest)
  · rintro ⟨piece, ⟨before, after, split, plain, start, finish⟩, announces⟩
    have cut := List.takeWhile_append_dropWhile (p := (· ≠ '<')) (l := after)
    have visible : (piece ++ after.takeWhile (· ≠ '<')).takeWhile (· ≠ '>') = piece := by
      have kept : ∀ c ∈ piece, decide (c ≠ '>') = true := by
        intro c member
        have other : c ≠ '>' := fun same => plain c member (.inr same)
        simpa using other
      rw [List.takeWhile_append_of_pos kept]
      cases after with
      | nil => simp
      | cons c after =>
        rcases finish c rfl with rfl | rfl
        · simp
        · simp
    refine ⟨piece ++ after.takeWhile (· ≠ '<'), ⟨before, after.dropWhile (· ≠ '<'), ?_, ?_, start,
      ?_⟩, visible.symm ▸ announces⟩
    · rw [split]
      conv_lhs => rw [← cut]
      simp only [List.append_assoc]
    · intro member
      rcases List.mem_append.mp member with inside | later
      · exact plain '<' inside (.inl rfl)
      · exact absurd (List.mem_takeWhile_imp later) (by decide)
    · intro c head
      cases rest : after.dropWhile (· ≠ '<') with
      | nil =>
        rw [rest] at head
        exact absurd head (by simp)
      | cons d rest' =>
        rw [rest, List.head?_cons, Option.mem_def, Option.some.injEq] at head
        exact head ▸ eq_of_dropWhile rest

/-! ## Meta tags -/

/-- HTML's white space. -/
def IsBlank (c : Char) : Prop :=
  c ∈ [' ', Char.ofNat 9, Char.ofNat 10, Char.ofNat 12, Char.ofNat 13]

/-- How the value of an attribute is quoted. -/
inductive Quoting where
  | double
  | single
  | none

/-- The quotes. -/
def Quoting.mark : Quoting → List Char
  | .double => [Char.ofNat 34]
  | .single => [Char.ofNat 39]
  | .none => []

/-- The value of an attribute as it is written. -/
structure WrittenValue where
  /-- The white space before the equals sign. -/
  before : List Char
  /-- The white space behind it. -/
  after : List Char
  /-- The quotes. -/
  quoting : Quoting
  /-- The value. -/
  value : List Char

/-- An attribute as it is written. -/
structure Attribute where
  /-- What separates it from what comes before. -/
  space : List Char
  /-- Its name. -/
  name : List Char
  /-- Its value, if it has one. -/
  written : Option WrittenValue

/-- The text of an attribute up to its value. -/
def Attribute.front (a : Attribute) (w : WrittenValue) : List Char :=
  a.space ++ a.name ++ w.before ++ ['='] ++ w.after ++ w.quoting.mark

/-- The text of an attribute. -/
def Attribute.source (a : Attribute) : List Char :=
  match a.written with
  | none => a.space ++ a.name
  | some w => a.front w ++ w.value ++ w.quoting.mark

/-- The syntax of values: white space around the equals sign, and no quote inside quotes. -/
structure WrittenValue.WellFormed (w : WrittenValue) : Prop where
  /-- White space before the equals sign. -/
  before : ∀ c ∈ w.before, IsBlank c
  /-- White space behind it. -/
  after : ∀ c ∈ w.after, IsBlank c
  /-- No such quote inside. -/
  quoted : ∀ c ∈ w.quoting.mark, c ∉ w.value
  /-- Without quotes, nothing that ends the value or reads as another attribute. -/
  unquoted : w.quoting.mark = [] → w.value ≠ [] ∧ ∀ c ∈ w.value, ¬IsBlank c ∧
    c ∉ [Char.ofNat 34, Char.ofNat 39, '=', '<', '>', Char.ofNat 96]

/-- The syntax of attributes. -/
structure Attribute.WellFormed (a : Attribute) : Prop where
  /-- It stands apart from what comes before. -/
  apart : a.space ≠ [] ∧ ∀ c ∈ a.space, IsBlank c ∨ c = '/'
  /-- Its name is one word. -/
  word : a.name ≠ [] ∧ ∀ c ∈ a.name, ¬IsBlank c ∧
    c ∉ [Char.ofNat 34, Char.ofNat 39, '>', '/', '=']
  /-- Its value is written correctly. -/
  value : ∀ w ∈ a.written, w.WellFormed

/-- A meta start tag. -/
structure MetaTag where
  /-- Its name as it is spelled. -/
  spelled : List Char
  /-- Its attributes. -/
  attributes : List Attribute
  /-- What stands before its end. -/
  finish : List Char

/-- What stands between the brackets. -/
def MetaTag.body (tag : MetaTag) : List Char :=
  tag.spelled ++ tag.attributes.flatMap Attribute.source ++ tag.finish

/-- The text of the tag. -/
def MetaTag.source (tag : MetaTag) : List Char := '<' :: (tag.body ++ ['>'])

/-- An attribute that addresses robots, or this network's. -/
def Attribute.Addresses (a : Attribute) : Prop :=
  a.name.map Char.toLower = "name".toList ∧ ∃ w, a.written = some w ∧
    (w.value.map Char.toLower = "robots".toList ∨ w.value.map Char.toLower = "federate".toList)

/-- An attribute whose value refuses to be indexed, between these parts of it. -/
def Attribute.Refuses (a : Attribute) (w : WrittenValue) (first word last : List Char) : Prop :=
  a.name.map Char.toLower = "content".toList ∧ a.written = some w ∧
    w.value = first ++ word ++ last ∧ word.map Char.toLower = "noindex".toList

/-- A meta tag, in the syntax of HTML, that opts out. -/
structure MetaTag.OptsOut (tag : MetaTag) : Prop where
  /-- It is a meta tag. -/
  named : tag.spelled.map Char.toLower = "meta".toList
  /-- Its attributes are written correctly. -/
  formed : ∀ a ∈ tag.attributes, a.WellFormed
  /-- White space, or the slash of an empty element, stands before its end. -/
  finished : ∀ c ∈ tag.finish, IsBlank c ∨ c = '/'
  /-- It is addressed to robots. -/
  addresses : ∃ a ∈ tag.attributes, a.Addresses
  /-- It refuses to be indexed. -/
  refuses : ∃ a ∈ tag.attributes, ∃ w first word last, a.Refuses w first word last

/-- No bracket stands in the tag before the end of the attribute that addresses robots, nor before
the end of the word that refuses. -/
structure MetaTag.Clear (tag : MetaTag) : Prop where
  /-- None up to the end of the attribute that addresses robots. -/
  addresses : ∃ before a after, tag.attributes = before ++ a :: after ∧ a.Addresses ∧
    ∀ c ∈ before.flatMap Attribute.source ++ a.source, ¬IsBracket c
  /-- None up to the word that refuses. -/
  refuses : ∃ before a after w first word last, tag.attributes = before ++ a :: after ∧
    a.Refuses w first word last ∧
      ∀ c ∈ before.flatMap Attribute.source ++ (a.front w ++ first), ¬IsBracket c

section Squeezed

/-- Squeezing goes into the parts of a text. -/
theorem squeezed_append (first second : List Char) :
    squeezed (first ++ second) = squeezed first ++ squeezed second := by
  rw [squeezed, List.map_append, List.filter_append, ← squeezed, ← squeezed]

/-- White space disappears. -/
theorem squeezed_blank {chars : List Char} (blank : ∀ c ∈ chars, IsBlank c) :
    squeezed chars = [] := by
  have white : ∀ c, IsBlank c → Text.isWhitespace c = true := by
    intro c member
    simp only [IsBlank, List.mem_cons, List.not_mem_nil, or_false] at member
    rcases member with rfl | rfl | rfl | rfl | rfl <;> decide
  rw [squeezed, List.filter_eq_nil_iff]
  intro c member
  obtain ⟨d, inside, rfl⟩ := List.mem_map.mp member
  simp [white d (blank d inside)]

/-- Quotes disappear. -/
theorem squeezed_mark (quoting : Quoting) : squeezed quoting.mark = [] := by
  cases quoting <;> decide

/-- A word in lowercase stays. -/
theorem squeezed_word {chars word : List Char} (spelled : chars.map Char.toLower = word)
    (solid : (word.filter fun c =>
      !Text.isWhitespace c && c ≠ Char.ofNat 34 && c ≠ Char.ofNat 39) = word) :
    squeezed chars = word := by
  rw [squeezed, spelled, solid]

/-- The attribute that addresses robots, squeezed, ends with its name and value. -/
theorem Attribute.Addresses.squeezed_source {a : Attribute} (addresses : a.Addresses)
    (formed : a.WellFormed) : ∃ first, squeezed a.source = first ++ "name=robots".toList ∨
      squeezed a.source = first ++ "name=federate".toList := by
  obtain ⟨named, w, written, value⟩ := addresses
  have spaces := formed.value w written
  have name : squeezed a.name = "name".toList := squeezed_word named (by decide)
  have equals : squeezed ['='] = ['='] := by decide
  have source : squeezed a.source = squeezed a.space ++ "name=".toList ++ squeezed w.value := by
    have shape : a.source = a.front w ++ w.value ++ w.quoting.mark := by
      rw [Attribute.source, written]
    simp only [shape, Attribute.front, squeezed_append, name, equals, squeezed_mark,
      squeezed_blank spaces.before, squeezed_blank spaces.after, List.append_nil]
    simp
  refine ⟨squeezed a.space, ?_⟩
  rcases value with robots | federate
  · left
    rw [source, squeezed_word robots (by decide)]
    simp
  · right
    rw [source, squeezed_word federate (by decide)]
    simp

end Squeezed

/-- The part of a tag that the code sees: up to the first bracket, in quotes or not. -/
def MetaTag.visible (tag : MetaTag) : List Char :=
  tag.body.takeWhile fun c => decide (c ≠ '<') && decide (c ≠ '>')

section Visible

variable {tag : MetaTag} {front : List Char}

/-- A beginning of the tag without brackets is visible. -/
theorem MetaTag.prefix_visible (within : front <+: tag.body) (plain : ∀ c ∈ front, ¬IsBracket c) :
    front <+: tag.visible := by
  obtain ⟨rest, split⟩ := within
  have kept : ∀ c ∈ front, (decide (c ≠ '<') && decide (c ≠ '>')) = true := by
    intro c member
    have other := not_or.mp (plain c member)
    simp [other.1, other.2]
  rw [MetaTag.visible, ← split, List.takeWhile_append_of_pos kept]
  exact List.prefix_append _ _

/-- What is squeezed of a beginning is found in what is squeezed of the whole. -/
theorem squeezed_prefix {word chars : List Char} (within : front <+: chars)
    (first : List Char) (ends : squeezed front = first ++ word) : word <:+: squeezed chars := by
  obtain ⟨rest, rfl⟩ := within
  rw [squeezed_append, ends]
  exact List.infix_append _ _ _

/-- The name of a meta tag has no bracket. -/
theorem plain_of_word {chars word : List Char} (spelled : chars.map Char.toLower = word)
    (plain : '<' ∉ word ∧ '>' ∉ word) : ∀ c ∈ chars, ¬IsBracket c := by
  intro c member bracket
  have inside : c.toLower ∈ word := spelled ▸ List.mem_map_of_mem member
  rcases isBracket_toLower.mpr bracket with same | same
  · exact plain.1 (same ▸ inside)
  · exact plain.2 (same ▸ inside)

/-- The visible part of a clear tag announces that the page opts out. -/
theorem MetaTag.Clear.announces (optsOut : tag.OptsOut) (clear : tag.Clear) :
    Announces tag.visible := by
  have start : ∀ c ∈ tag.spelled, ¬IsBracket c := plain_of_word optsOut.named (by simp)
  constructor
  · have within : tag.spelled <+: tag.body := ⟨_, (List.append_assoc _ _ _).symm⟩
    obtain ⟨rest, split⟩ := MetaTag.prefix_visible within start
    rw [← split, List.map_append, optsOut.named]
    exact List.prefix_append _ _
  · obtain ⟨before, a, after, split, addresses, plain⟩ := clear.addresses
    have within : tag.spelled ++ (before.flatMap Attribute.source ++ a.source) <+: tag.body := by
      rw [MetaTag.body, split]
      simp [List.append_assoc]
    have seen := MetaTag.prefix_visible within fun c member =>
      (List.mem_append.mp member).elim (start c) (plain c)
    have formed := optsOut.formed a (by rw [split]; simp)
    obtain ⟨first, ends⟩ := addresses.squeezed_source formed
    rcases ends with robots | federate
    · left
      apply squeezed_prefix seen
        (squeezed tag.spelled ++ squeezed (before.flatMap Attribute.source) ++ first)
      rw [squeezed_append, squeezed_append, robots]
      simp only [List.append_assoc]
    · right
      apply squeezed_prefix seen
        (squeezed tag.spelled ++ squeezed (before.flatMap Attribute.source) ++ first)
      rw [squeezed_append, squeezed_append, federate]
      simp only [List.append_assoc]
  · obtain ⟨before, a, after, w, first, word, last, split, refuses, plain⟩ := clear.refuses
    obtain ⟨-, written, value, spelled⟩ := refuses
    have quiet : ∀ c ∈ word, ¬IsBracket c := plain_of_word spelled (by simp)
    have within : tag.spelled ++
        (before.flatMap Attribute.source ++ (a.front w ++ first) ++ word) <+: tag.body := by
      have source : a.source = a.front w ++ (first ++ word ++ last) ++ w.quoting.mark := by
        rw [Attribute.source, written, ← value]
      rw [MetaTag.body, split]
      simp [List.append_assoc, source]
    have seen := MetaTag.prefix_visible within fun c member => by
      rcases List.mem_append.mp member with here | later
      · exact start c here
      · exact (List.mem_append.mp later).elim (plain c) (quiet c)
    have stays : squeezed word = "noindex".toList := squeezed_word spelled (by decide)
    apply squeezed_prefix seen
      (squeezed tag.spelled ++ squeezed (before.flatMap Attribute.source ++ (a.front w ++ first)))
    rw [squeezed_append, squeezed_append, stays]
    simp only [List.append_assoc]

/-- The visible part of a tag is a stretch of the page. -/
theorem MetaTag.stretch {html before after : List Char}
    (written : html = before ++ tag.source ++ after) : Stretch html tag.visible := by
  have cut : tag.visible ++ tag.body.dropWhile
      (fun c => decide (c ≠ '<') && decide (c ≠ '>')) = tag.body :=
    List.takeWhile_append_dropWhile
  refine ⟨before ++ ['<'], tag.body.dropWhile (fun c => decide (c ≠ '<') && decide (c ≠ '>')) ++
    '>' :: after, ?_, ?_, .inr (by simp), ?_⟩
  · rw [written, MetaTag.source]
    conv_lhs => rw [← cut]
    simp
  · intro c member bracket
    have kept := List.mem_takeWhile_imp member
    rcases bracket with rfl | rfl
    · exact absurd kept (by decide)
    · exact absurd kept (by decide)
  · intro c head
    cases rest : tag.body.dropWhile (fun c => decide (c ≠ '<') && decide (c ≠ '>')) with
    | nil =>
      rw [rest] at head
      exact .inr (Option.some.inj head).symm
    | cons d rest' =>
      have nonempty : tag.body.dropWhile (fun c => decide (c ≠ '<') && decide (c ≠ '>')) ≠ [] := by
        rw [rest]
        exact List.cons_ne_nil _ _
      have stops := List.head_dropWhile_not _ nonempty
      simp only [rest, List.head_cons] at stops
      rw [rest, List.cons_append, List.head?_cons, Option.mem_def, Option.some.injEq] at head
      rw [head] at stops
      rw [IsBracket]
      by_contra none
      obtain ⟨left, right⟩ := not_or.mp none
      simp [left, right] at stops

end Visible

/-- The page is left out of every index. -/
def Honoured [Unicode] (page : Page) : Prop :=
  optedOut page.html = true ∧ ∀ s : SearchIndex, s.indexHtml page = some (false, s)

/-- A page that opts out is left out of every index. -/
theorem honoured_iff [Unicode] {page : Page} : Honoured page ↔ optedOut page.html = true := by
  constructor
  · intro both
    exact both.1
  · intro opted
    refine ⟨opted, fun s => ?_⟩
    rw [SearchIndex.indexHtml, if_pos opted]

/-- A page with a meta tag that opts out is left out exactly when a stretch of it, up to the next
bracket, announces that; which is so when no bracket stands in the tag before the words that say
so. -/
theorem optOut_honoured_iff [Unicode] {page : Page} {before after : List Char} {tag : MetaTag}
    (written : page.html.toList = before ++ tag.source ++ after) (optsOut : tag.OptsOut) :
    (Honoured page ↔ ∃ piece, Stretch page.html.toList piece ∧ Announces piece) ∧
      (tag.Clear → ∃ piece, Stretch page.html.toList piece ∧ Announces piece) := by
  constructor
  · rw [honoured_iff, optedOut_iff]
  · intro clear
    exact ⟨tag.visible, MetaTag.stretch written, clear.announces optsOut⟩

/-! ## Two tags -/

namespace Reference

/-- The tables for ASCII texts. -/
instance asciiUnicode : Unicode := ⟨Char.isAlphanum, Text.toAsciiLowercase⟩

/-- An attribute in double quotes. -/
def quoted (name value : String) : Attribute :=
  ⟨[' '], name.toList, some ⟨[], [], .double, value.toList⟩⟩

/-- A meta tag for robots with this content. -/
def robotsTag (content : String) : MetaTag :=
  ⟨"meta".toList, [quoted "name" "robots", quoted "content" content], []⟩

/-- Attributes in quotes are written correctly. -/
theorem quoted_wellFormed {name value : String} (word : name.toList ≠ [] ∧ ∀ c ∈ name.toList,
    ¬IsBlank c ∧ c ∉ [Char.ofNat 34, Char.ofNat 39, '>', '/', '='])
    (inside : Char.ofNat 34 ∉ value.toList) : (quoted name value).WellFormed := by
  refine ⟨⟨by simp [quoted], fun c member => .inl ?_⟩, word, fun w written => ?_⟩
  · have space : c = ' ' := by simpa [quoted] using member
    rw [space]
    exact List.mem_cons_self
  · obtain rfl : _ = w := Option.some.inj written
    refine ⟨fun c member => absurd member List.not_mem_nil,
      fun c member => absurd member List.not_mem_nil, fun c member => ?_, fun none => ?_⟩
    · have mark : c = Char.ofNat 34 := by simpa [Quoting.mark] using member
      rw [mark]
      exact inside
    · exact absurd none (by simp [Quoting.mark])

/-- The tag opts out when its content says so. -/
theorem robotsTag_optsOut {content : String} (first last : List Char)
    (inside : Char.ofNat 34 ∉ content.toList) (value : content.toList = first ++ "noindex".toList ++ last) :
    (robotsTag content).OptsOut := by
  have names : ∀ name ∈ ["name", "content"], name.toList ≠ [] ∧ ∀ c ∈ name.toList,
      ¬IsBlank c ∧ c ∉ [Char.ofNat 34, Char.ofNat 39, '>', '/', '='] := by
    simp [IsBlank]
  have tag_name : "meta".toList.map Char.toLower = "meta".toList := by decide
  have content_name : "content".toList.map Char.toLower = "content".toList := by decide
  refine ⟨tag_name, fun a member => ?_, fun c member => absurd member List.not_mem_nil,
    ⟨quoted "name" "robots", by simp [robotsTag], by decide, _, rfl, .inl (by decide)⟩,
    ⟨quoted "content" content, by simp [robotsTag], _, first, "noindex".toList, last, content_name,
      rfl, value, by decide⟩⟩
  have either : a = quoted "name" "robots" ∨ a = quoted "content" content := by
    simpa [robotsTag] using member
  rcases either with rfl | rfl
  · exact quoted_wellFormed (names _ (by simp)) (by simp)
  · exact quoted_wellFormed (names _ (by simp)) inside

/-- A page with the tag alone. -/
def robotsPage (content : String) : Page :=
  ⟨"home.fed", "/", String.ofList (robotsTag content).source⟩

/-- The plain tag is honoured. -/
theorem noindex_honoured : Honoured (robotsPage "noindex") := by
  have optsOut : (robotsTag "noindex").OptsOut :=
    robotsTag_optsOut [] [] (by simp) (by simp)
  have written : (robotsPage "noindex").html.toList = [] ++ (robotsTag "noindex").source ++ [] := by
    simp [robotsPage]
  have clear : (robotsTag "noindex").Clear := by
    constructor
    · refine ⟨[], quoted "name" "robots", _, rfl, ⟨by decide, _, rfl, .inl (by decide)⟩, ?_⟩
      simp [IsBracket, quoted, Attribute.source, Attribute.front, Quoting.mark]
    · refine ⟨[quoted "name" "robots"], quoted "content" "noindex", [], _, [], "noindex".toList, [],
        rfl, ⟨by decide, rfl, by simp, by decide⟩, ?_⟩
      simp [IsBracket, quoted, Attribute.source, Attribute.front, Quoting.mark]
  have both := optOut_honoured_iff written optsOut
  exact both.1.mpr (both.2 clear)

/-- A `>` in quotes hides the word behind it. -/
theorem comparison_not_honoured : (robotsTag "a>b, noindex").OptsOut ∧
    ¬Honoured (robotsPage "a>b, noindex") := by
  constructor
  · exact robotsTag_optsOut "a>b, ".toList [] (by simp) (by simp)
  · rw [honoured_iff]
    decide

end Reference

end Federate
