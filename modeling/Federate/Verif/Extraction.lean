import Federate.Library.Case
import Federate.Search

/-!
# The text of a page

The loop over the bytes of a page is a reading of its characters with two flags. On a document of
text, tags, and script and style elements it yields the text and a space for each tag, as long as no
piece of the document misleads it: a `<` in a text or in the content of an element, or a tag whose
name begins like a script's or a style's.
-/

namespace Federate

/-! ## The loop over bytes -/

/-- The text that a reading with two flags yields. -/
def readText : Bool → Bool → List Char → List Char
  | _, _, [] => []
  | inTag, skipBlock, c :: rest =>
    if !inTag && c == '<' then
      readText true (blockFrom skipBlock ((c :: rest).map Char.toLower)) rest
    else if inTag && c == '>' then ' ' :: readText false skipBlock rest
    else if !inTag && !skipBlock then c :: readText inTag skipBlock rest
    else readText inTag skipBlock rest

/-- The number of bytes of characters. -/
def byteSize (chars : List Char) : ℕ := (chars.map Char.utf8Size).sum

/-- The number of bytes of two parts. -/
theorem byteSize_append (first second : List Char) :
    byteSize (first ++ second) = byteSize first + byteSize second := by
  simp [byteSize]

/-- Lowercasing keeps the size of a character. -/
theorem utf8Size_toLower (c : Char) : c.toLower.utf8Size = c.utf8Size := by
  have code := Text.toNat_toLower c
  have single : ∀ d : Char, d.toNat < 128 → d.utf8Size = 1 := fun d small =>
    Char.utf8Size_eq_one_iff.mpr (UInt32.le_iff_toNat_le.mpr (Nat.le_of_lt_succ small))
  by_cases upper : 65 ≤ c.toNat ∧ c.toNat ≤ 90
  · rw [if_pos upper] at code
    rw [single c (by omega), single c.toLower (by omega)]
  · rw [if_neg upper] at code
    have same : c.toLower = c := by rw [← Char.ofNat_toNat c.toLower, code, Char.ofNat_toNat]
    rw [same]

/-- Lowercasing keeps the number of bytes. -/
theorem byteSize_lower (chars : List Char) :
    byteSize (chars.map Char.toLower) = byteSize chars := by
  rw [byteSize, byteSize, List.map_map]
  congr 1
  exact List.map_congr_left fun c _ => utf8Size_toLower c

/-- A slice at the end of some characters. -/
theorem sliceFrom_append (first second : List Char) :
    sliceFrom (first ++ second) (byteSize first) = some second := by
  induction first with
  | nil => cases second <;> rfl
  | cons c first ih =>
    have size : byteSize (c :: first) = c.utf8Size + byteSize first := by simp [byteSize]
    have positive := c.utf8Size_pos
    obtain ⟨n, shape⟩ : ∃ n, byteSize (c :: first) = n + 1 := ⟨byteSize (c :: first) - 1, by omega⟩
    have rest : n + 1 - c.utf8Size = byteSize first := by omega
    rw [List.cons_append, shape, sliceFrom, if_neg (by omega), rest, ih]

/-- A slice of the text in lowercase. -/
theorem sliceFrom_lower (first second : List Char) :
    sliceFrom ((first ++ second).map Char.toLower) (byteSize first) =
      some (second.map Char.toLower) := by
  rw [List.map_append, ← byteSize_lower first, sliceFrom_append]

/-- The bytes of characters. -/
def bytesOf (chars : List Char) : Bytes := chars.flatMap String.utf8EncodeChar

/-- Their number. -/
theorem length_bytesOf (chars : List Char) : (bytesOf chars).length = byteSize chars := by
  rw [bytesOf, byteSize, List.length_flatMap]
  congr 1
  exact List.map_congr_left fun c _ => String.length_utf8EncodeChar c

/-- The bytes of a character in a text. -/
theorem bytesOf_at {done rest : List Char} {c : Char} {j : ℕ} (inside : j < c.utf8Size) :
    (bytesOf (done ++ c :: rest))[byteSize done + j]? = (String.utf8EncodeChar c)[j]? := by
  have width := String.length_utf8EncodeChar c
  rw [bytesOf, List.flatMap_append, List.flatMap_cons, ← bytesOf, ← length_bytesOf,
    List.getElem?_append_right (Nat.le_add_right _ _), Nat.add_sub_cancel_left,
    List.getElem?_append_left (by omega)]

/-- A byte below 128 in the encoding of a character is the character. -/
theorem eq_of_low {c d : Char} {b : UInt8} (member : b ∈ String.utf8EncodeChar c)
    (code : b.toNat = d.toNat) (low : d.toNat < 128) : c = d := by
  have same := (Utf8.utf8EncodeChar_low member (by omega)).2
  rw [← Char.ofNat_toNat c, ← Char.ofNat_toNat d, same, code]

section Loop

variable {done rest : List Char} {c : Char} {out : List Char} {inTag skipBlock : Bool} {fuel : ℕ}

/-- The loop on a text. -/
abbrev loopOn (html : List Char) (fuel : ℕ) (st : StripState) : Option StripState :=
  stripLoop html (html.map Char.toLower) (bytesOf html) fuel st

/-- A round on a byte that is there. -/
theorem loopOn_succ {html : List Char} {st next : StripState} {byte : UInt8}
    (found : (bytesOf html)[st.i]? = some byte)
    (step : st.step html (html.map Char.toLower) byte = some next) :
    loopOn html (fuel + 1) st = loopOn html fuel next := by
  rw [loopOn, stripLoop, found]
  show (st.step html (html.map Char.toLower) byte).bind _ = _
  rw [step, Option.bind_some]

/-- The loop passes over the bytes of a character that neither begins nor ends a tag where text is
not kept. -/
theorem loopOn_blind (blind : inTag = true ∨ skipBlock = true) (opens : inTag = false → c ≠ '<')
    (closes : inTag = true → c ≠ '>') (n : ℕ) {j : ℕ} (left : j + n = c.utf8Size) :
    loopOn (done ++ c :: rest) (fuel + n) ⟨out, inTag, skipBlock, byteSize done + j⟩ =
      loopOn (done ++ c :: rest) fuel ⟨out, inTag, skipBlock, byteSize done + c.utf8Size⟩ := by
  induction n generalizing j with
  | zero =>
    rw [← left]
    rfl
  | succ n ih =>
    have width := String.length_utf8EncodeChar c
    have inside : j < (String.utf8EncodeChar c).length := by omega
    have found : (bytesOf (done ++ c :: rest))[byteSize done + j]? =
        some (String.utf8EncodeChar c)[j] := by
      rw [bytesOf_at (by omega), List.getElem?_eq_getElem inside]
    have member := List.getElem_mem inside
    have notOpen : (!inTag && (String.utf8EncodeChar c)[j] == 0x3C) = false := by
      rw [Bool.and_eq_false_iff]
      by_cases tag : inTag = true
      · left
        rw [tag]
        rfl
      · right
        rw [beq_eq_false_iff_ne]
        intro same
        rw [same] at member
        exact opens (by simpa using tag) (eq_of_low member rfl (by decide))
    have notClose : (inTag && (String.utf8EncodeChar c)[j] == 0x3E) = false := by
      rw [Bool.and_eq_false_iff]
      by_cases tag : inTag = true
      · right
        rw [beq_eq_false_iff_ne]
        intro same
        rw [same] at member
        exact closes tag (eq_of_low member rfl (by decide))
      · left
        simpa using tag
    have hidden : (!inTag && !skipBlock) = false := by
      rcases blind with tag | block
      · rw [tag]
        rfl
      · rw [block]
        simp
    have step : StripState.step (done ++ c :: rest) ((done ++ c :: rest).map Char.toLower)
        (String.utf8EncodeChar c)[j] ⟨out, inTag, skipBlock, byteSize done + j⟩ =
          some ⟨out, inTag, skipBlock, byteSize done + (j + 1)⟩ := by
      simp only [StripState.step, notOpen, notClose, hidden, Bool.false_eq_true, ↓reduceIte]
      rfl
    rw [← Nat.add_assoc, loopOn_succ found step]
    exact ih (by omega)

/-- The first byte of a character is there. -/
theorem head_byte (done rest : List Char) (c : Char) : ∃ byte ∈ String.utf8EncodeChar c,
    (bytesOf (done ++ c :: rest))[byteSize done]? = some byte := by
  have width := String.length_utf8EncodeChar c
  have positive := c.utf8Size_pos
  have inside : 0 < (String.utf8EncodeChar c).length := by omega
  refine ⟨_, List.getElem_mem inside, ?_⟩
  have found : (bytesOf (done ++ c :: rest))[byteSize done + 0]? = (String.utf8EncodeChar c)[0]? :=
    bytesOf_at positive
  rw [Nat.add_zero] at found
  rw [found, List.getElem?_eq_getElem inside]

/-- With enough rounds, the loop reads the text to its end. -/
theorem loopOn_reads (enough : byteSize rest ≤ fuel) :
    ∃ st, loopOn (done ++ rest) fuel ⟨out, inTag, skipBlock, byteSize done⟩ = some st ∧
      st.out = out ++ readText inTag skipBlock rest := by
  induction rest generalizing done out inTag skipBlock fuel with
  | nil =>
    have ended : ¬byteSize done < (bytesOf done).length := by rw [length_bytesOf]; omega
    refine ⟨⟨out, inTag, skipBlock, byteSize done⟩, ?_, by simp [readText]⟩
    rw [List.append_nil]
    cases fuel with
    | zero => rw [loopOn, stripLoop, if_neg ended]
    | succ fuel =>
      have none : (bytesOf done)[byteSize done]? = none := List.getElem?_eq_none (by omega)
      rw [loopOn, stripLoop, none]
  | cons c rest ih =>
    have size : byteSize (c :: rest) = c.utf8Size + byteSize rest := by simp [byteSize]
    have positive := c.utf8Size_pos
    have next : byteSize (done ++ [c]) = byteSize done + c.utf8Size := by
      rw [byteSize_append]
      simp [byteSize]
    have whole : done ++ c :: rest = (done ++ [c]) ++ rest := by simp
    obtain ⟨byte, member, found⟩ := head_byte done rest c
    have byte_eq : ∀ (d : Char) (b : UInt8), b.toNat = d.toNat → d.toNat < 128 →
        String.utf8EncodeChar d = [b] → (byte = b ↔ c = d) := by
      intro d b code low coded
      constructor
      · intro same
        exact eq_of_low (same ▸ member) code low
      · intro same
        rw [same, coded] at member
        exact List.mem_singleton.mp member
    have opens := byte_eq '<' 0x3C rfl (by decide) (by decide)
    have closes := byte_eq '>' 0x3E rfl (by decide) (by decide)
    have ascii : ∀ d : Char, d.toNat < 128 → c = d → c.utf8Size = 1 := fun d small same => by
      rw [same]
      exact Char.utf8Size_eq_one_iff.mpr (UInt32.le_iff_toNat_le.mpr (Nat.le_of_lt_succ small))
    obtain ⟨fuel, rfl⟩ : ∃ n, fuel = n + 1 := ⟨fuel - 1, by omega⟩
    by_cases opening : inTag = false ∧ c = '<'
    · obtain ⟨rfl, rfl⟩ := opening
      have width := ascii '<' (by decide) rfl
      have step : StripState.step (done ++ '<' :: rest) ((done ++ '<' :: rest).map Char.toLower)
          byte ⟨out, false, skipBlock, byteSize done⟩ =
            some ⟨out, true, blockFrom skipBlock (('<' :: rest).map Char.toLower),
              byteSize done + 1⟩ := by
        rw [opens.mpr rfl]
        simp only [StripState.step, sliceFrom_lower]
        rfl
      rw [loopOn_succ found step, whole, ← width, ← next]
      have left : byteSize rest ≤ fuel := by omega
      obtain ⟨st, read, text⟩ := @ih (done ++ ['<']) out true
        (blockFrom skipBlock (('<' :: rest).map Char.toLower)) fuel left
      exact ⟨st, read, text.trans (by simp [readText])⟩
    · by_cases closing : inTag = true ∧ c = '>'
      · obtain ⟨rfl, rfl⟩ := closing
        have width := ascii '>' (by decide) rfl
        have step : StripState.step (done ++ '>' :: rest) ((done ++ '>' :: rest).map Char.toLower)
            byte ⟨out, true, skipBlock, byteSize done⟩ =
              some ⟨out ++ [' '], false, skipBlock, byteSize done + 1⟩ := by
          rw [closes.mpr rfl]
          rfl
        rw [loopOn_succ found step, whole, ← width, ← next]
        have left : byteSize rest ≤ fuel := by omega
        obtain ⟨st, read, text⟩ := @ih (done ++ ['>']) (out ++ [' ']) false skipBlock fuel left
        exact ⟨st, read, text.trans (by simp [readText])⟩
      · by_cases shown : inTag = false ∧ skipBlock = false
        · obtain ⟨rfl, rfl⟩ := shown
          have other : c ≠ '<' := fun same => opening ⟨rfl, same⟩
          have step : StripState.step (done ++ c :: rest) ((done ++ c :: rest).map Char.toLower)
              byte ⟨out, false, false, byteSize done⟩ =
                some ⟨out ++ [c], false, false, byteSize done + c.utf8Size⟩ := by
            have plain : (byte == 0x3C) = false := by
              rw [beq_eq_false_iff_ne]
              exact fun same => other (opens.mp same)
            simp only [StripState.step, plain, sliceFrom_append, Bool.not_false, Bool.and_false,
              Bool.false_and, Bool.and_self, Bool.false_eq_true, ↓reduceIte]
            rfl
          rw [loopOn_succ found step, whole, ← next]
          have left : byteSize rest ≤ fuel := by omega
          obtain ⟨st, read, text⟩ := @ih (done ++ [c]) (out ++ [c]) false false fuel left
          exact ⟨st, read, text.trans (by simp [readText, other])⟩
        · have blind : inTag = true ∨ skipBlock = true := by
            cases inTag
            · cases skipBlock
              · exact absurd ⟨rfl, rfl⟩ shown
              · exact .inr rfl
            · exact .inl rfl
          obtain ⟨more, split⟩ : ∃ more, fuel + 1 = more + c.utf8Size :=
            ⟨fuel + 1 - c.utf8Size, by omega⟩
          have passed : loopOn (done ++ c :: rest) (more + c.utf8Size)
                ⟨out, inTag, skipBlock, byteSize done + 0⟩ =
              loopOn (done ++ c :: rest) more
                ⟨out, inTag, skipBlock, byteSize done + c.utf8Size⟩ :=
            loopOn_blind blind (fun tag same => opening ⟨tag, same⟩)
              (fun tag same => closing ⟨tag, same⟩) c.utf8Size (by omega)
          rw [Nat.add_zero] at passed
          rw [split, passed, whole, ← next]
          have left : byteSize rest ≤ more := by omega
          obtain ⟨st, read, text⟩ := @ih (done ++ [c]) out inTag skipBlock more left
          refine ⟨st, read, text.trans ?_⟩
          congr 1
          cases inTag <;> cases skipBlock <;> simp_all [readText]

end Loop

/-- Extracting the text never panics, and yields what is read with both flags down. -/
theorem stripTags_eq (html : String) :
    stripTags html = some (String.ofList (readText false false html.toList)) := by
  have lower : (Text.toAsciiLowercase html).toList = html.toList.map Char.toLower := by
    rw [Text.toAsciiLowercase, Text.toList_onChars]
  obtain ⟨st, read, text⟩ := @loopOn_reads [] html.toList [] false false
    (bytesOf html.toList).length (by rw [length_bytesOf])
  rw [stripTags, lower]
  show (stripLoop html.toList _ (bytesOf html.toList) (bytesOf html.toList).length _).bind _ = _
  have start : loopOn html.toList (bytesOf html.toList).length ⟨[], false, false, 0⟩ = some st :=
    read
  rw [loopOn] at start
  rw [start, Option.bind_some, text]
  rfl

/-! ## What a reading passes over -/

section Reading

variable {chars after : List Char} {inTag skipBlock : Bool}

/-- Behind a `<` a block begins: the name begins like one of the two. -/
def opensBlock (chars : List Char) : Bool :=
  "script".toList.isPrefixOf (chars.map Char.toLower) ||
    "style".toList.isPrefixOf (chars.map Char.toLower)

/-- Behind a `<` a block ends. -/
def closesBlock (chars : List Char) : Bool :=
  "/script".toList.isPrefixOf (chars.map Char.toLower) ||
    "/style".toList.isPrefixOf (chars.map Char.toLower)

/-- The flag for blocks behind a `<`. -/
theorem blockFrom_eq : blockFrom skipBlock (('<' :: chars).map Char.toLower) =
    if opensBlock chars then true else if closesBlock chars then false else skipBlock := by
  have lower : Char.toLower '<' = '<' := by decide
  simp [blockFrom, opensBlock, closesBlock, lower]

/-- A text that begins with another has no character of it behind the other's end. -/
theorem isPrefixOf_append {name : List Char} {c : Char} (absent : c ∉ name) :
    name.isPrefixOf (chars ++ c :: after) = name.isPrefixOf chars := by
  induction name generalizing chars with
  | nil => simp [List.isPrefixOf]
  | cons d name ih =>
    have inner : c ∉ name := fun member => absent (List.mem_cons_of_mem _ member)
    cases chars with
    | nil =>
      have differs : (d == c) = false := by
        rw [beq_eq_false_iff_ne]
        intro same
        exact absent (same ▸ List.mem_cons_self)
      simp [List.isPrefixOf, differs]
    | cons e chars => simp [List.isPrefixOf, ih inner]

/-- What follows a bracket does not matter to the flag. -/
theorem opensBlock_append {c : Char} (bracket : c = '<' ∨ c = '>') :
    opensBlock (chars ++ c :: after) = opensBlock chars := by
  have lower : c.toLower = c := by rcases bracket with rfl | rfl <;> decide
  have script : c ∉ "script".toList := by rcases bracket with rfl | rfl <;> simp
  have style : c ∉ "style".toList := by rcases bracket with rfl | rfl <;> simp
  rw [opensBlock, opensBlock, List.map_append, List.map_cons, lower, isPrefixOf_append script,
    isPrefixOf_append style]

/-- What follows a bracket does not matter to the flag. -/
theorem closesBlock_append {c : Char} (bracket : c = '<' ∨ c = '>') :
    closesBlock (chars ++ c :: after) = closesBlock chars := by
  have lower : c.toLower = c := by rcases bracket with rfl | rfl <;> decide
  have script : c ∉ "/script".toList := by rcases bracket with rfl | rfl <;> simp
  have style : c ∉ "/style".toList := by rcases bracket with rfl | rfl <;> simp
  rw [closesBlock, closesBlock, List.map_append, List.map_cons, lower, isPrefixOf_append script,
    isPrefixOf_append style]

/-- Text without a `<` is kept. -/
theorem readText_text (plain : '<' ∉ chars) :
    readText false false (chars ++ after) = chars ++ readText false false after := by
  induction chars with
  | nil => rfl
  | cons c chars ih =>
    have other : c ≠ '<' := fun same => plain (same ▸ List.mem_cons_self)
    have rest := ih fun member => plain (List.mem_cons_of_mem _ member)
    simp [readText, other, rest]

/-- A tag is passed over to its end and leaves a space. -/
theorem readText_tag (inside : '>' ∉ chars) :
    readText true skipBlock (chars ++ '>' :: after) = ' ' :: readText false skipBlock after := by
  induction chars with
  | nil => simp [readText]
  | cons c chars ih =>
    have other : c ≠ '>' := fun same => inside (same ▸ List.mem_cons_self)
    have rest := ih fun member => inside (List.mem_cons_of_mem _ member)
    simp [readText, other, rest]

/-- In a block, what comes before a `<` is passed over. -/
theorem readText_hidden (inside : '<' ∉ chars) :
    readText false true (chars ++ '<' :: after) =
      readText true (blockFrom true (('<' :: after).map Char.toLower)) after := by
  induction chars with
  | nil => simp [readText]
  | cons c chars ih =>
    have other : c ≠ '<' := fun same => inside (same ▸ List.mem_cons_self)
    have rest := ih fun member => inside (List.mem_cons_of_mem _ member)
    simp [readText, other, rest]

/-- Reading adds nothing. -/
theorem length_readText_le : (readText inTag skipBlock chars).length ≤ chars.length := by
  induction chars generalizing inTag skipBlock with
  | nil => simp [readText]
  | cons c chars ih =>
    rw [readText]
    split
    · exact Nat.le_succ_of_le ih
    · split
      · exact Nat.succ_le_succ ih
      · split
        · exact Nat.succ_le_succ ih
        · exact Nat.le_succ_of_le ih

/-- At the end of a tag, something has been read. -/
theorem readText_ne_nil (inside : '>' ∉ after) :
    readText inTag skipBlock (chars ++ '<' :: (after ++ ['>'])) ≠ [] := by
  induction chars generalizing inTag skipBlock with
  | nil =>
    cases inTag with
    | false => simp [readText, readText_tag inside]
    | true => simp [readText, readText_tag inside]
  | cons c chars ih =>
    rw [List.cons_append, readText]
    split
    · exact ih
    · split
      · exact List.cons_ne_nil _ _
      · split
        · exact List.cons_ne_nil _ _
        · exact ih

end Reading

/-! ## Documents -/

/-- The elements whose content is raw text. -/
inductive RawElement where
  | script
  | style

/-- The name of such an element. -/
def RawElement.name : RawElement → List Char
  | .script => "script".toList
  | .style => "style".toList

/-- A piece of a page: text, a tag, or an element with raw content between its tags. -/
inductive Piece where
  | text (chars : List Char)
  | tag (body : List Char)
  | raw (element : RawElement) (opening content closing : List Char)

/-- How a piece is written. -/
def Piece.source : Piece → List Char
  | .text chars => chars
  | .tag body => '<' :: (body ++ ['>'])
  | .raw _ opening content closing =>
    '<' :: (opening ++ '>' :: (content ++ '<' :: ('/' :: closing ++ ['>'])))

/-- What is to be left of a piece: its text, and a space for each tag. -/
def Piece.shown : Piece → List Char
  | .text chars => chars
  | .tag _ => [' ']
  | .raw _ _ _ _ => [' ', ' ']

/-- A character that may follow the name of a tag inside the tag. -/
def EndsName (c : Char) : Prop :=
  c ∈ [' ', Char.ofNat 9, Char.ofNat 10, Char.ofNat 12, Char.ofNat 13, '/']

/-- The tag has this name, up to case. -/
def Named (name body : List Char) : Prop :=
  ∃ rest, body.map Char.toLower = name ++ rest ∧ ∀ c ∈ rest.head?, EndsName c

/-- A character behind a `<` with which markup begins. -/
def BeginsMarkup (c : Char) : Prop := c.isAlpha = true ∨ c ∈ ['/', '!', '?']

/-- The body of a start tag, an end tag or a declaration. -/
def TagBody (body : List Char) : Prop :=
  (∃ c ∈ body.head?, c.isAlpha = true) ∨
    ∃ mark c rest, body = mark :: c :: rest ∧ mark ∈ ['/', '!'] ∧ c.isAlpha = true

/-- An end tag of the element begins in its content. -/
def EndsInside (element : RawElement) (content : List Char) : Prop :=
  ∃ before after c rest, content = before ++ '<' :: '/' :: after ∧
    after.map Char.toLower = element.name ++ c :: rest ∧ (EndsName c ∨ c = '>')

/-- A piece is what it is called when this follows it: no `<` of a text begins markup, no `>` stands
inside a tag, and the end tag of an element is the first one. -/
def Piece.WellFormed (following : List Char) : Piece → Prop
  | .text chars => ∀ before after, chars = before ++ '<' :: after →
      ∀ c ∈ (after ++ following).head?, ¬BeginsMarkup c
  | .tag body => TagBody body ∧ '>' ∉ body ∧ ∀ element : RawElement, ¬Named element.name body
  | .raw element opening content closing => Named element.name opening ∧ '>' ∉ opening ∧
      ¬EndsInside element content ∧ Named element.name closing ∧ '>' ∉ closing

/-- How a document is written. -/
def documentSource (document : List Piece) : List Char := document.flatMap Piece.source

/-- What is to be left of a document. -/
def documentShown (document : List Piece) : List Char := document.flatMap Piece.shown

/-- Every piece of a document is what it is called. -/
def ValidDocument : List Piece → Prop
  | [] => True
  | piece :: rest => piece.WellFormed (documentSource rest) ∧ ValidDocument rest

/-- A piece does not mislead the loop: a text without `<`; a tag whose name does not begin like a
script's or a style's; raw content without `<`, or whose first `<` begins like the end of a script
or a style and has no `>` behind it. -/
def Piece.Harmless : Piece → Prop
  | .text chars => '<' ∉ chars
  | .tag body => opensBlock body = false
  | .raw _ _ content _ => '<' ∉ content ∨ ∃ before after, content = before ++ '<' :: after ∧
      '<' ∉ before ∧ '>' ∉ after ∧ closesBlock after = true

/-- Every beginning of a document, with any words behind it, is extracted correctly. -/
def ExtractsRight (document : List Piece) : Prop :=
  ∀ beginning words, beginning <+: document → '<' ∉ words →
    ValidDocument (beginning ++ [.text words]) →
    stripTags (String.ofList (documentSource (beginning ++ [.text words]))) =
      some (String.ofList (documentShown (beginning ++ [.text words])))

/-! ## Pieces that are read as they are -/

section Pieces

variable {piece : Piece} {element : RawElement} {body following after : List Char}

/-- A text that begins with a name. -/
theorem isPrefixOf_of_eq {name chars rest : List Char} (split : chars = name ++ rest) :
    name.isPrefixOf chars = true := by
  rw [split, List.isPrefixOf_iff_prefix]
  exact List.prefix_append _ _

/-- The start tag of an element begins a block. -/
theorem Named.opensBlock (named : Named element.name body) : opensBlock body = true := by
  obtain ⟨rest, split, -⟩ := named
  cases element with
  | script => exact Bool.or_eq_true_iff.mpr (.inl (isPrefixOf_of_eq split))
  | style => exact Bool.or_eq_true_iff.mpr (.inr (isPrefixOf_of_eq split))

/-- Its end tag ends it. -/
theorem Named.closesBlock (named : Named element.name body) : closesBlock ('/' :: body) = true := by
  obtain ⟨rest, split, -⟩ := named
  have slash : Char.toLower '/' = '/' := by decide
  cases element with
  | script =>
    have written : ('/' :: body).map Char.toLower = "/script".toList ++ rest := by
      rw [List.map_cons, slash, split]
      simp [RawElement.name]
    exact Bool.or_eq_true_iff.mpr (.inl (isPrefixOf_of_eq written))
  | style =>
    have written : ('/' :: body).map Char.toLower = "/style".toList ++ rest := by
      rw [List.map_cons, slash, split]
      simp [RawElement.name]
    exact Bool.or_eq_true_iff.mpr (.inr (isPrefixOf_of_eq written))

/-- What ends a block begins none. -/
theorem opensBlock_of_closesBlock (closes : closesBlock body = true) : opensBlock body = false := by
  cases body with
  | nil => simp [opensBlock]
  | cons c body =>
    have slash : c.toLower = '/' := by
      simp only [closesBlock, List.map_cons, String.reduceToList, List.isPrefixOf, Bool.or_eq_true,
        Bool.and_eq_true, beq_iff_eq] at closes
      rcases closes with closes | closes <;> exact closes.1.symm
    simp [opensBlock, slash, List.isPrefixOf]

/-- A harmless piece is read as it is. -/
theorem Piece.Harmless.reads (formed : piece.WellFormed following) (harmless : piece.Harmless) :
    readText false false (piece.source ++ after) = piece.shown ++ readText false false after := by
  cases piece with
  | text chars => exact readText_text harmless
  | tag body =>
    obtain ⟨-, inside, -⟩ := formed
    have quiet : opensBlock body = false := harmless
    have flag : blockFrom false (('<' :: (body ++ '>' :: after)).map Char.toLower) = false := by
      rw [blockFrom_eq, opensBlock_append (.inr rfl), quiet]
      simp
    have written : (Piece.tag body).source ++ after = '<' :: (body ++ '>' :: after) := by
      simp [Piece.source]
    rw [written, readText]
    simp only [Bool.not_false, beq_self_eq_true, Bool.and_self, ↓reduceIte]
    rw [flag, readText_tag inside]
    rfl
  | raw element opening content closing =>
    obtain ⟨opens, inside, -, closes, insideEnd⟩ := formed
    have written : (Piece.raw element opening content closing).source ++ after =
        '<' :: (opening ++ '>' :: (content ++ '<' :: ('/' :: closing ++ '>' :: after))) := by
      simp [Piece.source]
    have opened : blockFrom false (('<' :: (opening ++ '>' ::
        (content ++ '<' :: ('/' :: closing ++ '>' :: after)))).map Char.toLower) = true := by
      rw [blockFrom_eq, opensBlock_append (.inr rfl), opens.opensBlock]
      rfl
    have slashed : '>' ∉ '/' :: closing := by simp [insideEnd]
    rw [written, readText]
    simp only [Bool.not_false, beq_self_eq_true, Bool.and_self, ↓reduceIte]
    rw [opened, readText_tag inside]
    rcases harmless with plain | ⟨before, rest, split, first, last, ends⟩
    · have closed : blockFrom true
          (('<' :: ('/' :: closing ++ '>' :: after)).map Char.toLower) = false := by
        rw [blockFrom_eq, opensBlock_append (.inr rfl), closesBlock_append (.inr rfl),
          opensBlock_of_closesBlock closes.closesBlock, closes.closesBlock]
        rfl
      rw [readText_hidden plain, closed, readText_tag slashed]
      rfl
    · have closed : blockFrom true (('<' :: (rest ++ '<' :: ('/' :: closing ++ '>' :: after))).map
          Char.toLower) = false := by
        rw [blockFrom_eq, opensBlock_append (.inl rfl), closesBlock_append (.inl rfl),
          opensBlock_of_closesBlock ends, ends]
        rfl
      have joined : rest ++ '<' :: ('/' :: closing ++ '>' :: after) =
          (rest ++ '<' :: '/' :: closing) ++ '>' :: after := by simp
      have open_end : '>' ∉ rest ++ '<' :: '/' :: closing := by
        simp [last, insideEnd]
      rw [split, List.append_assoc, List.cons_append, readText_hidden first, closed, joined,
        readText_tag open_end]
      rfl

/-- A piece that misleads the loop is read wrongly before some text. -/
theorem Piece.misleads (formed : piece.WellFormed following) (misleading : ¬piece.Harmless) :
    ∃ text : List Char, '<' ∉ text ∧ piece.WellFormed text ∧
      readText false false (piece.source ++ text) ≠ piece.shown ++ text := by
  cases piece with
  | text chars =>
    have member : '<' ∈ chars := not_not.mp misleading
    obtain ⟨before, rest, split, absent⟩ := List.eq_append_cons_of_mem member
    refine ⟨[], List.not_mem_nil, ?_, ?_⟩
    · intro front back same c first
      rw [List.append_nil] at first
      refine formed front back same c ?_
      cases back with
      | nil => exact absurd first (by simp)
      | cons d back => exact first
    · rw [List.append_nil, List.append_nil]
      show readText false false chars ≠ chars
      intro same
      have short := @length_readText_le rest true
        (blockFrom false (('<' :: rest).map Char.toLower))
      rw [split, readText_text absent] at same
      have tail := List.append_cancel_left same
      have lengths := congrArg List.length tail
      simp only [readText, Bool.not_false, beq_self_eq_true, Bool.and_self, ↓reduceIte,
        List.length_cons] at lengths
      omega
  | tag body =>
    have inside := formed.2.1
    have opens : opensBlock body = true := by simpa [Piece.Harmless] using misleading
    refine ⟨['x'], by simp, formed, ?_⟩
    have flag : blockFrom false (('<' :: (body ++ '>' :: ['x'])).map Char.toLower) = true := by
      rw [blockFrom_eq, opensBlock_append (.inr rfl), opens]
      rfl
    have written : (Piece.tag body).source ++ ['x'] = '<' :: (body ++ '>' :: ['x']) := by
      simp [Piece.source]
    rw [written, readText]
    simp only [Bool.not_false, beq_self_eq_true, Bool.and_self, ↓reduceIte]
    rw [flag, readText_tag inside]
    simp [readText, Piece.shown]
  | raw element opening content closing =>
    have opens := formed.1.opensBlock
    have inside := formed.2.1
    have insideEnd := formed.2.2.2.2
    have member : '<' ∈ content := by
      by_contra plain
      exact misleading (.inl plain)
    obtain ⟨before, rest, split, absent⟩ := List.eq_append_cons_of_mem member
    have begins : ∀ text, readText false false
        ((Piece.raw element opening content closing).source ++ text) =
          ' ' :: readText true (blockFrom true (('<' :: (rest ++ '<' :: ('/' :: closing ++
            '>' :: text))).map Char.toLower)) (rest ++ '<' :: ('/' :: closing ++ '>' :: text)) := by
      intro text
      have written : (Piece.raw element opening content closing).source ++ text =
          '<' :: (opening ++ '>' :: (content ++ '<' :: ('/' :: closing ++ '>' :: text))) := by
        simp [Piece.source]
      have opened : blockFrom false (('<' :: (opening ++ '>' ::
          (content ++ '<' :: ('/' :: closing ++ '>' :: text)))).map Char.toLower) = true := by
        rw [blockFrom_eq, opensBlock_append (.inr rfl), opens]
        rfl
      rw [written, readText]
      simp only [Bool.not_false, beq_self_eq_true, Bool.and_self, ↓reduceIte]
      rw [opened, readText_tag inside, split, List.append_assoc, List.cons_append,
        readText_hidden absent]
    by_cases shut : '>' ∈ rest
    · refine ⟨[], List.not_mem_nil, formed, ?_⟩
      obtain ⟨first, second, cut, closed⟩ := List.eq_append_cons_of_mem shut
      have slashed : '>' ∉ '/' :: closing := by simp [insideEnd]
      rw [begins, cut, List.append_assoc, List.cons_append, readText_tag closed]
      intro same
      have tail := (List.cons.inj (List.cons.inj same).2).2
      exact readText_ne_nil slashed tail
    · have stays : closesBlock rest = false := by
        by_contra closes
        exact misleading (.inr ⟨before, rest, split, absent, shut, by simpa using closes⟩)
      have flag : blockFrom true (('<' :: (rest ++ '<' :: ('/' :: closing ++ '>' :: ['x']))).map
          Char.toLower) = true := by
        rw [blockFrom_eq, opensBlock_append (.inl rfl), closesBlock_append (.inl rfl), stays]
        simp
      have joined : rest ++ '<' :: ('/' :: closing ++ '>' :: ['x']) =
          (rest ++ '<' :: '/' :: closing) ++ '>' :: ['x'] := by simp
      have open_end : '>' ∉ rest ++ '<' :: '/' :: closing := by
        simp [shut, insideEnd]
      refine ⟨['x'], by simp, formed, ?_⟩
      rw [begins, flag, joined, readText_tag open_end]
      simp [readText, Piece.shown]

end Pieces

/-! ## Whole documents -/

/-- A document of harmless pieces is read as it is. -/
theorem readText_document {document : List Piece} (valid : ValidDocument document)
    (harmless : ∀ piece ∈ document, piece.Harmless) (after : List Char) :
    readText false false (documentSource document ++ after) =
      documentShown document ++ readText false false after := by
  induction document with
  | nil => rfl
  | cons piece document ih =>
    have rest := ih valid.2 fun other member => harmless other (List.mem_cons_of_mem _ member)
    have first : readText false false (piece.source ++ (documentSource document ++ after)) =
        piece.shown ++ readText false false (documentSource document ++ after) :=
      Piece.Harmless.reads valid.1 (harmless piece List.mem_cons_self)
    rw [documentSource, List.flatMap_cons, ← documentSource, List.append_assoc, first, rest,
      documentShown, documentShown, List.flatMap_cons, List.append_assoc]

/-- Whether a harmless piece is what it is called does not depend on what follows. -/
theorem Piece.WellFormed.before {piece : Piece} {following other : List Char}
    (formed : piece.WellFormed following) (harmless : piece.Harmless) : piece.WellFormed other := by
  cases piece with
  | text chars =>
    intro before after split
    have member : '<' ∈ chars := by rw [split]; simp
    exact absurd member harmless
  | tag body => exact formed
  | raw element opening content closing => exact formed

/-- Harmless pieces may be followed by another document. -/
theorem ValidDocument.append {first second other : List Piece}
    (valid : ValidDocument (first ++ second)) (harmless : ∀ piece ∈ first, piece.Harmless)
    (next : ValidDocument other) : ValidDocument (first ++ other) := by
  induction first with
  | nil => exact next
  | cons piece first ih =>
    exact ⟨valid.1.before (harmless piece List.mem_cons_self),
      ih valid.2 fun other member => harmless other (List.mem_cons_of_mem _ member)⟩

/-- The end of a document is a document. -/
theorem ValidDocument.tail {first second : List Piece} (valid : ValidDocument (first ++ second)) :
    ValidDocument second := by
  induction first with
  | nil => exact valid
  | cons piece first ih => exact ih valid.2

/-- The beginning of a document up to the first piece that misleads the loop. -/
theorem first_misleading {document : List Piece} (misled : ¬∀ piece ∈ document, piece.Harmless) :
    ∃ first piece second, document = first ++ piece :: second ∧
      (∀ other ∈ first, other.Harmless) ∧ ¬piece.Harmless := by
  induction document with
  | nil => exact absurd (fun piece member => absurd member List.not_mem_nil) misled
  | cons piece document ih =>
    by_cases harmless : piece.Harmless
    · have rest : ¬∀ other ∈ document, other.Harmless := by
        intro all
        apply misled
        intro other member
        rcases List.mem_cons.mp member with rfl | later
        · exact harmless
        · exact all other later
      obtain ⟨first, found, second, split, before, misleads⟩ := ih rest
      refine ⟨piece :: first, found, second, by rw [split]; rfl, ?_, misleads⟩
      intro other member
      rcases List.mem_cons.mp member with rfl | later
      · exact harmless
      · exact before other later
    · exact ⟨[], piece, document, rfl, fun other member => absurd member List.not_mem_nil, harmless⟩

/-- What is extracted from a document followed by words. -/
theorem extracted_eq_iff {document : List Piece} {words : List Char} :
    stripTags (String.ofList (documentSource (document ++ [.text words]))) =
        some (String.ofList (documentShown (document ++ [.text words]))) ↔
      readText false false (documentSource document ++ words) =
        documentShown document ++ words := by
  have source : documentSource (document ++ [.text words]) = documentSource document ++ words := by
    simp [documentSource, Piece.source]
  have shown : documentShown (document ++ [.text words]) = documentShown document ++ words := by
    simp [documentShown, Piece.shown]
  rw [stripTags_eq, String.toList_ofList, source, shown, Option.some.injEq, String.ofList_inj]

/-- Text is extracted without a panic from every page, and correctly from every beginning of a
document, whatever words follow, exactly when no piece of the document misleads the loop. -/
theorem extractsRight_iff (html : String) : (stripTags html).isSome = true ∧
    ∀ document, ValidDocument document →
      (ExtractsRight document ↔ ∀ piece ∈ document, piece.Harmless) := by
  constructor
  · rw [stripTags_eq]
    rfl
  · intro document valid
    constructor
    · intro right
      by_contra misled
      obtain ⟨first, piece, second, rfl, harmless, misleading⟩ := first_misleading misled
      have formed : piece.WellFormed (documentSource second) := valid.tail.1
      obtain ⟨words, plain, still, wrong⟩ := Piece.misleads formed misleading
      have closed : ValidDocument [piece, .text words] := by
        refine ⟨?_, ?_, trivial⟩
        · simpa [documentSource, Piece.source] using still
        · intro before after split
          exact absurd (by rw [split]; simp) plain
      have within : first ++ [piece] <+: first ++ piece :: second :=
        ⟨second, by rw [List.append_assoc, List.singleton_append]⟩
      have whole : ValidDocument (first ++ [piece] ++ [.text words]) := by
        rw [List.append_assoc]
        exact valid.append harmless closed
      have read := extracted_eq_iff.mp (right (first ++ [piece]) words within plain whole)
      have start : ValidDocument (first ++ []) := valid.append harmless trivial
      rw [List.append_nil] at start
      have before := readText_document start harmless (piece.source ++ words)
      have source : documentSource (first ++ [piece]) ++ words =
          documentSource first ++ (piece.source ++ words) := by simp [documentSource]
      have shown : documentShown (first ++ [piece]) ++ words =
          documentShown first ++ (piece.shown ++ words) := by simp [documentShown]
      rw [source, before, shown] at read
      exact wrong (List.append_cancel_left read)
    · intro harmless beginning words within plain formed
      obtain ⟨rest, rfl⟩ := within
      have kept : ∀ piece ∈ beginning, piece.Harmless :=
        fun piece member => harmless piece (List.mem_append_left _ member)
      have start : ValidDocument (beginning ++ []) := formed.append kept trivial
      rw [List.append_nil] at start
      have last : readText false false (words ++ []) = words ++ readText false false [] :=
        readText_text plain
      rw [List.append_nil] at last
      rw [extracted_eq_iff, readText_document start kept words, last]
      simp [readText]

/-! ## Two pages -/

namespace Reference

/-- Content without a slash has no end tag. -/
theorem not_endsInside {element : RawElement} {content : List Char} (plain : '/' ∉ content) :
    ¬EndsInside element content := by
  rintro ⟨before, after, c, rest, split, -⟩
  exact plain (by rw [split]; simp)

/-- A tag that is none of the two elements' start tags. -/
theorem not_named {name body : List Char} {c d : Char} (first : name.head? = some c)
    (other : (body.map Char.toLower).head? = some d) (differs : d ≠ c) : ¬Named name body := by
  rintro ⟨rest, split, -⟩
  rw [split, List.head?_append, first, Option.some_or] at other
  exact differs (Option.some.inj other).symm

/-- A script element. -/
def scriptOf (content : List Char) : Piece := .raw .script "script".toList content "script".toList

/-- A script element without a slash in its content. -/
theorem scriptOf_wellFormed {content following : List Char} (plain : '/' ∉ content) :
    (scriptOf content).WellFormed following := by
  have named : Named RawElement.script.name "script".toList :=
    ⟨[], by decide, fun c member => absurd member (by simp)⟩
  exact ⟨named, by simp, not_endsInside plain, named, by simp⟩

/-- Words without a `<`. -/
theorem text_wellFormed {chars following : List Char} (plain : '<' ∉ chars) :
    (Piece.text chars).WellFormed following := by
  intro before after split
  exact absurd (by rw [split]; simp) plain

/-- A page with a tag, words and a script. -/
def plainPage : List Piece :=
  [.tag ['b'], .text "olá mundo".toList, .tag ['/', 'b'], scriptOf "alert(1)".toList]

/-- The page is extracted correctly. -/
theorem plainPage_extractsRight : ExtractsRight plainPage := by
  have bold : ∀ (body following : List Char), body = ['b'] ∨ body = ['/', 'b'] →
      (Piece.tag body).WellFormed following := by
    rintro body following (rfl | rfl)
    · refine ⟨.inl ⟨'b', rfl, by decide⟩, by decide, fun element => ?_⟩
      cases element
      · exact not_named (c := 's') (d := 'b') (by decide) (by decide) (by decide)
      · exact not_named (c := 's') (d := 'b') (by decide) (by decide) (by decide)
    · refine ⟨.inr ⟨'/', 'b', [], rfl, by decide, by decide⟩, by decide, fun element => ?_⟩
      cases element
      · exact not_named (c := 's') (d := '/') (by decide) (by decide) (by decide)
      · exact not_named (c := 's') (d := '/') (by decide) (by decide) (by decide)
  have valid : ValidDocument plainPage :=
    ⟨bold _ _ (.inl rfl), text_wellFormed (by simp), bold _ _ (.inr rfl),
      scriptOf_wellFormed (by simp), trivial⟩
  apply ((extractsRight_iff "").2 plainPage valid).mpr
  intro piece member
  simp only [plainPage, List.mem_cons, List.not_mem_nil, or_false] at member
  rcases member with rfl | rfl | rfl | rfl
  · show opensBlock ['b'] = false
    decide
  · show '<' ∉ "olá mundo".toList
    simp
  · show opensBlock ['/', 'b'] = false
    decide
  · left
    simp

/-- A comparison in a script, and words behind it. -/
def comparingPage : List Piece := [scriptOf "a<b".toList, .text "words".toList]

/-- The words behind a script with a comparison are lost. -/
theorem comparingPage_loses : ValidDocument comparingPage ∧
    stripTags (String.ofList (documentSource comparingPage)) = some "  " ∧
      documentShown comparingPage = "  words".toList := by
  refine ⟨⟨scriptOf_wellFormed (by simp), text_wellFormed (by simp), trivial⟩, ?_, ?_⟩
  · rw [stripTags_eq, String.toList_ofList]
    decide
  · decide

end Reference

end Federate
