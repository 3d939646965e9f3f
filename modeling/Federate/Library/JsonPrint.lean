import Federate.Library.JsonText
import Federate.Library.Text

/-!
# A JSON printer

The compact and the indented text of a tree. Removing the whitespace outside strings turns the
second into the first, and the compact text determines a tree whose numbers are readable.
-/
namespace Json

open Encoding Hex

/-! ## Scalars -/

/-- The decimal digits of a number. -/
def decimal (n : ℕ) : Bytes := (Nat.toDigits 10 n).map Char.toUInt8

/-- The text of a number; a floating-point number is written by its bit pattern. -/
def numberText : Number → Bytes
  | .posInt n => decimal n.toNat
  | .negInt n => 0x2D :: decimal n.toInt.natAbs
  | .float bits => 0x2E :: decimal bits.toNat

/-- A byte of a string, escaped. -/
def escapeByte (b : UInt8) : Bytes :=
  if b = 0x22 then [0x5C, 0x22]
  else if b = 0x5C then [0x5C, 0x5C]
  else if b = 0x08 then [0x5C, 0x62]
  else if b = 0x09 then [0x5C, 0x74]
  else if b = 0x0A then [0x5C, 0x6E]
  else if b = 0x0C then [0x5C, 0x66]
  else if b = 0x0D then [0x5C, 0x72]
  else if b < 0x20 then [0x5C, 0x75, 0x30, 0x30, (digit (b.toNat / 16)).toUInt8,
    (digit (b.toNat % 16)).toUInt8]
  else [b]

/-- The text of a string. -/
def stringText (s : String) : Bytes :=
  0x22 :: (s.toByteArray.data.toList.flatMap escapeByte ++ [0x22])

/-- The text of a scalar. -/
def scalarText : Json → Bytes
  | .null => [0x6E, 0x75, 0x6C, 0x6C]
  | .bool b => if b then [0x74, 0x72, 0x75, 0x65] else [0x66, 0x61, 0x6C, 0x73, 0x65]
  | .num n => numberText n
  | .str s => stringText s
  | _ => []

/-- A decimal digit is a byte of a number's text, neither a sign nor a point, that it is read back
from. -/
theorem digit_byte {c : Char} (digit : c.isDigit = true) :
    (numberByte c.toUInt8 = true ∧ c.toUInt8 ≠ 0x2D ∧ c.toUInt8 ≠ 0x2E) ∧
      Char.ofNat c.toUInt8.toNat = c := by
  have digits : ∀ n : Fin 10, (numberByte (Char.ofNat (48 + n)).toUInt8 = true ∧
      (Char.ofNat (48 + n)).toUInt8 ≠ 0x2D ∧ (Char.ofNat (48 + n)).toUInt8 ≠ 0x2E) ∧
        Char.ofNat (Char.ofNat (48 + n)).toUInt8.toNat = Char.ofNat (48 + n) := by decide
  have bounds : 48 ≤ c.toNat ∧ c.toNat ≤ 57 := by
    simp only [Char.isDigit, Bool.and_eq_true, decide_eq_true_eq] at digit
    exact ⟨UInt32.le_iff_toNat_le.mp digit.1, UInt32.le_iff_toNat_le.mp digit.2⟩
  have found := digits ⟨c.toNat - 48, by omega⟩
  rwa [show 48 + (c.toNat - 48) = c.toNat by omega, Char.ofNat_toNat] at found

/-- A decimal text has digits only, at least one. -/
theorem decimal_digits (n : ℕ) : decimal n ≠ [] ∧ ∀ b ∈ decimal n,
    numberByte b = true ∧ b ≠ 0x2D ∧ b ≠ 0x2E := by
  refine ⟨by simp [decimal, Nat.toDigits_ne_nil], fun b member => ?_⟩
  obtain ⟨c, inside, rfl⟩ := List.mem_map.mp member
  exact (digit_byte (Nat.isDigit_of_mem_toDigits (by decide) (by decide) inside)).1

/-- A number is determined by its decimal text. -/
theorem decimal_injective {m n : ℕ} (same : decimal m = decimal n) : m = n := by
  have read (n : ℕ) : (decimal n).map (fun b => Char.ofNat b.toNat) = Nat.toDigits 10 n := by
    rw [decimal, List.map_map]
    conv_rhs => rw [← List.map_id (Nat.toDigits 10 n)]
    exact List.map_congr_left fun c member =>
      (digit_byte (Nat.isDigit_of_mem_toDigits (by decide) (by decide) member)).2
  have digits := congrArg (List.map fun b => Char.ofNat b.toNat) same
  rw [read, read] at digits
  rw [← Nat.ofDigitChars_ten_toDigits (n := m), digits, Nat.ofDigitChars_ten_toDigits]

/-- A number's text is made of number bytes. -/
theorem numberText_bytes (n : Number) :
    numberText n ≠ [] ∧ ∀ b ∈ numberText n, numberByte b = true := by
  cases n with
  | posInt n => exact ⟨(decimal_digits _).1, fun b member => ((decimal_digits _).2 b member).1⟩
  | negInt n =>
    refine ⟨List.cons_ne_nil _ _, fun b member => ?_⟩
    rcases List.mem_cons.mp member with rfl | inside
    · decide
    · exact ((decimal_digits _).2 b inside).1
  | float bits =>
    refine ⟨List.cons_ne_nil _ _, fun b member => ?_⟩
    rcases List.mem_cons.mp member with rfl | inside
    · decide
    · exact ((decimal_digits _).2 b inside).1

/-- A readable number is determined by its text. -/
theorem numberText_injective {m n : Number} (readable : m.Readable) (readable' : n.Readable)
    (same : numberText m = numberText n) : m = n := by
  have unsigned (k : ℕ) (b : UInt8) (tail : Bytes) (special : b = 0x2D ∨ b = 0x2E) :
      decimal k ≠ b :: tail := fun starts => by
    have digit := (decimal_digits k).2 b (starts ▸ List.mem_cons_self)
    rcases special with rfl | rfl
    · exact digit.2.1 rfl
    · exact digit.2.2 rfl
  cases m with
  | posInt m =>
    cases n with
    | posInt n => rw [UInt64.toNat_inj.mp (decimal_injective same)]
    | negInt n => exact absurd same (unsigned _ _ _ (.inl rfl))
    | float bits => exact absurd same (unsigned _ _ _ (.inr rfl))
  | negInt m =>
    cases n with
    | posInt n => exact absurd same.symm (unsigned _ _ _ (.inl rfl))
    | negInt n =>
      have size := decimal_injective (List.cons.inj same).2
      have below : m.toInt < 0 := Int64.lt_iff_toInt_lt.mp readable
      have below' : n.toInt < 0 := Int64.lt_iff_toInt_lt.mp readable'
      obtain rfl := Int64.toInt_inj.mp (show m.toInt = n.toInt by omega)
      rfl
    | float bits => exact absurd (List.cons.inj same).1 (by decide)
  | float bits =>
    cases n with
    | posInt n => exact absurd same.symm (unsigned _ _ _ (.inr rfl))
    | negInt n => exact absurd (List.cons.inj same).1 (by decide)
    | float bits' => rw [UInt64.toNat_inj.mp (decimal_injective (List.cons.inj same).2)]

/-! ## Strings -/

/-- The byte that a letter after a backslash stands for. -/
def unescaped (c : UInt8) : UInt8 :=
  if c = 0x62 then 0x08
  else if c = 0x74 then 0x09
  else if c = 0x6E then 0x0A
  else if c = 0x66 then 0x0C
  else if c = 0x72 then 0x0D
  else c

/-- The value of a hexadecimal digit. -/
def nibble (b : UInt8) : ℕ := (digitValue (Char.ofNat b.toNat)).getD 0

/-- Read the first byte of a string back. -/
def readByte : Bytes → Option (UInt8 × Bytes)
  | [] => none
  | b :: rest =>
    if b = 0x5C then
      match rest with
      | c :: rest =>
        if c = 0x75 then
          match rest with
          | _ :: _ :: high :: low :: rest =>
            some (UInt8.ofNat (16 * nibble high + nibble low), rest)
          | _ => none
        else some (unescaped c, rest)
      | [] => none
    else some (b, rest)

/-- A hexadecimal digit is read back and is not special in a string. -/
theorem nibble_digit : ∀ n < 16, nibble (digit n).toUInt8 = n ∧ (digit n).toUInt8 ≠ 0x22 ∧
    (digit n).toUInt8 ≠ 0x5C := by
  decide

/-- A byte is its two hexadecimal digits. -/
theorem nibbles_byte (b : UInt8) :
    UInt8.ofNat (16 * nibble (digit (b.toNat / 16)).toUInt8 +
      nibble (digit (b.toNat % 16)).toUInt8) = b := by
  have bound := b.toNat_lt
  rw [(nibble_digit (b.toNat / 16) (by omega)).1, (nibble_digit (b.toNat % 16) (by omega)).1,
    Nat.div_add_mod, UInt8.ofNat_toNat]

/-- An escaped byte is read back in front of any rest. -/
theorem readByte_escapeByte (b : UInt8) (rest : Bytes) :
    readByte (escapeByte b ++ rest) = some (b, rest) := by
  unfold escapeByte
  split_ifs with quote backslash backspace tab newline feed carriage control
  · simp [readByte, unescaped, quote]
  · simp [readByte, unescaped, backslash]
  · simp [readByte, unescaped, backspace]
  · simp [readByte, unescaped, tab]
  · simp [readByte, unescaped, newline]
  · simp [readByte, unescaped, feed]
  · simp [readByte, unescaped, carriage]
  · simp only [List.cons_append, List.nil_append, readByte, if_true]
    rw [nibbles_byte]
  · simp [readByte, backslash]

/-- An escaped byte does not begin with a quotation mark. -/
theorem escapeByte_opens (b : UInt8) : ∃ c tail, escapeByte b = c :: tail ∧ c ≠ 0x22 := by
  unfold escapeByte
  split_ifs with quote
  case neg => exact ⟨b, [], rfl, quote⟩
  all_goals exact ⟨0x5C, _, rfl, by decide⟩

/-- Escaped bytes up to the closing mark are determined by their text. -/
theorem escaped_delimited (bytes bytes' : Bytes) :
    Delimited (bytes.flatMap escapeByte ++ [0x22]) (bytes'.flatMap escapeByte ++ [0x22])
      (bytes = bytes') := by
  have closed (b : UInt8) (tail rest : Bytes) : [0x22] ++ rest ≠ escapeByte b ++ tail := by
    obtain ⟨c, rest', split, other⟩ := escapeByte_opens b
    rw [split]
    exact fun same => other (List.cons.inj same).1.symm
  intro rest rest' _ _ same
  induction bytes generalizing bytes' with
  | nil =>
    cases bytes' with
    | nil => exact ⟨rfl, List.append_cancel_left same⟩
    | cons b bytes' =>
      simp only [List.flatMap_nil, List.nil_append, List.flatMap_cons, List.append_assoc] at same
      exact absurd same (closed b _ _)
  | cons b bytes ih =>
    cases bytes' with
    | nil =>
      simp only [List.flatMap_nil, List.nil_append, List.flatMap_cons, List.append_assoc] at same
      exact absurd same.symm (closed b _ _)
    | cons b' bytes' =>
      simp only [List.flatMap_cons, List.append_assoc] at same
      have read := congrArg readByte same
      rw [readByte_escapeByte, readByte_escapeByte] at read
      obtain ⟨rfl, tails⟩ := Prod.mk.inj (Option.some.inj read)
      obtain ⟨rfl, rests⟩ := ih bytes' (by simpa only [List.append_assoc] using tails)
      exact ⟨rfl, rests⟩

/-- The texts of scalars are JSON tokens. -/
theorem tokens_scalarText : Tokens scalarText where
  null := rfl
  bool _ := rfl
  number := numberText_bytes
  opens _ := ⟨_, rfl⟩
  string s t := by
    have inside := escaped_delimited s.toByteArray.data.toList t.toByteArray.data.toList
    refine ((delimited_refl [0x22]).append fun _ => inside).mono fun both => ?_
    exact String.toByteArray_inj.mp (ByteArray.ext (Array.toList_inj.mp both.2))

/-- A text of printable ASCII characters, none of them a quote or a backslash, is written as it is
between quotes. -/
theorem length_stringText {s : String}
    (plain : ∀ c ∈ s.toList, c.toNat < 128 ∧ escapeByte c.toUInt8 = [c.toUInt8]) :
    (stringText s).length = s.toList.length + 2 := by
  have same : (s.toList.map Char.toUInt8).flatMap escapeByte = s.toList.map Char.toUInt8 := by
    rw [List.flatMap_map, List.map_eq_flatMap]
    exact List.flatMap_congr fun c member => (plain c member).2
  rw [stringText, Text.utf8_ascii fun c member => (plain c member).1, same]
  simp

/-! ## Trees -/

mutual
/-- The text of a tree without whitespace. -/
def compact : Json → Bytes
  | .arr items => [0x5B] ++ ([0x2C].intercalate (compactItems items) ++ [0x5D])
  | .obj fields => [0x7B] ++ ([0x2C].intercalate (compactFields fields) ++ [0x7D])
  | .null => scalarText .null
  | .bool b => scalarText (.bool b)
  | .num n => scalarText (.num n)
  | .str s => scalarText (.str s)

/-- The items of an array. -/
def compactItems : List Json → List Bytes
  | [] => []
  | item :: rest => compact item :: compactItems rest

/-- The members of an object. -/
def compactFields : List (String × Json) → List Bytes
  | [] => []
  | (key, value) :: rest => (stringText key ++ ([0x3A] ++ compact value)) :: compactFields rest
end

/-- A line break, indented by two spaces a level. -/
def newline (depth : ℕ) : Bytes := 0x0A :: List.replicate (2 * depth) 0x20

mutual
/-- The text of a tree with every item and member on a line of its own. -/
def pretty (depth : ℕ) : Json → Bytes
  | .arr [] => [0x5B, 0x5D]
  | .arr items =>
    [0x5B] ++ ([0x2C].intercalate (prettyItems (depth + 1) items) ++ (newline depth ++ [0x5D]))
  | .obj [] => [0x7B, 0x7D]
  | .obj fields =>
    [0x7B] ++ ([0x2C].intercalate (prettyFields (depth + 1) fields) ++ (newline depth ++ [0x7D]))
  | .null => scalarText .null
  | .bool b => scalarText (.bool b)
  | .num n => scalarText (.num n)
  | .str s => scalarText (.str s)

/-- The items of an array. -/
def prettyItems (depth : ℕ) : List Json → List Bytes
  | [] => []
  | item :: rest => (newline depth ++ pretty depth item) :: prettyItems depth rest

/-- The members of an object. -/
def prettyFields (depth : ℕ) : List (String × Json) → List Bytes
  | [] => []
  | (key, value) :: rest =>
    (newline depth ++ (stringText key ++ ([0x3A, 0x20] ++ pretty depth value))) ::
      prettyFields depth rest
end

theorem compactItems_eq (items : List Json) : compactItems items = items.map compact := by
  induction items with
  | nil => rfl
  | cons item rest ih => rw [compactItems, ih, List.map_cons]

theorem compactFields_eq (fields : List (String × Json)) :
    compactFields fields = fields.map (memberText scalarText compact) := by
  induction fields with
  | nil => rfl
  | cons field rest ih =>
    obtain ⟨key, value⟩ := field
    rw [compactFields, ih, List.map_cons, memberText, scalarText]

theorem prettyItems_eq (depth : ℕ) (items : List Json) :
    prettyItems depth items = items.map fun item => newline depth ++ pretty depth item := by
  induction items with
  | nil => rfl
  | cons item rest ih => rw [prettyItems, ih, List.map_cons]

theorem prettyFields_eq (depth : ℕ) (fields : List (String × Json)) :
    prettyFields depth fields = fields.map fun field =>
      newline depth ++ (stringText field.1 ++ ([0x3A, 0x20] ++ pretty depth field.2)) := by
  induction fields with
  | nil => rfl
  | cons field rest ih =>
    obtain ⟨key, value⟩ := field
    rw [prettyFields, ih, List.map_cons]

/-- The compact text is a JSON text with the members in their own order. -/
theorem compact_writes : Writes scalarText id compact where
  null := by rw [compact]
  bool b := by rw [compact]
  num n := by rw [compact]
  str s := by rw [compact]
  arr items := by rw [compact, compactItems_eq]
  obj fields := by rw [compact, compactFields_eq]; rfl

/-- Trees that are the same with their members in order are equal. -/
theorem Same.eq {v w : Json} (same : v.Same Eq Eq w) : v = w := by
  induction v using memberInduction generalizing w with
  | null => cases same; rfl
  | bool b => cases same; rfl
  | str s => cases same; rfl
  | num m =>
    cases same with
    | num related => rw [related]
  | arr items ih =>
    cases same with
    | arr each =>
      have equal := forall₂_map_eq (f := id) (g := id) each fun a member b _ same => ih a member same
      rw [List.map_id, List.map_id] at equal
      rw [equal]
  | obj fields ih =>
    cases same with
    | obj order order' keys values =>
      subst order order'
      have equal := forall₂_map_eq (f := id) (g := id) (forall₂_member.mpr ⟨keys, values⟩)
        fun a member b _ same => Prod.ext same.1 (ih a member same.2)
      rw [List.map_id, List.map_id] at equal
      rw [equal]

/-- A readable tree is determined by its compact text. -/
theorem compact_injective {v w : Json} (readable : v.Readable) (readable' : w.Readable)
    (same : compact v = compact w) : v = w := by
  have splits := compact_writes.splits (N := Eq) (O := Eq) tokens_scalarText (fun _ => rfl)
    (fun _ _ member => member) v w fun m n inside inside' equal =>
      numberText_injective (readable.part inside) (readable'.part inside') equal
  exact (splits.whole same).eq

/-! ## Whitespace -/

/-- Where in a text a byte stands. -/
inductive Place where
  | outside | inside | escaped

/-- JSON whitespace. -/
def isSpace (b : UInt8) : Bool := b == 0x20 || b == 0x09 || b == 0x0A || b == 0x0D

/-- Remove the whitespace outside strings. -/
def squeeze : Place → Bytes → Bytes
  | _, [] => []
  | .outside, b :: rest =>
    if isSpace b then squeeze .outside rest
    else b :: squeeze (if b = 0x22 then .inside else .outside) rest
  | .inside, b :: rest =>
    b :: squeeze (if b = 0x5C then .escaped else if b = 0x22 then .outside else .inside) rest
  | .escaped, b :: rest => b :: squeeze .inside rest

/-- In front of any rest, the first text becomes the second. -/
def Becomes (text text' : Bytes) : Prop :=
  ∀ rest, squeeze .outside (text ++ rest) = text' ++ squeeze .outside rest

theorem Becomes.append {text text' next next' : Bytes} (first : Becomes text text')
    (second : Becomes next next') : Becomes (text ++ next) (text' ++ next') := by
  intro rest
  rw [List.append_assoc, first, second, List.append_assoc]

/-- A word without whitespace and quotation marks stays. -/
theorem becomes_word {word : Bytes} (plain : word.all (fun b => !isSpace b && b != 0x22) = true) :
    Becomes word word := by
  intro rest
  induction word with
  | nil => rfl
  | cons b word ih =>
    simp only [List.all_cons, Bool.and_eq_true, Bool.not_eq_true', bne_iff_ne] at plain
    obtain ⟨⟨solid, mark⟩, rest⟩ := plain
    rw [List.cons_append, squeeze, solid, if_neg Bool.false_ne_true, if_neg mark, ih rest,
      List.cons_append]

/-- A line break goes. -/
theorem becomes_newline (depth : ℕ) : Becomes (newline depth) [] := by
  intro rest
  have spaces (count : ℕ) : squeeze .outside (List.replicate count 0x20 ++ rest) =
      squeeze .outside rest := by
    induction count with
    | zero => rfl
    | succ count ih => rw [List.replicate_succ, List.cons_append, squeeze, if_pos (by decide), ih]
  rw [newline, List.cons_append, squeeze, if_pos (by decide), spaces, List.nil_append]

/-- An escaped byte stays. -/
theorem squeeze_escapeByte (b : UInt8) (rest : Bytes) :
    squeeze .inside (escapeByte b ++ rest) = escapeByte b ++ squeeze .inside rest := by
  have high := nibble_digit (b.toNat / 16) (by have := b.toNat_lt; omega)
  have low := nibble_digit (b.toNat % 16) (by omega)
  unfold escapeByte
  split_ifs with quote backslash
  case neg => simp [squeeze, quote, backslash]
  on_goal 8 => simp [squeeze, high.2, low.2]
  all_goals simp [squeeze]

/-- A string stays. -/
theorem becomes_stringText (s : String) : Becomes (stringText s) (stringText s) := by
  intro rest
  have inside (bytes : Bytes) : squeeze .inside (bytes.flatMap escapeByte ++ ([0x22] ++ rest)) =
      bytes.flatMap escapeByte ++ ([0x22] ++ squeeze .outside rest) := by
    induction bytes with
    | nil => simp [squeeze]
    | cons b bytes ih =>
      rw [List.flatMap_cons, List.append_assoc, squeeze_escapeByte, ih, List.append_assoc]
  rw [stringText, List.cons_append, List.append_assoc, squeeze, if_neg (by decide), if_pos rfl,
    inside]
  simp only [List.cons_append, List.nil_append, List.append_assoc]

/-- A scalar stays. -/
theorem becomes_scalarText (v : Json) : Becomes (scalarText v) (scalarText v) := by
  cases v with
  | null => exact becomes_word (by decide)
  | bool b => cases b <;> exact becomes_word (by decide)
  | num n =>
    refine becomes_word (List.all_eq_true.mpr fun b member => ?_)
    have symbol := (numberText_bytes n).2 b member
    rw [Bool.and_eq_true, Bool.not_eq_true', bne_iff_ne, ← Bool.not_eq_true]
    refine ⟨fun space => ?_, fun mark => absurd (mark ▸ symbol) (by decide)⟩
    simp only [isSpace, Bool.or_eq_true, beq_iff_eq] at space
    rcases space with ((rfl | rfl) | rfl) | rfl <;> exact absurd symbol (by decide)
  | str s => exact becomes_stringText s
  | arr items => exact fun _ => rfl
  | obj fields => exact fun _ => rfl

/-- Separated texts that become others. -/
theorem becomes_intercalate {α : Type} {write write' : α → Bytes} {items : List α}
    (each : ∀ a ∈ items, Becomes (write a) (write' a)) :
    Becomes ([0x2C].intercalate (items.map write)) ([0x2C].intercalate (items.map write')) := by
  cases items with
  | nil => exact fun _ => rfl
  | cons first items =>
    induction items generalizing first with
    | nil =>
      simp only [List.map_cons, List.map_nil, List.intercalate_singleton]
      exact each first List.mem_cons_self
    | cons second items ih =>
      simp only [List.map_cons, List.intercalate_cons_cons] at ih ⊢
      exact ((each first List.mem_cons_self).append (becomes_word (by decide))).append
        (ih second fun a member => each a (List.mem_cons_of_mem _ member))

/-- The compact text has no whitespace outside strings. -/
theorem becomes_compact (v : Json) : Becomes (compact v) (compact v) := by
  induction v using memberInduction with
  | null | bool b | num n | str s =>
    rw [compact]
    exact becomes_scalarText _
  | arr items ih =>
    rw [compact, compactItems_eq]
    exact (becomes_word (by decide)).append
      ((becomes_intercalate ih).append (becomes_word (by decide)))
  | obj fields ih =>
    rw [compact, compactFields_eq]
    refine (becomes_word (by decide)).append (Becomes.append ?_ (becomes_word (by decide)))
    exact becomes_intercalate fun field member =>
      (becomes_stringText field.1).append ((becomes_word (by decide)).append (ih field member))

/-- Without whitespace outside strings, the indented text is the compact one. -/
theorem becomes_pretty (depth : ℕ) (v : Json) : Becomes (pretty depth v) (compact v) := by
  induction v using memberInduction generalizing depth with
  | null | bool b | num n | str s =>
    rw [pretty, compact]
    exact becomes_scalarText _
  | arr items ih =>
    cases items with
    | nil =>
      rw [pretty, compact]
      exact becomes_word (by decide)
    | cons first items =>
      rw [pretty, compact, compactItems_eq, prettyItems_eq]
      · refine (becomes_word (by decide)).append (Becomes.append ?_
          ((becomes_newline depth).append (becomes_word (by decide))))
        exact becomes_intercalate fun item member =>
          (becomes_newline _).append (ih item member (depth + 1))
      · exact List.cons_ne_nil _ _
  | obj fields ih =>
    cases fields with
    | nil =>
      rw [pretty, compact]
      exact becomes_word (by decide)
    | cons first fields =>
      have colon : Becomes [0x3A, 0x20] [0x3A] := fun rest => by simp [squeeze, isSpace]
      rw [pretty, compact, compactFields_eq, prettyFields_eq]
      · refine (becomes_word (by decide)).append (Becomes.append ?_
          ((becomes_newline depth).append (becomes_word (by decide))))
        exact becomes_intercalate fun field member => (becomes_newline _).append
          ((becomes_stringText field.1).append (colon.append (ih field member (depth + 1))))
      · exact List.cons_ne_nil _ _

/-- A text that becomes another, as a whole. -/
theorem Becomes.whole {text text' : Bytes} (becomes : Becomes text text') :
    squeeze .outside text = text' := by
  simpa [squeeze] using becomes []

end Json
