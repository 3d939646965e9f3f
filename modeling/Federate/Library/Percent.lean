import Federate.Library.Text

/-!
# Percent-encoding

A URL path carries the UTF-8 bytes of a text. The characters of a fixed ASCII set stand for
themselves, every other character is written as its bytes, a percent sign and two uppercase digits
each. Encoding never shortens a text, and leaves exactly the texts of kept characters alone.
-/
namespace Percent

/-- A set of characters that an encoder keeps in a path. -/
structure Kept where
  /-- Whether a character is kept. -/
  keeps : Char → Bool
  /-- Kept characters are ASCII. -/
  ascii : ∀ c, keeps c = true → c.toNat < 128
  /-- The separator of segments is kept. -/
  slash : keeps '/' = true
  /-- The percent sign is encoded. -/
  percent : keeps '%' = false
  /-- The start of a query is encoded. -/
  query : keeps '?' = false
  /-- The start of a fragment is encoded. -/
  fragment : keeps '#' = false

/-- The uppercase digit of a value below sixteen. -/
def digit (n : ℕ) : Char := if n < 10 then Char.ofNat (48 + n) else Char.ofNat (55 + n)

/-- A byte as a percent sign and two digits. -/
def encodeByte (b : UInt8) : List Char := ['%', digit (b.toNat / 16), digit (b.toNat % 16)]

/-- A kept character, or the bytes of another one. -/
def encodeChar (kept : Kept) (c : Char) : List Char :=
  if kept.keeps c = true then [c] else (String.utf8EncodeChar c).flatMap encodeByte

/-- The percent-encoding of a text. -/
def encode (kept : Kept) (s : String) : String :=
  Text.onChars (fun chars => chars.flatMap (encodeChar kept)) s

/-- The marks of a path, and the separator of its segments. -/
def pathMarks : List Char :=
  ['-', '.', '_', '~', '!', '$', '&', Char.ofNat 39, '(', ')', '*', '+', ',', ';', '=', ':', '@', '/']

/-- The encoding that keeps all that a path may contain: letters, digits and marks. -/
def pathChars : Kept where
  keeps c := Text.isAsciiLowercase c || ('A' ≤ c && c ≤ 'Z') || Text.isAsciiDigit c ||
    pathMarks.contains c
  ascii c keeps := by
    have marks : ∀ c ∈ pathMarks, c.toNat < 128 := by simp [pathMarks]
    simp only [Text.isAsciiLowercase, Text.isAsciiDigit, Bool.or_eq_true, Bool.and_eq_true,
      decide_eq_true_eq, List.contains_iff_mem] at keeps
    change (((97 ≤ c.toNat ∧ c.toNat ≤ 122) ∨ 65 ≤ c.toNat ∧ c.toNat ≤ 90) ∨
      48 ≤ c.toNat ∧ c.toNat ≤ 57) ∨ c ∈ pathMarks at keeps
    rcases keeps with inRange | mark
    · omega
    · exact marks c mark
  slash := by decide
  percent := by decide
  query := by decide
  fragment := by decide

section Encode

variable (kept : Kept) {c : Char}

/-- A character has bytes. -/
theorem utf8EncodeChar_ne_nil (c : Char) : String.utf8EncodeChar c ≠ [] := by
  intro none
  have size := String.length_utf8EncodeChar c
  have positive := c.utf8Size_pos
  rw [none, List.length_nil] at size
  omega

/-- A character that is not kept becomes a percent sign and at least two more characters. -/
theorem encodeChar_of_not_kept (encoded : kept.keeps c = false) :
    ∃ rest, encodeChar kept c = '%' :: rest ∧ 2 ≤ rest.length := by
  obtain ⟨b, tail, split⟩ := List.exists_cons_of_ne_nil (utf8EncodeChar_ne_nil c)
  refine ⟨[digit (b.toNat / 16), digit (b.toNat % 16)] ++ tail.flatMap encodeByte, ?_, by simp⟩
  rw [encodeChar, if_neg (by simp [encoded]), split, List.flatMap_cons]
  rfl

/-- Only the slash begins with a slash when it is encoded. -/
theorem encodeChar_head (head : (encodeChar kept c).head? = some '/') : c = '/' := by
  by_cases keeps : kept.keeps c = true
  · rw [encodeChar, if_pos keeps] at head
    simpa using head
  · obtain ⟨rest, shape, -⟩ := encodeChar_of_not_kept kept (Bool.not_eq_true _ ▸ keeps)
    rw [shape] at head
    cases head

/-- A character takes room. -/
theorem length_encodeChar_pos (c : Char) : 0 < (encodeChar kept c).length := by
  by_cases keeps : kept.keeps c = true
  · rw [encodeChar, if_pos keeps]
    exact Nat.one_pos
  · obtain ⟨rest, shape, -⟩ := encodeChar_of_not_kept kept (Bool.not_eq_true _ ▸ keeps)
    rw [shape]
    exact Nat.succ_pos _

/-- An encoded text has kept characters, percent signs and digits. -/
theorem mem_encode {s : String} (member : c ∈ (encode kept s).toList) :
    kept.keeps c = true ∨ c = '%' ∨ ∃ n < 16, c = digit n := by
  rw [encode, Text.toList_onChars, List.mem_flatMap] at member
  obtain ⟨source, -, member⟩ := member
  by_cases keeps : kept.keeps source = true
  · rw [encodeChar, if_pos keeps, List.mem_singleton] at member
    exact .inl (member ▸ keeps)
  · rw [encodeChar, if_neg keeps, List.mem_flatMap] at member
    obtain ⟨b, -, member⟩ := member
    have small : b.toNat < 256 := b.toNat_lt
    simp only [encodeByte, List.mem_cons, List.not_mem_nil, or_false] at member
    rcases member with mark | high | low
    · exact .inr (.inl mark)
    · exact .inr (.inr ⟨b.toNat / 16, by omega, high⟩)
    · exact .inr (.inr ⟨b.toNat % 16, by omega, low⟩)

/-- Encoding never shortens a text. -/
theorem length_le_flatMap (chars : List Char) :
    chars.length ≤ (chars.flatMap (encodeChar kept)).length := by
  induction chars with
  | nil => exact le_rfl
  | cons c rest ih =>
    have room := length_encodeChar_pos kept c
    rw [List.flatMap_cons, List.length_append, List.length_cons]
    omega

/-- A text that encoding does not lengthen consists of kept characters. -/
theorem kept_of_length {chars : List Char}
    (short : (chars.flatMap (encodeChar kept)).length ≤ chars.length) :
    ∀ c ∈ chars, kept.keeps c = true := by
  induction chars with
  | nil => simp
  | cons c rest ih =>
    have longer := length_le_flatMap kept rest
    rw [List.flatMap_cons, List.length_append, List.length_cons] at short
    have keeps : kept.keeps c = true := by
      by_contra encoded
      obtain ⟨tail, shape, room⟩ := encodeChar_of_not_kept kept (Bool.not_eq_true _ ▸ encoded)
      rw [shape, List.length_cons] at short
      omega
    rw [encodeChar, if_pos keeps, List.length_singleton] at short
    exact List.forall_mem_cons.mpr ⟨keeps, ih (by omega)⟩

/-- Encoding leaves exactly the texts of kept characters alone. -/
theorem encode_eq_self_iff {s : String} :
    encode kept s = s ↔ ∀ c ∈ s.toList, kept.keeps c = true := by
  constructor
  · intro same
    have chars := congrArg String.toList same
    rw [encode, Text.toList_onChars] at chars
    exact kept_of_length kept (le_of_eq (congrArg List.length chars))
  · intro keeps
    have each : s.toList.flatMap (encodeChar kept) = s.toList.flatMap fun c => [c] :=
      List.flatMap_congr fun c member => if_pos (keeps c member)
    rw [← String.toList_inj, encode, Text.toList_onChars, each, List.flatMap_singleton']

/-- An encoded text begins with a slash only when the text does. -/
theorem head?_encode {s : String} (head : (encode kept s).toList.head? = some '/') :
    s.toList.head? = some '/' := by
  rw [encode, Text.toList_onChars] at head
  cases shape : s.toList with
  | nil => simp [shape] at head
  | cons c rest =>
    have room := List.ne_nil_of_length_pos (length_encodeChar_pos kept c)
    rw [shape, List.flatMap_cons, List.head?_append_of_ne_nil _ room] at head
    rw [encodeChar_head kept head]
    rfl

end Encode

end Percent
