import Federate.Library.Outcome

/-!
# Character operations on strings

The standard `str` operations that programs validate names with, as operations on the
characters of a string. `len` counts UTF-8 bytes; `trim` removes the Unicode white space.
-/
namespace Text

/-- Apply an operation on the characters of a string. -/
def onChars (f : List Char → List Char) (s : String) : String := String.ofList (f s.toList)

@[simp] theorem toList_onChars (f : List Char → List Char) (s : String) :
    (onChars f s).toList = f s.toList := by
  simp [onChars]

/-- Unicode `White_Space`, the class that `trim` removes. -/
def isWhitespace (c : Char) : Bool :=
  (0x9 ≤ c.toNat && c.toNat ≤ 0xD) || c.toNat = 0x20 || c.toNat = 0x85 || c.toNat = 0xA0 ||
    c.toNat = 0x1680 || (0x2000 ≤ c.toNat && c.toNat ≤ 0x200A) || c.toNat = 0x2028 ||
    c.toNat = 0x2029 || c.toNat = 0x202F || c.toNat = 0x205F || c.toNat = 0x3000

/-- `str::to_ascii_lowercase`. -/
def toAsciiLowercase (s : String) : String := onChars (List.map Char.toLower) s

/-- `str::trim`. -/
def trim (s : String) : String :=
  onChars (fun chars => (chars.dropWhile isWhitespace).rdropWhile isWhitespace) s

/-- `str::trim_start_matches` of one character. -/
def trimStartMatches (c : Char) (s : String) : String := onChars (List.dropWhile (· = c)) s

/-- `str::trim_end_matches` of one character. -/
def trimEndMatches (c : Char) (s : String) : String := onChars (List.rdropWhile (· = c)) s

/-- `s.split(c).next()`: the part before the first separator, all of it when there is none. -/
def beforeFirst (c : Char) (s : String) : String := onChars (List.takeWhile (· ≠ c)) s

/-- The part after the first separator, when there is one. -/
def afterFirst (c : Char) (s : String) : Option String :=
  match s.toList.dropWhile (· ≠ c) with
  | [] => none
  | _ :: rest => some (String.ofList rest)

/-- `str::trim_matches` of a class of characters. -/
def trimMatches (p : Char → Bool) (s : String) : String :=
  onChars (fun chars => (chars.dropWhile p).rdropWhile p) s

/-- `str::strip_prefix` of a text. -/
def stripPrefix (first s : String) : Option String :=
  if first.toList.isPrefixOf s.toList then some (String.ofList (s.toList.drop first.toList.length))
  else none

/-- `str::len`, in UTF-8 bytes. -/
def byteLen (s : String) : ℕ := (s.toList.map Char.utf8Size).sum

/-- `char::is_ascii_lowercase`. -/
def isAsciiLowercase (c : Char) : Bool := 'a' ≤ c && c ≤ 'z'

/-- `char::is_ascii_digit`. -/
def isAsciiDigit (c : Char) : Bool := '0' ≤ c && c ≤ '9'

/-- `char::is_ascii_hexdigit`. -/
def isAsciiHexdigit (c : Char) : Bool :=
  isAsciiDigit c || ('a' ≤ c && c ≤ 'f') || ('A' ≤ c && c ≤ 'F')

/-- The UTF-8 length of ASCII text is its number of characters. -/
theorem byteLen_ascii {s : String} (ascii : ∀ c ∈ s.toList, c.toNat < 128) :
    byteLen s = s.toList.length := by
  have sizes : s.toList.map Char.utf8Size = s.toList.map fun _ => 1 := by
    apply List.map_congr_left
    intro c member
    have small := ascii c member
    exact Char.utf8Size_eq_one_iff.mpr (UInt32.le_iff_toNat_le.mpr (Nat.le_of_lt_succ small))
  simp [byteLen, sizes]

/-- The bytes of an ASCII text are its characters. -/
theorem utf8_ascii {s : String} (ascii : ∀ c ∈ s.toList, c.toNat < 128) :
    s.toByteArray.data.toList = s.toList.map Char.toUInt8 := by
  have each : ∀ c ∈ s.toList, String.utf8EncodeChar c = [c.toUInt8] := fun c member => by
    have single : c.utf8Size = 1 := Char.utf8Size_eq_one_iff.mpr
      (UInt32.le_iff_toNat_le.mpr (Nat.le_of_lt_succ (ascii c member)))
    rw [String.utf8EncodeChar_eq_singleton single]
    rfl
  rw [← String.utf8Encode_toList, List.utf8Encode, List.toList_data_toByteArray,
    List.flatMap_congr each, List.map_eq_flatMap]

/-! ## Strings that an operation leaves alone -/

/-- Lowercasing leaves text without uppercase letters alone. -/
theorem toAsciiLowercase_eq_self {s : String} (lower : ∀ c ∈ s.toList, ¬('A' ≤ c ∧ c ≤ 'Z')) :
    toAsciiLowercase s = s := by
  have same : s.toList.map Char.toLower = s.toList :=
    (List.map_congr_left fun c member => dif_neg (lower c member)).trans (List.map_id _)
  rw [← String.toList_inj, toAsciiLowercase, toList_onChars, same]

/-- Trimming a class of characters leaves text without them alone. -/
theorem trimMatches_eq_self {p : Char → Bool} {s : String} (kept : ∀ c ∈ s.toList, p c = false) :
    trimMatches p s = s := by
  have front : s.toList.dropWhile p = s.toList := List.dropWhile_eq_self_iff.mpr fun positive =>
    by simp [kept _ (List.getElem_mem positive)]
  rw [← String.toList_inj, trimMatches, toList_onChars, front]
  refine List.rdropWhile_eq_self_iff.mpr fun nonempty => ?_
  simp [kept _ (List.getLast_mem nonempty)]

/-- Trimming leaves text without white space alone. -/
theorem trim_eq_self {s : String} (solid : ∀ c ∈ s.toList, isWhitespace c = false) :
    trim s = s :=
  trimMatches_eq_self solid

/-- A text without its prefix, and the prefix. -/
theorem stripPrefix_eq_some {first s rest : String} :
    stripPrefix first s = some rest ↔ s = first ++ rest := by
  rw [stripPrefix]
  constructor
  · intro found
    split at found
    · rename_i starts
      obtain ⟨tail, split⟩ := List.isPrefixOf_iff_prefix.mp starts
      rw [← split, List.drop_left] at found
      rw [← Option.some.inj found, ← String.toList_inj, String.toList_append, String.toList_ofList,
        split]
    · exact absurd found (by simp)
  · rintro rfl
    rw [String.toList_append, if_pos (List.isPrefixOf_iff_prefix.mpr (List.prefix_append _ _)),
      List.drop_left, String.ofList_toList]

/-- Removing a leading character leaves text without it alone. -/
theorem trimStartMatches_eq_self {c : Char} {s : String} (absent : c ∉ s.toList) :
    trimStartMatches c s = s := by
  rw [← String.toList_inj, trimStartMatches, toList_onChars]
  cases shape : s.toList with
  | nil => rfl
  | cons head tail =>
    have differs : head ≠ c := fun equal => absent (by simp [shape, equal])
    simp [List.dropWhile, differs]

/-- Everything comes before a separator that does not occur. -/
theorem beforeFirst_eq_self {c : Char} {s : String} (absent : c ∉ s.toList) :
    beforeFirst c s = s := by
  rw [← String.toList_inj, beforeFirst, toList_onChars, List.takeWhile_eq_self_iff]
  intro other member
  have differs : other ≠ c := fun equal => absent (equal ▸ member)
  simpa using differs

/-- A character that is not white space survives trimming. -/
theorem mem_trim {c : Char} {s : String} (member : c ∈ s.toList) (solid : isWhitespace c = false) :
    c ∈ (trim s).toList := by
  have kept : ∀ l : List Char, c ∈ l → c ∈ l.dropWhile isWhitespace := by
    intro l within
    rw [← List.takeWhile_append_dropWhile (p := isWhitespace) (l := l)] at within
    rcases List.mem_append.mp within with dropped | kept
    · rw [List.mem_takeWhile_imp dropped] at solid
      exact absurd solid (by decide)
    · exact kept
  rw [trim, toList_onChars, List.rdropWhile, List.mem_reverse]
  exact kept _ (List.mem_reverse.mpr (kept _ member))

section Split

variable {c : Char} {first rest : String} (absent : c ∉ first.toList)

include absent

/-- Every character before the separator differs from it. -/
theorem differs_of_absent : ∀ other ∈ first.toList, decide (other ≠ c) = true := by
  intro other member
  have differs : other ≠ c := fun equal => absent (equal ▸ member)
  simpa using differs

/-- The part before the first separator. -/
theorem beforeFirst_split : beforeFirst c (first ++ c.toString ++ rest) = first := by
  rw [← String.toList_inj, beforeFirst, toList_onChars, String.toList_append,
    String.toList_append, Char.toString_eq_singleton, String.toList_singleton, List.append_assoc,
    List.singleton_append, List.takeWhile_append_of_pos (differs_of_absent absent)]
  simp

/-- The part after the first separator. -/
theorem afterFirst_split : afterFirst c (first ++ c.toString ++ rest) = some rest := by
  rw [afterFirst, String.toList_append, String.toList_append, Char.toString_eq_singleton,
    String.toList_singleton, List.append_assoc, List.singleton_append,
    List.dropWhile_append_of_pos (differs_of_absent absent)]
  simp

/-- Text with a separator is split at the first one in one way. -/
theorem split_unique {first' rest' : String} (absent' : c ∉ first'.toList)
    (same : first ++ c.toString ++ rest = first' ++ c.toString ++ rest') :
    first = first' ∧ rest = rest' := by
  have before : beforeFirst c (first ++ c.toString ++ rest) = first := beforeFirst_split absent
  have after : afterFirst c (first ++ c.toString ++ rest) = some rest := afterFirst_split absent
  rw [same, beforeFirst_split absent'] at before
  rw [same, afterFirst_split absent', Option.some.injEq] at after
  exact ⟨before.symm, after.symm⟩

end Split

/-- The parts of a split text, put together again. -/
theorem split_afterFirst {c : Char} {s rest : String} (found : afterFirst c s = some rest) :
    s = beforeFirst c s ++ c.toString ++ rest ∧ c ∉ (beforeFirst c s).toList := by
  have absent : c ∉ (beforeFirst c s).toList := by
    intro member
    rw [beforeFirst, toList_onChars] at member
    simpa using List.mem_takeWhile_imp member
  refine ⟨?_, absent⟩
  unfold afterFirst at found
  split at found
  · exact absurd found (by simp)
  · rename_i head tail shape
    have nonempty : s.toList.dropWhile (· ≠ c) ≠ [] := by rw [shape]; exact List.cons_ne_nil _ _
    have separator : head = c := by
      have failed := List.head_dropWhile_not (fun other => decide (other ≠ c)) nonempty
      simp only [shape, List.head_cons] at failed
      simpa using failed
    rw [← String.toList_inj, String.toList_append, String.toList_append,
      Char.toString_eq_singleton, String.toList_singleton, beforeFirst, toList_onChars,
      ← Option.some.inj found, String.toList_ofList, List.append_assoc, List.singleton_append,
      ← separator]
    rw [separator] at shape ⊢
    rw [← shape, List.takeWhile_append_dropWhile]

/-! ## Decimal numbers -/

/-- `u64::to_string`: the decimal digits, no leading zero. -/
def ofUInt64 (n : UInt64) : String := String.ofList (Nat.toDigits 10 n.toNat)

/-- `str::parse::<u64>`: decimal digits after an optional plus sign, and no overflow. -/
def parseUInt64 (s : String) : Option UInt64 :=
  let digits := match s.toList with
    | '+' :: rest => rest
    | chars => chars
  if digits = [] ∨ digits.all Char.isDigit = false then none
  else
    let n := Nat.ofDigitChars 10 digits 0
    if n < 2 ^ 64 then some (UInt64.ofNat n) else none

/-- The decimal text of a number is read back as the number. -/
@[simp] theorem parseUInt64_ofUInt64 (n : UInt64) : parseUInt64 (ofUInt64 n) = some n := by
  have digits : ∀ c ∈ Nat.toDigits 10 n.toNat, c.isDigit = true := fun c member =>
    Nat.isDigit_of_mem_toDigits (by decide) (by decide) member
  have unsigned : (match Nat.toDigits 10 n.toNat with
      | '+' :: rest => rest
      | chars => chars) = Nat.toDigits 10 n.toNat := by
    split
    · rename_i rest shape
      exact absurd (digits '+' (shape ▸ List.mem_cons_self)) (by decide)
    · rfl
  have value : Nat.ofDigitChars 10 (Nat.toDigits 10 n.toNat) 0 = n.toNat :=
    Nat.ofDigitChars_ten_toDigits
  simp only [parseUInt64, ofUInt64, String.toList_ofList, unsigned, Nat.toDigits_ne_nil, false_or,
    List.all_eq_true.mpr digits, Bool.true_eq_false, if_false, value, n.toNat_lt, if_true,
    UInt64.ofNat_toNat]

end Text
