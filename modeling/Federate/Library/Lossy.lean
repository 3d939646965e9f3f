import Federate.Library.Text

/-!
# Bytes read as text, whatever they are

Text is encoded character by character. Reading goes on after bytes that are no text: each longest
start of a character that is not continued stands for one replacement character. What was encoded
is read back, and an ASCII character is read exactly where its byte stands.
-/

namespace Utf8

/-- `str::as_bytes`. -/
def encode (s : String) : List UInt8 := s.toList.flatMap String.utf8EncodeChar

/-- The character that the bytes begin with. -/
def decodeFirst (bytes : List UInt8) : Option Char := bytes.toByteArray.utf8DecodeChar? 0

/-- A byte that continues a character. -/
def continues (b : UInt8) : Bool := 0x80 ≤ b && b ≤ 0xBF

/-- The second byte can follow the first in a character of three or four bytes. -/
def fits (first second : UInt8) : Bool :=
  (first = 0xE0 && 0xA0 ≤ second && second ≤ 0xBF) ||
    (0xE1 ≤ first && first ≤ 0xEC && continues second) ||
    (first = 0xED && 0x80 ≤ second && second ≤ 0x9F) ||
    (0xEE ≤ first && first ≤ 0xEF && continues second) ||
    (first = 0xF0 && 0x90 ≤ second && second ≤ 0xBF) ||
    (0xF1 ≤ first && first ≤ 0xF3 && continues second) ||
    (first = 0xF4 && 0x80 ≤ second && second ≤ 0x8F)

/-- How many bytes one replacement character stands for, at the start of bytes that begin with no
character. -/
def brokenLength : List UInt8 → ℕ
  | first :: second :: third :: _ =>
    if fits first second then if 0xF0 ≤ first && continues third then 3 else 2 else 1
  | [first, second] => if fits first second then 2 else 1
  | _ => 1

/-- A replacement stands for some byte. -/
theorem brokenLength_pos (bytes : List UInt8) : 0 < brokenLength bytes := by
  unfold brokenLength
  split
  · split
    · split <;> omega
    · omega
  · split <;> omega
  · omega

/-- The characters of `String::from_utf8_lossy`. -/
def decodeLossy (bytes : List UInt8) : List Char :=
  match bytes with
  | [] => []
  | b :: rest =>
    match decodeFirst (b :: rest) with
    | some c => c :: decodeLossy ((b :: rest).drop c.utf8Size)
    | none => Char.ofNat 0xFFFD :: decodeLossy ((b :: rest).drop (brokenLength (b :: rest)))
termination_by bytes.length
decreasing_by
  · have size := c.utf8Size_pos
    simp only [List.length_drop, List.length_cons]
    omega
  · have broken := brokenLength_pos (b :: rest)
    simp only [List.length_drop, List.length_cons]
    omega

/-- `String::from_utf8_lossy`. -/
def fromUtf8Lossy (bytes : List UInt8) : String := String.ofList (decodeLossy bytes)

/-! ## One character -/

variable {c : Char} {bytes rest front : List UInt8}

/-- The bytes begin with a character when they begin with its encoding. -/
theorem decodeFirst_eq_some :
    decodeFirst bytes = some c ↔ ∃ rest, bytes = String.utf8EncodeChar c ++ rest := by
  unfold decodeFirst
  constructor
  · intro found
    obtain ⟨tail, split⟩ := ByteArray.exists_of_utf8DecodeChar?_eq_some found
    refine ⟨tail.data.toList, List.toByteArray_inj.mp ?_⟩
    rw [List.toByteArray_append, split]
    congr 1
    exact ByteArray.ext (by rw [List.data_toByteArray])
  · intro begins
    obtain ⟨tail, rfl⟩ := begins
    rw [List.toByteArray_append]
    exact ByteArray.utf8DecodeChar?_utf8EncodeChar_append

/-- A byte below 128 stands only in the encoding of the character that it is. -/
theorem utf8EncodeChar_low {b : UInt8} (member : b ∈ String.utf8EncodeChar c)
    (low : b.toNat < 128) :
    String.utf8EncodeChar c = [b] ∧ c.toNat = b.toNat := by
  have value : c.val.toNat = c.toNat := rfl
  unfold String.utf8EncodeChar at member ⊢
  simp only [value] at member ⊢
  split
  · rename_i small
    rw [if_pos small, List.mem_singleton] at member
    rw [member]
    refine ⟨rfl, ?_⟩
    rw [UInt8.toNat_ofNat']
    omega
  · rename_i large
    exfalso
    rw [if_neg large] at member
    split at member
    · simp only [List.mem_cons, List.not_mem_nil, or_false] at member
      rcases member with rfl | rfl <;> rw [UInt8.toNat_ofNat'] at low <;> omega
    · split at member
      · simp only [List.mem_cons, List.not_mem_nil, or_false] at member
        rcases member with rfl | rfl | rfl <;> rw [UInt8.toNat_ofNat'] at low <;> omega
      · simp only [List.mem_cons, List.not_mem_nil, or_false] at member
        rcases member with rfl | rfl | rfl | rfl <;> rw [UInt8.toNat_ofNat'] at low <;> omega

/-! ## Steps of the reading -/

/-- Bytes that begin with a character. -/
theorem decodeLossy_some (found : decodeFirst bytes = some c) :
    decodeLossy bytes = c :: decodeLossy (bytes.drop c.utf8Size) := by
  cases bytes with
  | nil =>
    obtain ⟨rest, empty⟩ := decodeFirst_eq_some.mp found
    have length := congrArg List.length empty
    rw [List.length_append, String.length_utf8EncodeChar, List.length_nil] at length
    have size := c.utf8Size_pos
    omega
  | cons b rest =>
    rw [decodeLossy]
    simp only [found]

/-- Bytes that begin with no character. -/
theorem decodeLossy_none (broken : decodeFirst bytes = none) (nonempty : bytes ≠ []) :
    decodeLossy bytes =
      Char.ofNat 0xFFFD :: decodeLossy (bytes.drop (brokenLength bytes)) := by
  cases bytes with
  | nil => exact absurd rfl nonempty
  | cons b rest =>
    rw [decodeLossy]
    simp only [broken]

/-- A character in front of bytes is read. -/
theorem decodeLossy_encoded (c : Char) (rest : List UInt8) :
    decodeLossy (String.utf8EncodeChar c ++ rest) = c :: decodeLossy rest := by
  have length : (String.utf8EncodeChar c).length = c.utf8Size := String.length_utf8EncodeChar c
  rw [decodeLossy_some (decodeFirst_eq_some.mpr ⟨rest, rfl⟩), ← length, List.drop_left]

/-- What was encoded is read back. -/
theorem fromUtf8Lossy_encode (s : String) : fromUtf8Lossy (encode s) = s := by
  have read : ∀ chars : List Char, decodeLossy (chars.flatMap String.utf8EncodeChar) = chars := by
    intro chars
    induction chars with
    | nil => rw [List.flatMap_nil, decodeLossy]
    | cons c chars ih => rw [List.flatMap_cons, decodeLossy_encoded, ih]
  rw [fromUtf8Lossy, encode, read, String.ofList_toList]

/-! ## ASCII separators -/

section Separator

variable {b : UInt8} (low : b.toNat < 128)

include low

/-- A separator continues no character. -/
theorem continues_low : continues b = false := by
  have high : ¬(0x80 : UInt8) ≤ b := by
    rw [UInt8.le_iff_toNat_le]
    exact not_le.mpr low
  simp [continues, high]

/-- A separator is never a second byte. -/
theorem fits_low (first : UInt8) : fits first b = false := by
  have high : ∀ bound : UInt8, 128 ≤ bound.toNat → ¬bound ≤ b := by
    intro bound large small
    have ordered := UInt8.le_iff_toNat_le.mp small
    omega
  simp [fits, continues_low low, high 0xA0 (by decide), high 0x80 (by decide),
    high 0x90 (by decide)]

/-- A separator does not change what a broken start is. -/
theorem brokenLength_append (rest : List UInt8) (nonempty : front ≠ []) :
    brokenLength (front ++ b :: rest) = brokenLength front ∧
      brokenLength front ≤ front.length := by
  cases front with
  | nil => exact absurd rfl nonempty
  | cons first tail =>
    cases tail with
    | nil =>
      cases rest with
      | nil => simp [brokenLength, fits_low low]
      | cons third rest => simp [brokenLength, fits_low low]
    | cons second tail =>
      cases tail with
      | nil =>
        by_cases fit : fits first second = true
        · simp [brokenLength, fit, continues_low low]
        · simp [brokenLength, fit]
      | cons third tail =>
        refine ⟨rfl, ?_⟩
        unfold brokenLength
        simp only [List.length_cons]
        split
        · split <;> omega
        · omega

/-- A separator does not make a character of a broken start. -/
theorem decodeFirst_append (nonempty : front ≠ []) :
    decodeFirst (front ++ b :: rest) = decodeFirst front := by
  cases found : decodeFirst front with
  | some c =>
    obtain ⟨tail, split⟩ := decodeFirst_eq_some.mp found
    exact decodeFirst_eq_some.mpr ⟨tail ++ b :: rest, by rw [split, List.append_assoc]⟩
  | none =>
    cases whole : decodeFirst (front ++ b :: rest) with
    | none => rfl
    | some c =>
      exfalso
      obtain ⟨tail, split⟩ := decodeFirst_eq_some.mp whole
      rcases List.append_eq_append_iff.mp split with ⟨more, inside, after⟩ | ⟨more, inside, -⟩
      · cases more with
        | nil =>
          rw [List.append_nil] at inside
          rw [decodeFirst_eq_some.mpr ⟨[], by rw [List.append_nil, inside]⟩] at found
          cases found
        | cons x more =>
          -- the separator would stand inside the encoding of a longer character
          have same : b = x := List.head_eq_of_cons_eq after
          have member : b ∈ String.utf8EncodeChar c := by simp [inside, same]
          have single := (utf8EncodeChar_low member low).1
          have positive := List.length_pos_iff.mpr nonempty
          have length := congrArg List.length (inside.symm.trans single)
          rw [List.length_append, List.length_cons, List.length_singleton] at length
          omega
      · rw [decodeFirst_eq_some.mpr ⟨more, inside⟩] at found
        cases found

/-- Bytes are read apart around a separator. -/
theorem decodeLossy_append (rest : List UInt8) (separates : String.utf8EncodeChar c = [b]) :
    decodeLossy (front ++ b :: rest) = decodeLossy front ++ c :: decodeLossy rest := by
  induction front using decodeLossy.induct with
  | case1 =>
    rw [decodeLossy.eq_1, List.nil_append, List.nil_append, ← decodeLossy_encoded, separates]
    rfl
  | case2 first tail d found ih =>
    obtain ⟨more, split⟩ := decodeFirst_eq_some.mp found
    have within : d.utf8Size ≤ (first :: tail).length := by
      rw [split, List.length_append, String.length_utf8EncodeChar]
      omega
    have same : decodeFirst (first :: tail ++ b :: rest) = some d := by
      rw [decodeFirst_append low (List.cons_ne_nil _ _), found]
    rw [decodeLossy_some same, decodeLossy_some found, List.drop_append_of_le_length within, ih,
      List.cons_append]
  | case3 first tail broken ih =>
    have lengths := brokenLength_append low rest (List.cons_ne_nil first tail)
    have same : decodeFirst (first :: tail ++ b :: rest) = none := by
      rw [decodeFirst_append low (List.cons_ne_nil _ _), broken]
    rw [decodeLossy_none same (by simp), decodeLossy_none broken (List.cons_ne_nil _ _), lengths.1,
      List.drop_append_of_le_length lengths.2, ih, List.cons_append]

omit low in
/-- A character is read only where its byte stands. -/
theorem mem_of_mem_decodeLossy (separates : String.utf8EncodeChar c = [b])
    (other : c ≠ Char.ofNat 0xFFFD) (member : c ∈ decodeLossy bytes) : b ∈ bytes := by
  induction bytes using decodeLossy.induct with
  | case1 =>
    rw [decodeLossy] at member
    cases member
  | case2 first tail d found ih =>
    rw [decodeLossy_some found, List.mem_cons] at member
    rcases member with same | later
    · obtain ⟨rest, split⟩ := decodeFirst_eq_some.mp found
      rw [split, ← same, separates]
      simp
    · exact List.mem_of_mem_drop (ih later)
  | case3 first tail broken ih =>
    rw [decodeLossy_none broken (List.cons_ne_nil _ _), List.mem_cons] at member
    rcases member with same | later
    · exact absurd same other
    · exact List.mem_of_mem_drop (ih later)

/-- What follows the last separator is read apart from what stands before it. -/
theorem decodeLossy_split (separates : String.utf8EncodeChar c = [b]) (bytes : List UInt8) :
    ∃ before, decodeLossy bytes = before ++ decodeLossy (bytes.rtakeWhile (· ≠ b)) ∧
      (before = [] ∨ ∃ earlier, before = earlier ++ [c]) := by
  have whole := List.rdropWhile_append_rtakeWhile (p := (· ≠ b)) (l := bytes)
  by_cases none : bytes.rdropWhile (· ≠ b) = []
  · rw [none, List.nil_append] at whole
    exact ⟨[], by rw [whole, List.nil_append], .inl rfl⟩
  · have last : (bytes.rdropWhile (· ≠ b)).getLast none = b := by
      simpa using List.rdropWhile_last_not (· ≠ b) bytes none
    have split := List.dropLast_append_getLast none
    rw [last] at split
    refine ⟨decodeLossy (bytes.rdropWhile (· ≠ b)).dropLast ++ [c], ?_, .inr ⟨_, rfl⟩⟩
    conv_lhs => rw [← whole, ← split]
    rw [List.append_assoc, List.singleton_append, decodeLossy_append low _ separates,
      List.append_assoc, List.singleton_append]

/-- A separator is not the replacement character. -/
theorem separator_known (separates : String.utf8EncodeChar c = [b]) : c ≠ Char.ofNat 0xFFFD := by
  intro same
  have code := (utf8EncodeChar_low (c := c) (b := b) (by simp [separates]) low).2
  have replacement : (Char.ofNat 0xFFFD).toNat = 65533 := by decide
  rw [same, replacement] at code
  omega

/-- No separator is read from bytes without one. -/
theorem decodeLossy_apart (separates : String.utf8EncodeChar c = [b]) (bytes : List UInt8) :
    ∀ other ∈ decodeLossy (bytes.rtakeWhile (· ≠ b)), decide (other ≠ c) = true := by
  intro other member
  have differs : other ≠ c := by
    intro same
    have found := mem_of_mem_decodeLossy separates (separator_known low separates) (same ▸ member)
    exact absurd (List.mem_rtakeWhile_imp found) (by simp)
  simpa using differs

/-- The text after the last separator is what is read after its byte. -/
theorem rtakeWhile_decodeLossy (separates : String.utf8EncodeChar c = [b]) (bytes : List UInt8) :
    (decodeLossy bytes).rtakeWhile (· ≠ c) = decodeLossy (bytes.rtakeWhile (· ≠ b)) := by
  obtain ⟨before, split, ends⟩ := decodeLossy_split low separates bytes
  have apart := decodeLossy_apart low separates bytes
  have stops : before.reverse.takeWhile (· ≠ c) = [] := by
    rcases ends with rfl | ⟨earlier, rfl⟩
    · rfl
    · simp
  rw [split, List.rtakeWhile, List.reverse_append, List.takeWhile_append_of_pos, stops,
    List.append_nil, List.reverse_reverse]
  intro other member
  exact apart other (List.mem_reverse.mp member)

/-- The text before the separators at the end is what is read before their bytes. -/
theorem rdropWhile_decodeLossy (separates : String.utf8EncodeChar c = [b]) (bytes : List UInt8) :
    (decodeLossy bytes).rdropWhile (· = c) = decodeLossy (bytes.rdropWhile (· = b)) := by
  induction bytes using List.reverseRecOn with
  | nil => simp [decodeLossy]
  | append_singleton bytes last ih =>
    by_cases same : last = b
    · have single : decodeLossy (bytes ++ [b]) = decodeLossy bytes ++ [c] := by
        rw [decodeLossy_append low [] separates]
        congr 1
        rw [decodeLossy]
      rw [same, single, List.rdropWhile_concat_pos _ _ _ (by simp),
        List.rdropWhile_concat_pos _ _ _ (by simp), ih]
    · rw [List.rdropWhile_concat_neg _ _ _ (by simpa using same)]
      obtain ⟨before, split, -⟩ := decodeLossy_split low separates (bytes ++ [last])
      have apart := decodeLossy_apart low separates (bytes ++ [last])
      have kept : (bytes ++ [last]).rtakeWhile (· ≠ b) ≠ [] := by
        rw [List.rtakeWhile_concat_pos _ _ _ (by simpa using same)]
        simp
      rw [List.rdropWhile_eq_self_iff]
      intro nonempty
      have filled : decodeLossy ((bytes ++ [last]).rtakeWhile (· ≠ b)) ≠ [] := by
        cases shape : (bytes ++ [last]).rtakeWhile (· ≠ b) with
        | nil => exact absurd shape kept
        | cons first rest =>
          rw [decodeLossy]
          split <;> simp
      have final : (decodeLossy (bytes ++ [last])).getLast nonempty =
          (decodeLossy ((bytes ++ [last]).rtakeWhile (· ≠ b))).getLast filled := by
        have whole : (before ++ decodeLossy ((bytes ++ [last]).rtakeWhile (· ≠ b))).getLast
            (split ▸ nonempty) = _ := List.getLast_append_of_ne_nil _ filled
        rw [← whole]
        congr 1
      rw [final]
      simpa using apart _ (List.getLast_mem filled)

end Separator

/-! ## Letters of either case -/

/-- `u8::to_ascii_lowercase`. -/
def lowerByte (b : UInt8) : UInt8 := if 0x41 ≤ b ∧ b ≤ 0x5A then b + 32 else b

/-- `<[u8]>::eq_ignore_ascii_case`. -/
def eqIgnoreAsciiCase (a b : List UInt8) : Prop := a.map lowerByte = b.map lowerByte

instance (a b : List UInt8) : Decidable (eqIgnoreAsciiCase a b) :=
  inferInstanceAs (Decidable (_ = _))

/-- Equal bytes encode equal text. -/
theorem encode_inj {s t : String} : encode s = encode t ↔ s = t := by
  constructor
  · intro same
    rw [← fromUtf8Lossy_encode s, same, fromUtf8Lossy_encode]
  · intro same
    rw [same]

/-- The bytes of a character in lowercase. -/
theorem map_lowerByte_utf8EncodeChar (c : Char) :
    (String.utf8EncodeChar c).map lowerByte = String.utf8EncodeChar c.toLower := by
  by_cases low : c.toNat < 128
  · have ascii : ∀ n < 128, (String.utf8EncodeChar (Char.ofNat n)).map lowerByte =
        String.utf8EncodeChar (Char.ofNat n).toLower := by decide +kernel
    have single := ascii c.toNat low
    rwa [Char.ofNat_toNat] at single
  · have kept : c.toLower = c := by
      refine dif_neg fun upper => ?_
      have high : c.toNat ≤ 90 := UInt32.le_iff_toNat_le.mp upper.2
      omega
    rw [kept]
    refine (List.map_congr_left fun b member => ?_).trans (List.map_id _)
    refine if_neg fun upper => ?_
    have small : b.toNat ≤ 90 := UInt8.le_iff_toNat_le.mp upper.2
    have code := (utf8EncodeChar_low member (by omega)).2
    omega

/-- Lowercasing the bytes of a text lowercases the text. -/
theorem map_lowerByte_encode (s : String) :
    (encode s).map lowerByte = encode (Text.toAsciiLowercase s) := by
  rw [encode, encode, Text.toAsciiLowercase, Text.toList_onChars, List.map_flatMap,
    List.flatMap_map]
  exact List.flatMap_congr fun c _ => map_lowerByte_utf8EncodeChar c

/-- Texts whose bytes are equal up to case are equal in lowercase. -/
theorem eqIgnoreAsciiCase_encode {s t : String} :
    eqIgnoreAsciiCase (encode s) (encode t) ↔
      Text.toAsciiLowercase s = Text.toAsciiLowercase t := by
  rw [eqIgnoreAsciiCase, map_lowerByte_encode, map_lowerByte_encode, encode_inj]

/-- Lowercase text is in lowercase. -/
theorem toAsciiLowercase_idem (s : String) :
    Text.toAsciiLowercase (Text.toAsciiLowercase s) = Text.toAsciiLowercase s := by
  have once : ∀ n < 256, lowerByte (lowerByte (UInt8.ofNat n)) = lowerByte (UInt8.ofNat n) := by
    decide +kernel
  rw [← encode_inj, ← map_lowerByte_encode, ← map_lowerByte_encode, List.map_map]
  refine List.map_congr_left fun b _ => ?_
  have lowered := once b.toNat b.toNat_lt
  rwa [UInt8.ofNat_toNat] at lowered

/-- ASCII bytes are the encoding of their characters. -/
theorem encode_ascii {bytes : List UInt8} (ascii : ∀ b ∈ bytes, b.toNat < 128) :
    encode (String.ofList (bytes.map fun b => Char.ofNat b.toNat)) = bytes := by
  have each : ∀ n < 128, String.utf8EncodeChar (Char.ofNat n) = [UInt8.ofNat n] := by
    decide +kernel
  rw [encode, String.toList_ofList, List.flatMap_map]
  induction bytes with
  | nil => rfl
  | cons b rest ih =>
    have low := ascii b List.mem_cons_self
    have single : String.utf8EncodeChar (Char.ofNat b.toNat) = [b] := by
      rw [each _ low, UInt8.ofNat_toNat]
    have later := ih fun other member => ascii other (List.mem_cons_of_mem _ member)
    rw [List.flatMap_cons, single, later]
    rfl

/-- The number of bytes of a text. -/
theorem length_encode (s : String) : (encode s).length = Text.byteLen s := by
  rw [encode, Text.byteLen, List.length_flatMap]
  congr 1
  exact List.map_congr_left fun c _ => String.length_utf8EncodeChar c

end Utf8
