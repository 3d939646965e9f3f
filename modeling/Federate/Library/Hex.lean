import Federate.Library.Outcome

/-!
# Hexadecimal text of bytes

Two lowercase digits a byte, most significant first. Reading accepts both cases and refuses
an odd number of digits.
-/
namespace Hex

/-- Bytes in order. -/
abbrev Bytes := List UInt8

/-- The lowercase digit of a value below sixteen. -/
def digit (n : ℕ) : Char := if n < 10 then Char.ofNat (48 + n) else Char.ofNat (87 + n)

/-- The value of a digit of either case. -/
def digitValue (c : Char) : Option ℕ :=
  if '0' ≤ c ∧ c ≤ '9' then some (c.toNat - 48)
  else if 'a' ≤ c ∧ c ≤ 'f' then some (c.toNat - 87)
  else if 'A' ≤ c ∧ c ≤ 'F' then some (c.toNat - 55)
  else none

/-- The two digits of a byte. -/
def byteDigits (b : UInt8) : List Char := [digit (b.toNat / 16), digit (b.toNat % 16)]

/-- `hex::encode`. -/
def encode (bytes : Bytes) : String := String.ofList (bytes.flatMap byteDigits)

/-- Read digits two at a time. -/
def decodeChars : List Char → Option Bytes
  | [] => some []
  | [_] => none
  | high :: low :: rest => do
    let h ← digitValue high
    let l ← digitValue low
    let tail ← decodeChars rest
    some (UInt8.ofNat (16 * h + l) :: tail)

/-- `hex::decode`. -/
def decode (s : String) : Option Bytes := decodeChars s.toList

/-- Every digit is read back as its value. -/
theorem digitValue_digit : ∀ n < 16, digitValue (digit n) = some n := by decide

/-- The digits of a list of bytes are read back as the bytes. -/
theorem decodeChars_digits (bytes : Bytes) : decodeChars (bytes.flatMap byteDigits) = some bytes := by
  induction bytes with
  | nil => rfl
  | cons b rest ih =>
    have high := digitValue_digit (b.toNat / 16) (by have := b.toNat_lt; omega)
    have low := digitValue_digit (b.toNat % 16) (Nat.mod_lt _ (by decide))
    have whole : UInt8.ofNat (16 * (b.toNat / 16) + b.toNat % 16) = b := by
      rw [Nat.div_add_mod, UInt8.ofNat_toNat]
    simp only [List.flatMap_cons, byteDigits, List.cons_append, List.nil_append, decodeChars, high,
      low, ih, bind, Option.bind, whole]

/-- Reading the hexadecimal text of bytes returns the bytes. -/
@[simp] theorem decode_encode (bytes : Bytes) : decode (encode bytes) = some bytes := by
  simp [decode, encode, decodeChars_digits]

/-- Text that is read has digits only. -/
theorem decodeChars_digitValue : ∀ {chars : List Char} {bytes : Bytes},
    decodeChars chars = some bytes → ∀ c ∈ chars, digitValue c ≠ none
  | [], _, _ => nofun
  | [_], _, reads => absurd reads nofun
  | high :: low :: rest, bytes, reads => by
    simp only [decodeChars, bind, Option.bind_eq_some_iff] at reads
    obtain ⟨h, highDigit, l, lowDigit, tail, restReads, -⟩ := reads
    intro c member
    rcases List.mem_cons.mp member with rfl | member
    · rw [highDigit]
      exact nofun
    · rcases List.mem_cons.mp member with rfl | member
      · rw [lowDigit]
        exact nofun
      · exact decodeChars_digitValue restReads c member

/-- The digit of the value of a digit that is not uppercase is that digit. -/
theorem digit_digitValue {c : Char} {n : ℕ} (reads : digitValue c = some n)
    (lower : ¬('A' ≤ c ∧ c ≤ 'F')) : n < 16 ∧ digit n = c := by
  rw [digitValue, if_neg lower] at reads
  simp only [Char.le_def, UInt32.le_iff_toNat_le] at reads
  have own (k : ℕ) (same : k = c.toNat) : Char.ofNat k = c := by rw [same, Char.ofNat_toNat]
  have zero : '0'.val.toNat = 48 := rfl
  have nine : '9'.val.toNat = 57 := rfl
  have lowA : 'a'.val.toNat = 97 := rfl
  have lowF : 'f'.val.toNat = 102 := rfl
  have value : c.val.toNat = c.toNat := rfl
  rw [zero, nine, lowA, lowF, value] at reads
  split at reads
  · have small : n = c.toNat - 48 := (Option.some.inj reads).symm
    refine ⟨by omega, ?_⟩
    rw [digit, if_pos (by omega)]
    exact own _ (by omega)
  · split at reads
    · have small : n = c.toNat - 87 := (Option.some.inj reads).symm
      refine ⟨by omega, ?_⟩
      rw [digit, if_neg (by omega)]
      exact own _ (by omega)
    · cases reads

/-- Text without uppercase digits is what its bytes are written as. -/
theorem decodeChars_lowercase {chars : List Char} {bytes : Bytes}
    (reads : decodeChars chars = some bytes) (lower : ∀ c ∈ chars, ¬('A' ≤ c ∧ c ≤ 'F')) :
    bytes.flatMap byteDigits = chars := by
  induction chars using decodeChars.induct generalizing bytes with
  | case1 =>
    rw [decodeChars] at reads
    rw [← Option.some.inj reads]
    rfl
  | case2 => simp [decodeChars] at reads
  | case3 high low rest ih =>
    simp only [decodeChars, bind, Option.bind_eq_some_iff, Option.some.injEq] at reads
    obtain ⟨h, highDigit, l, lowDigit, tail, restReads, rfl⟩ := reads
    have first := digit_digitValue highDigit (lower high (by simp))
    have second := digit_digitValue lowDigit (lower low (by simp))
    have byte : (UInt8.ofNat (16 * h + l)).toNat = 16 * h + l := by
      rw [UInt8.toNat_ofNat']
      omega
    have later := ih restReads fun c member =>
      lower c (List.mem_cons_of_mem _ (List.mem_cons_of_mem _ member))
    have quotient : (16 * h + l) / 16 = h := by omega
    have remainder : (16 * h + l) % 16 = l := by omega
    rw [List.flatMap_cons, byteDigits, byte, quotient, remainder, first.2, second.2, later]
    rfl

/-- Text without uppercase digits is the encoding of its bytes. -/
theorem encode_of_decode {s : String} {bytes : Bytes} (reads : decode s = some bytes)
    (lower : ∀ c ∈ s.toList, ¬('A' ≤ c ∧ c ≤ 'F')) : encode bytes = s := by
  rw [← String.toList_inj, encode, String.toList_ofList]
  exact decodeChars_lowercase reads lower

/-- A written digit is a decimal digit or a lowercase letter. -/
theorem digit_lowercase : ∀ n < 16, '0' ≤ digit n ∧ digit n ≤ '9' ∨
    'a' ≤ digit n ∧ digit n ≤ 'f' := by decide

/-- Every character of a hexadecimal text is a lowercase digit. -/
theorem encode_lowercase (bytes : Bytes) :
    ∀ c ∈ (encode bytes).toList, '0' ≤ c ∧ c ≤ '9' ∨ 'a' ≤ c ∧ c ≤ 'f' := by
  intro c member
  simp only [encode, String.toList_ofList, List.mem_flatMap, byteDigits, List.mem_cons,
    List.not_mem_nil, or_false] at member
  obtain ⟨b, -, rfl | rfl⟩ := member
  · exact digit_lowercase _ (by have := b.toNat_lt; omega)
  · exact digit_lowercase _ (Nat.mod_lt _ (by decide))

/-- A hexadecimal text has two characters a byte. -/
theorem encode_length (bytes : Bytes) : (encode bytes).toList.length = 2 * bytes.length := by
  induction bytes with
  | nil => rfl
  | cons b rest ih =>
    simp only [encode, String.toList_ofList] at ih ⊢
    simp [byteDigits, ih]
    omega

end Hex
