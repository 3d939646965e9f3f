import Federate.Library.Ip

/-!
# Words and slices of bytes

Words of two and four bytes are written most significant byte first, and read back at a position.
A slice is taken where it lies within the bytes; a slice that was written after known bytes is
found behind them.
-/

namespace Octets

/-- `u16::to_be_bytes`. -/
def be16 (v : UInt16) : List UInt8 := [UInt8.ofNat (v.toNat / 256), UInt8.ofNat (v.toNat % 256)]

/-- `u32::to_be_bytes`. -/
def be32 (v : UInt32) : List UInt8 :=
  [UInt8.ofNat (v.toNat / 16777216), UInt8.ofNat (v.toNat / 65536 % 256),
    UInt8.ofNat (v.toNat / 256 % 256), UInt8.ofNat (v.toNat % 256)]

/-- `u16::from_be_bytes` of the bytes at a position. -/
def word16 (bytes : List UInt8) (pos : ℕ) : UInt16 :=
  Ip.group (bytes.getD pos 0) (bytes.getD (pos + 1) 0)

/-- `u32::from_be_bytes` of the bytes at a position. -/
def word32 (bytes : List UInt8) (pos : ℕ) : UInt32 :=
  UInt32.ofNat (65536 * (word16 bytes pos).toNat + (word16 bytes (pos + 2)).toNat)

/-- `bytes.get(pos..pos + len)`. -/
def slice (bytes : List UInt8) (pos len : ℕ) : Option (List UInt8) :=
  if pos + len ≤ bytes.length then some ((bytes.drop pos).take len) else none

section Words

variable {bytes : List UInt8} {pos : ℕ}

@[simp] theorem length_be16 (v : UInt16) : (be16 v).length = 2 := rfl

@[simp] theorem length_be32 (v : UInt32) : (be32 v).length = 4 := rfl

/-- Two bytes of a word make the word. -/
theorem group_be16 (v : UInt16) :
    Ip.group (UInt8.ofNat (v.toNat / 256)) (UInt8.ofNat (v.toNat % 256)) = v := by
  have bound : v.toNat < 65536 := v.toNat_lt
  rw [← UInt16.toNat_inj]
  simp only [Ip.group, UInt16.toNat_ofNat', UInt8.toNat_ofNat']
  omega

/-- A word is read where it was written. -/
theorem word16_at {v : UInt16} (rest : List UInt8) (found : bytes.drop pos = be16 v ++ rest) :
    word16 bytes pos = v := by
  have first : bytes[pos]? = some (UInt8.ofNat (v.toNat / 256)) := by
    have head := congrArg (fun l => l[0]?) found
    simpa [be16] using head
  have second : bytes[pos + 1]? = some (UInt8.ofNat (v.toNat % 256)) := by
    have next := congrArg (fun l => l[1]?) found
    simpa [be16] using next
  rw [word16, List.getD_eq_getElem?_getD, List.getD_eq_getElem?_getD, first, second]
  exact group_be16 v

/-- A word of four bytes is read where it was written. -/
theorem word32_at {v : UInt32} (rest : List UInt8) (found : bytes.drop pos = be32 v ++ rest) :
    word32 bytes pos = v := by
  have bound : v.toNat < 4294967296 := v.toNat_lt
  have split : be32 v =
      be16 (UInt16.ofNat (v.toNat / 65536)) ++ be16 (UInt16.ofNat (v.toNat % 65536)) := by
    simp only [be32, be16, List.cons_append, List.nil_append, UInt16.toNat_ofNat', List.cons.injEq,
      and_true, ← UInt8.toNat_inj, UInt8.toNat_ofNat']
    omega
  have high : word16 bytes pos = UInt16.ofNat (v.toNat / 65536) := by
    rw [split, List.append_assoc] at found
    exact word16_at _ found
  have low : word16 bytes (pos + 2) = UInt16.ofNat (v.toNat % 65536) := by
    refine word16_at rest ?_
    rw [← List.drop_drop, found, split, List.append_assoc]
    rfl
  rw [word32, high, low, ← UInt32.toNat_inj]
  simp only [UInt16.toNat_ofNat', UInt32.toNat_ofNat']
  omega

end Words

section Slices

variable {bytes part rest : List UInt8} {pos len : ℕ}

/-- A slice is what lies there. -/
theorem slice_eq_some : slice bytes pos len = some part ↔
    ∃ rest, pos ≤ bytes.length ∧ bytes.drop pos = part ++ rest ∧ part.length = len := by
  unfold slice
  constructor
  · intro found
    split at found
    · rename_i fits
      rw [← Option.some.inj found]
      refine ⟨(bytes.drop pos).drop len, by omega, (List.take_append_drop _ _).symm, ?_⟩
      rw [List.length_take, List.length_drop]
      omega
    · exact absurd found nofun
  · intro found
    obtain ⟨rest, within, split, length⟩ := found
    have total := congrArg List.length split
    rw [List.length_drop, List.length_append] at total
    rw [if_pos (by omega), split, ← length, List.take_left]

/-- A slice is found where it was written. -/
theorem slice_at (within : pos ≤ bytes.length) (found : bytes.drop pos = part ++ rest) :
    slice bytes pos part.length = some part :=
  slice_eq_some.mpr ⟨rest, within, found, rfl⟩

/-- A slice of the first bytes is one of all of them. -/
theorem slice_initial {short : List UInt8} (initial : short <+: bytes)
    (found : slice short pos len = some part) :
    slice bytes pos len = some part ∧ pos + len ≤ short.length := by
  obtain ⟨rest, within, split, length⟩ := slice_eq_some.mp found
  obtain ⟨more, whole⟩ := initial
  have total := congrArg List.length split
  rw [List.length_drop, List.length_append] at total
  refine ⟨slice_eq_some.mpr ⟨rest ++ more, ?_, ?_, length⟩, by omega⟩
  · rw [← whole, List.length_append]
    omega
  · rw [← whole, List.drop_append_of_le_length within, split, List.append_assoc]

/-- What follows a written part. -/
theorem drop_at (found : bytes.drop pos = part ++ rest) :
    bytes.drop (pos + part.length) = rest := by
  rw [← List.drop_drop, found, List.drop_left]

end Slices

end Octets
