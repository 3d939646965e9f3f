import Federate.Protocol
import Federate.Reference.Operations

/-!
# The size of a block's frame

A message travels as JSON, in which every byte of a block is written as a decimal number. The size
of a block's frame body is therefore between two and four times the size of the block, and the
frame cap decides by the digits of the bytes which blocks can be sent.
-/

namespace Federate

open Encoding Json Outcome

variable [Externals]

/-- `serde_json::to_vec` of a message is its compact text. -/
def MessagesCompact : Prop := ∀ msg : Message, Externals.toVec msg.toJson = compact msg.toJson

/-- The number of digits of a byte. -/
def digits (b : UInt8) : ℕ := (Nat.toDigits 10 b.toNat).length

/-- The size of the body of a block's frame: its digits, the commas between them, and 101 bytes
of everything else. -/
def blockBodyBytes (bytes : Bytes) : ℕ := (bytes.map digits).sum + (bytes.length - 1) + 101

omit [Externals] in
/-- The size of a block whose bytes are all the same. -/
theorem blockBodyBytes_replicate (n : ℕ) (b : UInt8) :
    blockBodyBytes (List.replicate n b) = n * digits b + (n - 1) + 101 := by
  simp [blockBodyBytes]

omit [Externals] in
/-- The array of a byte vector. -/
theorem length_bytesJson (bytes : Bytes) :
    (compact (bytesJson bytes)).length = (bytes.map digits).sum + (bytes.length - 1) + 2 := by
  have items : compactItems (bytes.map fun b => Json.num (.posInt b.toUInt64)) =
      bytes.map fun b => decimal b.toNat := by
    rw [compactItems_eq, List.map_map]
    refine List.map_congr_left fun b _ => ?_
    simp [compact, scalarText, numberText]
  have sizes : (bytes.map fun b => decimal b.toNat).map List.length = bytes.map digits := by
    rw [List.map_map]
    exact List.map_congr_left fun b _ => by simp [decimal, digits]
  rw [bytesJson, compact, items, List.length_append, List.length_append, length_intercalate, sizes]
  simp only [List.length_map, List.length_cons, List.length_nil]
  omega

omit [Externals] in
/-- Hexadecimal digits are written as they are between quotes. -/
theorem length_hexText (bytes : Bytes) :
    (stringText (Hex.encode bytes)).length = 2 * bytes.length + 2 := by
  have lowercase := Hex.encode_lowercase bytes
  rw [length_stringText, Hex.encode_length]
  intro c member
  have range : 48 ≤ c.toNat ∧ c.toNat ≤ 57 ∨ 97 ≤ c.toNat ∧ c.toNat ≤ 102 := by
    rcases lowercase c member with ⟨low, high⟩ | ⟨low, high⟩
    · exact .inl ⟨UInt32.le_iff_toNat_le.mp low, UInt32.le_iff_toNat_le.mp high⟩
    · exact .inr ⟨UInt32.le_iff_toNat_le.mp low, UInt32.le_iff_toNat_le.mp high⟩
  have plain : ∀ n : Fin 128, (48 ≤ n.val ∧ n.val ≤ 57 ∨ 97 ≤ n.val ∧ n.val ≤ 102) →
      escapeByte (Char.ofNat n).toUInt8 = [(Char.ofNat n).toUInt8] := by decide
  have below : c.toNat < 128 := by omega
  have own := plain ⟨c.toNat, below⟩ range
  rw [Char.ofNat_toNat] at own
  exact ⟨below, own⟩

/-- The text of a content address. -/
theorem length_hashText (bytes : Bytes) : (stringText (hashBytes bytes)).length = 66 := by
  rw [hashBytes, length_hexText]
  simp

/-- The text of a signature. -/
theorem length_signatureText (root : NodeIdentity) (message : Bytes) :
    (stringText (root.sign message)).length = 130 := by
  rw [NodeIdentity.sign, length_hexText]
  simp

/-- The body of a block's frame. -/
theorem length_blockBody (bytes : Bytes) :
    (compact (Message.block (hashBytes bytes) bytes).toJson).length = blockBodyBytes bytes := by
  have kind : (stringText "type" ++ ([0x3A] ++ compact (.str "block"))).length = 14 := by
    decide +kernel
  have hashKey : (stringText "hash").length = 6 := by decide +kernel
  have bytesKey : (stringText "bytes").length = 7 := by decide +kernel
  have hash : (compact (.str (hashBytes bytes))).length = 66 := by
    rw [compact, scalarText, length_hashText]
  rw [Message.toJson, compact, List.length_append, List.length_append, length_intercalate]
  simp only [compactFields, List.map_cons, List.map_nil, List.sum_cons, List.sum_nil, kind,
    List.length_append, List.length_cons, List.length_nil, hashKey, bytesKey, hash,
    length_bytesJson, blockBodyBytes]
  omega

/-- What `encode` returns: a body within the frame cap, after its length. -/
theorem encode_eq_ok {msg : Message} {frame : Bytes} : encode msg = .ok frame ↔
    (Externals.toVec msg.toJson).length ≤ maxFrameBytes ∧
      toBeBytes (UInt32.ofNat (Externals.toVec msg.toJson).length) ++ Externals.toVec msg.toJson =
        frame := by
  simp only [encode, bind_eq_ok, rejectIf_eq_ok, not_lt, exists_const, pure_eq_ok]

/-- A block can be sent exactly when the digits of its bytes and the commas between them leave
room for the rest under the frame cap. -/
theorem block_carried_iff (serializes : MessagesCompact) (bytes : Bytes) :
    (∃ frame, encode (.block (hashBytes bytes) bytes) = .ok frame) ↔
      blockBodyBytes bytes ≤ maxFrameBytes := by
  have size : (Externals.toVec (Message.block (hashBytes bytes) bytes).toJson).length =
      blockBodyBytes bytes := by rw [serializes, length_blockBody]
  simp only [encode_eq_ok, size, exists_and_left]
  constructor
  · intro both
    exact both.1
  · intro fits
    exact ⟨fits, _, rfl⟩

end Federate

namespace Federate.Reference

/-- The reference serializer writes compact text. -/
theorem messagesCompact : MessagesCompact := fun _ => rfl

/-- A short block can be sent. -/
theorem hello_carried : ∃ frame, encode (.block (hashBytes [0x68, 0x69]) [0x68, 0x69]) =
    .ok frame :=
  (block_carried_iff messagesCompact [0x68, 0x69]).mpr (by decide +kernel)

/-- A block of the largest legal size, every byte of which takes three digits. -/
def largestBlock : Bytes := List.replicate maxBlockBytes 0xFF

/-- The largest block cannot be sent, although its size is legal. -/
theorem largestBlock_not_carried : largestBlock.length ≤ maxBlockBytes ∧
    ¬∃ frame, encode (.block (hashBytes largestBlock) largestBlock) = .ok frame := by
  have size : largestBlock.length = maxBlockBytes := by rw [largestBlock, List.length_replicate]
  have threeDigits : digits 0xFF = 3 := by decide
  have body := blockBodyBytes_replicate maxBlockBytes 0xFF
  rw [← largestBlock, threeDigits] at body
  refine ⟨size.le, fun carried => ?_⟩
  obtain ⟨frame, encoded⟩ := carried
  have fits := (encode_eq_ok.mp encoded).1
  rw [messagesCompact, Federate.length_blockBody, body, maxBlockBytes, maxFrameBytes] at fits
  omega

end Federate.Reference
