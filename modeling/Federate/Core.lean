import Federate.Library.JsonText
import Federate.Library.Text

/-!
# Shared types

The error type, the libraries the code calls, and the canonical serialization that every
signature and state hash covers. The hash, the signature scheme, the clock's text format and
the JSON writer are third-party code: they are the operations of `Externals`, and a result
that relies on one of their laws names it.
-/

namespace Federate

export Hex (Bytes)

/-- A map with its keys in order (`BTreeMap`, and a database table). -/
abbrev Table (κ α : Type) [Ord κ] := Std.ExtTreeMap κ α

/-- A UTC time, in nanoseconds since the epoch. -/
structure DateTime where
  /-- Nanoseconds since the epoch. -/
  nanos : ℤ
  deriving DecidableEq

/-- `DateTime::timestamp`: whole seconds since the epoch, rounded down. -/
def DateTime.timestamp (t : DateTime) : ℤ := t.nanos / 1000000000

/-- The third-party operations the code calls. -/
class Externals where
  /-- `blake3::hash`. -/
  blake3 : Bytes → Vector UInt8 32
  /-- `SigningKey::verifying_key`, as its 32 bytes. -/
  verifyingKey : Vector UInt8 32 → Vector UInt8 32
  /-- `SigningKey::sign`, as its 64 bytes. -/
  signMessage : Vector UInt8 32 → Bytes → Vector UInt8 64
  /-- `VerifyingKey::from_bytes` followed by `Verifier::verify`; false for an invalid key. -/
  verifyMessage : Vector UInt8 32 → Bytes → Vector UInt8 64 → Bool
  /-- `DateTime::to_rfc3339`. -/
  toRfc3339 : DateTime → String
  /-- `DateTime::parse_from_rfc3339`. -/
  parseFromRfc3339 : String → Option DateTime
  /-- `serde_json::to_vec` of a JSON tree: its compact text. -/
  toVec : Json → Bytes
  /-- `serde_json::to_vec_pretty` of a JSON tree: its indented text. -/
  toVecPretty : Json → Bytes

/-- A signature made with a key verifies under its verifying key. -/
def SignaturesVerify [Externals] : Prop :=
  ∀ key message, Externals.verifyMessage (Externals.verifyingKey key) message
    (Externals.signMessage key message) = true

/-- `federate_core::NETWORK_NAME`. -/
def networkName : String := "federate"

/-- `FederateError`. -/
inductive FederateError where
  | notFederateDomain (detail : String)
  | unknownTld (tld : String)
  | domainNotFound (domain : String)
  | pathNotFound (path : String)
  | manifestNotFound (detail : String)
  | blockNotFound (hash : String)
  | hashMismatch (expected actual : String)
  | rootUnavailable
  | invalidRoot (detail : String)
  | invalidTldName (name reason : String)
  | blockedTld (tld reason : String)
  | reservedTld (tld reason : String)
  | tldNotFound (tld : String)
  | tldUnavailable (tld status : String)
  | delegatedRegistryUnavailable (tld reason : String)
  | verificationFailed (layer subject reason : String)
  | invalidSignature
  | unauthorized (detail : String)
  | replay (detail : String)
  | mutationRejected (detail : String)
  | storage (detail : String)
  | network (detail : String)
  | io (detail : String)
  | serde (detail : String)
  deriving DecidableEq

/-- `Display` of an error, as embedded in the text of another. -/
instance : ToString FederateError where
  toString
    | .notFederateDomain detail => s!"not a federate domain: {detail}"
    | .unknownTld tld => s!"unknown TLD: {tld}"
    | .domainNotFound domain => s!"domain not found in root zone: {domain}"
    | .pathNotFound path => s!"path not found in manifest: {path}"
    | .manifestNotFound detail => s!"manifest not found: {detail}"
    | .blockNotFound hash => s!"block not found: {hash}"
    | .hashMismatch expected actual => s!"hash mismatch: expected {expected}, got {actual}"
    | .rootUnavailable => "root zone unavailable (network down and no local cache)"
    | .invalidRoot detail => s!"invalid root zone: {detail}"
    | .invalidTldName name reason => s!"invalid TLD name '{name}': {reason}"
    | .blockedTld tld reason => s!"TLD '{tld}' is blocked: {reason}"
    | .reservedTld tld reason => s!"TLD '{tld}' is reserved: {reason}"
    | .tldNotFound tld => s!"TLD '{tld}' not found in Federate root registry"
    | .tldUnavailable tld status => s!"TLD '{tld}' is not resolvable (status: {status})"
    | .delegatedRegistryUnavailable tld reason =>
      s!"delegated registry for TLD '{tld}' unavailable: {reason}"
    | .verificationFailed layer subject reason =>
      s!"verification failed at {layer} layer for '{subject}': {reason}"
    | .invalidSignature => "invalid signature"
    | .unauthorized detail => s!"unauthorized: {detail}"
    | .replay detail => s!"replay rejected: {detail}"
    | .mutationRejected detail => s!"mutation rejected: {detail}"
    | .storage detail => s!"storage error: {detail}"
    | .network detail => s!"network error: {detail}"
    | .io detail => s!"io error: {detail}"
    | .serde detail => s!"serialization error: {detail}"

/-- `federate_core::Result`. -/
abbrev Result (α : Type) := Except FederateError α

/-- `?` on a JSON error, which is its text. -/
def serde {α : Type} (x : Except String α) : Result α := Outcome.mapError .serde x

/-- A value read from JSON is the one that was read. -/
@[simp] theorem serde_eq_ok {α : Type} {x : Except String α} {a : α} :
    serde x = .ok a ↔ x = .ok a := Outcome.mapError_eq_ok

section Canonical

variable [Externals]

mutual
/-- `write_canonical`: compact JSON with the keys of every object sorted. -/
def writeCanonical : Json → Bytes
  | .obj fields =>
    let sorted := (writeFields fields).insertionSort (fun a b => a.1 ≤ b.1)
    [0x7B] ++ [0x2C].intercalate
      (sorted.map fun field => Externals.toVec (.str field.1) ++ [0x3A] ++ field.2) ++ [0x7D]
  | .arr items => [0x5B] ++ [0x2C].intercalate (writeItems items) ++ [0x5D]
  | .null => Externals.toVec .null
  | .bool b => Externals.toVec (.bool b)
  | .num n => Externals.toVec (.num n)
  | .str s => Externals.toVec (.str s)

/-- The items of an array, each written. -/
def writeItems : List Json → List Bytes
  | [] => []
  | item :: rest => writeCanonical item :: writeItems rest

/-- The members of an object, each value written. -/
def writeFields : List (String × Json) → List (String × Bytes)
  | [] => []
  | (key, value) :: rest => (key, writeCanonical value) :: writeFields rest
end

/-- `canonical_bytes`. The members of a serialized record have distinct names, so the map that
`to_value` builds holds the same members. -/
def canonicalBytes (value : Json) : Bytes := writeCanonical value

/-- The compact text of scalars: JSON tokens, with different integers written differently. -/
structure CompactText : Prop where
  /-- Each scalar is a token. -/
  tokens : Json.Tokens Externals.toVec
  /-- An integer is determined by its text. -/
  integers : ∀ m n : Number, m.Integral → n.Integral →
    Externals.toVec (.num m) = Externals.toVec (.num n) → m = n

end Canonical

/-! ## Node identities -/

/-- `NodeIdentity`: a signing key. -/
structure NodeIdentity where
  /-- The 32 bytes of the key. -/
  signingKey : Vector UInt8 32

/-- An array of a fixed length, when the list has it. -/
def toArray (n : ℕ) (bytes : Bytes) : Option (Vector UInt8 n) :=
  if h : bytes.length = n then some ⟨bytes.toArray, by simpa using h⟩ else none

/-- The bytes of an array are read back as the array. -/
@[simp] theorem toArray_toList {n : ℕ} (v : Vector UInt8 n) : toArray n v.toList = some v := by
  cases v
  simp_all [toArray]

section Identity

variable [Externals]

/-- `NodeIdentity::node_id`: the hexadecimal verifying key. -/
def NodeIdentity.nodeId (i : NodeIdentity) : String :=
  Hex.encode (Externals.verifyingKey i.signingKey).toList

/-- `NodeIdentity::sign`. -/
def NodeIdentity.sign (i : NodeIdentity) (message : Bytes) : String :=
  Hex.encode (Externals.signMessage i.signingKey message).toList

/-- `federate_identity::verify_signature`. -/
def verifySignature (publicKeyHex : String) (message : Bytes) (signatureHex : String) : Bool :=
  let decoded := do
    let publicKey ← (Hex.decode publicKeyHex).bind (toArray 32)
    let signature ← (Hex.decode signatureHex).bind (toArray 64)
    some (Externals.verifyMessage publicKey message signature)
  decoded.getD false

/-- A signature made by an identity verifies under its node id. -/
theorem verifySignature_sign (signs : SignaturesVerify) (i : NodeIdentity) (message : Bytes) :
    verifySignature i.nodeId message (i.sign message) = true := by
  simp [verifySignature, NodeIdentity.nodeId, NodeIdentity.sign, signs i.signingKey message]

/-! ## Content addresses -/

/-- `federate_storage::hash_bytes`. -/
def hashBytes (bytes : Bytes) : String := Hex.encode (Externals.blake3 bytes).toList

/-- `federate_storage::is_valid_hash`: 64 lowercase hexadecimal digits. -/
def isValidHash (hash : String) : Bool :=
  Text.byteLen hash = 64 &&
    hash.toList.all fun c => Text.isAsciiHexdigit c && !('A' ≤ c && c ≤ 'Z')

/-- `federate_storage::verify`. -/
def verifyHash (bytes : Bytes) (expected : String) : Result Unit := do
  Outcome.rejectIf (isValidHash expected = false)
    (.hashMismatch expected "<malformed expected hash>")
  Outcome.rejectIf (hashBytes bytes ≠ expected) (.hashMismatch expected (hashBytes bytes))

/-- Bytes pass verification exactly against their own well-formed hash. -/
@[simp] theorem verifyHash_eq_ok {bytes : Bytes} {expected : String} {u : Unit} :
    verifyHash bytes expected = .ok u ↔ isValidHash expected = true ∧ hashBytes bytes = expected := by
  simp [verifyHash]

/-- The hash of any bytes is a well-formed content address. -/
@[simp] theorem isValidHash_hashBytes (bytes : Bytes) : isValidHash (hashBytes bytes) = true := by
  have lowercase := Hex.encode_lowercase (Externals.blake3 bytes).toList
  have ascii : ∀ c ∈ (hashBytes bytes).toList, c.toNat < 128 := by
    intro c member
    rcases lowercase c member with ⟨-, upper⟩ | ⟨-, upper⟩ <;>
      exact Nat.lt_of_le_of_lt (UInt32.le_iff_toNat_le.mp upper) (by decide)
  have length : Text.byteLen (hashBytes bytes) = 64 := by
    rw [Text.byteLen_ascii ascii, hashBytes, Hex.encode_length]
    simp
  have digits : ∀ c ∈ (hashBytes bytes).toList,
      (Text.isAsciiHexdigit c && !('A' ≤ c && c ≤ 'Z')) = true := by
    intro c member
    rcases lowercase c member with ⟨low, high⟩ | ⟨low, high⟩
    · have notUpper : ¬ 'A' ≤ c := fun above => absurd (le_trans above high) (by decide)
      simp [Text.isAsciiHexdigit, Text.isAsciiDigit, low, high, notUpper]
    · have notUpper : ¬c ≤ 'Z' := fun below => absurd (le_trans low below) (by decide)
      simp [Text.isAsciiHexdigit, low, high, notUpper]
  rw [isValidHash, length, List.all_eq_true.mpr digits]
  rfl

end Identity

end Federate
