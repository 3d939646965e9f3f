import Federate.Core

/-!
# Names, statuses and domain records

Parsing and validation of TLD names, labels and domains; the lifecycle statuses; and the
operator-signed domain record with the bytes its signature covers.
-/

namespace Federate

open Outcome

/-- `TldStatus`. -/
inductive TldStatus where
  | official | delegated | reserved | blocked | disabled | pending | expired | revoked
  deriving DecidableEq

namespace TldStatus

/-- Only official and delegated TLDs resolve. -/
def isResolvable : TldStatus → Bool
  | official | delegated => true
  | _ => false

/-- The serialized name. -/
def asStr : TldStatus → String
  | official => "official"
  | delegated => "delegated"
  | reserved => "reserved"
  | blocked => "blocked"
  | disabled => "disabled"
  | pending => "pending"
  | expired => "expired"
  | revoked => "revoked"

end TldStatus

/-- `TldMode`. -/
inductive TldMode where
  | official | delegated | reserved | blocked
  deriving DecidableEq

/-- The serialized name. -/
def TldMode.asStr : TldMode → String
  | official => "official"
  | delegated => "delegated"
  | reserved => "reserved"
  | blocked => "blocked"

/-- `RegistryType`: where the domain registry of a TLD lives. -/
inductive RegistryType where
  | rootManaged | delegatedManifest | delegatedNative | delegatedHttp | offlineManual
  deriving DecidableEq

namespace RegistryType

/-- The serialized name. -/
def asStr : RegistryType → String
  | rootManaged => "root_managed"
  | delegatedManifest => "delegated_manifest"
  | delegatedNative => "delegated_native"
  | delegatedHttp => "delegated_http"
  | offlineManual => "offline_manual"

/-- The derived `Debug` name. -/
def debugName : RegistryType → String
  | rootManaged => "RootManaged"
  | delegatedManifest => "DelegatedManifest"
  | delegatedNative => "DelegatedNative"
  | delegatedHttp => "DelegatedHttp"
  | offlineManual => "OfflineManual"

end RegistryType

/-- `DomainStatus`. -/
inductive DomainStatus where
  | active | reserved | pending | suspended | expired | revoked | transferred
  deriving DecidableEq

namespace DomainStatus

/-- Only active domains resolve. -/
def isResolvable : DomainStatus → Bool
  | active => true
  | _ => false

/-- The serialized name. -/
def asStr : DomainStatus → String
  | active => "active"
  | reserved => "reserved"
  | pending => "pending"
  | suspended => "suspended"
  | expired => "expired"
  | revoked => "revoked"
  | transferred => "transferred"

end DomainStatus

/-- `TargetType`: what a domain record points at. -/
inductive TargetType where
  | manifest | service | node | redirect | placeholder
  deriving DecidableEq

/-- The serialized name. -/
def TargetType.asStr : TargetType → String
  | manifest => "manifest"
  | service => "service"
  | node => "node"
  | redirect => "redirect"
  | placeholder => "placeholder"

/-- `expired_at`: an expiry that does not parse counts as passed. -/
def expiredAt [Externals] (expiresAt : Option String) (now : DateTime) : Bool :=
  match expiresAt with
  | none => false
  | some text =>
    match Externals.parseFromRfc3339 text with
    | some t => t.nanos ≤ now.nanos
    | none => true

/-! ## Naming rules -/

/-- `validate_tld_name`: the normal form of a TLD name. -/
def validateTldName (input : String) : Result String :=
  let tld := Text.toAsciiLowercase (Text.trimStartMatches '.' (Text.trim input))
  let reject (reason : String) : FederateError := .invalidTldName input reason
  do
    rejectIf (Text.byteLen tld < 2 ∨ Text.byteLen tld > 32)
      (reject "length must be 2-32 characters")
    rejectIf (tld.toList.all Text.isAsciiLowercase = false)
      (reject
        "only lowercase ASCII letters a-z are allowed (no digits, hyphens, dots, or unicode)")
    return tld

/-- The characters of a domain label. -/
def isLabelChar (c : Char) : Bool := Text.isAsciiLowercase c || Text.isAsciiDigit c || c = '-'

/-- `validate_label`: the normal form of a domain label. -/
def validateLabel (input : String) : Result String :=
  let label := Text.toAsciiLowercase (Text.trim input)
  let reject (reason : String) : FederateError :=
    .notFederateDomain s!"invalid label '{input}': {reason}"
  do
    rejectIf (label.toList = [] ∨ Text.byteLen label > 63)
      (reject "length must be 1-63 characters")
    rejectIf (label.toList.all isLabelChar = false)
      (reject "only a-z, 0-9 and hyphen are allowed")
    rejectIf (label.toList.head? = some '-' ∨ label.toList.getLast? = some '-')
      (reject "hyphen not allowed at start or end")
    return label

/-- `FederateDomain`: one label and one TLD. -/
@[ext] structure FederateDomain where
  /-- The label. -/
  name : String
  /-- The TLD. -/
  tld : String
  deriving DecidableEq

namespace FederateDomain

/-- `FederateDomain::parse`: a host header value, any port stripped. -/
def parse (host : String) : Result FederateDomain := do
  let host := Text.toAsciiLowercase (Text.beforeFirst ':' host)
  let tld ← okOr (Text.afterFirst '.' host) (.notFederateDomain host)
  rejectIf ('.' ∈ tld.toList)
    (.notFederateDomain
      s!"{host}: subdomains are not supported yet (exactly one label + one TLD)")
  let name ← validateLabel (Text.beforeFirst '.' host)
  let tld ← validateTldName tld
  return ⟨name, tld⟩

/-- `FederateDomain::fqdn`. -/
def fqdn (d : FederateDomain) : String := d.name ++ "." ++ d.tld

end FederateDomain

/-! ## Domain records -/

/-- `DomainRecord`. -/
structure DomainRecord where
  /-- The full name. -/
  domain : String
  /-- The TLD part. -/
  tld : String
  /-- The label part. -/
  label : String
  /-- The key that may publish and update the domain's manifest. -/
  ownerPublicKey : String
  /-- What the record points at. -/
  targetType : TargetType
  /-- Content address of the current manifest. -/
  manifestHash : String
  /-- Placeholder of a service identity. -/
  serviceId : Option String
  /-- Placeholder of a node identity. -/
  nodeId : Option String
  /-- Lifecycle status. -/
  status : DomainStatus
  /-- Creation time. -/
  createdAt : String
  /-- Last update time. -/
  updatedAt : String
  /-- Lease end. -/
  expiresAt : Option String
  /-- Renewal metadata. -/
  renewal : Option Value
  /-- Pricing metadata. -/
  pricing : Option Value
  /-- Name of the signature scheme. -/
  signatureAlgorithm : String
  /-- Operator signature over the canonical bytes. -/
  signature : Option String

namespace DomainRecord

/-- The serialized record; absent optional members are skipped, `signature` is `null`. -/
def toJson (r : DomainRecord) : Json :=
  .obj <|
    [("domain", .str r.domain), ("tld", .str r.tld), ("label", .str r.label),
      ("owner_public_key", .str r.ownerPublicKey), ("target_type", .str r.targetType.asStr),
      ("manifest_hash", .str r.manifestHash)] ++
    Json.optField "service_id" (r.serviceId.map .str) ++
    Json.optField "node_id" (r.nodeId.map .str) ++
    [("status", .str r.status.asStr), ("created_at", .str r.createdAt),
      ("updated_at", .str r.updatedAt)] ++
    Json.optField "expires_at" (r.expiresAt.map .str) ++
    Json.optField "renewal" (r.renewal.map Value.tree) ++
    Json.optField "pricing" (r.pricing.map Value.tree) ++
    [("signature_algorithm", .str r.signatureAlgorithm), ("signature", Json.ofOption r.signature)]

variable [Externals]

/-- `DomainRecord::is_expired`, at a reading of the wall clock. -/
def isExpired (r : DomainRecord) (now : DateTime) : Bool := expiredAt r.expiresAt now

/-- `DomainRecord::signable_bytes`. -/
def signableBytes (r : DomainRecord) : Bytes := canonicalBytes { r with signature := none }.toJson

/-- `DomainRecord::verify`: consistent with its TLD and signed by the operator key. -/
def verify (r : DomainRecord) (operatorPublicKey : String) : Result Unit :=
  let fail (reason : String) : FederateError := .verificationFailed "domain" r.domain reason
  do
    rejectIf (r.domain ≠ r.label ++ "." ++ r.tld) (fail "domain does not match label + tld")
    let signature ← okOr r.signature (fail "record is unsigned")
    rejectIf (verifySignature operatorPublicKey r.signableBytes signature = false)
      (fail "signature is not from the authorized TLD operator key")

/-- The checks of a verified record. -/
theorem verify_eq_ok {r : DomainRecord} {key : String} {u : Unit} :
    r.verify key = .ok u ↔ r.domain = r.label ++ "." ++ r.tld ∧
      ∃ signature, r.signature = some signature ∧
        verifySignature key r.signableBytes signature = true := by
  simp [verify]

/-- `record.signature = Some(operator.sign(&record.signable_bytes()?))`. -/
def signedBy (r : DomainRecord) (operator : NodeIdentity) : DomainRecord :=
  { r with signature := some (operator.sign r.signableBytes) }

/-- A consistent record signed by an identity verifies under its node id. -/
theorem verify_signedBy (signs : SignaturesVerify) (r : DomainRecord) (operator : NodeIdentity)
    (consistent : r.domain = r.label ++ "." ++ r.tld) :
    (r.signedBy operator).verify operator.nodeId = .ok () :=
  verify_eq_ok.mpr ⟨consistent, _, rfl, verifySignature_sign signs operator _⟩

end DomainRecord

end Federate
