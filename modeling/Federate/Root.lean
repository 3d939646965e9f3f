import Federate.Naming

/-!
# The root zone

TLD records and the root zone with their signed bytes and checks, and the blocklists that
decide which names a new TLD may take.
-/

namespace Federate

open Outcome

/-- `federate_root::SIGNATURE_ALGORITHM`. -/
def signatureAlgorithm : String := "ed25519"

/-- `TldRecord`. -/
structure TldRecord where
  /-- The TLD name. -/
  tld : String
  /-- Lifecycle status. -/
  status : TldStatus
  /-- Operational mode. -/
  mode : TldMode
  /-- Economic owner. -/
  ownerPublicKey : String
  /-- The key that operates the registry and signs domain records. -/
  operatorPublicKey : String
  /-- Name of the operator. -/
  operatorName : String
  /-- Where the registry lives. -/
  registryType : RegistryType
  /-- Base URL of an HTTP registry. -/
  registryEndpoint : Option String
  /-- Content address of a pinned registry. -/
  registryManifestHash : Option String
  /-- Native providers of a live registry. -/
  registryProviders : List String
  /-- Hash of the policy document. -/
  policyHash : Option String
  /-- Pricing metadata. -/
  pricing : Option Value
  /-- Creation time. -/
  createdAt : String
  /-- Last update time. -/
  updatedAt : String
  /-- Lease end. -/
  expiresAt : Option String
  /-- Free text. -/
  notes : Option String
  /-- Name of the signature scheme. -/
  signatureAlgorithm : String
  /-- Root signature over the canonical bytes. -/
  signature : Option String

namespace TldRecord

/-- The serialized record. -/
def toJson (r : TldRecord) : Json :=
  .obj <|
    [("tld", .str r.tld), ("status", .str r.status.asStr), ("mode", .str r.mode.asStr),
      ("owner_public_key", .str r.ownerPublicKey),
      ("operator_public_key", .str r.operatorPublicKey), ("operator_name", .str r.operatorName),
      ("registry_type", .str r.registryType.asStr)] ++
    Json.optField "registry_endpoint" (r.registryEndpoint.map .str) ++
    Json.optField "registry_manifest_hash" (r.registryManifestHash.map .str) ++
    Json.optField "registry_providers"
      (if r.registryProviders = [] then none else some (.arr (r.registryProviders.map .str))) ++
    Json.optField "policy_hash" (r.policyHash.map .str) ++
    Json.optField "pricing" (r.pricing.map Value.tree) ++
    [("created_at", .str r.createdAt), ("updated_at", .str r.updatedAt)] ++
    Json.optField "expires_at" (r.expiresAt.map .str) ++
    Json.optField "notes" (r.notes.map .str) ++
    [("signature_algorithm", .str r.signatureAlgorithm), ("signature", Json.ofOption r.signature)]

variable [Externals]

/-- `TldRecord::is_expired`, at a reading of the wall clock. -/
def isExpired (r : TldRecord) (now : DateTime) : Bool := expiredAt r.expiresAt now

/-- `TldRecord::signable_bytes`. -/
def signableBytes (r : TldRecord) : Bytes := canonicalBytes { r with signature := none }.toJson

/-- `TldRecord::verify`: signed by the root key. -/
def verify (r : TldRecord) (rootPublicKey : String) : Result Unit :=
  let fail (reason : String) : FederateError := .verificationFailed "tld" ("." ++ r.tld) reason
  do
    let signature ← okOr r.signature (fail "TLD record is unsigned")
    rejectIf (verifySignature rootPublicKey r.signableBytes signature = false)
      (fail "TLD record signature is not from the Federate Root Key")

/-- `rec.signature = Some(root.sign(&rec.signable_bytes()?))`. -/
def signedBy (r : TldRecord) (root : NodeIdentity) : TldRecord :=
  { r with signature := some (root.sign r.signableBytes) }

/-- The check of a verified record. -/
theorem verify_eq_ok {r : TldRecord} {key : String} {u : Unit} :
    r.verify key = .ok u ↔ ∃ signature, r.signature = some signature ∧
      verifySignature key r.signableBytes signature = true := by
  simp [verify]

/-- A record signed by an identity verifies under its node id. -/
theorem verify_signedBy (signs : SignaturesVerify) (r : TldRecord) (root : NodeIdentity) :
    (r.signedBy root).verify root.nodeId = .ok () :=
  verify_eq_ok.mpr ⟨_, rfl, verifySignature_sign signs root _⟩

end TldRecord

/-- `AuditEvent`: one entry of the zone's governance trail. -/
structure AuditEvent where
  /-- Time. -/
  at_ : String
  /-- Role of the actor. -/
  actor : String
  /-- Action name. -/
  action : String
  /-- Target of the action. -/
  subject : String
  /-- Free detail; the mutation id for a mutation. -/
  detail : Option String
  deriving DecidableEq

/-- The serialized event. -/
def AuditEvent.toJson (e : AuditEvent) : Json :=
  .obj <|
    [("at", .str e.at_), ("actor", .str e.actor), ("action", .str e.action),
      ("subject", .str e.subject)] ++
    Json.optField "detail" (e.detail.map .str)

/-- `RootZone`. -/
structure RootZone where
  /-- Network name. -/
  network : String
  /-- Monotonic version. -/
  rootVersion : UInt64
  /-- Time of the last signature. -/
  generatedAt : String
  /-- The root public key. -/
  rootPublicKey : String
  /-- TLD name to signed TLD record. -/
  tlds : Table String TldRecord
  /-- Full name to signed domain record, for root-managed TLDs. -/
  domains : Table String DomainRecord
  /-- The newest governance events. -/
  audit : List AuditEvent
  /-- Name of the signature scheme. -/
  signatureAlgorithm : String
  /-- Root signature over the canonical bytes. -/
  signature : Option String

namespace RootZone

/-- The serialized zone. -/
def toJson (z : RootZone) : Json :=
  .obj
    [("network", .str z.network), ("root_version", Json.ofUInt64 z.rootVersion),
      ("generated_at", .str z.generatedAt), ("root_public_key", .str z.rootPublicKey),
      ("tlds", .obj (z.tlds.toList.map fun p => (p.1, p.2.toJson))),
      ("domains", .obj (z.domains.toList.map fun p => (p.1, p.2.toJson))),
      ("audit", .arr (z.audit.map AuditEvent.toJson)),
      ("signature_algorithm", .str z.signatureAlgorithm), ("signature", Json.ofOption z.signature)]

/-- `RootZone::lookup_tld`. -/
def lookupTld (z : RootZone) (tld : String) : Option TldRecord := z.tlds[tld]?

/-- `RootZone::lookup`. -/
def lookup (z : RootZone) (fqdn : String) : Option DomainRecord := z.domains[fqdn]?

/-- `RootZone::validate`: named, and every domain under a TLD of the zone. -/
def validate (z : RootZone) : Result Unit := do
  rejectIf (z.network = "") (.invalidRoot "empty network name")
  z.domains.toList.forM fun p =>
    rejectIf (p.2.tld ∉ z.tlds) (.invalidRoot
      s!"domain {p.1} references unknown TLD .{p.2.tld}")

/-- The checks of a valid zone. -/
theorem validate_eq_ok {z : RootZone} {u : Unit} : z.validate = .ok u ↔
    z.network ≠ "" ∧ ∀ (fqdn : String) (r : DomainRecord), z.domains[fqdn]? = some r →
      r.tld ∈ z.tlds := by
  simp only [validate, bind_eq_ok, rejectIf_eq_ok, forM_eq_ok, not_not, exists_const]
  refine and_congr_right fun _ => ⟨?_, ?_⟩
  · intro checked fqdn r found
    exact checked (fqdn, r) (Std.ExtTreeMap.mem_toList_iff_getElem?_eq_some.mpr found)
  · intro checked p member
    exact checked p.1 p.2 (Std.ExtTreeMap.mem_toList_iff_getElem?_eq_some.mp member)

variable [Externals]

/-- `RootZone::signable_bytes`. -/
def signableBytes (z : RootZone) : Bytes := canonicalBytes { z with signature := none }.toJson

/-- `RootZone::verify`: advertises the trusted key, is signed by it, and so is every TLD
record. -/
def verify (z : RootZone) (trustedRootKey : String) : Result Unit :=
  let fail (reason : String) : FederateError := .verificationFailed "root" z.network reason
  do
    rejectIf (z.rootPublicKey ≠ trustedRootKey)
      (fail "root zone advertises a different root key than the trusted anchor")
    let signature ← okOr z.signature (fail "root zone is unsigned")
    rejectIf (verifySignature trustedRootKey z.signableBytes signature = false)
      (fail "root zone signature invalid (tampered or wrong key)")
    z.tlds.toList.forM fun p => p.2.verify trustedRootKey

/-- The checks of a verified zone. -/
theorem verify_eq_ok {z : RootZone} {key : String} {u : Unit} : z.verify key = .ok u ↔
    z.rootPublicKey = key ∧
      (∃ signature, z.signature = some signature ∧
        verifySignature key z.signableBytes signature = true) ∧
      ∀ (tld : String) (r : TldRecord), z.tlds[tld]? = some r → r.verify key = .ok () := by
  simp only [verify, bind_eq_ok, rejectIf_eq_ok, okOr_eq_ok, forM_eq_ok, exists_const, ne_eq,
    not_not, Bool.not_eq_false]
  refine and_congr_right fun _ => ⟨?_, ?_⟩
  · rintro ⟨signature, signed, valid, records⟩
    exact ⟨⟨signature, signed, valid⟩, fun tld r found =>
      records (tld, r) (Std.ExtTreeMap.mem_toList_iff_getElem?_eq_some.mpr found)⟩
  · rintro ⟨⟨signature, signed, valid⟩, records⟩
    exact ⟨signature, signed, valid, fun p member =>
      records p.1 p.2 (Std.ExtTreeMap.mem_toList_iff_getElem?_eq_some.mp member)⟩

/-- `zone.signature = Some(root.sign(&zone.signable_bytes()?))`. -/
def signedBy (z : RootZone) (root : NodeIdentity) : RootZone :=
  { z with signature := some (root.sign z.signableBytes) }

/-- A zone signed by the root identity verifies when every TLD record does. -/
theorem verify_signedBy (signs : SignaturesVerify) (z : RootZone) (root : NodeIdentity)
    (advertises : z.rootPublicKey = root.nodeId)
    (records : ∀ (tld : String) (r : TldRecord), z.tlds[tld]? = some r →
      r.verify root.nodeId = .ok ()) :
    (z.signedBy root).verify root.nodeId = .ok () :=
  verify_eq_ok.mpr ⟨advertises, ⟨_, rfl, verifySignature_sign signs root _⟩, records⟩

end RootZone

/-! ## Blocklists -/

/-- `BlockReason`. -/
inductive BlockReason where
  | publicIana | reserved | policy | brandSafety
  deriving DecidableEq

/-- `BlockReason::describe`. -/
def BlockReason.describe : BlockReason → String
  | publicIana => "it is a public IANA/ICANN TLD (blocked_tlds.txt); Federate never collides " ++
      "with the normal internet"
  | reserved =>
    "it is reserved for Federate infrastructure, governance, safety, or future use"
  | policy => "it is blocked by Federate policy"
  | brandSafety => "it is blocked for brand/safety reasons"

/-- `Blocklists`. -/
structure Blocklists where
  /-- Public TLDs. -/
  iana : Finset String
  /-- Reserved names. -/
  reserved : Finset String
  /-- Policy blocklist. -/
  policy : Finset String
  /-- Brand and safety blocklist. -/
  brandSafety : Finset String

namespace Blocklists

/-- `Blocklists::check`: the first list that holds the name. -/
def check (b : Blocklists) (tld : String) : Option BlockReason :=
  if tld ∈ b.iana then some .publicIana
  else if tld ∈ b.reserved then some .reserved
  else if tld ∈ b.policy then some .policy
  else if tld ∈ b.brandSafety then some .brandSafety
  else none

/-- `Blocklists::validate_new_tld`. -/
def validateNewTld (b : Blocklists) (input : String) (allowReserved : Bool) : Result String := do
  let tld ← validateTldName input
  match b.check tld with
  | none => return tld
  | some .reserved =>
    if allowReserved then return tld
    else throw (.reservedTld tld BlockReason.reserved.describe)
  | some reason => throw (.blockedTld tld reason.describe)

end Blocklists

end Federate
