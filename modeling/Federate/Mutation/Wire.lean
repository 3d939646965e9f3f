import Federate.Library.JsonRead
import Federate.Mutation.Request

/-!
# Signed records on the wire

A signed record is sent as its compact text and read back by the derived reader of its type. The
readers work on the tree of the text: optional members may be absent or `null`, unknown members are
skipped, and a known member that repeats is an error.
-/

namespace Federate

open Json

/-! ## Enumerations -/

/-- `DomainStatus::deserialize`. -/
def DomainStatus.fromJson : Json → Option DomainStatus :=
  asVariant [.active, .reserved, .pending, .suspended, .expired, .revoked, .transferred] asStr

/-- `TargetType::deserialize`. -/
def TargetType.fromJson : Json → Option TargetType :=
  asVariant [.manifest, .service, .node, .redirect, .placeholder] asStr

/-- `TldStatus::deserialize`. -/
def TldStatus.fromJson : Json → Option TldStatus :=
  asVariant
    [.official, .delegated, .reserved, .blocked, .disabled, .pending, .expired, .revoked] asStr

/-- `TldMode::deserialize`. -/
def TldMode.fromJson : Json → Option TldMode :=
  asVariant [.official, .delegated, .reserved, .blocked] asStr

/-- `RegistryType::deserialize`. -/
def RegistryType.fromJson : Json → Option RegistryType :=
  asVariant [.rootManaged, .delegatedManifest, .delegatedNative, .delegatedHttp, .offlineManual]
    asStr

/-! ## Records and documents -/

/-- An optional text, absent by default. -/
def optionalText : Option Json → Option (Option String) := defaulted none (orNull asStr)

/-- `Option<serde_json::Value>`, absent by default: `null` reads as absent. -/
def optionalValue : Option Json → Option (Option Value) :=
  defaulted none (orNull fun v => some (.ofJson v))

/-- `DomainRecord::deserialize`. -/
def DomainRecord.fromJson (v : Json) : Option DomainRecord := do
  let field ← asRecord ["domain", "tld", "label", "owner_public_key", "target_type",
    "manifest_hash", "service_id", "node_id", "status", "created_at", "updated_at", "expires_at",
    "renewal", "pricing", "signature_algorithm", "signature"] v
  return {
    domain := ← required asStr (field "domain")
    tld := ← required asStr (field "tld")
    label := ← required asStr (field "label")
    ownerPublicKey := ← required asStr (field "owner_public_key")
    targetType := ← required TargetType.fromJson (field "target_type")
    manifestHash := ← required asStr (field "manifest_hash")
    serviceId := ← optionalText (field "service_id")
    nodeId := ← optionalText (field "node_id")
    status := ← required DomainStatus.fromJson (field "status")
    createdAt := ← required asStr (field "created_at")
    updatedAt := ← required asStr (field "updated_at")
    expiresAt := ← optionalText (field "expires_at")
    renewal := ← optionalValue (field "renewal")
    pricing := ← optionalValue (field "pricing")
    signatureAlgorithm := ← required asStr (field "signature_algorithm")
    signature := ← optionalText (field "signature") }

/-- `TldRecord::deserialize`. -/
def TldRecord.fromJson (v : Json) : Option TldRecord := do
  let field ← asRecord ["tld", "status", "mode", "owner_public_key", "operator_public_key",
    "operator_name", "registry_type", "registry_endpoint", "registry_manifest_hash",
    "registry_providers", "policy_hash", "pricing", "created_at", "updated_at", "expires_at",
    "notes", "signature_algorithm", "signature"] v
  return {
    tld := ← required asStr (field "tld")
    status := ← required TldStatus.fromJson (field "status")
    mode := ← required TldMode.fromJson (field "mode")
    ownerPublicKey := ← required asStr (field "owner_public_key")
    operatorPublicKey := ← required asStr (field "operator_public_key")
    operatorName := ← required asStr (field "operator_name")
    registryType := ← required RegistryType.fromJson (field "registry_type")
    registryEndpoint := ← optionalText (field "registry_endpoint")
    registryManifestHash := ← optionalText (field "registry_manifest_hash")
    registryProviders := ← defaulted [] (asList asStr) (field "registry_providers")
    policyHash := ← optionalText (field "policy_hash")
    pricing := ← optionalValue (field "pricing")
    createdAt := ← required asStr (field "created_at")
    updatedAt := ← required asStr (field "updated_at")
    expiresAt := ← optionalText (field "expires_at")
    notes := ← optionalText (field "notes")
    signatureAlgorithm := ← required asStr (field "signature_algorithm")
    signature := ← optionalText (field "signature") }

/-- `AuditEvent::deserialize`. -/
def AuditEvent.fromJson (v : Json) : Option AuditEvent := do
  let field ← asRecord ["at", "actor", "action", "subject", "detail"] v
  return {
    at_ := ← required asStr (field "at")
    actor := ← required asStr (field "actor")
    action := ← required asStr (field "action")
    subject := ← required asStr (field "subject")
    detail := ← optionalText (field "detail") }

/-- `RootZone::deserialize`. -/
def RootZone.fromJson (v : Json) : Option RootZone := do
  let field ← asRecord ["network", "root_version", "generated_at", "root_public_key", "tlds",
    "domains", "audit", "signature_algorithm", "signature"] v
  return {
    network := ← required asStr (field "network")
    rootVersion := ← required asUInt64 (field "root_version")
    generatedAt := ← required asStr (field "generated_at")
    rootPublicKey := ← required asStr (field "root_public_key")
    tlds := ← required (asMap TldRecord.fromJson) (field "tlds")
    domains := ← required (asMap DomainRecord.fromJson) (field "domains")
    audit := ← defaulted [] (asList AuditEvent.fromJson) (field "audit")
    signatureAlgorithm := ← required asStr (field "signature_algorithm")
    signature := ← optionalText (field "signature") }

/-- `TldRegistry::deserialize`. -/
def TldRegistry.fromJson (v : Json) : Option TldRegistry := do
  let field ← asRecord ["tld", "version", "generated_at", "operator_public_key", "domains",
    "signature_algorithm", "signature"] v
  return {
    tld := ← required asStr (field "tld")
    version := ← required asUInt64 (field "version")
    generatedAt := ← required asStr (field "generated_at")
    operatorPublicKey := ← required asStr (field "operator_public_key")
    domains := ← required (asMap DomainRecord.fromJson) (field "domains")
    signatureAlgorithm := ← required asStr (field "signature_algorithm")
    signature := ← optionalText (field "signature") }

/-- `Manifest::deserialize`. -/
def Manifest.fromJson (v : Json) : Option Manifest := do
  let field ← asRecord ["domain", "version", "entry", "files", "owner_public_key", "created_at",
    "signature_algorithm", "signature"] v
  return {
    domain := ← required asStr (field "domain")
    version := ← required asUInt64 (field "version")
    entry := ← required asStr (field "entry")
    files := ← required (asMap asStr) (field "files")
    ownerPublicKey := ← required asStr (field "owner_public_key")
    createdAt := ← required asStr (field "created_at")
    signatureAlgorithm := ← required asStr (field "signature_algorithm")
    signature := ← optionalText (field "signature") }

/-! ## Requests and audit events -/

namespace MutationAction

/-- The members of an action without its tag, and the tag: an object has it among its members, an
array begins with it. -/
def tagged : Json → Option (String × Json)
  | .obj fields =>
    match members "type" fields with
    | [.str tag] => some (tag, .obj (fields.filter fun field => field.1 ≠ "type"))
    | _ => none
  | .arr (.str tag :: items) => some (tag, .arr items)
  | _ => none

/-- The variants of a domain and a second text. -/
def domainText (make : String → String → MutationAction) (second : String) (v : Json) :
    Option MutationAction := do
  let field ← asRecord ["domain", second] v
  return make (← required asStr (field "domain")) (← required asStr (field second))

/-- The variants of a TLD and a second text. -/
def tldText (make : String → String → MutationAction) (second : String) (v : Json) :
    Option MutationAction := do
  let field ← asRecord ["tld", second] v
  return make (← required asStr (field "tld")) (← required asStr (field second))

/-- `MutationAction::deserialize`. -/
def fromJson (v : Json) : Option MutationAction := do
  let (tag, content) ← tagged v
  match tag with
  | "publish_site" => domainText publishSite "manifest_hash" content
  | "update_domain_manifest" => domainText updateDomainManifest "manifest_hash" content
  | "set_domain_status" => do
    let field ← asRecord ["domain", "status"] content
    return setDomainStatus (← required asStr (field "domain"))
      (← required DomainStatus.fromJson (field "status"))
  | "issue_domain" => do
    let field ← asRecord ["record"] content
    return issueDomain (← required DomainRecord.fromJson (field "record"))
  | "delegate_tld" => do
    let field ← asRecord ["tld", "owner_public_key", "operator_public_key", "operator_name",
      "registry_type", "registry_endpoint", "expires_at"] content
    return delegateTld (← required asStr (field "tld"))
      (← required asStr (field "owner_public_key"))
      (← required asStr (field "operator_public_key"))
      (← required asStr (field "operator_name"))
      (← required RegistryType.fromJson (field "registry_type"))
      (← optionalText (field "registry_endpoint")) (← optionalText (field "expires_at"))
  | "update_tld" => do
    let field ← asRecord ["tld", "registry_endpoint", "expires_at", "notes"] content
    return updateTld (← required asStr (field "tld"))
      (← optionalText (field "registry_endpoint")) (← optionalText (field "expires_at"))
      (← optionalText (field "notes"))
  | "create_tld" => tldText createTld "purpose" content
  | "reserve_tld" => tldText reserveTld "reason" content
  | "block_tld" => tldText blockTld "reason" content
  | "set_tld_status" => do
    let field ← asRecord ["tld", "status"] content
    return setTldStatus (← required asStr (field "tld"))
      (← required TldStatus.fromJson (field "status"))
  | "update_registry_pointer" => tldText updateRegistryPointer "registry_hex" content
  | _ => none

end MutationAction

/-- `MutationRequest::deserialize`. -/
def MutationRequest.fromJson (v : Json) : Option MutationRequest := do
  let field ← asRecord ["mutation_id", "nonce", "issued_at", "actor_public_key", "target_version",
    "action", "signature_algorithm", "signature"] v
  return {
    mutationId := ← required asStr (field "mutation_id")
    nonce := ← required asStr (field "nonce")
    issuedAt := ← required asStr (field "issued_at")
    actorPublicKey := ← required asStr (field "actor_public_key")
    targetVersion := ← required asUInt64 (field "target_version")
    action := ← required MutationAction.fromJson (field "action")
    signatureAlgorithm := ← required asStr (field "signature_algorithm")
    signature := ← optionalText (field "signature") }

/-- `AuditRecord::deserialize`. -/
def AuditRecord.fromJson (v : Json) : Option AuditRecord := do
  let field ← asRecord ["event_id", "mutation_id", "actor_public_key", "actor_role", "action",
    "target_type", "target_id", "previous_state_hash", "new_state_hash", "timestamp",
    "signature_algorithm", "signature"] v
  return {
    eventId := ← required asStr (field "event_id")
    mutationId := ← required asStr (field "mutation_id")
    actorPublicKey := ← required asStr (field "actor_public_key")
    actorRole := ← required asStr (field "actor_role")
    action := ← required asStr (field "action")
    targetType := ← required asStr (field "target_type")
    targetId := ← required asStr (field "target_id")
    previousStateHash := ← required asStr (field "previous_state_hash")
    newStateHash := ← required asStr (field "new_state_hash")
    timestamp := ← required asStr (field "timestamp")
    signatureAlgorithm := ← required asStr (field "signature_algorithm")
    signature := ← optionalText (field "signature") }

/-! ## The wire -/

/-- The parser of JSON texts. -/
class JsonParser where
  /-- The tree of a text, the members of objects in the order of the text. -/
  parse : Bytes → Option Json

/-- The compact text of a tree without floating-point numbers is parsed as the tree. -/
def ParsesText [Externals] [JsonParser] : Prop :=
  ∀ v : Json, v.Integral → JsonParser.parse (Externals.toVec v) = some v

/-- `serde_json` reads at most 127 arrays and objects inside one another: its recursion limit is
128. -/
def maxDepth : ℕ := 127

/-- `serde_json::from_slice` with the reader of a type. -/
def fromSlice [JsonParser] {α : Type} (read : Json → Option α) (bytes : Bytes) : Option α := do
  let v ← JsonParser.parse bytes
  if v.depth ≤ maxDepth then read v else none

/-- A value of one of the signed types. -/
inductive SignedRecord where
  | domain (r : DomainRecord)
  | tld (r : TldRecord)
  | zone (z : RootZone)
  | registry (r : TldRegistry)
  | manifest (m : Manifest)
  | audit (e : AuditRecord)
  | request (r : MutationRequest)

namespace SignedRecord

/-- The serialized value. -/
def toJson : SignedRecord → Json
  | domain r => r.toJson
  | tld r => r.toJson
  | zone z => z.toJson
  | registry r => r.toJson
  | manifest m => m.toJson
  | audit e => e.toJson
  | request r => r.toJson

/-- The reader of the value's type. -/
def reader : SignedRecord → Json → Option SignedRecord
  | domain _, v => domain <$> DomainRecord.fromJson v
  | tld _, v => tld <$> TldRecord.fromJson v
  | zone _, v => zone <$> RootZone.fromJson v
  | registry _, v => registry <$> TldRegistry.fromJson v
  | manifest _, v => manifest <$> Manifest.fromJson v
  | audit _, v => audit <$> AuditRecord.fromJson v
  | request _, v => request <$> MutationRequest.fromJson v

/-- The signature of the value. -/
def signature : SignedRecord → Option String
  | domain r => r.signature
  | tld r => r.signature
  | zone z => z.signature
  | registry r => r.signature
  | manifest m => m.signature
  | audit e => e.signature
  | request r => r.signature

variable [Externals]

/-- The bytes that the signature covers. -/
def signableBytes : SignedRecord → Bytes
  | domain r => r.signableBytes
  | tld r => r.signableBytes
  | zone z => z.signableBytes
  | registry r => r.signableBytes
  | manifest m => m.signableBytes
  | audit e => e.signableBytes
  | request r => r.signableBytes

/-- The check of the value's type, for a subject (the TLD of a registry, the domain of a manifest)
and a key, where the type's check has these arguments. -/
def verify (subject key : String) : SignedRecord → Result Unit
  | domain r => r.verify key
  | tld r => r.verify key
  | zone z => z.verify key
  | registry r => r.verify subject key
  | manifest m => m.verify subject key
  | audit e => e.verify key
  | request r => r.verify

/-- Send the value as its compact text and read it back. -/
def overWire [JsonParser] (v : SignedRecord) : Option SignedRecord :=
  fromSlice v.reader (Externals.toVec v.toJson)

end SignedRecord

end Federate
