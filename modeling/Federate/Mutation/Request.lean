import Federate.Registry

/-!
# Signed mutation requests and audit events

The envelope every registry change travels in: its action, its self-certifying id, its
signature and its acceptance window; and the root-signed audit event of an accepted change.
-/

namespace Federate

open Outcome

/-- `MUTATION_MAX_AGE_SECS`. -/
def mutationMaxAgeSecs : ℤ := 300

/-- `TargetKind`. -/
inductive TargetKind where
  | tld | domain
  deriving DecidableEq

/-- The recorded name. -/
def TargetKind.asStr : TargetKind → String
  | tld => "tld"
  | domain => "domain"

/-- `ActorRole`. -/
inductive ActorRole where
  | root | tldOperator | domainOwner
  deriving DecidableEq

/-- The recorded name. -/
def ActorRole.asStr : ActorRole → String
  | root => "root"
  | tldOperator => "tld-operator"
  | domainOwner => "domain-owner"

/-- `MutationAction`. -/
inductive MutationAction where
  | publishSite (domain manifestHash : String)
  | updateDomainManifest (domain manifestHash : String)
  | setDomainStatus (domain : String) (status : DomainStatus)
  | issueDomain (record : DomainRecord)
  | delegateTld (tld ownerPublicKey operatorPublicKey operatorName : String)
      (registryType : RegistryType) (registryEndpoint expiresAt : Option String)
  | updateTld (tld : String) (registryEndpoint expiresAt notes : Option String)
  | createTld (tld purpose : String)
  | reserveTld (tld reason : String)
  | blockTld (tld reason : String)
  | setTldStatus (tld : String) (status : TldStatus)
  | updateRegistryPointer (tld registryHex : String)

namespace MutationAction

/-- `MutationAction::name`. -/
def name : MutationAction → String
  | publishSite .. => "domain.publish"
  | updateDomainManifest .. => "domain.update_manifest"
  | setDomainStatus .. => "domain.set_status"
  | issueDomain .. => "domain.issue"
  | delegateTld .. => "tld.delegate"
  | createTld .. => "tld.create"
  | reserveTld .. => "tld.reserve"
  | blockTld .. => "tld.block"
  | updateTld .. => "tld.update"
  | setTldStatus .. => "tld.set_status"
  | updateRegistryPointer .. => "tld.update_registry_pointer"

/-- `MutationAction::target`: the kind and the lowercased name as the request spells it. -/
def target : MutationAction → TargetKind × String
  | publishSite domain _ | updateDomainManifest domain _ | setDomainStatus domain _ =>
    (.domain, Text.toAsciiLowercase domain)
  | issueDomain record => (.domain, Text.toAsciiLowercase record.domain)
  | delegateTld tld .. | createTld tld _ | reserveTld tld _ | blockTld tld _ | updateTld tld ..
  | setTldStatus tld _ | updateRegistryPointer tld _ => (.tld, Text.toAsciiLowercase tld)

/-- `MutationAction::target_key`. -/
def targetKey (action : MutationAction) : String :=
  action.target.1.asStr ++ ":" ++ action.target.2

/-- The serialized action, tagged with its type. -/
def toJson : MutationAction → Json
  | publishSite domain manifestHash => .obj
      [("type", .str "publish_site"), ("domain", .str domain),
        ("manifest_hash", .str manifestHash)]
  | updateDomainManifest domain manifestHash => .obj
      [("type", .str "update_domain_manifest"), ("domain", .str domain),
        ("manifest_hash", .str manifestHash)]
  | setDomainStatus domain status => .obj
      [("type", .str "set_domain_status"), ("domain", .str domain), ("status", .str status.asStr)]
  | issueDomain record => .obj [("type", .str "issue_domain"), ("record", record.toJson)]
  | delegateTld tld owner operator operatorName registryType endpoint expiresAt => .obj <|
      [("type", .str "delegate_tld"), ("tld", .str tld), ("owner_public_key", .str owner),
        ("operator_public_key", .str operator), ("operator_name", .str operatorName),
        ("registry_type", .str registryType.asStr)] ++
      Json.optField "registry_endpoint" (endpoint.map .str) ++
      Json.optField "expires_at" (expiresAt.map .str)
  | updateTld tld endpoint expiresAt notes => .obj <|
      [("type", .str "update_tld"), ("tld", .str tld)] ++
      Json.optField "registry_endpoint" (endpoint.map .str) ++
      Json.optField "expires_at" (expiresAt.map .str) ++
      Json.optField "notes" (notes.map .str)
  | createTld tld purpose => .obj
      [("type", .str "create_tld"), ("tld", .str tld), ("purpose", .str purpose)]
  | reserveTld tld reason => .obj
      [("type", .str "reserve_tld"), ("tld", .str tld), ("reason", .str reason)]
  | blockTld tld reason => .obj
      [("type", .str "block_tld"), ("tld", .str tld), ("reason", .str reason)]
  | setTldStatus tld status => .obj
      [("type", .str "set_tld_status"), ("tld", .str tld), ("status", .str status.asStr)]
  | updateRegistryPointer tld registryHex => .obj
      [("type", .str "update_registry_pointer"), ("tld", .str tld),
        ("registry_hex", .str registryHex)]

end MutationAction

/-- `MutationRequest`. -/
structure MutationRequest where
  /-- Hash of the envelope with this field and the signature blanked. -/
  mutationId : String
  /-- Server-issued single-use nonce. -/
  nonce : String
  /-- Time of signature. -/
  issuedAt : String
  /-- Key of the signer. -/
  actorPublicKey : String
  /-- Version of the target, chosen by the signer. -/
  targetVersion : UInt64
  /-- The requested change. -/
  action : MutationAction
  /-- Name of the signature scheme. -/
  signatureAlgorithm : String
  /-- Signature of the actor over the canonical envelope. -/
  signature : Option String

namespace MutationRequest

/-- The serialized envelope. -/
def toJson (r : MutationRequest) : Json :=
  .obj
    [("mutation_id", .str r.mutationId), ("nonce", .str r.nonce), ("issued_at", .str r.issuedAt),
      ("actor_public_key", .str r.actorPublicKey),
      ("target_version", Json.ofUInt64 r.targetVersion), ("action", r.action.toJson),
      ("signature_algorithm", .str r.signatureAlgorithm), ("signature", Json.ofOption r.signature)]

variable [Externals]

/-- `MutationRequest::signable_bytes`. -/
def signableBytes (r : MutationRequest) : Bytes :=
  canonicalBytes { r with signature := none }.toJson

/-- `MutationRequest::compute_id`. -/
def computeId (r : MutationRequest) : String :=
  hashBytes (canonicalBytes { r with mutationId := "", signature := none }.toJson)

/-- `MutationRequest::signed`. -/
def signed (identity : NodeIdentity) (nonce issuedAt : String) (targetVersion : UInt64)
    (action : MutationAction) : MutationRequest :=
  let blank : MutationRequest :=
    { mutationId := "", nonce, issuedAt, actorPublicKey := identity.nodeId, targetVersion, action,
      signatureAlgorithm := Federate.signatureAlgorithm, signature := none }
  let named := { blank with mutationId := blank.computeId }
  { named with signature := some (identity.sign named.signableBytes) }

/-- `MutationRequest::verify`: known scheme, id of the content, signature of the actor. -/
def verify (r : MutationRequest) : Result Unit := do
  rejectIf (r.signatureAlgorithm ≠ Federate.signatureAlgorithm)
    (.mutationRejected s!"unsupported signature algorithm '{r.signatureAlgorithm}'")
  rejectIf (r.mutationId ≠ r.computeId)
    (.mutationRejected "mutation_id does not match envelope content")
  let signature ← okOr r.signature (.mutationRejected "mutation is not signed")
  rejectIf (verifySignature r.actorPublicKey r.signableBytes signature = false) .invalidSignature

/-- `MutationRequest::check_age`: a timestamp that does not parse counts as too old. -/
def checkAge (r : MutationRequest) (now : DateTime) : Result Unit := do
  let issued ← okOr (Externals.parseFromRfc3339 r.issuedAt)
    (.replay "unparseable mutation timestamp")
  let age := now.timestamp - issued.timestamp
  rejectIf (¬(-30 ≤ age ∧ age ≤ mutationMaxAgeSecs))
    (.replay s!"mutation timestamp outside the {mutationMaxAgeSecs}s acceptance window")

/-- The timestamp lies in the acceptance window. -/
def InWindow (issuedAt : String) (now : DateTime) : Prop :=
  ∃ issued, Externals.parseFromRfc3339 issuedAt = some issued ∧
    -30 ≤ now.timestamp - issued.timestamp ∧
    now.timestamp - issued.timestamp ≤ mutationMaxAgeSecs

/-- The age check passes exactly in the window. -/
@[simp] theorem checkAge_eq_ok {r : MutationRequest} {now : DateTime} {u : Unit} :
    r.checkAge now = .ok u ↔ InWindow r.issuedAt now := by
  simp only [checkAge, InWindow, bind_eq_ok, okOr_eq_ok, rejectIf_eq_ok, not_not]

/-- An envelope signed by an identity verifies. -/
theorem verify_signed (signs : SignaturesVerify) (identity : NodeIdentity)
    (nonce issuedAt : String) (targetVersion : UInt64) (action : MutationAction) :
    (signed identity nonce issuedAt targetVersion action).verify = .ok () := by
  simp only [verify, bind_eq_ok, rejectIf_eq_ok, okOr_eq_ok, exists_const, ne_eq, not_not]
  exact ⟨rfl, rfl, _, rfl, by rw [Bool.not_eq_false]; exact verifySignature_sign signs identity _⟩

end MutationRequest

/-- `AuditRecord`. -/
structure AuditRecord where
  /-- Hash of the event with this field and the signature blanked. -/
  eventId : String
  /-- The accepted mutation. -/
  mutationId : String
  /-- Its signer. -/
  actorPublicKey : String
  /-- The role that authorized it. -/
  actorRole : String
  /-- Action name. -/
  action : String
  /-- Kind of the target. -/
  targetType : String
  /-- Name of the target. -/
  targetId : String
  /-- Hash of the signed zone before. -/
  previousStateHash : String
  /-- Hash of the signed zone after. -/
  newStateHash : String
  /-- Time of acceptance. -/
  timestamp : String
  /-- Name of the signature scheme. -/
  signatureAlgorithm : String
  /-- Root signature over the canonical event. -/
  signature : Option String
  deriving DecidableEq

namespace AuditRecord

/-- The serialized event. -/
def toJson (e : AuditRecord) : Json :=
  .obj
    [("event_id", .str e.eventId), ("mutation_id", .str e.mutationId),
      ("actor_public_key", .str e.actorPublicKey), ("actor_role", .str e.actorRole),
      ("action", .str e.action), ("target_type", .str e.targetType),
      ("target_id", .str e.targetId), ("previous_state_hash", .str e.previousStateHash),
      ("new_state_hash", .str e.newStateHash), ("timestamp", .str e.timestamp),
      ("signature_algorithm", .str e.signatureAlgorithm), ("signature", Json.ofOption e.signature)]

variable [Externals]

/-- `AuditRecord::signable_bytes`. -/
def signableBytes (e : AuditRecord) : Bytes := canonicalBytes { e with signature := none }.toJson

/-- `AuditRecord::compute_id`. -/
def computeId (e : AuditRecord) : String :=
  hashBytes (canonicalBytes { e with eventId := "", signature := none }.toJson)

/-- `AuditRecord::finalize`: name the event and sign it with the root key. -/
def finalize (e : AuditRecord) (root : NodeIdentity) : AuditRecord :=
  let named := { e with eventId := e.computeId }
  { named with signature := some (root.sign named.signableBytes) }

/-- `AuditRecord::verify`: id of the content, signature of the root key. -/
def verify (e : AuditRecord) (rootPublicKey : String) : Result Unit :=
  let fail (reason : String) : FederateError := .verificationFailed "audit" e.eventId reason
  do
    rejectIf (e.eventId ≠ e.computeId) (fail "event_id does not match event content")
    let signature ← okOr e.signature (fail "audit event is not signed")
    rejectIf (verifySignature rootPublicKey e.signableBytes signature = false)
      (fail "audit signature is not from the root key")

/-- A finalized event verifies under the root's node id. -/
theorem verify_finalize (signs : SignaturesVerify) (e : AuditRecord) (root : NodeIdentity) :
    (e.finalize root).verify root.nodeId = .ok () := by
  simp only [verify, bind_eq_ok, rejectIf_eq_ok, okOr_eq_ok, exists_const, ne_eq, not_not]
  exact ⟨rfl, _, rfl, by rw [Bool.not_eq_false]; exact verifySignature_sign signs root _⟩

end AuditRecord

/-- `AppliedMutation`: one accepted mutation in the history. -/
structure AppliedMutation where
  /-- The request. -/
  mutation : MutationRequest
  /-- Its audit event. -/
  auditEventId : String
  /-- Time of acceptance. -/
  appliedAt : String
  /-- Zone version it produced. -/
  rootVersion : UInt64

/-- The serialized history entry. -/
def AppliedMutation.toJson (a : AppliedMutation) : Json :=
  .obj
    [("mutation", a.mutation.toJson), ("audit_event_id", .str a.auditEventId),
      ("applied_at", .str a.appliedAt), ("root_version", Json.ofUInt64 a.rootVersion)]

/-- `SnapshotMeta`. -/
structure SnapshotMeta where
  /-- Zone version. -/
  rootVersion : UInt64
  /-- Time of the zone. -/
  createdAt : String
  /-- State hash of the zone. -/
  stateHash : String

/-- The serialized metadata. -/
def SnapshotMeta.toJson (m : SnapshotMeta) : Json :=
  .obj
    [("root_version", Json.ofUInt64 m.rootVersion), ("created_at", .str m.createdAt),
      ("state_hash", .str m.stateHash)]

/-! ## Reading records back -/

/-- The free-form members of the record are of a kind. -/
def DomainRecord.Values (P : Value → Prop) (r : DomainRecord) : Prop :=
  (∀ v, r.renewal = some v → P v) ∧ ∀ v, r.pricing = some v → P v

/-- The free-form members of the record are of a kind. -/
def TldRecord.Values (P : Value → Prop) (r : TldRecord) : Prop := ∀ v, r.pricing = some v → P v

/-- Those of every record of the zone are. -/
structure RootZone.Values (P : Value → Prop) (z : RootZone) : Prop where
  /-- The TLD records. -/
  tlds : ∀ (k : String) (r : TldRecord), z.tlds[k]? = some r → r.Values P
  /-- The domain records. -/
  domains : ∀ (k : String) (r : DomainRecord), z.domains[k]? = some r → r.Values P

/-- Those of the record that the request carries, if any, are. -/
def MutationRequest.Values (P : Value → Prop) (req : MutationRequest) : Prop :=
  ∀ r, req.action = .issueDomain r → r.Values P

/-- The free-form members of the record came from JSON. -/
def DomainRecord.FromJson (r : DomainRecord) : Prop := r.Values Value.FromJson

/-- The free-form members of the record came from JSON. -/
def TldRecord.FromJson (r : TldRecord) : Prop := r.Values Value.FromJson

/-- Every record of the zone came from JSON. -/
abbrev RootZone.FromJson (z : RootZone) : Prop := z.Values Value.FromJson

/-- Every record of the registry came from JSON. -/
def TldRegistry.FromJson (r : TldRegistry) : Prop :=
  ∀ (k : String) (d : DomainRecord), r.domains[k]? = some d → d.FromJson

/-- The record the request carries, if any, came from JSON. -/
def MutationRequest.FromJson (req : MutationRequest) : Prop := req.Values Value.FromJson

/-- `serde_json::from_slice` at the types the registry stores, beside the documents. -/
class SerdeJson extends SerdeDocuments where
  /-- Read a TLD record. -/
  tldRecord : Bytes → Except String TldRecord
  /-- Read a domain record. -/
  domainRecord : Bytes → Except String DomainRecord
  /-- Read a mutation request. -/
  mutationRequest : Bytes → Except String MutationRequest
  /-- Read a history entry. -/
  appliedMutation : Bytes → Except String AppliedMutation
  /-- Read an audit event. -/
  auditRecord : Bytes → Except String AuditRecord

end Federate
