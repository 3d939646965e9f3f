import Federate.Mutation.Database

/-!
# Authorizing and executing one action

`RegistryStore::apply_action`: every action is authorized against the current zone and turned
into the zone it leaves. Each arm of the source is one function; it reads the store's
manifests and registries where the source does, and changes nothing.
-/

namespace Federate

open Outcome

/-- `MutationContext`: the keys and lists a mutation is checked and countersigned with. -/
structure MutationContext where
  /-- The root identity. -/
  root : NodeIdentity
  /-- The operator identity of the root-managed official TLDs. -/
  officialOperator : NodeIdentity
  /-- The blocklists. -/
  blocklists : Blocklists
  /-- Time of the mutation. -/
  now : DateTime

/-- What an accepted action leaves: the changed zone, the registry it pinned, if any, and the
role that authorized it. -/
structure ActionEffect where
  /-- The zone with the record written. -/
  zone : RootZone
  /-- TLD, exact bytes and parse of a newly pinned registry. -/
  newRegistry : Option (String × Bytes × TldRegistry)
  /-- The authorizing role. -/
  role : ActorRole

/-- The registries of delegated TLDs, with their exact signed bytes. -/
abbrev Registries := Table String (Bytes × TldRegistry)

/-- `allowed_domain_transition`. -/
def allowedDomainTransition (source target : DomainStatus) (actorIsRoot : Bool) : Bool :=
  if source = target then false
  else match target with
    | .suspended => source = .active
    | .active => (source = .suspended || source = .pending) || (actorIsRoot && source = .revoked)
    | .revoked => true
    | _ => false

/-- The zone with a domain record inserted or replaced. -/
def RootZone.putDomain (z : RootZone) (fqdn : String) (r : DomainRecord) : RootZone :=
  { z with domains := z.domains.insert fqdn r }

/-- The zone with a TLD record inserted or replaced. -/
def RootZone.putTld (z : RootZone) (tld : String) (r : TldRecord) : RootZone :=
  { z with tlds := z.tlds.insert tld r }

section Records

variable [Externals]

/-- The record a publication writes, before it is signed. -/
def publishedRecord (existing : Option DomainRecord) (parsed : FederateDomain)
    (actor manifestHash now : String) : DomainRecord where
  domain := parsed.fqdn
  tld := parsed.tld
  label := parsed.name
  ownerPublicKey := actor
  targetType := .manifest
  manifestHash
  serviceId := none
  nodeId := none
  status := .active
  createdAt := (existing.map DomainRecord.createdAt).getD now
  updatedAt := now
  expiresAt := existing.bind DomainRecord.expiresAt
  renewal := none
  pricing := none
  signatureAlgorithm := signatureAlgorithm
  signature := none

/-- The record of a newly delegated TLD, before it is signed. -/
def delegatedRecord (tld owner operator operatorName : String) (registryType : RegistryType)
    (endpoint expiresAt : Option String) (now : String) : TldRecord where
  tld
  status := .delegated
  mode := .delegated
  ownerPublicKey := owner
  operatorPublicKey := operator
  operatorName
  registryType
  registryEndpoint := endpoint
  registryManifestHash := none
  registryProviders := []
  policyHash := none
  pricing := none
  createdAt := now
  updatedAt := now
  expiresAt
  notes := none
  signatureAlgorithm := signatureAlgorithm
  signature := none

/-- The record of a newly created official TLD, before it is signed. -/
def officialRecord (ctx : MutationContext) (tld purpose now : String) : TldRecord where
  tld
  status := .official
  mode := .official
  ownerPublicKey := ctx.root.nodeId
  operatorPublicKey := ctx.officialOperator.nodeId
  operatorName := "Federate Network (root-managed)"
  registryType := .rootManaged
  registryEndpoint := none
  registryManifestHash := none
  registryProviders := []
  policyHash := none
  pricing := none
  createdAt := now
  updatedAt := now
  expiresAt := none
  notes := some purpose
  signatureAlgorithm := signatureAlgorithm
  signature := none

/-- The record of a reserved or blocked TLD, before it is signed. -/
def restrictedRecord (ctx : MutationContext) (status : TldStatus) (mode : TldMode)
    (tld reason now : String) : TldRecord where
  tld
  status
  mode
  ownerPublicKey := ctx.root.nodeId
  operatorPublicKey := ctx.root.nodeId
  operatorName := "Federate Network (root)"
  registryType := .rootManaged
  registryEndpoint := none
  registryManifestHash := none
  registryProviders := []
  policyHash := none
  pricing := none
  createdAt := now
  updatedAt := now
  expiresAt := none
  notes := some reason
  signatureAlgorithm := signatureAlgorithm
  signature := none

end Records

/-- The check of a 64-character hexadecimal key. -/
def isKeyText (key : String) : Bool :=
  Text.byteLen key = 64 && key.toList.all Text.isAsciiHexdigit

/-- An existing domain may be published by its owner while active or pending; a manifest
update needs an existing domain. -/
def checkPublishable (existing : Option DomainRecord) (fqdn actor : String) (isUpdate : Bool) :
    Result Unit :=
  match existing with
  | some r => do
    rejectIf (r.ownerPublicKey ≠ actor) (.unauthorized s!"{fqdn} is owned by a different key")
    rejectIf (r.status ≠ .active ∧ r.status ≠ .pending)
      (.mutationRejected s!"{fqdn} status '{r.status.asStr}' does not allow updates")
  | none => rejectIf (isUpdate = true) (.domainNotFound fqdn)

section Arms

variable [Externals] [SerdeJson]

/-- `PublishSite` and `UpdateDomainManifest`. `clock` is the reading of the wall clock that
`is_expired` takes. -/
def publish (zone : RootZone) (manifests : Table String Bytes) (actor : String)
    (ctx : MutationContext) (clock : DateTime) (isUpdate : Bool) (domain manifestHash : String) :
    Result ActionEffect := do
  let parsed ← mapError (fun e => .mutationRejected s!"invalid domain: {e}")
    (FederateDomain.parse domain)
  let fqdn := parsed.fqdn
  let tldRec ← okOr (zone.lookupTld parsed.tld) (.tldNotFound parsed.tld)
  rejectIf (tldRec.registryType ≠ .rootManaged)
    (.mutationRejected s!".{parsed.tld} is delegated; publish through its operator registry")
  rejectIf (tldRec.status.isResolvable = false ∨ tldRec.isExpired clock = true)
    (.tldUnavailable parsed.tld tldRec.status.asStr)
  rejectIf (tldRec.operatorPublicKey ≠ ctx.officialOperator.nodeId)
    (.mutationRejected s!"this node does not hold the operator key for .{parsed.tld}")
  let existing := zone.domains[fqdn]?
  checkPublishable existing fqdn actor isUpdate
  let manifestBytes ← okOr manifests[manifestHash]?
    (.manifestNotFound s!"{manifestHash} (submit the site package first)")
  let manifest ← serde (SerdeDocuments.manifest manifestBytes)
  manifest.validate
  manifest.verify fqdn actor
  let r := (publishedRecord existing parsed actor manifestHash
    (Externals.toRfc3339 ctx.now)).signedBy ctx.officialOperator
  return ⟨zone.putDomain fqdn r, none, .domainOwner⟩

/-- The role under which an actor may change the status of a domain. -/
def statusRole (zone : RootZone) (actor : String) (tldRec : TldRecord) (fqdn tld : String) :
    Result ActorRole :=
  if actor = zone.rootPublicKey then .ok .root
  else if actor = tldRec.operatorPublicKey then .ok .tldOperator
  else .error (.unauthorized
    s!"only the root key or the .{tld} operator can change {fqdn} status")

/-- `SetDomainStatus`. -/
def setDomainStatus (zone : RootZone) (actor : String) (ctx : MutationContext) (domain : String)
    (status : DomainStatus) : Result ActionEffect := do
  let fqdn := Text.toAsciiLowercase domain
  let r ← okOr zone.domains[fqdn]? (.domainNotFound fqdn)
  let tldRec ← okOr (zone.lookupTld r.tld) (.tldNotFound r.tld)
  let role ← statusRole zone actor tldRec fqdn r.tld
  rejectIf (allowedDomainTransition r.status status (actor = zone.rootPublicKey) = false)
    (.mutationRejected s!"{fqdn}: transition {r.status.asStr} -> {status.asStr} is not allowed")
  rejectIf (tldRec.operatorPublicKey ≠ ctx.officialOperator.nodeId)
    (.mutationRejected s!"this node does not hold the operator key for .{r.tld}")
  let updated := { r with
    status, updatedAt := Externals.toRfc3339 ctx.now, signature := none }
  return ⟨zone.putDomain fqdn (updated.signedBy ctx.officialOperator), none, role⟩

/-- `IssueDomain`: the label is validated in normal form, the record is stored as it came. -/
def issueDomain (zone : RootZone) (actor : String) (clock : DateTime) (r : DomainRecord) :
    Result ActionEffect := do
  let tldRec ← okOr (zone.lookupTld r.tld) (.tldNotFound r.tld)
  rejectIf (tldRec.registryType ≠ .rootManaged) (.mutationRejected
    s!".{r.tld} is delegated; its registry is operator-published, not root-zone")
  rejectIf (actor ≠ tldRec.operatorPublicKey)
    (.unauthorized s!"actor is not the operator of .{r.tld}")
  let _ ← mapError (fun e => .mutationRejected s!"invalid label: {e}") (validateLabel r.label)
  r.verify actor
  rejectIf (r.isExpired clock = true)
    (.mutationRejected s!"{r.domain} record is already expired")
  match zone.domains[r.domain]? with
  | some existing =>
    rejectIf (existing.status = .revoked ∧ actor ≠ zone.rootPublicKey)
      (.mutationRejected s!"{r.domain} is revoked; only root can reissue it")
  | none => pure ()
  return ⟨zone.putDomain r.domain r, none, .tldOperator⟩

/-- `DelegateTld`. -/
def delegateTld (zone : RootZone) (actor : String) (ctx : MutationContext)
    (tld owner operator operatorName : String) (registryType : RegistryType)
    (endpoint expiresAt : Option String) : Result ActionEffect := do
  rejectIf (actor ≠ zone.rootPublicKey)
    (.unauthorized "only the Federate Root Key can delegate TLDs")
  let name ← ctx.blocklists.validateNewTld tld false
  rejectIf (name ∈ zone.tlds) (.mutationRejected s!".{name} already exists; use tld.update")
  rejectIf (registryType = .rootManaged)
    (.mutationRejected "a delegated TLD needs a delegated registry type")
  [("owner", owner), ("operator", operator)].forM fun key =>
    rejectIf (isKeyText key.2 = false)
      (.mutationRejected s!"{key.1} key must be a 64-char hex public key")
  let r := (delegatedRecord name owner operator operatorName registryType endpoint expiresAt
    (Externals.toRfc3339 ctx.now)).signedBy ctx.root
  return ⟨zone.putTld name r, none, .root⟩

/-- `CreateTld`. -/
def createTld (zone : RootZone) (actor : String) (ctx : MutationContext) (tld purpose : String) :
    Result ActionEffect := do
  rejectIf (actor ≠ zone.rootPublicKey)
    (.unauthorized "only the Federate Root Key can create official TLDs")
  let name ← ctx.blocklists.validateNewTld tld true
  rejectIf (name ∈ zone.tlds) (.mutationRejected s!".{name} already exists in the registry")
  let r := (officialRecord ctx name purpose (Externals.toRfc3339 ctx.now)).signedBy ctx.root
  return ⟨zone.putTld name r, none, .root⟩

/-- `ReserveTld` and `BlockTld`: naming rules only, no blocklist. -/
def restrictTld (zone : RootZone) (actor : String) (ctx : MutationContext) (status : TldStatus)
    (mode : TldMode) (tld reason : String) : Result ActionEffect := do
  rejectIf (actor ≠ zone.rootPublicKey)
    (.unauthorized "only the Federate Root Key can reserve or block TLDs")
  let name ← validateTldName tld
  rejectIf (name ∈ zone.tlds)
    (.mutationRejected s!".{name} already exists in the registry; use tld.set_status")
  let r := (restrictedRecord ctx status mode name reason
    (Externals.toRfc3339 ctx.now)).signedBy ctx.root
  return ⟨zone.putTld name r, none, .root⟩

/-- `UpdateTld`: present fields replace, absent ones stay. -/
def updateTld (zone : RootZone) (actor : String) (ctx : MutationContext) (tld : String)
    (endpoint expiresAt notes : Option String) : Result ActionEffect := do
  rejectIf (actor ≠ zone.rootPublicKey)
    (.unauthorized "only the Federate Root Key can update TLD records")
  let name := Text.toAsciiLowercase tld
  let r ← okOr zone.tlds[name]? (.tldNotFound name)
  let updated := { r with
    registryEndpoint := endpoint.or r.registryEndpoint
    expiresAt := expiresAt.or r.expiresAt
    notes := notes.or r.notes
    updatedAt := Externals.toRfc3339 ctx.now
    signature := none }
  return ⟨zone.putTld name (updated.signedBy ctx.root), none, .root⟩

/-- `SetTldStatus`: any status but the current one, whatever the name. -/
def setTldStatus (zone : RootZone) (actor : String) (ctx : MutationContext) (tld : String)
    (status : TldStatus) : Result ActionEffect := do
  rejectIf (actor ≠ zone.rootPublicKey)
    (.unauthorized "only the Federate Root Key can change TLD status")
  let name := Text.toAsciiLowercase tld
  let r ← okOr zone.tlds[name]? (.tldNotFound name)
  rejectIf (r.status = status)
    (.mutationRejected s!".{name} already has status '{status.asStr}'")
  let updated := { r with
    status, updatedAt := Externals.toRfc3339 ctx.now, signature := none }
  return ⟨zone.putTld name (updated.signedBy ctx.root), none, .root⟩

/-- `UpdateRegistryPointer`. -/
def updateRegistryPointer (zone : RootZone) (registries : Registries) (actor : String)
    (ctx : MutationContext) (tld registryHex : String) : Result ActionEffect := do
  let name := Text.toAsciiLowercase tld
  let r ← okOr zone.tlds[name]? (.tldNotFound name)
  rejectIf (actor ≠ r.operatorPublicKey) (.unauthorized s!"actor is not the operator of .{name}")
  rejectIf (r.registryType ≠ .delegatedManifest) (.mutationRejected
    (s!".{name} registry type is {r.registryType.debugName}; only delegated_manifest pins a " ++
      "hash through the root"))
  let bytes ← okOr (Hex.decode registryHex) (.mutationRejected "registry_hex is not hex")
  let registry ← serde (SerdeDocuments.tldRegistry bytes)
  registry.verify name actor
  let currentVersion := (registries[name]?.map fun entry => entry.2.version).getD 0
  rejectIf (registry.version ≤ currentVersion)
    (.replay s!".{name} registry v{registry.version} does not advance v{currentVersion}")
  let updated := { r with
    registryManifestHash := some (hashBytes bytes)
    updatedAt := Externals.toRfc3339 ctx.now
    signature := none }
  return ⟨zone.putTld name (updated.signedBy ctx.root), some (name, bytes, registry), .tldOperator⟩

/-- `RegistryStore::apply_action`. -/
def applyAction (zone : RootZone) (manifests : Table String Bytes) (registries : Registries)
    (actor : String) (ctx : MutationContext) (clock : DateTime) :
    MutationAction → Result ActionEffect
  | .publishSite domain manifestHash =>
    publish zone manifests actor ctx clock false domain manifestHash
  | .updateDomainManifest domain manifestHash =>
    publish zone manifests actor ctx clock true domain manifestHash
  | .setDomainStatus domain status => setDomainStatus zone actor ctx domain status
  | .issueDomain r => issueDomain zone actor clock r
  | .delegateTld tld owner operator operatorName registryType endpoint expiresAt =>
    delegateTld zone actor ctx tld owner operator operatorName registryType endpoint expiresAt
  | .createTld tld purpose => createTld zone actor ctx tld purpose
  | .reserveTld tld reason => restrictTld zone actor ctx .reserved .reserved tld reason
  | .blockTld tld reason => restrictTld zone actor ctx .blocked .blocked tld reason
  | .updateTld tld endpoint expiresAt notes =>
    updateTld zone actor ctx tld endpoint expiresAt notes
  | .setTldStatus tld status => setTldStatus zone actor ctx tld status
  | .updateRegistryPointer tld registryHex =>
    updateRegistryPointer zone registries actor ctx tld registryHex

end Arms

end Federate
