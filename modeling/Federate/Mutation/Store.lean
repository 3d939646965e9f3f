import Federate.Library.Stateful
import Federate.Mutation.Action

/-!
# The registry store

The in-memory registry, the directory that persists it, and the only code path that changes
it. Every write to the disk has an outcome that the storage decides (`StorageIo`); what was
changed before a failed write stays changed.
-/

namespace Federate

open Outcome Stateful

/-- `ZONE_AUDIT_TAIL`: the zone embeds only the newest audit events. -/
def zoneAuditTail : ℕ := 200

/-- The files of a registry directory beside the database. -/
structure DirFiles where
  /-- `manifests/`: file name to content. -/
  manifests : Table String Bytes
  /-- `blocks/`: file name to content. -/
  blocks : Table String Bytes
  /-- `snapshots/`: file name to content. -/
  snapshots : Table String Bytes
  /-- A legacy `state.json` is present. -/
  legacyJson : Bool

/-- A registry directory. -/
structure RegistryDir where
  /-- Its path. -/
  path : String
  /-- `registry.redb`, when the file exists. -/
  database : Option RedbTables
  /-- The other files. -/
  files : DirFiles

/-- A directory that nothing was stored in. -/
def RegistryDir.fresh (path : String) : RegistryDir := ⟨path, none, ⟨∅, ∅, ∅, false⟩⟩

/-- `RedbRegistryStore::db_path`. -/
def RegistryDir.dbPath (dir : RegistryDir) : String := dir.path ++ "/registry.redb"

/-- `RegistryStore::exists`. -/
def RegistryDir.exists (dir : RegistryDir) : Bool := dir.database.isSome || dir.files.legacyJson

/-- The outcomes of the storage operations of one call. -/
structure StorageIo where
  /-- Writing and renaming a manifest file. -/
  manifestFile : Result Unit
  /-- The transaction of the mutation. -/
  transaction : Result Unit
  /-- Writing and renaming a snapshot file. -/
  snapshotFile : Result Unit
  /-- The transaction of the snapshot metadata. -/
  snapshotTransaction : Result Unit

/-- Every storage operation succeeds. -/
def StorageIo.ok : StorageIo := ⟨.ok (), .ok (), .ok (), .ok ()⟩

/-- `RegistryStore`, with the contents of the directory it writes to. -/
structure RegistryStore where
  /-- Path of the directory. -/
  path : String
  /-- The tables of the database. -/
  database : RedbTables
  /-- The other files of the directory. -/
  files : DirFiles
  /-- The signed zone. -/
  zone : RootZone
  /-- TLD to exact signed bytes and parsed registry. -/
  registries : Registries
  /-- Content address to manifest or registry bytes. -/
  manifests : Table String Bytes
  /-- Target key to last accepted version. -/
  targetVersions : Table String UInt64
  /-- Mutation id to accepted mutation. -/
  applied : Table String AppliedMutation
  /-- Audit events, oldest first. -/
  audit : List AuditRecord

/-- The directory of a store. -/
def RegistryStore.dir (s : RegistryStore) : RegistryDir := ⟨s.path, some s.database, s.files⟩

/-- A program on the store. -/
abbrev StoreM (α : Type) : Type := Prog RegistryStore FederateError α

/-- `zone.root_version.saturating_add(1).max(now.timestamp().max(0) as u64)`. -/
def nextRootVersion (version : UInt64) (now : DateTime) : UInt64 :=
  let next := if version.toNat + 1 < 2 ^ 64 then version + 1 else version
  max next (UInt64.ofNat now.timestamp.toNat)

variable [Externals]

/-- `state_hash`. -/
def stateHash (z : RootZone) : String := hashBytes (canonicalBytes z.toJson)

/-- The newest audit events of a zone. -/
def auditTail (events : List AuditEvent) : List AuditEvent :=
  events.drop (events.length - zoneAuditTail)

/-- The zone re-signed after an accepted mutation: higher version, one more audit event. -/
def RootZone.advance (z : RootZone) (root : NodeIdentity) (now : DateTime) (event : AuditEvent) :
    RootZone :=
  { z with
    rootVersion := nextRootVersion z.rootVersion now
    generatedAt := Externals.toRfc3339 now
    audit := auditTail (z.audit ++ [event]) }.signedBy root

namespace RegistryStore

/-! ## The mutation path -/

/-- `RegistryStore::target_version`. -/
def targetVersion (s : RegistryStore) (targetKey : String) : UInt64 :=
  s.targetVersions[targetKey]?.getD 0

/-- A mutation that passed every check, before anything is stored. -/
structure Prepared where
  /-- The new signed zone. -/
  zone : RootZone
  /-- TLD, exact bytes and parse of a newly pinned registry. -/
  newRegistry : Option (String × Bytes × TldRegistry)
  /-- The signed audit event. -/
  event : AuditRecord

/-- The event of an accepted mutation in the zone's own trail. -/
def zoneEvent (req : MutationRequest) (role : ActorRole) (now : String) : AuditEvent where
  at_ := now
  actor := role.asStr
  action := req.action.name
  subject := req.action.target.2
  detail := some req.mutationId

/-- The event of an accepted mutation in the audit log, before it is named and signed. -/
def auditEvent (req : MutationRequest) (role : ActorRole)
    (previousStateHash newStateHash now : String) : AuditRecord where
  eventId := ""
  mutationId := req.mutationId
  actorPublicKey := req.actorPublicKey
  actorRole := role.asStr
  action := req.action.name
  targetType := req.action.target.1.asStr
  targetId := req.action.target.2
  previousStateHash
  newStateHash
  timestamp := now
  signatureAlgorithm := signatureAlgorithm
  signature := none

/-- What an accepted action is about to store: the re-signed zone and its event. -/
def prepared (s : RegistryStore) (req : MutationRequest) (ctx : MutationContext)
    (effect : ActionEffect) : Prepared :=
  let now := Externals.toRfc3339 ctx.now
  let zone := effect.zone.advance ctx.root ctx.now (zoneEvent req effect.role now)
  let event := auditEvent req effect.role (stateHash s.zone) (stateHash zone) now
  ⟨zone, effect.newRegistry, event.finalize ctx.root⟩

/-- The first half of `RegistryStore::apply`, up to the first change of the store: the
envelope, the window, replay and rollback, the action, and the check of the re-signed zone. -/
def prepare [SerdeJson] (s : RegistryStore) (req : MutationRequest) (ctx : MutationContext)
    (clock : DateTime) : Result Prepared := do
  req.verify
  req.checkAge ctx.now
  rejectIf (req.mutationId ∈ s.applied)
    (.replay s!"mutation {req.mutationId} was already applied")
  let targetKey := req.action.targetKey
  let current := s.targetVersion targetKey
  rejectIf (req.targetVersion ≤ current)
    (.replay (s!"target version {req.targetVersion} does not advance {targetKey} " ++
      s!"(current {current})"))
  let effect ← applyAction s.zone s.manifests s.registries req.actorPublicKey ctx clock req.action
  let p := s.prepared req ctx effect
  p.zone.verify ctx.root.nodeId
  return p

/-- `RegistryStore::write_manifest`. -/
def writeManifest (hash : String) (bytes : Bytes) (written : Result Unit) : StoreM Unit := do
  written
  modify fun s => { s with
    files := { s.files with manifests := s.files.manifests.insert hash bytes }
    manifests := s.manifests.insert hash bytes }

/-- The metadata of a snapshot of the current zone. -/
def snapshotMeta (s : RegistryStore) : SnapshotMeta :=
  ⟨s.zone.rootVersion, s.zone.generatedAt, stateHash s.zone⟩

/-- `RegistryStore::write_snapshot`. -/
def writeSnapshot (io : StorageIo) : StoreM String := do
  let s ← get
  let name := s!"root-zone-v{s.zone.rootVersion}.json"
  io.snapshotFile
  modify fun s => { s with
    files := { s.files with
      snapshots := s.files.snapshots.insert name (Externals.toVecPretty s.zone.toJson) } }
  io.snapshotTransaction
  modify fun s => { s with database := s.database.writeSnapshotMeta s.snapshotMeta }
  return s.path ++ "/snapshots/" ++ name

/-- The history entry of an accepted mutation. -/
def appliedMutation (req : MutationRequest) (p : Prepared) : AppliedMutation :=
  ⟨req, p.event.eventId, p.event.timestamp, p.zone.rootVersion⟩

/-- The batch of an accepted mutation. -/
def commitBatch (s : RegistryStore) (req : MutationRequest) (p : Prepared) : CommitBatch where
  zoneJson := Externals.toVec s.zone.toJson
  rootVersion := s.zone.rootVersion
  stateHash := stateHash s.zone
  tlds := Rows.values s.zone.tlds
  domains := Rows.values s.zone.domains
  targetKey := req.action.targetKey
  targetVersion := req.targetVersion
  applied := appliedMutation req p
  audit := p.event
  delegatedRegistry := p.newRegistry.map fun (tld, bytes, _) => (tld, bytes)
  snapshot := s.snapshotMeta

/-- The second half of `RegistryStore::apply`: memory first, then one transaction, then the
snapshot. -/
def commit (req : MutationRequest) (p : Prepared) (io : StorageIo) : StoreM AuditRecord := do
  modify fun s => { s with zone := p.zone }
  match p.newRegistry with
  | some (tld, bytes, parsed) => do
    writeManifest (hashBytes bytes) bytes io.manifestFile
    modify fun s => { s with registries := s.registries.insert tld (bytes, parsed) }
  | none => pure ()
  modify fun s => { s with
    targetVersions := s.targetVersions.insert req.action.targetKey req.targetVersion
    applied := s.applied.insert req.mutationId (appliedMutation req p)
    audit := s.audit ++ [p.event] }
  let s ← get
  let tables ← s.database.commitMutation (s.commitBatch req p)
  io.transaction
  modify fun s => { s with database := tables }
  let _ ← writeSnapshot io
  return p.event

/-- `RegistryStore::apply`. `clock` is the reading of the wall clock that `is_expired` takes. -/
def apply [SerdeJson] (req : MutationRequest) (ctx : MutationContext) (clock : DateTime)
    (io : StorageIo) : StoreM AuditRecord := do
  let s ← get
  let p ← s.prepare req ctx clock
  commit req p io

/-! ## Content ingestion -/

/-- `RegistryStore::store_manifest`. -/
def storeManifest (hash : String) (bytes : Bytes) (written : Result Unit) : StoreM Unit := do
  verifyHash bytes hash
  writeManifest hash bytes written

/-- `BlockStore::put`. -/
def putBlock (hash : String) (bytes : Bytes) (written : Result Unit) : StoreM Unit := do
  verifyHash bytes hash
  written
  modify fun s => { s with
    files := { s.files with blocks := s.files.blocks.insert hash bytes } }

/-- `RegistryStore::store_blocks`; the storage decides the outcome of every write. -/
def storeBlocks : List (String × Bytes) → (ℕ → Result Unit) → StoreM Unit
  | [], _ => pure ()
  | (hash, bytes) :: rest, written => do
    putBlock hash bytes (written 0)
    storeBlocks rest fun index => written (index + 1)

end RegistryStore

/-! ## First boot, restart and self-check -/

/-- The empty zone of a new registry, before it is signed. -/
def emptyZone (root : NodeIdentity) (now : DateTime) : RootZone where
  network := networkName
  rootVersion := UInt64.ofNat now.timestamp.toNat
  generatedAt := Externals.toRfc3339 now
  rootPublicKey := root.nodeId
  tlds := ∅
  domains := ∅
  audit :=
    [{ at_ := Externals.toRfc3339 now
       actor := "root"
       action := "root.init"
       subject := "root-zone"
       detail := some "empty registry initialized; TLDs arrive via seed/mutations" }]
  signatureAlgorithm := signatureAlgorithm
  signature := none

/-- `RegistryStore::init`, on the empty maps that `init_empty_registry` passes. -/
def RegistryStore.init (dir : RegistryDir) (zone : RootZone) (io : StorageIo) :
    Result RegistryStore := do
  rejectIf (dir.database.isSome = true)
    (.storage s!"database already exists at {dir.dbPath}")
  let state : InitialState :=
    { zoneJson := Externals.toVec zone.toJson
      rootVersion := zone.rootVersion
      stateHash := stateHash zone
      tlds := Rows.values zone.tlds
      domains := Rows.values zone.domains
      delegatedRegistries := []
      snapshot := ⟨zone.rootVersion, zone.generatedAt, stateHash zone⟩ }
  io.transaction
  let store : RegistryStore :=
    { path := dir.path
      database := RedbTables.empty.commitInitial state
      files := dir.files
      zone
      registries := ∅
      manifests := ∅
      targetVersions := ∅
      applied := ∅
      audit := [] }
  let (outcome, store) := exec (RegistryStore.writeSnapshot io) store
  let _ ← outcome
  return store

/-- `init_empty_registry`. -/
def initEmptyRegistry (dir : RegistryDir) (root : NodeIdentity) (now : DateTime)
    (io : StorageIo) : Result RegistryStore := do
  rejectIf (dir.exists = true)
    (.mutationRejected s!"registry already initialized at {dir.path}")
  let zone := (emptyZone root now).signedBy root
  zone.verify root.nodeId
  RegistryStore.init dir zone io

/-- The delegated registries of a database, each parsed and verified against the operator key
of its TLD record. -/
def loadRegistries [SerdeJson] (zone : RootZone) (rows : Table String Bytes) : Result Registries :=
  Rows.load (fun tld raw => do
    let parsed ← serde (SerdeDocuments.tldRegistry raw)
    let record ← okOr (zone.lookupTld tld)
      (.invalidRoot s!"persisted registry for .{tld} has no TLD record in the zone")
    parsed.verify tld record.operatorPublicKey
    return (raw, parsed)) rows

/-- `RegistryStore::open`. -/
def RegistryStore.openDir [SerdeJson] (dir : RegistryDir) (expectedRootKey : String) :
    Result RegistryStore := do
  let database ← okOr dir.database
    (if dir.files.legacyJson then
      .storage (s!"legacy JSON registry found at {dir.path}; migrate it with: " ++
        "federate registry migrate-json-to-redb --data-dir <node data dir>")
    else .storage s!"no registry database at {dir.dbPath}")
  let current ← database.currentRootZone
  let (version, zoneJson) ← okOr current (.storage "database has no current root zone")
  let zone ← serde (SerdeDocuments.rootZone zoneJson)
  zone.validate
  zone.verify expectedRootKey
  rejectIf (zone.rootVersion ≠ version) (.invalidRoot
    s!"current zone claims v{zone.rootVersion} but metadata points at v{version}")
  match database.registryMetadata["state_hash"]? with
  | some stored =>
    rejectIf (stored ≠ stateHash zone)
      (.invalidRoot "stored state hash does not match the current zone")
  | none => pure ()
  let registries ← loadRegistries zone database.delegatedRegistries
  let mutations ← database.listMutations
  let audit ← database.listAuditEvents
  return {
    path := dir.path
    database
    files := dir.files
    zone
    registries
    manifests := dir.files.manifests.filter fun name bytes => hashBytes bytes = name
    targetVersions := database.targetVersions
    applied := Rows.store (fun (m : AppliedMutation) => m.mutation.mutationId) id mutations
    audit }

namespace RegistryStore

/-- `RegistryStore::verify_tables`: the record tables mirror the zone. -/
def verifyTables [SerdeJson] (s : RegistryStore) : Result Unit := do
  let tlds ← s.database.listTlds
  rejectIf (tlds.length ≠ s.zone.tlds.size ∨
      tlds.any (fun r => ((s.zone.lookupTld r.tld).map
        fun z => decide (z.signature ≠ r.signature)).getD true) = true)
    (.invalidRoot "tld_records table does not mirror the signed zone")
  let domains ← s.database.listDomains
  rejectIf (domains.length ≠ s.zone.domains.size ∨
      domains.any (fun r => ((s.zone.lookup r.domain).map
        fun z => decide (z.signature ≠ r.signature)).getD true) = true)
    (.invalidRoot "domain_records table does not mirror the signed zone")

/-- `BlockStore::get` on the block files, as the self-check calls it. -/
def checkBlock (hash : String) (bytes : Bytes) : Result Unit := do
  rejectIf (isValidHash hash = false) (.blockNotFound hash)
  verifyHash bytes hash

/-- The counts that `verify_all` reports. -/
structure VerifyReport where
  /-- Zone version. -/
  rootVersion : UInt64
  /-- Number of TLD records. -/
  tlds : ℕ
  /-- Number of domain records. -/
  domains : ℕ
  /-- Number of delegated registries. -/
  delegatedRegistries : ℕ
  /-- Number of manifests. -/
  manifests : ℕ
  /-- Number of blocks. -/
  blocks : ℕ
  /-- Number of audit events. -/
  auditEvents : ℕ
  /-- Number of accepted mutations. -/
  mutations : ℕ

/-- `RegistryStore::verify_all`. -/
def verifyAll [SerdeJson] (s : RegistryStore) (expectedRootKey : String) :
    Result VerifyReport := do
  s.zone.validate
  s.zone.verify expectedRootKey
  s.registries.toList.forM fun (tld, _, registry) => do
    let record ← okOr (s.zone.lookupTld tld) (.invalidRoot s!".{tld} registry has no TLD record")
    registry.verify tld record.operatorPublicKey
  s.manifests.toList.forM fun (hash, bytes) => verifyHash bytes hash
  s.files.blocks.toList.forM fun (hash, bytes) => checkBlock hash bytes
  s.audit.forM fun event => event.verify expectedRootKey
  s.verifyTables
  return {
    rootVersion := s.zone.rootVersion
    tlds := s.zone.tlds.size
    domains := s.zone.domains.size
    delegatedRegistries := s.registries.size
    manifests := s.manifests.size
    blocks := s.files.blocks.size
    auditEvents := s.audit.length
    mutations := s.applied.size }

end RegistryStore

end Federate
