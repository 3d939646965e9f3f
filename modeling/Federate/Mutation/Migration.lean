import Federate.Library.Lines
import Federate.Mutation.Store

/-!
# Importing a legacy registry

The file layout before the database: one state file, two logs of JSON lines and snapshot files.
It is read and checked whole; then its parts are written into a new database, each item in a
transaction of its own, and the files are moved away.
-/

namespace Federate

open Outcome Stateful

/-! ## Lines of a text -/

/-- The lines that are not blank. -/
def filledLines (text : String) : List String :=
  ((Text.linesOf text.toList).map String.ofList).filter fun line => Text.trim line ≠ ""

/-- `read_lines`: a file that is absent has no lines. -/
def readLines : Option (Result String) → Result (List String)
  | none => .ok []
  | some text => filledLines <$> text

/-! ## The legacy format -/

/-- `PersistedState`: the content of `state.json`. -/
structure PersistedState where
  /-- The signed zone. -/
  zone : RootZone
  /-- TLD to exact signed registry bytes, hexadecimal. -/
  registries : Table String String
  /-- Target key to last accepted version. -/
  targetVersions : Table String UInt64

/-- Its JSON content. -/
def PersistedState.toJson (st : PersistedState) : Json :=
  .obj [("zone", st.zone.toJson),
    ("registries", .obj (st.registries.toList.map fun p => (p.1, Json.str p.2))),
    ("target_versions", .obj (st.targetVersions.toList.map fun p => (p.1, Json.ofUInt64 p.2)))]

/-- `LegacyJsonState`. -/
structure LegacyJsonState where
  /-- The signed zone. -/
  zone : RootZone
  /-- TLD to exact signed bytes and parsed registry. -/
  registries : Registries
  /-- Target key to last accepted version. -/
  targetVersions : Table String UInt64
  /-- The accepted mutations, in file order. -/
  applied : List AppliedMutation
  /-- The audit events, oldest first. -/
  audit : List AuditRecord
  /-- Version to bytes of the zones found among the snapshots. -/
  snapshotZones : Table UInt64 Bytes

/-- What reading the files of a legacy registry gives. -/
structure LegacyFiles where
  /-- `state.json`. -/
  state : Result Bytes
  /-- `mutations.jsonl`, when it is a file. -/
  mutations : Option (Result String)
  /-- `audit.jsonl`, when it is a file. -/
  audit : Option (Result String)
  /-- The entries of `snapshots/`, in listing order. -/
  snapshots : Result (List (Result Bytes))

/-- `serde_json::from_slice` at the type of the state file, beside the others. -/
class SerdeLegacy extends SerdeJson where
  /-- Read a state file. -/
  persistedState : Bytes → Except String PersistedState

section Load

variable [Externals] [SerdeLegacy]

/-- The zones among the snapshots that parse and verify; a later one of a version replaces an
earlier one. -/
def snapshotZones (expectedRootKey : String) (entries : List (Result Bytes)) :
    Table UInt64 Bytes :=
  entries.foldl (fun zones entry =>
    match entry with
    | .error _ => zones
    | .ok bytes =>
      match SerdeDocuments.rootZone bytes with
      | .error _ => zones
      | .ok zone =>
        match zone.verify expectedRootKey with
        | .error _ => zones
        | .ok _ => zones.insert zone.rootVersion bytes) ∅

/-- `legacy_json::load`. -/
def LegacyFiles.load (files : LegacyFiles) (expectedRootKey : String) :
    Result LegacyJsonState := do
  let bytes ← files.state
  let state ← serde (SerdeLegacy.persistedState bytes)
  state.zone.validate
  state.zone.verify expectedRootKey
  let registries ← Rows.load (fun tld hexBytes => do
    let raw ← okOr (Hex.decode hexBytes)
      (.invalidRoot s!"persisted .{tld} registry is not hex")
    let parsed ← serde (SerdeDocuments.tldRegistry raw)
    let record ← okOr (state.zone.lookupTld tld)
      (.invalidRoot s!"persisted registry for .{tld} has no TLD record in the zone")
    parsed.verify tld record.operatorPublicKey
    return (raw, parsed)) state.registries
  let applied ← (← readLines files.mutations).mapM fun line =>
    mapError (fun e => .invalidRoot s!"unreadable mutation history line: {e}")
      (SerdeJson.appliedMutation line.toUTF8.data.toList)
  let audit ← (← readLines files.audit).mapM fun line => do
    let event ← mapError (fun e => .invalidRoot s!"unreadable audit line: {e}")
      (SerdeJson.auditRecord line.toUTF8.data.toList)
    event.verify expectedRootKey
    return event
  let entries ← files.snapshots
  return {
    zone := state.zone
    registries
    targetVersions := state.targetVersions
    applied
    audit
    snapshotZones := snapshotZones expectedRootKey entries }

end Load

/-! ## The transactions of the import -/

namespace RedbTables

variable [Externals]

/-- `put_root_zone_version`. -/
def putRootZoneVersion (t : RedbTables) (version : UInt64) (zoneJson : Bytes) : RedbTables :=
  { t with rootZoneVersions := t.rootZoneVersions.insert version zoneJson }

/-- `append_mutation`. -/
def appendMutation (t : RedbTables) (m : AppliedMutation) : RedbTables :=
  { t with mutations := t.mutations.insert m.mutation.mutationId (Externals.toVec m.toJson) }

/-- `append_audit_event`. -/
def appendAuditEvent (t : RedbTables) (event : AuditRecord) : Result RedbTables := do
  let seq ← t.nextAuditSeq
  return { t with auditEvents := t.auditEvents.insert seq (Externals.toVec event.toJson) }

omit [Externals] in
/-- `put_target_version`. -/
def putTargetVersion (t : RedbTables) (key : String) (version : UInt64) : RedbTables :=
  { t with targetVersions := t.targetVersions.insert key version }

end RedbTables

/-- The outcomes of the storage operations of one migration. -/
structure MigrationIo where
  /-- Creating the directory and the database file. -/
  create : Result Unit
  /-- The transaction that creates the tables. -/
  ensureTables : Result Unit
  /-- The transaction of the initial state. -/
  initial : Result Unit
  /-- The transactions of the older zone versions. -/
  zoneVersion : ℕ → Result Unit
  /-- The transactions of the mutations. -/
  mutation : ℕ → Result Unit
  /-- The transactions of the audit events. -/
  auditEvent : ℕ → Result Unit
  /-- The transactions of the target versions. -/
  target : ℕ → Result Unit
  /-- Creating the backup directory and moving the files. -/
  backup : ℕ → Result Unit

/-- Every operation succeeds. -/
def MigrationIo.ok : MigrationIo :=
  ⟨.ok (), .ok (), .ok (), fun _ => .ok (), fun _ => .ok (), fun _ => .ok (), fun _ => .ok (),
    fun _ => .ok ()⟩

/-- What `migrate_json_to_redb` reports. -/
structure MigrationReport where
  /-- Version of the zone. -/
  rootVersion : UInt64
  /-- Number of TLD records. -/
  tlds : ℕ
  /-- Number of domain records. -/
  domains : ℕ
  /-- Number of delegated registries. -/
  delegatedRegistries : ℕ
  /-- Number of mutations. -/
  mutations : ℕ
  /-- Number of audit events. -/
  auditEvents : ℕ
  /-- Number of zones among the snapshots. -/
  olderZoneVersions : ℕ
  /-- Path of the backup directory. -/
  legacyBackup : String
  /-- Path of the database. -/
  database : String

/-- A program on a registry directory. -/
abbrev DirM (α : Type) : Type := Prog RegistryDir FederateError α

/-- One transaction on the database of the directory: what it writes is there once it is
committed. -/
def transact (change : RedbTables → Result RedbTables) (committed : Result Unit) : DirM Unit := do
  let dir ← get
  let tables ← change (dir.database.getD .empty)
  committed
  modify fun dir => { dir with database := some tables }

/-- A loop of transactions, one for each item. -/
def transactEach {α : Type} (change : α → RedbTables → Result RedbTables) :
    List α → (ℕ → Result Unit) → DirM Unit
  | [], _ => pure ()
  | item :: rest, committed => do
    transact (change item) (committed 0)
    transactEach change rest fun index => committed (index + 1)

/-- `backup_files`: the state file is moved first. -/
def backupFiles (files : LegacyFiles) (moved : ℕ → Result Unit) : DirM String := do
  let dir ← get
  moved 0
  moved 1
  modify fun dir => { dir with files := { dir.files with legacyJson := false } }
  if files.mutations.isSome = true then moved 2
  if files.audit.isSome = true then moved 3
  return dir.path ++ "/legacy-json-backup"

variable [Externals]

/-- The initial state of the import. -/
def LegacyJsonState.initialState (legacy : LegacyJsonState) : InitialState where
  zoneJson := Externals.toVec legacy.zone.toJson
  rootVersion := legacy.zone.rootVersion
  stateHash := stateHash legacy.zone
  tlds := Rows.values legacy.zone.tlds
  domains := Rows.values legacy.zone.domains
  delegatedRegistries := legacy.registries.toList.map fun entry => (entry.1, entry.2.1)
  snapshot := ⟨legacy.zone.rootVersion, legacy.zone.generatedAt, stateHash legacy.zone⟩

/-- The zones among the snapshots of other versions than the current one. -/
def LegacyJsonState.olderZones (legacy : LegacyJsonState) : List (UInt64 × Bytes) :=
  legacy.snapshotZones.toList.filter fun entry => entry.1 ≠ legacy.zone.rootVersion

/-- `migrate_json_to_redb`. -/
def migrateJsonToRedb [SerdeLegacy] (files : LegacyFiles) (expectedRootKey : String)
    (io : MigrationIo) : DirM MigrationReport := do
  let dir ← get
  (rejectIf (dir.database.isSome = true) (.storage
    s!"database already exists at {dir.dbPath}; nothing to migrate") : Result Unit)
  (rejectIf (dir.files.legacyJson = false) (.storage
    s!"no legacy JSON registry at {dir.path}/state.json") : Result Unit)
  let legacy ← files.load expectedRootKey
  io.create
  modify fun dir => { dir with database := some .empty }
  io.ensureTables
  transact (fun t => .ok (t.commitInitial legacy.initialState)) io.initial
  transactEach (fun entry t => .ok (t.putRootZoneVersion entry.1 entry.2)) legacy.olderZones
    io.zoneVersion
  transactEach (fun m t => .ok (t.appendMutation m)) legacy.applied io.mutation
  transactEach (fun event t => t.appendAuditEvent event) legacy.audit io.auditEvent
  transactEach (fun entry t => .ok (t.putTargetVersion entry.1 entry.2))
    legacy.targetVersions.toList io.target
  let backup ← backupFiles files io.backup
  return {
    rootVersion := legacy.zone.rootVersion
    tlds := legacy.zone.tlds.size
    domains := legacy.zone.domains.size
    delegatedRegistries := legacy.registries.size
    mutations := legacy.applied.length
    auditEvents := legacy.audit.length
    olderZoneVersions := legacy.snapshotZones.size
    legacyBackup := backup
    database := dir.dbPath }

end Federate
