import Federate.Library.Rows
import Federate.Mutation.Request

/-!
# The registry database

The tables of `registry.redb` and the transactions that write them. A transaction either
commits whole or leaves the tables as they were; here it is a function of the tables, and
whether the engine commits it is an outcome the caller is given.
-/

namespace Federate

open Outcome

/-- The tables of the registry database. -/
structure RedbTables where
  /-- `tld_records`. -/
  tldRecords : Table String Bytes
  /-- `domain_records`. -/
  domainRecords : Table String Bytes
  /-- `root_zone_versions`. -/
  rootZoneVersions : Table UInt64 Bytes
  /-- `mutations`. -/
  mutations : Table String Bytes
  /-- `audit_events`. -/
  auditEvents : Table UInt64 Bytes
  /-- `snapshots`. -/
  snapshots : Table UInt64 Bytes
  /-- `nonces`. -/
  nonces : Table String Int64
  /-- `registry_metadata`. -/
  registryMetadata : Table String String
  /-- `delegated_registries`. -/
  delegatedRegistries : Table String Bytes
  /-- `target_versions`. -/
  targetVersions : Table String UInt64

/-- `ensure_tables` of a new database: every table present and empty. -/
def RedbTables.empty : RedbTables where
  tldRecords := ∅
  domainRecords := ∅
  rootZoneVersions := ∅
  mutations := ∅
  auditEvents := ∅
  snapshots := ∅
  nonces := ∅
  registryMetadata := ∅
  delegatedRegistries := ∅
  targetVersions := ∅

/-- `InitialState`. -/
structure InitialState where
  /-- JSON of the signed zone. -/
  zoneJson : Bytes
  /-- Its version. -/
  rootVersion : UInt64
  /-- Hash of its canonical bytes. -/
  stateHash : String
  /-- Its TLD records. -/
  tlds : List TldRecord
  /-- Its domain records. -/
  domains : List DomainRecord
  /-- TLD to exact signed registry bytes. -/
  delegatedRegistries : List (String × Bytes)
  /-- Metadata of the first snapshot. -/
  snapshot : SnapshotMeta

/-- `CommitBatch`: everything one accepted mutation changes. -/
structure CommitBatch where
  /-- JSON of the new signed zone. -/
  zoneJson : Bytes
  /-- Its version. -/
  rootVersion : UInt64
  /-- Hash of its canonical bytes. -/
  stateHash : String
  /-- All its TLD records. -/
  tlds : List TldRecord
  /-- All its domain records. -/
  domains : List DomainRecord
  /-- Target of the mutation. -/
  targetKey : String
  /-- Version of the target. -/
  targetVersion : UInt64
  /-- History entry. -/
  applied : AppliedMutation
  /-- Audit event. -/
  audit : AuditRecord
  /-- New registry bytes when the mutation pinned one. -/
  delegatedRegistry : Option (String × Bytes)
  /-- Metadata of the snapshot. -/
  snapshot : SnapshotMeta

namespace RedbTables

section Transactions

variable [Externals]

/-- `write_record_tables`: the record tables rewritten from the full record sets. -/
def writeRecordTables (t : RedbTables) (tlds : List TldRecord) (domains : List DomainRecord) :
    RedbTables :=
  { t with
    tldRecords := Rows.store TldRecord.tld (fun r => Externals.toVec r.toJson) tlds
    domainRecords := Rows.store DomainRecord.domain (fun r => Externals.toVec r.toJson) domains }

/-- `write_zone_pointer`. -/
def writeZonePointer (t : RedbTables) (version : UInt64) (zoneJson : Bytes) (stateHash : String) :
    RedbTables :=
  { t with
    rootZoneVersions := t.rootZoneVersions.insert version zoneJson
    registryMetadata := (t.registryMetadata.insert "current_version" (Text.ofUInt64 version)).insert
      "state_hash" stateHash }

/-- `write_snapshot_meta`. -/
def writeSnapshotMeta (t : RedbTables) (m : SnapshotMeta) : RedbTables :=
  { t with snapshots := t.snapshots.insert m.rootVersion (Externals.toVec m.toJson) }

/-- `next_audit_seq`; the increment of the last number is checked, as in a debug build. -/
def nextAuditSeq (t : RedbTables) : Result UInt64 :=
  okOr (Rows.nextNumber t.auditEvents) (.storage "attempt to add with overflow")

/-- `commit_initial`. -/
def commitInitial (t : RedbTables) (state : InitialState) : RedbTables :=
  let t := t.writeRecordTables state.tlds state.domains
  let t := t.writeZonePointer state.rootVersion state.zoneJson state.stateHash
  let t := { t with
    delegatedRegistries := state.delegatedRegistries.foldl
      (fun (rows : Table String Bytes) (entry : String × Bytes) => rows.insert entry.1 entry.2)
      t.delegatedRegistries }
  t.writeSnapshotMeta state.snapshot

/-- `commit_mutation`. -/
def commitMutation (t : RedbTables) (batch : CommitBatch) : Result RedbTables := do
  let t := t.writeRecordTables batch.tlds batch.domains
  let t := t.writeZonePointer batch.rootVersion batch.zoneJson batch.stateHash
  let t := { t with
    targetVersions := t.targetVersions.insert batch.targetKey batch.targetVersion }
  let t := { t with
    mutations := t.mutations.insert batch.applied.mutation.mutationId
      (Externals.toVec batch.applied.toJson) }
  let seq ← t.nextAuditSeq
  let t := { t with auditEvents := t.auditEvents.insert seq (Externals.toVec batch.audit.toJson) }
  let t := match batch.delegatedRegistry with
    | some (tld, bytes) =>
      { t with delegatedRegistries := t.delegatedRegistries.insert tld bytes }
    | none => t
  return t.writeSnapshotMeta batch.snapshot

end Transactions

section Readers

variable [SerdeJson]

/-- `current_root_zone`: the version the metadata points at, and the zone stored under it. -/
def currentRootZone (t : RedbTables) : Result (Option (UInt64 × Bytes)) :=
  match t.registryMetadata["current_version"]? with
  | none => .ok none
  | some text => do
    let version ← okOr (Text.parseUInt64 text) (.storage "corrupt current_version metadata")
    return t.rootZoneVersions[version]?.map fun bytes => (version, bytes)

/-- `list_tlds`. -/
def listTlds (t : RedbTables) : Result (List TldRecord) :=
  serde (Rows.readAll SerdeJson.tldRecord t.tldRecords)

/-- `list_domains`. -/
def listDomains (t : RedbTables) : Result (List DomainRecord) :=
  serde (Rows.readAll SerdeJson.domainRecord t.domainRecords)

/-- `list_mutations`. -/
def listMutations (t : RedbTables) : Result (List AppliedMutation) :=
  serde (Rows.readAll SerdeJson.appliedMutation t.mutations)

/-- `list_audit_events`. -/
def listAuditEvents (t : RedbTables) : Result (List AuditRecord) :=
  serde (Rows.readAll SerdeJson.auditRecord t.auditEvents)

end Readers

end RedbTables

end Federate
