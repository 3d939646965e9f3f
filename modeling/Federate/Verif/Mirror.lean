import Federate.Verif.Zone

/-!
# Memory and database

The tables hold the state of the registry a second time: the record tables mirror the zone, a
pointer names its stored text, the history and the target versions are rows, the audit log is
numbered from zero. A mutation that is stored keeps the two in agreement.
-/

namespace Federate

open Outcome Stateful RegistryStore

variable [Externals]

/-- The tables of the database hold the state in memory. -/
structure Mirrors (s : RegistryStore) : Prop where
  /-- The TLD records of the zone. -/
  tlds : s.database.tldRecords =
    Rows.encoded (fun r : TldRecord => Externals.toVec r.toJson) s.zone.tlds
  /-- The domain records of the zone. -/
  domains : s.database.domainRecords =
    Rows.encoded (fun r : DomainRecord => Externals.toVec r.toJson) s.zone.domains
  /-- The metadata points at the version of the zone. -/
  version : s.database.registryMetadata["current_version"]? =
    some (Text.ofUInt64 s.zone.rootVersion)
  /-- The zone is stored under its version. -/
  zone : s.database.rootZoneVersions[s.zone.rootVersion]? = some (Externals.toVec s.zone.toJson)
  /-- The metadata holds the hash of the zone. -/
  stateHash : s.database.registryMetadata["state_hash"]? = some (stateHash s.zone)
  /-- The target versions. -/
  targetVersions : s.database.targetVersions = s.targetVersions
  /-- The accepted mutations. -/
  mutations : s.database.mutations =
    Rows.encoded (fun m : AppliedMutation => Externals.toVec m.toJson) s.applied
  /-- The audit log. -/
  audit : Rows.IsLog s.database.auditEvents
    (s.audit.map fun event => Externals.toVec event.toJson)
  /-- The exact bytes of the delegated registries. -/
  registries : s.database.delegatedRegistries = Rows.encoded Prod.fst s.registries

/-- The tables with one mutation written, its audit event under a given number. -/
def RedbTables.withMutation (t : RedbTables) (batch : CommitBatch) (seq : UInt64) : RedbTables :=
  let t := (t.writeRecordTables batch.tlds batch.domains).writeZonePointer batch.rootVersion
    batch.zoneJson batch.stateHash
  RedbTables.writeSnapshotMeta { t with
    targetVersions := t.targetVersions.insert batch.targetKey batch.targetVersion
    mutations := t.mutations.insert batch.applied.mutation.mutationId
      (Externals.toVec batch.applied.toJson)
    auditEvents := t.auditEvents.insert seq (Externals.toVec batch.audit.toJson)
    delegatedRegistries := match batch.delegatedRegistry with
      | some (tld, bytes) => t.delegatedRegistries.insert tld bytes
      | none => t.delegatedRegistries } batch.snapshot

/-- A transaction fails only where the audit event cannot be numbered. -/
theorem RedbTables.commitMutation_eq_ok {t t' : RedbTables} {batch : CommitBatch} :
    t.commitMutation batch = .ok t' ↔
      ∃ seq, t.nextAuditSeq = .ok seq ∧ t.withMutation batch seq = t' := by
  simp only [commitMutation, bind_eq_ok, pure_eq_ok]
  refine exists_congr fun seq => and_congr Iff.rfl ?_
  rcases pinned : batch.delegatedRegistry with _ | ⟨tld, bytes⟩ <;>
    simp only [withMutation, pinned]

section Pointer

variable (metadata : Table String String) (version stateHash : String)

omit [Externals] in
/-- The pointer of a new zone names its version. -/
theorem pointer_version : ((metadata.insert "current_version" version).insert "state_hash"
    stateHash)["current_version"]? = some version := by
  have differs : compare "state_hash" "current_version" ≠ .eq := by decide
  simp only [Std.ExtTreeMap.getElem?_insert, if_neg differs, Std.ReflCmp.compare_self, reduceIte]

omit [Externals] in
/-- The pointer of a new zone holds its hash. -/
theorem pointer_stateHash : ((metadata.insert "current_version" version).insert "state_hash"
    stateHash)["state_hash"]? = some stateHash := by
  simp

end Pointer

/-- The registry of a new directory is mirrored by its tables. -/
theorem mirrors_initial (dir : RegistryDir) (root : NodeIdentity) (now : DateTime) :
    Mirrors (initialStore dir (initialZone root now)) where
  tlds := Rows.store_values (fun k r held => by
    simp [initialZone, emptyZone, RootZone.signedBy] at held) _
  domains := Rows.store_values (fun k r held => by
    simp [initialZone, emptyZone, RootZone.signedBy] at held) _
  version := pointer_version ..
  zone := Std.ExtTreeMap.getElem?_insert_self
  stateHash := pointer_stateHash ..
  targetVersions := rfl
  mutations := (Rows.encoded_empty _).symm
  audit := Rows.isLog_empty
  registries := (Rows.encoded_empty _).symm

section Stored

variable {s : RegistryStore} {req : MutationRequest} {p : Prepared}

/-- A stored mutation leaves memory and tables in agreement. -/
theorem Mirrors.stored {tables : RedbTables} (mirrors : Mirrors s) (named : ZoneNamed p.zone)
    (committed : s.nextTables req p = .ok tables) : Mirrors (s.stored req p tables) := by
  obtain ⟨seq, numbered, rfl⟩ := RedbTables.commitMutation_eq_ok.mp committed
  have numbered : Rows.nextNumber s.database.auditEvents = some seq := by
    simpa [RedbTables.nextAuditSeq] using numbered
  have zone : (s.stored req p (s.database.withMutation ((s.adopt req p).commitBatch req p)
      seq)).zone = p.zone := s.adopt_zone req p
  constructor
  · rw [zone]
    exact (Rows.store_values (fun k r held => (named.tlds k r (by simpa using held)).1) _).trans
      (by rw [adopt_zone])
  · rw [zone]
    exact (Rows.store_values (fun k r held => (named.domains k r (by simpa using held)).1) _).trans
      (by rw [adopt_zone])
  · exact pointer_version ..
  · exact Std.ExtTreeMap.getElem?_insert_self
  · exact pointer_stateHash ..
  · change s.database.targetVersions.insert _ _ = (s.adopt req p).targetVersions
    rw [adopt_targetVersions, mirrors.targetVersions]
    rfl
  · change s.database.mutations.insert _ _ = Rows.encoded _ (s.adopt req p).applied
    rw [adopt_applied, Rows.encoded_insert, mirrors.mutations]
    rfl
  · change Rows.IsLog (s.database.auditEvents.insert seq _) ((s.adopt req p).audit.map _)
    rw [adopt_audit, List.map_append]
    exact Rows.isLog_insert mirrors.audit numbered _
  · rcases p with ⟨zone, _ | ⟨tld, bytes, parsed⟩, event⟩
    · exact mirrors.registries
    · change s.database.delegatedRegistries.insert tld bytes =
        Rows.encoded _ (s.registries.insert tld (bytes, parsed))
      rw [Rows.encoded_insert, mirrors.registries]

end Stored

/-! ## The audit log -/

/-- The transaction of a mutation fails only where its audit event cannot be numbered. -/
theorem RegistryStore.nextTables_eq_ok {s : RegistryStore} {req : MutationRequest} {p : Prepared} :
    (∃ tables, s.nextTables req p = .ok tables) ↔ ∃ seq, s.database.nextAuditSeq = .ok seq := by
  simp only [nextTables, RedbTables.commitMutation_eq_ok]
  constructor
  · exact fun ⟨_, seq, numbered, _⟩ => ⟨seq, numbered⟩
  · exact fun ⟨seq, numbered⟩ => ⟨_, seq, numbered, rfl⟩

variable [SerdeJson] {a : Authority} {s : RegistryStore}

/-- Every audit event is numbered below a bound. -/
def AuditBelow (bound : ℕ) (s : RegistryStore) : Prop :=
  ∀ seq ∈ s.database.auditEvents, seq.toNat < bound

/-- A call numbers at most one audit event, with the next number. -/
theorem AuditBelow.step {bound : ℕ} (below : AuditBelow bound s) (op : Op) :
    AuditBelow (bound + 1) (a.step s op) := by
  have same : ∀ {s' : RegistryStore}, s'.database.auditEvents = s.database.auditEvents →
      AuditBelow (bound + 1) s' := by
    intro s' same seq member
    rw [same] at member
    exact Nat.lt_succ_of_lt (below seq member)
  cases op with
  | apply call =>
    rcases a.applyTo_cases s call with ⟨e, -, rejected⟩ | ⟨p, prepared, outcome⟩
    · exact same (by rw [Authority.step, rejected])
    · have committed : ∀ {tables : RedbTables} {s' : RegistryStore},
          s.nextTables call.request p = .ok tables →
          s'.database.auditEvents = tables.auditEvents → AuditBelow (bound + 1) s' := by
        intro tables s' committed events seq member
        obtain ⟨next, numbered, rfl⟩ := RedbTables.commitMutation_eq_ok.mp committed
        rw [events, RedbTables.withMutation] at member
        simp only [RedbTables.nextAuditSeq, okOr_eq_ok] at numbered
        rcases Std.ExtTreeMap.mem_insert.mp member with here | earlier
        · rw [← Std.LawfulEqCmp.eq_of_compare here]
          exact Nat.lt_succ_of_le (Rows.nextNumber_le below numbered)
        · exact Nat.lt_succ_of_lt (below seq earlier)
      rw [Authority.step]
      generalize a.applyTo call s = result at outcome ⊢
      cases outcome with
      | manifestFailed => exact same rfl
      | transactionFailed => exact same (by rw [adopt_database])
      | snapshotFileFailed _ stored | snapshotMetaFailed _ stored => exact committed stored rfl
      | stored _ stored => exact committed stored rfl
  | storeManifest hash bytes written =>
    rcases s.storeManifest_cases hash bytes written with unchanged | ⟨-, filed⟩
    · exact same (by rw [Authority.step, unchanged])
    · exact same (by rw [Authority.step, filed])
  | storeBlocks blocks written =>
    obtain ⟨stored, frame⟩ := s.storeBlocks_frame blocks written
    exact same (by rw [Authority.step, frame])

end Federate
