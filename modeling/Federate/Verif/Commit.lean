import Federate.Verif.Grant

/-!
# What a call of `apply` does to the store

A rejected call changes nothing. A call that passes every check stores in a fixed order, and
`CommitOutcome` lists the states a failing write can leave it in. Content ingestion touches
content files only.
-/

namespace Federate

open Outcome Stateful RegistryStore

variable [Externals]

/-! ## The re-signed zone -/

section Advance

variable (z : RootZone) (root : NodeIdentity) (now : DateTime) (event : AuditEvent)

@[simp] theorem RootZone.advance_tlds : (z.advance root now event).tlds = z.tlds := rfl

@[simp] theorem RootZone.advance_domains : (z.advance root now event).domains = z.domains := rfl

@[simp] theorem RootZone.advance_network : (z.advance root now event).network = z.network := rfl

@[simp] theorem RootZone.advance_rootPublicKey :
    (z.advance root now event).rootPublicKey = z.rootPublicKey := rfl

end Advance

/-! ## Checks before the first change -/

/-- A call passes exactly when every check does, and is then about to store what its action
leaves. -/
theorem RegistryStore.prepare_eq_ok [SerdeJson] {s : RegistryStore} {req : MutationRequest}
    {ctx : MutationContext} {clock : DateTime} {p : Prepared} :
    s.prepare req ctx clock = .ok p ↔
      req.verify = .ok () ∧ MutationRequest.InWindow req.issuedAt ctx.now ∧
      req.mutationId ∉ s.applied ∧ s.targetVersion req.action.targetKey < req.targetVersion ∧
      ∃ effect, applyAction s.zone s.manifests s.registries req.actorPublicKey ctx clock
          req.action = .ok effect ∧
        (s.prepared req ctx effect).zone.verify ctx.root.nodeId = .ok () ∧
        s.prepared req ctx effect = p := by
  simp only [prepare, bind_eq_ok, exists_unit, MutationRequest.checkAge_eq_ok, rejectIf_eq_ok,
    exists_const, pure_eq_ok, UInt64.not_le]

/-! ## Storing -/

/-- The store with a newly pinned registry adopted, its bytes also as a manifest. -/
def RegistryStore.adoptRegistry (s : RegistryStore) :
    Option (String × Bytes × TldRegistry) → RegistryStore
  | some (tld, bytes, parsed) => { s with
      files := { s.files with manifests := s.files.manifests.insert (hashBytes bytes) bytes }
      manifests := s.manifests.insert (hashBytes bytes) bytes
      registries := s.registries.insert tld (bytes, parsed) }
  | none => s

/-- The store with a mutation adopted in memory. -/
def RegistryStore.adopt (s : RegistryStore) (req : MutationRequest) (p : Prepared) :
    RegistryStore :=
  let s := { s with zone := p.zone }.adoptRegistry p.newRegistry
  { s with
    targetVersions := s.targetVersions.insert req.action.targetKey req.targetVersion
    applied := s.applied.insert req.mutationId (appliedMutation req p)
    audit := s.audit ++ [p.event] }

/-- The store with the snapshot file of its zone written. -/
def RegistryStore.withSnapshotFile (s : RegistryStore) : RegistryStore :=
  { s with files := { s.files with
    snapshots := s.files.snapshots.insert s!"root-zone-v{s.zone.rootVersion}.json"
      (Externals.toVecPretty s.zone.toJson) } }

/-- The store with the snapshot of its zone written, file and metadata. -/
def RegistryStore.withSnapshot (s : RegistryStore) : RegistryStore :=
  { s.withSnapshotFile with database := s.database.writeSnapshotMeta s.snapshotMeta }

/-- The store with a mutation adopted and stored: memory, database and snapshot. -/
def RegistryStore.stored (s : RegistryStore) (req : MutationRequest) (p : Prepared)
    (tables : RedbTables) : RegistryStore :=
  { s.adopt req p with database := tables }.withSnapshot

/-- The tables that the transaction of a mutation would commit. -/
def RegistryStore.nextTables (s : RegistryStore) (req : MutationRequest) (p : Prepared) :
    Result RedbTables :=
  s.database.commitMutation ((s.adopt req p).commitBatch req p)

/-- The outcome of storing a prepared mutation, and the store it leaves. -/
inductive CommitOutcome (s : RegistryStore) (req : MutationRequest) (p : Prepared)
    (io : StorageIo) : Result AuditRecord × RegistryStore → Prop
  | manifestFailed {e : FederateError} (pins : p.newRegistry.isSome = true)
      (failed : io.manifestFile = .error e) :
      CommitOutcome s req p io (.error e, { s with zone := p.zone })
  | transactionFailed {e : FederateError}
      (manifest : p.newRegistry.isSome = true → io.manifestFile = .ok ())
      (failed : s.nextTables req p = .error e ∨ io.transaction = .error e) :
      CommitOutcome s req p io (.error e, s.adopt req p)
  | snapshotFileFailed {e : FederateError} {tables : RedbTables}
      (manifest : p.newRegistry.isSome = true → io.manifestFile = .ok ())
      (committed : s.nextTables req p = .ok tables) (transaction : io.transaction = .ok ())
      (failed : io.snapshotFile = .error e) :
      CommitOutcome s req p io (.error e, { s.adopt req p with database := tables })
  | snapshotMetaFailed {e : FederateError} {tables : RedbTables}
      (manifest : p.newRegistry.isSome = true → io.manifestFile = .ok ())
      (committed : s.nextTables req p = .ok tables) (transaction : io.transaction = .ok ())
      (file : io.snapshotFile = .ok ()) (failed : io.snapshotTransaction = .error e) :
      CommitOutcome s req p io
        (.error e, { s.adopt req p with database := tables }.withSnapshotFile)
  | stored {tables : RedbTables}
      (manifest : p.newRegistry.isSome = true → io.manifestFile = .ok ())
      (committed : s.nextTables req p = .ok tables) (transaction : io.transaction = .ok ())
      (file : io.snapshotFile = .ok ()) (snapshot : io.snapshotTransaction = .ok ()) :
      CommitOutcome s req p io (.ok p.event, s.stored req p tables)

omit [Externals] in
/-- Writing a manifest file fails or adopts the manifest. -/
theorem RegistryStore.exec_writeManifest (hash : String) (bytes : Bytes) (written : Result Unit)
    (s : RegistryStore) : exec (writeManifest hash bytes written) s = match written with
      | .ok () => (.ok (), { s with
          files := { s.files with manifests := s.files.manifests.insert hash bytes }
          manifests := s.manifests.insert hash bytes })
      | .error e => (.error e, s) := by
  rcases written with e | ⟨⟩ <;> rfl

/-- The part of storing that follows the adoption of the mutation in memory. -/
def RegistryStore.persist (req : MutationRequest) (p : Prepared) (io : StorageIo) :
    StoreM AuditRecord := do
  let s ← get
  let tables ← s.database.commitMutation (s.commitBatch req p)
  io.transaction
  modify fun s => { s with database := tables }
  let _ ← writeSnapshot io
  return p.event

/-- Storing adopts the mutation in memory and then persists it, unless the manifest file of a
newly pinned registry cannot be written. -/
theorem RegistryStore.exec_commit (s : RegistryStore) (req : MutationRequest) (p : Prepared)
    (io : StorageIo) : exec (commit req p io) s =
      match p.newRegistry.isSome, io.manifestFile with
      | true, .error e => (.error e, { s with zone := p.zone })
      | _, _ => exec (persist req p io) (s.adopt req p) := by
  rcases pinned : p.newRegistry with _ | ⟨tld, bytes, parsed⟩
  · simp [commit, persist, adopt, adoptRegistry, pinned, exec_bind]
  · rcases file : io.manifestFile with e | ⟨⟩ <;>
      simp [commit, persist, adopt, adoptRegistry, pinned, exec_bind, exec_writeManifest, file]

section Adopt

variable (s : RegistryStore) (req : MutationRequest) (p : Prepared)

/-- Adopting a mutation in memory leaves the database alone. -/
@[simp] theorem RegistryStore.adopt_database : (s.adopt req p).database = s.database := by
  unfold adopt adoptRegistry
  split <;> rfl

@[simp] theorem RegistryStore.adopt_zone : (s.adopt req p).zone = p.zone := by
  unfold adopt adoptRegistry
  split <;> rfl

@[simp] theorem RegistryStore.adopt_targetVersions : (s.adopt req p).targetVersions =
    s.targetVersions.insert req.action.targetKey req.targetVersion := by
  unfold adopt adoptRegistry
  split <;> rfl

@[simp] theorem RegistryStore.adopt_applied : (s.adopt req p).applied =
    s.applied.insert req.mutationId (appliedMutation req p) := by
  unfold adopt adoptRegistry
  split <;> rfl

@[simp] theorem RegistryStore.adopt_audit : (s.adopt req p).audit = s.audit ++ [p.event] := by
  unfold adopt adoptRegistry
  split <;> rfl

end Adopt

/-- Writing a snapshot stops at the first storage operation that fails. -/
theorem RegistryStore.exec_writeSnapshot (s : RegistryStore) (io : StorageIo) :
    exec (writeSnapshot io) s = match io.snapshotFile, io.snapshotTransaction with
      | .error e, _ => (.error e, s)
      | .ok (), .error e => (.error e, s.withSnapshotFile)
      | .ok (), .ok () =>
        (.ok (s.path ++ "/snapshots/" ++ s!"root-zone-v{s.zone.rootVersion}.json"),
          s.withSnapshot) := by
  rcases file : io.snapshotFile with e | ⟨⟩ <;>
    rcases snapshot : io.snapshotTransaction with e | ⟨⟩ <;>
    simp [writeSnapshot, exec_bind, file, snapshot, withSnapshot, withSnapshotFile, snapshotMeta,
      Except.map]

/-- Persisting stops at the first storage operation that fails. -/
theorem RegistryStore.exec_persist (s : RegistryStore) (req : MutationRequest) (p : Prepared)
    (io : StorageIo) : exec (persist req p io) (s.adopt req p) =
      match s.nextTables req p, io.transaction, io.snapshotFile, io.snapshotTransaction with
      | .error e, _, _, _ => (.error e, s.adopt req p)
      | .ok _, .error e, _, _ => (.error e, s.adopt req p)
      | .ok tables, .ok (), .error e, _ => (.error e, { s.adopt req p with database := tables })
      | .ok tables, .ok (), .ok (), .error e =>
        (.error e, { s.adopt req p with database := tables }.withSnapshotFile)
      | .ok tables, .ok (), .ok (), .ok () => (.ok p.event, s.stored req p tables) := by
  unfold nextTables
  rcases tables : s.database.commitMutation ((s.adopt req p).commitBatch req p) with e | tables <;>
    rcases transaction : io.transaction with e | ⟨⟩ <;>
    rcases file : io.snapshotFile with e | ⟨⟩ <;>
    rcases snapshot : io.snapshotTransaction with e | ⟨⟩ <;>
    simp [persist, exec_writeSnapshot, exec_bind, tables, transaction, file, snapshot, stored,
      Except.map]

/-- Storing a prepared mutation has one of the listed outcomes. -/
theorem RegistryStore.commit_outcome (s : RegistryStore) (req : MutationRequest) (p : Prepared)
    (io : StorageIo) : CommitOutcome s req p io (exec (commit req p io) s) := by
  rw [exec_commit]
  split
  · rename_i pins failed
    exact .manifestFailed pins failed
  · rename_i notFailed
    have manifest : p.newRegistry.isSome = true → io.manifestFile = .ok () := by
      intro pins
      rcases file : io.manifestFile with e | ⟨⟩
      · exact (notFailed e pins file).elim
      · rfl
    rw [exec_persist]
    split
    · rename_i failed
      exact .transactionFailed manifest (.inl failed)
    · rename_i failed
      exact .transactionFailed manifest (.inr failed)
    · rename_i committed transaction failed
      exact .snapshotFileFailed manifest committed transaction failed
    · rename_i committed transaction file failed
      exact .snapshotMetaFailed manifest committed transaction file failed
    · rename_i committed transaction file snapshot
      exact .stored manifest committed transaction file snapshot

/-- Two stores agree in memory. -/
structure RegistryStore.SameMemory (s s' : RegistryStore) : Prop where
  /-- The zone. -/
  zone : s'.zone = s.zone
  /-- The delegated registries. -/
  registries : s'.registries = s.registries
  /-- The manifests. -/
  manifests : s'.manifests = s.manifests
  /-- The target versions. -/
  targetVersions : s'.targetVersions = s.targetVersions
  /-- The accepted mutations. -/
  applied : s'.applied = s.applied
  /-- The audit events. -/
  audit : s'.audit = s.audit

/-- Once the manifest file of a newly pinned registry is written, a mutation is adopted in
memory whatever becomes of the database and the snapshot. -/
theorem CommitOutcome.memory {s : RegistryStore} {req : MutationRequest} {p : Prepared}
    {io : StorageIo} {result : Result AuditRecord × RegistryStore}
    (outcome : CommitOutcome s req p io result) (manifest : io.manifestFile = .ok ()) :
    (s.adopt req p).SameMemory result.2 := by
  cases outcome with
  | manifestFailed _ failed => exact absurd (manifest.symm.trans failed) (by simp)
  | _ => exact ⟨rfl, rfl, rfl, rfl, rfl, rfl⟩

/-! ## Steps -/

variable [SerdeJson] (a : Authority) (s : RegistryStore)

/-- A call of `apply` is rejected and changes nothing, or passes every check and is stored. -/
theorem Authority.applyTo_cases (call : ApplyCall) :
    (∃ e, s.prepare call.request (a.context call) call.clock = .error e ∧
      a.applyTo call s = (.error e, s)) ∨
    ∃ p, a.Prepares s call p ∧ CommitOutcome s call.request p call.io (a.applyTo call s) := by
  have unfolded : a.applyTo call s =
      match s.prepare call.request (a.context call) call.clock with
      | .ok p => exec (commit call.request p call.io) s
      | .error e => (.error e, s) := by
    simp only [Authority.applyTo, RegistryStore.apply, exec_bind, exec_get, exec_lift]
    rcases s.prepare call.request (a.context call) call.clock with e | p <;> rfl
  rcases checked : s.prepare call.request (a.context call) call.clock with e | p
  · exact .inl ⟨e, rfl, by rw [unfolded, checked]⟩
  · refine .inr ⟨p, checked, ?_⟩
    rw [unfolded, checked]
    exact s.commit_outcome call.request p call.io

/-- A call that passes every check is accepted and stored when every storage operation
succeeds. -/
theorem Authority.applyTo_stored {call : ApplyCall} {p : Prepared} {tables : RedbTables}
    (prepared : a.Prepares s call p)
    (manifest : p.newRegistry.isSome = true → call.io.manifestFile = .ok ())
    (committed : s.nextTables call.request p = .ok tables)
    (transaction : call.io.transaction = .ok ()) (file : call.io.snapshotFile = .ok ())
    (snapshot : call.io.snapshotTransaction = .ok ()) :
    a.applyTo call s = (.ok p.event, s.stored call.request p tables) := by
  rcases a.applyTo_cases s call with ⟨e, failed, -⟩ | ⟨p', prepared', outcome⟩
  · exact absurd (prepared.symm.trans failed) (by simp)
  · obtain rfl := Except.ok.inj (prepared.symm.trans prepared')
    generalize a.applyTo call s = result at outcome ⊢
    cases outcome with
    | manifestFailed pins failed => simp [manifest pins] at failed
    | transactionFailed _ failed => simp [committed, transaction] at failed
    | snapshotFileFailed _ _ _ failed => simp [file] at failed
    | snapshotMetaFailed _ _ _ _ failed => simp [snapshot] at failed
    | stored _ committed' =>
      obtain rfl := Except.ok.inj (committed.symm.trans committed')
      rfl

/-- An accepted call has passed every check and every storage operation. -/
theorem Authority.accepts_iff {call : ApplyCall} {event : AuditRecord} :
    a.Accepts s call event ↔ ∃ p tables, a.Prepares s call p ∧ p.event = event ∧
      (p.newRegistry.isSome = true → call.io.manifestFile = .ok ()) ∧
      s.nextTables call.request p = .ok tables ∧ call.io.transaction = .ok () ∧
      call.io.snapshotFile = .ok () ∧ call.io.snapshotTransaction = .ok () ∧
      (a.applyTo call s).2 = s.stored call.request p tables := by
  unfold Authority.Accepts
  constructor
  · intro accepted
    rcases a.applyTo_cases s call with ⟨e, -, rejected⟩ | ⟨p, prepared, outcome⟩
    · rw [rejected] at accepted
      exact absurd accepted (by simp)
    · generalize a.applyTo call s = result at accepted outcome ⊢
      cases outcome with
      | stored manifest committed transaction file snapshot =>
        exact ⟨p, _, prepared, Except.ok.inj accepted, manifest, committed, transaction, file,
          snapshot, rfl⟩
      | _ => exact absurd accepted (by simp)
  · rintro ⟨p, tables, prepared, rfl, manifest, committed, transaction, file, snapshot, -⟩
    rw [a.applyTo_stored s prepared manifest committed transaction file snapshot]

omit [SerdeJson] in
/-- Storing blocks changes block files only. -/
theorem RegistryStore.storeBlocks_frame (blocks : List (String × Bytes))
    (written : ℕ → Result Unit) : ∃ stored, (exec (storeBlocks blocks written) s).2 =
      { s with files := { s.files with blocks := stored } } := by
  induction blocks generalizing s written with
  | nil => exact ⟨s.files.blocks, rfl⟩
  | cons block rest ih =>
    obtain ⟨hash, bytes⟩ := block
    rcases valid : verifyHash bytes hash with e | ⟨⟩
    · exact ⟨s.files.blocks, by simp [storeBlocks, putBlock, exec_bind, valid]⟩
    · rcases file : written 0 with e | ⟨⟩
      · exact ⟨s.files.blocks, by simp [storeBlocks, putBlock, exec_bind, valid, file]⟩
      · obtain ⟨stored, frame⟩ := ih { s with
          files := { s.files with blocks := s.files.blocks.insert hash bytes } }
          fun index => written (index + 1)
        exact ⟨stored, by simp [storeBlocks, putBlock, exec_bind, valid, file, frame]⟩

omit [SerdeJson] in
/-- Storing a manifest changes nothing, or files verified content under its address. -/
theorem RegistryStore.storeManifest_cases (hash : String) (bytes : Bytes)
    (written : Result Unit) :
    (exec (storeManifest hash bytes written) s).2 = s ∨
      hashBytes bytes = hash ∧ (exec (storeManifest hash bytes written) s).2 = { s with
        files := { s.files with manifests := s.files.manifests.insert hash bytes }
        manifests := s.manifests.insert hash bytes } := by
  rcases valid : verifyHash bytes hash with e | ⟨⟩
  · exact .inl (by simp [storeManifest, exec_bind, valid])
  · rcases file : written with e | ⟨⟩
    · exact .inl (by simp [storeManifest, exec_bind, valid, exec_writeManifest])
    · exact .inr ⟨(verifyHash_eq_ok.mp valid).2, by
        simp [storeManifest, exec_bind, valid, exec_writeManifest]⟩

/-- Whatever the storage does, the zone after a call is the zone before it or the zone of a
mutation that passed every check. -/
theorem Authority.step_zone (op : Op) :
    (a.step s op).zone = s.zone ∨
      ∃ call p, op = .apply call ∧ a.Prepares s call p ∧ (a.step s op).zone = p.zone := by
  cases op with
  | apply call =>
    rcases a.applyTo_cases s call with ⟨e, -, rejected⟩ | ⟨p, prepared, outcome⟩
    · exact .inl (by simp [Authority.step, rejected])
    · refine .inr ⟨call, p, rfl, prepared, ?_⟩
      simp only [Authority.step]
      generalize a.applyTo call s = result at outcome ⊢
      cases outcome <;> simp [stored, withSnapshot, withSnapshotFile]
  | storeManifest hash bytes written =>
    rcases s.storeManifest_cases hash bytes written with same | ⟨-, filed⟩
    · exact .inl (by simp [Authority.step, same])
    · exact .inl (by simp [Authority.step, filed])
  | storeBlocks blocks written =>
    obtain ⟨stored, frame⟩ := s.storeBlocks_frame blocks written
    exact .inl (by simp [Authority.step, frame])

/-- Whatever the storage does, the version of a target after a call is the version before it or
the version of a mutation of that target that passed every check. -/
theorem Authority.step_targetVersion (op : Op) (key : String) :
    (a.step s op).targetVersion key = s.targetVersion key ∨
      ∃ call p, op = .apply call ∧ a.Prepares s call p ∧ call.request.action.targetKey = key ∧
        (a.step s op).targetVersion key = call.request.targetVersion := by
  have same : ∀ {s' : RegistryStore}, s'.targetVersions = s.targetVersions →
      s'.targetVersion key = s.targetVersion key := fun same => by simp only [targetVersion, same]
  cases op with
  | apply call =>
    rcases a.applyTo_cases s call with ⟨e, -, rejected⟩ | ⟨p, prepared, outcome⟩
    · exact .inl (same (by rw [Authority.step, rejected]))
    · have adopted : (s.adopt call.request p).targetVersion key =
          if call.request.action.targetKey = key then call.request.targetVersion
          else s.targetVersion key := by
        simp only [targetVersion, adopt_targetVersions, Std.ExtTreeMap.getElem?_insert,
          Std.LawfulEqCmp.compare_eq_iff_eq]
        split <;> rfl
      have after : (a.step s (.apply call)).targetVersion key = s.targetVersion key ∨
          (a.step s (.apply call)).targetVersion key =
            (s.adopt call.request p).targetVersion key := by
        rw [Authority.step]
        generalize a.applyTo call s = result at outcome ⊢
        cases outcome with
        | manifestFailed => exact .inl rfl
        | _ => exact .inr rfl
      rw [adopted] at after
      split at after
      · rename_i own
        rcases after with kept | written
        · exact .inl kept
        · exact .inr ⟨call, p, rfl, prepared, own, written⟩
      · exact .inl (after.elim id id)
  | storeManifest hash bytes written =>
    rcases s.storeManifest_cases hash bytes written with unchanged | ⟨-, filed⟩
    · exact .inl (same (by rw [Authority.step, unchanged]))
    · exact .inl (same (by rw [Authority.step, filed]))
  | storeBlocks blocks written =>
    obtain ⟨stored, frame⟩ := s.storeBlocks_frame blocks written
    exact .inl (same (by rw [Authority.step, frame]))

end Federate
