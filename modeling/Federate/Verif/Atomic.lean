import Federate.Reference.Registry

/-!
# Atomicity of a call

A call that a check rejects changes nothing. A call that passes every check changes memory
first, so it is atomic exactly when every storage operation it needs succeeds: an error after
the first change leaves the new zone in memory.
-/

namespace Federate

open Outcome Stateful RegistryStore

/-- The action pins a registry, whose bytes are written as a manifest file. -/
def MutationAction.pinsRegistry : MutationAction → Bool
  | .updateRegistryPointer .. => true
  | _ => false

/-- The zone, the registries, the target versions, the history, the audit log and the database
are the same. -/
structure Unchanged (before after : RegistryStore) : Prop where
  /-- The zone. -/
  zone : after.zone = before.zone
  /-- The delegated registries. -/
  registries : after.registries = before.registries
  /-- The target versions. -/
  targetVersions : after.targetVersions = before.targetVersions
  /-- The accepted mutations. -/
  applied : after.applied = before.applied
  /-- The audit events. -/
  audit : after.audit = before.audit
  /-- The tables. -/
  database : after.database = before.database

variable [Externals] [SerdeJson]

/-- A call that returns an error changes nothing; a call that is accepted leaves the mutation
adopted in memory, and the database holding what memory holds. -/
structure Authority.Atomic (a : Authority) (s : RegistryStore) (call : ApplyCall) : Prop where
  /-- An error changes nothing. -/
  rejected : ∀ e, (a.applyTo call s).1 = .error e → Unchanged s (a.applyTo call s).2
  /-- A success is stored in memory and in the database. -/
  accepted : ∀ event, (a.applyTo call s).1 = .ok event → Mirrors (a.applyTo call s).2 ∧
    ∃ p, a.Prepares s call p ∧ p.event = event ∧
      (s.adopt call.request p).SameMemory (a.applyTo call s).2

/-- The call is rejected by a check, or every storage operation it needs succeeds: the manifest
file of a newly pinned registry, the transaction, whose next audit number must exist, and the
snapshot. -/
def Authority.Settles (a : Authority) (s : RegistryStore) (call : ApplyCall) : Prop :=
  (∃ e, s.prepare call.request (a.context call) call.clock = .error e) ∨
    (call.request.action.pinsRegistry = true → call.io.manifestFile = .ok ()) ∧
      (∃ seq, s.database.nextAuditSeq = .ok seq) ∧ call.io.transaction = .ok () ∧
      call.io.snapshotFile = .ok () ∧ call.io.snapshotTransaction = .ok ()

section Prepared

variable {a : Authority} {s : RegistryStore} {call : ApplyCall} {p : Prepared}

/-- A registry is newly pinned exactly by the action that pins one. -/
theorem Authority.Prepares.pins (prepared : a.Prepares s call p) :
    p.newRegistry.isSome = call.request.action.pinsRegistry := by
  obtain ⟨effect, granted, rfl, -⟩ := prepared.granted
  generalize call.request.action = action at granted
  cases granted with
  | publish requested => rcases requested with ⟨rfl, -⟩ | ⟨rfl, -⟩ <;> rfl
  | restrictTld requested => rcases requested with ⟨rfl, -⟩ | ⟨rfl, -⟩ <;> rfl
  | _ => rfl

/-- A call that passes every check and needs only storage operations that succeed is stored. -/
theorem Authority.Prepares.settled (prepared : a.Prepares s call p) (settles : a.Settles s call) :
    ∃ tables, s.nextTables call.request p = .ok tables ∧
      a.applyTo call s = (.ok p.event, s.stored call.request p tables) := by
  rcases settles with ⟨e, failed⟩ | ⟨manifest, numbered, transaction, file, snapshot⟩
  · exact absurd (prepared.symm.trans failed) (by simp)
  · obtain ⟨tables, committed⟩ := nextTables_eq_ok.mpr numbered
    exact ⟨tables, committed, a.applyTo_stored s prepared (prepared.pins ▸ manifest) committed
      transaction file snapshot⟩

/-- An accepted call settles. -/
theorem Authority.Accepts.settles {event : AuditRecord} (accepted : a.Accepts s call event) :
    a.Settles s call := by
  obtain ⟨p, tables, prepared, -, manifest, committed, transaction, file, snapshot, -⟩ :=
    a.accepts_iff s |>.mp accepted
  exact .inr ⟨prepared.pins ▸ manifest, nextTables_eq_ok.mp ⟨tables, committed⟩, transaction, file,
    snapshot⟩

end Prepared

/-! ## The trail of the zone -/

/-- The mutations that the zone's own trail names are in the history. -/
def Traced (s : RegistryStore) : Prop :=
  ∀ e ∈ s.zone.audit, ∀ id, e.detail = some id → isValidHash id = true → id ∈ s.applied

omit [Externals] [SerdeJson] in
/-- The newest events include the last. -/
theorem zoneEvent_mem_auditTail (events : List AuditEvent) (event : AuditEvent) :
    event ∈ auditTail (events ++ [event]) := by
  have short : (events ++ [event]).length - zoneAuditTail ≤ events.length := by
    simp [zoneAuditTail]
  rw [auditTail, List.drop_append_of_le_length short]
  simp

section Trail

variable {a : Authority} {s : RegistryStore} {call : ApplyCall} {p : Prepared}

/-- The trail of a prepared zone: the newest events of the old trail and of the mutation. -/
theorem Authority.Prepares.zone_audit (prepared : a.Prepares s call p) :
    ∃ event : AuditEvent, event.detail = some call.request.mutationId ∧
      p.zone.audit = auditTail (s.zone.audit ++ [event]) := by
  obtain ⟨effect, granted, rfl, -⟩ := prepared.granted
  refine ⟨zoneEvent call.request effect.role (Externals.toRfc3339 call.now), rfl, ?_⟩
  simp only [RegistryStore.prepared, RootZone.advance, RootZone.signedBy, granted.keeps.2.2,
    Authority.context]

/-- The id of a mutation that passes every check is a content address. -/
theorem Authority.Prepares.validId (prepared : a.Prepares s call p) :
    isValidHash call.request.mutationId = true := by
  have verified := (prepare_eq_ok.mp prepared).1
  simp only [MutationRequest.verify, bind_eq_ok, rejectIf_eq_ok, ne_eq, not_not, exists_const]
    at verified
  rw [verified.2.1]
  exact isValidHash_hashBytes _

/-- A mutation that passes every check changes the zone. -/
theorem Authority.Prepares.zone_ne (prepared : a.Prepares s call p) (traced : Traced s) :
    p.zone ≠ s.zone := by
  intro same
  obtain ⟨event, detail, audit⟩ := prepared.zone_audit
  have member : event ∈ s.zone.audit := by
    rw [← same, audit]
    exact zoneEvent_mem_auditTail _ _
  exact (prepare_eq_ok.mp prepared).2.2.1 (traced event member _ detail prepared.validId)

/-- A stored mutation keeps the trail traced. -/
theorem Traced.stored {tables : RedbTables} (prepared : a.Prepares s call p) (traced : Traced s) :
    Traced (s.stored call.request p tables) := by
  intro e member id detail valid
  change e ∈ (s.adopt call.request p).zone.audit at member
  change id ∈ (s.adopt call.request p).applied
  obtain ⟨event, eventDetail, audit⟩ := prepared.zone_audit
  rw [adopt_zone, audit] at member
  rw [adopt_applied, Std.ExtTreeMap.mem_insert]
  rcases List.mem_append.mp (List.mem_of_mem_drop member) with earlier | here
  · exact .inr (traced e earlier id detail valid)
  · rw [List.mem_singleton.mp here, eventDetail, Option.some.injEq] at detail
    exact .inl (detail ▸ Std.ReflCmp.compare_self)

end Trail

/-! ## Runs -/

/-- What a run keeps as long as every call of it settles. -/
structure Settled (s : RegistryStore) : Prop where
  /-- Every record is filed under its own name. -/
  named : ZoneNamed s.zone
  /-- Memory and database agree. -/
  mirrors : Mirrors s
  /-- The history holds the mutations that the zone names. -/
  traced : Traced s

/-- Every call of `apply` settles. -/
def Authority.CallsSettle (a : Authority) (s : RegistryStore) : Op → Prop
  | .apply call => a.Settles s call
  | _ => True

variable {a : Authority} {s : RegistryStore}

/-- A new registry is settled. -/
theorem Authority.Genesis.settled (genesis : a.Genesis s) : Settled s := by
  have reachable : a.Reachable s := ⟨s, [], genesis, rfl⟩
  obtain ⟨dir, now, io, returned⟩ := genesis
  obtain ⟨-, -, rfl⟩ := initEmptyRegistry_eq_ok returned
  refine ⟨reachable.named, mirrors_initial dir a.root now, ?_⟩
  intro e member id detail valid
  rw [List.mem_singleton.mp member] at detail
  obtain rfl := Option.some.inj detail
  exact absurd valid (by decide)

omit [SerdeJson] in
/-- Content files are not part of what settles. -/
theorem Settled.withContent (settled : Settled s) (files : DirFiles)
    (manifests : Table String Bytes) : Settled { s with files, manifests } where
  named := settled.named
  mirrors := { settled.mirrors with }
  traced := settled.traced

/-- A call that a check rejects changes nothing. -/
theorem Authority.applyTo_rejected {call : ApplyCall} {e : FederateError}
    (failed : s.prepare call.request (a.context call) call.clock = .error e) :
    ∃ e, a.applyTo call s = (.error e, s) := by
  rcases a.applyTo_cases s call with ⟨e, -, rejected⟩ | ⟨p, prepared, -⟩
  · exact ⟨e, rejected⟩
  · exact absurd (failed.symm.trans prepared) (by simp)

/-- A step that settles keeps the registry settled. -/
theorem Settled.step {op : Op} (settled : Settled s) (settles : a.CallsSettle s op) :
    Settled (a.step s op) := by
  cases op with
  | apply call =>
    rcases checked : s.prepare call.request (a.context call) call.clock with e | p
    · obtain ⟨e, rejected⟩ := Authority.applyTo_rejected checked
      rwa [Authority.step, rejected]
    · have prepared : a.Prepares s call p := checked
      obtain ⟨tables, committed, stored⟩ := prepared.settled settles
      have named := prepared.named settled.named
      rw [Authority.step, stored]
      exact ⟨(s.adopt_zone call.request p).symm ▸ named, settled.mirrors.stored named committed,
        settled.traced.stored prepared⟩
  | storeManifest hash bytes written =>
    rcases s.storeManifest_cases hash bytes written with same | ⟨-, filed⟩
    · rwa [Authority.step, same]
    · rw [Authority.step, filed]
      exact settled.withContent _ _
  | storeBlocks blocks written =>
    obtain ⟨stored, frame⟩ := s.storeBlocks_frame blocks written
    rw [Authority.step, frame]
    exact settled.withContent _ _

/-- In a settled registry a call that settles is atomic. -/
theorem Settled.atomic (settled : Settled s) {call : ApplyCall} (settles : a.Settles s call) :
    a.Atomic s call := by
  rcases checked : s.prepare call.request (a.context call) call.clock with e | p
  · obtain ⟨e, rejected⟩ := Authority.applyTo_rejected checked
    refine ⟨fun _ _ => ?_, fun event accepted => ?_⟩
    · rw [rejected]
      exact ⟨rfl, rfl, rfl, rfl, rfl, rfl⟩
    · rw [rejected] at accepted
      exact absurd accepted (by simp)
  · have prepared : a.Prepares s call p := checked
    obtain ⟨tables, committed, stored⟩ := prepared.settled settles
    refine ⟨fun e failed => ?_, fun event accepted => ⟨?_, p, prepared, ?_, ?_⟩⟩
    · rw [stored] at failed
      exact absurd failed (by simp)
    · rw [stored]
      exact settled.mirrors.stored (prepared.named settled.named) committed
    · rw [stored] at accepted
      exact Except.ok.inj accepted
    · rw [stored]
      exact ⟨rfl, rfl, rfl, rfl, rfl, rfl⟩

/-- A call that is atomic settles: an error after the first change leaves a changed zone. -/
theorem Settled.settles_of_atomic (settled : Settled s) {call : ApplyCall}
    (atomic : a.Atomic s call) : a.Settles s call := by
  rcases checked : s.prepare call.request (a.context call) call.clock with e | p
  · exact .inl ⟨e, checked⟩
  · have prepared : a.Prepares s call p := checked
    rcases result : (a.applyTo call s).1 with e | event
    · have same := (atomic.rejected e result).zone
      exact absurd (prepared.step_zone.symm.trans same) (prepared.zone_ne settled.traced)
    · exact Authority.Accepts.settles result

/-- In every state of a run whose calls all settle, a call of `apply` is atomic exactly when it
settles. -/
theorem atomic_iff_settles (genesis : a.Genesis s) {ops : List Op}
    (settles : Transition.Guarded a.step a.CallsSettle s ops) (call : ApplyCall) :
    a.Atomic (a.run s ops) call ↔ a.Settles (a.run s ops) call := by
  have settled : Settled (a.run s ops) :=
    Transition.invariant (fun _ _ settled settles => settled.step settles) genesis.settled settles
  exact ⟨settled.settles_of_atomic, settled.atomic⟩

end Federate

namespace Federate.Reference

/-- After the TLD `foo` was created, the same call is atomic exactly when it settles. -/
theorem createFoo_atomic_iff :
    authority.Atomic (authority.run start [.apply createFoo]) createFoo ↔
      authority.Settles (authority.run start [.apply createFoo]) createFoo := by
  obtain ⟨event, accepted⟩ := stage_foo.1
  have settles : Transition.Guarded authority.step authority.CallsSettle start
      [.apply createFoo] := ⟨accepted.settles, trivial⟩
  exact atomic_iff_settles genesis settles createFoo

/-- Creating the TLD `foo` while the disk is full. -/
def createOnFullDisk : ApplyCall :=
  { createFoo with io := ⟨.ok (), .error (.storage "disk full"), .ok (), .ok ()⟩ }

/-- A call whose transaction fails returns an error and leaves another zone in memory. -/
theorem createOnFullDisk_not_atomic : authority.Reachable start ∧
    (∃ e, (authority.applyTo createOnFullDisk start).1 = .error e) ∧
    (authority.step start (.apply createOnFullDisk)).zone ≠ start.zone ∧
    ¬authority.Atomic start createOnFullDisk := by
  have settled : Settled start := genesis.settled
  obtain ⟨event, accepted⟩ := stage_foo.1
  obtain ⟨p, tables, passes, -⟩ := (authority.accepts_iff start).mp accepted
  have prepared : authority.Prepares start createOnFullDisk p := passes
  have unsettled : ¬authority.Settles start createOnFullDisk := by
    rintro (⟨e, failed⟩ | ⟨-, -, transaction, -⟩)
    · exact absurd (prepared.symm.trans failed) (by simp)
    · exact absurd transaction nofun
  refine ⟨stage_start.reachable, ?_, ?_, fun atomic => unsettled (settled.settles_of_atomic atomic)⟩
  · rcases result : (authority.applyTo createOnFullDisk start).1 with e | event
    · exact ⟨e, rfl⟩
    · exact absurd (Authority.Accepts.settles result) unsettled
  · rw [prepared.step_zone]
    exact prepared.zone_ne settled.traced

end Federate.Reference
