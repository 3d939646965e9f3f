import Federate.Library.Chain
import Federate.Verif.Content
import Federate.Verif.Life

/-!
# The history of a registry

What a life leaves behind: the audit log names the accepted mutations in order, each event signed by
the root key and leading from the state hash of one zone to that of the next; the versions of the
zones rise, and each zone keeps a snapshot of its own. The chain of hashes pins the log down: no
other selection of its events links the first zone to the last.
-/

namespace Federate

open Outcome Stateful RegistryStore

/-- The audit event as the trail of the zone tells it. -/
def AuditRecord.trail (e : AuditRecord) : AuditEvent :=
  ⟨e.timestamp, e.actorRole, e.action, e.targetId, some e.mutationId⟩

/-- The name of the snapshot of a version. -/
def snapshotName (version : UInt64) : String := s!"root-zone-v{version}.json"

variable [Externals]

/-- The audit event tells what was accepted, and its hash and signature and that of the zone
verify. -/
structure Acceptance.Recorded (a : Authority) (entry : Acceptance) : Prop where
  /-- The event names the mutation. -/
  mutation : entry.event.mutationId = entry.mutation.mutationId
  /-- It names the signer. -/
  actor : entry.event.actorPublicKey = entry.mutation.actorPublicKey
  /-- It names the action. -/
  action : entry.event.action = entry.mutation.action.name
  /-- It names the target. -/
  target : (entry.event.targetType, entry.event.targetId) =
    (entry.mutation.action.target.1.asStr, entry.mutation.action.target.2)
  /-- It commits to the zone. -/
  state : entry.event.newStateHash = stateHash entry.zone
  /-- It verifies. -/
  event : entry.event.verify a.root.nodeId = .ok ()
  /-- The zone verifies. -/
  zone : entry.zone.verify a.root.nodeId = .ok ()

/-- What a registry holds after the accepted mutations of a life that began with a registry. -/
structure History (a : Authority) (first s : RegistryStore) (entries : List Acceptance) : Prop where
  /-- The log holds the events of the accepted mutations, in order. -/
  audit : s.audit = entries.map Acceptance.event
  /-- Each of them is recorded as it was. -/
  recorded : ∀ entry ∈ entries, entry.Recorded a
  /-- The zone is the last of those accepted. -/
  zone : ∃ before, first.zone :: entries.map Acceptance.zone = before ++ [s.zone]
  /-- The log leads from the first zone to the last. -/
  linked : Linked AuditRecord.previousStateHash AuditRecord.newStateHash (stateHash first.zone)
    s.audit (stateHash s.zone)
  /-- The versions rise. -/
  versions : (first.zone :: entries.map Acceptance.zone).Pairwise
    fun z z' => z.rootVersion < z'.rootVersion
  /-- The trail of the zone is the newest part of the log. -/
  trail : s.zone.audit = auditTail (first.zone.audit ++ s.audit.map AuditRecord.trail)
  /-- Every zone has its snapshot. -/
  snapshots : ∀ z ∈ first.zone :: entries.map Acceptance.zone,
    s.files.snapshots[snapshotName z.rootVersion]? = some (Externals.toVecPretty z.toJson)

/-! ## One acceptance -/

section Acceptance

omit [Externals] in
/-- A version that is not the last one is followed by a higher one. -/
theorem lt_nextRootVersion {version : UInt64} (now : DateTime)
    (room : version.toNat + 1 < 2 ^ 64) : version < nextRootVersion version now := by
  have above : version < version + 1 := by
    rw [UInt64.lt_iff_toNat_lt, UInt64.toNat_add, UInt64.toNat_one, Nat.mod_eq_of_lt room]
    omega
  have below : ∀ least other : UInt64, least ≤ max least other := by
    intro least other
    show least ≤ if least ≤ other then other else least
    split
    · assumption
    · exact UInt64.le_refl _
  rw [nextRootVersion, if_pos room]
  exact UInt64.lt_of_lt_of_le above (below _ _)

omit [Externals] in
/-- The newest events of a log are the same when only the newest of the earlier ones are kept. -/
theorem auditTail_append (events : List AuditEvent) (event : AuditEvent) :
    auditTail (auditTail events ++ [event]) = auditTail (events ++ [event]) := by
  have short : events.length - zoneAuditTail ≤ events.length := Nat.sub_le _ _
  have kept : auditTail events ++ [event] =
      (events ++ [event]).drop (events.length - zoneAuditTail) :=
    (List.drop_append_of_le_length short).symm
  have places : events.length - zoneAuditTail +
      ((events ++ [event]).length - (events.length - zoneAuditTail) - zoneAuditTail) =
        (events ++ [event]).length - zoneAuditTail := by
    rw [List.length_append, List.length_singleton, zoneAuditTail]
    omega
  rw [kept, auditTail, List.drop_drop, List.length_drop, places, auditTail]

omit [Externals] in
/-- A short log is kept whole. -/
theorem auditTail_of_short {events : List AuditEvent} (short : events.length ≤ zoneAuditTail) :
    auditTail events = events := by
  rw [auditTail, Nat.sub_eq_zero_of_le short, List.drop_zero]

omit [Externals] in
/-- Different versions have different snapshots. -/
theorem snapshotName_inj {version other : UInt64} :
    snapshotName version = snapshotName other ↔ version = other := by
  have spelled : ∀ v : UInt64, snapshotName v = "root-zone-v" ++ Nat.repr v.toNat ++ ".json" :=
    fun _ => rfl
  rw [spelled, spelled, String.append_left_inj, String.append_right_inj, Nat.repr_inj,
    UInt64.toNat_inj]

variable [SerdeJson] {a : Authority} {s : RegistryStore} {call : ApplyCall} {p : Prepared}

/-- The trail of a prepared zone: the newest events of the old trail and of the new event. -/
theorem Authority.Prepares.zone_trail (prepared : a.Prepares s call p) :
    p.zone.audit = auditTail (s.zone.audit ++ [p.event.trail]) := by
  obtain ⟨effect, granted, rfl, -⟩ := prepared.granted
  have told : (s.prepared call.request (a.context call) effect).event.trail =
      zoneEvent call.request effect.role (Externals.toRfc3339 call.now) := rfl
  rw [told]
  simp only [RegistryStore.prepared, RootZone.advance, RootZone.signedBy, granted.keeps.2.2,
    Authority.context]

/-- The version of a prepared zone is the next one. -/
theorem Authority.Prepares.zone_version (prepared : a.Prepares s call p) :
    p.zone.rootVersion = nextRootVersion s.zone.rootVersion call.now := by
  obtain ⟨effect, granted, rfl, -⟩ := prepared.granted
  have kept : effect.zone.rootVersion = s.zone.rootVersion := by
    generalize call.request.action = action at granted
    cases granted <;> rfl
  show nextRootVersion effect.zone.rootVersion call.now = _
  rw [kept]

/-- What a prepared mutation records. -/
theorem Authority.Prepares.recorded (signs : SignaturesVerify) (prepared : a.Prepares s call p) :
    (Acceptance.mk call.request p.event p.zone).Recorded a ∧
      p.event.previousStateHash = stateHash s.zone := by
  obtain ⟨effect, -, rfl, verified⟩ := prepared.granted
  have event := AuditRecord.verify_finalize signs (auditEvent call.request effect.role
    (stateHash s.zone) (stateHash (s.prepared call.request (a.context call) effect).zone)
    (Externals.toRfc3339 call.now)) a.root
  exact ⟨⟨rfl, rfl, rfl, rfl, rfl, event, verified⟩, rfl⟩

end Acceptance

/-! ## The history of a life -/

section Life

variable [SerdeJson] {P : Value → Prop} {a : Authority} {first s : RegistryStore}
  {entries : List Acceptance}

omit [SerdeJson] in
/-- A new registry has no history. -/
theorem history_initial {path : String} {now : DateTime} {io : StorageIo}
    (returned : initEmptyRegistry (RegistryDir.fresh path) a.root now io = .ok s) :
    History a s s [] := by
  obtain ⟨-, -, rfl⟩ := initEmptyRegistry_eq_ok returned
  have audit : auditTail (initialZone a.root now).audit = (initialZone a.root now).audit :=
    auditTail_of_short (show 1 ≤ 200 by decide)
  refine ⟨rfl, by simp, ⟨[], rfl⟩, rfl, List.pairwise_singleton _ _, ?_, ?_⟩
  · show (initialZone a.root now).audit = auditTail ((initialZone a.root now).audit ++ [])
    rw [List.append_nil, audit]
  · intro z member
    rw [List.mem_singleton.mp member]
    show (Std.ExtTreeMap.insert _ (snapshotName (initialZone a.root now).rootVersion) _)[_]? = _
    exact Std.ExtTreeMap.getElem?_insert_self

omit [SerdeJson] in
/-- The history is told by the zone, the log and the snapshots. -/
theorem History.congr {s' : RegistryStore} (history : History a first s entries)
    (zone : s'.zone = s.zone) (audit : s'.audit = s.audit)
    (snapshots : s'.files.snapshots = s.files.snapshots) : History a first s' entries where
  audit := audit.trans history.audit
  recorded := history.recorded
  zone := zone ▸ history.zone
  linked := by
    rw [zone, audit]
    exact history.linked
  versions := history.versions
  trail := by
    rw [zone, audit]
    exact history.trail
  snapshots := snapshots ▸ history.snapshots

/-- An accepted mutation is added to the history. -/
theorem History.stored (signs : SignaturesVerify) (history : History a first s entries)
    {call : ApplyCall} {p : Prepared} {tables : RedbTables} (prepared : a.Prepares s call p)
    (room : s.zone.rootVersion.toNat + 1 < 2 ^ 64) :
    History a first (s.stored call.request p tables)
      (entries ++ [⟨call.request, p.event, p.zone⟩]) := by
  obtain ⟨recorded, previous⟩ := prepared.recorded signs
  obtain ⟨before, zones⟩ := history.zone
  have zone : (s.stored call.request p tables).zone = p.zone := s.adopt_zone call.request p
  have audit : (s.stored call.request p tables).audit = s.audit ++ [p.event] :=
    s.adopt_audit call.request p
  have added : first.zone :: (entries ++ [Acceptance.mk call.request p.event p.zone]).map
      Acceptance.zone =
      (first.zone :: entries.map Acceptance.zone) ++ [p.zone] := by
    rw [List.map_append, List.cons_append, List.map_singleton]
  have rises : s.zone.rootVersion < p.zone.rootVersion := by
    rw [prepared.zone_version]
    exact lt_nextRootVersion call.now room
  -- the zone before is the newest of those accepted
  have above : ∀ z ∈ first.zone :: entries.map Acceptance.zone,
      z.rootVersion < p.zone.rootVersion := by
    intro z member
    have ordered := history.versions
    rw [zones] at member ordered
    rcases List.mem_append.mp member with earlier | last
    · have below := (List.pairwise_append.mp ordered).2.2 z earlier s.zone List.mem_cons_self
      exact UInt64.lt_trans below rises
    · rw [List.mem_singleton.mp last]
      exact rises
  have snapshots : (s.stored call.request p tables).files.snapshots =
      s.files.snapshots.insert (snapshotName p.zone.rootVersion)
        (Externals.toVecPretty p.zone.toJson) := by
    show (Std.ExtTreeMap.insert (s.adopt call.request p).files.snapshots
      (snapshotName (s.adopt call.request p).zone.rootVersion)
        (Externals.toVecPretty (s.adopt call.request p).zone.toJson)) = _
    have same : (s.adopt call.request p).files.snapshots = s.files.snapshots := by
      unfold adopt adoptRegistry
      cases p.newRegistry <;> rfl
    rw [same, adopt_zone]
  constructor
  · rw [audit, history.audit, List.map_append, List.map_singleton]
  · intro entry member
    rcases List.mem_append.mp member with earlier | last
    · exact history.recorded entry earlier
    · rw [List.mem_singleton.mp last]
      exact recorded
  · rw [added, zone]
    exact ⟨_, rfl⟩
  · rw [zone, audit, ← recorded.state]
    exact history.linked.concat previous
  · rw [added]
    refine List.pairwise_append.mpr ⟨history.versions, List.pairwise_singleton _ _, ?_⟩
    intro z member z' last
    rw [List.mem_singleton.mp last]
    exact above z member
  · rw [zone, audit, prepared.zone_trail, history.trail, auditTail_append, List.map_append,
      List.map_singleton, List.append_assoc]
  · intro z member
    rw [added] at member
    rw [snapshots, Std.ExtTreeMap.getElem?_insert]
    rcases List.mem_append.mp member with earlier | last
    · have lower := above z earlier
      have other : snapshotName p.zone.rootVersion ≠ snapshotName z.rootVersion := by
        intro same
        rw [snapshotName_inj.mp same] at lower
        exact UInt64.lt_irrefl _ lower
      rw [if_neg (by simpa using other)]
      exact history.snapshots z earlier
    · rw [List.mem_singleton.mp last, if_pos Std.ReflCmp.compare_self]

/-- What an event does to the registry is added to the history. -/
theorem Authority.Effect.history (signs : SignaturesVerify)
    (history : History a first s entries) {s' : RegistryStore} {accepted : Option Acceptance}
    (effect : a.Effect P s s' accepted) (room : s.zone.rootVersion.toNat + 1 < 2 ^ 64) :
    History a first s' (entries ++ accepted.toList) := by
  cases effect with
  | content ops content =>
    obtain ⟨files, manifests, frame, snapshots⟩ := @Authority.run_content _ _ a s ops content
    rw [frame, Option.toList_none, List.append_nil]
    exact history.congr rfl rfl snapshots
  | @stored ops content call event values accepted =>
    obtain ⟨files, manifests, frame, snapshots⟩ := @Authority.run_content _ _ a s ops content
    obtain ⟨p, tables, prepared, rfl, -, -, -, -, -, stored⟩ := a.accepts_iff _ |>.mp accepted
    have same : (a.run s ops).zone = s.zone := by rw [frame]
    have started : History a first (a.run s ops) entries := by
      rw [frame]
      exact history.congr rfl rfl snapshots
    have zone : ((a.run s ops).stored call.request p tables).zone = p.zone :=
      (a.run s ops).adopt_zone call.request p
    rw [stored, zone, Option.toList_some]
    exact started.stored signs prepared (same ▸ room)

/-- The registry takes the event, and its version has a successor. -/
def RegistryStore.Continues (P : Value → Prop) (s : RegistryStore) (event : RegistryEvent) : Prop :=
  s.Takes P event ∧ s.zone.rootVersion.toNat + 1 < 2 ^ 64

/-- Nonces apart, a life comes to a live registry that holds its history. -/
theorem exists_history (signs : SignaturesVerify) (reads : ReadsBack P) {path : String}
    {now : DateTime} {io : StorageIo}
    (returned : initEmptyRegistry (RegistryDir.fresh path) a.root now io = .ok s)
    {events : List RegistryEvent}
    (lives : Transition.Guarded a.live (RegistryStore.Continues P) s events) :
    ∃ core nonces, Transition.run a.live s events = core.withNonces nonces ∧ a.Alive P s core ∧
      History a s core (a.accepted s events) := by
  have genesis : a.Genesis s := ⟨_, _, _, returned⟩
  have kept : ∀ (seen : List Acceptance) (s' : RegistryStore) (event : RegistryEvent),
      (∃ core nonces, s' = core.withNonces nonces ∧ a.Alive P s core ∧ History a s core seen) →
      s'.Continues P event → ∃ core nonces, a.live s' event = core.withNonces nonces ∧
        a.Alive P s core ∧ History a s core (seen ++ (a.acceptance s' event).toList) := by
    rintro seen s' event ⟨core, nonces, rfl, alive, history⟩ ⟨takes, room⟩
    obtain ⟨core', nonces', effect, led, alive'⟩ := alive.step signs reads genesis nonces takes
    exact ⟨core', nonces', led, alive', effect.history signs history room⟩
  have initial : ∃ core nonces, s = core.withNonces nonces ∧ a.Alive P s core ∧
      History a s core [] := by
    refine ⟨s, s.database.nonces, rfl, ⟨⟨[], rfl⟩, restorable_initial returned⟩, ?_⟩
    exact history_initial returned
  exact Transition.invariant_observed kept initial lives

/-- A life writes its history: across requests, seeds and restarts the log holds exactly the
mutations that were accepted, signed and chained by state hashes, the versions rise, and no zone
loses its snapshot. -/
theorem life_history (signs : SignaturesVerify) (reads : ReadsBack P) {path : String}
    {now : DateTime} {io : StorageIo}
    (returned : initEmptyRegistry (RegistryDir.fresh path) a.root now io = .ok s)
    {events : List RegistryEvent}
    (lives : Transition.Guarded a.live (RegistryStore.Continues P) s events) :
    History a s (Transition.run a.live s events) (a.accepted s events) := by
  obtain ⟨core, nonces, same, -, history⟩ := exists_history signs reads returned lives
  rw [same]
  exact history.congr rfl rfl rfl

end Life

/-! ## The log as evidence -/

section Evidence

variable {P : Value → Prop} {a : Authority} {first s : RegistryStore} {entries : List Acceptance}

/-- The text that is hashed tells the version of a zone. -/
theorem version_of_canonicalBytes (compact : CompactText) {z z' : RootZone}
    (same : canonicalBytes z.toJson = canonicalBytes z'.toJson) :
    z.rootVersion = z'.rootVersion := by
  have alike := canonicalBytes_same compact.tokens (fun m n _ _ texts => texts) same
  have versioned : ∃ w, ("root_version", w) ∈ _ ∧
      Json.Same _ List.Perm (.ofUInt64 z.rootVersion) w := alike.exists_member (by simp)
  obtain ⟨w, member, version⟩ := versioned
  have own : w = Json.ofUInt64 z'.rootVersion := by simpa using member
  rw [own] at version
  cases version with
  | num texts =>
    have numbers := compact.integers (.posInt z.rootVersion) (.posInt z'.rootVersion) trivial
      trivial texts
    exact Number.posInt.inj numbers

/-- The state hashes that the log passes are those of the zones. -/
theorem History.states (history : History a first s entries) :
    s.audit.map AuditRecord.previousStateHash ++ [stateHash s.zone] =
      (first.zone :: entries.map Acceptance.zone).map stateHash := by
  have targets : s.audit.map AuditRecord.newStateHash =
      (entries.map Acceptance.zone).map stateHash := by
    rw [history.audit, List.map_map, List.map_map]
    exact List.map_congr_left fun entry member => (history.recorded entry member).state
  rw [history.linked.places, targets, List.map_cons]

/-- A selection of the events of the log that leads from the first zone to the last is the log,
unless two zones with different texts have the same hash. -/
theorem History.determined (compact : CompactText) (history : History a first s entries)
    {drawn : List AuditRecord} (members : ∀ event ∈ drawn, event ∈ s.audit)
    (leads : Linked AuditRecord.previousStateHash AuditRecord.newStateHash (stateHash first.zone)
      drawn (stateHash s.zone)) :
    drawn = s.audit ∨ ∃ z ∈ first.zone :: entries.map Acceptance.zone,
      ∃ z' ∈ first.zone :: entries.map Acceptance.zone,
        canonicalBytes z.toJson ≠ canonicalBytes z'.toJson ∧ stateHash z = stateHash z' := by
  by_cases once : (s.audit.map AuditRecord.previousStateHash ++ [stateHash s.zone]).Nodup
  · exact .inl (history.linked.eq_of_drawn once members leads)
  · right
    by_contra collides
    have apart : (first.zone :: entries.map Acceptance.zone).Pairwise
        fun z z' => stateHash z ≠ stateHash z' := by
      refine history.versions.imp_of_mem fun {z z'} member member' rises hashed => collides ?_
      refine ⟨z, member, z', member', fun texts => ?_, hashed⟩
      rw [version_of_canonicalBytes compact texts] at rises
      exact UInt64.lt_irrefl _ rises
    rw [history.states] at once
    exact once (List.pairwise_map.mpr apart)

/-- The hashes pin the log of a life down: a selection of its events that leads from the first
zone to the last is the log, unless two zones of the life with different texts have the same
hash. -/
theorem life_log_determined [SerdeJson] (signs : SignaturesVerify) (reads : ReadsBack P)
    (compact : CompactText) {path : String} {now : DateTime} {io : StorageIo}
    (returned : initEmptyRegistry (RegistryDir.fresh path) a.root now io = .ok s)
    {events : List RegistryEvent}
    (lives : Transition.Guarded a.live (RegistryStore.Continues P) s events)
    {drawn : List AuditRecord}
    (members : ∀ event ∈ drawn, event ∈ (Transition.run a.live s events).audit)
    (leads : Linked AuditRecord.previousStateHash AuditRecord.newStateHash (stateHash s.zone) drawn
      (stateHash (Transition.run a.live s events).zone)) :
    drawn = (Transition.run a.live s events).audit ∨
      ∃ z ∈ s.zone :: (a.accepted s events).map Acceptance.zone,
        ∃ z' ∈ s.zone :: (a.accepted s events).map Acceptance.zone,
          canonicalBytes z.toJson ≠ canonicalBytes z'.toJson ∧ stateHash z = stateHash z' := by
  obtain ⟨core, nonces, same, -, history⟩ := exists_history signs reads returned lives
  rw [same] at members leads ⊢
  exact history.determined compact members leads

end Evidence

/-! ## What a restart and the self-check say of the log -/

section Withheld

variable [SerdeJson] {P : Value → Prop} {a : Authority} {s : RegistryStore}

/-- The registry with another log, in memory and in the table. -/
def RegistryStore.withAudit (s : RegistryStore) (log : List AuditRecord)
    (rows : Table UInt64 Bytes) : RegistryStore :=
  { s with audit := log, database := { s.database with auditEvents := rows } }

/-- A directory that opens does so with any other table of audit events that reads. -/
theorem openDir_withAudit {key : String} (opens : openDir s.dir key = .ok s)
    {log : List AuditRecord} {rows : Table UInt64 Bytes}
    (reads : (s.withAudit log rows).database.listAuditEvents = .ok log) :
    openDir (s.withAudit log rows).dir key = .ok (s.withAudit log rows) := by
  simp only [openDir, RegistryStore.dir, bind_eq_ok, okOr_eq_ok, Option.some.injEq,
    exists_eq_left', exists_unit] at opens ⊢
  obtain ⟨current, read, ⟨version, bytes⟩, found, zone, parsed, valid, verified, same, loads⟩ :=
    opens
  refine ⟨current, read, ⟨version, bytes⟩, found, zone, parsed, valid, verified, same, ?_⟩
  have metadata : (s.withAudit log rows).database.registryMetadata =
      s.database.registryMetadata := rfl
  rw [metadata]
  -- the log is read last, and only for what is returned
  cases stored : s.database.registryMetadata["state_hash"]? with
  | none =>
    simp only [stored, bind_eq_ok, pure_eq_ok] at loads ⊢
    obtain ⟨registries, loaded, mutations, listed, audit, -, final⟩ := loads
    exact ⟨registries, loaded, mutations, listed, log, reads,
      congrArg (fun opened : RegistryStore => opened.withAudit log rows) final⟩
  | some hash =>
    simp only [stored, bind_eq_ok, pure_eq_ok, exists_unit] at loads ⊢
    obtain ⟨hashed, registries, loaded, mutations, listed, audit, -, final⟩ := loads
    exact ⟨hashed, registries, loaded, mutations, listed, log, reads,
      congrArg (fun opened : RegistryStore => opened.withAudit log rows) final⟩

/-- A registry that passes its self-check does so with any other log of signed events. -/
theorem verifyAll_withAudit {key : String} {report : VerifyReport}
    (verifies : s.verifyAll key = .ok report) {log : List AuditRecord}
    (signed : ∀ event ∈ log, event.verify key = .ok ()) (rows : Table UInt64 Bytes) :
    (s.withAudit log rows).verifyAll key = .ok { report with auditEvents := log.length } := by
  simp only [verifyAll, bind_eq_ok, forM_eq_ok, exists_unit, pure_eq_ok] at verifies ⊢
  obtain ⟨valid, verified, registries, manifests, blocks, -, tables, rfl⟩ := verifies
  exact ⟨valid, verified, registries, manifests, blocks, signed, tables, rfl⟩

/-- No restart and no self-check compares the hashes of the log: both accept any selection of its
events, in any order and number, in its place. -/
theorem life_log_unchecked (signs : SignaturesVerify) (reads : ReadsBack P) {path : String}
    {now : DateTime} {io : StorageIo}
    (returned : initEmptyRegistry (RegistryDir.fresh path) a.root now io = .ok s)
    {events : List RegistryEvent}
    (lives : Transition.Guarded a.live (RegistryStore.Takes P) s events)
    {drawn : List AuditRecord} {rows : Table UInt64 Bytes}
    (members : ∀ event ∈ drawn, event ∈ (Transition.run a.live s events).audit)
    (filed : Rows.IsLog rows (drawn.map fun event => Externals.toVec event.toJson)) :
    openDir ((Transition.run a.live s events).withAudit drawn rows).dir a.root.nodeId =
        .ok ((Transition.run a.live s events).withAudit drawn rows) ∧
      ∃ report, ((Transition.run a.live s events).withAudit drawn rows).verifyAll a.root.nodeId =
        .ok report := by
  have genesis : a.Genesis s := ⟨_, _, _, returned⟩
  have alive := isAlive_run signs reads returned lives
  have opens := alive.opens reads genesis
  obtain ⟨report, verifies⟩ := alive.verifyAll reads genesis
  have signed : ∀ event ∈ drawn, event.verify a.root.nodeId = .ok () := by
    obtain ⟨core, nonces, same, alive⟩ := alive
    rw [same] at members
    exact fun event member => alive.restorable.audit event (members event member)
  have reads : ((Transition.run a.live s events).withAudit drawn rows).database.listAuditEvents =
      .ok drawn :=
    serde_eq_ok.mpr <| Rows.readAll_isLog filed fun event _ => reads.auditRecord event
  exact ⟨openDir_withAudit opens reads, _, verifyAll_withAudit verifies signed rows⟩

end Withheld

end Federate

namespace Federate.Reference

open Outcome Stateful RegistryStore

/-- A nonce and the creation of `foo` with it. -/
def fooEvents : List RegistryEvent := [.nonce arrivalFoo.mutation.nonce ⟨0⟩, .request arrivalFoo]

/-- The new registry continues with its first events. -/
theorem fooEvents_lives :
    Transition.Guarded authority.live (RegistryStore.Continues PlainValue) start fooEvents := by
  have takes := takes_arrivalFoo (start.database.nonces.insert createFoo.request.nonce 300)
  have room : start.zone.rootVersion.toNat + 1 < 2 ^ 64 := by decide
  exact ⟨⟨trivial, room⟩, ⟨takes, room⟩, trivial⟩

/-- The history of the registry with `foo`. -/
theorem foo_history : History authority start (Transition.run authority.live start fooEvents)
    (authority.accepted start fooEvents) :=
  life_history signaturesVerify plainReads initialized fooEvents_lives

/-- The events of the accepted mutations link the zones of the registry with `foo`, and are its
log. -/
theorem foo_log_determined :
    (authority.accepted start fooEvents).map Acceptance.event =
        (Transition.run authority.live start fooEvents).audit ∨
      ∃ z ∈ start.zone :: (authority.accepted start fooEvents).map Acceptance.zone,
        ∃ z' ∈ start.zone :: (authority.accepted start fooEvents).map Acceptance.zone,
          canonicalBytes z.toJson ≠ canonicalBytes z'.toJson ∧ stateHash z = stateHash z' := by
  obtain ⟨core, nonces, same, -, history⟩ :=
    exists_history signaturesVerify plainReads initialized fooEvents_lives
  apply life_log_determined signaturesVerify plainReads compactText initialized
    fooEvents_lives
  · intro event member
    rw [same]
    exact history.audit ▸ member
  · rw [same, ← history.audit]
    exact history.linked

/-- The registry with `foo` opens and passes its self-check with an empty log. -/
theorem foo_log_unchecked :
    openDir ((Transition.run authority.live start fooEvents).withAudit [] ∅).dir
        authority.root.nodeId =
          .ok ((Transition.run authority.live start fooEvents).withAudit [] ∅) ∧
      ∃ report, ((Transition.run authority.live start fooEvents).withAudit [] ∅).verifyAll
        authority.root.nodeId = .ok report :=
  life_log_unchecked signaturesVerify plainReads initialized
    (fooEvents_lives.mono fun _ _ continues => continues.1)
    (fun _ member => absurd member List.not_mem_nil) Rows.isLog_empty

end Federate.Reference
