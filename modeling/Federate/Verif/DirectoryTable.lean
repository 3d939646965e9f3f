import Federate.Directory.Table
import Federate.Library.Rows
import Federate.Reference.Registry

/-!
# The table of a node directory

Every entry is filed under its own id and verifies, only the root key has the root-authority role,
and the table is bounded. Registration enforces all three, while a restart enforces only the
first: what the snapshot file held at the start decides whether the other two hold.
-/

namespace Federate

open Outcome DirectoryState

variable [Externals]

/-- What the table of a directory promises. -/
structure TableSafe (rootPublicKey : Option String) (nodes : Table String TrackedNode) : Prop where
  /-- An entry is filed under its id, and its registration verifies. -/
  filed : ∀ (id : String) (e : TrackedNode), nodes[id]? = some e →
    e.registration.nodeId = id ∧ e.registration.verify = .ok ()
  /-- Only the root key has the root-authority role. -/
  authority : ∀ (id : String) (e : TrackedNode), nodes[id]? = some e →
    .rootAuthority ∈ e.registration.roles → rootPublicKey = some e.registration.publicKey
  /-- The table is bounded. -/
  capacity : nodes.size ≤ maxNodes

/-- Every node is filed under its id. -/
abbrev DirectoryState.Filed (s : DirectoryState) : Prop :=
  Rows.Keyed (fun e : TrackedNode => e.registration.nodeId) s.nodes

/-- The entries of a snapshot whose registration verifies. -/
def verifying (entries : List TrackedNode) : List TrackedNode :=
  entries.filter fun e => e.registration.verify = .ok ()

/-- The verifying entry of a node that comes last. -/
def lastOf (entries : List TrackedNode) (id : String) : Option TrackedNode :=
  (verifying entries).reverse.find? fun e => e.registration.nodeId = id

/-- The nodes that have a verifying entry. -/
def nodeIds (entries : List TrackedNode) : Finset String :=
  ((verifying entries).map fun e => e.registration.nodeId).toFinset

/-- The verifying entries of a snapshot are those of a directory with this root key. -/
structure EntriesFit (rootPublicKey : Option String) (entries : List TrackedNode) : Prop where
  /-- The last entry of each node has the root-authority role only with the root key. -/
  authority : ∀ id e, lastOf entries id = some e → .rootAuthority ∈ e.registration.roles →
    rootPublicKey = some e.registration.publicKey
  /-- There are not too many nodes. -/
  capacity : (nodeIds entries).card ≤ maxNodes

variable [SerdeDirectory]

/-- The entries of a snapshot file fit, when it can be read. -/
def SnapshotFits (rootPublicKey : Option String) (snapshot : Option Bytes) : Prop :=
  ∀ bytes entries, snapshot = some bytes → SerdeDirectory.nodeEntries bytes = .ok entries →
    EntriesFit rootPublicKey entries

/-- A written snapshot is read back. -/
def SnapshotRoundTrips : Prop := ∀ entries : List TrackedNode,
  SerdeDirectory.nodeEntries (Externals.toVec (.arr (entries.map TrackedNode.toJson))) = .ok entries

variable {rootPublicKey : Option String} {nodes : Table String TrackedNode}

/-! ## Restoring a snapshot -/

section Restore

omit [SerdeDirectory]

/-- Restoring files the verifying entries, each under its id. -/
theorem restore_eq (entries : List TrackedNode) :
    restore entries = Rows.store (fun e => e.registration.nodeId) id (verifying entries) := by
  rw [restore, Rows.store, verifying, List.foldl_filter]
  simp only [decide_eq_true_eq, id_eq]

/-- The entry of a node after a restart is the last verifying one. -/
theorem restore_getElem? (entries : List TrackedNode) (id : String) :
    (restore entries)[id]? = lastOf entries id := by
  rw [restore_eq, Rows.store_getElem?, lastOf]
  simp

/-- The entry that comes last is one of the verifying ones. -/
theorem lastOf_eq_some {entries : List TrackedNode} {id : String} {e : TrackedNode}
    (found : lastOf entries id = some e) :
    e.registration.nodeId = id ∧ e.registration.verify = .ok () ∧ e ∈ entries := by
  have named : e.registration.nodeId = id := by simpa using List.find?_some found
  have member : e ∈ verifying entries := List.mem_reverse.mp (List.mem_of_find?_eq_some found)
  have passes := List.mem_filter.mp member
  exact ⟨named, by simpa using passes.2, passes.1⟩

/-- The restored table has one entry for each node. -/
theorem restore_size (entries : List TrackedNode) :
    (restore entries).size = (nodeIds entries).card := by
  refine Rows.size_eq_card fun id => ?_
  rw [restore_eq, Rows.mem_store, nodeIds, List.mem_toFinset, List.mem_map]

/-- A restored table is safe exactly when the entries fit. -/
theorem tableSafe_restore {entries : List TrackedNode} :
    TableSafe rootPublicKey (restore entries) ↔ EntriesFit rootPublicKey entries := by
  constructor
  · intro safe
    constructor
    · intro id e found
      exact safe.authority id e ((restore_getElem? entries id).trans found)
    · rw [← restore_size]
      exact safe.capacity
  · intro fits
    constructor
    · intro id e found
      have last := lastOf_eq_some ((restore_getElem? entries id).symm.trans found)
      exact ⟨last.1, last.2.1⟩
    · intro id e found
      exact fits.authority id e ((restore_getElem? entries id).symm.trans found)
    · rw [restore_size]
      exact fits.capacity

/-- The empty table is safe. -/
theorem tableSafe_empty : TableSafe rootPublicKey ∅ where
  filed id e found := by simp at found
  authority id e found := by simp at found
  capacity := by simp

end Restore

/-- A directory that starts on a snapshot is safe exactly when the snapshot fits. -/
theorem tableSafe_withPersistence {snapshot : Option Bytes} :
    TableSafe rootPublicKey (withPersistence snapshot).nodes ↔
      SnapshotFits rootPublicKey snapshot := by
  cases snapshot with
  | none =>
    have unread : SnapshotFits rootPublicKey none := fun bytes entries held => by cases held
    exact ⟨fun _ => unread, fun _ => tableSafe_empty⟩
  | some bytes =>
    cases read : SerdeDirectory.nodeEntries bytes with
    | error e =>
      have unread : SnapshotFits rootPublicKey (some bytes) := fun bytes' entries held reads => by
        rw [← Option.some.inj held, read] at reads
        cases reads
      have empty : (withPersistence (some bytes)).nodes = ∅ := by simp [withPersistence, read]
      rw [empty]
      exact ⟨fun _ => unread, fun _ => tableSafe_empty⟩
    | ok entries =>
      have restored : (withPersistence (some bytes)).nodes = restore entries := by
        simp [withPersistence, read]
      rw [restored, tableSafe_restore]
      constructor
      · intro fits bytes' entries' held reads
        rw [← Option.some.inj held, read] at reads
        exact Except.ok.inj reads ▸ fits
      · intro fits
        exact fits bytes entries rfl read

/-- What a restart restores. -/
theorem withPersistence_getElem? {snapshot : Option Bytes} {id : String} {e : TrackedNode} :
    (withPersistence snapshot).nodes[id]? = some e ↔ ∃ bytes entries, snapshot = some bytes ∧
      SerdeDirectory.nodeEntries bytes = .ok entries ∧ lastOf entries id = some e := by
  cases snapshot with
  | none => simp [withPersistence]
  | some bytes =>
    cases read : SerdeDirectory.nodeEntries bytes with
    | error e => simp [withPersistence, read]
    | ok entries => simp [withPersistence, read, restore_getElem?]

/-- A restart files every node under its id. -/
theorem filed_withPersistence (snapshot : Option Bytes) : (withPersistence snapshot).Filed := by
  intro id e found
  obtain ⟨bytes, entries, -, -, last⟩ := withPersistence_getElem?.mp found
  exact (lastOf_eq_some last).1

/-! ## Every operation -/

section Tables

omit [SerdeDirectory]

/-- The entry of a node that has registered. -/
def DirectoryState.registered (s : DirectoryState) (reg : NodeRegistration) (now : DateTime) :
    TrackedNode :=
  let seen := Externals.toRfc3339 now
  let entry := s.nodes[reg.nodeId]?.getD ⟨reg, .online, seen, none, 0⟩
  { entry with registration := reg, lastSeen := seen, status := .online, consecutiveFailures := 0 }

/-- Writing the snapshot leaves the nodes. -/
@[simp] theorem DirectoryState.persist_nodes (s : DirectoryState) (written : Bool) :
    (s.persist written).nodes = s.nodes := by
  cases written <;> rfl

/-- It leaves the providers, too. -/
@[simp] theorem DirectoryState.persist_providers (s : DirectoryState) (written : Bool) :
    (s.persist written).providers = s.providers := by
  cases written <;> rfl

/-- Filing a checked entry keeps a table safe, when it has room. -/
theorem TableSafe.insert (safe : TableSafe rootPublicKey nodes) {id : String} {e : TrackedNode}
    (named : e.registration.nodeId = id) (verified : e.registration.verify = .ok ())
    (root : .rootAuthority ∈ e.registration.roles → rootPublicKey = some e.registration.publicKey)
    (room : id ∈ nodes ∨ nodes.size < maxNodes) : TableSafe rootPublicKey (nodes.insert id e) where
  filed id other found := by
    rw [Std.ExtTreeMap.getElem?_insert] at found
    split at found
    · rename_i same
      rw [← Option.some.inj found]
      exact ⟨named.trans (Std.LawfulEqCmp.eq_of_compare same), verified⟩
    · exact safe.filed id other found
  authority id other found := by
    rw [Std.ExtTreeMap.getElem?_insert] at found
    split at found
    · rw [← Option.some.inj found]
      exact root
    · exact safe.authority id other found
  capacity := by
    rw [Std.ExtTreeMap.size_insert]
    split
    · exact safe.capacity
    · rename_i absent
      exact room.resolve_left absent

/-- Removing entries keeps a table safe. -/
theorem TableSafe.filter (safe : TableSafe rootPublicKey nodes) (p : TrackedNode → Bool) :
    TableSafe rootPublicKey (nodes.filter fun _ e => p e) := by
  have kept {id : String} {e : TrackedNode} (found : (nodes.filter fun _ e => p e)[id]? = some e) :
      nodes[id]? = some e := by
    rw [Std.ExtTreeMap.getElem?_filter'] at found
    exact (Option.filter_eq_some_iff.mp found).1
  exact {
    filed := fun id e found => safe.filed id e (kept found)
    authority := fun id e found => safe.authority id e (kept found)
    capacity := Std.ExtTreeMap.size_filter_le_size.trans safe.capacity }

/-- The entries of a safe table fit. -/
theorem TableSafe.entriesFit (safe : TableSafe rootPublicKey nodes) :
    EntriesFit rootPublicKey (Rows.values nodes) := by
  have held {e : TrackedNode} (member : e ∈ Rows.values nodes) :
      nodes[e.registration.nodeId]? = some e := by
    obtain ⟨id, found⟩ := Rows.mem_values.mp member
    exact (safe.filed id e found).1.symm ▸ found
  constructor
  · intro id e found
    exact safe.authority _ e (held (lastOf_eq_some found).2.2)
  · refine le_trans ?_ safe.capacity
    have listed : nodeIds (Rows.values nodes) ⊆ nodes.keys.toFinset := by
      intro id member
      obtain ⟨e, passes, rfl⟩ := List.mem_map.mp (List.mem_toFinset.mp member)
      have found := held (List.mem_filter.mp passes).1
      exact List.mem_toFinset.mpr (Std.ExtTreeMap.mem_keys.mpr
        (Std.ExtTreeMap.mem_iff_isSome_getElem?.mpr (by rw [found]; rfl)))
    calc (nodeIds (Rows.values nodes)).card
      _ ≤ nodes.keys.toFinset.card := Finset.card_le_card listed
      _ ≤ nodes.keys.length := List.toFinset_card_le _
      _ = nodes.size := Std.ExtTreeMap.length_keys

end Tables

/-- A directory that keeps its promises over a restart. -/
structure DirectorySafe (rootPublicKey : Option String) (s : DirectoryState) : Prop where
  /-- The table is safe. -/
  table : TableSafe rootPublicKey s.nodes
  /-- So is the one that a restart gives. -/
  snapshot : SnapshotFits rootPublicKey s.snapshot

variable {s : DirectoryState}

/-- Writing the snapshot of a safe table keeps the directory safe. -/
theorem DirectorySafe.persist (trips : SnapshotRoundTrips) (safe : DirectorySafe rootPublicKey s)
    (written : Bool) : DirectorySafe rootPublicKey (s.persist written) := by
  unfold DirectoryState.persist
  split
  · have entriesOf : s.nodes.toList.map (fun p => p.2.toJson) =
        (Rows.values s.nodes).map TrackedNode.toJson := by simp [Rows.values]
    refine ⟨safe.table, fun bytes entries held reads => ?_⟩
    rw [← Option.some.inj held, entriesOf, trips] at reads
    exact Except.ok.inj reads ▸ safe.table.entriesFit
  · exact safe

/-- A registration that is accepted keeps the directory safe. -/
theorem DirectorySafe.register (trips : SnapshotRoundTrips) (safe : DirectorySafe rootPublicKey s)
    {reg : NodeRegistration} {now : DateTime} {written : Bool} {s' : DirectoryState}
    (accepted : s.register rootPublicKey reg now written = .ok s') :
    DirectorySafe rootPublicKey s' := by
  simp only [DirectoryState.register, bind_eq_ok, rejectIf_eq_ok, exists_unit, exists_const,
    pure_eq_ok, not_and, not_not] at accepted
  obtain ⟨verified, root, room, rfl⟩ := accepted
  have roomy : reg.nodeId ∈ s.nodes ∨ s.nodes.size < maxNodes := by
    by_cases full : maxNodes ≤ s.nodes.size
    · exact .inl (room full)
    · exact .inr (by omega)
  apply DirectorySafe.persist trips
  constructor
  · exact safe.table.insert rfl verified root roomy
  · exact safe.snapshot

/-- A health check keeps the directory safe. -/
theorem DirectorySafe.mark (safe : DirectorySafe rootPublicKey s) (nodeId : String) (ok : Bool)
    (latencyMs : Option UInt64) (now : DateTime) :
    DirectorySafe rootPublicKey (s.mark nodeId ok latencyMs now) := by
  unfold DirectoryState.mark
  split
  · exact safe
  · rename_i entry found
    obtain ⟨rfl, verified⟩ := safe.table.filed nodeId entry found
    have present : entry.registration.nodeId ∈ s.nodes :=
      Std.ExtTreeMap.mem_iff_isSome_getElem?.mpr (by rw [found]; rfl)
    have root := safe.table.authority _ entry found
    constructor
    · cases ok <;> exact safe.table.insert rfl verified root (.inl present)
    · exact safe.snapshot

/-- Pruning keeps the directory safe. -/
theorem DirectorySafe.pruneStale (trips : SnapshotRoundTrips)
    (safe : DirectorySafe rootPublicKey s) (maxAge : ℕ) (now : DateTime) (written : Bool) :
    DirectorySafe rootPublicKey (s.pruneStale maxAge now written) := by
  have kept := safe.table.filter fun entry => !isStale maxAge now entry
  unfold DirectoryState.pruneStale
  simp only
  split
  · exact ⟨kept, safe.snapshot⟩
  · apply DirectorySafe.persist trips
    exact ⟨kept, safe.snapshot⟩

/-- Every operation keeps the directory safe. -/
theorem DirectorySafe.step (trips : SnapshotRoundTrips) (safe : DirectorySafe rootPublicKey s)
    (op : DirectoryOp) : DirectorySafe rootPublicKey (s.step rootPublicKey op) := by
  cases op with
  | restart => exact ⟨tableSafe_withPersistence.mpr safe.snapshot, safe.snapshot⟩
  | register reg now written =>
    cases outcome : s.register rootPublicKey reg now written with
    | error e =>
      simp only [DirectoryState.step, outcome]
      exact safe
    | ok s' =>
      simp only [DirectoryState.step, outcome]
      exact safe.register trips outcome
  | announceBlocks announce =>
    cases outcome : s.announceBlocks announce with
    | error e =>
      simp only [DirectoryState.step, outcome]
      exact safe
    | ok s' =>
      simp only [DirectoryState.step, outcome]
      simp only [DirectoryState.announceBlocks, bind_eq_ok, rejectIf_eq_ok, exists_unit,
        exists_const, pure_eq_ok] at outcome
      obtain ⟨-, -, rfl⟩ := outcome
      exact ⟨safe.table, safe.snapshot⟩
  | mark nodeId ok latencyMs now => exact safe.mark nodeId ok latencyMs now
  | pruneStale maxAge now written => exact safe.pruneStale trips maxAge now written

/-- The table is safe in every state of a run exactly when the snapshot that the directory starts
on fits. -/
theorem tableSafe_iff_snapshotFits (trips : SnapshotRoundTrips) (snapshot : Option Bytes)
    (ops : List DirectoryOp) :
    (∀ earlier, earlier <+: ops → TableSafe rootPublicKey
      (Transition.run (DirectoryState.step rootPublicKey) (withPersistence snapshot) earlier).nodes) ↔
      SnapshotFits rootPublicKey snapshot := by
  constructor
  · intro safe
    exact tableSafe_withPersistence.mp (safe [] List.nil_prefix)
  · intro fits earlier _
    have initial : DirectorySafe rootPublicKey (withPersistence snapshot) :=
      ⟨tableSafe_withPersistence.mpr fits, fits⟩
    have kept : ∀ (s : DirectoryState) (op : DirectoryOp), DirectorySafe rootPublicKey s → True →
        DirectorySafe rootPublicKey (s.step rootPublicKey op) :=
      fun s op safe _ => safe.step trips op
    exact (Transition.invariant kept initial (Transition.guarded_true _ _ earlier)).table

end Federate

namespace Federate.Reference

open DirectoryState

/-- The reference reader reads written snapshots back. -/
theorem snapshotRoundTrips : SnapshotRoundTrips := fun entries =>
  read_compact (fun es _ => TrackedNode.readable_list es) (fun _ _ => TrackedNode.list_injective)
    (a := entries) trivial

/-- A node that registers itself with a role. -/
def selfSigned (node : NodeIdentity) (role : NodeRole) : NodeRegistration :=
  let unsigned : NodeRegistration :=
    { nodeId := node.nodeId, publicKey := node.nodeId, roles := [role]
      publicIps := ["203.0.113.5"], region := "eu", version := "1", capacity := ⟨0, 0⟩
      healthEndpoint := "http://203.0.113.5:8080", nativePort := none
      registeredAt := "1970-01-01T00:00:00+00:00", signatureAlgorithm := signatureAlgorithm
      signature := none }
  { unsigned with signature := some (node.sign unsigned.signableBytes) }

/-- The registration verifies. -/
theorem selfSigned_verify (node : NodeIdentity) (role : NodeRole) :
    (selfSigned node role).verify = .ok () := by
  refine NodeRegistration.verify_eq_ok.mpr ⟨rfl, by simp [selfSigned], ⟨_, rfl, ?_⟩, ?_, ?_⟩
  · exact verifySignature_sign signaturesVerify node _
  · have parsed : (Ip.parse "203.0.113.5").isSome = true := by decide +kernel
    simpa [selfSigned] using Option.isSome_iff_exists.mp parsed
  · have host : healthEndpointHost "http://203.0.113.5:8080" = some "203.0.113.5" := by
      decide +kernel
    exact ⟨"203.0.113.5", by simp [selfSigned], host⟩

/-- A directory that starts without a snapshot file is safe after a registration and a restart. -/
theorem emptyDirectory_safe :
    let ops : List DirectoryOp := [.register (selfSigned (identity 9) .dns) ⟨0⟩ true, .restart]
    (∀ earlier, earlier <+: ops → TableSafe (some (identity 1).nodeId)
      (Transition.run (DirectoryState.step (some (identity 1).nodeId)) (withPersistence none)
        earlier).nodes) ↔ SnapshotFits (some (identity 1).nodeId) none :=
  tableSafe_iff_snapshotFits snapshotRoundTrips none _

/-- A snapshot with a node that took the root-authority role under its own key. -/
def forgedSnapshot : Bytes :=
  Externals.toVec (.arr ([⟨selfSigned (identity 9) .rootAuthority, .online,
    "1970-01-01T00:00:00+00:00", none, 0⟩].map TrackedNode.toJson))

/-- The directory that starts on that snapshot lists the node as a root authority. -/
theorem forgedSnapshot_restored : ¬∀ earlier, earlier <+: [] → TableSafe (some (identity 1).nodeId)
    (Transition.run (DirectoryState.step (some (identity 1).nodeId))
      (withPersistence (some forgedSnapshot)) earlier).nodes := by
  intro safe
  have fits := tableSafe_withPersistence.mp (safe [] List.nil_prefix) _ _ rfl
    (snapshotRoundTrips _)
  have last : lastOf [⟨selfSigned (identity 9) .rootAuthority, .online,
      "1970-01-01T00:00:00+00:00", none, 0⟩] (identity 9).nodeId =
      some ⟨selfSigned (identity 9) .rootAuthority, .online, "1970-01-01T00:00:00+00:00", none,
        0⟩ := by
    simp [lastOf, verifying, selfSigned_verify]
    rfl
  have root := fits.authority _ _ last (by simp [selfSigned])
  revert root
  decide +kernel

end Federate.Reference
