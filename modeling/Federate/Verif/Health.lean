import Federate.Verif.DirectoryTable

/-!
# Health in the node directory

A health checker marks nodes, and nodes register again. A node whose last three checks failed is
to be listed as healthy nowhere until a check succeeds. The status is kept exactly as long as
nothing but a check resets it.
-/

namespace Federate

open Outcome DirectoryState

/-- A directory under health checks. -/
structure HealthRun where
  /-- The directory. -/
  directory : DirectoryState
  /-- How many checks of a node have failed since its last successful one. -/
  failures : String → ℕ

/-- The failed checks in a row after an operation. -/
def countChecks (failures : String → ℕ) : DirectoryOp → String → ℕ
  | .mark nodeId ok _ _ => Function.update failures nodeId (if ok then 0 else failures nodeId + 1)
  | _ => failures

/-- No listing of healthy nodes has the node, and its status says so. -/
structure Excluded (s : DirectoryState) (id : String) : Prop where
  /-- It is offline. -/
  status : ∀ e : TrackedNode, s.nodes[id]? = some e → e.status = .offline
  /-- It is not listed when only healthy nodes are. -/
  list : ∀ role, ∀ e ∈ s.list role true, e.registration.nodeId ≠ id
  /-- It is not among the healthy nodes of any role. -/
  healthy : ∀ role, ∀ e ∈ s.healthy role, e.registration.nodeId ≠ id
  /-- It is a provider of no block. -/
  providers : ∀ hash role, ∀ e ∈ s.providersForBlock hash role, e.registration.nodeId ≠ id

/-- Every registered node whose last three or more checks failed is excluded. -/
def HealthRun.Reflects (h : HealthRun) : Prop :=
  ∀ id, id ∈ h.directory.nodes → 3 ≤ h.failures id → Excluded h.directory id

/-! ## Listings -/

section Listings

variable {s : DirectoryState} {h : HealthRun}

/-- What is listed is in the table. -/
theorem DirectoryState.mem_list {role : Option NodeRole} {onlyHealthy : Bool} {e : TrackedNode} :
    e ∈ s.list role onlyHealthy ↔ (∃ id : String, s.nodes[id]? = some e) ∧
      role.all (· ∈ e.registration.roles) = true ∧ (onlyHealthy = true → e.status ≠ .offline) := by
  simp only [DirectoryState.list, List.mem_filter, Rows.mem_values, decide_eq_true_eq]

/-- A node that is listed as healthy is not offline. -/
theorem DirectoryState.mem_healthy {role : NodeRole} {e : TrackedNode}
    (listed : e ∈ s.healthy role) :
    (∃ id : String, s.nodes[id]? = some e) ∧ e.status ≠ .offline := by
  have among : e ∈ s.list (some role) true := List.mem_mergeSort.mp listed
  have held := mem_list.mp among
  exact ⟨held.1, held.2.2 rfl⟩

/-- A provider of a block is not offline. -/
theorem DirectoryState.mem_providersForBlock {hash : String} {role : Option NodeRole}
    {e : TrackedNode} (listed : e ∈ s.providersForBlock hash role) :
    (∃ id : String, s.nodes[id]? = some e) ∧ e.status ≠ .offline := by
  have among := List.mem_mergeSort.mp listed
  simp only [List.mem_filter, List.mem_filterMap, decide_eq_true_eq] at among
  obtain ⟨⟨id, -, found⟩, status, -⟩ := among
  exact ⟨⟨id, found⟩, status⟩

/-- An offline node is excluded, since every node is filed under its id. -/
theorem DirectoryState.Filed.excluded_iff (filed : s.Filed) (id : String) :
    Excluded s id ↔ ∀ e : TrackedNode, s.nodes[id]? = some e → e.status = .offline := by
  constructor
  · intro excluded
    exact excluded.status
  · intro offline
    have unlisted {e : TrackedNode}
        (held : (∃ id : String, s.nodes[id]? = some e) ∧ e.status ≠ .offline) :
        e.registration.nodeId ≠ id := by
      intro same
      obtain ⟨⟨other, found⟩, healthy⟩ := held
      have own : other = id := (filed other e found).symm.trans same
      exact healthy (offline e (own ▸ found))
    constructor
    · exact offline
    · intro role e listed
      have held := mem_list.mp listed
      exact unlisted ⟨held.1, held.2.2 rfl⟩
    · intro role e listed
      exact unlisted (mem_healthy listed)
    · intro hash role e listed
      exact unlisted (mem_providersForBlock listed)

/-- Every node of the table whose last three or more checks failed is offline. -/
def Down (nodes : Table String TrackedNode) (failures : String → ℕ) : Prop :=
  ∀ (id : String) (e : TrackedNode), nodes[id]? = some e → 3 ≤ failures id → e.status = .offline

/-- The nodes are down after one is filed when that one is, and the others were. -/
theorem down_insert {nodes : Table String TrackedNode} {failures : String → ℕ} {id : String}
    {e : TrackedNode} : Down (nodes.insert id e) failures ↔
      (3 ≤ failures id → e.status = .offline) ∧
        ∀ (other : String) (x : TrackedNode), other ≠ id → nodes[other]? = some x →
          3 ≤ failures other → x.status = .offline := by
  constructor
  · intro down
    constructor
    · exact down id e Std.ExtTreeMap.getElem?_insert_self
    · intro other x apart found
      have differs : ¬compare id other = .eq := fun same =>
        apart (Std.LawfulEqCmp.eq_of_compare same).symm
      refine down other x ?_
      rw [Std.ExtTreeMap.getElem?_insert, if_neg differs]
      exact found
  · intro down other x found
    by_cases same : other = id
    · rw [same, Std.ExtTreeMap.getElem?_insert_self] at found
      rw [same, ← Option.some.inj found]
      exact down.1
    · have differs : ¬compare id other = .eq := fun equal =>
        same (Std.LawfulEqCmp.eq_of_compare equal).symm
      rw [Std.ExtTreeMap.getElem?_insert, if_neg differs] at found
      exact down.2 other x same found

/-- A directory reflects the checks exactly when its table does. -/
theorem DirectoryState.Filed.reflects_iff (filed : h.directory.Filed) :
    h.Reflects ↔ Down h.directory.nodes h.failures := by
  constructor
  · intro reflects id e found failed
    have present : id ∈ h.directory.nodes :=
      Std.ExtTreeMap.mem_iff_isSome_getElem?.mpr (by rw [found]; rfl)
    exact (reflects id present failed).status e found
  · intro down id _ failed
    refine (filed.excluded_iff id).mpr fun e found => ?_
    exact down id e found failed

end Listings

/-! ## Operations -/

variable [Externals]

/-- A registration that the directory takes. -/
structure DirectoryState.Admits (s : DirectoryState) (rootPublicKey : Option String)
    (reg : NodeRegistration) : Prop where
  /-- The registration verifies. -/
  verified : reg.verify = .ok ()
  /-- Only the root key takes the root-authority role. -/
  role : .rootAuthority ∈ reg.roles → rootPublicKey = some reg.publicKey
  /-- The node is known, or there is room for it. -/
  room : maxNodes ≤ s.nodes.size → reg.nodeId ∈ s.nodes

variable [SerdeDirectory]

/-- A directory and its checks after an operation. -/
def HealthRun.step (rootPublicKey : Option String) (h : HealthRun) (op : DirectoryOp) :
    HealthRun where
  directory := h.directory.step rootPublicKey op
  failures := countChecks h.failures op

/-- The operation leaves what the checks found in place. -/
def HealthRun.Undisturbed (rootPublicKey : Option String) (h : HealthRun) : DirectoryOp → Prop
  -- The node registers again before a check of it succeeds.
  | .register reg _ _ => h.directory.Admits rootPublicKey reg → h.failures reg.nodeId < 3
  -- A third check fails while the counter stands below two, reset since the first.
  | .mark nodeId false _ _ => 2 ≤ h.failures nodeId →
      ∀ e : TrackedNode, h.directory.nodes[nodeId]? = some e → 2 ≤ e.consecutiveFailures
  -- The snapshot file, which no check writes, has the status of an earlier time.
  | .restart => ∀ bytes entries, h.directory.snapshot = some bytes →
      SerdeDirectory.nodeEntries bytes = .ok entries → ∀ id e, lastOf entries id = some e →
        3 ≤ h.failures id → e.status = .offline
  | _ => True

variable {rootPublicKey : Option String} {s : DirectoryState} {h : HealthRun}

section Tables

omit [SerdeDirectory]

/-- What a registration that is taken leaves. -/
theorem DirectoryState.register_eq_ok {reg : NodeRegistration} {now : DateTime} {written : Bool}
    {s' : DirectoryState} : s.register rootPublicKey reg now written = .ok s' ↔
      s.Admits rootPublicKey reg ∧ s' = DirectoryState.persist
        { s with nodes := s.nodes.insert reg.nodeId (s.registered reg now) } written := by
  simp only [DirectoryState.register, bind_eq_ok, rejectIf_eq_ok, exists_unit, exists_const,
    pure_eq_ok, not_and, not_not]
  constructor
  · intro accepted
    obtain ⟨verified, role, room, rfl⟩ := accepted
    exact ⟨⟨verified, role, room⟩, rfl⟩
  · intro accepted
    obtain ⟨admits, rfl⟩ := accepted
    exact ⟨admits.verified, admits.role, admits.room, rfl⟩

/-- The entry of a node after a check. -/
def TrackedNode.checked (entry : TrackedNode) (ok : Bool) (latencyMs : Option UInt64)
    (now : DateTime) : TrackedNode :=
  let failures := entry.consecutiveFailures + 1
  if ok then
    { entry with
      consecutiveFailures := 0, status := .online, latencyMs
      lastSeen := Externals.toRfc3339 now }
  else
    { entry with
      consecutiveFailures := failures
      status := if failures = 1 ∨ failures = 2 then .degraded else .offline }

/-- A check leaves the registration alone. -/
theorem TrackedNode.checked_registration (entry : TrackedNode) (ok : Bool)
    (latencyMs : Option UInt64) (now : DateTime) :
    (entry.checked ok latencyMs now).registration = entry.registration := by
  cases ok <;> rfl

/-- A failed check makes a node offline unless the counter stood below two. -/
theorem TrackedNode.checked_status (entry : TrackedNode) (latencyMs : Option UInt64)
    (now : DateTime) :
    (entry.checked false latencyMs now).status = .offline ↔ 2 ≤ entry.consecutiveFailures := by
  have counts : (entry.consecutiveFailures + 1 = 1 ∨ entry.consecutiveFailures + 1 = 2) ↔
      ¬2 ≤ entry.consecutiveFailures := by
    have small := entry.consecutiveFailures.toNat_lt
    have one : (1 : UInt32).toNat = 1 := rfl
    have two : (2 : UInt32).toNat = 2 := rfl
    simp only [← UInt32.toNat_inj, UInt32.le_iff_toNat_le, UInt32.toNat_add, one, two]
    omega
  by_cases high : 2 ≤ entry.consecutiveFailures
  · have offline : (entry.checked false latencyMs now).status = .offline :=
      if_neg fun low => counts.mp low high
    exact iff_of_true offline high
  · have degraded : (entry.checked false latencyMs now).status = .degraded :=
      if_pos (counts.mpr high)
    rw [degraded]
    exact iff_of_false (by decide) high

/-- A check changes the entry of the node it is about, if there is one. -/
theorem DirectoryState.mark_nodes (nodeId : String) (ok : Bool) (latencyMs : Option UInt64)
    (now : DateTime) : (s.mark nodeId ok latencyMs now).nodes =
      s.nodes[nodeId]?.elim s.nodes fun entry =>
        s.nodes.insert nodeId (entry.checked ok latencyMs now) := by
  cases found : s.nodes[nodeId]? with
  | none => simp [DirectoryState.mark, found]
  | some entry =>
    simp only [DirectoryState.mark, found, Option.elim_some, TrackedNode.checked]

/-- An announcement leaves the table alone. -/
theorem DirectoryState.announceBlocks_nodes {announce : BlockAnnounce} {s' : DirectoryState}
    (accepted : s.announceBlocks announce = .ok s') : s'.nodes = s.nodes := by
  simp only [DirectoryState.announceBlocks, bind_eq_ok, rejectIf_eq_ok, exists_unit,
    exists_const, pure_eq_ok] at accepted
  obtain ⟨-, -, rfl⟩ := accepted
  rfl

/-- Pruning leaves the nodes that are not stale. -/
theorem DirectoryState.pruneStale_nodes (maxAge : ℕ) (now : DateTime) (written : Bool) :
    (s.pruneStale maxAge now written).nodes =
      s.nodes.filter fun _ entry => !isStale maxAge now entry := by
  unfold DirectoryState.pruneStale
  simp only
  split
  · rfl
  · exact persist_nodes _ written

end Tables

/-- Every operation files every node under its id. -/
theorem DirectoryState.Filed.step (filed : s.Filed) (op : DirectoryOp) :
    (s.step rootPublicKey op).Filed := by
  cases op with
  | restart => exact filed_withPersistence s.snapshot
  | register reg now written =>
    cases outcome : s.register rootPublicKey reg now written with
    | error e =>
      simp only [DirectoryState.step, outcome]
      exact filed
    | ok s' =>
      obtain ⟨-, rfl⟩ := register_eq_ok.mp outcome
      simp only [DirectoryState.step, outcome, DirectoryState.Filed, Except.toOption,
        Option.getD_some, persist_nodes]
      exact Rows.Keyed.insert filed (s.registered reg now)
  | announceBlocks announce =>
    cases outcome : s.announceBlocks announce with
    | error e =>
      simp only [DirectoryState.step, outcome]
      exact filed
    | ok s' =>
      have same : s'.nodes = s.nodes := announceBlocks_nodes outcome
      simp only [DirectoryState.step, outcome, DirectoryState.Filed, Except.toOption,
        Option.getD_some, same]
      exact filed
  | mark nodeId ok latencyMs now =>
    rw [DirectoryState.step, DirectoryState.Filed, mark_nodes]
    cases found : s.nodes[nodeId]? with
    | none => exact filed
    | some entry =>
      have own : entry.registration.nodeId = nodeId := filed nodeId entry found
      have same : (entry.checked ok latencyMs now).registration = entry.registration :=
        entry.checked_registration ok latencyMs now
      rw [← own, ← same]
      exact Rows.Keyed.insert filed (entry.checked ok latencyMs now)
  | pruneStale maxAge now written =>
    rw [DirectoryState.step, DirectoryState.Filed, pruneStale_nodes]
    exact Rows.Keyed.filter filed _

/-! ## Runs -/

/-- The step lemma: an operation keeps the nodes down exactly when it is undisturbed. -/
theorem down_step (down : Down h.directory.nodes h.failures) (op : DirectoryOp) :
    Down (h.step rootPublicKey op).directory.nodes (h.step rootPublicKey op).failures ↔
      h.Undisturbed rootPublicKey op := by
  cases op with
  | restart =>
    constructor
    · intro after bytes entries file read id e last
      exact after id e (withPersistence_getElem?.mpr ⟨bytes, entries, file, read, last⟩)
    · intro undisturbed id e found
      obtain ⟨bytes, entries, file, read, last⟩ := withPersistence_getElem?.mp found
      exact undisturbed bytes entries file read id e last
  | register reg now written =>
    have counts : (h.step rootPublicKey (.register reg now written)).failures = h.failures := rfl
    rw [counts]
    cases outcome : h.directory.register rootPublicKey reg now written with
    | error e =>
      have same : (h.step rootPublicKey (.register reg now written)).directory = h.directory := by
        simp only [HealthRun.step, DirectoryState.step, outcome, Except.toOption, Option.getD_none]
      rw [same]
      refine iff_of_true down fun admits => ?_
      have taken : h.directory.register rootPublicKey reg now written = .ok _ :=
        register_eq_ok.mpr ⟨admits, rfl⟩
      rw [outcome] at taken
      cases taken
    | ok s' =>
      obtain ⟨admits, rfl⟩ := register_eq_ok.mp outcome
      have filed : (h.step rootPublicKey (.register reg now written)).directory.nodes =
          h.directory.nodes.insert reg.nodeId (h.directory.registered reg now) := by
        simp only [HealthRun.step, DirectoryState.step, outcome, Except.toOption,
          Option.getD_some, persist_nodes]
      rw [filed, down_insert]
      have online : (h.directory.registered reg now).status = .online := rfl
      constructor
      · intro after _
        by_contra failed
        have offline := after.1 (by omega)
        rw [online] at offline
        cases offline
      · intro undisturbed
        have few := undisturbed admits
        exact ⟨fun failed => absurd failed (by omega), fun other x _ => down other x⟩
  | announceBlocks announce =>
    have same : (h.step rootPublicKey (.announceBlocks announce)).directory.nodes =
        h.directory.nodes := by
      cases outcome : h.directory.announceBlocks announce with
      | error e =>
        simp only [HealthRun.step, DirectoryState.step, outcome, Except.toOption,
          Option.getD_none]
      | ok s' =>
        simp only [HealthRun.step, DirectoryState.step, outcome, Except.toOption,
          Option.getD_some, announceBlocks_nodes outcome]
    rw [same]
    exact iff_of_true down trivial
  | mark nodeId ok latencyMs now =>
    have table : (h.step rootPublicKey (.mark nodeId ok latencyMs now)).directory.nodes =
        h.directory.nodes[nodeId]?.elim h.directory.nodes fun entry =>
          h.directory.nodes.insert nodeId (entry.checked ok latencyMs now) :=
      mark_nodes nodeId ok latencyMs now
    have own : (h.step rootPublicKey (.mark nodeId ok latencyMs now)).failures nodeId =
        if ok then 0 else h.failures nodeId + 1 := Function.update_self ..
    have others {other : String} (apart : other ≠ nodeId) :
        (h.step rootPublicKey (.mark nodeId ok latencyMs now)).failures other =
          h.failures other := Function.update_of_ne apart ..
    rw [table]
    cases found : h.directory.nodes[nodeId]? with
    | none =>
      refine iff_of_true (fun id e held failed => ?_) ?_
      · have apart : id ≠ nodeId := by
          intro same
          rw [Option.elim_none, same, found] at held
          cases held
        rw [others apart] at failed
        exact down id e held failed
      · cases ok
        · intro _ e held
          rw [found] at held
          cases held
        · trivial
    | some entry =>
      rw [Option.elim_some, down_insert]
      have rest (other : String) (x : TrackedNode) (apart : other ≠ nodeId)
          (held : h.directory.nodes[other]? = some x)
          (failed : 3 ≤ (h.step rootPublicKey (.mark nodeId ok latencyMs now)).failures other) :
          x.status = .offline := by
        rw [others apart] at failed
        exact down other x held failed
      rw [own]
      cases ok with
      | true =>
        refine iff_of_true ⟨fun failed => ?_, rest⟩ trivial
        have none : 3 ≤ 0 := failed
        omega
      | false =>
        rw [TrackedNode.checked_status]
        constructor
        · intro after failed e held
          rw [found] at held
          rw [← Option.some.inj held]
          exact after.1 (by simpa using failed)
        · intro undisturbed
          exact ⟨fun failed => undisturbed (by simpa using failed) entry found, rest⟩
  | pruneStale maxAge now written =>
    have kept : (h.step rootPublicKey (.pruneStale maxAge now written)).directory.nodes =
        h.directory.nodes.filter fun _ entry => !isStale maxAge now entry :=
      pruneStale_nodes maxAge now written
    refine iff_of_true (fun id e found => ?_) trivial
    rw [kept, Std.ExtTreeMap.getElem?_filter'] at found
    exact down id e (Option.filter_eq_some_iff.mp found).1

/-- A directory that starts on a snapshot, before any check. -/
def HealthRun.start (snapshot : Option Bytes) : HealthRun := ⟨withPersistence snapshot, fun _ => 0⟩

/-- Every node is filed under its id in every state of a run. -/
theorem filed_run {snapshot : Option Bytes} (ops : List DirectoryOp) :
    (Transition.run (HealthRun.step rootPublicKey) (.start snapshot) ops).directory.Filed := by
  have kept (h : HealthRun) (op : DirectoryOp) (filed : h.directory.Filed) (_ : True) :
      (h.step rootPublicKey op).directory.Filed := filed.step op
  exact Transition.invariant kept (filed_withPersistence snapshot)
    (Transition.guarded_true (HealthRun.step rootPublicKey) (.start snapshot) ops)

/-- The statuses reflect the checks in every state of a run exactly when every operation of the
run is undisturbed. -/
theorem reflects_iff_undisturbed (rootPublicKey : Option String) (snapshot : Option Bytes)
    (ops : List DirectoryOp) :
    (∀ earlier, earlier <+: ops →
      (Transition.run (HealthRun.step rootPublicKey) (.start snapshot) earlier).Reflects) ↔
      Transition.Guarded (HealthRun.step rootPublicKey) (HealthRun.Undisturbed rootPublicKey)
        (.start snapshot) ops := by
  have kept (h : HealthRun) (op : DirectoryOp) (filed : h.directory.Filed) :
      (h.step rootPublicKey op).directory.Filed := filed.step op
  have exactly (h : HealthRun) (op : DirectoryOp) (filed : h.directory.Filed)
      (reflects : h.Reflects) (_ : True) :
      (h.step rootPublicKey op).Reflects ↔ h.Undisturbed rootPublicKey op := by
    have down : Down h.directory.nodes h.failures := filed.reflects_iff.mp reflects
    rw [(kept h op filed).reflects_iff, down_step down op]
  have filed : (HealthRun.start snapshot).directory.Filed := filed_withPersistence snapshot
  have initially : (HealthRun.start snapshot).Reflects := by
    intro id _ failed
    have none : 3 ≤ 0 := failed
    omega
  have unassumed := Transition.guarded_true (HealthRun.step rootPublicKey) (.start snapshot) ops
  exact Transition.holds_iff_guarded kept exactly filed initially unassumed

end Federate

namespace Federate.Reference

open DirectoryState

/-- A node registers, fails three checks, and registers again. -/
def heartbeat (reg : NodeRegistration) : List DirectoryOp :=
  let fails : DirectoryOp := .mark reg.nodeId false none ⟨0⟩
  [.register reg ⟨0⟩ true, fails, fails, fails, .register reg ⟨0⟩ true]

/-- A check keeps a node registered. -/
theorem mem_mark {s : DirectoryState} {id : String} (present : id ∈ s.nodes) (nodeId : String)
    (ok : Bool) (latencyMs : Option UInt64) (now : DateTime) :
    id ∈ (s.mark nodeId ok latencyMs now).nodes := by
  rw [mark_nodes]
  cases s.nodes[nodeId]? with
  | none => exact present
  | some entry => exact Std.ExtTreeMap.mem_insert.mpr (.inr present)

/-- Before the node registers again it is known, and its last three checks failed. -/
theorem heartbeat_failed {reg : NodeRegistration} (verified : reg.verify = .ok ())
    (plain : .rootAuthority ∉ reg.roles) :
    let h : HealthRun := Transition.run (HealthRun.step none) (.start none) ((heartbeat reg).take 4)
    h.directory.Admits none reg ∧ h.failures reg.nodeId = 3 := by
  let start : DirectoryState := withPersistence none
  have role : .rootAuthority ∈ reg.roles → none = some reg.publicKey := fun root =>
    absurd root plain
  let once : DirectoryState :=
    persist { start with nodes := start.nodes.insert reg.nodeId (start.registered reg ⟨0⟩) } true
  have registers : start.register none reg ⟨0⟩ true = .ok once := by
    have room : maxNodes ≤ start.nodes.size → reg.nodeId ∈ start.nodes := fun full =>
      absurd full (by decide)
    exact register_eq_ok.mpr ⟨⟨verified, role, room⟩, rfl⟩
  have first : start.step none (.register reg ⟨0⟩ true) = once := by
    rw [DirectoryState.step, registers]
    rfl
  have present : reg.nodeId ∈ once.nodes := by
    rw [persist_nodes]
    exact Std.ExtTreeMap.mem_insert_self
  intro h
  constructor
  · have still : reg.nodeId ∈ h.directory.nodes := by
      show reg.nodeId ∈ (DirectoryState.mark (DirectoryState.mark (DirectoryState.mark
        (start.step none (.register reg ⟨0⟩ true)) _ _ _ _) _ _ _ _) _ _ _ _).nodes
      rw [first]
      exact mem_mark (mem_mark (mem_mark present ..) ..) ..
    exact ⟨verified, role, fun _ => still⟩
  · simp [h, heartbeat, HealthRun.step, HealthRun.start, countChecks]

/-- Registering again disturbs what the checks found. -/
theorem heartbeat_disturbs {reg : NodeRegistration} (verified : reg.verify = .ok ())
    (plain : .rootAuthority ∉ reg.roles) : ¬∀ earlier, earlier <+: heartbeat reg →
      (Transition.run (HealthRun.step none) (.start none) earlier).Reflects := by
  intro reflects
  let h : HealthRun := Transition.run (HealthRun.step none) (.start none) ((heartbeat reg).take 4)
  have failed : h.directory.Admits none reg ∧ h.failures reg.nodeId = 3 :=
    heartbeat_failed verified plain
  have filed : h.directory.Filed := filed_run ((heartbeat reg).take 4)
  have reflected : h.Reflects := reflects _ (List.take_prefix 4 (heartbeat reg))
  have after : (h.step none (.register reg ⟨0⟩ true)).Reflects :=
    reflects (heartbeat reg) (List.prefix_refl (heartbeat reg))
  have undisturbed : h.Undisturbed none (.register reg ⟨0⟩ true) :=
    (down_step (filed.reflects_iff.mp reflected) _).mp ((filed.step _).reflects_iff.mp after)
  have few : h.failures reg.nodeId < 3 := undisturbed failed.1
  omega

/-- A gateway is online again although its last three checks failed. -/
theorem heartbeat_online : ¬∀ earlier, earlier <+: heartbeat (selfSigned (identity 9) .gateway) →
    (Transition.run (HealthRun.step none) (.start none) earlier).Reflects :=
  heartbeat_disturbs (selfSigned_verify (identity 9) .gateway) (by simp [selfSigned])

end Federate.Reference
