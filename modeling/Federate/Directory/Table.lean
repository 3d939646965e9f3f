import Federate.Directory
import Federate.Library.Rows
import Federate.Library.Transition
import Federate.Resolution.Environment

/-!
# The node directory

The table of nodes that a directory keeps, with who announced which blocks, and the snapshot file
that carries the table over a restart. Nodes register and announce blocks, a health checker marks
them, and stale ones are pruned.
-/

namespace Federate

open Outcome

/-- `NodeStatus::as_str`. -/
def NodeStatus.asStr : NodeStatus → String
  | .online => "online"
  | .degraded => "degraded"
  | .offline => "offline"

/-- `NodeEntry`, with its whole registration. -/
structure TrackedNode where
  /-- The registration. -/
  registration : NodeRegistration
  /-- Health. -/
  status : NodeStatus
  /-- Time of the last successful check or registration. -/
  lastSeen : String
  /-- Measured latency. -/
  latencyMs : Option UInt64
  /-- Failed checks since the last successful one. -/
  consecutiveFailures : UInt32

/-- The serialized entry: the members of the registration, and the health after them. -/
def TrackedNode.toJson (e : TrackedNode) : Json :=
  let health : List (String × Json) :=
    [("status", .str e.status.asStr), ("last_seen", .str e.lastSeen),
      ("latency_ms", (e.latencyMs.map Json.ofUInt64).getD .null),
      ("consecutive_failures", Json.ofUInt64 e.consecutiveFailures.toUInt64)]
  match e.registration.toJson with
  | .obj members => .obj (members ++ health)
  | other => other

/-- `MAX_NODES`. -/
def maxNodes : ℕ := 5000

/-- `serde_json::from_slice` of a snapshot. -/
class SerdeDirectory where
  /-- Read a list of entries. -/
  nodeEntries : Bytes → Except String (List TrackedNode)

/-- `Directory`, with the file at its `persist_path`. -/
structure DirectoryState where
  /-- Node id to entry. -/
  nodes : Table String TrackedNode
  /-- Block hash to the ids of the nodes that announced it. -/
  providers : Table String (Finset String)
  /-- The snapshot file. -/
  snapshot : Option Bytes

namespace DirectoryState

variable [Externals]

omit [Externals] in
/-- `Directory::new`. -/
def new : DirectoryState := ⟨∅, ∅, none⟩

/-- The table of the entries whose registration verifies. -/
def restore (entries : List TrackedNode) : Table String TrackedNode :=
  entries.foldl (fun nodes entry =>
    if entry.registration.verify = .ok () then nodes.insert entry.registration.nodeId entry
    else nodes) ∅

/-- `Directory::with_persistence`. -/
def withPersistence [SerdeDirectory] (snapshot : Option Bytes) : DirectoryState where
  nodes :=
    match snapshot.map SerdeDirectory.nodeEntries with
    | some (.ok entries) => restore entries
    | _ => ∅
  providers := ∅
  snapshot := snapshot

/-- `Directory::persist`, when the file is written; a failure is ignored. -/
def persist (s : DirectoryState) (written : Bool) : DirectoryState :=
  if written then
    { s with snapshot := some (Externals.toVec (.arr (s.nodes.toList.map fun p => p.2.toJson))) }
  else s

/-- `Directory::register`: only the root key takes the root-authority role, and a full directory
takes no new node. -/
def register (s : DirectoryState) (rootPublicKey : Option String) (reg : NodeRegistration)
    (now : DateTime) (written : Bool) : Result DirectoryState :=
  let fail (reason : String) : FederateError :=
    .verificationFailed "node-registration" reg.nodeId reason
  do
    reg.verify
    rejectIf (.rootAuthority ∈ reg.roles ∧ rootPublicKey ≠ some reg.publicKey)
      (fail "only the Federate Root Key may register the root-authority role")
    rejectIf (maxNodes ≤ s.nodes.size ∧ reg.nodeId ∉ s.nodes)
      (fail s!"directory is full ({maxNodes} nodes)")
    let seen := Externals.toRfc3339 now
    let entry := s.nodes[reg.nodeId]?.getD ⟨reg, .online, seen, none, 0⟩
    let entry :=
      { entry with registration := reg, lastSeen := seen, status := .online, consecutiveFailures := 0 }
    return { s with nodes := s.nodes.insert reg.nodeId entry }.persist written

/-- `chrono::Duration::from_std`, in nanoseconds, or else a day. -/
def ageLimit (maxAge : ℕ) : ℤ :=
  if maxAge ≤ (2 ^ 63 - 1) * 1000000 then maxAge else 24 * 60 * 60 * 1000000000

/-- A node last seen too long ago, or at a time that does not parse. -/
def isStale (maxAge : ℕ) (now : DateTime) (entry : TrackedNode) : Bool :=
  match Externals.parseFromRfc3339 entry.lastSeen with
  | some seen => ageLimit maxAge < now.nanos - seen.nanos
  | none => true

/-- `Directory::prune_stale`. -/
def pruneStale (s : DirectoryState) (maxAge : ℕ) (now : DateTime) (written : Bool) :
    DirectoryState :=
  let stale := (s.nodes.filter fun _ entry => isStale maxAge now entry).keys
  let kept := { s with nodes := s.nodes.filter fun _ entry => !isStale maxAge now entry }
  if stale = [] then kept
  else
    { kept with
      providers := (s.providers.map fun _ ids => ids \ stale.toFinset).filter
        fun _ ids => ids ≠ ∅ }.persist written

/-- `Directory::announce_blocks`: malformed hashes are dropped. -/
def announceBlocks (s : DirectoryState) (announce : BlockAnnounce) : Result DirectoryState := do
  announce.verify
  rejectIf (announce.nodeId ∉ s.nodes) (.network s!"unknown node {announce.nodeId}")
  return { s with
    providers := (announce.blocks.filter isValidHash).foldl (fun providers hash =>
      providers.insert hash (insert announce.nodeId (providers[hash]?.getD ∅))) s.providers }

/-- `Directory::mark`: the outcome of a health check. The count of failures wraps, as in a release
build. -/
def mark (s : DirectoryState) (nodeId : String) (ok : Bool) (latencyMs : Option UInt64)
    (now : DateTime) : DirectoryState :=
  match s.nodes[nodeId]? with
  | none => s
  | some entry =>
    let failures := entry.consecutiveFailures + 1
    let marked :=
      if ok then
        { entry with
          consecutiveFailures := 0, status := .online, latencyMs
          lastSeen := Externals.toRfc3339 now }
      else
        { entry with
          consecutiveFailures := failures
          status := if failures = 1 ∨ failures = 2 then .degraded else .offline }
    { s with nodes := s.nodes.insert nodeId marked }

/-- `Directory::list`, in some order. -/
def list (s : DirectoryState) (role : Option NodeRole) (onlyHealthy : Bool) : List TrackedNode :=
  (Rows.values s.nodes).filter fun n =>
    role.all (· ∈ n.registration.roles) ∧ (onlyHealthy = true → n.status ≠ .offline)

/-- What a latency counts as when nodes are sorted: one that was never measured is last. -/
def latencyRank (n : TrackedNode) : UInt64 := n.latencyMs.getD (-1)

/-- `Directory::healthy`: online nodes before degraded ones, and each by latency. -/
def healthy (s : DirectoryState) (role : NodeRole) : List TrackedNode :=
  let rank (n : TrackedNode) : ℕ := if n.status = .online then 0 else 1
  (s.list (some role) true).mergeSort fun a b =>
    rank a < rank b ∨ rank a = rank b ∧ latencyRank a ≤ latencyRank b

/-- `Directory::providers_for_block`. -/
def providersForBlock (s : DirectoryState) (hash : String) (role : Option NodeRole) :
    List TrackedNode :=
  let ids := s.providers[hash]?.getD ∅
  let found := (ids.sort.filterMap fun id => s.nodes[id]?).filter fun n =>
    n.status ≠ .offline ∧ role.all (· ∈ n.registration.roles)
  found.mergeSort fun a b => latencyRank a ≤ latencyRank b

end DirectoryState

/-- Something that happens to a directory. -/
inductive DirectoryOp where
  | restart
  | register (reg : NodeRegistration) (now : DateTime) (written : Bool)
  | announceBlocks (announce : BlockAnnounce)
  | mark (nodeId : String) (ok : Bool) (latencyMs : Option UInt64) (now : DateTime)
  | pruneStale (maxAge : ℕ) (now : DateTime) (written : Bool)

/-- The directory after an operation; one that fails leaves it alone. -/
def DirectoryState.step [Externals] [SerdeDirectory] (rootPublicKey : Option String)
    (s : DirectoryState) : DirectoryOp → DirectoryState
  | .restart => .withPersistence s.snapshot
  | .register reg now written => (s.register rootPublicKey reg now written).toOption.getD s
  | .announceBlocks announce => (s.announceBlocks announce).toOption.getD s
  | .mark nodeId ok latencyMs now => s.mark nodeId ok latencyMs now
  | .pruneStale maxAge now written => s.pruneStale maxAge now written

end Federate
