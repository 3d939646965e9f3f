import Federate.Directory.Table

/-!
# Concurrent calls on a directory

The table of nodes and the lists of providers each have a lock. A registration takes the first one
once. An announcement takes the first to look its node up, and later the second to insert. Pruning
takes the first and, if it drops a node, keeps it until it has scrubbed the lists under the second.
The calls run in any order of their acquisitions that the locks admit.
-/

namespace Federate

open Outcome

namespace DirectoryState

variable [Externals]

/-- The ids of the stale nodes. -/
def staleIds (s : DirectoryState) (maxAge : ℕ) (now : DateTime) : List String :=
  (s.nodes.filter fun _ entry => isStale maxAge now entry).keys

/-- `Directory::prune_stale` under the first lock. -/
def dropStale (s : DirectoryState) (maxAge : ℕ) (now : DateTime) : DirectoryState :=
  { s with nodes := s.nodes.filter fun _ entry => !isStale maxAge now entry }

/-- `Directory::prune_stale` under both locks. -/
def scrub (s : DirectoryState) (stale : List String) (written : Bool) : DirectoryState :=
  { s with
    providers := (s.providers.map fun _ ids => ids \ stale.toFinset).filter
      fun _ ids => ids ≠ ∅ }.persist written

/-- `Directory::announce_blocks` under the first lock. -/
def checkAnnounce (s : DirectoryState) (announce : BlockAnnounce) : Result Unit := do
  announce.verify
  rejectIf (announce.nodeId ∉ s.nodes) (.network s!"unknown node {announce.nodeId}")

omit [Externals] in
/-- `Directory::announce_blocks` under the second lock. -/
def insertBlocks (s : DirectoryState) (announce : BlockAnnounce) : DirectoryState :=
  { s with
    providers := (announce.blocks.filter isValidHash).foldl (fun providers hash =>
      providers.insert hash (insert announce.nodeId (providers[hash]?.getD ∅))) s.providers }

/-- Pruning that nothing comes between. -/
theorem pruneStale_eq (s : DirectoryState) (maxAge : ℕ) (now : DateTime) (written : Bool) :
    s.pruneStale maxAge now written =
      if s.staleIds maxAge now = [] then s.dropStale maxAge now
      else (s.dropStale maxAge now).scrub (s.staleIds maxAge now) written := rfl

/-- An announcement that nothing comes between. -/
theorem announceBlocks_eq (s : DirectoryState) (announce : BlockAnnounce) :
    s.announceBlocks announce = (do s.checkAnnounce announce; return s.insertBlocks announce) := by
  simp only [announceBlocks, checkAnnounce, bind_assoc]
  rfl

end DirectoryState

/-- A directory with the calls in progress. -/
structure SharedDirectory where
  /-- The directory. -/
  directory : DirectoryState
  /-- The announcements whose node was looked up and that are not inserted. -/
  announcing : List BlockAnnounce
  /-- The ids of the nodes that were dropped, when pruning keeps the first lock. -/
  pruning : Option (List String)

/-- An acquisition of a lock, for a call with this clock. -/
inductive Acquisition where
  /-- `Directory::register`. -/
  | register (reg : NodeRegistration) (now : DateTime) (written : Bool)
  /-- `Directory::announce_blocks`, the first. -/
  | check (announce : BlockAnnounce)
  /-- `Directory::announce_blocks`, the second, of the announcement at this place. -/
  | insert (i : ℕ)
  /-- `Directory::prune_stale`, the first. -/
  | drop (maxAge : ℕ) (now : DateTime)
  /-- `Directory::prune_stale`, the second. -/
  | scrub (written : Bool)

namespace SharedDirectory

/-- A directory without calls. -/
def ofDirectory (directory : DirectoryState) : SharedDirectory := ⟨directory, [], none⟩

/-- No call is in progress. -/
def Quiet (s : SharedDirectory) : Prop := s.announcing = [] ∧ s.pruning = none

/-- The directory after an acquisition; one that a lock does not admit waits. -/
def step [Externals] (rootPublicKey : Option String) (s : SharedDirectory) :
    Acquisition → SharedDirectory
  | .register reg now written =>
    if s.pruning.isSome then s
    else
      { s with
        directory := (s.directory.register rootPublicKey reg now written).toOption.getD s.directory }
  | .check announce =>
    if s.pruning.isNone ∧ s.directory.checkAnnounce announce = .ok () then
      { s with announcing := s.announcing ++ [announce] }
    else s
  | .insert i =>
    match s.announcing[i]? with
    | some announce =>
      { s with
        directory := s.directory.insertBlocks announce
        announcing := s.announcing.eraseIdx i }
    | none => s
  | .drop maxAge now =>
    if s.pruning.isSome then s
    else
      let stale := s.directory.staleIds maxAge now
      { s with
        directory := s.directory.dropStale maxAge now
        pruning := if stale = [] then none else some stale }
  | .scrub written =>
    match s.pruning with
    | some stale => { s with directory := s.directory.scrub stale written, pruning := none }
    | none => s

end SharedDirectory

end Federate
