import Federate.Library.Tasks
import Federate.Resolution.Resolver

/-!
# Refreshes that overlap

A daemon refreshes the root zone on a timer while its requests ask for the root zone. Every such
call is a task over one resolver state: it stops before each access to the pinned key, to the
zone in memory and to the files, and other tasks run in between.
-/

namespace Federate

open Stateful Resolver

/-- Why the cache file is read. -/
inductive CacheUse where
  /-- `last_verified_zone`: to compare a fetched zone with. -/
  | known (fetched : RootZone)
  /-- The fetched zone was rejected with this error. -/
  | instead (e : FederateError)
  /-- Nothing was fetched. -/
  | offline

/-- Which zone `verify_zone` checks. -/
inductive Aim where
  | fetched
  | cached (use : CacheUse)

/-- Where a call of `root` or `refresh_root` stands: before its next access. -/
inductive Refresh where
  /-- `root`: before the zone in memory is read. -/
  | asking
  /-- Before `fetch_root_network`. -/
  | fetching
  /-- `verify_zone`: before the pinned key is read. -/
  | verifying (aim : Aim) (zone : RootZone)
  /-- `verify_zone`: before the key of a self-consistent zone is written to its file. -/
  | persisting (aim : Aim) (zone : RootZone)
  /-- `verify_zone`: before that key is pinned. -/
  | pinning (aim : Aim) (zone : RootZone)
  /-- `last_verified_zone`: before the zone in memory is read. -/
  | looking (fetched : RootZone)
  /-- Before the cache file is read. -/
  | loading (use : CacheUse)
  /-- Before the cache file is written. -/
  | storing (zone : RootZone)
  /-- Before the zone in memory is replaced. -/
  | holding (zone : RootZone)
  | done (res : Result RootZone)

namespace Refresh

/-- A fetched zone against the last verified one. -/
def compare (zone known : RootZone) : Refresh :=
  if zone.rootVersion < known.rootVersion then holding known else storing zone

/-- How the call goes on after `verify_zone`. -/
def decided (zone : RootZone) : Aim → Result Unit → Refresh
  | .fetched, .ok () => looking zone
  | .fetched, .error e => loading (.instead e)
  | .cached (.known fetched), .ok () => compare fetched zone
  | .cached (.known fetched), .error _ => storing fetched
  | .cached (.instead _), .ok () => holding zone
  | .cached (.instead e), .error _ => done (.error e)
  | .cached .offline, .ok () => holding zone
  | .cached .offline, .error e => done (.error e)

/-- How the call goes on when the cache file cannot be read. -/
def unread : CacheUse → Refresh
  | .known fetched => storing fetched
  | .instead e => done (.error e)
  | .offline => done (.error .rootUnavailable)

variable [Externals] [SerdeDocuments] [ResolverExternals]

/-- One access, answered by the environment, up to the next. -/
def step (r : Resolver) (env : Environment) (task : Refresh) (s : ResolverState) :
    ResolverState × Refresh :=
  match task with
  | asking =>
    match s.root with
    | some zone => (s, done (.ok zone))
    | none => (s, fetching)
  | fetching =>
    match exec (r.fetchRootNetwork env) s with
    | (.ok zone, s') => (s', verifying .fetched zone)
    | (.error _, s') => (s', loading .offline)
  | verifying aim zone =>
    match s.trustedRootKey with
    | some key => (s, decided zone aim (zone.verify key))
    | none =>
      match zone.verify zone.rootPublicKey with
      | .ok () => (s, persisting aim zone)
      | .error e => (s, decided zone aim (.error e))
  | persisting aim zone =>
    match exec (env.overwriteFile
      (fun part d => { d with trustedRootKey := some (String.ofList part) })
      zone.rootPublicKey.toList) s with
    | (.ok (), s') => (s', pinning aim zone)
    | (.error e, s') => (s', decided zone aim (.error e))
  | pinning aim zone =>
    ({ s with trustedRootKey := some zone.rootPublicKey }, decided zone aim (.ok ()))
  | looking fetched =>
    match s.root with
    | some known => (s, compare fetched known)
    | none => (s, loading (.known fetched))
  | loading use =>
    match exec rootCacheLoad s with
    | (.ok zone, s') => (s', verifying (.cached use) zone)
    | (.error _, s') => (s', unread use)
  | storing zone =>
    match exec (rootCacheStore env zone) s with
    | (.ok (), s') => (s', holding zone)
    | (.error e, s') => (s', done (.error e))
  | holding zone => ({ s with root := some zone }, done (.ok zone))
  | done res => (s, done res)

end Refresh

/-- Another program changes the files. -/
def ResolverState.files (disk : ResolverDisk) (s : ResolverState) : ResolverState :=
  { s with disk }

variable [Externals] [SerdeDocuments] [ResolverExternals]

/-- Overlapping refreshes: a turn begins a call, lets one go on, or changes the files. -/
def Resolver.overlap (r : Resolver) :
    Tasks ResolverState Refresh → Tasks.Turn Refresh Environment ResolverDisk →
      Tasks ResolverState Refresh :=
  Tasks.turn (Refresh.step r) ResolverState.files

end Federate
