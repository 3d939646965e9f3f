import Federate.Deployment
import Federate.Verif.History
import Federate.Verif.Refresh
import Federate.Verif.Revocation
import Federate.Verif.Visit

/-!
# What a resolver knows of Node 1

A resolver that has the root key and reads the root zone from Node 1, or fails to, only ever holds
and stores zones that Node 1 published; a refresh that gets through brings the current one; and a
name that Node 1 takes down is not served once the resolver has refreshed.
-/

namespace Federate

open Outcome Stateful Resolver

/-! ## Calls -/

section Calls

variable [Externals] [SerdeDocuments] [ResolverExternals] {r : Resolver} {env : Environment}
  {R : ResolverState → ResolverState → Prop}

/-- What `root` and `refresh_root` keep, every call keeps, when it allows any change that leaves
the root zone alone. -/
theorem ResolverCall.after_keeps [Std.Refl R] [IsTrans ResolverState R]
    (others : ∀ s s', KeepsRoot s s' → R s s') (root : Keeps R (r.root env))
    (refresh : Keeps R (r.refreshRoot env)) (call : ResolverCall) (s : ResolverState) :
    R s (call.after r env s) := by
  have absorbs : ∀ s s₁ s', R s s₁ → KeepsRoot s₁ s' → R s s' :=
    fun s s₁ s' first later => IsTrans.trans s s₁ s' first (others s₁ s' later)
  have domain (host : String) : Keeps R (r.resolveDomain env host) := by
    refine .afterLift _ fun domain => root.followed (fun zone => ?_) absorbs
    have clock : Keeps KeepsRoot env.now := (keeps_ask _).mono fun _ _ => OnlyTicks.keepsRoot
    exact (keeps_lift _).bind fun tldRec => clock.bind fun now => (keeps_lift _).bind fun _ =>
      (keeps_locateRecord env r zone tldRec _).bind fun record => (keeps_lift _).bind fun _ =>
        (keeps_lift _).bind fun _ => clock.bind fun now => (keeps_lift _).bind fun _ =>
          keeps_pure _
  cases call with
  | refreshRoot => exact refresh s
  | root => exact root s
  | manifestBytes hash => exact others _ _ (keeps_manifestBytes env r hash s)
  | tldRegistry tldRec => exact others _ _ (keeps_tldRegistry env r tldRec s)
  | tldRegistryByName tld =>
    exact root.followed (fun zone => (keeps_lift _).bind fun tldRec =>
      keeps_tldRegistry env r tldRec) absorbs s
  | fetchAndCacheBlock hash => exact others _ _ (keeps_blockTraced env r hash s)
  | resolveDomain host => exact domain host s
  | siteFiles host =>
    exact (domain host).followed (fun record => (keeps_manifest env r _).bind
      fun m => (keeps_lift _).bind fun _ => keeps_pure _) absorbs s
  | resolve host path =>
    have whole : Keeps R (r.resolve env host path) := by
      unfold Resolver.resolve
      split
      · exact keeps_pure _
      · refine root.attempt.followed (fun outcome => ?_) absorbs
        split
        · exact keeps_pure _
        · exact keeps_throw _
        · exact keeps_resolveIn r env _ path _
    exact whole s

/-- What a refresh leaves. -/
theorem ResolverCall.after_refreshRoot (s : ResolverState) :
    ResolverCall.refreshRoot.after r env s = (exec (r.refreshRoot env) s).2 := rfl

/-- Where only the zone of Node 1 arrives, only that zone is fetched. -/
theorem Origin.Reports.fetched {s : RegistryStore} (reports : Origin.Reports s r env)
    (reads : SerdeDocuments.rootZone (Externals.toVec s.zone.toJson) = .ok s.zone)
    {v v' : ResolverState} {z : RootZone}
    (ran : exec (r.fetchRootNetwork env) v = (.ok z, v')) : z = s.zone := by
  have same : ∀ bytes : Bytes, bytes = Externals.toVec s.zone.toJson →
      SerdeDocuments.rootZone bytes = .ok z → z = s.zone := by
    intro bytes whole read
    rw [whole, reads] at read
    exact (Except.ok.inj read).symm
  cases (fetchRootNetwork_arrives env r v v' z ran).1 with
  | native provider answered read => exact same _ (reports.native _ _ _ provider answered) read
  | http answered whole read => exact same _ (reports.http _ _ _ answered whole) read

end Calls

/-! ## A resolver that follows -/

section Following

variable [Externals] [SerdeDocuments] [ResolverExternals] {key : String}
  {published : RootZone → Prop} {r : Resolver} {env : Environment} {v v' : ResolverState}
  {current : RootZone}

/-- The resolver has the root key, and knows none but published zones. -/
structure Follows (key : String) (published : RootZone → Prop) (v : ResolverState) : Prop where
  /-- It has the root key. -/
  pinned : v.trustedRootKey = some key
  /-- The zone in memory was published. -/
  memory : ∀ z, v.root = some z → published z
  /-- So was the one in the cache file. -/
  file : ∀ z, Cached v.disk z → published z

/-- The newest of the published zones; its text reads as nothing else. -/
structure Newest (key : String) (published : RootZone → Prop) (z : RootZone) : Prop where
  /-- It was published. -/
  member : published z
  /-- It verifies. -/
  verifies : z.verify key = .ok ()
  /-- No other is newer. -/
  newest : ∀ other, published other → other.rootVersion ≤ z.rootVersion
  /-- A cache file with it holds it. -/
  text : ∀ other, SerdeDocuments.rootZone (Externals.toVecPretty z.toJson) = .ok other → other = z

omit [Externals] [ResolverExternals] in
/-- More zones are published. -/
theorem Follows.mono {more : RootZone → Prop} (follows : Follows key published v)
    (published' : ∀ z, published z → more z) : Follows key more v :=
  ⟨follows.pinned, fun z held => published' z (follows.memory z held),
    fun z cached => published' z (follows.file z cached)⟩

omit [Externals] [ResolverExternals] in
/-- What leaves the root zone alone makes no difference. -/
theorem Follows.keeps (follows : Follows key published v) (keeps : KeepsRoot v v') :
    Follows key published v' where
  pinned := keeps.key.trans follows.pinned
  memory z held := follows.memory z (keeps.root.symm.trans held)
  file z cached := by
    obtain ⟨bytes, held, reads⟩ := cached
    exact follows.file z ⟨bytes, keeps.zoneFile.symm.trans held, reads⟩

/-- What a call of `root` or `refresh_root` leaves and returns. -/
structure FollowsOn (key : String) (published : RootZone → Prop) (v' : ResolverState)
    (res : Result RootZone) : Prop where
  /-- The resolver follows on. -/
  follows : Follows key published v'
  /-- A returned zone is held and was published. -/
  returned : ∀ z, res = .ok z → v'.root = some z

omit [Externals] [ResolverExternals] in
/-- A failure that leaves the root zone alone. -/
theorem FollowsOn.failed (follows : Follows key published v) (keeps : KeepsRoot v v')
    (e : FederateError) : FollowsOn key published v' (.error e) :=
  ⟨follows.keeps keeps, fun z found => by cases found⟩

omit [ResolverExternals] in
/-- The newest zone is accepted, unless it cannot be stored. -/
theorem Follows.acceptRoot {res : Result RootZone} (follows : Follows key published v)
    (newest : Newest key published current)
    (ran : exec (acceptRoot env current) v = (res, v')) :
    FollowsOn key published v' res ∧ ((∀ n, env.file n = .ok ()) →
      res = .ok current ∧ Follows key (fun z => z = current) v') := by
  cases asked : exec (lastVerifiedZone env) v with
  | mk found v₁ =>
    obtain ⟨same, known, rfl, isKnown⟩ := lastVerifiedZone_pinned env follows.pinned asked
    subst same
    have notNewer : ∀ z, known = some z → ¬current.rootVersion < z.rootVersion := by
      intro z held
      have had : published z := by
        cases (isKnown z).mp held with
        | inl memory => exact follows.memory z memory
        | inr file => exact follows.file z file.2.1
      exact UInt64.not_lt.mpr (newest.newest z had)
    have stores : acceptOver env current known = (do
        rootCacheStore env current
        holdRoot current
        return current) := by
      cases known with
      | none => rfl
      | some z => rw [acceptOver, if_neg (notNewer z rfl)]
    rw [exec_acceptRoot current asked, stores] at ran
    cases wrote : env.file v₁.ticks with
    | ok written =>
      rw [exec_bind_ok (exec_rootCacheStore current wrote)] at ran
      obtain ⟨rfl, rfl⟩ := Prod.mk.inj ran
      have only : Follows key (fun z => z = current) { v₁ with
          ticks := v₁.ticks + 1
          disk := { v₁.disk with rootZone := some (Externals.toVecPretty current.toJson) }
          root := some current } := by
        refine ⟨follows.pinned, fun z held => (Option.some.inj held).symm, fun z cached => ?_⟩
        obtain ⟨bytes, held, reads, -⟩ := cached
        obtain rfl : Externals.toVecPretty current.toJson = bytes := Option.some.inj held
        exact newest.text z reads
      have follows' := only.mono fun z same => same ▸ newest.member
      refine ⟨⟨follows', fun z found => ?_⟩, fun _ => ⟨rfl, only⟩⟩
      rw [← Except.ok.inj found]
    | error e =>
      have failed := exec_rootCacheStore_error current wrote
      rw [exec_bind_error failed] at ran
      obtain ⟨rfl, rfl⟩ := Prod.mk.inj ran
      have keeps : KeepsRoot v₁ { v₁ with ticks := v₁.ticks + 1 } :=
        ⟨rfl, rfl, rfl, rfl, Nat.le_succ _⟩
      refine ⟨.failed follows keeps _, fun writes => ?_⟩
      rw [writes] at wrote
      cases wrote

/-- A refresh that can only fetch the newest zone holds and returns it when it gets through, and a
published one otherwise. -/
theorem Follows.refreshRoot {res : Result RootZone} (follows : Follows key published v)
    (newest : Newest key published current)
    (fetches : ∀ z v₁, exec (r.fetchRootNetwork env) v = (.ok z, v₁) → z = current)
    (ran : exec (r.refreshRoot env) v = (res, v')) :
    FollowsOn key published v' res ∧
      ((∃ z, (exec (r.fetchRootNetwork env) v).1 = .ok z) → (∀ n, env.file n = .ok ()) →
        res = .ok current ∧ Follows key (fun z => z = current) v') := by
  have ticks := keeps_fetchRootNetwork env r v
  rw [Resolver.refreshRoot, exec_bind, exec_attempt] at ran
  cases fetched : exec (r.fetchRootNetwork env) v with
  | mk outcome v₁ =>
    rw [fetched] at ticks ran
    have keeps : KeepsRoot v v₁ := OnlyTicks.keepsRoot ticks
    have follows₁ : Follows key published v₁ := follows.keeps keeps
    cases outcome with
    | ok zone =>
      obtain rfl := fetches zone v₁ fetched
      simp only at ran
      rw [exec_bind, exec_attempt, exec_verifyZone_pinned follows₁.pinned, newest.verifies] at ran
      obtain ⟨on, stored⟩ := follows₁.acceptRoot newest ran
      exact ⟨on, fun _ => stored⟩
    | error e =>
      refine ⟨?_, fun reached => by
        obtain ⟨z, reached⟩ := reached
        cases reached⟩
      simp only [exec_bind, exec_attempt] at ran
      cases loaded : exec rootCacheLoad v₁ with
      | mk found v₂ =>
        obtain ⟨rfl, reads⟩ := rootCacheLoad_eq loaded
        rw [loaded] at ran
        cases found with
        | error e' =>
          obtain ⟨rfl, rfl⟩ := Prod.mk.inj ran
          exact .failed follows keeps _
        | ok cached =>
          simp only at ran
          have verified : exec (verifyZone env cached) v₂ = (cached.verify key, v₂) :=
            exec_verifyZone_pinned follows₁.pinned cached
          have had : published cached := follows₁.file cached ((reads cached).mp rfl)
          cases verdict : cached.verify key with
          | error e' =>
            rw [verdict] at verified
            rw [exec_bind_error verified] at ran
            obtain ⟨rfl, rfl⟩ := Prod.mk.inj ran
            exact .failed follows keeps _
          | ok passed =>
            rw [verdict] at verified
            rw [exec_bind_ok verified] at ran
            obtain ⟨rfl, rfl⟩ := Prod.mk.inj ran
            have memory : ∀ z, some cached = some z → published z := by
              intro z held
              rw [← Option.some.inj held]
              exact had
            refine ⟨⟨follows₁.pinned, memory, follows₁.file⟩, fun z found => ?_⟩
            rw [← Except.ok.inj found]

/-- So does `root`, which may find a zone in memory. -/
theorem Follows.root {res : Result RootZone} (follows : Follows key published v)
    (newest : Newest key published current)
    (fetches : ∀ z v₁, exec (r.fetchRootNetwork env) v = (.ok z, v₁) → z = current)
    (ran : exec (r.root env) v = (res, v')) : FollowsOn key published v' res := by
  rw [Resolver.root, exec_bind_ok (exec_get v)] at ran
  cases held : v.root with
  | some zone =>
    rw [held] at ran
    obtain ⟨rfl, rfl⟩ := Prod.mk.inj ran
    refine ⟨follows, fun z found => ?_⟩
    rw [← Except.ok.inj found]
    exact held
  | none =>
    rw [held] at ran
    exact (follows.refreshRoot newest fetches ran).1

/-- Every call leaves a resolver that follows. -/
theorem Follows.after (follows : Follows key published v) (newest : Newest key published current)
    (fetches : ∀ v z v₁, exec (r.fetchRootNetwork env) v = (.ok z, v₁) → z = current)
    (call : ResolverCall) : Follows key published (call.after r env v) := by
  let R : ResolverState → ResolverState → Prop :=
    fun v v' => Follows key published v → Follows key published v'
  have : Std.Refl R := ⟨fun _ follows => follows⟩
  have : IsTrans ResolverState R := ⟨fun _ _ _ first second follows => second (first follows)⟩
  have others : ∀ v v', KeepsRoot v v' → R v v' := fun v v' keeps follows => follows.keeps keeps
  have root : Keeps R (r.root env) := fun v follows =>
    (follows.root newest (fetches v) Prod.mk.eta.symm).follows
  have refresh : Keeps R (r.refreshRoot env) := fun v follows =>
    (follows.refreshRoot newest (fetches v) Prod.mk.eta.symm).1.follows
  exact ResolverCall.after_keeps others root refresh call v follows

end Following

/-! ## The whole deployment -/

section Whole

variable [Externals] [SerdeJson] {P : Value → Prop} {a : Authority} {s₀ : RegistryStore}
  {before seen : List Acceptance} {base : List RootZone} {p : Deployment}

/-- The event can happen: the registry takes it, or the resolver reads the root zone from Node 1
or not at all. -/
def Deployment.Connected (P : Value → Prop) (r : Resolver) (p : Deployment) :
    DeploymentEvent → Prop
  | .registry event => p.registry.Continues P event
  | .call env _ => Origin.Reports p.registry r env
  | .restart => True

omit [SerdeJson] in
/-- An event of the registry can happen where the registry continues with it. -/
theorem Deployment.connected_registry {s : RegistryStore} {r : Resolver} {v : ResolverState}
    {event : RegistryEvent} (continues : s.Continues P event) :
    Deployment.Connected P r ⟨s, v⟩ (.registry event) := continues

omit [SerdeJson] in
/-- A call can happen where Node 1 is reported. -/
theorem Deployment.connected_call {s : RegistryStore} {r : Resolver} {v : ResolverState}
    {env : Environment} (reports : Origin.Reports s r env) (call : ResolverCall) :
    Deployment.Connected P r ⟨s, v⟩ (.call env call) := reports

omit [SerdeJson] in
/-- The zone of a registry is the newest of its history. -/
theorem History.newest {s : RegistryStore} {entries : List Acceptance}
    (history : History a s₀ s entries) :
    ∀ z ∈ s₀.zone :: entries.map Acceptance.zone, z.rootVersion ≤ s.zone.rootVersion := by
  obtain ⟨earlier, whole⟩ := history.zone
  have rising := history.versions
  rw [whole] at rising ⊢
  intro z member
  cases List.mem_append.mp member with
  | inl first =>
    have below := (List.pairwise_append.mp rising).2.2 z first s.zone (List.mem_singleton.mpr rfl)
    exact UInt64.le_of_lt below
  | inr last =>
    rw [List.mem_singleton.mp last]
    exact UInt64.le_refl _

/-- What is known of a deployment since some zones were published. -/
structure Tracked (P : Value → Prop) (a : Authority) (s₀ : RegistryStore) (before : List Acceptance)
    (base : List RootZone) (seen : List Acceptance) (p : Deployment) : Prop where
  /-- The registry is alive and holds its history. -/
  registry : ∃ core nonces, p.registry = core.withNonces nonces ∧ a.Alive P s₀ core ∧
    History a s₀ core (before ++ seen)
  /-- Its zone was published since. -/
  current : p.registry.zone ∈ base ++ seen.map Acceptance.zone
  /-- The zones to begin with were published before. -/
  earlier : ∀ z ∈ base, z ∈ s₀.zone :: before.map Acceptance.zone
  /-- The resolver knows no other zones. -/
  resolver : Follows a.root.nodeId (fun z => z ∈ base ++ seen.map Acceptance.zone) p.resolver

/-- The zone of the registry is the newest, and is read as it was written. -/
theorem Tracked.newest (reads : ReadsBack P)
    (stored : ∀ z : RootZone, z.Values P → z.ReadsBack)
    (genesis : a.Genesis s₀) (tracked : Tracked P a s₀ before base seen p) :
    SerdeDocuments.rootZone (Externals.toVec p.registry.zone.toJson) = .ok p.registry.zone ∧
      Newest a.root.nodeId (fun z => z ∈ base ++ seen.map Acceptance.zone) p.registry.zone := by
  obtain ⟨core, nonces, same, ⟨⟨ops, ran⟩, restorable⟩, history⟩ := tracked.registry
  have zone : p.registry.zone = core.zone := by rw [same]; rfl
  have current := tracked.current
  rw [zone] at current ⊢
  have reachable : a.Reachable core := ⟨s₀, ops, genesis, ran⟩
  have read := reads.rootZone core.zone restorable.zoneValues
  refine ⟨read, current, reachable.verified.2.2, fun z member => history.newest z ?_, ?_⟩
  · rw [List.map_append, ← List.cons_append]
    cases List.mem_append.mp member with
    | inl first => exact List.mem_append_left _ (tracked.earlier z first)
    | inr later => exact List.mem_append_right _ later
  · intro other found
    have back : SerdeDocuments.rootZone (Externals.toVecPretty core.zone.toJson) = .ok core.zone :=
      stored core.zone restorable.zoneValues
    rw [back] at found
    exact (Except.ok.inj found).symm

variable [ResolverExternals] {r : Resolver}

/-- A call leaves the registry alone. -/
theorem Deployment.step_call (s : RegistryStore) (v : ResolverState) (env : Environment)
    (call : ResolverCall) : Deployment.step a r ⟨s, v⟩ (.call env call) = ⟨s, call.after r env v⟩ :=
  rfl

/-- So does a restart of the resolver. -/
theorem Deployment.step_restart (s : RegistryStore) (v : ResolverState) :
    Deployment.step a r ⟨s, v⟩ .restart = ⟨s, .new (some a.root.nodeId) v.disk v.ticks⟩ := rfl

/-- An event of the registry leaves the resolver alone. -/
theorem Deployment.step_registry (s : RegistryStore) (v : ResolverState) (event : RegistryEvent) :
    Deployment.step a r ⟨s, v⟩ (.registry event) = ⟨a.live s event, v⟩ := rfl

/-- Events of the registry are a life of it, and leave the resolver alone. -/
theorem Deployment.run_registry (events : List RegistryEvent) (p : Deployment) :
    Transition.run (Deployment.step a r) p (events.map .registry) =
      { p with registry := Transition.run a.live p.registry events } := by
  induction events generalizing p with
  | nil => rfl
  | cons event events ih =>
    rw [List.map_cons, Transition.run_cons, Transition.run_cons, ih]
    rfl

/-- They can happen when the registry continues with each of them. -/
theorem Deployment.guarded_registry {events : List RegistryEvent} {p : Deployment}
    (lives : Transition.Guarded a.live (RegistryStore.Continues P) p.registry events) :
    Transition.Guarded (Deployment.step a r) (Deployment.Connected P r) p
      (events.map .registry) := by
  induction events generalizing p with
  | nil => trivial
  | cons event events ih => exact ⟨lives.1, ih lives.2⟩

/-- An event keeps track. -/
theorem Tracked.step (signs : SignaturesVerify) (reads : ReadsBack P)
    (stored : ∀ z : RootZone, z.Values P → z.ReadsBack)
    (genesis : a.Genesis s₀) (tracked : Tracked P a s₀ before base seen p) (event : DeploymentEvent)
    (connected : Deployment.Connected P r p event) :
    Tracked P a s₀ before base (seen ++ (Deployment.acceptance a p event).toList)
      (Deployment.step a r p event) := by
  cases event with
  | registry event =>
    obtain ⟨core, nonces, same, alive, history⟩ := tracked.registry
    obtain ⟨takes, room⟩ := connected
    rw [same] at takes room
    obtain ⟨core', nonces', effect, led, alive'⟩ := alive.step signs reads genesis nonces takes
    have history' := effect.history signs history room
    have live : a.live p.registry event = core'.withNonces nonces' := by rw [same, led]
    have accepted : Deployment.acceptance a p (.registry event) =
        a.acceptance (core.withNonces nonces) event := by rw [← same]; rfl
    rw [accepted]
    rw [List.append_assoc] at history'
    refine ⟨⟨core', nonces', live, alive', history'⟩, ?_, tracked.earlier, ?_⟩
    · have zone : (Deployment.step a r p (.registry event)).registry.zone = core'.zone := by
        show (a.live p.registry event).zone = core'.zone
        rw [live]
        rfl
      rw [zone]
      cases outcome : a.acceptance (core.withNonces nonces) event with
      | none =>
        rw [outcome] at history'
        obtain ⟨others, last⟩ := history.zone
        obtain ⟨others', last'⟩ := history'.zone
        rw [Option.toList_none, List.append_nil, last] at last'
        have unchanged : core.zone = core'.zone :=
          List.singleton_inj.mp (List.append_inj_right' last' rfl)
        rw [Option.toList_none, List.append_nil, ← unchanged]
        have current := tracked.current
        rw [same] at current
        exact current
      | some entry =>
        rw [outcome] at history'
        obtain ⟨others', last'⟩ := history'.zone
        rw [Option.toList_some, List.map_append, List.map_append, List.map_singleton,
          ← List.append_assoc, ← List.cons_append] at last'
        have latest : entry.zone = core'.zone :=
          List.singleton_inj.mp (List.append_inj_right' last' rfl)
        rw [Option.toList_some, List.map_append, List.map_singleton, latest, ← List.append_assoc]
        exact List.mem_append_right _ (List.mem_singleton.mpr rfl)
    · refine tracked.resolver.mono fun z member => ?_
      rw [List.map_append, ← List.append_assoc]
      exact List.mem_append_left _ member
  | call env call =>
    obtain ⟨read, newest⟩ := tracked.newest reads stored genesis
    have reports : Origin.Reports p.registry r env := connected
    have none' : Deployment.acceptance a p (.call env call) = none := rfl
    rw [none', Option.toList_none, List.append_nil]
    refine ⟨tracked.registry, tracked.current, tracked.earlier, ?_⟩
    exact tracked.resolver.after newest (fun v z v₁ ran => reports.fetched read ran) call
  | restart =>
    have none' : Deployment.acceptance a p .restart = none := rfl
    rw [none', Option.toList_none, List.append_nil]
    refine ⟨tracked.registry, tracked.current, tracked.earlier, ?_, ?_, tracked.resolver.file⟩
    · obtain ⟨-, newest⟩ := tracked.newest reads stored genesis
      have filled := (RootZone.verify_key newest.verifies).2
      exact ResolverState.new_configured _ (fun empty => filled (Option.some.inj empty)) rfl
    · exact fun z held => by cases held

/-- What a resolver knows of a registry that has published some zones, the oldest first. -/
structure Synchronized (a : Authority) (r : Resolver) (published : List RootZone)
    (p : Deployment) : Prop where
  /-- Its zones, in memory and on disk, were published. -/
  follows : Follows a.root.nodeId (fun z => z ∈ published) p.resolver
  /-- So was every zone that a call returns next. -/
  returned : ∀ (env : Environment) (z : RootZone) (v' : ResolverState),
    Origin.Reports p.registry r env → (exec (r.refreshRoot env) p.resolver = (.ok z, v') ∨
      exec (r.root env) p.resolver = (.ok z, v')) → z ∈ published
  /-- A refresh that gets through brings the current zone. -/
  current : ∀ env : Environment, Origin.Reports p.registry r env → (∀ n, env.file n = .ok ()) →
    (∃ z, (exec (r.fetchRootNetwork env) p.resolver).1 = .ok z) →
      ∃ v', exec (r.refreshRoot env) p.resolver = (.ok p.registry.zone, v') ∧
        v'.root = some p.registry.zone
  /-- The published zones rise, and the current one is the last. -/
  rising : published.Pairwise (fun z z' => z.rootVersion < z'.rootVersion) ∧
    published.getLast? = some p.registry.zone

omit [ResolverExternals] in
/-- A new registry and a new resolver with its root key are tracked from the first zone on. -/
theorem tracked_initial {path : String} {now : DateTime} {io : StorageIo}
    (returned : initEmptyRegistry (RegistryDir.fresh path) a.root now io = .ok s₀) :
    Tracked P a s₀ [] [s₀.zone] [] ⟨s₀, .new (some a.root.nodeId) .fresh 0⟩ where
  registry := ⟨s₀, s₀.database.nonces, rfl, ⟨⟨[], rfl⟩, restorable_initial returned⟩,
    history_initial returned⟩
  current := List.mem_singleton.mpr rfl
  earlier _ member := member
  resolver := by
    have genesis : a.Genesis s₀ := ⟨_, _, _, returned⟩
    have reachable : a.Reachable s₀ := ⟨s₀, [], genesis, rfl⟩
    have filled := (RootZone.verify_key reachable.verified.2.2).2
    have present : some a.root.nodeId ≠ some "" := fun empty => filled (Option.some.inj empty)
    have pinned : (ResolverState.new (some a.root.nodeId) .fresh 0).trustedRootKey =
        some a.root.nodeId := ResolverState.new_configured 0 present rfl
    refine ⟨pinned, fun z held => ?_, fun z cached => ?_⟩
    · cases held
    · obtain ⟨bytes, held, -⟩ := cached
      cases held

/-- In every life of Node 1 and of a resolver that has its root key, in any order and with any
restarts, the resolver holds, stores and returns only zones that Node 1 published, and every
refresh that gets through brings the current one. -/
theorem deployment_synchronized (signs : SignaturesVerify) (reads : ReadsBack P)
    (stored : ∀ z : RootZone, z.Values P → z.ReadsBack) {path : String} {now : DateTime}
    {io : StorageIo}
    (returned : initEmptyRegistry (RegistryDir.fresh path) a.root now io = .ok s₀)
    {events : List DeploymentEvent}
    (lives : Transition.Guarded (Deployment.step a r) (Deployment.Connected P r)
      ⟨s₀, .new (some a.root.nodeId) .fresh 0⟩ events) :
    Synchronized a r (s₀.zone :: (Transition.observations (Deployment.step a r)
        (Deployment.acceptance a) ⟨s₀, .new (some a.root.nodeId) .fresh 0⟩ events).map
          Acceptance.zone)
      (Transition.run (Deployment.step a r) ⟨s₀, .new (some a.root.nodeId) .fresh 0⟩ events) := by
  have genesis : a.Genesis s₀ := ⟨_, _, _, returned⟩
  have kept : ∀ (seen : List Acceptance) (p : Deployment) (event : DeploymentEvent),
      Tracked P a s₀ [] [s₀.zone] seen p → Deployment.Connected P r p event →
        Tracked P a s₀ [] [s₀.zone] (seen ++ (Deployment.acceptance a p event).toList)
          (Deployment.step a r p event) :=
    fun seen p event tracked connected => tracked.step signs reads stored genesis event connected
  have tracked := Transition.invariant_observed kept (tracked_initial returned) lives
  rw [List.nil_append] at tracked
  generalize Transition.observations (Deployment.step a r) (Deployment.acceptance a)
    ⟨s₀, .new (some a.root.nodeId) .fresh 0⟩ events = seen at tracked ⊢
  generalize Transition.run (Deployment.step a r) ⟨s₀, .new (some a.root.nodeId) .fresh 0⟩
    events = p at tracked ⊢
  obtain ⟨read, newest⟩ := tracked.newest reads stored genesis
  refine ⟨tracked.resolver, fun env z v' reports ran => ?_,
    fun env reports writes reached => ?_, ?_⟩
  · have fetches : ∀ z v₁, exec (r.fetchRootNetwork env) p.resolver = (.ok z, v₁) →
        z = p.registry.zone := fun z v₁ ran => reports.fetched read ran
    have on : FollowsOn a.root.nodeId (fun z => z ∈ [s₀.zone] ++ seen.map Acceptance.zone) v'
        (.ok z) := by
      cases ran with
      | inl refreshed => exact (tracked.resolver.refreshRoot newest fetches refreshed).1
      | inr asked => exact tracked.resolver.root newest fetches asked
    exact on.follows.memory z (on.returned z rfl)
  · have fetches : ∀ z v₁, exec (r.fetchRootNetwork env) p.resolver = (.ok z, v₁) →
        z = p.registry.zone := fun z v₁ ran => reports.fetched read ran
    obtain ⟨on, gets⟩ := tracked.resolver.refreshRoot newest fetches Prod.mk.eta.symm
    have got := (gets reached writes).1
    exact ⟨_, Prod.ext got rfl, on.returned _ got⟩
  · obtain ⟨core, nonces, same, -, history⟩ := tracked.registry
    obtain ⟨others, last⟩ := history.zone
    refine ⟨history.versions, ?_⟩
    have zone : p.registry.zone = core.zone := by rw [same]; rfl
    rw [List.nil_append] at last
    rw [last, zone, List.getLast?_append, List.getLast?_singleton, Option.some_or]

/-- The zone does not let the name be served: its TLD is absent or out of force, or root-managed
without a record of the name that is in force. -/
def RootZone.Refuses (z : RootZone) (d : FederateDomain) : Prop :=
  ∀ tldRec, z.tlds[d.tld]? = some tldRec → tldRec.status.isResolvable = true →
    tldRec.registryType = .rootManaged ∧
      ∀ record, z.domains[d.fqdn]? = some record → record.status.isResolvable = false

omit [SerdeJson] in
/-- Below a zone that refuses the name, nothing is served. -/
theorem RootZone.Refuses.unserved [SerdeDocuments] {d : FederateDomain} {zone : RootZone}
    (refuses : zone.Refuses d) {key path : String} {env : Environment} {v v' : ResolverState}
    (pinned : v.trustedRootKey = some key) (trusted : zone.verify key = .ok ())
    {name path' mime hash : String} {bytes : Bytes} :
    exec (r.resolveIn env d path zone) v ≠ (.ok (.content name path' bytes mime hash), v') := by
  intro ran
  obtain ⟨-, tldRec, record, chain, -⟩ := resolveIn_content pinned trusted ran
  obtain ⟨managed, outOfForce⟩ := refuses tldRec chain.tldHeld chain.tldResolvable
  cases chain.recordHeld with
  | inl held =>
    have resolvable := chain.recordResolvable
    rw [outOfForce record held.2] at resolvable
    cases resolvable
  | inr delegated => exact delegated.1 managed

omit [ResolverExternals] in
/-- Every zone that was published verifies. -/
theorem Tracked.verifies (genesis : a.Genesis s₀) (tracked : Tracked P a s₀ before base seen p) :
    ∀ z ∈ base ++ seen.map Acceptance.zone, z.verify a.root.nodeId = .ok () := by
  obtain ⟨core, nonces, -, -, history⟩ := tracked.registry
  have entries : ∀ entry ∈ before ++ seen, entry.zone.verify a.root.nodeId = .ok () :=
    fun entry member => (history.recorded entry member).zone
  have first : s₀.zone.verify a.root.nodeId = .ok () := by
    have reachable : a.Reachable s₀ := ⟨s₀, [], genesis, rfl⟩
    exact reachable.verified.2.2
  intro z member
  cases List.mem_append.mp member with
  | inl known =>
    cases List.mem_cons.mp (tracked.earlier z known) with
    | inl same => exact same ▸ first
    | inr accepted =>
      obtain ⟨entry, listed, same⟩ := List.mem_map.mp accepted
      exact same ▸ entries entry (List.mem_append_left _ listed)
  | inr accepted =>
    obtain ⟨entry, listed, same⟩ := List.mem_map.mp accepted
    exact same ▸ entries entry (List.mem_append_right _ listed)

/-- A resolver that knows only zones that refuse a name does not serve it. -/
theorem Tracked.unserved (reads : ReadsBack P)
    (stored : ∀ z : RootZone, z.Values P → z.ReadsBack)
    (genesis : a.Genesis s₀) (tracked : Tracked P a s₀ before base seen p) {d : FederateDomain}
    (refuse : ∀ z ∈ base ++ seen.map Acceptance.zone, z.Refuses d) {env : Environment}
    {host page : String} (parses : FederateDomain.parse host = .ok d)
    (reports : Origin.Reports p.registry r env)
    {name path' mime hash : String} {bytes : Bytes} {v' : ResolverState} :
    exec (r.resolve env host page) p.resolver ≠
      (.ok (.content name path' bytes mime hash), v') := by
  intro ran
  obtain ⟨read, newest⟩ := tracked.newest reads stored genesis
  rw [Resolver.resolve, parses] at ran
  simp only at ran
  rw [exec_bind_eq_ok] at ran
  obtain ⟨outcome, v₁, tried, ran⟩ := ran
  have on := tracked.resolver.root newest (fun z v₁ ran => reports.fetched read ran)
    (exec_attempt_eq_ok.mp tried)
  split at ran
  · simp at ran
  · simp at ran
  · rename_i zone
    have known := on.follows.memory zone (on.returned zone rfl)
    exact (refuse zone known).unserved on.follows.pinned (tracked.verifies genesis zone known) ran

/-- A takedown reaches the users: once the registry refuses a name and the resolver has refreshed,
no call serves the name, in any later life in which the registry does not let it back, whatever the
caches hold and whoever else answers. -/
theorem takedown_enforced (signs : SignaturesVerify) (reads : ReadsBack P)
    (stored : ∀ z : RootZone, z.Values P → z.ReadsBack) {path : String} {now : DateTime}
    {io : StorageIo}
    (returned : initEmptyRegistry (RegistryDir.fresh path) a.root now io = .ok s₀)
    {events later : List DeploymentEvent} {env : Environment} {q : Deployment}
    (lives : Transition.Guarded (Deployment.step a r) (Deployment.Connected P r)
      ⟨s₀, .new (some a.root.nodeId) .fresh 0⟩ (events ++ .call env .refreshRoot :: later))
    (reached : Transition.run (Deployment.step a r) ⟨s₀, .new (some a.root.nodeId) .fresh 0⟩
      events = q)
    (fetched : ∃ z, (exec (r.fetchRootNetwork env) q.resolver).1 = .ok z)
    (writes : ∀ n, env.file n = .ok ()) {d : FederateDomain}
    (refused : q.registry.zone.Refuses d)
    (stays : ∀ entry ∈ Transition.observations (Deployment.step a r) (Deployment.acceptance a) q
      (.call env .refreshRoot :: later), entry.zone.Refuses d)
    {env' : Environment} {host page : String} (parses : FederateDomain.parse host = .ok d)
    (reports : Origin.Reports (Transition.run (Deployment.step a r) q
      (.call env .refreshRoot :: later)).registry r env')
    {name path' mime hash : String} {bytes : Bytes} {v' : ResolverState} :
    exec (r.resolve env' host page) (Transition.run (Deployment.step a r) q
      (.call env .refreshRoot :: later)).resolver ≠
        (.ok (.content name path' bytes mime hash), v') := by
  have genesis : a.Genesis s₀ := ⟨_, _, _, returned⟩
  have kept : ∀ (before : List Acceptance) (base : List RootZone) (seen : List Acceptance)
      (p : Deployment) (event : DeploymentEvent), Tracked P a s₀ before base seen p →
        Deployment.Connected P r p event →
          Tracked P a s₀ before base (seen ++ (Deployment.acceptance a p event).toList)
            (Deployment.step a r p event) :=
    fun before base seen p event tracked connected =>
      tracked.step signs reads stored genesis event connected
  obtain ⟨first, second⟩ := (Transition.guarded_append _ _ _).mp lives
  have tracked := Transition.invariant_observed (kept [] [s₀.zone]) (tracked_initial returned) first
  rw [reached] at tracked second
  rw [List.nil_append] at tracked
  obtain ⟨refreshes, third⟩ := second
  -- From the refresh on, the resolver knows the current zone and those that follow.
  obtain ⟨read, newest⟩ := tracked.newest reads stored genesis
  have asks : Origin.Reports q.registry r env := refreshes
  obtain ⟨-, gets⟩ := tracked.resolver.refreshRoot newest
    (fun z v₁ ran => asks.fetched read ran) Prod.mk.eta.symm
  have only := (gets fetched writes).2
  have since : Tracked P a s₀ (Transition.observations (Deployment.step a r)
      (Deployment.acceptance a) ⟨s₀, .new (some a.root.nodeId) .fresh 0⟩ events)
      [q.registry.zone] [] (Deployment.step a r q (.call env .refreshRoot)) := by
    refine ⟨?_, List.mem_singleton.mpr rfl, ?_, ?_⟩
    · rw [List.append_nil]
      exact tracked.registry
    · intro z member
      rw [List.mem_singleton.mp member]
      exact tracked.current
    · exact only.mono fun z same => List.mem_singleton.mpr same
  have final := Transition.invariant_observed (kept _ _) since third
  rw [List.nil_append] at final
  refine final.unserved reads stored genesis (fun z member => ?_) parses reports
  cases List.mem_append.mp member with
  | inl same =>
    rw [List.mem_singleton.mp same]
    exact refused
  | inr accepted =>
    obtain ⟨entry, listed, same⟩ := List.mem_map.mp accepted
    rw [← same]
    exact stays entry listed

end Whole

end Federate

namespace Federate.Reference

open Json Outcome Stateful Resolver RegistryStore

/-- Node 1 reports its zone itself. -/
theorem facing_reports (nodeId : String) (s : RegistryStore) (r : Resolver) :
    Origin.Reports s r (facing nodeId s) where
  native n addr zoneJson member arrived := by
    have same : Message.root (Externals.toVec s.zone.toJson) = .root zoneJson :=
      Except.ok.inj arrived
    exact (Message.root.inj same).symm
  http n response bytes answered whole := by cases answered

/-- A zone with plain values is read back from the cache file. -/
theorem plainStored (z : RootZone) (values : z.Values PlainValue) : z.ReadsBack :=
  read_pretty (plainReads.rootZone z values)

/-! ## The suspension of `alice.foo` -/

/-- The root suspends `alice.foo`. -/
def suspendAlice : ApplyCall :=
  call authority.root "fourth" 3 (.setDomainStatus "alice.foo" .suspended)

/-- The suspension, as the server applies it. -/
def arrivalSuspend : Arrival where
  mutation := suspendAlice.request
  content := none
  blocklists := suspendAlice.blocklists
  now := suspendAlice.now
  clock := suspendAlice.clock

/-- The record that the suspension leaves, before it is signed. -/
def suspendedRecord : DomainRecord :=
  { firstAlice with
    status := .suspended, updatedAt := Externals.toRfc3339 ⟨0⟩, signature := none }

/-- The zone with `alice.foo` suspended. -/
def zoneSuspended : RootZone :=
  (zoneAlice.putDomain "alice.foo" (suspendedRecord.signedBy authority.officialOperator)).advance
    authority.root ⟨0⟩ (zoneEvent suspendAlice.request .root (Externals.toRfc3339 ⟨0⟩))

theorem suspendAlice_id : suspendAlice.request.mutationId =
    "99b6ab57c903c31399b6ab57c903c31399b6ab57c903c31399b6ab57c903c313" := by
  decide +kernel

theorem zoneSuspended_short : (Externals.toVec zoneSuspended.toJson).length ≤ maxRootBytes := by
  have domains := signedRecord_short suspendedRecord rfl (by decide +kernel)
  have suspended := zoneEvent_short suspendAlice.request .root (by decide +kernel) rfl
  have audit : ∀ e ∈ zoneAlice.audit ++
      [zoneEvent suspendAlice.request .root (Externals.toRfc3339 ⟨0⟩)],
      (Json.compact e.toJson).length ≤ 592 :=
    List.forall_mem_append.mpr ⟨zoneAlice_audit, List.forall_mem_singleton.mpr suspended⟩
  exact signedZone_short _ (by decide +kernel) zoneAlice_tlds domains
    (audit_short (by decide) audit)

/-- The name is refused. -/
theorem zoneSuspended_refuses : zoneSuspended.Refuses ⟨"alice", "foo"⟩ := by
  have tlds : zoneSuspended.tlds = (∅ : Table _ _).insert "foo" (official "foo") := rfl
  have domains : zoneSuspended.domains = zoneAlice.domains.insert "alice.foo"
    (suspendedRecord.signedBy authority.officialOperator) := rfl
  have name : (FederateDomain.mk "alice" "foo").fqdn = "alice.foo" := by decide
  intro tldRec held inForce
  rw [tlds, Std.ExtTreeMap.getElem?_insert_self] at held
  rw [← Option.some.inj held, domains, name, Std.ExtTreeMap.getElem?_insert_self]
  refine ⟨rfl, fun record found => ?_⟩
  rw [← Option.some.inj found]
  rfl

/-- A registry with `alice.foo` continues with the suspension, which leaves its zone. -/
theorem suspend_stored {s : RegistryStore} (holds : HoldsAlice s) :
    s.Continues PlainValue (.seed arrivalSuspend) ∧
      (authority.live s (.seed arrivalSuspend)).zone = zoneSuspended := by
  obtain ⟨core, nonces, rfl, stage⟩ := holds.stage
  have zone : core.zone = zoneAlice := holds.zone
  have values : arrivalSuspend.mutation.Values PlainValue := by
    intro r requested
    cases requested
  obtain ⟨seq, next⟩ := Rows.exists_nextNumber stage.below (by omega)
  have numbered : core.Numbered :=
    ⟨seq, show core.database.nextAuditSeq = .ok seq from okOr_eq_ok.mpr next⟩
  have room : core.zone.rootVersion.toNat + 1 < 2 ^ 64 := by
    rw [zone]
    decide
  have granted := setStatus_granted stage Std.ExtTreeMap.getElem?_insert_self rfl
    (show allowedDomainTransition .active .suspended true = true by decide) "fourth" 3
  have fresh : suspendAlice.request.mutationId ∉
      [publishAlice.request.mutationId, createFoo.request.mutationId] := by
    rw [suspendAlice_id, publishAlice_id, createFoo_id]
    decide
  have advances : (if publishAlice.request.action.targetKey = suspendAlice.request.action.targetKey
      then 2 else if "tld:foo" = suspendAlice.request.action.targetKey then 1 else 0) <
        (3 : UInt64) := by
    split
    · decide
    · split <;> decide
  have verified := (RootZone.verify_eq_ok.mp stage.reachable.verified.2.2).2.2
  obtain ⟨prepared, -⟩ := stage.next (c := suspendAlice) rfl rfl rfl (by decide) fresh advances
    granted verified
  have left (z : RootZone) (same : core.zone = z) :
      (core.prepared suspendAlice.request (authority.context suspendAlice)
        ⟨core.zone.putDomain "alice.foo" (suspendedRecord.signedBy authority.officialOperator),
          none, .root⟩).zone =
        (z.putDomain "alice.foo" (suspendedRecord.signedBy authority.officialOperator)).advance
          authority.root ⟨0⟩ (zoneEvent suspendAlice.request .root (Externals.toRfc3339 ⟨0⟩)) := by
    rw [← same]
    rfl
  refine ⟨⟨⟨values, (numbered_withNonces nonces).mpr numbered⟩, room⟩, ?_⟩
  have called : arrivalSuspend.call = suspendAlice := rfl
  have stepped (core' : RegistryStore) : (core'.withNonces nonces).zone = core'.zone := rfl
  rw [live_seed, called, Authority.step_withNonces, stepped, prepared.step_zone]
  exact left zoneAlice zone

/-! ## The deployment with `alice.foo` -/

/-- The events of the registry up to the publication of `alice.foo`. -/
def publication : List RegistryEvent := beforeAlice ++ [.request arrivalAlice]

/-- The registry with `alice.foo`. -/
noncomputable def hosting : RegistryStore := Transition.run authority.live start publication

theorem hosting_lives : Transition.Guarded authority.live (RegistryStore.Continues PlainValue) start
    publication ∧ HoldsAlice hosting := by
  have same : arrivalFoo.call = createFoo := rfl
  have seeded := live_seed start arrivalFoo
  rw [same] at seeded
  obtain ⟨lives, -, holds⟩ := beforeAlice_accepts seeded stage_foo.2 createFoo_zoneFoo
  exact ⟨lives, holds⟩

/-- Whatever a resolver knows, it fetches the zone of a live registry behind its first provider. -/
theorem exec_fetchRootNetwork_facing {s : RegistryStore}
    (alive : authority.IsAlive PlainValue start s)
    (short : (Externals.toVec s.zone.toJson).length ≤ maxRootBytes) (v : ResolverState) :
    exec (peered.fetchRootNetwork (facing "node" s)) v = (.ok s.zone, v.after 3) := by
  have serves : Origin.Serves "node" s (facing "node" s) "198.51.100.7:4077" :=
    ⟨fun _ => rfl, fun _ _ _ => rfl⟩
  obtain ⟨core, nonces, rfl, ⟨ops, ran⟩, restorable⟩ := alive
  have reachable : authority.Reachable core := ⟨start, ops, genesis, ran⟩
  exact exec_fetchRootNetwork_origin messagesCompact rfl serves (sendable_facing _) short
    (plainReads.rootZone core.zone restorable.zoneValues) reachable.valid

theorem hosting_alive : authority.IsAlive PlainValue start hosting :=
  isAlive_run signaturesVerify plainReads initialized
    (hosting_lives.1.mono fun _ _ continues => continues.1)

/-- The resolver waits for the publication. -/
theorem publication_run : Transition.run (Deployment.step authority peered) ⟨start, visitor⟩
    (publication.map .registry) = ⟨hosting, visitor⟩ := Deployment.run_registry _ _

/-- The publication, and a resolver that refreshes. -/
noncomputable def refreshed : List DeploymentEvent :=
  publication.map .registry ++ [.call (facing "node" hosting) .refreshRoot]

/-- The publication and the refresh can happen. -/
theorem refreshed_lives : Transition.Guarded (Deployment.step authority peered)
    (Deployment.Connected PlainValue peered) ⟨start, visitor⟩ refreshed := by
  refine (Transition.guarded_append _ _ _).mpr ⟨Deployment.guarded_registry hosting_lives.1, ?_⟩
  rw [publication_run]
  exact ⟨Deployment.connected_call (facing_reports "node" hosting peered) _, trivial⟩

/-- A resolver that refreshes after the publication holds the zone with `alice.foo`, and is
synchronized. -/
theorem alice_synchronized :
    Synchronized authority peered (start.zone :: (Transition.observations
        (Deployment.step authority peered) (Deployment.acceptance authority) ⟨start, visitor⟩
          refreshed).map Acceptance.zone)
      (Transition.run (Deployment.step authority peered) ⟨start, visitor⟩ refreshed) ∧
    (Transition.run (Deployment.step authority peered) ⟨start, visitor⟩ refreshed).resolver.root =
      some zoneAlice := by
  have lives := (Transition.guarded_append _ _ _).mp refreshed_lives
  have before := deployment_synchronized signaturesVerify plainReads plainStored initialized lives.1
  refine ⟨deployment_synchronized signaturesVerify plainReads plainStored initialized
    refreshed_lives, ?_⟩
  have short : (Externals.toVec hosting.zone.toJson).length ≤ maxRootBytes := by
    rw [hosting_lives.2.zone]
    exact zoneAlice_short
  have ran := publication_run
  have current := before.current (facing "node" hosting)
  rw [visitor] at ran
  rw [ran] at current
  dsimp only at current
  obtain ⟨v', refreshes, held⟩ := current (facing_reports "node" hosting peered) (fun _ => rfl)
    ⟨_, congrArg Prod.fst (exec_fetchRootNetwork_facing hosting_alive short _)⟩
  rw [refreshed, Transition.run_append, Transition.run_cons, Transition.run_nil, visitor, ran,
    Deployment.step_call, ResolverCall.after_refreshRoot, refreshes, ← hosting_lives.2.zone]
  exact held

/-- The registry that has suspended `alice.foo`. -/
noncomputable def suspending : RegistryStore := authority.live hosting (.seed arrivalSuspend)

theorem suspending_alive : authority.IsAlive PlainValue start suspending :=
  hosting_alive.step signaturesVerify plainReads genesis (suspend_stored hosting_lives.2).1.1

theorem suspending_zone : suspending.zone = zoneSuspended := (suspend_stored hosting_lives.2).2

/-- The publication, a visit and the suspension. -/
noncomputable def takedown : List DeploymentEvent :=
  publication.map .registry ++
    [.call (facing "node" hosting) (.resolve "alice.foo" "/"), .registry (.seed arrivalSuspend)]

/-- The resolver after the visit. -/
noncomputable def visited : ResolverState :=
  (ResolverCall.resolve "alice.foo" "/").after peered (facing "node" hosting) visitor

theorem takedown_run : Transition.run (Deployment.step authority peered) ⟨start, visitor⟩ takedown =
    ⟨suspending, visited⟩ := by
  rw [takedown, Transition.run_append, publication_run, Transition.run_cons, Transition.run_cons,
    Transition.run_nil, Deployment.step_call, Deployment.step_registry, suspending, visited]

/-- All of it can happen, and the resolver can refresh and be restarted afterwards. -/
theorem takedown_lives : Transition.Guarded (Deployment.step authority peered)
    (Deployment.Connected PlainValue peered) ⟨start, visitor⟩
      (takedown ++ [.call (facing "node" suspending) .refreshRoot, .restart]) := by
  refine (Transition.guarded_append _ _ _).mpr ⟨?_, ?_⟩
  · refine (Transition.guarded_append _ _ _).mpr ⟨Deployment.guarded_registry hosting_lives.1, ?_⟩
    rw [publication_run]
    refine ⟨Deployment.connected_call (facing_reports "node" hosting peered) _, ?_, trivial⟩
    rw [Deployment.step_call]
    exact Deployment.connected_registry (suspend_stored hosting_lives.2).1
  · rw [takedown_run]
    exact ⟨Deployment.connected_call (facing_reports "node" suspending peered) _, trivial, trivial⟩

/-- A visitor resolves the front page of `alice.foo`; once the root has suspended the name and the
resolver has refreshed, it is not served, after a restart either. -/
theorem alice_taken_down :
    (∃ bytes v', exec (peered.resolve (facing "node" hosting) "alice.foo" "/") visitor =
      (.ok (.content "alice.foo" "/" bytes "text/html" (hashBytes site)), v')) ∧
    ∀ (name path' mime hash : String) (bytes : Bytes) (v' : ResolverState),
      exec (peered.resolve (facing "node" suspending) "alice.foo" "/")
        (Transition.run (Deployment.step authority peered) ⟨suspending, visited⟩
          [.call (facing "node" suspending) .refreshRoot, .restart]).resolver ≠
        (.ok (.content name path' bytes mime hash), v') := by
  constructor
  · have holds := hosting_lives.2
    obtain ⟨bytes, v', served, -⟩ := hosting_alive.visited signaturesVerify plainReads
      messagesCompact genesis (visiting_alice holds) (hosts_alice holds) parse_alice
    have name : alicePage.domain.fqdn = "alice.foo" := by decide
    have mime : ResolverExternals.mimeGuess alicePage.file = "text/html" := by decide
    rw [name, mime] at served
    exact ⟨bytes, v', served⟩
  · intro name path' mime hash bytes v'
    have refused : suspending.zone.Refuses ⟨"alice", "foo"⟩ := by
      rw [suspending_zone]
      exact zoneSuspended_refuses
    have short : (Externals.toVec suspending.zone.toJson).length ≤ maxRootBytes := by
      rw [suspending_zone]
      exact zoneSuspended_short
    refine takedown_enforced signaturesVerify plainReads plainStored initialized takedown_lives
      takedown_run ⟨_, congrArg Prod.fst (exec_fetchRootNetwork_facing suspending_alive short _)⟩
      (fun _ => rfl) refused ?_ parse_alice ?_
    · intro entry member
      simp [Transition.observations, Deployment.acceptance] at member
    · rw [Transition.run_cons, Transition.run_cons, Transition.run_nil, Deployment.step_call,
        Deployment.step_restart]
      dsimp only
      exact facing_reports "node" suspending peered

end Federate.Reference
