import Federate.Resolution.Resolver

/-!
# What fetching changes and returns

A network exchange changes nothing but the number of operations; fetching a manifest, a registry
or a block changes only the cache of its own kind. Whatever the environment answers, bytes are
returned only under their own hash, and a registry only under the key that was asked for.
-/

namespace Federate

open Outcome Stateful Resolver

/-! ## Frames -/

/-- Nothing changes but the number of operations. -/
def OnlyTicks (s s' : ResolverState) : Prop := ∃ n, s.ticks ≤ n ∧ s' = { s with ticks := n }

/-- Nothing about the root zone changes: neither in memory nor on disk. -/
structure KeepsRoot (s s' : ResolverState) : Prop where
  /-- The zone in memory. -/
  root : s'.root = s.root
  /-- The pinned key. -/
  key : s'.trustedRootKey = s.trustedRootKey
  /-- The cached zone. -/
  zoneFile : s'.disk.rootZone = s.disk.rootZone
  /-- The persisted key. -/
  keyFile : s'.disk.trustedRootKey = s.disk.trustedRootKey
  /-- Operations are only added. -/
  ticks : s.ticks ≤ s'.ticks

instance : Std.Refl OnlyTicks := ⟨fun s => ⟨s.ticks, le_rfl, rfl⟩⟩

instance : IsTrans ResolverState OnlyTicks :=
  ⟨fun _ _ _ ⟨n, first, eq⟩ ⟨m, second, eq'⟩ => by subst eq eq'; exact ⟨m, le_trans first second, rfl⟩⟩

instance : Std.Refl KeepsRoot := ⟨fun _ => ⟨rfl, rfl, rfl, rfl, le_rfl⟩⟩

instance : IsTrans ResolverState KeepsRoot :=
  ⟨fun _ _ _ first second => ⟨second.root.trans first.root, second.key.trans first.key,
    second.zoneFile.trans first.zoneFile, second.keyFile.trans first.keyFile,
    le_trans first.ticks second.ticks⟩⟩

/-- What only takes operations keeps everything about the root zone. -/
theorem OnlyTicks.keepsRoot {s s' : ResolverState} : OnlyTicks s s' → KeepsRoot s s' := by
  rintro ⟨n, later, rfl⟩
  exact ⟨rfl, rfl, rfl, rfl, later⟩

/-- An operation is all that asking costs. -/
theorem keeps_ask {α : Type} (answer : ℕ → Result α) : Keeps OnlyTicks (ask answer) := by
  intro s
  rw [exec_ask]
  exact ⟨s.ticks + 1, Nat.le_succ _, rfl⟩

variable (env : Environment)

/-- A change of files that leaves the files of the root zone alone. -/
theorem keeps_changeFile {change : ResolverDisk → ResolverDisk}
    (zoneFile : ∀ d, (change d).rootZone = d.rootZone)
    (keyFile : ∀ d, (change d).trustedRootKey = d.trustedRootKey) :
    Keeps KeepsRoot (env.changeFile change) :=
  ((keeps_ask _).mono fun _ _ => OnlyTicks.keepsRoot).bind fun _ =>
    keeps_modify fun s => ⟨rfl, rfl, zoneFile s.disk, keyFile s.disk, le_rfl⟩

/-- A write, whole or torn, that leaves the files of the root zone alone. -/
theorem keeps_overwriteFile {α : Type} {put : List α → ResolverDisk → ResolverDisk}
    (zoneFile : ∀ part d, (put part d).rootZone = d.rootZone)
    (keyFile : ∀ part d, (put part d).trustedRootKey = d.trustedRootKey) (content : List α) :
    Keeps KeepsRoot (env.overwriteFile put content) := by
  have written (part : List α) : Keeps KeepsRoot
      (modify fun s => { s with disk := put part s.disk } : ResolverM PUnit) :=
    keeps_modify fun s => ⟨rfl, rfl, zoneFile part s.disk, keyFile part s.disk, le_rfl⟩
  refine keeps_get.bind fun s => ?_
  refine ((keeps_ask _).mono fun _ _ => OnlyTicks.keepsRoot).attempt.bind fun outcome => ?_
  cases outcome with
  | ok done => exact written content
  | error e =>
    have failed : Keeps KeepsRoot (throw e : ResolverM Unit) := keeps_throw e
    simp only
    cases env.torn s.ticks with
    | some length => exact (written (content.take length)).bind fun _ => failed
    | none => exact (keeps_pure _).bind fun _ => failed

/-! ## Network exchanges -/

theorem keeps_getCapped (url : String) (max : ℕ) : Keeps OnlyTicks (env.getCapped url max) :=
  (keeps_ask _).bind fun _ => (keeps_lift _).bind fun _ => keeps_lift _

theorem keeps_fetchRoot [SerdeDocuments] (c : NodeClient) : Keeps OnlyTicks (c.fetchRoot env) :=
  (keeps_getCapped env _ _).bind fun _ => (keeps_lift _).bind fun _ =>
    (keeps_lift _).bind fun _ => keeps_pure _

theorem keeps_directoryProviders [ResolverExternals] (base hash : String) :
    Keeps OnlyTicks (directoryProviders env base hash) :=
  (keeps_ask _).bind fun _ => (keeps_lift _).bind fun _ => (keeps_lift _).bind fun _ =>
    keeps_lift _

section Clients

variable [Externals]

theorem keeps_fetchManifestBytes (c : NodeClient) (hash : String) :
    Keeps OnlyTicks (c.fetchManifestBytes env hash) :=
  (keeps_lift _).bind fun _ => (keeps_getCapped env _ _).bind fun _ =>
    (keeps_lift _).bind fun _ => keeps_pure _

theorem keeps_fetchBlock (c : NodeClient) (hash : String) :
    Keeps OnlyTicks (c.fetchBlock env hash) :=
  (keeps_lift _).bind fun _ => (keeps_getCapped env _ _).bind fun _ =>
    (keeps_lift _).bind fun _ => keeps_pure _

theorem keeps_fetchBlockFrom (provider : NodeEntry) (hash : String) :
    Keeps OnlyTicks (fetchBlockFrom env provider hash) :=
  (keeps_lift _).bind fun _ => (keeps_ask _).bind fun _ => (keeps_lift _).bind fun _ =>
    (keeps_lift _).bind fun _ => (keeps_lift _).bind fun _ => keeps_pure _

omit [Externals] in
theorem keeps_registryDocument [ResolverExternals] (endpoint tld : String) :
    Keeps OnlyTicks (registryDocument env endpoint tld) :=
  ((keeps_getCapped env _ _).bind fun _ => keeps_lift _).bind fun _ => keeps_lift _

theorem keeps_fetchRegistry [ResolverExternals] (endpoint key tld : String) :
    Keeps OnlyTicks (fetchRegistry env endpoint key tld) :=
  (keeps_registryDocument env endpoint tld).bind fun _ => (keeps_lift _).bind fun _ =>
    keeps_pure _

end Clients

section Native

variable [Externals] [SerdeDocuments] [ResolverExternals] (r : Resolver)

omit [Externals] [SerdeDocuments] in
theorem keeps_connect (addr : String) : Keeps OnlyTicks (r.connect env addr) := by
  refine (keeps_ask _).bind fun _ => (keeps_ask _).bind fun answer => ?_
  split
  · split
    · exact keeps_pure _
    · exact keeps_throw _
  · exact keeps_throw _
  · exact keeps_throw _

omit [Externals] in
theorem keeps_fetchRootNative (addr : String) : Keeps OnlyTicks (r.fetchRootNative env addr) := by
  refine (keeps_connect env r addr).bind fun _ => (keeps_ask _).bind fun answer => ?_
  split
  · exact (keeps_lift _).bind fun _ => (keeps_lift _).bind fun _ =>
      (keeps_lift _).bind fun _ => keeps_pure _
  · exact keeps_throw _

omit [SerdeDocuments] in
theorem keeps_fetchManifestNative (hash addr : String) :
    Keeps OnlyTicks (r.fetchManifestNative env hash addr) := by
  refine (keeps_connect env r addr).bind fun _ => (keeps_ask _).bind fun answer => ?_
  split
  · exact (keeps_lift _).bind fun _ => (keeps_lift _).bind fun _ => keeps_pure _
  · exact keeps_throw _

omit [SerdeDocuments] in
theorem keeps_fetchBlockNative (hash addr : String) :
    Keeps OnlyTicks (r.fetchBlockNative env hash addr) := by
  refine (keeps_lift _).bind fun _ => (keeps_connect env r addr).bind fun _ =>
    (keeps_ask _).bind fun answer => ?_
  split
  · exact (keeps_lift _).bind fun _ => keeps_pure _
  · exact keeps_throw _

omit [Externals] in
theorem keeps_nativeRegistryDocument (tld addr : String) :
    Keeps OnlyTicks (r.nativeRegistryDocument env tld addr) := by
  refine (keeps_connect env r addr).bind fun _ => (keeps_lift _).bind fun _ =>
    (keeps_ask _).bind fun answer => ?_
  split
  · exact (keeps_lift _).bind fun _ => keeps_lift _
  · exact keeps_throw _

theorem keeps_fetchRegistryNative (tld key addr : String) :
    Keeps OnlyTicks (r.fetchRegistryNative env tld key addr) :=
  (keeps_nativeRegistryDocument env r tld addr).bind fun _ => (keeps_lift _).bind fun _ =>
    keeps_pure _

omit [Externals] in
/-- Fetching a root zone changes nothing. -/
theorem keeps_fetchRootNetwork : Keeps OnlyTicks (r.fetchRootNetwork env) :=
  .tryEach (keeps_fetchRootNative env r) (keeps_fetchRoot env r.client) _

omit [SerdeDocuments] in
/-- Fetching manifest bytes changes nothing. -/
theorem keeps_fetchManifestNetwork (hash : String) :
    Keeps OnlyTicks (r.fetchManifestNetwork env hash) :=
  .tryEach (keeps_fetchManifestNative env r hash) (keeps_fetchManifestBytes env r.client hash) _

/-- Fetching a live registry changes nothing. -/
theorem keeps_fetchRegistryLive (tldRec : TldRecord) :
    Keeps OnlyTicks (r.fetchRegistryLive env tldRec) :=
  .tryEach (keeps_fetchRegistryNative env r _ _)
    (.tryEach (fun _ => keeps_fetchRegistry env _ _ _) (keeps_throw _) _) _

/-! ## Caches -/

omit [SerdeDocuments] in
/-- Manifest bytes change only the manifest cache. -/
theorem keeps_manifestBytes (hash : String) : Keeps KeepsRoot (r.manifestBytes env hash) := by
  have network := (keeps_fetchManifestNetwork env r hash).mono fun _ _ => OnlyTicks.keepsRoot
  have fetched : Keeps KeepsRoot (do
      let bytes ← r.fetchManifestNetwork env hash
      env.changeFile fun d => { d with manifests := d.manifests.insert hash bytes }
      return bytes) :=
    network.bind fun _ => (keeps_changeFile env (by intro _; rfl) (by intro _; rfl)).bind fun _ =>
      keeps_pure _
  refine (keeps_lift _).bind fun _ => keeps_get.bind fun s => ?_
  split
  · split
    · exact keeps_pure _
    · exact (keeps_changeFile env (by intro _; rfl) (by intro _; rfl)).attempt.bind fun _ => fetched
  · exact fetched

/-- A manifest changes only the manifest cache. -/
theorem keeps_manifest (hash : String) : Keeps KeepsRoot (r.manifest env hash) :=
  (keeps_manifestBytes env r hash).bind fun _ => (keeps_lift _).bind fun _ =>
    (keeps_lift _).bind fun _ => keeps_pure _

omit [ResolverExternals] in
theorem keeps_cachedRegistry {R : ResolverState → ResolverState → Prop} [Std.Refl R]
    (tldRec : TldRecord) : Keeps R (cachedRegistry tldRec) := fun s => Std.Refl.refl s

omit [SerdeDocuments] [ResolverExternals] in
theorem keeps_storeRegistry (registry : TldRegistry) :
    Keeps KeepsRoot (storeRegistry env registry) := by
  unfold storeRegistry
  split
  · exact keeps_pure _
  · exact (keeps_changeFile env (by intro _; rfl) (by intro _; rfl)).attempt.bind fun _ => keeps_pure _

/-- A registry changes only the caches of manifests and registries. -/
theorem keeps_tldRegistry (tldRec : TldRecord) : Keeps KeepsRoot (r.tldRegistry env tldRec) := by
  have live : Keeps KeepsRoot (r.liveRegistry env tldRec) := by
    refine ((keeps_fetchRegistryLive env r tldRec).mono fun _ _ => OnlyTicks.keepsRoot).attempt.bind
      fun outcome => ?_
    cases outcome with
    | ok registry =>
      refine (keeps_cachedRegistry tldRec).bind fun cached => ?_
      have stored : Keeps KeepsRoot (do storeRegistry env registry; return registry) :=
        (keeps_storeRegistry env registry).bind fun _ => keeps_pure _
      cases cached with
      | none => exact stored
      | some cached =>
        simp only
        split
        · exact keeps_pure _
        · exact stored
    | error e =>
      simp only
      split
      · exact keeps_throw _
      · refine (keeps_cachedRegistry tldRec).bind fun cached => ?_
        cases cached with
        | none => exact keeps_throw _
        | some cached => exact keeps_pure _
  have pinned : Keeps KeepsRoot (r.pinnedRegistry env tldRec) := by
    refine (keeps_lift _).bind fun hash => (keeps_manifestBytes env r hash).attempt.bind
      fun outcome => ?_
    cases outcome with
    | error e => exact keeps_throw _
    | ok bytes =>
      exact (keeps_lift _).bind fun _ => (keeps_lift _).bind fun _ => keeps_pure _
  unfold Resolver.tldRegistry
  split
  · exact pinned
  · exact live
  · exact live
  · exact keeps_throw _

/-- Locating a record changes only the caches of manifests and registries. -/
theorem keeps_locateRecord (root : RootZone) (tldRec : TldRecord) (fqdn : String) :
    Keeps KeepsRoot (r.locateRecord env root tldRec fqdn) := by
  have delegated : Keeps KeepsRoot (do
      let registry ← r.tldRegistry env tldRec
      liftM (okOr (registry.lookup fqdn) (FederateError.domainNotFound fqdn)) :
        ResolverM DomainRecord) :=
    (keeps_tldRegistry env r tldRec).bind fun _ => keeps_lift _
  unfold locateRecord
  split
  · exact keeps_lift _
  · exact delegated
  · exact delegated
  · exact delegated
  · exact keeps_throw _

omit [Externals] [SerdeDocuments] in
/-- Asking the directory changes nothing. -/
theorem keeps_discoverProviders (hash : String) :
    Keeps OnlyTicks (r.discoverProviders env hash) := by
  unfold discoverProviders
  split
  · exact (keeps_directoryProviders env _ hash).attempt.bind fun _ => keeps_pure _
  · exact keeps_pure _

omit [SerdeDocuments] in
/-- Finding a block on the network changes nothing. -/
theorem keeps_fetchBlockNetwork (hash : String) :
    Keeps OnlyTicks (r.fetchBlockNetwork env hash) :=
  (keeps_discoverProviders env r hash).bind fun _ => .tryEach (keeps_fetchBlockNative env r hash)
    (.tryEach (fun p => keeps_fetchBlockFrom env p hash) (keeps_fetchBlock env r.client hash) _) _

omit [SerdeDocuments] in
/-- A block changes only the block cache. -/
theorem keeps_blockTraced (hash : String) : Keeps KeepsRoot (r.blockTraced env hash) := by
  have cached : Keeps KeepsRoot (blockGet hash) :=
    (keeps_lift _).bind fun _ => keeps_get.bind fun _ => (keeps_lift _).bind fun _ =>
      (keeps_lift _).bind fun _ => keeps_pure _
  have stored (bytes : Bytes) : Keeps KeepsRoot (blockPut env hash bytes) :=
    (keeps_lift _).bind fun _ =>
      keeps_overwriteFile env (by intro _ _; rfl) (by intro _ _; rfl) _
  refine cached.attempt.bind fun outcome => ?_
  cases outcome with
  | ok bytes => exact keeps_pure _
  | error e =>
    exact ((keeps_fetchBlockNetwork env r hash).mono fun _ _ => OnlyTicks.keepsRoot).bind
      fun bytes => (stored bytes).bind fun _ => keeps_pure _

end Native

/-! ## What is returned -/

section Returned

variable [Externals]

/-- The bootstrap node's bytes of a manifest pass under their address. -/
theorem fetchManifestBytes_verified (c : NodeClient) (hash : String) :
    Returns (fun bytes => verifyHash bytes hash = .ok ()) (c.fetchManifestBytes env hash) :=
  (returns_any _).bind fun _ _ => (returns_any _).bind fun bytes _ =>
    (returns_lift (verifyHash bytes hash)).bind fun _ valid => returns_pure valid

/-- The bootstrap node's bytes of a block pass under their address. -/
theorem fetchBlock_verified (c : NodeClient) (hash : String) :
    Returns (fun bytes => verifyHash bytes hash = .ok ()) (c.fetchBlock env hash) :=
  (returns_any _).bind fun _ _ => (returns_any _).bind fun bytes _ =>
    (returns_lift (verifyHash bytes hash)).bind fun _ valid => returns_pure valid

/-- An HTTP provider's bytes of a block pass under their address. -/
theorem fetchBlockFrom_verified (provider : NodeEntry) (hash : String) :
    Returns (fun bytes => verifyHash bytes hash = .ok ()) (fetchBlockFrom env provider hash) :=
  (returns_any _).bind fun _ _ => (returns_any _).bind fun _ _ => (returns_any _).bind fun _ _ =>
    (returns_any _).bind fun bytes _ =>
      (returns_lift (verifyHash bytes hash)).bind fun _ valid => returns_pure valid

/-- A registry from an HTTP endpoint is verified. -/
theorem fetchRegistry_verified [ResolverExternals] (endpoint key tld : String) :
    Returns (fun registry => registry.verify tld key = .ok ())
      (fetchRegistry env endpoint key tld) :=
  (returns_any _).bind fun registry _ => (returns_lift (registry.verify tld key)).bind
    fun _ valid => returns_pure valid

/-- A cached block passes under its address. -/
theorem blockGet_verified (hash : String) :
    Returns (fun bytes => verifyHash bytes hash = .ok ()) (blockGet hash) :=
  (returns_any _).bind fun _ _ => (returns_any _).bind fun _ _ => (returns_any _).bind
    fun bytes _ => (returns_lift (verifyHash bytes hash)).bind fun _ valid => returns_pure valid

/-- A cached registry is verified. -/
theorem cachedRegistry_verified [SerdeDocuments] (tldRec : TldRecord) :
    Returns (fun cached => ∀ registry, cached = some registry →
      registry.verify tldRec.tld tldRec.operatorPublicKey = .ok ()) (cachedRegistry tldRec) := by
  refine (returns_any _).bind fun s _ => returns_pure fun registry found => ?_
  simp only [bind, Option.bind_eq_some_iff, Option.some.injEq] at found
  obtain ⟨_, -, _, -, _, -, _, passed, rfl⟩ := found
  cases outcome : TldRegistry.verify _ tldRec.tld tldRec.operatorPublicKey with
  | ok done => rfl
  | error e =>
    rw [outcome] at passed
    exact absurd passed (by simp [Except.toOption])

variable [ResolverExternals] (r : Resolver)

theorem fetchManifestNative_verified (hash addr : String) :
    Returns (fun bytes => verifyHash bytes hash = .ok ()) (r.fetchManifestNative env hash addr) := by
  refine (returns_any _).bind fun _ _ => (returns_any _).bind fun answer _ => ?_
  split
  · exact (returns_any _).bind fun _ _ => (returns_lift _).bind fun _ valid => returns_pure valid
  · exact returns_throw _

theorem fetchBlockNative_verified (hash addr : String) :
    Returns (fun bytes => verifyHash bytes hash = .ok ()) (r.fetchBlockNative env hash addr) := by
  refine (returns_any _).bind fun _ _ => (returns_any _).bind fun _ _ =>
    (returns_any _).bind fun answer _ => ?_
  split
  · exact (returns_lift _).bind fun _ valid => returns_pure valid
  · exact returns_throw _

/-- Whoever answers, the bytes of a block pass under their address. -/
theorem blockTraced_verified (hash : String) :
    Returns (fun bytes => verifyHash bytes hash = .ok ()) (r.blockTraced env hash) := by
  have network : Returns (fun bytes => verifyHash bytes hash = .ok ())
      (r.fetchBlockNetwork env hash) :=
    (returns_any _).bind fun _ _ => .tryEach (fetchBlockNative_verified env r hash)
      (.tryEach (fun p => fetchBlockFrom_verified env p hash)
        (fetchBlock_verified env r.client hash) _) _
  refine (blockGet_verified hash).attempt.bind fun outcome cached => ?_
  cases outcome with
  | ok bytes => exact returns_pure (cached bytes rfl)
  | error e =>
    exact network.bind fun bytes valid => (returns_any _).bind fun _ _ => returns_pure valid

/-- Whoever answers, the bytes of a manifest pass under their address. -/
theorem manifestBytes_verified (hash : String) :
    Returns (fun bytes => verifyHash bytes hash = .ok ()) (r.manifestBytes env hash) := by
  have network : Returns (fun bytes => verifyHash bytes hash = .ok ())
      (r.fetchManifestNetwork env hash) :=
    .tryEach (fetchManifestNative_verified env r hash)
      (fetchManifestBytes_verified env r.client hash) _
  have fetched : Returns (fun bytes => verifyHash bytes hash = .ok ()) (do
      let bytes ← r.fetchManifestNetwork env hash
      env.changeFile fun d => { d with manifests := d.manifests.insert hash bytes }
      return bytes) :=
    network.bind fun bytes valid => (returns_any _).bind fun _ _ => returns_pure valid
  refine (returns_any _).bind fun _ _ => (returns_any _).bind fun s _ => ?_
  split
  · split
    · rename_i valid
      exact returns_pure valid
    · exact (returns_any _).bind fun _ _ => fetched
  · exact fetched

variable [SerdeDocuments]

/-- A manifest is read from bytes of its address. -/
theorem manifest_verified (hash : String) :
    Returns (fun m => ∃ bytes, verifyHash bytes hash = .ok () ∧
      SerdeDocuments.manifest bytes = .ok m) (r.manifest env hash) :=
  (manifestBytes_verified env r hash).bind fun bytes valid =>
    (returns_lift (serde (SerdeDocuments.manifest bytes))).bind fun _ reads =>
      (returns_any _).bind fun _ _ => returns_pure ⟨bytes, valid, serde_eq_ok.mp reads⟩

theorem fetchRegistryNative_verified (tld key addr : String) :
    Returns (fun registry => registry.verify tld key = .ok ())
      (r.fetchRegistryNative env tld key addr) :=
  (returns_any _).bind fun _ _ => (returns_lift _).bind fun _ valid => returns_pure valid

/-- Whoever answers, a live registry is verified. -/
theorem fetchRegistryLive_verified (tldRec : TldRecord) :
    Returns (fun registry => registry.verify tldRec.tld tldRec.operatorPublicKey = .ok ())
      (r.fetchRegistryLive env tldRec) :=
  .tryEach (fetchRegistryNative_verified env r _ _)
    (.tryEach (fun _ => fetchRegistry_verified env _ _ _) (returns_throw _) _) _

/-- Wherever it comes from, the registry of a TLD is verified. -/
theorem tldRegistry_verified (tldRec : TldRecord) :
    Returns (fun registry => registry.verify tldRec.tld tldRec.operatorPublicKey = .ok ())
      (r.tldRegistry env tldRec) := by
  have live : Returns (fun registry =>
      registry.verify tldRec.tld tldRec.operatorPublicKey = .ok ()) (r.liveRegistry env tldRec) := by
    refine (fetchRegistryLive_verified env r tldRec).attempt.bind fun outcome fetched => ?_
    cases outcome with
    | ok registry =>
      refine (cachedRegistry_verified tldRec).bind fun cached held => ?_
      cases cached with
      | none => exact (returns_any _).bind fun _ _ => returns_pure (fetched registry rfl)
      | some cached =>
        simp only
        split
        · exact returns_pure (held cached rfl)
        · exact (returns_any _).bind fun _ _ => returns_pure (fetched registry rfl)
    | error e =>
      simp only
      split
      · exact returns_throw _
      · refine (cachedRegistry_verified tldRec).bind fun cached held => ?_
        cases cached with
        | none => exact returns_throw _
        | some cached => exact returns_pure (held cached rfl)
  have pinned : Returns (fun registry =>
      registry.verify tldRec.tld tldRec.operatorPublicKey = .ok ())
      (r.pinnedRegistry env tldRec) := by
    refine (returns_any _).bind fun hash _ => (returns_any _).bind fun outcome _ => ?_
    cases outcome with
    | error e => exact returns_throw _
    | ok bytes =>
      exact (returns_any _).bind fun _ _ => (returns_lift _).bind fun _ valid => returns_pure valid
  unfold Resolver.tldRegistry
  split
  · exact pinned
  · exact live
  · exact live
  · exact returns_throw _

/-- A located record is filed under the name in the zone, for a root-managed TLD, or in a verified
registry of the TLD. -/
theorem locateRecord_held (root : RootZone) (tldRec : TldRecord) (fqdn : String) :
    Returns (fun record =>
      (tldRec.registryType = .rootManaged ∧ root.domains[fqdn]? = some record) ∨
        tldRec.registryType ≠ .rootManaged ∧ ∃ registry : TldRegistry,
          registry.verify tldRec.tld tldRec.operatorPublicKey = .ok () ∧
            registry.domains[fqdn]? = some record)
      (r.locateRecord env root tldRec fqdn) := by
  have delegated (notRoot : tldRec.registryType ≠ .rootManaged) : Returns (fun record =>
      (tldRec.registryType = .rootManaged ∧ root.domains[fqdn]? = some record) ∨
        tldRec.registryType ≠ .rootManaged ∧ ∃ registry : TldRegistry,
          registry.verify tldRec.tld tldRec.operatorPublicKey = .ok () ∧
            registry.domains[fqdn]? = some record) (do
      let registry ← r.tldRegistry env tldRec
      liftM (okOr (registry.lookup fqdn) (FederateError.domainNotFound fqdn)) :
        ResolverM DomainRecord) :=
    (tldRegistry_verified env r tldRec).bind fun registry verified =>
      (returns_lift _).mono fun record found =>
        .inr ⟨notRoot, registry, verified, okOr_eq_ok.mp found⟩
  unfold locateRecord
  split
  · rename_i managed
    exact (returns_lift _).mono fun record found => .inl ⟨managed, okOr_eq_ok.mp found⟩
  · rename_i kind
    exact delegated (by rw [kind]; decide)
  · rename_i kind
    exact delegated (by rw [kind]; decide)
  · rename_i kind
    exact delegated (by rw [kind]; decide)
  · exact returns_throw _

end Returned

/-! ## Where answers come from -/

/-- An answer is the one to some operation. -/
theorem ask_answered {α : Type} (answer : ℕ → Result α) :
    Returns (fun a => ∃ n, answer n = .ok a) (ask answer) := by
  intro s s' a ran
  rw [exec_ask] at ran
  exact ⟨s.ticks, (Prod.mk.inj ran).1⟩

/-- The body of a GET was answered by the server of the URL. -/
theorem getCapped_answered (url : String) (max : ℕ) :
    Returns (fun bytes => ∃ n response, env.httpGet n url = .ok response ∧
      Environment.readCapped response max = .ok bytes) (env.getCapped url max) := by
  refine (ask_answered _).bind fun response answered => (returns_any _).bind fun _ _ =>
    (returns_lift _).mono fun bytes whole => ?_
  obtain ⟨n, answered⟩ := answered
  exact ⟨n, response, mapError_eq_ok.mp answered, whole⟩

/-- A registry document is what the server of the endpoint answered. -/
theorem registryDocument_answered [ResolverExternals] (endpoint tld : String) :
    Returns (fun registry => ∃ n response bytes value, env.httpGet n
        (Text.trimEndMatches '/' endpoint ++ "/v1/tld-registry/" ++ tld) = .ok response ∧
      Environment.readCapped response (4 * 1024 * 1024) = .ok bytes ∧
        ResolverExternals.jsonValue bytes = .ok value ∧
          ResolverExternals.registryFromValue value = .ok registry)
      (registryDocument env endpoint tld) := by
  have got : Returns (fun value => ∃ n response bytes, env.httpGet n
        (Text.trimEndMatches '/' endpoint ++ "/v1/tld-registry/" ++ tld) = .ok response ∧
      Environment.readCapped response (4 * 1024 * 1024) = .ok bytes ∧
        ResolverExternals.jsonValue bytes = .ok value)
      (getJson env (Text.trimEndMatches '/' endpoint ++ "/v1/tld-registry/" ++ tld)) := by
    refine (getCapped_answered env _ _).bind fun bytes arrived =>
      (returns_lift _).mono fun value parsed => ?_
    obtain ⟨n, response, answered, whole⟩ := arrived
    exact ⟨n, response, bytes, answered, whole, serde_eq_ok.mp parsed⟩
  refine got.bind fun value arrived => (returns_lift _).mono fun registry reads => ?_
  obtain ⟨n, response, bytes, answered, whole, parsed⟩ := arrived
  exact ⟨n, response, bytes, value, answered, whole, parsed, serde_eq_ok.mp reads⟩

end Federate
