import Federate.Reference.Resolver
import Federate.Relay
import Federate.Verif.Fetch

/-!
# Relayed requests

The programs of a serving node are those of its resolver, with native requests left open. A node
that does not hold what it is asked for asks its providers for it; so one request causes finitely
many others exactly when no circle of providers can be reached from the node that is asked.
-/

namespace Federate

open Outcome Stateful Asking Dialogue

/-! ## The programs of the resolver -/

section Answered

variable [Externals] [SerdeDocuments] [ResolverExternals]

/-- A native request of a resolver: dial, handshake and exchange. A registry is asked for only over
a session that knows registries. -/
def Resolver.reach (r : Resolver) (env : Environment) (addr : String) (message : Message) :
    ResolverM Message := do
  let version ← r.connect env addr
  match message with
  | .getTldRegistry _ => liftM (rejectIf (version < versionDelegatedRegistries)
      (FederateError.network
        (s!"provider speaks protocol v{version} (< v{versionDelegatedRegistries}); " ++
          "no delegated registry support")))
  | _ => pure ()
  ask fun n => env.exchange n addr message

namespace Relay

variable (r : Resolver) (env : Environment)

omit [Externals] in
theorem answered_fetchRootNative (addr : String) :
    answered (r.reach env) (fetchRootNative addr) = r.fetchRootNative env addr := by
  simp only [fetchRootNative, Resolver.fetchRootNative, answered_bind, answered_request,
    Resolver.reach, bind_assoc]
  refine bind_congr fun version => bind_congr fun message => ?_
  cases message <;> simp

theorem answered_refreshRoot : answered (r.reach env) (refreshRoot r env) = r.refreshRoot env := by
  simp only [refreshRoot, Resolver.refreshRoot, fetchRootNetwork, Resolver.fetchRootNetwork,
    answered_bind, answered_attempt, answered_tryEach, answered_fetchRootNative, answered_own]
  refine bind_congr fun outcome => ?_
  cases outcome with
  | ok zone =>
    simp only [answered_bind, answered_attempt, answered_own]
    refine bind_congr fun checked => ?_
    cases checked with
    | ok u => rfl
    | error e =>
      simp only [answered_bind, answered_attempt, answered_own]
      refine bind_congr fun cached => ?_
      cases cached <;> simp
  | error e =>
    simp only [answered_bind, answered_attempt, answered_own]
    refine bind_congr fun cached => ?_
    cases cached <;> simp

/-- `root`. -/
theorem answered_root : answered (r.reach env) (root r env) = r.root env := by
  simp only [root, Resolver.root, answered_bind, answered_own]
  refine bind_congr fun s => ?_
  cases s.root with
  | some zone => rfl
  | none => exact answered_refreshRoot r env

omit [SerdeDocuments] in
theorem answered_fetchManifestNative (hash addr : String) :
    answered (r.reach env) (fetchManifestNative hash addr) = r.fetchManifestNative env hash addr := by
  simp only [fetchManifestNative, Resolver.fetchManifestNative, answered_bind, answered_request,
    Resolver.reach, bind_assoc]
  refine bind_congr fun version => bind_congr fun message => ?_
  cases message <;> simp

omit [SerdeDocuments] in
/-- `manifest_bytes`. -/
theorem answered_manifestBytes (hash : String) :
    answered (r.reach env) (manifestBytes r env hash) = r.manifestBytes env hash := by
  have fetched : answered (r.reach env) (fetchManifestNetwork r env hash) =
      r.fetchManifestNetwork env hash := by
    simp only [fetchManifestNetwork, Resolver.fetchManifestNetwork, answered_tryEach,
      answered_fetchManifestNative, answered_own]
  simp only [manifestBytes, Resolver.manifestBytes, answered_bind, answered_except, answered_own]
  refine bind_congr fun u => bind_congr fun s => ?_
  cases s.disk.manifests[hash]? with
  | none => simp [fetched]
  | some bytes =>
    by_cases genuine : verifyHash bytes hash = .ok () <;> simp [genuine, fetched]

theorem answered_fetchRegistryNative (tld operatorPublicKey addr : String) :
    answered (r.reach env) (fetchRegistryNative tld operatorPublicKey addr) =
      r.fetchRegistryNative env tld operatorPublicKey addr := by
  simp only [fetchRegistryNative, Resolver.fetchRegistryNative, Resolver.nativeRegistryDocument,
    answered_bind, answered_request, Resolver.reach, bind_assoc]
  refine bind_congr fun version => bind_congr fun u => bind_congr fun message => ?_
  cases message <;> simp

/-- `tld_registry`. -/
theorem answered_tldRegistry (tldRec : TldRecord) :
    answered (r.reach env) (tldRegistry r env tldRec) = r.tldRegistry env tldRec := by
  have pinned : answered (r.reach env) (pinnedRegistry r env tldRec) =
      r.pinnedRegistry env tldRec := by
    simp only [pinnedRegistry, Resolver.pinnedRegistry, answered_bind, answered_except,
      answered_attempt, answered_manifestBytes]
    refine bind_congr fun hash => bind_congr fun outcome => ?_
    cases outcome <;> simp
  have live : answered (r.reach env) (liveRegistry env tldRec) = r.liveRegistry env tldRec := by
    simp only [liveRegistry, Resolver.liveRegistry, fetchRegistryLive, Resolver.fetchRegistryLive,
      answered_bind, answered_attempt, answered_tryEach, answered_fetchRegistryNative,
      answered_own]
    refine bind_congr fun outcome => ?_
    cases outcome with
    | ok registry =>
      simp only [answered_bind, answered_own]
      refine bind_congr fun cached => ?_
      cases cached with
      | none => simp
      | some cached =>
        by_cases older : registry.version < cached.version <;> simp [older]
    | error e =>
      by_cases forged : Resolver.isVerificationFailed e = true
      · simp [forged]
      · simp only [forged, if_false, Bool.false_eq_true, answered_bind, answered_own]
        refine bind_congr fun cached => ?_
        cases cached <;> simp
  unfold tldRegistry Resolver.tldRegistry
  cases tldRec.registryType with
  | delegatedManifest => exact pinned
  | delegatedNative => exact live
  | delegatedHttp => exact live
  | rootManaged => rfl
  | offlineManual => rfl

/-- `tld_registry_by_name`. -/
theorem answered_tldRegistryByName (tld : String) :
    answered (r.reach env) (tldRegistryByName r env tld) = r.tldRegistryByName env tld := by
  simp only [tldRegistryByName, Resolver.tldRegistryByName, answered_bind, answered_root,
    answered_except, answered_tldRegistry]

omit [SerdeDocuments] in
theorem answered_fetchBlockNative (hash addr : String) :
    answered (r.reach env) (fetchBlockNative hash addr) = r.fetchBlockNative env hash addr := by
  simp only [fetchBlockNative, Resolver.fetchBlockNative, answered_bind, answered_request,
    answered_except, Resolver.reach, bind_assoc]
  refine bind_congr fun u => bind_congr fun version => bind_congr fun message => ?_
  cases message <;> simp

omit [SerdeDocuments] in
/-- `fetch_and_cache_block`. -/
theorem answered_fetchAndCacheBlock (hash : String) :
    answered (r.reach env) (fetchAndCacheBlock r env hash) = r.blockTraced env hash := by
  simp only [fetchAndCacheBlock, Resolver.blockTraced, answered_bind, answered_attempt,
    answered_own]
  refine bind_congr fun outcome => ?_
  cases outcome with
  | ok bytes => rfl
  | error e =>
    simp only [fetchBlockNetwork, Resolver.fetchBlockNetwork, answered_bind, answered_own,
      answered_tryEach, answered_fetchBlockNative, answered_pure]

/-- `resolve_domain`. -/
theorem answered_resolveDomain (host : String) :
    answered (r.reach env) (resolveDomain r env host) = r.resolveDomain env host := by
  have located (root : RootZone) (tldRec : TldRecord) (fqdn : String) :
      answered (r.reach env) (locateRecord r env root tldRec fqdn) =
        r.locateRecord env root tldRec fqdn := by
    unfold locateRecord Resolver.locateRecord
    cases tldRec.registryType <;> simp [answered_tldRegistry]
  simp only [resolveDomain, Resolver.resolveDomain, answered_bind, answered_except,
    answered_root, answered_own, answered_pure, located]

end Relay

end Answered

/-! ## Resolvers that hold nothing -/

/-- The second state holds what the first does, but for manifests that were removed. -/
structure Fades (s s' : ResolverState) : Prop where
  /-- The zone in memory stays. -/
  root : s'.root = s.root
  /-- The blocks stay. -/
  blocks : s'.disk.blocks = s.disk.blocks
  /-- The registries stay. -/
  registries : s'.disk.registries = s.disk.registries
  /-- No manifest is added. -/
  manifests : ∀ (hash : String) (bytes : Bytes), s'.disk.manifests[hash]? = some bytes →
    s.disk.manifests[hash]? = some bytes

/-- Time passes. -/
theorem Fades.ticks (s : ResolverState) (n : ℕ) : Fades s { s with ticks := n } :=
  ⟨rfl, rfl, rfl, fun _ _ found => found⟩

theorem Fades.refl (s : ResolverState) : Fades s s := ⟨rfl, rfl, rfl, fun _ _ found => found⟩

theorem Fades.trans {s s' s'' : ResolverState} (first : Fades s s') (second : Fades s' s'') :
    Fades s s'' where
  root := second.root.trans first.root
  blocks := second.blocks.trans first.blocks
  registries := second.registries.trans first.registries
  manifests hash bytes found := first.manifests hash bytes (second.manifests hash bytes found)

/-- An answer that brings nothing: an error message, or a connection that fails. -/
inductive Miss : Result Message → Prop
  | refused (code : ErrorCode) (detail : String) : Miss (.ok (.error code detail))
  | unreachable (text : String) : Miss (.error (.network text))

/-- A search that ends without a result. -/
def Failed {α : Type} (outcome : Result α) : Prop := ∃ e, outcome = .error e

/-- What a program does that finds nothing. -/
def Searches {α : Type} (program : ResolverM α) : Prop :=
  ∀ s, Failed (exec program s).1 ∧ Fades s (exec program s).2

/-- What only costs operations and returns nothing finds nothing. -/
theorem searches_of_returns {α : Type} {program : ResolverM α} (keeps : Keeps OnlyTicks program)
    (nothing : Returns (fun _ => False) program) : Searches program := by
  intro s
  have ticks := keeps s
  obtain ⟨n, -, same⟩ := ticks
  have fades : Fades s (exec program s).2 := same ▸ .ticks s n
  cases outcome : (exec program s).1 with
  | error e => exact ⟨⟨e, rfl⟩, fades⟩
  | ok a => exact (nothing s _ a (Prod.ext outcome rfl)).elim

section Lacking

variable [Externals]

/-- No manifest is held under an address. -/
def LacksManifest (hash : String) (s : ResolverState) : Prop :=
  ∀ bytes, s.disk.manifests[hash]? = some bytes → verifyHash bytes hash ≠ .ok ()

/-- Blocks of which none has an address. -/
def LacksBlock (hash : String) (blocks : Table String Bytes) : Prop :=
  ∀ bytes, blocks[hash]? = some bytes → verifyHash bytes hash ≠ .ok ()

/-- The registry of a TLD record is not held: neither as a pinned manifest nor as a cached one. -/
def LacksRegistry [SerdeDocuments] (tldRec : TldRecord) (s : ResolverState) : Prop :=
  match tldRec.registryType with
  | .delegatedManifest => ∀ hash, tldRec.registryManifestHash = some hash → LacksManifest hash s
  | _ => (exec (Resolver.cachedRegistry tldRec) s).1 = .ok none

end Lacking

section Searches

variable [Externals] [ResolverExternals]

/-- No HTTP server has a content of this address, within a size limit. -/
def Environment.Withholds (env : Environment) (max : ℕ) (hash : String) : Prop :=
  ∀ n url resp bytes, env.httpGet n url = .ok resp →
    Environment.readCapped resp max = .ok bytes → hashBytes bytes ≠ hash

/-- No HTTP server has a verified registry of this TLD. -/
def Environment.WithholdsRegistry (env : Environment) (tldRec : TldRecord) : Prop :=
  ∀ n url resp bytes value registry, env.httpGet n url = .ok resp →
    Environment.readCapped resp (4 * 1024 * 1024) = .ok bytes →
    ResolverExternals.jsonValue bytes = .ok value →
    ResolverExternals.registryFromValue value = .ok registry →
      registry.verify tldRec.tld tldRec.operatorPublicKey ≠ .ok ()

omit [Externals] in
/-- The nodes that the directory's answer to an operation names for a block; an answer that does not
read as a list of nodes names none. -/
def Resolver.named (r : Resolver) (env : Environment) (n : ℕ) (hash : String) : List NodeEntry :=
  match r.directory with
  | none => []
  | some base =>
    (do
      let resp ← env.httpGet n (base ++ "/v1/providers/" ++ hash)
      let chunks ← resp.chunks.mapM id
      let value ← ResolverExternals.jsonValue chunks.flatten
      ResolverExternals.nodesFromValue (value.index "providers")).toOption.getD []

omit [Externals] in
/-- The nodes of a block are those that the directory names. -/
theorem Resolver.discoverProviders_named (r : Resolver) (env : Environment) (hash : String)
    (s : ResolverState) :
    (exec (r.discoverProviders env hash) s).1 = .ok (r.named env s.ticks hash) := by
  unfold discoverProviders named
  cases r.directory with
  | none => rfl
  | some base =>
    simp only [directoryProviders, exec_bind, exec_attempt, exec_ask, exec_pure]
    cases env.httpGet s.ticks (base ++ "/v1/providers/" ++ hash) with
    | error e => rfl
    | ok resp =>
      simp only [mapError, exec_lift, bind, Except.bind]
      cases resp.chunks.mapM id with
      | error e => rfl
      | ok chunks =>
        simp only
        cases ResolverExternals.jsonValue chunks.flatten with
        | error e => rfl
        | ok value =>
          simp only
          cases ResolverExternals.nodesFromValue (value.index "providers") <;> rfl

variable {env : Environment} {hash : String}

omit [ResolverExternals] in
theorem searches_fetchManifestBytes (withholds : env.Withholds maxManifestBytes hash)
    (c : NodeClient) : Searches (c.fetchManifestBytes env hash) := by
  refine searches_of_returns (keeps_fetchManifestBytes env c hash) ?_
  refine (returns_any _).bind fun _ _ => (getCapped_answered env _ _).bind fun bytes answered =>
    (returns_lift _).bind fun _ valid => ?_
  obtain ⟨n, resp, got, read⟩ := answered
  exact absurd (verifyHash_eq_ok.mp valid).2 (withholds n _ resp bytes got read)

omit [ResolverExternals] in
theorem returns_fetchBlock (withholds : env.Withholds maxBlockBytes hash) (c : NodeClient) :
    Returns (fun _ => False) (c.fetchBlock env hash) := by
  refine (returns_any _).bind fun _ _ => (getCapped_answered env _ _).bind fun bytes answered =>
    (returns_lift _).bind fun _ valid => ?_
  obtain ⟨n, resp, got, read⟩ := answered
  exact absurd (verifyHash_eq_ok.mp valid).2 (withholds n _ resp bytes got read)

omit [ResolverExternals] in
theorem returns_fetchBlockFrom (withholds : env.Withholds maxBlockBytes hash) (p : NodeEntry) :
    Returns (fun _ => False) (fetchBlockFrom env p hash) := by
  refine (returns_any _).bind fun _ _ => (ask_answered _).bind fun resp answered =>
    (returns_any _).bind fun _ _ => (returns_lift _).bind fun bytes read =>
      (returns_lift _).bind fun _ valid => ?_
  obtain ⟨n, got⟩ := answered
  exact absurd (verifyHash_eq_ok.mp valid).2
    (withholds n _ resp bytes (mapError_eq_ok.mp got) read)

omit [ResolverExternals] in
/-- The HTTP search for a block. -/
theorem searches_blockEndpoints (withholds : env.Withholds maxBlockBytes hash) (c : NodeClient)
    (ranked : List NodeEntry) : Searches (Stateful.tryEach (fun _ => false)
      (fun p => fetchBlockFrom env p hash) (c.fetchBlock env hash) ranked) :=
  searches_of_returns (.tryEach (fun p => keeps_fetchBlockFrom env p hash)
      (keeps_fetchBlock env c hash) ranked)
    (.tryEach (returns_fetchBlockFrom withholds) (returns_fetchBlock withholds c) ranked)

/-- The HTTP search for a registry. -/
theorem searches_registryEndpoints {tldRec : TldRecord}
    (withholds : env.WithholdsRegistry tldRec) :
    Searches (Stateful.tryEach Resolver.isVerificationFailed
      (fun endpoint => fetchRegistry env endpoint tldRec.operatorPublicKey tldRec.tld)
      (throw (.delegatedRegistryUnavailable tldRec.tld "no registry provider answered"))
      tldRec.registryEndpoint.toList) := by
  refine searches_of_returns (.tryEach (fun endpoint => keeps_fetchRegistry env endpoint _ _)
    (keeps_throw _) _) (.tryEach (fun endpoint => ?_) (returns_throw _) _)
  refine (registryDocument_answered env endpoint tldRec.tld).bind fun registry arrived =>
    (returns_lift _).bind fun _ verified => ?_
  obtain ⟨n, resp, bytes, value, got, read, parsed, reads⟩ := arrived
  exact absurd verified (withholds n _ resp bytes value registry got read parsed reads)

end Searches

/-! ## What a resolver asks that holds nothing -/

namespace Relay

section Rules

variable {I : ResolverState → Prop} {α β : Type}

/-- A search that asks nobody. -/
theorem asks_search (fades : ∀ s s', I s → Fades s s' → I s') {program : ResolverM α}
    (searches : Searches program) : Asks I Miss Failed (own program : RelayM α) [] :=
  asks_own fun s kept => ⟨fades s _ kept (searches s).2, (searches s).1⟩

/-- The state that a program reads. -/
theorem asks_get : Asks I Miss (fun outcome => ∃ s, outcome = .ok s ∧ I s)
    (own get : RelayM ResolverState) [] := asks_own fun s kept => ⟨kept, s, rfl, kept⟩

theorem asks_throw {Q : Result α → Prop} {e : FederateError} (holds : Q (.error e)) :
    Asks I Miss Q (throw e : RelayM α) [] := asks_own fun _ kept => ⟨kept, holds⟩

/-- A request whose answer is a miss. -/
theorem asks_exchange {Q : Result α → Prop} (addr : String) (message : Message)
    {next : Message → RelayM α}
    (refused : ∀ code detail, Asks I Miss Q (next (.error code detail)) [])
    (unreachable : ∀ text, Q (.error (.network text))) :
    Asks I Miss Q (request addr message >>= next) [(addr, message)] := by
  have asks : Asks I Miss Miss (request addr message : RelayM Message) [(addr, message)] :=
    asks_request addr message fun _ missed => missed
  refine asks.bind (fun answer missed => ?_) fun e missed => ⟨rfl, ?_⟩
  · cases missed with
    | refused code detail => exact refused code detail
  · cases missed with
    | unreachable text => exact unreachable text

/-- What fails ends a sequence. -/
theorem asks_failing {program : RelayM α} {next : α → RelayM β} {list : List (String × Message)}
    (asks : Asks I Miss Failed program list) :
    Asks I Miss Failed (program >>= next) list := by
  rw [← List.append_nil list]
  refine asks.bind (fun a failed => ?_) fun e failed => ⟨rfl, ⟨e, rfl⟩⟩
  obtain ⟨e, impossible⟩ := failed
  cases impossible

/-- A failure that is caught, and after which nobody is asked. -/
theorem asks_caught {program : RelayM α} {next : Result α → RelayM β}
    {list : List (String × Message)} (asks : Asks I Miss Failed program list)
    (goes : ∀ e, Asks I Miss Failed (next (.error e)) []) :
    Asks I Miss Failed (attempt program >>= next) list := by
  rw [← List.append_nil list]
  refine asks.attempt.bind (fun outcome caught => ?_) fun e caught => ?_
  · obtain ⟨outcome', same, e, failed⟩ := caught
    rw [Except.ok.inj same, failed]
    exact goes e
  · obtain ⟨outcome', impossible, -⟩ := caught
    cases impossible

/-- A search among providers that no failure ends. -/
theorem asks_each {fetch : String → RelayM α} {fallback : RelayM α} {addrs : List String}
    {message : Message} {last : List (String × Message)} {Q : Result α → Prop}
    (each : ∀ addr ∈ addrs, Asks I Miss Failed (fetch addr) [(addr, message)])
    (final : Asks I Miss Q fallback last) :
    Asks I Miss Q (tryEach (fun _ => false) fetch fallback addrs)
      (addrs.map (fun addr => (addr, message)) ++ last) := by
  refine asks_tryEach (fun addr member s kept => ?_) final
  refine (each addr member s kept).mono fun outcome failed => ?_
  obtain ⟨e, failed⟩ := failed
  exact ⟨e, failed, rfl⟩

/-- A manifest that does not hash to its address is removed, or stays where that fails. -/
theorem asks_removal {env : Environment} (fades : ∀ s s', I s → Fades s s' → I s') (hash : String) :
    Asks I Miss (fun outcome => ∃ removed, outcome = .ok removed)
      (attempt (own (env.changeFile fun d => { d with manifests := d.manifests.erase hash })) :
        RelayM (Result Unit)) [] := by
  intro s kept
  refine Polls.done (fades s _ kept ?_) ⟨_, rfl⟩
  have passed := Fades.ticks s (s.ticks + 1)
  unfold Environment.changeFile
  rw [exec_bind, exec_ask]
  cases env.file s.ticks with
  | error e => exact passed
  | ok u =>
    refine passed.trans ⟨rfl, rfl, rfl, fun other bytes found => ?_⟩
    simp only [mapError, exec_modify, Std.ExtTreeMap.getElem?_erase] at found
    split at found
    · cases found
    · exact found

end Rules

section Asks

variable [Externals] [ResolverExternals] {I : ResolverState → Prop} {env : Environment}

/-- A manifest that is not held is asked for at every provider. -/
theorem asks_manifestBytes (fades : ∀ s s', I s → Fades s s' → I s') (r : Resolver)
    {hash : String} (withholds : env.Withholds maxManifestBytes hash)
    (lacks : ∀ s, I s → LacksManifest hash s) (valid : isValidHash hash = true) :
    Asks I Miss Failed (manifestBytes r env hash)
      (r.nativeProviders.map fun addr => (addr, .getManifest hash)) := by
  have network : Asks I Miss Failed (fetchManifestNetwork r env hash)
      (r.nativeProviders.map fun addr => (addr, .getManifest hash)) := by
    rw [← List.append_nil (r.nativeProviders.map _)]
    refine asks_each (fun addr _ => ?_)
      (asks_search fades (searches_fetchManifestBytes withholds r.client))
    exact asks_exchange addr _ (fun code detail => asks_throw ⟨_, rfl⟩) fun text => ⟨_, rfl⟩
  have fetched : Asks I Miss Failed
      (do
        let bytes ← fetchManifestNetwork r env hash
        own (env.changeFile fun d => { d with manifests := d.manifests.insert hash bytes })
        return bytes : RelayM Bytes)
      (r.nativeProviders.map fun addr => (addr, .getManifest hash)) :=
    asks_failing network
  have accepted : Asks I Miss (fun outcome => outcome = .ok ())
      (liftM (rejectIf (isValidHash hash = false) (FederateError.manifestNotFound hash)) :
        RelayM Unit) [] := by
    refine asks_own fun s kept => ⟨kept, ?_⟩
    simp [rejectIf, valid]
  unfold manifestBytes
  refine accepted.next (by simp) fun u _ => ?_
  refine asks_get.next (by simp) fun s read => ?_
  obtain ⟨s', same, kept⟩ := read
  rw [← Except.ok.inj same] at kept
  cases held : s.disk.manifests[hash]? with
  | none => exact fetched
  | some bytes =>
    simp only [lacks s kept bytes held, if_false]
    exact (asks_removal fades hash).next (by simp) fun removed _ => fetched

/-- A block that is not held is asked for at every default provider and at every node that the
directory names. -/
theorem asks_fetchAndCacheBlock (fades : ∀ s s', I s → Fades s s' → I s') (r : Resolver)
    {hash : String} {nodes : List NodeEntry} (named : ∀ n, r.named env n hash = nodes)
    (withholds : env.Withholds maxBlockBytes hash)
    (lacks : ∀ s, I s → LacksBlock hash s.disk.blocks) (valid : isValidHash hash = true) :
    Asks I Miss Failed (fetchAndCacheBlock r env hash)
      ((r.nativeAddrs (rankProviders nodes r.region)).map fun addr => (addr, .getBlock hash)) := by
  have missing : Asks I Miss (fun outcome => ∃ e, outcome = .ok (.error e))
      (attempt (own (Resolver.blockGet hash)) : RelayM (Result Bytes)) [] := by
    intro s kept
    have failed : ∃ e, exec (Resolver.blockGet hash) s = (.error e, s) := by
      unfold Resolver.blockGet
      cases held : s.disk.blocks[hash]? with
      | none => exact ⟨.blockNotFound hash, by simp [exec_bind, rejectIf, valid, held, okOr]⟩
      | some bytes =>
        cases checked : verifyHash bytes hash with
        | ok u => exact absurd checked (lacks s kept bytes held)
        | error e => exact ⟨e, by simp [exec_bind, rejectIf, valid, held, okOr, checked, Except.map]⟩
    obtain ⟨e, failed⟩ := failed
    refine Polls.done ?_ ⟨e, ?_⟩ <;> rw [failed]
    exact kept
  have found : Asks I Miss (fun outcome => outcome = .ok nodes)
      (own (r.discoverProviders env hash) : RelayM (List NodeEntry)) [] := by
    refine asks_own fun s kept => ?_
    obtain ⟨n, -, later⟩ := keeps_discoverProviders env r hash s
    have same := later ▸ Fades.ticks s n
    exact ⟨fades s _ kept same, named s.ticks ▸ r.discoverProviders_named env hash s⟩
  have each (addr : String) : Asks I Miss Failed (fetchBlockNative hash addr)
      [(addr, .getBlock hash)] := by
    have accepted : Asks I Miss (fun outcome => outcome = .ok ())
        (liftM (rejectIf (isValidHash hash = false) (FederateError.blockNotFound hash)) :
          RelayM Unit) [] := by
      refine asks_own fun s kept => ⟨kept, ?_⟩
      simp [rejectIf, valid]
    refine accepted.next (by simp) fun u _ => ?_
    exact asks_exchange addr _ (fun code detail => asks_throw ⟨_, rfl⟩) fun text => ⟨_, rfl⟩
  have network : Asks I Miss Failed (fetchBlockNetwork r env hash)
      ((r.nativeAddrs (rankProviders nodes r.region)).map fun addr => (addr, .getBlock hash)) := by
    refine found.next (by simp) fun others same => ?_
    rw [Except.ok.inj same, ← List.append_nil (List.map _ _)]
    exact asks_each (fun addr _ => each addr)
      (asks_search fades (searches_blockEndpoints withholds r.client _))
  refine missing.next (by simp) fun outcome failed => ?_
  obtain ⟨e, same⟩ := failed
  rw [Except.ok.inj same]
  exact asks_failing network

variable [SerdeDocuments]

/-- What is asked for a registry that is not held. -/
def registryAsked (r : Resolver) (tldRec : TldRecord) : List (String × Message) :=
  match tldRec.registryType with
  | .delegatedManifest =>
    match tldRec.registryManifestHash with
    | some hash =>
      if isValidHash hash then r.nativeProviders.map fun addr => (addr, .getManifest hash) else []
    | none => []
  | .delegatedNative | .delegatedHttp =>
    tldRec.registryProviders.map fun addr => (addr, .getTldRegistry tldRec.tld)
  | _ => []

/-- A pinned registry that is not held is asked for as a manifest. -/
theorem asks_pinnedRegistry (fades : ∀ s s', I s → Fades s s' → I s') (r : Resolver)
    (tldRec : TldRecord)
    (withholds : ∀ hash, tldRec.registryManifestHash = some hash →
      env.Withholds maxManifestBytes hash)
    (lacks : ∀ hash, tldRec.registryManifestHash = some hash → ∀ s, I s → LacksManifest hash s) :
    Asks I Miss Failed (pinnedRegistry r env tldRec)
      (match tldRec.registryManifestHash with
        | some hash =>
          if isValidHash hash then r.nativeProviders.map fun addr => (addr, .getManifest hash)
          else []
        | none => []) := by
  unfold pinnedRegistry
  cases pinned : tldRec.registryManifestHash with
  | none => exact asks_failing (asks_throw ⟨_, rfl⟩)
  | some hash =>
    have searched : Asks I Miss Failed (manifestBytes r env hash)
        (if isValidHash hash then r.nativeProviders.map fun addr => (addr, .getManifest hash)
          else []) := by
      split
      · rename_i valid
        exact asks_manifestBytes fades r (withholds hash pinned) (lacks hash pinned) valid
      · rename_i invalid
        refine asks_failing (asks_own fun s kept => ⟨kept, .manifestNotFound hash, ?_⟩)
        simp [rejectIf, invalid]
    have given : Asks I Miss (fun outcome => outcome = .ok hash)
        (liftM (okOr (some hash) (FederateError.delegatedRegistryUnavailable tldRec.tld
          "TLD record declares delegated_manifest but carries no registry_manifest_hash")) :
          RelayM String) [] := asks_own fun s kept => ⟨kept, rfl⟩
    refine given.next (by simp) fun hash' same => ?_
    rw [Except.ok.inj same]
    exact asks_caught searched fun e => asks_throw ⟨_, rfl⟩

/-- A live registry that is not held is asked for at every provider. -/
theorem asks_liveRegistry (fades : ∀ s s', I s → Fades s s' → I s') {tldRec : TldRecord}
    (withholds : env.WithholdsRegistry tldRec)
    (lacks : ∀ s, I s → (exec (Resolver.cachedRegistry tldRec) s).1 = .ok none) :
    Asks I Miss Failed (liveRegistry env tldRec)
      (tldRec.registryProviders.map fun addr => (addr, .getTldRegistry tldRec.tld)) := by
  have live : Asks I Miss Failed (fetchRegistryLive env tldRec)
      (tldRec.registryProviders.map fun addr => (addr, .getTldRegistry tldRec.tld)) := by
    rw [← List.append_nil (List.map _ _)]
    -- A miss is no forgery, so that it does not end the search.
    refine asks_tryEach (fun addr _ => ?_)
      (asks_search fades (searches_registryEndpoints withholds))
    exact asks_exchange (Q := fun outcome => ∃ e, outcome = .error e ∧
        Resolver.isVerificationFailed e = false) addr _
      (fun code detail => asks_throw ⟨_, rfl, rfl⟩) fun text => ⟨_, rfl, rfl⟩
  have cached : Asks I Miss (fun outcome => outcome = .ok none)
      (own (Resolver.cachedRegistry tldRec) : RelayM (Option TldRegistry)) [] :=
    asks_own fun s kept => ⟨kept, lacks s kept⟩
  unfold liveRegistry
  refine asks_caught live fun e => ?_
  by_cases forged : Resolver.isVerificationFailed e = true
  · simp only [forged, if_true]
    exact asks_throw ⟨e, rfl⟩
  · simp only [forged, if_false, Bool.false_eq_true]
    refine cached.next (by simp) fun found none => ?_
    rw [Except.ok.inj none]
    exact asks_throw ⟨e, rfl⟩

/-- A registry that is not held. -/
theorem asks_tldRegistry (fades : ∀ s s', I s → Fades s s' → I s') (r : Resolver)
    {tldRec : TldRecord} (withholds : env.WithholdsRegistry tldRec)
    (pinned : ∀ hash, tldRec.registryManifestHash = some hash →
      env.Withholds maxManifestBytes hash)
    (lacks : ∀ s, I s → LacksRegistry tldRec s) :
    Asks I Miss Failed (tldRegistry r env tldRec) (registryAsked r tldRec) := by
  unfold tldRegistry registryAsked
  unfold LacksRegistry at lacks
  cases kind : tldRec.registryType with
  | delegatedManifest =>
    simp only [kind] at lacks
    exact asks_pinnedRegistry fades r tldRec pinned fun hash pinned s kept =>
      lacks s kept hash pinned
  | delegatedNative =>
    simp only [kind] at lacks
    exact asks_liveRegistry fades withholds lacks
  | delegatedHttp =>
    simp only [kind] at lacks
    exact asks_liveRegistry fades withholds lacks
  | rootManaged => exact asks_throw ⟨_, rfl⟩
  | offlineManual => exact asks_throw ⟨_, rfl⟩

/-- A registry that is not held, by the name of its TLD. -/
theorem asks_tldRegistryByName (fades : ∀ s s', I s → Fades s s' → I s') (r : Resolver)
    {tld : String} {zone : RootZone} (zoned : ∀ s, I s → s.root = some zone)
    (withholds : ∀ tldRec, zone.lookupTld tld = some tldRec → env.WithholdsRegistry tldRec ∧
      ∀ hash, tldRec.registryManifestHash = some hash → env.Withholds maxManifestBytes hash)
    (lacks : ∀ tldRec, zone.lookupTld tld = some tldRec → ∀ s, I s → LacksRegistry tldRec s) :
    Asks I Miss Failed (tldRegistryByName r env tld)
      (match zone.lookupTld tld with
        | some tldRec => registryAsked r tldRec
        | none => []) := by
  have held : Asks I Miss (fun outcome => outcome = .ok zone) (root r env) [] := by
    refine asks_get.next (by simp) fun s read => ?_
    obtain ⟨s', same, kept⟩ := read
    rw [← Except.ok.inj same] at kept
    rw [zoned s kept]
    exact asks_pure rfl
  refine held.next (by simp) fun found same => ?_
  rw [Except.ok.inj same]
  cases known : zone.lookupTld tld with
  | none => exact asks_failing (asks_throw ⟨_, rfl⟩)
  | some tldRec =>
    have given : Asks I Miss (fun outcome => outcome = .ok tldRec)
        (liftM (okOr (some tldRec) (FederateError.tldNotFound tld)) : RelayM TldRecord) [] :=
      asks_own fun s kept => ⟨kept, rfl⟩
    refine given.next (by simp) fun other same => ?_
    rw [Except.ok.inj same]
    obtain ⟨live, pinned⟩ := withholds tldRec known
    exact asks_tldRegistry fades r live pinned (lacks tldRec known)

end Asks

end Relay

/-! ## What a node asks that holds nothing -/

section Nodes

variable [Externals] [SerdeDocuments] [ResolverExternals]

namespace NativeService

variable (service : NativeService) (zone : RootZone) (names : String → List NodeEntry)

/-- A node whose resolver has this zone in memory does not hold what a request asks for. -/
def Lacks (s : ResolverState) : Message → Prop
  | .getManifest hash => LacksManifest hash s
  | .getBlock hash => LacksBlock hash s.disk.blocks
  | .getTldRegistry tld => service.localRegistries[tld]? = none ∧ s.root = some zone ∧
      ∀ tldRec, zone.lookupTld tld = some tldRec → LacksRegistry tldRec s
  | _ => False

/-- A node holds nothing of what these requests ask for. -/
structure LacksAll (requests : Message → Prop) (s : NodeState) : Prop where
  /-- Its resolver does not. -/
  resolver : ∀ m, requests m → service.Lacks zone s.resolver m
  /-- Its block cache does not. -/
  cache : ∀ hash, requests (.getBlock hash) → LacksBlock hash s.cache.store

/-- No HTTP server that the node meets has what a request asks for, and the directory, whenever it
is asked for a block, names these nodes. -/
def Withheld (env : Environment) : Message → Prop
  | .getManifest hash => env.Withholds maxManifestBytes hash
  | .getBlock hash => env.Withholds maxBlockBytes hash ∧
      ∀ n, service.resolver.named env n hash = names hash
  | .getTldRegistry tld => ∀ tldRec, zone.lookupTld tld = some tldRec →
      env.WithholdsRegistry tldRec ∧
        ∀ hash, tldRec.registryManifestHash = some hash → env.Withholds maxManifestBytes hash
  | _ => True

/-- What the node asks for a request that it cannot answer from what it holds, when the directory
names these nodes. -/
def asked : Message → List (String × Message)
  | .getManifest hash =>
    if isValidHash hash then
      service.resolver.nativeProviders.map fun addr => (addr, .getManifest hash)
    else []
  | .getBlock hash =>
    if isValidHash hash = true ∧ service.cache.isSome = true ∧ service.fetchOnMiss = true then
      (service.resolver.nativeAddrs
        (rankProviders (names hash) service.resolver.region)).map fun addr => (addr, .getBlock hash)
    else []
  | .getTldRegistry tld =>
    match zone.lookupTld tld with
    | some tldRec => Relay.registryAsked service.resolver tldRec
    | none => []
  | _ => []

variable {service zone names}

omit [ResolverExternals] in
/-- A resolver holds no more after a removal. -/
theorem Lacks.fades {s s' : ResolverState} (fades : Fades s s') {m : Message}
    (lacks : service.Lacks zone s m) : service.Lacks zone s' m := by
  have manifest {hash : String} (lacks : LacksManifest hash s) : LacksManifest hash s' :=
    fun bytes found => lacks bytes (fades.manifests hash bytes found)
  cases m with
  | getManifest hash => exact manifest lacks
  | getBlock hash =>
    change LacksBlock hash s'.disk.blocks
    rw [fades.blocks]
    exact lacks
  | getTldRegistry tld =>
    obtain ⟨notLocal, zoned, registry⟩ := lacks
    refine ⟨notLocal, fades.root.trans zoned, fun tldRec known => ?_⟩
    have before := registry tldRec known
    have cached : exec (Resolver.cachedRegistry tldRec) s' =
        ((exec (Resolver.cachedRegistry tldRec) s).1, s') := by
      simp [Resolver.cachedRegistry, Except.map, fades.registries]
    unfold LacksRegistry at before ⊢
    cases kind : tldRec.registryType with
    | delegatedManifest =>
      simp only [kind] at before ⊢
      exact fun hash pinned => manifest (before hash pinned)
    | _ =>
      simp only [kind] at before ⊢
      rw [cached]
      exact before
  | _ => exact lacks.elim

/-- An answer that refuses. -/
def Refused (outcome : Result Message) : Prop := ∃ code detail, outcome = .ok (.error code detail)

variable {requests : Message → Prop} {env : Environment}

omit [ResolverExternals] in
/-- A search of the resolver after which the node refuses. -/
theorem asks_resolving {α : Type} {program : RelayM α} {next : Result α → ServiceM Message}
    {list : List (String × Message)}
    (asks : Asks (fun s => ∀ m, requests m → service.Lacks zone s m) Miss Failed program list)
    (refuses : ∀ e, ∃ code detail, next (.error e) = pure (.error code detail)) :
    Asks (service.LacksAll zone requests) Miss Refused (attempt (resolving program) >>= next)
      list := by
  have whole : Asks (service.LacksAll zone requests) Miss Failed (resolving program) list :=
    fun s kept => (asks s.resolver kept.resolver).zoom (fun s kept => kept.resolver)
      (fun resolver s lacks kept => ⟨lacks, kept.cache⟩) kept
  rw [← List.append_nil list]
  refine whole.attempt.bind (fun outcome caught => ?_) fun e caught => ?_
  · obtain ⟨outcome', same, e, failed⟩ := caught
    obtain ⟨code, detail, refused⟩ := refuses e
    rw [Except.ok.inj same, failed, refused]
    exact asks_pure ⟨code, detail, rfl⟩
  · obtain ⟨outcome', impossible, -⟩ := caught
    cases impossible

/-- A request for a manifest. -/
theorem asks_getManifest {hash : String} (asked : requests (.getManifest hash))
    (withheld : service.Withheld zone names env (.getManifest hash)) :
    Asks (service.LacksAll zone requests) Miss Refused (service.getManifest env hash)
      (service.asked zone names (.getManifest hash)) := by
  unfold getManifest
  simp only [NativeService.asked]
  by_cases valid : isValidHash hash = true
  · rw [if_pos valid, if_neg (by simp [valid])]
    refine asks_resolving ?_ fun e => ⟨_, _, rfl⟩
    exact Relay.asks_manifestBytes (fun s s' lacks fades m member => (lacks m member).fades fades)
      _ withheld (fun s lacks => lacks _ asked) valid
  · rw [if_neg valid, if_pos (by simpa using valid)]
    exact asks_pure ⟨_, _, rfl⟩

/-- A request for a block. -/
theorem asks_getBlock {hash : String} (asked : requests (.getBlock hash))
    (withheld : service.Withheld zone names env (.getBlock hash)) :
    Asks (service.LacksAll zone requests) Miss Refused (service.getBlock env hash)
      (service.asked zone names (.getBlock hash)) := by
  unfold getBlock
  simp only [NativeService.asked]
  by_cases valid : isValidHash hash = true
  · rw [if_neg (by simp [valid])]
    cases serves : service.cache with
    | none =>
      rw [if_neg (by simp)]
      exact asks_pure ⟨_, _, rfl⟩
    | some maxBytes =>
      have read : Asks (service.LacksAll zone requests) Miss
          (fun outcome => ∃ s, outcome = .ok s ∧ service.LacksAll zone requests s)
          (own get : ServiceM NodeState) [] := asks_own fun s kept => ⟨kept, s, rfl, kept⟩
      refine read.next (by simp) fun s found => ?_
      obtain ⟨s', same, kept⟩ := found
      rw [← Except.ok.inj same] at kept
      have missing : ∃ e, s.cache.get (nowSecs env s) hash = .error e := by
        cases got : s.cache.get (nowSecs env s) hash with
        | error e => exact ⟨e, rfl⟩
        | ok found =>
          simp only [CdnCache.get, bind_eq_ok, okOr_eq_ok] at got
          obtain ⟨-, -, bytes, held, u, genuine, -⟩ := got
          exact absurd genuine (kept.cache hash asked bytes held)
      obtain ⟨e, failed⟩ := missing
      simp only [failed, valid, Option.isSome_some, true_and]
      by_cases fetches : service.fetchOnMiss = true
      · rw [if_pos fetches, if_pos fetches]
        refine asks_resolving ?_ fun e => ⟨_, _, rfl⟩
        exact Relay.asks_fetchAndCacheBlock
          (fun s s' lacks fades m member => (lacks m member).fades fades) _ withheld.2 withheld.1
          (fun s lacks => lacks _ asked) valid
      · rw [if_neg fetches, if_neg fetches]
        exact asks_pure ⟨_, _, rfl⟩
  · rw [if_pos (by simpa using valid), if_neg (by simp [valid])]
    exact asks_pure ⟨_, _, rfl⟩

/-- A request for a registry. -/
theorem asks_getTldRegistry {tld : String} (asked : requests (.getTldRegistry tld))
    (withheld : service.Withheld zone names env (.getTldRegistry tld)) :
    Asks (service.LacksAll zone requests) Miss Refused (service.getTldRegistry env tld)
      (service.asked zone names (.getTldRegistry tld)) := by
  intro s kept
  obtain ⟨notLocal, -, -⟩ := kept.resolver _ asked
  revert s
  unfold getTldRegistry
  rw [notLocal]
  intro s kept
  refine asks_resolving ?_ (fun e => ⟨_, _, rfl⟩) s kept
  exact Relay.asks_tldRegistryByName
    (fun s s' lacks fades m member => (lacks m member).fades fades) _
    (fun s lacks => (lacks _ asked).2.1) withheld
    fun tldRec known s lacks => (lacks _ asked).2.2 tldRec known

omit [SerdeDocuments] [ResolverExternals] in
/-- A message is framed, or too long for a frame. -/
theorem encode_cases (m : Message) :
    (∃ frame, encode m = .ok frame) ∨ ∃ text, encode m = .error (.network text) := by
  have fails : FailsWith (fun e => ∃ text, e = .network text) (encode m) :=
    (failsWith_rejectIf ⟨_, rfl⟩).bind fun _ e impossible => by cases impossible
  rcases error_or_ok (encode m) with failed | sent
  · obtain ⟨e, failed⟩ := failed
    obtain ⟨text, same⟩ := fails e failed
    exact .inr ⟨text, same ▸ failed⟩
  · exact .inl sent

/-- A node that holds nothing of what it is asked for asks others, and answers with a miss. -/
theorem asks_respond {m : Message} (asked : requests m)
    (withheld : service.Withheld zone names env m) :
    Asks (service.LacksAll zone requests) Miss Miss (service.respond env m)
      (service.asked zone names m) := by
  have handled : Asks (service.LacksAll zone requests) Miss Refused (service.handle env m)
      (service.asked zone names m) := by
    intro s kept
    have lacks := kept.resolver m asked
    cases m with
    | getManifest hash => exact asks_getManifest asked withheld s kept
    | getBlock hash => exact asks_getBlock asked withheld s kept
    | getTldRegistry tld => exact asks_getTldRegistry asked withheld s kept
    | _ => exact lacks.elim
  unfold respond
  rw [← List.append_nil (service.asked zone names m)]
  refine handled.bind (fun response refused => ?_) fun e impossible => by
    obtain ⟨code, detail, same⟩ := impossible
    cases same
  obtain ⟨code, detail, same⟩ := refused
  rw [Except.ok.inj same]
  rcases encode_cases (.error code detail) with sent | refusal
  · obtain ⟨frame, sent⟩ := sent
    rw [sent]
    exact fun s kept => .done kept (.refused code detail)
  · obtain ⟨text, refusal⟩ := refusal
    rw [refusal]
    exact fun s kept => .done kept (.unreachable text)

omit [Externals] [SerdeDocuments] in
/-- Where a node sends requests, and what it asks for beside what it was asked for. -/
theorem asked_bounds {m : Message} {x : String × Message}
    (member : x ∈ service.asked zone names m) :
    (x.1 ∈ service.resolver.nativeProviders ∨ (∃ hash, m = .getBlock hash ∧
        x.1 ∈ service.resolver.nativeAddrs
          (rankProviders (names hash) service.resolver.region)) ∨
      ∃ p ∈ zone.tlds.toList, x.1 ∈ p.2.registryProviders) ∧
    (x.2 = m ∨ ∃ p ∈ zone.tlds.toList, x.2 = .getTldRegistry p.2.tld ∨
      ∃ hash, p.2.registryManifestHash = some hash ∧ x.2 = .getManifest hash) := by
  cases m with
  | getManifest hash =>
    simp only [asked] at member
    split at member
    · obtain ⟨addr, listed, same⟩ := List.mem_map.mp member
      exact same ▸ ⟨.inl listed, .inl rfl⟩
    · cases member
  | getBlock hash =>
    simp only [asked] at member
    split at member
    · obtain ⟨addr, listed, same⟩ := List.mem_map.mp member
      exact same ▸ ⟨.inr (.inl ⟨hash, rfl, listed⟩), .inl rfl⟩
    · cases member
  | getTldRegistry tld =>
    simp only [asked] at member
    cases known : zone.lookupTld tld with
    | none =>
      rw [known] at member
      cases member
    | some tldRec =>
      have filed : (tld, tldRec) ∈ zone.tlds.toList :=
        Std.ExtTreeMap.mem_toList_iff_getElem?_eq_some.mpr known
      simp only [known, Relay.registryAsked] at member
      cases kind : tldRec.registryType with
      | delegatedManifest =>
        simp only [kind] at member
        cases pinned : tldRec.registryManifestHash with
        | none =>
          rw [pinned] at member
          cases member
        | some hash =>
          simp only [pinned] at member
          split at member
          · obtain ⟨addr, listed, same⟩ := List.mem_map.mp member
            exact same ▸ ⟨.inl listed, .inr ⟨_, filed, .inr ⟨hash, pinned, rfl⟩⟩⟩
          · cases member
      | delegatedNative =>
        simp only [kind] at member
        obtain ⟨addr, listed, same⟩ := List.mem_map.mp member
        exact same ▸ ⟨.inr (.inr ⟨_, filed, listed⟩), .inr ⟨_, filed, .inl rfl⟩⟩
      | delegatedHttp =>
        simp only [kind] at member
        obtain ⟨addr, listed, same⟩ := List.mem_map.mp member
        exact same ▸ ⟨.inr (.inr ⟨_, filed, listed⟩), .inr ⟨_, filed, .inl rfl⟩⟩
      | rootManaged =>
        simp only [kind] at member
        cases member
      | offlineManual =>
        simp only [kind] at member
        cases member
  | _ => cases member

end NativeService

/-! ## The requests of a network -/

namespace Network

variable (net : Network) (zones : String → RootZone) (names : String → String → List NodeEntry)
  (start : String × Message)

/-- The requests that the node at an address sends for one that it cannot answer from what it
holds. -/
def asked (x : String × Message) : List (String × Message) :=
  match net.services[x.1]? with
  | some service => service.asked (zones x.1) (names x.1) x.2
  | none => []

/-- What is asked of a node in the end. -/
def InTheEnd (addr : String) (m : Message) : Prop :=
  Relation.ReflTransGen (Causes (net.asked zones names)) start (addr, m)

/-- Whatever is asked in the end, the node that is asked for it does not hold it. -/
def Unheld (states : String → NodeState) : Prop :=
  ∀ addr (service : NativeService), net.services[addr]? = some service →
    service.LacksAll (zones addr) (net.InTheEnd zones names start addr) (states addr)

/-- Nor does any HTTP server that this node meets have it; and while the directory is asked for a
block, it keeps naming the same nodes. -/
def Withheld : Prop :=
  ∀ addr (service : NativeService), net.services[addr]? = some service →
    ∀ m, net.InTheEnd zones names start addr m →
      service.Withheld (zones addr) (names addr) (net.env addr) m

variable {net zones names start}

/-- Nodes that hold nothing can only ask each other. -/
theorem onlyAsks (withheld : net.Withheld zones names start) :
    OnlyAsks (net.Unheld zones names start) Miss net.serve
      (Relation.ReflTransGen (Causes (net.asked zones names)) start) (net.asked zones names) where
  serves x reached states unheld := by
    unfold serve asked
    cases known : net.services[x.1]? with
    | none => exact .done unheld (.unreachable _)
    | some service =>
      have lacks := unheld x.1 service known
      have meets := withheld x.1 service known x.2 reached
      refine (service.asks_respond reached meets (states x.1) lacks).zoom ?_ ?_ unheld
      · exact fun states unheld => unheld x.1 service known
      · intro s states kept unheld addr other found
        by_cases same : addr = x.1
        · subst same
          rw [Function.update_self]
          rw [known] at found
          exact Option.some.inj found ▸ kept
        · rw [Function.update_of_ne same]
          exact unheld addr other found
  closed x reached y member := reached.tail member

omit [Externals] [SerdeDocuments] in
/-- Only finitely many requests can be caused in the end. -/
theorem finite_reachable :
    {y | Relation.ReflTransGen (Causes (net.asked zones names)) start y}.Finite := by
  let nodes : List (String × NativeService) := net.services.toList
  let records (addr : String) : List TldRecord := (zones addr).tlds.toList.map Prod.snd
  -- Only the block that is asked for first is ever asked for.
  let ranked (node : String × NativeService) : List String :=
    match start.2 with
    | .getBlock hash => node.2.resolver.nativeAddrs
        (rankProviders (names node.1 hash) node.2.resolver.region)
    | _ => []
  let addrs : List String := start.1 :: nodes.flatMap fun node =>
    node.2.resolver.nativeProviders ++ ranked node ++
      (records node.1).flatMap TldRecord.registryProviders
  let messages : List Message := start.2 :: nodes.flatMap fun node =>
    (records node.1).flatMap fun tldRec =>
      .getTldRegistry tldRec.tld :: tldRec.registryManifestHash.toList.map .getManifest
  have inside (y : String × Message)
      (reached : Relation.ReflTransGen (Causes (net.asked zones names)) start y) :
      y ∈ addrs ×ˢ messages := by
    rw [List.mem_product]
    induction reached with
    | refl => exact ⟨List.mem_cons_self, List.mem_cons_self⟩
    | @tail x y _ causes ih =>
      unfold Causes asked at causes
      cases known : net.services[x.1]? with
      | none =>
        rw [known] at causes
        cases causes
      | some service =>
        rw [known] at causes
        have node : (x.1, service) ∈ nodes :=
          Std.ExtTreeMap.mem_toList_iff_getElem?_eq_some.mpr known
        obtain ⟨whom, what⟩ := NativeService.asked_bounds causes
        constructor
        · refine List.mem_cons_of_mem _ (List.mem_flatMap.mpr ⟨_, node, ?_⟩)
          simp only [List.mem_append, List.mem_flatMap, records, List.mem_map]
          rcases whom with provider | ⟨hash, block, discovered⟩ | ⟨p, filed, listed⟩
          · exact .inl (.inl provider)
          · have first : x.2 = start.2 := by
              rcases List.mem_cons.mp ih.2 with same | derived
              · exact same
              · obtain ⟨node, -, derived⟩ := List.mem_flatMap.mp derived
                obtain ⟨tldRec, -, derived⟩ := List.mem_flatMap.mp derived
                rw [block] at derived
                simp at derived
            refine .inl (.inr ?_)
            simp only [ranked, ← first, block]
            exact discovered
          · exact .inr ⟨p.2, ⟨p, filed, rfl⟩, listed⟩
        · rcases what with same | ⟨p, filed, what⟩
          · exact same ▸ ih.2
          · refine List.mem_cons_of_mem _ (List.mem_flatMap.mpr ⟨_, node, ?_⟩)
            refine List.mem_flatMap.mpr ⟨p.2, List.mem_map_of_mem filed, ?_⟩
            rcases what with registry | ⟨hash, pinned, manifest⟩
            · rw [registry]
              exact List.mem_cons_self
            · rw [manifest, pinned]
              simp
  exact (List.finite_toSet (addrs ×ˢ messages)).subset inside

end Network

end Nodes

end Federate

namespace Federate.Reference

open Dialogue Outcome

/-- A node with these default providers that serves no blocks and provides no registry. -/
def serviceWith (providers : List String) : NativeService where
  nodeId := ""
  roles := []
  region := ""
  resolver := { resolver with nativeProviders := providers }
  cache := none
  fetchOnMiss := false
  localRegistries := ∅

/-- Two nodes of which the first has the second as its provider. -/
def twoNodes (back : List String) : Network where
  services := (∅ : Table String NativeService).insert "a:1" (serviceWith ["b:1"])
    |>.insert "b:1" (serviceWith back)
  env _ := offline

/-- A node that was just started. -/
def freshNode : NodeState := ⟨.new none .fresh 0, ⟨∅, ∅⟩⟩

/-- A manifest is asked for by the same request all along. -/
theorem twoNodes_manifest {back : List String} {zones : String → RootZone}
    {names : String → String → List NodeEntry} {hash : String} {x : String × Message}
    (reached : Relation.ReflTransGen (Causes ((twoNodes back).asked zones names))
      ("a:1", .getManifest hash) x) : x.2 = .getManifest hash := by
  induction reached with
  | refl => rfl
  | @tail x y _ causes ih =>
    obtain ⟨addr, m⟩ := x
    obtain rfl : m = .getManifest hash := ih
    unfold Causes Network.asked at causes
    split at causes
    · simp only [NativeService.asked] at causes
      split at causes
      · obtain ⟨provider, -, same⟩ := List.mem_map.mp causes
        rw [← same]
      · cases causes
    · cases causes

/-- Fresh nodes hold no manifest. -/
theorem twoNodes_unheld (back : List String) (zones : String → RootZone)
    (names : String → String → List NodeEntry) (hash : String) :
    (twoNodes back).Unheld zones names ("a:1", .getManifest hash) fun _ => freshNode := by
  intro addr service known
  constructor
  · intro m reached
    obtain rfl : m = .getManifest hash := twoNodes_manifest reached
    intro bytes found
    simp [freshNode, ResolverState.new, ResolverDisk.fresh] at found
  · intro block reached
    cases twoNodes_manifest reached

/-- No HTTP server answers. -/
theorem twoNodes_withheld (back : List String) (zones : String → RootZone)
    (names : String → String → List NodeEntry) (hash : String) :
    (twoNodes back).Withheld zones names ("a:1", .getManifest hash) := by
  intro addr service known m reached
  obtain rfl : m = .getManifest hash := twoNodes_manifest reached
  intro n url resp bytes answered
  cases answered

/-- A zone without records. -/
def bareZone : RootZone where
  network := ""
  rootVersion := 1
  generatedAt := "1970-01-01T00:00:00+00:00"
  rootPublicKey := ""
  tlds := ∅
  domains := ∅
  audit := []
  signatureAlgorithm := signatureAlgorithm
  signature := none

/-- A node with one provider asks it for a manifest. -/
theorem asked_manifest {net : Network} {zones : String → RootZone}
    {names : String → String → List NodeEntry} {addr provider hash : String}
    (known : net.services[addr]? = some (serviceWith [provider]))
    (valid : isValidHash hash = true) :
    Causes (net.asked zones names) (addr, .getManifest hash) (provider, .getManifest hash) := by
  unfold Causes Network.asked
  simp only [known, NativeService.asked, valid, if_true]
  exact List.mem_singleton.mpr rfl

end Federate.Reference
