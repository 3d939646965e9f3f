import Federate.Verif.Routers

/-!
# Availability against malicious sources

Bytes are checked inside the loop over their sources, so one honest source is enough for a block or
a manifest, whatever the others answer. The root zone is checked after the loop: there the first
source that serves a well-formed zone decides.
-/

namespace Federate

open Outcome Stateful Resolver

variable [Externals] [ResolverExternals] {r : Resolver} {env : Environment}

/-! ## Honest sources -/

/-- A native provider that answers a request, from an operation on. -/
structure AnswersNative (r : Resolver) (env : Environment) (start : ℕ) (addr : String)
    (request : Message) (answer : Message → Prop) : Prop where
  /-- It can be dialed. -/
  dial : ∀ n, start ≤ n → env.dial n addr = .ok ()
  /-- It agrees on a version. -/
  welcome : ∀ n, start ≤ n → ∃ version nodeId agentName capabilities,
    env.exchange n addr (.hello supportedVersions r.nodeId agent) =
      .ok (.welcome version nodeId agentName capabilities) ∧ version ∈ supportedVersions
  /-- It answers. -/
  answers : ∀ n, start ≤ n → ∃ message, env.exchange n addr request = .ok message ∧ answer message

/-- An HTTP server that serves bytes of an address within a size, from an operation on. -/
def AnswersHttp (env : Environment) (start : ℕ) (url : String) (max : ℕ) (hash : String) : Prop :=
  ∀ n, start ≤ n → ∃ (resp : HttpResponse) (chunks : List Bytes), env.httpGet n url = .ok resp ∧
    Environment.isSuccess resp.status = true ∧ resp.chunks = chunks.map .ok ∧
    (∀ length, resp.contentLength = some length → length.toNat ≤ max) ∧
    chunks.flatten.length ≤ max ∧ hashBytes chunks.flatten = hash

/-- A native provider of a block. -/
def ServesBlock (r : Resolver) (env : Environment) (start : ℕ) (hash addr : String) : Prop :=
  AnswersNative r env start addr (.getBlock hash) fun message =>
    ∃ name bytes, message = .block name bytes ∧ hashBytes bytes = hash

/-- A native provider of a manifest. -/
def ServesManifest (r : Resolver) (env : Environment) (start : ℕ) (hash addr : String) : Prop :=
  AnswersNative r env start addr (.getManifest hash) fun message =>
    ∃ name bytes, message = .manifest name bytes ∧ bytes.length ≤ maxManifestBytes ∧
      hashBytes bytes = hash

/-- The directory answers an operation with these nodes for a block. -/
def DirectoryNames (env : Environment) (n : ℕ) (base hash : String) (nodes : List NodeEntry) :
    Prop :=
  ∃ (resp : HttpResponse) (chunks : List Bytes) (value : Json),
    env.httpGet n (base ++ "/v1/providers/" ++ hash) = .ok resp ∧ resp.chunks = chunks.map .ok ∧
      ResolverExternals.jsonValue chunks.flatten = .ok value ∧
        ResolverExternals.nodesFromValue (value.index "providers") = .ok nodes

/-- A node for a block that the resolver's directory names and does not call offline. -/
structure Discovered (r : Resolver) (env : Environment) (n : ℕ) (hash : String) (p : NodeEntry) :
    Prop where
  /-- The directory names it. -/
  named : ∃ base nodes, r.directory = some base ∧ DirectoryNames env n base hash nodes ∧ p ∈ nodes
  /-- It is not offline. -/
  up : p.status ≠ .offline

/-- An honest source of a block, among the nodes that the directory names when it is asked, the
default providers and the bootstrap node. -/
inductive BlockSource (r : Resolver) (env : Environment) (start : ℕ) (hash : String) : Prop
  | discovered (p : NodeEntry) (addr : String) (discovered : Discovered r env start hash p)
      (native : p.nativeAddr = some addr) (serves : ServesBlock r env start hash addr)
  | default (addr : String) (listed : addr ∈ r.nativeProviders)
      (serves : ServesBlock r env start hash addr)
  | http (p : NodeEntry) (discovered : Discovered r env start hash p)
      (serves : AnswersHttp env start
        (Text.trimEndMatches '/' p.healthEndpoint ++ "/v1/block/" ++ hash) maxBlockBytes hash)
  | bootstrap (serves : AnswersHttp env start (r.client.base ++ ("/v1/block/" ++ hash))
      maxBlockBytes hash)

/-- An honest source of a manifest, among the default providers and the bootstrap node. -/
inductive ManifestSource (r : Resolver) (env : Environment) (start : ℕ) (hash : String) : Prop
  | default (addr : String) (listed : addr ∈ r.nativeProviders)
      (serves : ServesManifest r env start hash addr)
  | bootstrap (serves : AnswersHttp env start (r.client.base ++ ("/v1/manifest/" ++ hash))
      maxManifestBytes hash)

/-! ## What honest sources yield -/

section Yielded

variable {start : ℕ} {hash addr : String}

/-- From an operation on. -/
def Since (start : ℕ) (s : ResolverState) : Prop := start ≤ s.ticks

omit [Externals] [ResolverExternals] in
/-- What costs operations only stays after an operation. -/
theorem since_of_keeps {α : Type} {program : ResolverM α} (keeps : Keeps OnlyTicks program)
    (s : ResolverState) (since : Since start s) : Since start (exec program s).2 := by
  obtain ⟨n, later, same⟩ := keeps s
  rw [same]
  exact le_trans since later

/-- The state after some operations. -/
def ResolverState.after (s : ResolverState) (count : ℕ) : ResolverState :=
  { s with ticks := s.ticks + count }

omit [Externals] in
/-- An answering provider gives its answer after a handshake. -/
theorem AnswersNative.exec {request : Message} {answer : Message → Prop}
    (serves : AnswersNative r env start addr request answer) {s : ResolverState}
    (since : Since start s) : ∃ version message,
      exec (r.connect env addr) s = (.ok version, s.after 2) ∧
        env.exchange (s.after 2).ticks addr request = .ok message ∧ answer message := by
  have dialed := serves.dial s.ticks since
  obtain ⟨version, nodeId, agentName, capabilities, welcomed, supported⟩ :=
    serves.welcome (s.ticks + 1) (le_trans since (Nat.le_succ _))
  obtain ⟨message, answered, good⟩ :=
    serves.answers (s.ticks + 2) (le_trans since (Nat.le_add_right _ 2))
  refine ⟨version, message, ?_, answered, good⟩
  rw [connect, exec_bind, exec_ask, dialed]
  simp only
  rw [exec_bind, exec_ask, welcomed]
  simp only [supported, if_true, exec_pure]
  rfl

omit [ResolverExternals] in
/-- Bytes with an address pass under it, and the address is valid. -/
theorem verifyHash_of_hashBytes {bytes : Bytes} (same : hashBytes bytes = hash) :
    isValidHash hash = true ∧ verifyHash bytes hash = .ok () := by
  have valid : isValidHash hash = true := same ▸ isValidHash_hashBytes bytes
  exact ⟨valid, verifyHash_eq_ok.mpr ⟨valid, same⟩⟩

omit [Externals] [ResolverExternals] in
/-- Chunks within a limit are read to the end. -/
theorem readChunks_eq (tooBig : ℕ → FederateError) {max : ℕ} {chunks : List Bytes} {out : Bytes}
    (fits : out.length + chunks.flatten.length ≤ max) :
    Environment.readChunks tooBig max out (chunks.map .ok) = .ok (out ++ chunks.flatten) := by
  induction chunks generalizing out with
  | nil => simp [Environment.readChunks]
  | cons chunk rest ih =>
    rw [List.flatten_cons, List.length_append] at fits
    have small : ¬max < out.length + chunk.length := by omega
    have next : (out ++ chunk).length + rest.flatten.length ≤ max := by
      rw [List.length_append]
      omega
    have read := ih next
    rw [List.append_assoc] at read
    simp only [List.map_cons, Environment.readChunks, List.flatten_cons, bind_eq_ok,
      mapError_eq_ok, Except.ok.injEq, exists_eq_left', rejectIf_eq_ok, exists_const]
    exact ⟨small, read⟩

omit [ResolverExternals] in
/-- An honest server's bytes are read. -/
theorem AnswersHttp.exec {url : String} {max : ℕ} (serves : AnswersHttp env start url max hash)
    {s : ResolverState} (since : Since start s) : ∃ resp bytes,
      env.httpGet s.ticks url = .ok resp ∧ Environment.isSuccess resp.status = true ∧
        Environment.readCapped resp max = .ok bytes ∧ hashBytes bytes = hash := by
  obtain ⟨resp, chunks, got, success, body, announced, fits, same⟩ := serves s.ticks since
  refine ⟨resp, chunks.flatten, got, success, ?_, same⟩
  have read : ∀ tooBig, Environment.readChunks tooBig max [] resp.chunks = .ok chunks.flatten := by
    intro tooBig
    rw [body]
    exact readChunks_eq tooBig (by simpa using fits)
  unfold Environment.readCapped
  split
  · rename_i length header
    have small := announced length header
    simp only [rejectIf, not_lt.mpr small, if_false]
    exact read _
  · exact read _

omit [Externals] [ResolverExternals] in
/-- The body of a successful response is read up to the limit. -/
theorem NodeClient.exec_getBytes {client : NodeClient} {path : String} {max : ℕ}
    {s : ResolverState} {resp : HttpResponse}
    (got : env.httpGet s.ticks (client.base ++ path) = .ok resp)
    (success : Environment.isSuccess resp.status = true) :
    exec (client.getBytes env path max) s = (Environment.readCapped resp max, s.after 1) := by
  rw [NodeClient.getBytes, Environment.getCapped, exec_bind, exec_ask, got, mapError]
  simp only [success, rejectIf, Bool.true_eq_false, if_false]
  rw [exec_bind, exec_lift]
  simp only
  rw [exec_lift]
  rfl

omit [ResolverExternals] in
/-- The bytes that an honest server of the client serves. -/
theorem AnswersHttp.getBytes {client : NodeClient} {path : String} {max : ℕ}
    (serves : AnswersHttp env start (client.base ++ path) max hash) {s : ResolverState}
    (since : Since start s) : ∃ bytes, Stateful.exec (client.getBytes env path max) s =
      (.ok bytes, s.after 1) ∧ hashBytes bytes = hash := by
  obtain ⟨resp, bytes, got, success, read, same⟩ := serves.exec since
  refine ⟨bytes, ?_, same⟩
  rw [NodeClient.exec_getBytes got success, read]

/-- Having an address. -/
def Addressed (hash : String) (bytes : Bytes) : Prop := hashBytes bytes = hash

/-- A native provider of a block yields it. -/
theorem ServesBlock.yields (serves : ServesBlock r env start hash addr) :
    Yields (Since start) (Addressed hash) (r.fetchBlockNative env hash addr) := by
  intro s since
  obtain ⟨version, message, connected, answered, name, bytes, rfl, same⟩ := serves.exec since
  obtain ⟨valid, passes⟩ := verifyHash_of_hashBytes same
  refine ⟨bytes, (s.after 2).after 1, ?_, same⟩
  rw [fetchBlockNative, exec_bind, exec_lift, rejectIf, if_neg (by simp [valid])]
  simp only
  rw [exec_bind_ok connected, exec_bind, exec_ask, answered]
  simp only
  rw [exec_bind, exec_lift, passes]
  rfl

/-- A native provider of a manifest yields it. -/
theorem ServesManifest.yields (serves : ServesManifest r env start hash addr) :
    Yields (Since start) (Addressed hash) (r.fetchManifestNative env hash addr) := by
  intro s since
  obtain ⟨version, message, connected, answered, name, bytes, rfl, fits, same⟩ :=
    serves.exec since
  obtain ⟨valid, passes⟩ := verifyHash_of_hashBytes same
  refine ⟨bytes, (s.after 2).after 1, ?_, same⟩
  rw [fetchManifestNative, exec_bind_ok connected, exec_bind, exec_ask, answered]
  simp only
  rw [exec_bind, exec_lift, rejectIf, if_neg (not_lt.mpr fits)]
  simp only
  rw [exec_bind, exec_lift, passes]
  rfl

omit [ResolverExternals] in
/-- An HTTP provider of a block yields it. -/
theorem fetchBlockFrom_yields {p : NodeEntry} (serves : AnswersHttp env start
      (Text.trimEndMatches '/' p.healthEndpoint ++ "/v1/block/" ++ hash) maxBlockBytes hash) :
    Yields (Since start) (Addressed hash) (fetchBlockFrom env p hash) := by
  intro s since
  obtain ⟨resp, bytes, got, success, read, same⟩ := serves.exec since
  obtain ⟨valid, passes⟩ := verifyHash_of_hashBytes same
  refine ⟨bytes, s.after 1, ?_, same⟩
  rw [fetchBlockFrom, exec_bind, exec_lift, rejectIf, if_neg (by simp [valid])]
  simp only
  rw [exec_bind, exec_ask, got, mapError]
  simp only
  rw [exec_bind, exec_lift, rejectIf, if_neg (by simp [success])]
  simp only
  rw [exec_bind, exec_lift, read]
  simp only
  rw [exec_bind, exec_lift, passes]
  rfl

omit [ResolverExternals] in
/-- A bootstrap node that serves a block yields it. -/
theorem fetchBlock_yields {client : NodeClient} (serves : AnswersHttp env start
      (client.base ++ ("/v1/block/" ++ hash)) maxBlockBytes hash) :
    Yields (Since start) (Addressed hash) (client.fetchBlock env hash) := by
  intro s since
  obtain ⟨bytes, got, same⟩ := serves.getBytes since
  obtain ⟨valid, passes⟩ := verifyHash_of_hashBytes same
  refine ⟨bytes, s.after 1, ?_, same⟩
  rw [NodeClient.fetchBlock, exec_bind, exec_lift, rejectIf, if_neg (by simp [valid])]
  simp only
  rw [exec_bind_ok got, exec_bind, exec_lift, passes]
  rfl

omit [ResolverExternals] in
/-- A bootstrap node that serves a manifest yields it. -/
theorem fetchManifestBytes_yields {client : NodeClient} (serves : AnswersHttp env start
      (client.base ++ ("/v1/manifest/" ++ hash)) maxManifestBytes hash) :
    Yields (Since start) (Addressed hash) (client.fetchManifestBytes env hash) := by
  intro s since
  obtain ⟨bytes, got, same⟩ := serves.getBytes since
  obtain ⟨valid, passes⟩ := verifyHash_of_hashBytes same
  refine ⟨bytes, s.after 1, ?_, same⟩
  rw [NodeClient.fetchManifestBytes, exec_bind, exec_lift, rejectIf, if_neg (by simp [valid])]
  simp only
  rw [exec_bind_ok got, exec_bind, exec_lift, passes]
  rfl

end Yielded

/-! ## Blocks and manifests -/

section Content

variable {start : ℕ} {hash : String} {s : ResolverState}

omit [Externals] in
/-- The native providers of a block are the ranked ones and the default ones. -/
theorem mem_nativeAddrs {ranked : List NodeEntry} {addr : String} :
    addr ∈ r.nativeAddrs ranked ↔
      (∃ p ∈ ranked, p.nativeAddr = some addr) ∨ addr ∈ r.nativeProviders := by
  have appended (addrs found : List String) : addr ∈ addrs.foldl
      (fun found addr => if addr ∈ found then found else found ++ [addr]) found ↔
      addr ∈ found ∨ addr ∈ addrs := by
    induction addrs generalizing found with
    | nil => simp
    | cons head tail ih =>
      rw [List.foldl_cons, ih, List.mem_cons]
      split
      · rename_i known
        constructor
        · intro either
          exact either.imp_right .inr
        · intro either
          rcases either with inside | rfl | later
          · exact .inl inside
          · exact .inl known
          · exact .inr later
      · rw [List.mem_append, List.mem_singleton, or_assoc]
  rw [nativeAddrs, appended, List.mem_filterMap]

omit [ResolverExternals] in
/-- Verified bytes have their address. -/
theorem returns_addressed {program : ResolverM Bytes}
    (verified : Returns (fun bytes => verifyHash bytes hash = .ok ()) program) :
    Returns (Addressed hash) program :=
  verified.mono fun _ valid => (verifyHash_eq_ok.mp valid).2

omit [Externals] in
/-- Looking for the nodes of a block always succeeds, and finds those that the directory names. -/
theorem exec_discoverProviders_named (r : Resolver) (env : Environment) (hash : String)
    (s : ResolverState) : ∃ nodes s', exec (r.discoverProviders env hash) s = (.ok nodes, s') ∧
      ∀ p, Discovered r env s.ticks hash p → p ∈ rankProviders nodes r.region := by
  have ranked {nodes : List NodeEntry} {p : NodeEntry} (named : p ∈ nodes)
      (up : p.status ≠ .offline) : p ∈ rankProviders nodes r.region := by
    rw [rankProviders, List.mem_mergeSort, List.mem_filter]
    exact ⟨named, decide_eq_true up⟩
  unfold discoverProviders
  cases directory : r.directory with
  | none =>
    refine ⟨[], s, rfl, fun p discovered => ?_⟩
    obtain ⟨base, nodes, configured, -⟩ := discovered.named
    rw [directory] at configured
    cases configured
  | some base =>
    refine ⟨_, _, rfl, fun p discovered => ?_⟩
    obtain ⟨base', nodes, configured, ⟨resp, chunks, value, got, body, parsed, reads⟩, named⟩ :=
      discovered.named
    obtain rfl : base = base' := Option.some.inj (directory.symm.trans configured)
    have whole (chunks : List Bytes) :
        (chunks.map (Except.ok : Bytes → Except String Bytes)).mapM id = .ok chunks := by
      induction chunks with
      | nil => rfl
      | cons chunk rest ih =>
        rw [List.map_cons, List.mapM_cons, ih]
        rfl
    have answered : (exec (directoryProviders env base hash) s).1 = .ok nodes := by
      simp only [directoryProviders, exec_bind, exec_ask, exec_lift, got, mapError, body, whole,
        parsed, reads, serde]
    have known : p ∈ (exec (directoryProviders env base hash) s).1.toOption.getD [] := by
      rw [answered]
      exact named
    exact ranked known discovered.up

/-- An honest source is enough to find a block on the network. -/
theorem fetchBlockNetwork_yields (source : BlockSource r env s.ticks hash) :
    ∃ bytes s', exec (r.fetchBlockNetwork env hash) s = (.ok bytes, s') ∧
      hashBytes bytes = hash := by
  obtain ⟨providers, s₁, discovered, named⟩ := exec_discoverProviders_named r env hash s
  have later : Since s.ticks s₁ := by
    have since : Since s.ticks (exec (r.discoverProviders env hash) s).2 :=
      since_of_keeps (keeps_discoverProviders env r hash) s le_rfl
    rwa [discovered] at since
  have http (found : (∃ p ∈ rankProviders providers r.region,
        Yields (Since s.ticks) (Addressed hash) (fetchBlockFrom env p hash)) ∨
      Yields (Since s.ticks) (Addressed hash) (r.client.fetchBlock env hash)) :=
    tryEach_yields (fun _ => rfl)
      (fun p s => since_of_keeps (keeps_fetchBlockFrom env p hash) s)
      (fun p => returns_addressed (fetchBlockFrom_verified env p hash)) found
  have native (found : (∃ addr ∈ r.nativeAddrs (rankProviders providers r.region),
        Yields (Since s.ticks) (Addressed hash) (r.fetchBlockNative env hash addr)) ∨
      Yields (Since s.ticks) (Addressed hash) (tryEach (fun _ => false)
        (fun p => fetchBlockFrom env p hash) (r.client.fetchBlock env hash)
        (rankProviders providers r.region))) :=
    tryEach_yields (fun _ => rfl)
      (fun addr s => since_of_keeps (keeps_fetchBlockNative env r hash addr) s)
      (fun addr => returns_addressed (fetchBlockNative_verified env r hash addr)) found
  rw [fetchBlockNetwork, exec_bind_ok discovered]
  cases source with
  | discovered p addr found address serves =>
    have member : addr ∈ r.nativeAddrs (rankProviders providers r.region) :=
      mem_nativeAddrs.mpr (.inl ⟨p, named p found, address⟩)
    exact native (.inl ⟨addr, member, serves.yields⟩) s₁ later
  | default addr listed serves =>
    have member : addr ∈ r.nativeAddrs (rankProviders providers r.region) :=
      mem_nativeAddrs.mpr (.inr listed)
    exact native (.inl ⟨addr, member, serves.yields⟩) s₁ later
  | http p found serves =>
    exact native (.inr (http (.inl ⟨p, named p found, fetchBlockFrom_yields serves⟩))) s₁ later
  | bootstrap serves => exact native (.inr (http (.inr (fetchBlock_yields serves)))) s₁ later

/-- An honest source is enough to find a manifest on the network. -/
theorem fetchManifestNetwork_yields (source : ManifestSource r env start hash) :
    Yields (Since start) (Addressed hash) (r.fetchManifestNetwork env hash) := by
  refine tryEach_yields (fun _ => rfl)
    (fun addr s => since_of_keeps (keeps_fetchManifestNative env r hash addr) s)
    (fun addr => returns_addressed (fetchManifestNative_verified env r hash addr)) ?_
  cases source with
  | default addr listed serves => exact .inl ⟨addr, listed, serves.yields⟩
  | bootstrap serves => exact .inr (fetchManifestBytes_yields serves)

omit [ResolverExternals] in
/-- Reading the block cache changes nothing. -/
theorem keeps_blockGet (hash : String) : Keeps Eq (blockGet hash) :=
  (keeps_lift _).bind fun _ => keeps_get.bind fun _ => (keeps_lift _).bind fun _ =>
    (keeps_lift _).bind fun _ => keeps_pure _

omit [ResolverExternals] in
/-- A block is stored under its address by a write that succeeds. -/
theorem exec_blockPut (writes : ∀ n, env.file n = .ok ()) {bytes : Bytes}
    (same : hashBytes bytes = hash) (s : ResolverState) :
    ∃ s', exec (blockPut env hash bytes) s = (.ok (), s') := by
  have passes := (verifyHash_of_hashBytes same).2
  have wrote : exec (attempt (ask fun n => mapError FederateError.io (env.file n))) s =
      (.ok (.ok ()), s.after 1) := by
    rw [exec_attempt, exec_ask, writes]
    rfl
  refine ⟨{ s.after 1 with disk := { s.disk with blocks := s.disk.blocks.insert hash bytes } }, ?_⟩
  rw [blockPut, exec_bind, exec_lift, passes]
  simp only
  rw [Environment.overwriteFile, exec_bind_ok (exec_get s)]
  simp only
  rw [exec_bind_ok wrote]
  rfl

/-- An honest source is enough for a block, whatever the cache holds. -/
theorem blockTraced_available (writes : ∀ n, env.file n = .ok ())
    (source : BlockSource r env s.ticks hash) :
    ∃ bytes s', exec (r.blockTraced env hash) s = (.ok bytes, s') ∧ hashBytes bytes = hash := by
  have cache := keeps_blockGet hash s
  rw [blockTraced, exec_bind, exec_attempt, ← cache]
  cases held : (exec (blockGet hash) s).1 with
  | ok bytes =>
    have valid := blockGet_verified hash s s bytes (Prod.ext held cache.symm)
    exact ⟨bytes, s, rfl, (verifyHash_eq_ok.mp valid).2⟩
  | error e =>
    obtain ⟨bytes, s₂, fetched, same⟩ := fetchBlockNetwork_yields source
    obtain ⟨s₃, stored⟩ := exec_blockPut writes same s₂
    simp only
    rw [exec_bind_ok fetched, exec_bind_ok stored]
    exact ⟨bytes, s₃, rfl, same⟩

/-- What the network yields is returned as a manifest, or what the cache holds under the address. -/
theorem manifestBytes_yields {Q : Bytes → Prop} (writes : ∀ n, env.file n = .ok ())
    (valid : isValidHash hash = true)
    (cached : ∀ bytes, s.disk.manifests[hash]? = some bytes → verifyHash bytes hash = .ok () →
      Q bytes)
    (network : Yields (Since s.ticks) Q (r.fetchManifestNetwork env hash)) :
    ∃ bytes s', exec (r.manifestBytes env hash) s = (.ok bytes, s') ∧ Q bytes := by
  have fetched (s₁ : ResolverState) (since : Since s.ticks s₁) : ∃ bytes s', exec (do
      let bytes ← r.fetchManifestNetwork env hash
      env.changeFile fun d => { d with manifests := d.manifests.insert hash bytes }
      return bytes) s₁ = (.ok bytes, s') ∧ Q bytes := by
    obtain ⟨bytes, s₂, found, holds⟩ := network s₁ since
    rw [exec_bind_ok found, exec_bind_ok (Environment.exec_changeFile (writes _) _)]
    exact ⟨bytes, _, rfl, holds⟩
  rw [manifestBytes, exec_bind, exec_lift, rejectIf, if_neg (by simp [valid])]
  simp only
  rw [exec_bind_ok (exec_get s)]
  split
  · rename_i bytes held
    split
    · rename_i passes
      exact ⟨bytes, s, rfl, cached bytes held passes⟩
    · have removed := Environment.exec_changeFile (writes s.ticks)
        fun d => { d with manifests := d.manifests.erase hash }
      rw [exec_bind, exec_attempt, removed]
      exact fetched _ (Nat.le_succ _)
  · exact fetched s le_rfl

/-- An honest source is enough for a manifest, whatever the cache holds. -/
theorem manifestBytes_available (writes : ∀ n, env.file n = .ok ())
    (source : ManifestSource r env s.ticks hash) :
    ∃ bytes s', exec (r.manifestBytes env hash) s = (.ok bytes, s') ∧ hashBytes bytes = hash := by
  have yields := fetchManifestNetwork_yields source
  have valid : isValidHash hash = true := by
    obtain ⟨bytes, s', found, same⟩ := yields s le_rfl
    exact (verifyHash_of_hashBytes same).1
  have cached (bytes : Bytes) (_ : s.disk.manifests[hash]? = some bytes)
      (passes : verifyHash bytes hash = .ok ()) : hashBytes bytes = hash :=
    (verifyHash_eq_ok.mp passes).2
  exact manifestBytes_yields writes valid cached yields

/-- One honest source is enough for a block and for a manifest, whatever the others answer and the
caches hold, and neither ever has another address than the one asked for. -/
theorem content_available (writes : ∀ n, env.file n = .ok ()) :
    (BlockSource r env s.ticks hash → ∃ bytes s',
      exec (r.blockTraced env hash) s = (.ok bytes, s') ∧ hashBytes bytes = hash) ∧
    (ManifestSource r env s.ticks hash → ∃ bytes s',
      exec (r.manifestBytes env hash) s = (.ok bytes, s') ∧ hashBytes bytes = hash) ∧
    (∀ bytes s', exec (r.blockTraced env hash) s = (.ok bytes, s') → hashBytes bytes = hash) ∧
    ∀ bytes s', exec (r.manifestBytes env hash) s = (.ok bytes, s') → hashBytes bytes = hash := by
  refine ⟨blockTraced_available writes, manifestBytes_available writes, ?_, ?_⟩
  · intro bytes s' returned
    exact returns_addressed (blockTraced_verified env r hash) s s' bytes returned
  · intro bytes s' returned
    exact returns_addressed (manifestBytes_verified env r hash) s s' bytes returned

end Content

/-! ## The root zone -/

section RootZones

variable [SerdeDocuments] {key : String} {s : ResolverState} {w : UInt64}

/-- A source of the root zone. -/
inductive RootSource where
  | native (addr : String)
  | bootstrap

/-- The sources of the root zone, in the order they are asked. -/
def Resolver.rootSources (r : Resolver) : List RootSource :=
  r.nativeProviders.map .native ++ [.bootstrap]

/-- What a source serves: a well-formed zone within the size limit, or none. -/
def Resolver.rootAnswer (r : Resolver) (env : Environment) : RootSource → ResolverM RootZone
  | .native addr => r.fetchRootNative env addr
  | .bootstrap => r.client.fetchRoot env

/-- The resolver holds the zone, in memory or in a cache file that verifies. -/
def HoldsZone (key : String) (s : ResolverState) (z : RootZone) : Prop :=
  s.root = some z ∨ Cached s.disk z ∧ z.verify key = .ok ()

/-- The first source that serves a well-formed zone serves one that verifies under the key and is
new enough, and the cache file can then be written. -/
def FirstIsGood (r : Resolver) (env : Environment) (key : String) (w : UInt64)
    (s : ResolverState) : Prop :=
  First (r.rootAnswer env) (fun z s' => z.verify key = .ok () ∧ w ≤ z.rootVersion ∧
    env.file s'.ticks = .ok ()) s r.rootSources

omit [Externals] in
/-- The zone that the network gives is the one of the first source that serves one. -/
theorem fetchRootNetwork_first {Q : RootZone → ResolverState → Prop} :
    (∃ z s', exec (r.fetchRootNetwork env) s = (.ok z, s') ∧ Q z s') ↔
      First (r.rootAnswer env) Q s r.rootSources := by
  have search : r.fetchRootNetwork env = tryEach (fun _ => false) (r.rootAnswer env)
      (r.rootAnswer env .bootstrap) (r.nativeProviders.map .native) := by
    rw [tryEach_map]
    rfl
  rw [search, tryEach_first, rootSources]

omit [SerdeDocuments] [ResolverExternals] in
/-- With a pinned key, verifying a zone changes nothing. -/
theorem exec_verifyZone_pinned (pinned : s.trustedRootKey = some key) (z : RootZone) :
    exec (verifyZone env z) s = (z.verify key, s) := by
  rw [verifyZone, exec_bind_ok (exec_get s)]
  simp only [pinned, exec_lift]

omit [ResolverExternals] in
/-- A zone that verified is stored and returned, unless the known one is newer. -/
theorem exec_acceptRoot_eq_ok (pinned : s.trustedRootKey = some key) {zone z : RootZone} :
    (∃ s', exec (acceptRoot env zone) s = (.ok z, s')) ↔
      (Known key s z ∧ zone.rootVersion < z.rootVersion) ∨
        (∀ known, Known key s known → ¬zone.rootVersion < known.rootVersion) ∧
          env.file s.ticks = .ok () ∧ z = zone := by
  have stores : (∃ s', exec (do
      rootCacheStore env zone
      holdRoot zone
      return zone : ResolverM RootZone) s = (.ok z, s')) ↔
      env.file s.ticks = .ok () ∧ z = zone := by
    simp only [rootCacheStore, Environment.changeFile, holdRoot, exec_bind, exec_ask, exec_modify,
      exec_pure]
    cases wrote : env.file s.ticks with
    | error e => simp [mapError]
    | ok done => simp [mapError, eq_comm]
  rw [acceptRoot, exec_bind]
  generalize looked : exec (lastVerifiedZone env) s = look
  obtain ⟨outcome, s₁⟩ := look
  obtain ⟨rfl, found, rfl, knew⟩ := lastVerifiedZone_pinned env pinned looked
  cases found with
  | none =>
    have unknown : ∀ known, ¬Known key s₁ known := fun known held => by cases (knew known).mpr held
    rw [stores]
    constructor
    · intro stored
      exact .inr ⟨fun known held => absurd held (unknown known), stored⟩
    · intro either
      rcases either with newer | stored
      · exact absurd newer.1 (unknown z)
      · exact stored.2
  | some known =>
    have only : ∀ other, Known key s₁ other ↔ other = known := fun other =>
      (knew other).symm.trans (by rw [Option.some.injEq, eq_comm])
    simp only [only, forall_eq]
    split
    · rename_i older
      simp only [holdRoot, exec_bind, exec_modify, exec_pure, Prod.mk.injEq, Except.ok.injEq,
        exists_and_left, exists_eq', and_true]
      constructor
      · intro same
        exact .inl ⟨same.symm, same ▸ older⟩
      · intro either
        rcases either with newer | stored
        · exact newer.1.symm
        · exact absurd older stored.1
    · rename_i notOlder
      rw [stores]
      constructor
      · intro stored
        exact .inr ⟨notOlder, stored⟩
      · intro either
        rcases either with newer | stored
        · exact absurd (newer.1 ▸ newer.2) notOlder
        · exact stored.2

/-- A refresh returns a new enough zone exactly when the first source that serves a zone serves
such a one, as long as none is held yet. -/
theorem refreshRoot_iff_firstIsGood (pinned : s.trustedRootKey = some key)
    (older : ∀ held, HoldsZone key s held → held.rootVersion < w) :
    (∃ z s', exec (r.refreshRoot env) s = (.ok z, s') ∧ w ≤ z.rootVersion) ↔
      FirstIsGood r env key w s := by
  have keeps := keeps_fetchRootNetwork env r s
  rw [FirstIsGood, ← fetchRootNetwork_first, refreshRoot, exec_bind, exec_attempt]
  generalize exec (r.fetchRootNetwork env) s = fetch at keeps
  obtain ⟨outcome, s₁⟩ := fetch
  have same : ∃ n, s₁ = { s with ticks := n } := by
    obtain ⟨n, -, same⟩ := keeps
    exact ⟨n, same⟩
  have pinned₁ : s₁.trustedRootKey = some key := by
    obtain ⟨n, rfl⟩ := same
    exact pinned
  have older₁ : ∀ held, HoldsZone key s₁ held → held.rootVersion < w := by
    obtain ⟨n, rfl⟩ := same
    exact older
  cases outcome with
  | error e =>
    simp only [exec_bind, exec_attempt]
    generalize loaded : exec rootCacheLoad s₁ = load
    obtain ⟨found, s₂⟩ := load
    obtain ⟨rfl, reads⟩ := rootCacheLoad_eq loaded
    refine iff_of_false (fun returned => ?_) (by simp)
    obtain ⟨z, s', returned, newer⟩ := returned
    cases found with
    | error e' => simp at returned
    | ok cached =>
      simp only [exec_bind, exec_verifyZone_pinned pinned₁] at returned
      cases verified : cached.verify key with
      | error e' => simp [verified] at returned
      | ok done =>
        simp only [verified, holdRoot, exec_modify, exec_pure, Prod.mk.injEq,
          Except.ok.injEq] at returned
        have held := older₁ z (returned.1 ▸ .inr ⟨(reads cached).mp rfl, verified⟩)
        exact absurd newer (UInt64.not_le.mpr held)
  | ok zone =>
    simp only [exec_bind, exec_attempt, exec_verifyZone_pinned pinned₁]
    cases verified : zone.verify key with
    | error e =>
      generalize fell : exec (verifiedCache env) s₁ = cache
      obtain ⟨found, s₂⟩ := cache
      obtain ⟨rfl, reads⟩ := verifiedCache_pinned env pinned₁ fell
      refine iff_of_false (fun returned => ?_) fun good => ?_
      · obtain ⟨z, s', returned, newer⟩ := returned
        simp only at returned
        rw [exec_bind, exec_attempt, fell] at returned
        cases found with
        | error e' => simp at returned
        | ok cached =>
          simp only [holdRoot, exec_bind, exec_modify, exec_pure, Prod.mk.injEq,
            Except.ok.injEq] at returned
          have held := older₁ z (returned.1 ▸ .inr ((reads cached).mp rfl))
          exact absurd newer (UInt64.not_le.mpr held)
      · obtain ⟨z, s', fetched, passes, -⟩ := good
        obtain ⟨rfl, rfl⟩ : zone = z ∧ s₂ = s' := by simpa using fetched
        rw [verified] at passes
        cases passes
    | ok done =>
      have unknown {known : RootZone} (knew : Known key s₁ known) : known.rootVersion < w :=
        older₁ known (knew.imp_right fun fromFile => fromFile.2)
      constructor
      · intro returned
        obtain ⟨z, s', returned, newer⟩ := returned
        rcases (exec_acceptRoot_eq_ok pinned₁).mp ⟨s', returned⟩ with ⟨knew, -⟩ | ⟨-, wrote, rfl⟩
        · exact absurd newer (UInt64.not_le.mpr (unknown knew))
        · exact ⟨z, s₁, rfl, verified, newer, wrote⟩
      · intro good
        obtain ⟨z, s', fetched, -, newer, wrote⟩ := good
        obtain ⟨rfl, rfl⟩ : zone = z ∧ s₁ = s' := by simpa using fetched
        have newest (known : RootZone) (knew : Known key s₁ known) :
            ¬zone.rootVersion < known.rootVersion := fun older =>
          UInt64.not_lt.mpr newer (UInt64.lt_trans older (unknown knew))
        obtain ⟨s', accepted⟩ := (exec_acceptRoot_eq_ok pinned₁).mpr (.inr ⟨newest, wrote, rfl⟩)
        exact ⟨zone, s', accepted, newer⟩

end RootZones

end Federate

namespace Federate.Reference

open Json Outcome Stateful Resolver

/-- A resolver that knows one native provider and one bootstrap node. -/
def peered : Resolver := { resolver with nativeProviders := ["198.51.100.7:4077"] }

/-- A working disk, a native peer that answers every request with one message, and an HTTP server
that answers with one body. -/
def replying (answer : Message) (body : Bytes) : Environment :=
  { offline with
    dial := fun _ _ => .ok ()
    exchange := fun _ _ message =>
      match message with
      | .hello .. => .ok (.welcome 1 "" "" [])
      | _ => .ok answer
    httpGet := fun _ url => .ok ⟨url, 200, "200 OK", none, [.ok body]⟩ }

/-- The HTTP server is honest about the body. -/
theorem answersHttp_replying (answer : Message) {body : Bytes} {max : ℕ} (fits : body.length ≤ max)
    (url : String) : AnswersHttp (replying answer body) 0 url max (hashBytes body) := by
  intro n since
  have whole : [body].flatten = body := by simp
  exact ⟨⟨url, 200, "200 OK", none, [.ok body]⟩, [body], rfl, rfl, rfl,
    fun length header => (by cases header), whole.symm ▸ fits, congrArg hashBytes whole⟩

/-- The bootstrap node is enough for a block and a manifest when the native provider forges
them. -/
theorem site_available :
    let env := replying (.block "" [0]) site
    let s := holding (filedZone "alice.foo" siteRecord)
    (∃ bytes s', exec (peered.blockTraced env (hashBytes site)) s = (.ok bytes, s') ∧
      hashBytes bytes = hashBytes site) ∧
    ∃ bytes s', exec (peered.manifestBytes env (hashBytes site)) s = (.ok bytes, s') ∧
      hashBytes bytes = hashBytes site := by
  intro env s
  have writes : ∀ n, env.file n = .ok () := fun _ => rfl
  have block : site.length ≤ maxBlockBytes := by decide
  have manifest : site.length ≤ maxManifestBytes := by decide
  exact ⟨(content_available writes).1 (.bootstrap (answersHttp_replying _ block _)),
    (content_available writes).2.1 (.bootstrap (answersHttp_replying _ manifest _))⟩

/-- A zone without TLDs, signed by an identity. -/
def plainZone (root : NodeIdentity) (version : UInt64) : RootZone :=
  RootZone.signedBy { emptyZone root ⟨0⟩ with rootVersion := version } root

section Plain

variable (root : NodeIdentity) (version : UInt64)

theorem plainZone_verify : (plainZone root version).verify root.nodeId = .ok () := by
  refine RootZone.verify_signedBy signaturesVerify _ _ rfl fun tld r found => ?_
  have absent : (∅ : Table String TldRecord)[tld]? = some r := found
  simp at absent

theorem plainZone_validate : (plainZone root version).validate = .ok () := by
  have named : networkName ≠ "" := by decide
  refine RootZone.validate_eq_ok.mpr ⟨named, fun fqdn r found => ?_⟩
  have absent : (∅ : Table String DomainRecord)[fqdn]? = some r := found
  simp at absent

/-- Its text is read back. -/
theorem plainZone_reads :
    SerdeDocuments.rootZone (compact (plainZone root version).toJson) =
      .ok (plainZone root version) := by
  have json : (plainZone root version).FromJson := by
    constructor
    · intro k r found
      have absent : (∅ : Table String TldRecord)[k]? = some r := found
      simp at absent
    · intro k r found
      have absent : (∅ : Table String DomainRecord)[k]? = some r := found
      simp at absent
  exact read_compact (fun _ => RootZone.FromJson.readable) (fun _ _ => RootZone.toJson_injective)
    json

end Plain

/-- A resolver that holds version 0 of the root zone gets version 1 exactly when the first source
is good. -/
theorem newer_iff_firstIsGood :
    let env := replying (.root (compact (plainZone authority.root 1).toJson)) []
    let s := holding (plainZone authority.root 0)
    (∃ z s', exec (peered.refreshRoot env) s = (.ok z, s') ∧ 1 ≤ z.rootVersion) ↔
      FirstIsGood peered env authority.root.nodeId 1 s := by
  refine refreshRoot_iff_firstIsGood rfl fun held holds => ?_
  rcases holds with memory | ⟨⟨bytes, file, -⟩, -⟩
  · rw [← Option.some.inj memory]
    decide
  · cases file

/-- The zone that the bootstrap node serves. -/
theorem exec_fetchRoot_replying (answer : Message) {root : NodeIdentity} {version : UInt64}
    (short : (compact (plainZone root version).toJson).length ≤ maxRootBytes) (s : ResolverState) :
    exec (peered.client.fetchRoot
        (replying answer (compact (plainZone root version).toJson))) s =
      (.ok (plainZone root version), s.after 1) := by
  have read (url : String) (body : Bytes) (fits : body.length ≤ maxRootBytes) :
      Environment.readCapped ⟨url, 200, "200 OK", none, [.ok body]⟩ maxRootBytes = .ok body := by
    have whole : ([] : Bytes) ++ [body].flatten = body := by simp
    unfold Environment.readCapped
    simp only
    have all : ([] : Bytes).length + [body].flatten.length ≤ maxRootBytes := by simpa using fits
    exact (readChunks_eq _ all).trans (congrArg _ whole)
  have got : exec (peered.client.getBytes
      (replying answer (compact (plainZone root version).toJson)) "/v1/root" maxRootBytes) s =
      (.ok (compact (plainZone root version).toJson), s.after 1) := by
    have success : Environment.isSuccess 200 = true := by decide
    rw [NodeClient.getBytes, Environment.getCapped, exec_bind, exec_ask]
    simp only [replying, mapError, success, rejectIf, Bool.true_eq_false, if_false]
    rw [exec_bind, exec_lift]
    simp only
    rw [exec_lift, read _ _ short]
    rfl
  rw [NodeClient.fetchRoot, exec_bind_ok got, exec_bind, exec_lift,
    serde_eq_ok.mpr (plainZone_reads root version)]
  simp only
  rw [exec_bind, exec_lift, plainZone_validate]
  rfl

/-- The zone that the native provider serves. -/
theorem exec_fetchRootNative_replying (body : Bytes) {root : NodeIdentity} {version : UInt64}
    (short : (compact (plainZone root version).toJson).length ≤ maxRootBytes) (addr : String)
    (s : ResolverState) :
    exec (peered.fetchRootNative
        (replying (.root (compact (plainZone root version).toJson)) body) addr) s =
      (.ok (plainZone root version), s.after 3) := by
  have connected : exec (peered.connect
      (replying (.root (compact (plainZone root version).toJson)) body) addr) s =
      (.ok 1, s.after 2) := by
    simp [connect, exec_bind, replying, offline, supportedVersions, ResolverState.after]
  rw [fetchRootNative, exec_bind_ok connected, exec_bind, exec_ask]
  simp only [replying]
  rw [exec_bind, exec_lift, rejectIf, if_neg (not_lt.mpr short)]
  simp only
  rw [exec_bind, exec_lift, serde_eq_ok.mpr (plainZone_reads root version)]
  simp only
  rw [exec_bind, exec_lift, plainZone_validate]
  rfl

/-- A native provider and the bootstrap node serve this zone. -/
def serving (root : NodeIdentity) (version : UInt64) : Environment :=
  replying (.root (compact (plainZone root version).toJson))
    (compact (plainZone root version).toJson)

/-- What a native provider serves is fetched. -/
theorem fetchRootNetwork_serving {root : NodeIdentity} {version : UInt64}
    (short : (compact (plainZone root version).toJson).length ≤ maxRootBytes) (s : ResolverState) :
    (exec (peered.fetchRootNetwork (serving root version)) s).1 = .ok (plainZone root version) := by
  change (exec (tryEach _ _ _ ["198.51.100.7:4077"]) s).1 = _
  rw [tryEach, exec_bind, exec_attempt]
  have fetched := exec_fetchRootNative_replying (compact (plainZone root version).toJson) short
    "198.51.100.7:4077" s
  rw [serving, fetched]
  rfl

/-- A native provider that serves a forged zone keeps the resolver on its old zone, although the
bootstrap node serves a newer one. -/
theorem forged_first_wins :
    let good := plainZone authority.root 1
    let env := replying (.root (compact (plainZone (identity 9) 2).toJson)) (compact good.toJson)
    let s := holding (plainZone authority.root 0)
    good.verify authority.root.nodeId = .ok () ∧
      (exec (peered.client.fetchRoot env) s).1 = .ok good ∧
      ¬∃ z s', exec (peered.refreshRoot env) s = (.ok z, s') ∧ 1 ≤ z.rootVersion := by
  intro good env s
  have goodShort : (compact good.toJson).length ≤ maxRootBytes := by decide +kernel
  have forgedShort : (compact (plainZone (identity 9) 2).toJson).length ≤ maxRootBytes := by
    decide +kernel
  have fetched : exec (peered.fetchRootNetwork env) s =
      (.ok (plainZone (identity 9) 2), s.after 3) := by
    change exec (tryEach _ _ _ ["198.51.100.7:4077"]) s = _
    rw [tryEach, exec_bind, exec_attempt, exec_fetchRootNative_replying _ forgedShort]
    rfl
  have forged : ∃ e, (plainZone (identity 9) 2).verify authority.root.nodeId = .error e := by
    cases verified : (plainZone (identity 9) 2).verify authority.root.nodeId with
    | error e => exact ⟨e, rfl⟩
    | ok done =>
      have signer := (RootZone.verify_eq_ok.mp verified).1
      have differs : (plainZone (identity 9) 2).rootPublicKey ≠ authority.root.nodeId := by
        decide +kernel
      exact absurd signer differs
  refine ⟨plainZone_verify _ _, ?_, fun returned => ?_⟩
  · rw [exec_fetchRoot_replying _ goodShort]
  · obtain ⟨e, rejected⟩ := forged
    obtain ⟨z, s', returned, -⟩ := returned
    have uncached : ∃ e', exec (verifiedCache env) (s.after 3) = (.error e', s.after 3) := ⟨_, rfl⟩
    obtain ⟨e', uncached⟩ := uncached
    rw [refreshRoot, exec_bind, exec_attempt, fetched] at returned
    simp only at returned
    rw [exec_bind, exec_attempt, exec_verifyZone_pinned rfl, rejected] at returned
    simp only at returned
    rw [exec_bind, exec_attempt, uncached] at returned
    cases returned

end Federate.Reference
