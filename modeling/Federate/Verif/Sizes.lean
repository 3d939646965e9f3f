import Federate.Mutation.Ingest
import Federate.Verif.Availability

/-!
# What the registry accepts and what a resolver fetches

A package or a registry pointer is accepted with bytes of sizes that a resolver does not fetch: a
manifest counts against the size of its package, a pinned registry against none, and both are
fetched as manifests.
-/

namespace Federate

open Outcome Stateful Resolver RegistryStore

variable [Externals] {hash : String} {bytes : Bytes}

/-! ## Honest providers of stored bytes -/

/-- An HTTP server that serves given bytes, whatever their size, from an operation on. -/
def ServesHttp (env : Environment) (start : ℕ) (url : String) (bytes : Bytes) : Prop :=
  ∀ n, start ≤ n → ∃ (resp : HttpResponse) (chunks : List Bytes), env.httpGet n url = .ok resp ∧
    Environment.isSuccess resp.status = true ∧ resp.chunks = chunks.map .ok ∧
    chunks.flatten = bytes ∧ ∀ length, resp.contentLength = some length →
      length.toNat = bytes.length

section Providers

variable [ResolverExternals]

/-- The URL of a manifest at the bootstrap node. -/
def Resolver.manifestUrl (r : Resolver) (hash : String) : String :=
  r.client.base ++ ("/v1/manifest/" ++ hash)

/-- The disk works, a provider honestly serves the bytes of a manifest, and no other bytes with
their address are around. -/
structure Honest (r : Resolver) (env : Environment) (s : ResolverState) (hash : String)
    (bytes : Bytes) : Prop where
  /-- Files can be written. -/
  writes : ∀ n, env.file n = .ok ()
  /-- No cache file collides. -/
  cached : ∀ other, s.disk.manifests[hash]? = some other → hashBytes other = hash → other = bytes
  /-- No native provider serves a collision. -/
  native : ∀ n addr name other, env.exchange n addr (.getManifest hash) =
    .ok (.manifest name other) → hashBytes other = hash → other = bytes
  /-- The bootstrap node serves no collision. -/
  http : ∀ n resp other, env.httpGet n (r.manifestUrl hash) = .ok resp →
    Environment.readCapped resp maxManifestBytes = .ok other → hashBytes other = hash →
    other = bytes
  /-- A native provider or the bootstrap node is honest. -/
  source : (∃ addr ∈ r.nativeProviders, AnswersNative r env s.ticks addr (.getManifest hash)
      fun message => ∃ name, message = .manifest name bytes) ∨
    ServesHttp env s.ticks (r.manifestUrl hash) bytes

/-- A client whose provider honestly serves the bytes gets them under their address. -/
def Fetchable (hash : String) (bytes : Bytes) : Prop :=
  ∀ (r : Resolver) (env : Environment) (s : ResolverState), Honest r env s hash bytes →
    ∃ s', exec (r.manifestBytes env hash) s = (.ok bytes, s')

end Providers

section Fetching

variable [ResolverExternals] {r : Resolver} {env : Environment} {s : ResolverState}

omit [Externals] [ResolverExternals] in
/-- An answer is one to some operation. -/
theorem returns_ask {α : Type} (answer : ℕ → Result α) :
    Returns (fun a => ∃ n, answer n = .ok a) (ask answer) := by
  intro s s' a returned
  rw [exec_ask, Prod.mk.injEq] at returned
  exact ⟨s.ticks, returned.1⟩

/-- No native provider gives other bytes. -/
theorem Honest.native_only (honest : Honest r env s hash bytes) (addr : String) :
    Returns (fun other => other = bytes) (r.fetchManifestNative env hash addr) := by
  refine (returns_any _).bind fun _ _ => (returns_ask _).bind fun message answered => ?_
  split
  · rename_i name other
    obtain ⟨n, answered⟩ := answered
    refine (returns_any _).bind fun _ _ => (returns_lift _).bind fun _ passes => returns_pure ?_
    exact honest.native n addr name other answered (verifyHash_eq_ok.mp passes).2
  · exact returns_throw _

omit [ResolverExternals] in
/-- An honest server's bytes are read when they are short enough. -/
theorem ServesHttp.yields {start : ℕ} (short : bytes.length ≤ maxManifestBytes)
    (same : hashBytes bytes = hash) (serves : ServesHttp env start (r.manifestUrl hash) bytes)
    (only : ∀ n resp other, env.httpGet n (r.manifestUrl hash) = .ok resp →
      Environment.readCapped resp maxManifestBytes = .ok other → hashBytes other = hash →
      other = bytes) :
    Yields (Since start) (fun other => other = bytes) (r.client.fetchManifestBytes env hash) := by
  have capped : AnswersHttp env start (r.manifestUrl hash) maxManifestBytes hash := by
    intro n since
    obtain ⟨resp, chunks, got, success, body, whole, announced⟩ := serves n since
    refine ⟨resp, chunks, got, success, body, fun length header => ?_, whole ▸ short,
      whole ▸ same⟩
    rw [announced length header]
    exact short
  intro s since
  obtain ⟨resp, other, got, success, read, address⟩ := capped.exec since
  have found : other = bytes := only s.ticks resp other got read address
  subst found
  obtain ⟨valid, passes⟩ := verifyHash_of_hashBytes same
  have fetched : exec (r.client.getBytes env ("/v1/manifest/" ++ hash) maxManifestBytes) s =
      (Environment.readCapped resp maxManifestBytes, s.after 1) :=
    NodeClient.exec_getBytes got success
  refine ⟨other, s.after 1, ?_, rfl⟩
  rw [NodeClient.fetchManifestBytes, exec_bind, exec_lift, rejectIf, if_neg (by simp [valid])]
  simp only
  rw [exec_bind, fetched, read]
  simp only
  rw [exec_bind, exec_lift, passes]
  rfl

/-- An honest provider of short bytes is enough. -/
theorem Honest.fetched (honest : Honest r env s hash bytes) (same : hashBytes bytes = hash)
    (short : bytes.length ≤ maxManifestBytes) :
    ∃ s', exec (r.manifestBytes env hash) s = (.ok bytes, s') := by
  have network : Yields (Since s.ticks) (fun other => other = bytes)
      (r.fetchManifestNetwork env hash) := by
    refine tryEach_yields (fun _ => rfl)
      (fun addr s => since_of_keeps (keeps_fetchManifestNative env r hash addr) s)
      honest.native_only ?_
    rcases honest.source with ⟨addr, listed, answers⟩ | serves
    · have good : ServesManifest r env s.ticks hash addr := by
        refine ⟨answers.dial, answers.welcome, fun n since => ?_⟩
        obtain ⟨message, answered, name, rfl⟩ := answers.answers n since
        exact ⟨_, answered, name, bytes, rfl, short, same⟩
      refine .inl ⟨addr, listed, fun s₁ since => ?_⟩
      obtain ⟨other, s', fetched, -⟩ := good.yields s₁ since
      exact ⟨other, s', fetched, honest.native_only addr s₁ s' other fetched⟩
    · exact .inr (serves.yields short same honest.http)
  have valid : isValidHash hash = true := (verifyHash_of_hashBytes same).1
  have cached (other : Bytes) (held : s.disk.manifests[hash]? = some other)
      (passes : verifyHash other hash = .ok ()) : other = bytes :=
    honest.cached other held (verifyHash_eq_ok.mp passes).2
  obtain ⟨other, s', fetched, rfl⟩ := manifestBytes_yields honest.writes valid cached network
  exact ⟨s', fetched⟩

omit [Externals] [ResolverExternals] in
/-- A body over the limit is not read. -/
theorem readCapped_tooLong {url : String} {max : ℕ} (long : max < bytes.length) (other : Bytes) :
    Environment.readCapped ⟨url, 200, "200 OK", none, [.ok bytes]⟩ max ≠ .ok other := by
  intro read
  simp only [Environment.readCapped, Environment.readChunks, bind_eq_ok,
    mapError_eq_ok, rejectIf_eq_ok, List.length_nil, Nat.zero_add, Except.ok.injEq,
    exists_eq_left', exists_const] at read
  exact read.1 long

/-- A bootstrap node that serves one body, and nothing else. -/
def Environment.hosting (bytes : Bytes) : Environment where
  dial _ _ := .error (.network "unreachable")
  exchange _ _ _ := .error (.network "unreachable")
  httpGet _ url := .ok ⟨url, 200, "200 OK", none, [.ok bytes]⟩
  file _ := .ok ()
  torn _ := none
  clock _ := ⟨0⟩

/-- A client that knows a bootstrap node only. -/
def Resolver.bare : Resolver := ⟨⟨""⟩, none, none, [], ""⟩

omit [Externals] [ResolverExternals] in
/-- The bootstrap node serves its body honestly. -/
theorem servesHttp_hosting (url : String) :
    ServesHttp (.hosting bytes) 0 url bytes := by
  intro n since
  have success : Environment.isSuccess 200 = true := by decide
  refine ⟨⟨url, 200, "200 OK", none, [.ok bytes]⟩, [bytes], rfl, success, rfl, by simp, ?_⟩
  intro length header
  cases header

/-- Bytes over the limit are not fetched from an honest bootstrap node. -/
theorem not_fetchable_of_long (same : hashBytes bytes = hash)
    (long : maxManifestBytes < bytes.length) : ¬Fetchable hash bytes := by
  intro fetchable
  have honest : Honest Resolver.bare (.hosting bytes) ⟨none, none, .fresh, 0⟩ hash bytes := by
    constructor
    · intro n
      rfl
    · intro other held
      simp [ResolverDisk.fresh] at held
    · intro n addr name other answered
      cases answered
    · intro n resp other got read
      cases got
      exact absurd read (readCapped_tooLong long other)
    · exact .inr (servesHttp_hosting _)
  obtain ⟨s', fetched⟩ := fetchable _ _ _ honest
  have valid : isValidHash hash = true := (verifyHash_of_hashBytes same).1
  have missing : (ResolverDisk.fresh.manifests)[hash]? = none := by simp [ResolverDisk.fresh]
  rw [manifestBytes, exec_bind, exec_lift, rejectIf, if_neg (by simp [valid])] at fetched
  simp only at fetched
  rw [exec_bind_ok (exec_get _)] at fetched
  simp only [missing] at fetched
  rw [exec_bind_eq_ok] at fetched
  obtain ⟨other, s₁, fetched, -⟩ := fetched
  change exec (Resolver.bare.client.fetchManifestBytes (.hosting bytes) hash) _ = _ at fetched
  rw [NodeClient.fetchManifestBytes, exec_bind_eq_ok] at fetched
  obtain ⟨done, s₂, -, fetched⟩ := fetched
  rw [exec_bind_eq_ok] at fetched
  obtain ⟨read, s₃, got, -⟩ := fetched
  have success : Environment.isSuccess 200 = true := by decide
  rw [NodeClient.exec_getBytes rfl success, Prod.mk.injEq] at got
  exact readCapped_tooLong long read got.1

end Fetching

/-! ## Bytes that the registry stores -/

section Storing

variable [SerdeJson] {ctx : MutationContext} {clock : DateTime} {s s' : RegistryStore}

/-- An accepted mutation stores bytes and makes the zone point at them: the manifest of a site
package, or the registry of a TLD. -/
inductive Stores (ctx : MutationContext) (clock : DateTime) (s s' : RegistryStore) (hash : String)
    (bytes : Bytes) : Prop
  | site {pkg : SitePackage} {io : RequestIo} {blocks : List (String × Bytes)}
      {domain id : String} {version : UInt64} {event : AuditRecord}
      (decodes : pkg.decode = .ok (bytes, blocks))
      (publishes : pkg.mutation.action = .publishSite domain hash)
      (accepted : exec (ingestPackage pkg ctx clock io) s =
        (.ok (.accepted id version event), s'))
  | registry {req : MutationRequest} {io : StorageIo} {event : AuditRecord}
      {tld registryHex : String} {r : TldRecord}
      (requested : req.action = .updateRegistryPointer tld registryHex)
      (decodes : Hex.decode registryHex = some bytes)
      (accepted : exec (apply req ctx clock io) s = (.ok event, s'))
      (found : s'.zone.tlds[Text.toAsciiLowercase tld]? = some r)
      (pinned : r.registryManifestHash = some hash)

/-- An accepted mutation is stored with the effect of its action. -/
theorem exec_apply_eq_ok {req : MutationRequest} {io : StorageIo} {event : AuditRecord}
    (accepted : exec (apply req ctx clock io) s = (.ok event, s')) :
    ∃ effect tables, Grant s.zone s.manifests s.registries req.actorPublicKey ctx clock req.action
        effect ∧ s' = s.stored req (s.prepared req ctx effect) tables := by
  have accepts : (Authority.mk ctx.root ctx.officialOperator).Accepts s
      ⟨req, ctx.blocklists, ctx.now, clock, io⟩ event := congrArg Prod.fst accepted
  obtain ⟨p, tables, prepared, -, -, -, -, -, -, after⟩ :=
    (Authority.accepts_iff _ s).mp accepts
  obtain ⟨-, -, -, -, effect, accepted', -, rfl⟩ := prepare_eq_ok.mp prepared
  exact ⟨effect, tables, applyAction_grant accepted', (congrArg Prod.snd accepted).symm.trans after⟩

omit [SerdeJson] in
/-- The manifests after a stored mutation. -/
theorem stored_manifests {req : MutationRequest} {effect : ActionEffect} {tables : RedbTables} :
    (s.stored req (s.prepared req ctx effect) tables).manifests =
      match effect.newRegistry with
      | some (_, bytes, _) => s.manifests.insert (hashBytes bytes) bytes
      | none => s.manifests := by
  rcases effect with ⟨zone, _ | ⟨tld, bytes, r⟩, role⟩ <;> rfl

/-- A mutation is accepted exactly when its nonce is consumed, its content stored and the mutation
applied. -/
theorem exec_runMutation_accepted {req : MutationRequest}
    {content : Option (Bytes × List (String × Bytes))} {io : RequestIo} {id : String}
    {version : UInt64} {event : AuditRecord} :
    exec (runMutation req content ctx clock io) s = (.ok (.accepted id version event), s') ↔
      ∃ s₁ s₂, exec (RegistryStore.consumeNonce req.nonce (Int64.ofInt ctx.now.timestamp)
          io.nonce) s = (.ok true, s₁) ∧
        exec (storeContent content io) s₁ = (.ok (), s₂) ∧
        exec (apply req ctx clock io.apply) s₂ = (.ok event, s') ∧
        id = req.mutationId ∧ version = s'.zone.rootVersion := by
  rw [runMutation, exec_bind, exec_attempt]
  cases consumed : exec (RegistryStore.consumeNonce req.nonce (Int64.ofInt ctx.now.timestamp)
    io.nonce) s with
  | mk outcome s₁ =>
    cases outcome with
    | error e => simp
    | ok valid =>
      cases valid with
      | false => simp
      | true =>
        simp only
        rw [exec_bind, exec_attempt]
        cases kept : exec (storeContent content io) s₁ with
        | mk outcome s₂ =>
          cases outcome with
          | error e => simp [kept]
          | ok done =>
            simp only
            rw [exec_bind, exec_attempt]
            cases applied : exec (apply req ctx clock io.apply) s₂ with
            | mk outcome s₃ =>
              cases outcome with
              | error e => simp [kept, applied]
              | ok event' =>
                simp only [exec_bind, exec_get, exec_pure, Prod.mk.injEq, Except.ok.injEq,
                  MutationReply.accepted.injEq]
                constructor
                · intro same
                  obtain ⟨⟨rfl, rfl, rfl⟩, rfl⟩ := same
                  exact ⟨s₁, s₂, ⟨trivial, rfl⟩, kept, applied, rfl, rfl⟩
                · intro ran
                  obtain ⟨s₁', s₂', ⟨-, rfl⟩, kept', applied', rfl, rfl⟩ := ran
                  rw [kept, Prod.mk.injEq] at kept'
                  obtain ⟨-, rfl⟩ := kept'
                  rw [applied, Prod.mk.injEq, Except.ok.injEq] at applied'
                  obtain ⟨rfl, rfl⟩ := applied'
                  exact ⟨⟨rfl, rfl, rfl⟩, rfl⟩

omit [SerdeJson] in
/-- A decoded package carries the manifest that it publishes. -/
theorem SitePackage.hashBytes_of_decode {pkg : SitePackage} {blocks : List (String × Bytes)}
    {domain : String} (decodes : pkg.decode = .ok (bytes, blocks))
    (publishes : pkg.mutation.action = .publishSite domain hash) : hashBytes bytes = hash := by
  simp only [SitePackage.decode, publishes, bind_eq_ok, rejectIf_eq_ok, okOr_eq_ok, exists_const,
    pure_eq_ok, Prod.mk.injEq] at decodes
  obtain ⟨-, manifest, -, decoded, -, done, passes, rfl, rfl⟩ := decodes
  exact (verifyHash_eq_ok.mp passes).2

/-- The stored bytes are filed under the address that the zone points at. -/
theorem Stores.filed (stores : Stores ctx clock s s' hash bytes) :
    hashBytes bytes = hash ∧ s'.manifests[hash]? = some bytes := by
  cases stores with
  | @site pkg io blocks domain id version event decodes publishes accepted =>
    have same := SitePackage.hashBytes_of_decode decodes publishes
    refine ⟨same, ?_⟩
    rw [ingestPackage, decodes, exec_runMutation_accepted] at accepted
    obtain ⟨s₁, s₂, -, kept, applied, -, -⟩ := accepted
    have stored : s₂.manifests[hash]? = some bytes := by
      rw [storeContent, exec_bind_eq_ok] at kept
      obtain ⟨done, s₃, -, kept⟩ := kept
      rw [storeManifest, exec_bind_eq_ok] at kept
      obtain ⟨done, s₄, -, written⟩ := kept
      rw [exec_writeManifest] at written
      cases wrote : io.manifest with
      | error e => simp [wrote] at written
      | ok done =>
        simp only [wrote, Prod.mk.injEq, true_and] at written
        rw [← written, same]
        exact Std.ExtTreeMap.getElem?_insert_self
    obtain ⟨effect, tables, granted, rfl⟩ := exec_apply_eq_ok applied
    rw [stored_manifests]
    rw [publishes] at granted
    cases granted with
    | publish => exact stored
    | restrictTld requested => simp at requested
  | @registry req io event tld registryHex r requested decodes accepted found pinned =>
    obtain ⟨effect, tables, granted, rfl⟩ := exec_apply_eq_ok accepted
    rw [requested] at granted
    cases granted with
    | restrictTld requested => simp at requested
    | publish requested => simp at requested
    | updateRegistryPointer held entitled kind decodes' =>
      obtain rfl := Option.some.inj (decodes.symm.trans decodes')
      have new : some r = some _ := found.symm.trans
        ((s.zone.putTld_getElem? _ _ _).trans (if_pos rfl))
      have same : hashBytes bytes = hash := by
        rw [Option.some.inj new] at pinned
        exact Option.some.inj pinned
      rw [stored_manifests]
      subst same
      exact ⟨rfl, Std.ExtTreeMap.getElem?_insert_self⟩

/-- Whatever package or registry pointer the registry accepts, a client whose provider honestly
serves the stored bytes gets them exactly when they fit in a manifest. -/
theorem stored_fetchable_iff [ResolverExternals] (stores : Stores ctx clock s s' hash bytes) :
    s'.manifests[hash]? = some bytes ∧ (Fetchable hash bytes ↔ bytes.length ≤ maxManifestBytes) := by
  obtain ⟨same, filed⟩ := stores.filed
  refine ⟨filed, fun fetchable => ?_, fun short r env s honest => honest.fetched same short⟩
  by_contra long
  exact not_fetchable_of_long same (not_le.mp long) fetchable

end Storing

end Federate

namespace Federate.Reference

open Json Outcome Stateful RegistryStore

/-- The manifest of the site, followed by spaces. -/
def paddedManifest (spaces : ℕ) : Bytes :=
  compact siteManifest.toJson ++ List.replicate spaces 0x20

/-- Spaces after a manifest do not matter. -/
theorem paddedManifest_reads (spaces : ℕ) :
    SerdeDocuments.manifest (paddedManifest spaces) = .ok siteManifest := by
  have blank : Becomes (List.replicate spaces 0x20) [] := by
    intro rest
    induction spaces with
    | zero => rfl
    | succ spaces ih =>
      have space : isSpace 0x20 = true := by decide
      rw [List.replicate_succ, List.cons_append, squeeze, if_pos space, ih]
  have whole : squeeze .outside (paddedManifest spaces) =
      squeeze .outside (compact siteManifest.toJson) := by
    rw [paddedManifest, ((becomes_compact _).append blank).whole, (becomes_compact _).whole, List.append_nil]
  exact (read_congr whole).trans siteManifest_reads

/-- A zone with the TLD `foo`, signed by the root. -/
def fooZone : RootZone :=
  RootZone.signedBy { emptyZone authority.root ⟨0⟩ with
    tlds := (∅ : Table _ _).insert "foo" (official "foo") } authority.root

/-- A new registry with the TLD `foo`. -/
def fooStore : RegistryStore := initialStore (.fresh "node") fooZone

/-- The registry after a challenge was issued. -/
def challenged : RegistryStore :=
  { fooStore with database := fooStore.database.reserveNonce "first" nonceTtlSecs }

/-- The context of a call of the registry at the epoch. -/
def epoch : MutationContext := ⟨authority.root, authority.officialOperator, ⟨∅, ∅, ∅, ∅⟩, ⟨0⟩⟩

/-- A storage that works. -/
def working : RequestIo := ⟨.ok (), fun _ => .ok (), .ok (), .ok⟩

/-- A package of the site under `alice.foo`, whose manifest is followed by spaces. -/
def sitePackage (spaces : ℕ) : SitePackage where
  mutation := .signed (identity 3) "first" stamp 1
    (.publishSite "alice.foo" (hashBytes (paddedManifest spaces)))
  manifestHex := Hex.encode (paddedManifest spaces)
  blocks := []

theorem fooStore_initialized : RegistryStore.init (.fresh "node") fooZone .ok = .ok fooStore := by
  have written (s : RegistryStore) : exec (writeSnapshot .ok) s =
      (.ok (s.path ++ "/snapshots/" ++ s!"root-zone-v{s.zone.rootVersion}.json"), s.withSnapshot) :=
    s.exec_writeSnapshot .ok
  have unused : ¬(RegistryDir.fresh "node").database.isSome = true := by decide
  simp only [RegistryStore.init, bind_eq_ok, rejectIf_eq_ok, exists_const, exists_unit, pure_eq_ok,
    written]
  exact ⟨unused, rfl, _, rfl, rfl⟩

theorem sitePackage_decode (spaces : ℕ) :
    (sitePackage spaces).decode = .ok (paddedManifest spaces, []) := by
  have passes : verifyHash (paddedManifest spaces) (hashBytes (paddedManifest spaces)) = .ok () :=
    (verifyHash_of_hashBytes rfl).2
  have few : ¬maxPackageBlocks < (sitePackage spaces).blocks.length := by
    simp [sitePackage]
  simp only [SitePackage.decode, bind_eq_ok, rejectIf_eq_ok, exists_const, okOr_eq_ok]
  refine ⟨few, paddedManifest spaces, Hex.decode_encode _, [], rfl, ?_⟩
  simp only [sitePackage, MutationRequest.signed, passes]
  rfl

/-- The registry with the challenge answered and the manifest of the package stored. -/
def ingested (spaces : ℕ) : RegistryStore :=
  { challenged with
    database := (challenged.database.consumeNonce "first" 0).2
    files := { challenged.files with
      manifests := challenged.files.manifests.insert (hashBytes (paddedManifest spaces))
        (paddedManifest spaces) }
    manifests := challenged.manifests.insert (hashBytes (paddedManifest spaces))
      (paddedManifest spaces) }

/-- The challenge is open. -/
theorem consumeNonce_challenged : exec (RegistryStore.consumeNonce "first" 0 (.ok ())) challenged =
    (.ok true, { challenged with database := (challenged.database.consumeNonce "first" 0).2 }) := by
  have filed : challenged.database.nonces["first"]? = some nonceTtlSecs :=
    Std.ExtTreeMap.getElem?_insert_self
  have opened : (challenged.database.consumeNonce "first" 0).1 = true := by
    simp only [RedbTables.consumeNonce, filed]
    decide
  simp only [RegistryStore.consumeNonce, exec_bind, exec_get, exec_modify, exec_pure]
  rw [← opened]
  rfl

/-- The manifest of the package is stored. -/
theorem storeContent_ingested (spaces : ℕ) :
    exec (storeContent (some (paddedManifest spaces, [])) working)
      { challenged with database := (challenged.database.consumeNonce "first" 0).2 } =
        (.ok (), ingested spaces) := by
  have passes : verifyHash (paddedManifest spaces) (hashBytes (paddedManifest spaces)) = .ok () :=
    (verifyHash_of_hashBytes rfl).2
  simp only [storeContent, storeBlocks, storeManifest, exec_bind, exec_pure, exec_lift, passes]
  rw [exec_writeManifest]
  rfl

/-- What publishing the site changes. -/
def publishedSite (spaces : ℕ) : ActionEffect where
  zone := fooZone.putDomain "alice.foo" ((publishedRecord none ⟨"alice", "foo"⟩
    (identity 3).nodeId (hashBytes (paddedManifest spaces)) stamp).signedBy
      authority.officialOperator)
  newRegistry := none
  role := .domainOwner

/-- The site is published. -/
theorem publish_ingested (spaces : ℕ) :
    publish (ingested spaces).zone (ingested spaces).manifests (identity 3).nodeId epoch ⟨0⟩ false
      "alice.foo" (hashBytes (paddedManifest spaces)) = .ok (publishedSite spaces) := by
  have found : (ingested spaces).zone.lookupTld "foo" = some (official "foo") :=
    Std.ExtTreeMap.getElem?_insert_self
  have vacant : (ingested spaces).zone.domains["alice.foo"]? = none := by
    have empty : (ingested spaces).zone.domains = ∅ := rfl
    simp [empty]
  have stored : (ingested spaces).manifests[hashBytes (paddedManifest spaces)]? =
      some (paddedManifest spaces) := Std.ExtTreeMap.getElem?_insert_self
  have name : (FederateDomain.mk "alice" "foo").fqdn = "alice.foo" := by decide
  simp only [publish, bind_eq_ok, mapError_eq_ok, okOr_eq_ok, rejectIf_eq_ok, exists_const,
    pure_eq_ok]
  refine ⟨⟨"alice", "foo"⟩, parse_alice, official "foo", found, by decide, by decide +kernel,
    by decide, ⟨⟩, ?_, paddedManifest spaces, stored, siteManifest,
    serde_eq_ok.mpr (paddedManifest_reads spaces), ⟨⟩, siteManifest_validate, ⟨⟩, ?_, ?_⟩
  · rw [name, vacant]
    rfl
  · exact siteManifest_verify
  · rw [name, vacant]
    rfl

/-- The mutation of the package, as a call. -/
def packageCall (spaces : ℕ) : ApplyCall :=
  call (identity 3) "first" 1 (.publishSite "alice.foo" (hashBytes (paddedManifest spaces)))

/-- The mutation of the package is applied. -/
theorem applyTo_ingested (spaces : ℕ) : ∃ event s',
    authority.applyTo (packageCall spaces) (ingested spaces) = (.ok event, s') := by
  have signed : (packageCall spaces).request.verify = .ok () :=
    MutationRequest.verify_signed signaturesVerify ..
  have fresh : (packageCall spaces).request.mutationId ∉ (ingested spaces).applied :=
    Std.ExtTreeMap.not_mem_empty
  have advances : (ingested spaces).targetVersion (packageCall spaces).request.action.targetKey <
      (packageCall spaces).request.targetVersion := by
    have current (key : String) : (ingested spaces).targetVersion key = 0 := by
      have empty : (ingested spaces).targetVersions = ∅ := rfl
      simp [targetVersion, empty]
    rw [current]
    exact (by decide : (0 : UInt64) < 1)
  have verified : ((ingested spaces).prepared (packageCall spaces).request epoch (publishedSite spaces)).zone.verify
      authority.root.nodeId = .ok () := by
    refine RootZone.verify_signedBy signaturesVerify _ _ rfl fun tld r found => ?_
    have filed : ((∅ : Table _ _).insert "foo" (official "foo"))[tld]? = some r := found
    rw [Std.ExtTreeMap.getElem?_insert] at filed
    split at filed
    · rw [← Option.some.inj filed]
      exact TldRecord.verify_signedBy signaturesVerify _ _
    · exact absurd filed (by simp)
  have accepted : applyAction (ingested spaces).zone (ingested spaces).manifests
      (ingested spaces).registries (packageCall spaces).request.actorPublicKey epoch ⟨0⟩
      (packageCall spaces).request.action = .ok (publishedSite spaces) := publish_ingested spaces
  have window : MutationRequest.InWindow (packageCall spaces).request.issuedAt ⟨0⟩ := inWindow
  have prepared : authority.Prepares (ingested spaces) (packageCall spaces)
      ((ingested spaces).prepared (packageCall spaces).request epoch (publishedSite spaces)) :=
    prepare_eq_ok.mpr ⟨signed, window, fresh, advances, publishedSite spaces, accepted, verified, rfl⟩
  have unnumbered : AuditBelow 0 (ingested spaces) := fun _ member =>
    absurd member Std.ExtTreeMap.not_mem_empty
  obtain ⟨seq, numbered⟩ := Rows.exists_nextNumber unnumbered (by decide)
  obtain ⟨tables, committed⟩ := nextTables_eq_ok.mpr
    ⟨seq, show (ingested spaces).database.nextAuditSeq = .ok seq from okOr_eq_ok.mpr numbered⟩
  have stored := authority.applyTo_stored _ prepared (fun _ => rfl) committed rfl rfl rfl
  exact ⟨_, _, stored⟩

/-- The package is accepted, however many spaces follow its manifest. -/
theorem sitePackage_accepted (spaces : ℕ) : ∃ id version event s',
    exec (ingestPackage (sitePackage spaces) epoch ⟨0⟩ working) challenged =
      (.ok (.accepted id version event), s') := by
  obtain ⟨event, s', applied⟩ := applyTo_ingested spaces
  refine ⟨(sitePackage spaces).mutation.mutationId, s'.zone.rootVersion, event, s', ?_⟩
  rw [ingestPackage, sitePackage_decode]
  exact exec_runMutation_accepted.mpr ⟨_, ingested spaces, consumeNonce_challenged,
    storeContent_ingested spaces, applied, rfl, rfl⟩

/-- The manifest of an accepted package can be fetched when it is short. -/
theorem shortManifest_fetchable : ∃ s',
    Stores epoch ⟨0⟩ challenged s' (hashBytes (paddedManifest 0)) (paddedManifest 0) ∧
      Fetchable (hashBytes (paddedManifest 0)) (paddedManifest 0) := by
  have short : (paddedManifest 0).length ≤ maxManifestBytes := by decide +kernel
  obtain ⟨id, version, event, s', accepted⟩ := sitePackage_accepted 0
  have stores : Stores epoch ⟨0⟩ challenged s' (hashBytes (paddedManifest 0)) (paddedManifest 0) :=
    .site (sitePackage_decode 0) rfl accepted
  exact ⟨s', stores, (stored_fetchable_iff stores).2.mpr short⟩

/-- A package whose manifest is followed by 4194304 spaces is accepted, and no client can fetch the
manifest. -/
theorem longManifest_not_fetchable :
    RegistryStore.init (.fresh "node") fooZone .ok = .ok fooStore ∧
      exec (RegistryStore.issueNonce "first" 0 (.ok ())) fooStore =
        (.ok ("first", nonceTtlSecs), challenged) ∧
      (sitePackage 4194304).decode = .ok (paddedManifest 4194304, []) ∧
      (∃ id version event s', exec (ingestPackage (sitePackage 4194304) epoch ⟨0⟩ working)
        challenged = (.ok (.accepted id version event), s')) ∧
      ¬Fetchable (hashBytes (paddedManifest 4194304)) (paddedManifest 4194304) := by
  have long (spaces : ℕ) (many : 4194304 ≤ spaces) :
      maxManifestBytes < (paddedManifest spaces).length := by
    have some : 0 < (compact siteManifest.toJson).length := by decide +kernel
    have limit : maxManifestBytes = 4194304 := by decide
    rw [paddedManifest, List.length_append, List.length_replicate, limit]
    omega
  exact ⟨fooStore_initialized, rfl, sitePackage_decode _, sitePackage_accepted _,
    not_fetchable_of_long rfl (long _ le_rfl)⟩

end Federate.Reference
