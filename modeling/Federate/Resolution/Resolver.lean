import Federate.Resolution.Environment

/-!
# The resolver

From a host and a path to verified content: root zone, TLD record, domain record, manifest,
block. Every object may come from memory, from a cache file or from the network. What the
resolver logs and traces is left out.
-/

namespace Federate

open Outcome Stateful

/-- `AGENT`. -/
def agent : String := "federate-resolution/0.1.0"

/-- `Resolver`: what does not change after it is built. -/
structure Resolver where
  /-- The bootstrap node. -/
  client : NodeClient
  /-- Base URL of the node directory, when one is used. -/
  directory : Option String
  /-- Preferred region. -/
  region : Option String
  /-- Addresses of the default native providers. -/
  nativeProviders : List String
  /-- Node id of the identity that handshakes carry. -/
  nodeId : String

/-- `Resolved`. -/
inductive Resolved where
  | content (domain path : String) (bytes : Bytes) (mime hash : String)
  | notFederate (host : String)
  | tldNotFound (tld : String)
  | tldUnavailable (tld status : String)
  | delegatedUnavailable (domain tld reason : String)
  | domainNotFound (domain : String)
  | domainUnavailable (domain status : String)
  | pathNotFound (domain path : String)
  | securityFailure (domain layer reason : String)

/-- `Resolver::new`: the configured root key, else the one persisted, unless it is empty. -/
def ResolverState.new (configuredRootKey : Option String) (disk : ResolverDisk) (ticks : ℕ) :
    ResolverState where
  root := none
  trustedRootKey :=
    (configuredRootKey.or (disk.trustedRootKey.map Text.trim)).filter fun key => key ≠ ""
  disk := disk
  ticks := ticks

namespace Resolver

section Files

variable [Externals] [SerdeDocuments] (env : Environment)

/-- `RootCache::load`. -/
def rootCacheLoad : ResolverM RootZone := do
  let bytes ← readFile ResolverDisk.rootZone
  let zone ← liftM (serde (SerdeDocuments.rootZone bytes))
  liftM zone.validate
  return zone

/-- `RootCache::store`. -/
def rootCacheStore (zone : RootZone) : ResolverM Unit :=
  env.changeFile fun d => { d with rootZone := some (Externals.toVecPretty zone.toJson) }

/-- `Resolver::registry_cache_path`: the file of a TLD's registry, by its normal name. -/
def registryCachePath (tld : String) : Option String := (validateTldName tld).toOption

/-- `Resolver::cached_registry`: re-verified against the current operator key. -/
def cachedRegistry (tldRec : TldRecord) : ResolverM (Option TldRegistry) := do
  let s ← get
  return do
    let bytes ← s.disk.registries[← registryCachePath tldRec.tld]?
    let registry ← (SerdeDocuments.tldRegistry bytes).toOption
    (registry.verify tldRec.tld tldRec.operatorPublicKey).toOption
    some registry

/-- `Resolver::store_registry`: a failure is ignored. -/
def storeRegistry (registry : TldRegistry) : ResolverM Unit :=
  match registryCachePath registry.tld with
  | none => pure ()
  | some path => do
    let _ ← attempt (env.changeFile fun d =>
      { d with registries := d.registries.insert path (Externals.toVecPretty registry.toJson) })

/-- `BlockStore::get`. -/
def blockGet (hash : String) : ResolverM Bytes := do
  liftM (rejectIf (isValidHash hash = false) (FederateError.blockNotFound hash))
  let bytes ← liftM (okOr (← get).disk.blocks[hash]? (FederateError.blockNotFound hash))
  liftM (verifyHash bytes hash)
  return bytes

/-- `BlockStore::put`. -/
def blockPut (hash : String) (bytes : Bytes) : ResolverM Unit := do
  liftM (verifyHash bytes hash)
  env.overwriteFile (fun part d => { d with blocks := d.blocks.insert hash part }) bytes

/-- `Resolver::verify_zone`: against the pinned root key; without one, the key of a
self-consistent zone is persisted and pinned. -/
def verifyZone (zone : RootZone) : ResolverM Unit := do
  match (← get).trustedRootKey with
  | some key => liftM (zone.verify key)
  | none => do
    liftM (zone.verify zone.rootPublicKey)
    env.overwriteFile (fun part d => { d with trustedRootKey := some (String.ofList part) })
      zone.rootPublicKey.toList
    modify fun s => { s with trustedRootKey := some zone.rootPublicKey }

/-- The cached zone of the disk, verified. -/
def verifiedCache : ResolverM RootZone := do
  let cached ← rootCacheLoad
  verifyZone env cached
  return cached

/-- `Resolver::last_verified_zone`: in memory, else on disk. -/
def lastVerifiedZone : ResolverM (Option RootZone) := do
  match (← get).root with
  | some zone => return some zone
  | none => return (← attempt (verifiedCache env)).toOption

/-- `*self.root.write().await = Some(zone)`. -/
def holdRoot (zone : RootZone) : ResolverM Unit := modify fun s => { s with root := some zone }

end Files

variable [Externals] [SerdeDocuments] [ResolverExternals] (r : Resolver) (env : Environment)

/-! ## Native requests -/

/-- `Connection::connect`: dial and handshake; the version of the session. -/
def connect (addr : String) : ResolverM UInt16 := do
  ask fun n => env.dial n addr
  match ← ask fun n => env.exchange n addr (.hello supportedVersions r.nodeId agent) with
  | .welcome version _ _ _ =>
    if version ∈ supportedVersions then return version
    else throw (.network s!"peer chose unsupported protocol version {version}")
  | .error code detail => throw (.network s!"handshake rejected: {code.debugName}: {detail}")
  | other => throw (.network s!"expected Welcome, got {ResolverExternals.messageDebug other}")

/-- The error of an answer that is not the one asked for. -/
def badAnswer (who : String) : Message → FederateError
  | .error code detail => .network s!"{who} answered {code.debugName}: {detail}"
  | other => .network s!"{who} answered unexpectedly: {ResolverExternals.messageDebug other}"

/-- `Resolver::fetch_root_native`. -/
def fetchRootNative (addr : String) : ResolverM RootZone := do
  let _ ← r.connect env addr
  match ← ask fun n => env.exchange n addr .getRoot with
  | .root zoneJson => do
    liftM (rejectIf (maxRootBytes < zoneJson.length)
      (FederateError.network s!"native root zone exceeds {maxRootBytes} bytes"))
    let zone ← liftM (serde (SerdeDocuments.rootZone zoneJson))
    liftM zone.validate
    return zone
  | other => throw (badAnswer "native provider" other)

/-- `Resolver::fetch_manifest_native`. -/
def fetchManifestNative (hash addr : String) : ResolverM Bytes := do
  let _ ← r.connect env addr
  match ← ask fun n => env.exchange n addr (.getManifest hash) with
  | .manifest _ bytes => do
    liftM (rejectIf (maxManifestBytes < bytes.length)
      (FederateError.network s!"native manifest exceeds {maxManifestBytes} bytes"))
    liftM (verifyHash bytes hash)
    return bytes
  | other => throw (badAnswer "native provider" other)

/-- `Resolver::fetch_block_native`. -/
def fetchBlockNative (hash addr : String) : ResolverM Bytes := do
  liftM (rejectIf (isValidHash hash = false) (FederateError.blockNotFound hash))
  let _ ← r.connect env addr
  match ← ask fun n => env.exchange n addr (.getBlock hash) with
  | .block _ bytes => do
    liftM (verifyHash bytes hash)
    return bytes
  | other => throw (badAnswer "native provider" other)

/-- The document that `fetch_registry_native` gets, before it is verified: only over a session
that knows registries. -/
def nativeRegistryDocument (tld addr : String) : ResolverM TldRegistry := do
  let version ← r.connect env addr
  liftM (rejectIf (version < versionDelegatedRegistries) (FederateError.network
    (s!"provider speaks protocol v{version} (< v{versionDelegatedRegistries}); " ++
      "no delegated registry support")))
  match ← ask fun n => env.exchange n addr (.getTldRegistry tld) with
  | .tldRegistry _ registryJson => do
    liftM (rejectIf (maxRegistryBytes < registryJson.length)
      (FederateError.network s!"registry exceeds {maxRegistryBytes} bytes"))
    liftM (mapError (fun e => FederateError.network s!"provider sent malformed registry: {e}")
      (SerdeDocuments.tldRegistry registryJson))
  | other => throw (badAnswer "registry provider" other)

/-- `Resolver::fetch_registry_native`. -/
def fetchRegistryNative (tld operatorPublicKey addr : String) : ResolverM TldRegistry := do
  let registry ← r.nativeRegistryDocument env tld addr
  liftM (registry.verify tld operatorPublicKey)
  return registry

/-! ## The root zone -/

/-- `Resolver::fetch_root_network`. -/
def fetchRootNetwork : ResolverM RootZone :=
  tryEach (fun _ => false) (r.fetchRootNative env) (r.client.fetchRoot env) r.nativeProviders

/-- The part of `refresh_root` after a zone was fetched and verified: an older zone than the
last verified one is rejected. -/
def acceptRoot (zone : RootZone) : ResolverM RootZone := do
  match ← lastVerifiedZone env with
  | some known =>
    if zone.rootVersion < known.rootVersion then
      holdRoot known
      return known
  | none => pure ()
  rootCacheStore env zone
  holdRoot zone
  return zone

/-- `Resolver::refresh_root`. -/
def refreshRoot : ResolverM RootZone := do
  match ← attempt (r.fetchRootNetwork env) with
  | .ok zone =>
    match ← attempt (verifyZone env zone) with
    | .ok () => acceptRoot env zone
    | .error e =>
      match ← attempt (verifiedCache env) with
      | .ok cached => do
        holdRoot cached
        return cached
      | .error _ => throw e
  | .error _ => do
    match ← attempt (rootCacheLoad) with
    | .ok zone => do
      verifyZone env zone
      holdRoot zone
      return zone
    | .error _ => throw .rootUnavailable

/-- `Resolver::root`. -/
def root : ResolverM RootZone := do
  match (← get).root with
  | some zone => return zone
  | none => r.refreshRoot env

/-! ## Manifests and registries -/

/-- `Resolver::fetch_manifest_network`. -/
def fetchManifestNetwork (hash : String) : ResolverM Bytes :=
  tryEach (fun _ => false) (r.fetchManifestNative env hash)
    (r.client.fetchManifestBytes env hash) r.nativeProviders

/-- `Resolver::manifest_bytes`: a cached file that does not hash to its name is removed. -/
def manifestBytes (hash : String) : ResolverM Bytes := do
  liftM (rejectIf (isValidHash hash = false) (FederateError.manifestNotFound hash))
  match (← get).disk.manifests[hash]? with
  | some bytes =>
    if verifyHash bytes hash = .ok () then return bytes
    else do
      let _ ← attempt (env.changeFile fun d => { d with manifests := d.manifests.erase hash })
  | none => pure ()
  let bytes ← r.fetchManifestNetwork env hash
  env.changeFile fun d => { d with manifests := d.manifests.insert hash bytes }
  return bytes

/-- `Resolver::manifest`. -/
def manifest (hash : String) : ResolverM Manifest := do
  let bytes ← r.manifestBytes env hash
  let m ← liftM (serde (SerdeDocuments.manifest bytes))
  liftM m.validate
  return m

/-- A signature failure. -/
def isVerificationFailed : FederateError → Bool
  | .verificationFailed _ _ _ => true
  | _ => false

/-- `Resolver::fetch_registry_live`: a forged answer ends the search. -/
def fetchRegistryLive (tldRec : TldRecord) : ResolverM TldRegistry :=
  let unavailable : ResolverM TldRegistry :=
    throw (.delegatedRegistryUnavailable tldRec.tld "no registry provider answered")
  tryEach isVerificationFailed
    (r.fetchRegistryNative env tldRec.tld tldRec.operatorPublicKey)
    (tryEach isVerificationFailed
      (fun endpoint => fetchRegistry env endpoint tldRec.operatorPublicKey tldRec.tld)
      unavailable tldRec.registryEndpoint.toList)
    tldRec.registryProviders

/-- The error of a pinned registry whose bytes cannot be fetched: tampering stays what it is. -/
def pinnedError (tld hash : String) : FederateError → FederateError
  | .hashMismatch expected actual => .hashMismatch expected actual
  | .verificationFailed layer subject reason => .verificationFailed layer subject reason
  | other =>
    .delegatedRegistryUnavailable tld s!"registry manifest {hash} not fetchable: {other}"

/-- `Resolver::tld_registry` of a registry pinned by the TLD record. -/
def pinnedRegistry (tldRec : TldRecord) : ResolverM TldRegistry := do
  let hash ← liftM (okOr tldRec.registryManifestHash (FederateError.delegatedRegistryUnavailable tldRec.tld
    "TLD record declares delegated_manifest but carries no registry_manifest_hash"))
  match ← attempt (r.manifestBytes env hash) with
  | .error e => throw (pinnedError tldRec.tld hash e)
  | .ok bytes => do
    let registry ← liftM (mapError (fun e => FederateError.verificationFailed "tld-registry"
      ("." ++ tldRec.tld) s!"registry manifest is not a valid registry document: {e}")
      (SerdeDocuments.tldRegistry bytes))
    liftM (registry.verify tldRec.tld tldRec.operatorPublicKey)
    return registry

/-- `Resolver::tld_registry` of a live registry: never older than the cached one, and the
cached one when no provider answers. -/
def liveRegistry (tldRec : TldRecord) : ResolverM TldRegistry := do
  match ← attempt (r.fetchRegistryLive env tldRec) with
  | .ok registry =>
    match ← cachedRegistry tldRec with
    | some cached => if registry.version < cached.version then return cached
    | none => pure ()
    storeRegistry env registry
    return registry
  | .error e =>
    if isVerificationFailed e then throw e
    else
      match ← cachedRegistry tldRec with
      | some cached => return cached
      | none => throw e

/-- `Resolver::tld_registry`. -/
def tldRegistry (tldRec : TldRecord) : ResolverM TldRegistry :=
  match tldRec.registryType with
  | .delegatedManifest => r.pinnedRegistry env tldRec
  | .delegatedNative | .delegatedHttp => r.liveRegistry env tldRec
  | other => throw (.delegatedRegistryUnavailable tldRec.tld
      s!"registry type {other.debugName} is not resolvable")

/-- `Resolver::tld_registry_by_name`. -/
def tldRegistryByName (tld : String) : ResolverM TldRegistry := do
  let root ← r.root env
  let tldRec ← liftM (okOr (root.lookupTld tld) (FederateError.tldNotFound tld))
  r.tldRegistry env tldRec

/-- `Resolver::locate_record`. -/
def locateRecord (root : RootZone) (tldRec : TldRecord) (fqdn : String) :
    ResolverM DomainRecord :=
  match tldRec.registryType with
  | .rootManaged => liftM (okOr (root.lookup fqdn) (FederateError.domainNotFound fqdn))
  | .delegatedManifest | .delegatedNative | .delegatedHttp => do
    let registry ← r.tldRegistry env tldRec
    liftM (okOr (registry.lookup fqdn) (FederateError.domainNotFound fqdn))
  | .offlineManual => throw (.delegatedRegistryUnavailable tldRec.tld
      "registry is administered offline and cannot be resolved")

/-! ## Blocks -/

/-- The native providers of a block: ranked ones first, then the defaults not among them. -/
def nativeAddrs (ranked : List NodeEntry) : List String :=
  r.nativeProviders.foldl (fun found addr => if addr ∈ found then found else found ++ [addr])
    (ranked.filterMap NodeEntry.nativeAddr)

/-- The providers of a block that the directory names; a failure names none. -/
def discoverProviders (hash : String) : ResolverM (List NodeEntry) :=
  match r.directory with
  | some base => do return (← attempt (directoryProviders env base hash)).toOption.getD []
  | none => return []

/-- The network part of `block_traced`: native providers, HTTP providers, the bootstrap node. -/
def fetchBlockNetwork (hash : String) : ResolverM Bytes := do
  let ranked := rankProviders (← r.discoverProviders env hash) r.region
  tryEach (fun _ => false) (r.fetchBlockNative env hash)
    (tryEach (fun _ => false) (fun p => fetchBlockFrom env p hash)
      (r.client.fetchBlock env hash) ranked)
    (r.nativeAddrs ranked)

/-- `Resolver::block_traced`: the local cache, then the network. -/
def blockTraced (hash : String) : ResolverM Bytes := do
  match ← attempt (blockGet hash) with
  | .ok bytes => return bytes
  | .error _ => do
    let bytes ← r.fetchBlockNetwork env hash
    blockPut env hash bytes
    return bytes

/-! ## Resolution -/

/-- `Resolver::resolve_domain`. -/
def resolveDomain (host : String) : ResolverM DomainRecord := do
  let domain ← liftM (FederateDomain.parse host)
  let root ← r.root env
  let tldRec ← liftM (okOr (root.lookupTld domain.tld) (FederateError.tldNotFound domain.tld))
  let now ← env.now
  liftM (rejectIf (tldRec.status.isResolvable = false ∨ tldRec.isExpired now = true)
    (FederateError.tldUnavailable domain.tld
      (if tldRec.isExpired now then "expired" else tldRec.status.asStr)))
  let record ← r.locateRecord env root tldRec domain.fqdn
  liftM (record.verify tldRec.operatorPublicKey)
  liftM (rejectIf (record.tld ≠ domain.tld) (FederateError.verificationFailed "domain" domain.fqdn
    "domain record belongs to a different TLD"))
  let now ← env.now
  liftM (rejectIf (record.status.isResolvable = false ∨ record.isExpired now = true)
    (FederateError.tldUnavailable domain.tld
      (if record.isExpired now then "expired" else record.status.asStr)))
  return record

/-- `Resolver::site_files`. -/
def siteFiles (host : String) : ResolverM (List String) := do
  let record ← r.resolveDomain env host
  let m ← r.manifest env record.manifestHash
  liftM (m.verify host record.ownerPublicKey)
  return m.files.keys

/-- The outcome of a failed search for a domain record. -/
def unlocated (fqdn : String) : FederateError → Result Resolved
  | .domainNotFound _ => .ok (.domainNotFound fqdn)
  | .verificationFailed layer _ reason => .ok (.securityFailure fqdn layer reason)
  | .hashMismatch expected actual => .ok (.securityFailure fqdn "tld-registry"
      s!"registry manifest hash mismatch (expected {expected}, got {actual})")
  | .delegatedRegistryUnavailable tld reason => .ok (.delegatedUnavailable fqdn tld reason)
  | e => .error e

/-- A signature failure of a check becomes an outcome; any other result of it is ignored. -/
def checkFailure (fqdn : String) : Result Unit → Option Resolved
  | .error (.verificationFailed layer _ reason) => some (.securityFailure fqdn layer reason)
  | _ => none

/-- The outcome of bytes that cannot be had: a hash mismatch is a security failure. -/
def unfetched (fqdn layer what : String) : FederateError → Result Resolved
  | .hashMismatch expected actual => .ok (.securityFailure fqdn layer
      s!"{what} hash mismatch (expected {expected}, got {actual})")
  | e => .error e

/-- The end of `resolve_traced_inner`: manifest and block of a checked domain record. -/
def serve (fqdn path : String) (record : DomainRecord) : ResolverM Resolved := do
  match ← attempt (r.manifest env record.manifestHash) with
  | .error e => liftM (unfetched fqdn "manifest" "manifest" e)
  | .ok m =>
    match checkFailure fqdn (m.verify fqdn record.ownerPublicKey) with
    | some outcome => return outcome
    | none =>
      match m.resolvePath path with
      | none => return .pathNotFound fqdn path
      | some (fileName, fileHash) =>
        match ← attempt (r.blockTraced env fileHash) with
        | .error e => liftM (unfetched fqdn "content" "content block" e)
        | .ok bytes =>
          return .content fqdn path bytes (ResolverExternals.mimeGuess fileName) fileHash

/-- The middle of `resolve_traced_inner`: the checks of a located domain record. -/
def resolveRecord (domain : FederateDomain) (path : String) (tldRec : TldRecord)
    (record : DomainRecord) : ResolverM Resolved := do
  let fqdn := domain.fqdn
  match checkFailure fqdn (record.verify tldRec.operatorPublicKey) with
  | some outcome => return outcome
  | none => do
    if record.tld ≠ domain.tld then
      return .securityFailure fqdn "domain" "domain record belongs to a different TLD"
    if record.status.isResolvable = false then
      return .domainUnavailable fqdn record.status.asStr
    if record.isExpired (← env.now) then return .domainUnavailable fqdn "expired"
    r.serve env fqdn path record

/-- The part of `resolve_traced_inner` below a verified root zone. -/
def resolveIn (domain : FederateDomain) (path : String) (root : RootZone) :
    ResolverM Resolved := do
  match root.lookupTld domain.tld with
  | none => return .tldNotFound domain.tld
  | some tldRec =>
    let trusted := (← get).trustedRootKey.getD ""
    match checkFailure domain.fqdn (tldRec.verify trusted) with
    | some outcome => return outcome
    | none => do
      if tldRec.status.isResolvable = false then
        return .tldUnavailable domain.tld tldRec.status.asStr
      if tldRec.isExpired (← env.now) then return .tldUnavailable domain.tld "expired"
      match ← attempt (r.locateRecord env root tldRec domain.fqdn) with
      | .error e => liftM (unlocated domain.fqdn e)
      | .ok record => r.resolveRecord env domain path tldRec record

/-- `Resolver::resolve`, through `resolve_traced_inner`. -/
def resolve (host path : String) : ResolverM Resolved :=
  match FederateDomain.parse host with
  | .error _ => return .notFederate host
  | .ok domain => do
    match ← attempt (r.root env) with
    | .error (.verificationFailed layer subject reason) =>
      return .securityFailure subject layer reason
    | .error e => throw e
    | .ok root => r.resolveIn env domain path root

end Resolver

end Federate
