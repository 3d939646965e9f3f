import Federate.Directory
import Federate.Library.Dialogue
import Federate.Resolution.Resolver

/-!
# Serving nodes

A node answers a native request from what it holds. What it does not hold it looks for as any
resolver does: it asks its own providers, and these may answer in the same way. The programs here
are those of the resolver, with the native requests left to be answered by other programs.
-/

namespace Federate

open Outcome Stateful Asking

/-- A program of a resolver that asks native peers. -/
abbrev RelayM (α : Type) : Type :=
  Asking ResolverState String Message (Result Message) FederateError α

namespace Relay

variable [Externals] [SerdeDocuments] [ResolverExternals] (r : Resolver) (env : Environment)

/-! ## The root zone -/

/-- `Resolver::fetch_root_native`. -/
def fetchRootNative (addr : String) : RelayM RootZone := do
  match ← request addr .getRoot with
  | .root zoneJson => do
    liftM (rejectIf (maxRootBytes < zoneJson.length)
      (FederateError.network s!"native root zone exceeds {maxRootBytes} bytes"))
    let zone ← liftM (serde (SerdeDocuments.rootZone zoneJson))
    liftM zone.validate
    return zone
  | other => throw (Resolver.badAnswer "native provider" other)

/-- `Resolver::fetch_root_network`. -/
def fetchRootNetwork : RelayM RootZone :=
  tryEach (fun _ => false) fetchRootNative (own (r.client.fetchRoot env)) r.nativeProviders

/-- `Resolver::refresh_root`. -/
def refreshRoot : RelayM RootZone := do
  match ← attempt (fetchRootNetwork r env) with
  | .ok zone =>
    match ← attempt (own (Resolver.verifyZone env zone)) with
    | .ok () => own (Resolver.acceptRoot env zone)
    | .error e =>
      match ← attempt (own (Resolver.verifiedCache env)) with
      | .ok cached => do
        own (Resolver.holdRoot cached)
        return cached
      | .error _ => throw e
  | .error _ => do
    match ← attempt (own Resolver.rootCacheLoad) with
    | .ok zone => do
      own (Resolver.verifyZone env zone)
      own (Resolver.holdRoot zone)
      return zone
    | .error _ => throw .rootUnavailable

/-- `Resolver::root`. -/
def root : RelayM RootZone := do
  match (← own get).root with
  | some zone => return zone
  | none => refreshRoot r env

/-! ## Manifests and registries -/

/-- `Resolver::fetch_manifest_native`. -/
def fetchManifestNative (hash addr : String) : RelayM Bytes := do
  match ← request addr (.getManifest hash) with
  | .manifest _ bytes => do
    liftM (rejectIf (maxManifestBytes < bytes.length)
      (FederateError.network s!"native manifest exceeds {maxManifestBytes} bytes"))
    liftM (verifyHash bytes hash)
    return bytes
  | other => throw (Resolver.badAnswer "native provider" other)

/-- `Resolver::fetch_manifest_network`. -/
def fetchManifestNetwork (hash : String) : RelayM Bytes :=
  tryEach (fun _ => false) (fetchManifestNative hash)
    (own (r.client.fetchManifestBytes env hash)) r.nativeProviders

/-- `Resolver::manifest_bytes`. -/
def manifestBytes (hash : String) : RelayM Bytes := do
  liftM (rejectIf (isValidHash hash = false) (FederateError.manifestNotFound hash))
  match (← own get).disk.manifests[hash]? with
  | some bytes =>
    if verifyHash bytes hash = .ok () then return bytes
    else do
      let _ ← attempt (own
        (env.changeFile fun d => { d with manifests := d.manifests.erase hash }))
  | none => pure ()
  let bytes ← fetchManifestNetwork r env hash
  own (env.changeFile fun d => { d with manifests := d.manifests.insert hash bytes })
  return bytes

/-- `Resolver::fetch_registry_native`, in a session of the newest version. -/
def fetchRegistryNative (tld operatorPublicKey addr : String) : RelayM TldRegistry := do
  match ← request addr (.getTldRegistry tld) with
  | .tldRegistry _ registryJson => do
    liftM (rejectIf (maxRegistryBytes < registryJson.length)
      (FederateError.network s!"registry exceeds {maxRegistryBytes} bytes"))
    let registry ← liftM (mapError
      (fun e => FederateError.network s!"provider sent malformed registry: {e}")
      (SerdeDocuments.tldRegistry registryJson))
    liftM (registry.verify tld operatorPublicKey)
    return registry
  | other => throw (Resolver.badAnswer "registry provider" other)

/-- `Resolver::fetch_registry_live`. -/
def fetchRegistryLive (tldRec : TldRecord) : RelayM TldRegistry :=
  let unavailable : ResolverM TldRegistry :=
    throw (.delegatedRegistryUnavailable tldRec.tld "no registry provider answered")
  tryEach Resolver.isVerificationFailed
    (fetchRegistryNative tldRec.tld tldRec.operatorPublicKey)
    (own (Stateful.tryEach Resolver.isVerificationFailed
      (fun endpoint => fetchRegistry env endpoint tldRec.operatorPublicKey tldRec.tld)
      unavailable tldRec.registryEndpoint.toList))
    tldRec.registryProviders

/-- `Resolver::tld_registry` of a registry pinned by the TLD record. -/
def pinnedRegistry (tldRec : TldRecord) : RelayM TldRegistry := do
  let hash ← liftM (okOr tldRec.registryManifestHash
    (FederateError.delegatedRegistryUnavailable tldRec.tld
      "TLD record declares delegated_manifest but carries no registry_manifest_hash"))
  match ← attempt (manifestBytes r env hash) with
  | .error e => throw (Resolver.pinnedError tldRec.tld hash e)
  | .ok bytes => do
    let registry ← liftM (mapError (fun e => FederateError.verificationFailed "tld-registry"
      ("." ++ tldRec.tld) s!"registry manifest is not a valid registry document: {e}")
      (SerdeDocuments.tldRegistry bytes))
    liftM (registry.verify tldRec.tld tldRec.operatorPublicKey)
    return registry

/-- `Resolver::tld_registry` of a live registry. -/
def liveRegistry (tldRec : TldRecord) : RelayM TldRegistry := do
  match ← attempt (fetchRegistryLive env tldRec) with
  | .ok registry =>
    match ← own (Resolver.cachedRegistry tldRec) with
    | some cached => if registry.version < cached.version then return cached
    | none => pure ()
    own (Resolver.storeRegistry env registry)
    return registry
  | .error e =>
    if Resolver.isVerificationFailed e then throw e
    else
      match ← own (Resolver.cachedRegistry tldRec) with
      | some cached => return cached
      | none => throw e

/-- `Resolver::tld_registry`. -/
def tldRegistry (tldRec : TldRecord) : RelayM TldRegistry :=
  match tldRec.registryType with
  | .delegatedManifest => pinnedRegistry r env tldRec
  | .delegatedNative | .delegatedHttp => liveRegistry env tldRec
  | other => throw (.delegatedRegistryUnavailable tldRec.tld
      s!"registry type {other.debugName} is not resolvable")

/-- `Resolver::tld_registry_by_name`. -/
def tldRegistryByName (tld : String) : RelayM TldRegistry := do
  let root ← root r env
  let tldRec ← liftM (okOr (root.lookupTld tld) (FederateError.tldNotFound tld))
  tldRegistry r env tldRec

/-! ## Blocks -/

/-- `Resolver::fetch_block_native`. -/
def fetchBlockNative (hash addr : String) : RelayM Bytes := do
  liftM (rejectIf (isValidHash hash = false) (FederateError.blockNotFound hash))
  match ← request addr (.getBlock hash) with
  | .block _ bytes => do
    liftM (verifyHash bytes hash)
    return bytes
  | other => throw (Resolver.badAnswer "native provider" other)

/-- The network part of `block_traced`. -/
def fetchBlockNetwork (hash : String) : RelayM Bytes := do
  let ranked := rankProviders (← own (r.discoverProviders env hash)) r.region
  tryEach (fun _ => false) (fetchBlockNative hash)
    (own (Stateful.tryEach (fun _ => false) (fun p => fetchBlockFrom env p hash)
      (r.client.fetchBlock env hash) ranked))
    (r.nativeAddrs ranked)

/-- `Resolver::fetch_and_cache_block`, which is `block_traced`. -/
def fetchAndCacheBlock (hash : String) : RelayM Bytes := do
  match ← attempt (own (Resolver.blockGet hash)) with
  | .ok bytes => return bytes
  | .error _ => do
    let bytes ← fetchBlockNetwork r env hash
    own (Resolver.blockPut env hash bytes)
    return bytes

/-! ## Domain records -/

/-- `Resolver::locate_record`. -/
def locateRecord (root : RootZone) (tldRec : TldRecord) (fqdn : String) : RelayM DomainRecord :=
  match tldRec.registryType with
  | .rootManaged => liftM (okOr (root.lookup fqdn) (FederateError.domainNotFound fqdn))
  | .delegatedManifest | .delegatedNative | .delegatedHttp => do
    let registry ← tldRegistry r env tldRec
    liftM (okOr (registry.lookup fqdn) (FederateError.domainNotFound fqdn))
  | .offlineManual => throw (.delegatedRegistryUnavailable tldRec.tld
      "registry is administered offline and cannot be resolved")

/-- `Resolver::resolve_domain`. -/
def resolveDomain (host : String) : RelayM DomainRecord := do
  let domain ← liftM (FederateDomain.parse host)
  let root ← root r env
  let tldRec ← liftM (okOr (root.lookupTld domain.tld) (FederateError.tldNotFound domain.tld))
  let now ← own env.now
  liftM (rejectIf (tldRec.status.isResolvable = false ∨ tldRec.isExpired now = true)
    (FederateError.tldUnavailable domain.tld
      (if tldRec.isExpired now then "expired" else tldRec.status.asStr)))
  let record ← locateRecord r env root tldRec domain.fqdn
  liftM (record.verify tldRec.operatorPublicKey)
  liftM (rejectIf (record.tld ≠ domain.tld) (FederateError.verificationFailed "domain" domain.fqdn
    "domain record belongs to a different TLD"))
  let now ← own env.now
  liftM (rejectIf (record.status.isResolvable = false ∨ record.isExpired now = true)
    (FederateError.tldUnavailable domain.tld
      (if record.isExpired now then "expired" else record.status.asStr)))
  return record

end Relay

/-! ## The block cache of a node -/

/-- `CdnCache`. -/
structure CdnCache where
  /-- The blocks: content address to content. -/
  store : Table String Bytes
  /-- Time of the last use in seconds and size in bytes. -/
  index : Table String (UInt64 × UInt64)

namespace CdnCache

/-- `CdnCache::get`: the bytes, and the cache with the use recorded. -/
def get [Externals] (c : CdnCache) (now : UInt64) (hash : String) : Result (Bytes × CdnCache) := do
  rejectIf (isValidHash hash = false) (.blockNotFound hash)
  let bytes ← okOr c.store[hash]? (.blockNotFound hash)
  verifyHash bytes hash
  let size := (c.index[hash]?.map Prod.snd).getD (UInt64.ofNat bytes.length)
  return (bytes, { c with index := c.index.insert hash (now, size) })

/-- The eviction loop: entries other than the new one go, oldest first, until the total fits. -/
def evict (kept : String) (maxBytes : UInt64) :
    List (String × UInt64 × UInt64) → UInt64 → CdnCache → CdnCache
  | [], _, c => c
  | (victim, _, size) :: rest, total, c =>
    if total ≤ maxBytes then c
    else if victim = kept then evict kept maxBytes rest total c
    else evict kept maxBytes rest (total - size) ⟨c.store.erase victim, c.index.erase victim⟩

/-- `CdnCache::put`; `written` says whether the block could be written. -/
def put [Externals] (c : CdnCache) (maxBytes now : UInt64) (written : Bool) (hash : String)
    (bytes : Bytes) : CdnCache :=
  if verifyHash bytes hash = .ok () ∧ written = true then
    let c : CdnCache :=
      ⟨c.store.insert hash bytes, c.index.insert hash (now, UInt64.ofNat bytes.length)⟩
    let byAge := c.index.toList.mergeSort fun a b => a.2.1 ≤ b.2.1
    evict hash maxBytes byAge (byAge.map fun entry => entry.2.2).sum c
  else c

end CdnCache

/-! ## The native service -/

/-- `NativeService` of a node: what does not change as it serves. -/
structure NativeService where
  /-- Id of the node. -/
  nodeId : String
  /-- Configured roles. -/
  roles : List NodeRole
  /-- Configured region. -/
  region : String
  /-- The node's resolver. -/
  resolver : Resolver
  /-- Size limit of the block cache, when the node serves blocks. -/
  cache : Option UInt64
  /-- Whether a block that is not in the cache is fetched. -/
  fetchOnMiss : Bool
  /-- Registries the node provides: TLD to signed bytes. -/
  localRegistries : Table String Bytes

/-- What a node changes as it serves. -/
structure NodeState where
  /-- State of its resolver. -/
  resolver : ResolverState
  /-- Its block cache. -/
  cache : CdnCache

/-- A program of a node that asks native peers. -/
abbrev ServiceM (α : Type) : Type :=
  Asking NodeState String Message (Result Message) FederateError α

/-- A program of the node's resolver. -/
def resolving {α : Type} (program : RelayM α) : ServiceM α := fun s =>
  (program s.resolver).zoom NodeState.resolver (fun resolver s => { s with resolver }) s

namespace NativeService

variable [Externals] [SerdeDocuments] [ResolverExternals] (service : NativeService)
  (env : Environment)

/-- The agent of a node. -/
def agent : String := "federate-noded/0.1.0"

/-- `now_secs`. -/
def nowSecs (s : NodeState) : UInt64 :=
  UInt64.ofNat (env.clock s.resolver.ticks).timestamp.toNat

/-- `handle` of `GetManifest`. -/
def getManifest (hash : String) : ServiceM Message := do
  if isValidHash hash = false then return .error .badRequest "not a valid content address"
  match ← attempt (resolving (Relay.manifestBytes service.resolver env hash)) with
  | .ok bytes => return .manifest hash bytes
  | .error _ => return .error .notFound "manifest not available here"

/-- `handle` of `GetBlock`. -/
def getBlock (hash : String) : ServiceM Message := do
  if isValidHash hash = false then return .error .badRequest "not a valid content address"
  match service.cache with
  | none => return .error .unsupported "this node does not serve blocks"
  | some maxBytes => do
    let s ← own get
    match s.cache.get (nowSecs env s) hash with
    | .ok (bytes, cache) => do
      own (set { s with cache })
      return .block hash bytes
    | .error _ => do
      if service.fetchOnMiss then
        match ← attempt (resolving (Relay.fetchAndCacheBlock service.resolver env hash)) with
        | .ok bytes => do
          let written (s : NodeState) : Bool := (env.file s.resolver.ticks).isOk
          own (modify fun s =>
            { s with cache := s.cache.put maxBytes (nowSecs env s) (written s) hash bytes })
          return .block hash bytes
        | .error _ => pure ()
      return .error .notFound "block not held by this node"

/-- `handle` of `GetTldRegistry`. -/
def getTldRegistry (tld : String) : ServiceM Message := do
  match service.localRegistries[tld]? with
  | some bytes => return .tldRegistry tld bytes
  | none =>
    match ← attempt (resolving (Relay.tldRegistryByName service.resolver env tld)) with
    | .ok registry => return .tldRegistry tld (Externals.toVec registry.toJson)
    | .error e => return .error .notFound s!"no verified registry for .{tld}: {e}"

/-- `NativeService::handle`. -/
def handle : Message → ServiceM Message
  | .getRoot => do
    match ← attempt (resolving (Relay.root service.resolver env)) with
    | .ok zone => return .root (Externals.toVec zone.toJson)
    | .error e => return .error .unavailable s!"no verified root zone: {e}"
  | .getManifest hash => service.getManifest env hash
  | .getBlock hash => service.getBlock env hash
  | .getTldRegistry tld => service.getTldRegistry env tld
  | .getDomainRecord fqdn => do
    match ← attempt (resolving (Relay.resolveDomain service.resolver env fqdn)) with
    | .ok record => return .domainRecord fqdn (Externals.toVec record.toJson)
    | .error e => return .error .notFound s!"{fqdn}: {e}"
  | .getStatus => do
    let zone ← attempt (resolving (Relay.root service.resolver env))
    return .status service.nodeId (service.roles.map NodeRole.asStr) service.region agent
      (zone.toOption.map RootZone.rootVersion)
  | _ => return .error .unsupported ("this node answers GetRoot, GetManifest, GetBlock, " ++
      "GetTldRegistry, GetDomainRecord, and GetStatus")

/-- One turn of `serve_conn`: an answer that does not fit in a frame closes the connection. -/
def respond (request : Message) : ServiceM Message := do
  let response ← service.handle env request
  let _ ← (liftM (encode response) : ServiceM Bytes)
  return response

end NativeService

/-! ## A network of nodes -/

/-- Nodes that can be dialed. -/
structure Network where
  /-- The node at an address. -/
  services : Table String NativeService
  /-- What each of them meets besides the others. -/
  env : String → Environment

/-- The program by which the node at an address answers. -/
def Network.serve [Externals] [SerdeDocuments] [ResolverExternals] (net : Network) (addr : String)
    (request : Message) (states : String → NodeState) :
    Talk (String → NodeState) String Message (Result Message) (Result Message) :=
  match net.services[addr]? with
  | none => .done (.error (.network s!"connect failed: {addr}")) states
  | some service =>
    (service.respond (net.env addr) request (states addr)).zoom (fun states => states addr)
      (fun s states => Function.update states addr s) states

end Federate
