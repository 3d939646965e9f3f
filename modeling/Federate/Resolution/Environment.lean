import Federate.Library.Stateful
import Federate.Protocol
import Federate.Registry

/-!
# What a resolver meets

Peers, HTTP servers, the file system and the clock answer every operation of a resolver as they
like: an `Environment` gives the answer to each by the number of the operation. Here are the
state a resolver keeps in memory and on disk, and the clients that carry bytes to it. Bytes from
the network count only after the caller has checked them.
-/

namespace Federate

open Outcome Stateful

/-- An HTTP response. -/
structure HttpResponse where
  /-- The final URL. -/
  url : String
  /-- Status code. -/
  status : UInt16
  /-- The status as displayed. -/
  statusText : String
  /-- The `Content-Length` header. -/
  contentLength : Option UInt64
  /-- The chunks of the body; a failed read is its error text. -/
  chunks : List (Except String Bytes)

/-- Everything outside the resolver. Each operation is answered by its number, so that the
answers may depend on everything that went before. -/
structure Environment where
  /-- Dialing a peer. -/
  dial : ℕ → String → Result Unit
  /-- Sending a message to a peer and receiving one. -/
  exchange : ℕ → String → Message → Result Message
  /-- An HTTP GET; an error is its text. -/
  httpGet : ℕ → String → Except String HttpResponse
  /-- Outcome of a change of a file; an error is its text. -/
  file : ℕ → Except String Unit
  /-- How much of the content a failed write leaves in the file, when it touched it. -/
  torn : ℕ → Option ℕ
  /-- The wall clock. -/
  clock : ℕ → DateTime

/-- The files a resolver keeps, of any content. -/
structure ResolverDisk where
  /-- `root-zone.json`. -/
  rootZone : Option Bytes
  /-- `trusted-root-key`, when it is text. -/
  trustedRootKey : Option String
  /-- `manifests/`: content address to content. -/
  manifests : Table String Bytes
  /-- `registries/`: TLD to content. -/
  registries : Table String Bytes
  /-- `blocks/`: content address to content. -/
  blocks : Table String Bytes

/-- A data directory that nothing was written to. -/
def ResolverDisk.fresh : ResolverDisk := ⟨none, none, ∅, ∅, ∅⟩

/-- What a resolver changes as it works. -/
structure ResolverState where
  /-- The root zone in memory. -/
  root : Option RootZone
  /-- The pinned root key. -/
  trustedRootKey : Option String
  /-- The files. -/
  disk : ResolverDisk
  /-- Number of operations so far. -/
  ticks : ℕ

/-- A program of the resolver. -/
abbrev ResolverM (α : Type) : Type := Prog ResolverState FederateError α

/-- The answer to the next operation. -/
def ask {α : Type} (answer : ℕ → Result α) : ResolverM α := do
  let s ← get
  modify fun s => { s with ticks := s.ticks + 1 }
  liftM (answer s.ticks)

/-- Asking costs one operation. -/
@[simp] theorem exec_ask {α : Type} (answer : ℕ → Result α) (s : ResolverState) :
    exec (ask answer) s = (answer s.ticks, { s with ticks := s.ticks + 1 }) := by
  simp [ask, exec_bind]

/-- `std::fs::read`: the content of a file that exists. -/
def readFile {α : Type} (content : ResolverDisk → Option α) : ResolverM α := do
  liftM (okOr (content (← get).disk)
    (FederateError.io "No such file or directory (os error 2)"))

namespace Environment

variable (env : Environment)

/-- `Utc::now`. -/
def now : ResolverM DateTime := ask fun n => .ok (env.clock n)

/-! ## Files -/

/-- `std::fs::write` of a temporary file and `std::fs::rename` to the final one, or
`std::fs::remove_file`: the file changes whole or not at all. -/
def changeFile (change : ResolverDisk → ResolverDisk) : ResolverM Unit := do
  ask fun n => mapError FederateError.io (env.file n)
  modify fun s => { s with disk := change s.disk }

/-- A change of a file that succeeds. -/
theorem exec_changeFile {env : Environment} {s : ResolverState}
    (succeeds : env.file s.ticks = .ok ()) (change : ResolverDisk → ResolverDisk) :
    exec (env.changeFile change) s =
      (.ok (), { s with ticks := s.ticks + 1, disk := change s.disk }) := by
  rw [Environment.changeFile, exec_bind, exec_ask, succeeds]
  rfl

/-- `std::fs::write`: a write that fails may leave part of the content. -/
def overwriteFile {α : Type} (put : List α → ResolverDisk → ResolverDisk) (content : List α) :
    ResolverM Unit := do
  let part := env.torn (← get).ticks
  match ← attempt (ask fun n => mapError FederateError.io (env.file n)) with
  | .ok () => modify fun s => { s with disk := put content s.disk }
  | .error e => do
    match part with
    | some length => modify fun s => { s with disk := put (content.take length) s.disk }
    | none => pure ()
    throw e

/-! ## HTTP -/

/-- The chunks of a body, up to a limit. -/
def readChunks (tooBig : ℕ → FederateError) (max : ℕ) :
    Bytes → List (Except String Bytes) → Result Bytes
  | out, [] => .ok out
  | out, chunk :: rest => do
    let chunk ← mapError .network chunk
    rejectIf (max < out.length + chunk.length) (tooBig (out.length + chunk.length))
    readChunks tooBig max (out ++ chunk) rest

/-- `read_capped`: the announced length is checked first, then every chunk. -/
def readCapped (resp : HttpResponse) (max : ℕ) : Result Bytes :=
  let tooBig (got : ℕ) : FederateError :=
    .network s!"{resp.url} response exceeds {max} bytes ({got})"
  do
    match resp.contentLength with
    | some length => rejectIf (max < length.toNat) (tooBig length.toNat)
    | none => pure ()
    readChunks tooBig max [] resp.chunks

/-- `StatusCode::is_success`. -/
def isSuccess (status : UInt16) : Bool := 200 ≤ status && status < 300

/-- The body of a successful response to a GET, up to a limit. -/
def getCapped (url : String) (max : ℕ) : ResolverM Bytes := do
  let resp ← ask fun n => mapError FederateError.network (env.httpGet n url)
  liftM (rejectIf (isSuccess resp.status = false)
    (.network s!"{url} returned {resp.statusText}") : Result Unit)
  liftM (readCapped resp max)

end Environment

/-- `NodeClient`. -/
structure NodeClient where
  /-- Base URL without trailing slashes. -/
  base : String

/-- `NodeClient::new`. -/
def NodeClient.new (bootstrapUrl : String) : NodeClient := ⟨Text.trimEndMatches '/' bootstrapUrl⟩

namespace NodeClient

variable (c : NodeClient) (env : Environment)

/-- `NodeClient::get_bytes`. -/
def getBytes (path : String) (max : ℕ) : ResolverM Bytes := env.getCapped (c.base ++ path) max

/-- `NodeClient::fetch_root`. -/
def fetchRoot [SerdeDocuments] : ResolverM RootZone := do
  let bytes ← c.getBytes env "/v1/root" maxRootBytes
  let zone ← liftM (serde (SerdeDocuments.rootZone bytes))
  liftM zone.validate
  return zone

variable [Externals]

/-- `NodeClient::fetch_manifest_bytes`. -/
def fetchManifestBytes (hash : String) : ResolverM Bytes := do
  liftM (rejectIf (isValidHash hash = false) (.blockNotFound hash) : Result Unit)
  let bytes ← c.getBytes env ("/v1/manifest/" ++ hash) maxManifestBytes
  liftM (verifyHash bytes hash)
  return bytes

/-- `NodeClient::fetch_block`. -/
def fetchBlock (hash : String) : ResolverM Bytes := do
  liftM (rejectIf (isValidHash hash = false) (.blockNotFound hash) : Result Unit)
  let bytes ← c.getBytes env ("/v1/block/" ++ hash) maxBlockBytes
  liftM (verifyHash bytes hash)
  return bytes

end NodeClient

/-! ## The node directory -/

/-- `NodeStatus`. -/
inductive NodeStatus where
  | online | degraded | offline
  deriving DecidableEq

/-- `NodeEntry`, with the fields of its registration that a fetch reads. -/
structure NodeEntry where
  /-- Declared public addresses. -/
  publicIps : List String
  /-- Region. -/
  region : String
  /-- Base URL of the HTTP surface. -/
  healthEndpoint : String
  /-- Port of the native listener. -/
  nativePort : Option UInt16
  /-- Health. -/
  status : NodeStatus
  /-- Measured latency. -/
  latencyMs : Option UInt64

/-- Third-party operations that only a resolver calls. -/
class ResolverExternals where
  /-- `mime_guess::from_path(..).first_or_octet_stream()`. -/
  mimeGuess : String → String
  /-- The derived `Debug` text of a message. -/
  messageDebug : Message → String
  /-- `str::parse::<IpAddr>`, as the address is written before the port of a `SocketAddr`. -/
  socketIp : String → Option String
  /-- `serde_json::from_slice` to a JSON value. -/
  jsonValue : Bytes → Except String Json
  /-- `serde_json::from_value` to an operator registry. -/
  registryFromValue : Json → Except String TldRegistry
  /-- `serde_json::from_value` to a list of node entries. -/
  nodesFromValue : Json → Except String (List NodeEntry)

/-- `federate_cdn::rank_providers`' sort key: online first, then the region, then latency. -/
def rankKey (region : Option String) (p : NodeEntry) : ℕ ×ₗ ℕ ×ₗ ℕ :=
  toLex ((decide (p.status ≠ .online)).toNat,
    toLex ((decide (region.all fun r => p.region ≠ r)).toNat,
      (p.latencyMs.getD (UInt64.ofNat (2 ^ 64 - 1))).toNat))

/-- `federate_cdn::rank_providers`: a stable sort of the nodes that are not offline. -/
def rankProviders (providers : List NodeEntry) (region : Option String) : List NodeEntry :=
  (providers.filter fun p => p.status ≠ .offline).mergeSort fun a b =>
    rankKey region a ≤ rankKey region b

section Directory

variable [ResolverExternals] (env : Environment)

/-- `NodeEntry::native_addr`, as displayed. -/
def NodeEntry.nativeAddr (p : NodeEntry) : Option String := do
  let port ← p.nativePort
  let ip ← p.publicIps.findSome? ResolverExternals.socketIp
  some (ip ++ ":" ++ toString port.toNat)

/-- `DirectoryClient::providers` without a role. -/
def directoryProviders (base hash : String) : ResolverM (List NodeEntry) := do
  let url := base ++ "/v1/providers/" ++ hash
  let resp ← ask fun n => mapError FederateError.network (env.httpGet n url)
  let chunks ← liftM (mapError FederateError.network (resp.chunks.mapM id))
  let value ← liftM (mapError FederateError.network (ResolverExternals.jsonValue chunks.flatten))
  liftM (serde (ResolverExternals.nodesFromValue (value.index "providers")))

/-- `federate_client::get_json`. -/
def getJson (url : String) : ResolverM Json := do
  let bytes ← env.getCapped url (4 * 1024 * 1024)
  liftM (serde (ResolverExternals.jsonValue bytes))

variable [Externals]

/-- `federate_cdn::fetch_block_from`. -/
def fetchBlockFrom (provider : NodeEntry) (hash : String) : ResolverM Bytes := do
  liftM (rejectIf (isValidHash hash = false) (.blockNotFound hash) : Result Unit)
  let base := Text.trimEndMatches '/' provider.healthEndpoint
  let url := base ++ "/v1/block/" ++ hash
  let resp ← ask fun n => mapError FederateError.network (env.httpGet n url)
  liftM (rejectIf (Environment.isSuccess resp.status = false) (.blockNotFound hash) : Result Unit)
  let bytes ← liftM (Environment.readCapped resp maxBlockBytes)
  liftM (verifyHash bytes hash)
  return bytes

/-- The document that `DelegatedRegistryClient::fetch_registry` gets, before it is verified. -/
def registryDocument (endpoint tld : String) : ResolverM TldRegistry := do
  let value ← getJson env (Text.trimEndMatches '/' endpoint ++ "/v1/tld-registry/" ++ tld)
  liftM (serde (ResolverExternals.registryFromValue value))

/-- `DelegatedRegistryClient::fetch_registry`. -/
def fetchRegistry (endpoint operatorPublicKey tld : String) : ResolverM TldRegistry := do
  let registry ← registryDocument env endpoint tld
  liftM (registry.verify tld operatorPublicKey)
  return registry

end Directory

end Federate
