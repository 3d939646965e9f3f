import Federate.Core

/-!
# The native protocol

The messages nodes exchange, with the protocol versions and size limits of a session, and the
frames they travel in.
-/

namespace Federate

open Outcome

/-- `SUPPORTED_VERSIONS`, newest first. -/
def supportedVersions : List UInt16 := [1, 0]

/-- `VERSION_DELEGATED_REGISTRIES`. -/
def versionDelegatedRegistries : UInt16 := 1

/-- `Capability`. -/
inductive Capability where
  | root | manifests | blocks | providers | tldRegistries
  deriving DecidableEq

/-- `ErrorCode`. -/
inductive ErrorCode where
  | unsupported | notFound | badRequest | unavailable
  deriving DecidableEq

/-- The derived `Debug` name. -/
def ErrorCode.debugName : ErrorCode → String
  | unsupported => "Unsupported"
  | notFound => "NotFound"
  | badRequest => "BadRequest"
  | unavailable => "Unavailable"

/-- `Message`. -/
inductive Message where
  | hello (versions : List UInt16) (nodeId agent : String)
  | welcome (version : UInt16) (nodeId agent : String) (capabilities : List Capability)
  | getRoot
  | root (zoneJson : Bytes)
  | getManifest (hash : String)
  | manifest (hash : String) (bytes : Bytes)
  | getBlock (hash : String)
  | block (hash : String) (bytes : Bytes)
  | getProviders (hash : String)
  | providers (hash : String) (nodesJson : Bytes)
  | getTldRegistry (tld : String)
  | tldRegistry (tld : String) (registryJson : Bytes)
  | getDomainRecord (fqdn : String)
  | domainRecord (fqdn : String) (recordJson : Bytes)
  | getStatus
  | status (nodeId : String) (roles : List String) (region agent : String)
      (rootVersion : Option UInt64)
  | error (code : ErrorCode) (detail : String)
  deriving DecidableEq

/-! ## Size limits -/

/-- `federate_client::MAX_ROOT_BYTES`. -/
def maxRootBytes : ℕ := 16 * 1024 * 1024

/-- `federate_client::MAX_MANIFEST_BYTES`. -/
def maxManifestBytes : ℕ := 4 * 1024 * 1024

/-- `federate_client::MAX_BLOCK_BYTES`. -/
def maxBlockBytes : ℕ := 64 * 1024 * 1024

/-- `federate_registry::MAX_REGISTRY_BYTES`. -/
def maxRegistryBytes : ℕ := 16 * 1024 * 1024

/-- `MAX_FRAME_BYTES`. -/
def maxFrameBytes : ℕ := 68 * 1024 * 1024

/-! ## Serialization -/

/-- The serialized name. -/
def Capability.asStr : Capability → String
  | root => "root"
  | manifests => "manifests"
  | blocks => "blocks"
  | providers => "providers"
  | tldRegistries => "tld-registries"

/-- The serialized name. -/
def ErrorCode.asStr : ErrorCode → String
  | unsupported => "unsupported"
  | notFound => "not-found"
  | badRequest => "bad-request"
  | unavailable => "unavailable"

/-- A byte vector, which serializes as an array of numbers. -/
def bytesJson (bytes : Bytes) : Json := .arr (bytes.map fun b => .num (.posInt b.toUInt64))

/-- The serialized message, tagged with its type. -/
def Message.toJson : Message → Json
  | .hello versions nodeId agent => .obj
    [("type", .str "hello"), ("versions", .arr (versions.map fun v => .num (.posInt v.toUInt64))),
      ("node_id", .str nodeId), ("agent", .str agent)]
  | .welcome version nodeId agent capabilities => .obj
    [("type", .str "welcome"), ("version", .num (.posInt version.toUInt64)),
      ("node_id", .str nodeId), ("agent", .str agent),
      ("capabilities", .arr (capabilities.map fun c => .str c.asStr))]
  | .getRoot => .obj [("type", .str "get-root")]
  | .root zoneJson => .obj [("type", .str "root"), ("zone_json", bytesJson zoneJson)]
  | .getManifest hash => .obj [("type", .str "get-manifest"), ("hash", .str hash)]
  | .manifest hash bytes => .obj
    [("type", .str "manifest"), ("hash", .str hash), ("bytes", bytesJson bytes)]
  | .getBlock hash => .obj [("type", .str "get-block"), ("hash", .str hash)]
  | .block hash bytes => .obj
    [("type", .str "block"), ("hash", .str hash), ("bytes", bytesJson bytes)]
  | .getProviders hash => .obj [("type", .str "get-providers"), ("hash", .str hash)]
  | .providers hash nodesJson => .obj
    [("type", .str "providers"), ("hash", .str hash), ("nodes_json", bytesJson nodesJson)]
  | .getTldRegistry tld => .obj [("type", .str "get-tld-registry"), ("tld", .str tld)]
  | .tldRegistry tld registryJson => .obj
    [("type", .str "tld-registry"), ("tld", .str tld), ("registry_json", bytesJson registryJson)]
  | .getDomainRecord fqdn => .obj [("type", .str "get-domain-record"), ("fqdn", .str fqdn)]
  | .domainRecord fqdn recordJson => .obj
    [("type", .str "domain-record"), ("fqdn", .str fqdn), ("record_json", bytesJson recordJson)]
  | .getStatus => .obj [("type", .str "get-status")]
  | .status nodeId roles region agent rootVersion => .obj
    [("type", .str "status"), ("node_id", .str nodeId), ("roles", .arr (roles.map .str)),
      ("region", .str region), ("agent", .str agent),
      ("root_version", (rootVersion.map Json.ofUInt64).getD .null)]
  | .error code detail => .obj
    [("type", .str "error"), ("code", .str code.asStr), ("detail", .str detail)]

/-! ## Framing -/

/-- `u32::to_be_bytes`. -/
def toBeBytes (n : UInt32) : Bytes :=
  [(n >>> 24).toUInt8, (n >>> 16).toUInt8, (n >>> 8).toUInt8, n.toUInt8]

/-- `encode`: the length of the body in four bytes, and the body. -/
def encode [Externals] (msg : Message) : Result Bytes := do
  let body := Externals.toVec msg.toJson
  rejectIf (maxFrameBytes < body.length)
    (.network s!"message exceeds frame cap ({body.length} > {maxFrameBytes} bytes)")
  return toBeBytes (UInt32.ofNat body.length) ++ body

end Federate
