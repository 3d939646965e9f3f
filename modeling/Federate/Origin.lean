import Federate.Mutation.Store
import Federate.Transport

/-!
# Node 1

The origin serves the registry it keeps, over the native protocol and over HTTP: the signed zone,
manifests, blocks, delegated registries and domain records.
-/

namespace Federate

open Outcome

namespace RegistryStore

section Blocks

variable [Externals] (s : RegistryStore)

/-- `BlockStore::get` on the block files of the registry. -/
def getBlock (hash : String) : Result Bytes := do
  rejectIf (isValidHash hash = false) (.blockNotFound hash)
  let bytes ← okOr s.files.blocks[hash]? (.blockNotFound hash)
  verifyHash bytes hash
  return bytes

/-- `RegistryStore::block`. -/
def block (hash : String) : Option Bytes := (s.getBlock hash).toOption

end Blocks

/-- `RegistryStore::lookup_domain`: the zone first, then every delegated registry. -/
def lookupDomain (s : RegistryStore) (fqdn : String) : Option DomainRecord :=
  (s.zone.lookup fqdn).or (s.registries.toList.findSome? fun entry => entry.2.2.lookup fqdn)

end RegistryStore

namespace Origin

/-- The agent of Node 1. -/
def agent : String := "federate-server/0.1.0"

variable [Externals]

/-- `NativeService::handle` of Node 1. -/
def handle (nodeId : String) (s : RegistryStore) : Message → Message
  | .getRoot => .root (Externals.toVec s.zone.toJson)
  | .getManifest hash =>
    match s.manifests[hash]? with
    | some bytes => .manifest hash bytes
    | none => .error .notFound "no such manifest"
  | .getBlock hash =>
    match s.block hash with
    | some bytes => .block hash bytes
    | none => .error .notFound "no such block"
  | .getTldRegistry tld =>
    match s.registries[tld]? with
    | some (bytes, _) => .tldRegistry tld bytes
    | none => .error .notFound "no delegated registry for this TLD here"
  | .getDomainRecord fqdn =>
    match s.lookupDomain fqdn with
    | some record => .domainRecord fqdn (Externals.toVec record.toJson)
    | none => .error .notFound "no such domain record here"
  | .getStatus => .status nodeId ["root-authority", "origin"] "" agent (some s.zone.rootVersion)
  | _ => .error .unsupported
      "this node answers GetRoot, GetManifest, GetBlock, and GetStatus"

/-- `NativeService` of Node 1; its answers do not change the registry. -/
def service (nodeId : String) : NodeService RegistryStore where
  nodeId
  capabilities := [.root, .manifests, .blocks, .tldRegistries]
  handle request s := (handle nodeId s request, s)

/-! ## HTTP -/

/-- `tld_record`. -/
def tldRecord (s : RegistryStore) (tld : String) : Option TldRecord :=
  s.zone.lookupTld (Text.toAsciiLowercase (Text.trimStartMatches '.' tld))

/-- What `tld_check` answers. -/
structure TldCheck where
  /-- The name, normalized when it is valid. -/
  tld : String
  /-- Whether it can be had. -/
  available : Bool
  /-- What decided. -/
  verdict : String
  /-- Why. -/
  reason : String

/-- `tld_check`: naming rules, the zone, every blocklist. -/
def tldCheck (s : RegistryStore) (blocklists : Blocklists) (input : String) : TldCheck :=
  match validateTldName input with
  | .error e => ⟨input, false, "invalid", toString e⟩
  | .ok tld =>
    match s.zone.lookupTld tld with
    | some r => ⟨tld, false, r.status.asStr,
        s!".{tld} already exists in the Federate root registry " ++
          s!"(status: {r.status.asStr}, operator: {r.operatorName})"⟩
    | none =>
      match blocklists.check tld with
      | some reason => ⟨tld, false, if reason = .reserved then "reserved" else "blocked",
          s!".{tld} cannot be created because {reason.describe}"⟩
      | none => ⟨tld, true, "available", s!".{tld} is available; the root can delegate it at " ++
          "runtime with `federate tld delegate`"⟩

/-- `domain_record`. -/
def domainRecord (s : RegistryStore) (fqdn : String) : Option DomainRecord :=
  s.lookupDomain (Text.toAsciiLowercase fqdn)

/-- `domains_by_tld`. -/
def domainsByTld (s : RegistryStore) (tld : Option String) : List DomainRecord :=
  let filter := tld.map fun t => Text.toAsciiLowercase (Text.trimStartMatches '.' t)
  (s.zone.domains.toList.map Prod.snd).filter fun r => filter.all fun t => r.tld = t

/-- `tld_registry`: the exact signed bytes. -/
def tldRegistry (s : RegistryStore) (tld : String) : Option Bytes :=
  s.registries[Text.toAsciiLowercase (Text.trimStartMatches '.' tld)]?.map Prod.fst

end Origin

end Federate
