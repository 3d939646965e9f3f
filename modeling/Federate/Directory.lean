import Federate.Core
import Federate.Library.Ip

/-!
# Node directory records

What a node signs for the directory: its registration and the blocks it announces, with the
checks the directory makes of them.
-/

namespace Federate

open Outcome

/-- `NodeRole`. -/
inductive NodeRole where
  | rootAuthority | rootMirror | dns | gateway | storage | cdn | search | bootstrap | origin
  deriving DecidableEq

/-- The recorded name. -/
def NodeRole.asStr : NodeRole → String
  | rootAuthority => "root-authority"
  | rootMirror => "root-mirror"
  | dns => "dns"
  | gateway => "gateway"
  | storage => "storage"
  | cdn => "cdn"
  | search => "search"
  | bootstrap => "bootstrap"
  | origin => "origin"

/-- `NodeCapacity`. -/
structure NodeCapacity where
  /-- Storage in gigabytes. -/
  storageGb : UInt64
  /-- Bandwidth in megabits a second. -/
  bandwidthMbps : UInt64

/-- The serialized capacity. -/
def NodeCapacity.toJson (c : NodeCapacity) : Json :=
  .obj
    [("storage_gb", Json.ofUInt64 c.storageGb), ("bandwidth_mbps", Json.ofUInt64 c.bandwidthMbps)]

/-- `NodeRegistration`. -/
structure NodeRegistration where
  /-- Id of the node: its key. -/
  nodeId : String
  /-- Key of the node. -/
  publicKey : String
  /-- What the node does. -/
  roles : List NodeRole
  /-- Public addresses. -/
  publicIps : List String
  /-- Region. -/
  region : String
  /-- Software version. -/
  version : String
  /-- Declared capacity. -/
  capacity : NodeCapacity
  /-- Base URL of the health API. -/
  healthEndpoint : String
  /-- Port of the native listener. -/
  nativePort : Option UInt16
  /-- Time of registration. -/
  registeredAt : String
  /-- Name of the signature scheme. -/
  signatureAlgorithm : String
  /-- Signature of the node over the canonical registration. -/
  signature : Option String

namespace NodeRegistration

/-- The serialized registration. -/
def toJson (r : NodeRegistration) : Json :=
  .obj <|
    [("node_id", .str r.nodeId), ("public_key", .str r.publicKey),
      ("roles", .arr (r.roles.map fun role => .str role.asStr)),
      ("public_ips", .arr (r.publicIps.map .str)), ("region", .str r.region),
      ("version", .str r.version), ("capacity", r.capacity.toJson),
      ("health_endpoint", .str r.healthEndpoint)] ++
    Json.optField "native_port" (r.nativePort.map fun port => Json.ofUInt64 port.toUInt64) ++
    [("registered_at", .str r.registeredAt), ("signature_algorithm", .str r.signatureAlgorithm),
      ("signature", Json.ofOption r.signature)]

/-- `NodeRegistration::signable_bytes`. -/
def signableBytes [Externals] (r : NodeRegistration) : Bytes :=
  canonicalBytes { r with signature := none }.toJson

/-- `NodeRegistration::ips`: the addresses that parse. -/
def ips (r : NodeRegistration) : List Ip.Addr := r.publicIps.filterMap Ip.parse

end NodeRegistration

/-- A square bracket. -/
def isBracket (c : Char) : Bool := c = '[' || c = ']'

/-- The host of the part of a URL before the first slash: in brackets, or up to a colon. -/
def authorityHost (authority : String) : String :=
  match Text.stripPrefix "[" authority with
  | some inside => Text.beforeFirst ']' inside
  | none => Text.beforeFirst ':' authority

/-- `health_endpoint_host`. -/
def healthEndpointHost (endpoint : String) : Option String := do
  let rest ← (Text.stripPrefix "http://" endpoint).or (Text.stripPrefix "https://" endpoint)
  let authority := Text.beforeFirst '/' rest
  if authority = "" ∨ authorityHost authority = "" then none else some (authorityHost authority)

namespace NodeRegistration

variable [Externals]

/-- `NodeRegistration::verify`: signed by the node's own key, with addresses that parse, one of
them the host of its health API. -/
def verify (r : NodeRegistration) : Result Unit :=
  let fail (reason : String) : FederateError :=
    .verificationFailed "node-registration" r.nodeId reason
  do
    rejectIf (r.nodeId ≠ r.publicKey) (fail "node_id must equal the node public key")
    rejectIf (r.roles = []) (fail "registration lists no roles")
    let signature ← okOr r.signature (fail "registration is unsigned")
    rejectIf (verifySignature r.publicKey r.signableBytes signature = false)
      (fail "registration signature invalid")
    rejectIf (r.publicIps = [] ∨ r.ips.length ≠ r.publicIps.length)
      (fail "public_ips must all be valid IP addresses")
    let host ← okOr (healthEndpointHost r.healthEndpoint)
      (fail "health_endpoint must be an http(s) URL")
    rejectIf ((r.publicIps.any fun ip => Text.trimMatches isBracket ip = host) = false)
      (fail "health_endpoint host must be one of the node's declared public_ips")

omit [Externals] in
/-- A declared address has no brackets to trim. -/
theorem trimMatches_address {ip : String} {a : Ip.Addr} (parsed : Ip.parse ip = some a) :
    Text.trimMatches isBracket ip = ip := by
  refine Text.trimMatches_eq_self fun c member => ?_
  have bracketed : isBracket c = true → c = '[' ∨ c = ']' := by simp [isBracket]
  refine Bool.not_eq_true _ ▸ fun bracket => ?_
  rcases bracketed bracket with rfl | rfl <;>
    exact absurd (Ip.parse_chars parsed _ member) (by simp [Ip.OfAddr, Ip.OfIpv4, Hex.digitValue])

/-- The checks of a verified registration. -/
theorem verify_eq_ok {r : NodeRegistration} {u : Unit} : r.verify = .ok u ↔
    r.nodeId = r.publicKey ∧ r.roles ≠ [] ∧
      (∃ signature, r.signature = some signature ∧
        verifySignature r.publicKey r.signableBytes signature = true) ∧
      (∀ ip ∈ r.publicIps, ∃ a, Ip.parse ip = some a) ∧
      ∃ ip ∈ r.publicIps, healthEndpointHost r.healthEndpoint = some ip := by
  have parse : r.ips.length = r.publicIps.length ↔
      ∀ ip ∈ r.publicIps, ∃ a, Ip.parse ip = some a := by
    rw [ips, List.length_filterMap_eq_countP, List.countP_eq_length]
    simp only [Option.isSome_iff_exists]
  simp only [verify, bind_eq_ok, rejectIf_eq_ok, okOr_eq_ok, exists_const, ne_eq, not_not, not_or,
    Bool.not_eq_false, parse, List.any_eq_true, decide_eq_true_eq]
  refine and_congr_right fun _ => and_congr_right fun _ => ?_
  constructor
  · intro checked
    obtain ⟨signature, signed, valid, ⟨-, addresses⟩, host, found, ip, member, same⟩ := checked
    obtain ⟨a, parsed⟩ := addresses ip member
    rw [trimMatches_address parsed] at same
    exact ⟨⟨signature, signed, valid⟩, addresses, ip, member, same ▸ found⟩
  · intro checked
    obtain ⟨⟨signature, signed, valid⟩, addresses, ip, member, found⟩ := checked
    obtain ⟨a, parsed⟩ := addresses ip member
    exact ⟨signature, signed, valid, ⟨List.ne_nil_of_mem member, addresses⟩, ip, found, ip, member,
      trimMatches_address parsed⟩

end NodeRegistration

/-- `BlockAnnounce`. -/
structure BlockAnnounce where
  /-- Id of the announcing node. -/
  nodeId : String
  /-- Hashes of the announced blocks. -/
  blocks : List String
  /-- Time of the announcement. -/
  announcedAt : String
  /-- Signature of the node over the canonical announcement. -/
  signature : Option String

namespace BlockAnnounce

/-- The serialized announcement. -/
def toJson (a : BlockAnnounce) : Json :=
  .obj
    [("node_id", .str a.nodeId), ("blocks", .arr (a.blocks.map .str)),
      ("announced_at", .str a.announcedAt), ("signature", Json.ofOption a.signature)]

variable [Externals]

/-- `BlockAnnounce::signable_bytes`. -/
def signableBytes (a : BlockAnnounce) : Bytes := canonicalBytes { a with signature := none }.toJson

/-- `BlockAnnounce::signed`, at a reading of the wall clock. -/
def signed (identity : NodeIdentity) (blocks : List String) (now : DateTime) : BlockAnnounce :=
  let unsigned : BlockAnnounce :=
    { nodeId := identity.nodeId, blocks, announcedAt := Externals.toRfc3339 now, signature := none }
  { unsigned with signature := some (identity.sign unsigned.signableBytes) }

/-- `BlockAnnounce::verify`: signed by the key it names. -/
def verify (a : BlockAnnounce) : Result Unit :=
  let fail (reason : String) : FederateError := .verificationFailed "block-announce" a.nodeId reason
  do
    let signature ← okOr a.signature (fail "unsigned announcement")
    rejectIf (verifySignature a.nodeId a.signableBytes signature = false)
      (fail "announcement signature invalid")

/-- A signed announcement verifies. -/
theorem verify_signed (signs : SignaturesVerify) (identity : NodeIdentity) (blocks : List String)
    (now : DateTime) : (signed identity blocks now).verify = .ok () := by
  simp only [verify, bind_eq_ok, rejectIf_eq_ok, okOr_eq_ok]
  exact ⟨_, rfl, by rw [Bool.not_eq_false]; exact verifySignature_sign signs identity _⟩

end BlockAnnounce

end Federate
