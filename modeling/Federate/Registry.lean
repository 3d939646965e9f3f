import Federate.Root

/-!
# Operator registries and site manifests

The operator-signed registry of a delegated TLD and the owner-signed manifest of a site, with
their signed bytes, their checks, and the mapping of a path to a content address; and the root zone
as the registry of the TLDs it manages.
-/

namespace Federate

open Outcome

/-- `TldRegistry`. -/
structure TldRegistry where
  /-- The TLD the registry is for. -/
  tld : String
  /-- Monotonic version. -/
  version : UInt64
  /-- Time of signature. -/
  generatedAt : String
  /-- The operator key it claims to be signed by. -/
  operatorPublicKey : String
  /-- Full name to operator-signed domain record. -/
  domains : Table String DomainRecord
  /-- Name of the signature scheme. -/
  signatureAlgorithm : String
  /-- Operator signature over the canonical bytes. -/
  signature : Option String

namespace TldRegistry

/-- The serialized registry. -/
def toJson (r : TldRegistry) : Json :=
  .obj
    [("tld", .str r.tld), ("version", Json.ofUInt64 r.version),
      ("generated_at", .str r.generatedAt), ("operator_public_key", .str r.operatorPublicKey),
      ("domains", .obj (r.domains.toList.map fun p => (p.1, p.2.toJson))),
      ("signature_algorithm", .str r.signatureAlgorithm), ("signature", Json.ofOption r.signature)]

/-- `TldRegistry::lookup`. -/
def lookup (r : TldRegistry) (fqdn : String) : Option DomainRecord := r.domains[fqdn]?

variable [Externals]

/-- `TldRegistry::signable_bytes`. -/
def signableBytes (r : TldRegistry) : Bytes := canonicalBytes { r with signature := none }.toJson

/-- `TldRegistry::verify`: for the expected TLD, signed by its operator, and every entry filed
under its own name in that TLD. -/
def verify (r : TldRegistry) (expectedTld operatorPublicKey : String) : Result Unit :=
  let fail (reason : String) : FederateError :=
    .verificationFailed "tld-registry" ("." ++ r.tld) reason
  do
    rejectIf (r.tld ≠ expectedTld) (fail s!"registry is for .{r.tld}, expected .{expectedTld}")
    rejectIf (r.operatorPublicKey ≠ operatorPublicKey)
      (fail "registry signer is not the operator key from the root-signed TLD record")
    let signature ← okOr r.signature (fail "registry is unsigned")
    rejectIf (verifySignature operatorPublicKey r.signableBytes signature = false)
      (fail "registry signature invalid (tampered or wrong key)")
    r.domains.toList.forM fun p =>
      rejectIf (p.2.tld ≠ r.tld ∨ p.2.domain ≠ p.1)
        (fail s!"registry entry {p.1} is inconsistent (record domain {p.2.domain}, tld .{p.2.tld})")

/-- `TldRegistry::signed`. -/
def signed (identity : NodeIdentity) (tld : String) (version : UInt64) (generatedAt : String)
    (domains : Table String DomainRecord) : TldRegistry :=
  let registry : TldRegistry :=
    { tld, version, generatedAt, operatorPublicKey := identity.nodeId, domains
      signatureAlgorithm := Federate.signatureAlgorithm, signature := none }
  { registry with signature := some (identity.sign registry.signableBytes) }

/-- The checks of a verified registry. -/
theorem verify_eq_ok {r : TldRegistry} {tld key : String} {u : Unit} :
    r.verify tld key = .ok u ↔ r.tld = tld ∧ r.operatorPublicKey = key ∧
      (∃ signature, r.signature = some signature ∧
        verifySignature key r.signableBytes signature = true) ∧
      ∀ (fqdn : String) (d : DomainRecord), r.domains[fqdn]? = some d →
        d.tld = r.tld ∧ d.domain = fqdn := by
  simp only [verify, bind_eq_ok, rejectIf_eq_ok, okOr_eq_ok, forM_eq_ok, exists_const, ne_eq,
    not_not, Bool.not_eq_false, not_or]
  refine and_congr_right fun _ => and_congr_right fun _ => ⟨?_, ?_⟩
  · rintro ⟨signature, signed, valid, entries⟩
    exact ⟨⟨signature, signed, valid⟩, fun fqdn d found =>
      entries (fqdn, d) (Std.ExtTreeMap.mem_toList_iff_getElem?_eq_some.mpr found)⟩
  · rintro ⟨⟨signature, signed, valid⟩, entries⟩
    exact ⟨signature, signed, valid, fun p member =>
      entries p.1 p.2 (Std.ExtTreeMap.mem_toList_iff_getElem?_eq_some.mp member)⟩

end TldRegistry

/-- `DomainSource`: where a domain's record comes from. -/
inductive DomainSource where
  | rootManaged (record : DomainRecord)
  | delegated (tld operatorPublicKey : String) (registryType : RegistryType)
      (registryEndpoint registryManifestHash : Option String) (registryProviders : List String)

/-- `RegistryView`: a root zone, already verified, as a registry. -/
structure RegistryView where
  /-- The zone. -/
  zone : RootZone

namespace RegistryView

/-- `RegistryView::tld`. -/
def tld (v : RegistryView) (tld : String) : Result TldRecord :=
  okOr (v.zone.lookupTld tld) (.tldNotFound tld)

/-- `RegistryView::locate_domain`, at a reading of the wall clock. -/
def locateDomain [Externals] (v : RegistryView) (host : String) (now : DateTime) :
    Result DomainSource := do
  let domain ← FederateDomain.parse host
  let tldRec ← v.tld domain.tld
  rejectIf (tldRec.status.isResolvable = false)
    (.tldUnavailable domain.tld tldRec.status.asStr)
  rejectIf (tldRec.isExpired now = true) (.tldUnavailable domain.tld "expired")
  match tldRec.registryType with
  | .rootManaged => do
    let record ← okOr (v.zone.lookup domain.fqdn) (.domainNotFound domain.fqdn)
    record.verify tldRec.operatorPublicKey
    rejectIf (record.isExpired now = true) (.tldUnavailable domain.tld "expired")
    return .rootManaged record
  | kind =>
    return .delegated domain.tld tldRec.operatorPublicKey kind tldRec.registryEndpoint
      tldRec.registryManifestHash tldRec.registryProviders

end RegistryView

/-- `Manifest`: the signed description of a site's content. -/
structure Manifest where
  /-- The domain it is for. -/
  domain : String
  /-- Version. -/
  version : UInt64
  /-- File served for the root path. -/
  entry : String
  /-- File path to content address. -/
  files : Table String String
  /-- The owner key that signed it. -/
  ownerPublicKey : String
  /-- Creation time. -/
  createdAt : String
  /-- Name of the signature scheme. -/
  signatureAlgorithm : String
  /-- Owner signature over the canonical bytes. -/
  signature : Option String

namespace Manifest

/-- The serialized manifest. -/
def toJson (m : Manifest) : Json :=
  .obj
    [("domain", .str m.domain), ("version", Json.ofUInt64 m.version), ("entry", .str m.entry),
      ("files", .obj (m.files.toList.map fun p => (p.1, .str p.2))),
      ("owner_public_key", .str m.ownerPublicKey), ("created_at", .str m.createdAt),
      ("signature_algorithm", .str m.signatureAlgorithm), ("signature", Json.ofOption m.signature)]

/-- `Manifest::validate`. -/
def validate (m : Manifest) : Result Unit := do
  rejectIf (m.domain = "" ∨ m.entry = "") (.invalidRoot s!"invalid manifest for {m.domain}")
  rejectIf (m.entry ∉ m.files) (.pathNotFound m.entry)

/-- The files a path may name, in the order they are tried. -/
def candidates (m : Manifest) (path : String) : List String :=
  let trimmed := Text.trimStartMatches '/' path
  if trimmed.toList = [] then [m.entry]
  else if trimmed.toList.getLast? = some '/' then [trimmed ++ "index.html"]
  else [trimmed, trimmed ++ "/index.html"]

/-- `Manifest::resolve_path`: the first candidate file of the manifest and its content
address. -/
def resolvePath (m : Manifest) (path : String) : Option (String × String) :=
  (m.candidates path).findSome? fun c => m.files[c]?.map fun hash => (c, hash)

variable [Externals]

/-- `Manifest::signable_bytes`. -/
def signableBytes (m : Manifest) : Bytes := canonicalBytes { m with signature := none }.toJson

/-- `Manifest::verify`: for the expected domain and signed by its owner. -/
def verify (m : Manifest) (expectedDomain ownerPublicKey : String) : Result Unit :=
  let fail (reason : String) : FederateError := .verificationFailed "manifest" m.domain reason
  do
    rejectIf (m.domain ≠ expectedDomain)
      (fail "manifest domain does not match the requested domain")
    rejectIf (m.ownerPublicKey ≠ ownerPublicKey)
      (fail "manifest signer is not the domain owner key from the domain record")
    let signature ← okOr m.signature (fail "manifest is unsigned")
    rejectIf (verifySignature ownerPublicKey m.signableBytes signature = false)
      (fail "manifest signature invalid (tampered or wrong key)")

/-- The checks of a verified manifest. -/
theorem verify_eq_ok {m : Manifest} {domain key : String} {u : Unit} :
    m.verify domain key = .ok u ↔ m.domain = domain ∧ m.ownerPublicKey = key ∧
      ∃ signature, m.signature = some signature ∧
        verifySignature key m.signableBytes signature = true := by
  simp [verify]

end Manifest

/-- `serde_json::from_slice` at the documents that nodes exchange. -/
class SerdeDocuments where
  /-- Read a root zone. -/
  rootZone : Bytes → Except String RootZone
  /-- Read an operator registry. -/
  tldRegistry : Bytes → Except String TldRegistry
  /-- Read a site manifest. -/
  manifest : Bytes → Except String Manifest

end Federate
