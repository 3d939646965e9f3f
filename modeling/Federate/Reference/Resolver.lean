import Federate.Reference.Operations
import Federate.Resolution.Run

/-!
# A reference resolver

A resolver without default providers, a network that nothing answers on, and one on which a peer
answers with one registry.
-/

namespace Federate.Reference

open Json Outcome Stateful Resolver

/-- A resolver that knows one bootstrap node. -/
def resolver : Resolver := ⟨.new "http://bootstrap", none, none, [], ""⟩

/-- A working disk and no network. -/
def offline : Environment where
  dial _ _ := .error (.network "unreachable")
  exchange _ _ _ := .error (.network "unreachable")
  httpGet _ _ := .error "unreachable"
  file _ := .ok ()
  torn _ := none
  clock _ := ⟨0⟩

/-- A working disk and a peer that answers every request for a registry with this one. -/
def answering (registry : TldRegistry) : Environment :=
  { offline with
    dial := fun _ _ => .ok ()
    exchange := fun _ _ message =>
      match message with
      | .hello .. => .ok (.welcome 1 "" "" [])
      | .getTldRegistry tld => .ok (.tldRegistry tld (compact registry.toJson))
      | _ => .error (.network "unsupported") }

/-- A registry without domains, signed by its operator. -/
def signedRegistry (operator : NodeIdentity) (tld : String) (version : UInt64) : TldRegistry :=
  let unsigned : TldRegistry :=
    ⟨tld, version, "1970-01-01T00:00:00+00:00", operator.nodeId, ∅, signatureAlgorithm, none⟩
  { unsigned with signature := some (operator.sign unsigned.signableBytes) }

/-- A signed registry verifies for its TLD and operator. -/
theorem signedRegistry_verify (operator : NodeIdentity) (tld : String) (version : UInt64) :
    (signedRegistry operator tld version).verify tld operator.nodeId = .ok () := by
  refine TldRegistry.verify_eq_ok.mpr ⟨rfl, rfl, ⟨_, rfl, ?_⟩, fun fqdn d found => ?_⟩
  · exact verifySignature_sign signaturesVerify operator _
  · exact absurd found (by simp [signedRegistry])

/-- The registry of an answering peer is fetched. -/
theorem exec_nativeRegistryDocument {registry : TldRegistry} (json : registry.FromJson)
    (short : (compact registry.toJson).length ≤ maxRegistryBytes) (tld addr : String)
    (s : ResolverState) : exec (resolver.nativeRegistryDocument (answering registry) tld addr) s =
      (.ok registry, { s with ticks := s.ticks + 3 }) := by
  have reads : SerdeDocuments.tldRegistry (compact registry.toJson) = .ok registry :=
    read_compact (fun _ => TldRegistry.FromJson.readable) (fun _ _ => TldRegistry.toJson_injective)
      json
  have connected : exec (resolver.connect (answering registry) addr) s =
      (.ok 1, { s with ticks := s.ticks + 2 }) := by
    simp [connect, exec_bind, answering, offline, supportedVersions]
  have known : ¬(1 : UInt16) < versionDelegatedRegistries := by decide
  rw [nativeRegistryDocument, exec_bind_ok connected]
  simp [exec_bind, answering, known, rejectIf, not_lt.mpr short, reads, mapError]

end Federate.Reference
