import Federate.Directory
import Federate.Library.JsonRead
import Federate.Reference.Registry
import Federate.Verif.Content

/-!
# Signatures of different types

No tag of the type is signed. The serialized values of two signed types never have the same keys,
so that the bytes they are signed over differ.
-/

namespace Federate

open Json

/-- The types of signed values. -/
inductive SignedType where
  | tldRecord | rootZone | domainRecord | tldRegistry | manifest | mutationRequest | auditRecord
  | nodeRegistration | blockAnnounce
  deriving DecidableEq

/-- A value of a signed type. -/
inductive SignedValue where
  | tldRecord (r : TldRecord)
  | rootZone (z : RootZone)
  | domainRecord (r : DomainRecord)
  | tldRegistry (r : TldRegistry)
  | manifest (m : Manifest)
  | mutationRequest (r : MutationRequest)
  | auditRecord (e : AuditRecord)
  | nodeRegistration (r : NodeRegistration)
  | blockAnnounce (a : BlockAnnounce)

/-- The keys that every serialized value of a type has. -/
def SignedType.always : SignedType → List String
  | tldRecord => ["tld", "status", "mode", "owner_public_key", "operator_public_key",
      "operator_name", "registry_type", "created_at", "updated_at", "signature_algorithm",
      "signature"]
  | rootZone => ["network", "root_version", "generated_at", "root_public_key", "tlds", "domains",
      "audit", "signature_algorithm", "signature"]
  | domainRecord => ["domain", "tld", "label", "owner_public_key", "target_type", "manifest_hash",
      "status", "created_at", "updated_at", "signature_algorithm", "signature"]
  | tldRegistry => ["tld", "version", "generated_at", "operator_public_key", "domains",
      "signature_algorithm", "signature"]
  | manifest => ["domain", "version", "entry", "files", "owner_public_key", "created_at",
      "signature_algorithm", "signature"]
  | mutationRequest => ["mutation_id", "nonce", "issued_at", "actor_public_key", "target_version",
      "action", "signature_algorithm", "signature"]
  | auditRecord => ["event_id", "mutation_id", "actor_public_key", "actor_role", "action",
      "target_type", "target_id", "previous_state_hash", "new_state_hash", "timestamp",
      "signature_algorithm", "signature"]
  | nodeRegistration => ["node_id", "public_key", "roles", "public_ips", "region", "version",
      "capacity", "health_endpoint", "registered_at", "signature_algorithm", "signature"]
  | blockAnnounce => ["node_id", "blocks", "announced_at", "signature"]

/-- The keys that a serialized value of a type may have besides. -/
def SignedType.skipped : SignedType → List String
  | tldRecord => ["registry_endpoint", "registry_manifest_hash", "registry_providers",
      "policy_hash", "pricing", "expires_at", "notes"]
  | domainRecord => ["service_id", "node_id", "expires_at", "renewal", "pricing"]
  | nodeRegistration => ["native_port"]
  | _ => []

/-- Of two types, one always has a key that the other never has. -/
theorem SignedType.apart {S T : SignedType} (differ : S ≠ T) :
    (∃ key ∈ S.always, key ∉ T.always ++ T.skipped) ∨
      ∃ key ∈ T.always, key ∉ S.always ++ S.skipped := by
  revert differ
  cases S <;> cases T <;> decide

namespace SignedValue

/-- The type of a value. -/
def type : SignedValue → SignedType
  | tldRecord _ => .tldRecord
  | rootZone _ => .rootZone
  | domainRecord _ => .domainRecord
  | tldRegistry _ => .tldRegistry
  | manifest _ => .manifest
  | mutationRequest _ => .mutationRequest
  | auditRecord _ => .auditRecord
  | nodeRegistration _ => .nodeRegistration
  | blockAnnounce _ => .blockAnnounce

/-- The serialized value without its signature. -/
def unsigned : SignedValue → Json
  | tldRecord r => { r with signature := none }.toJson
  | rootZone z => { z with signature := none }.toJson
  | domainRecord r => { r with signature := none }.toJson
  | tldRegistry r => { r with signature := none }.toJson
  | manifest m => { m with signature := none }.toJson
  | mutationRequest r => { r with signature := none }.toJson
  | auditRecord e => { e with signature := none }.toJson
  | nodeRegistration r => { r with signature := none }.toJson
  | blockAnnounce a => { a with signature := none }.toJson

/-- The bytes that its signature covers. -/
def signableBytes [Externals] : SignedValue → Bytes
  | tldRecord r => r.signableBytes
  | rootZone z => z.signableBytes
  | domainRecord r => r.signableBytes
  | tldRegistry r => r.signableBytes
  | manifest m => m.signableBytes
  | mutationRequest r => r.signableBytes
  | auditRecord e => e.signableBytes
  | nodeRegistration r => r.signableBytes
  | blockAnnounce a => a.signableBytes

/-- The covered bytes are the canonical bytes of the value without its signature. -/
theorem signableBytes_eq [Externals] (v : SignedValue) :
    v.signableBytes = canonicalBytes v.unsigned := by
  cases v <;> rfl

/-- The key of an optional member, when it is there. -/
theorem mem_keys_optField {key name : String} {value : Option Json} :
    key ∈ (optField name value).map Prod.fst ↔ value.isSome ∧ key = name := by
  cases value <;> simp [optField]

/-- A serialized value is an object with all keys of its type that are never skipped, and no
others than those that may be. -/
theorem unsigned_keys (v : SignedValue) : ∃ fields, v.unsigned = .obj fields ∧
    (∀ key ∈ v.type.always, key ∈ fields.map Prod.fst) ∧
    ∀ key ∈ fields.map Prod.fst, key ∈ v.type.always ++ v.type.skipped := by
  cases v
  all_goals
    refine ⟨_, rfl, ?_, ?_⟩
    · simp [type, SignedType.always]
    · intro key member
      simp only [List.map_append, List.map_cons, List.map_nil, List.mem_append, List.mem_cons,
        List.not_mem_nil, or_false, mem_keys_optField] at member
      simp only [type, SignedType.always, SignedType.skipped, List.mem_append, List.mem_cons,
        List.not_mem_nil, or_false]
      tauto

end SignedValue

variable [Externals]

/-- The signature verifies under the key for this message only. -/
def SignsOnly (publicKey signature : String) (message : Bytes) : Prop :=
  ∀ other, verifySignature publicKey other signature = true → other = message

/-- Values of different types are never signed over the same bytes, so that a signature that
verifies for one value only is not a signature of a value of another type. -/
theorem signableBytes_apart (tokens : Tokens Externals.toVec) {s t : SignedValue}
    (differ : s.type ≠ t.type) :
    s.signableBytes ≠ t.signableBytes ∧
      ∀ publicKey signature, SignsOnly publicKey signature s.signableBytes →
        verifySignature publicKey t.signableBytes signature = false := by
  have apart : s.signableBytes ≠ t.signableBytes := by
    intro equal
    rw [s.signableBytes_eq, t.signableBytes_eq] at equal
    obtain ⟨fields, object, always, only⟩ := s.unsigned_keys
    obtain ⟨fields', object', always', only'⟩ := t.unsigned_keys
    rw [object, object'] at equal
    have keys := (canonicalBytes_same (N := fun _ _ => True) tokens (fun _ _ _ _ _ => trivial)
      equal).keys_perm
    rcases SignedType.apart differ with ⟨key, member, never⟩ | ⟨key, member, never⟩
    · exact never (only' key (keys.mem_iff.mp (always key member)))
    · exact never (only key (keys.mem_iff.mpr (always' key member)))
  refine ⟨apart, fun publicKey signature binds => ?_⟩
  rw [← Bool.not_eq_true]
  exact fun verifies => apart (binds _ verifies).symm

end Federate

namespace Federate.Reference

/-- The record of a domain with a price, and the request that issues it. -/
theorem record_apart_request :
    let record := { issuedRecord "alice" "foo" .active with
      pricing := some (.ofJson (.obj [("eur", .num (.posInt 12))])) }
    let issued := call authority.officialOperator "second" 1 (.issueDomain record)
    (SignedValue.domainRecord record).signableBytes ≠
        (SignedValue.mutationRequest issued.request).signableBytes ∧
      ∀ publicKey signature,
        SignsOnly publicKey signature (SignedValue.domainRecord record).signableBytes →
          verifySignature publicKey (SignedValue.mutationRequest issued.request).signableBytes
            signature = false :=
  signableBytes_apart compactText.tokens (by decide)

end Federate.Reference
