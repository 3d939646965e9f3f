import Federate.Library.Transition
import Federate.Mutation.Store

/-!
# Runs of the registry

A registry is first initialized and then changed by calls, in any order and with any requests,
contents, clocks and storage outcomes, under one root identity and one official operator.
-/

namespace Federate

open Outcome Stateful

/-- The identities a node applies mutations with. -/
structure Authority where
  /-- The root identity. -/
  root : NodeIdentity
  /-- The operator identity of the official TLDs. -/
  officialOperator : NodeIdentity

/-- One call of `RegistryStore::apply`, with what the server and the storage contribute. -/
structure ApplyCall where
  /-- The request. -/
  request : MutationRequest
  /-- The blocklists. -/
  blocklists : Blocklists
  /-- Time of the call. -/
  now : DateTime
  /-- Reading of the wall clock during the call. -/
  clock : DateTime
  /-- Outcomes of the storage operations. -/
  io : StorageIo

/-- A call that may change the store. -/
inductive Op where
  | apply (call : ApplyCall)
  | storeManifest (hash : String) (bytes : Bytes) (written : Result Unit)
  | storeBlocks (blocks : List (String × Bytes)) (written : ℕ → Result Unit)

/-- `Store::mutation_ctx`. -/
def Authority.context (a : Authority) (call : ApplyCall) : MutationContext :=
  ⟨a.root, a.officialOperator, call.blocklists, call.now⟩

/-- `mutation_target`: the next version of a target. The sum is checked, as in a debug build. -/
def nextTargetVersion (s : RegistryStore) (kind : TargetKind) (id : String) : Option UInt64 :=
  let current := s.targetVersion (kind.asStr ++ ":" ++ Text.toAsciiLowercase id)
  if current.toNat + 1 < 2 ^ 64 then some (current + 1) else none

variable [Externals] [SerdeJson]

/-- The outcome of a call of `apply` and the store it leaves. -/
def Authority.applyTo (a : Authority) (call : ApplyCall) (s : RegistryStore) :
    Result AuditRecord × RegistryStore :=
  exec (RegistryStore.apply call.request (a.context call) call.clock call.io) s

/-- The call is accepted, with this audit event. -/
def Authority.Accepts (a : Authority) (s : RegistryStore) (call : ApplyCall)
    (event : AuditRecord) : Prop :=
  (a.applyTo call s).1 = .ok event

/-- The call passes every check of `apply` and is ready to be stored. -/
def Authority.Prepares (a : Authority) (s : RegistryStore) (call : ApplyCall)
    (p : RegistryStore.Prepared) : Prop :=
  s.prepare call.request (a.context call) call.clock = .ok p

/-- The store a call leaves. -/
def Authority.step (a : Authority) (s : RegistryStore) : Op → RegistryStore
  | .apply call => (a.applyTo call s).2
  | .storeManifest hash bytes written => (exec (RegistryStore.storeManifest hash bytes written) s).2
  | .storeBlocks blocks written => (exec (RegistryStore.storeBlocks blocks written) s).2

/-- The store a sequence of calls leaves. -/
def Authority.run (a : Authority) (s : RegistryStore) (ops : List Op) : RegistryStore :=
  Transition.run a.step s ops

/-- A store that `init_empty_registry` returned. -/
def Authority.Genesis (a : Authority) (s : RegistryStore) : Prop :=
  ∃ dir now io, initEmptyRegistry dir a.root now io = .ok s

/-- A store that some sequence of calls leads to. -/
def Authority.Reachable (a : Authority) (s : RegistryStore) : Prop :=
  ∃ s₀ ops, a.Genesis s₀ ∧ a.run s₀ ops = s

end Federate
