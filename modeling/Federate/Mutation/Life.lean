import Federate.Mutation.Ingest

/-!
# The life of a registry

A server holds one store for all its clients. It issues nonces, applies the mutations of requests
and of the seed, one after the other, and opens its directory again when it restarts. Here every
storage operation succeeds.
-/

namespace Federate

open Outcome Stateful

/-- A mutation that reaches the server, alone or with the content of a site, and what the server
contributes. -/
structure Arrival where
  /-- The request. -/
  mutation : MutationRequest
  /-- The decoded content of a package. -/
  content : Option (Bytes × List (String × Bytes))
  /-- The blocklists. -/
  blocklists : Blocklists
  /-- Time of the arrival. -/
  now : DateTime
  /-- Reading of the wall clock while it is applied. -/
  clock : DateTime

/-- Every storage operation of a request succeeds. -/
def RequestIo.ok : RequestIo := ⟨.ok (), fun _ => .ok (), .ok (), .ok⟩

/-- The call of `apply` that a request leads to. -/
def Arrival.call (r : Arrival) : ApplyCall := ⟨r.mutation, r.blocklists, r.now, r.clock, .ok⟩

/-- What happens to the registry of a server. -/
inductive RegistryEvent where
  | nonce (nonce : String) (now : DateTime)
  | request (arrival : Arrival)
  | seed (arrival : Arrival)
  | restart

variable [Externals] [SerdeJson]

/-- What the server answers to a request, and the store it leaves. -/
def Authority.answer (a : Authority) (s : RegistryStore) (r : Arrival) :
    Result MutationReply × RegistryStore :=
  exec (RegistryStore.runMutation r.mutation r.content (a.context r.call) r.clock .ok) s

/-- The store after an event. A directory that does not open leaves the server as it is. -/
def Authority.live (a : Authority) (s : RegistryStore) : RegistryEvent → RegistryStore
  | .nonce nonce now =>
    (exec (RegistryStore.issueNonce nonce (Int64.ofInt now.timestamp) (.ok ())) s).2
  | .request arrival => (a.answer s arrival).2
  | .seed arrival => (a.applyTo arrival.call s).2
  | .restart => ((RegistryStore.openDir s.dir a.root.nodeId).toOption).getD s

/-- What an event accepts: the mutation, its audit event and the zone it leaves. -/
structure Acceptance where
  /-- The mutation. -/
  mutation : MutationRequest
  /-- Its audit event. -/
  event : AuditRecord
  /-- The zone. -/
  zone : RootZone

/-- The mutation that an event accepts, if any. -/
def Authority.acceptance (a : Authority) (s : RegistryStore) : RegistryEvent → Option Acceptance
  | .request arrival =>
    match (a.answer s arrival).1 with
    | .ok (.accepted _ _ event) => some ⟨arrival.mutation, event, (a.answer s arrival).2.zone⟩
    | _ => none
  | .seed arrival =>
    match (a.applyTo arrival.call s).1 with
    | .ok event => some ⟨arrival.mutation, event, (a.applyTo arrival.call s).2.zone⟩
    | .error _ => none
  | _ => none

/-- The mutations that a life accepts, in order. -/
def Authority.accepted (a : Authority) (s : RegistryStore) (events : List RegistryEvent) :
    List Acceptance :=
  Transition.observations a.live a.acceptance s events

end Federate
