import Federate.Mutation.Life
import Federate.Origin
import Federate.Resolution.Run

/-!
# A registry and a resolver

Node 1 lives on its own while a resolver that was given its root key is called and restarted.
Every read of the root zone over the network fails, or brings the zone that Node 1 serves at that
time.
-/

namespace Federate

open Stateful Resolver

variable [Externals]

/-- The registry of Node 1 and the state of a resolver. -/
structure Deployment where
  /-- What Node 1 keeps. -/
  registry : RegistryStore
  /-- What the resolver keeps. -/
  resolver : ResolverState

/-- What happens next: to the registry, or to the resolver. -/
inductive DeploymentEvent where
  | registry (event : RegistryEvent)
  | call (env : Environment) (call : ResolverCall)
  | restart

/-- Whatever document of the root zone arrives is the one that Node 1 serves, over the native
protocol and over HTTP. -/
structure Origin.Reports (s : RegistryStore) (r : Resolver) (env : Environment) : Prop where
  /-- From a native provider. -/
  native : ∀ n addr zoneJson, addr ∈ r.nativeProviders →
    env.exchange n addr .getRoot = .ok (.root zoneJson) → zoneJson = Externals.toVec s.zone.toJson
  /-- From the bootstrap node. -/
  http : ∀ n response bytes, env.httpGet n (r.client.base ++ "/v1/root") = .ok response →
    Environment.readCapped response maxRootBytes = .ok bytes →
      bytes = Externals.toVec s.zone.toJson

namespace Deployment

variable [SerdeJson] [ResolverExternals]

/-- The deployment after an event; a restarted resolver is given the root key again. -/
def step (a : Authority) (r : Resolver) (p : Deployment) : DeploymentEvent → Deployment
  | .registry event => { p with registry := a.live p.registry event }
  | .call env call => { p with resolver := call.after r env p.resolver }
  | .restart =>
    { p with resolver := .new (some a.root.nodeId) p.resolver.disk p.resolver.ticks }

omit [ResolverExternals] in
/-- The mutation that an event accepts, if any. -/
def acceptance (a : Authority) (p : Deployment) : DeploymentEvent → Option Acceptance
  | .registry event => a.acceptance p.registry event
  | .call _ _ => none
  | .restart => none

end Deployment

end Federate
