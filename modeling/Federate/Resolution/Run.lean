import Federate.Library.Transition
import Federate.Resolution.Resolver

/-!
# Runs of a resolver

A resolver is built on a data directory and then called, one call after another, under any
answers of the environment. Between calls it may be restarted, and the files may be changed by
others.
-/

namespace Federate

open Stateful

/-- A public call of the resolver. -/
inductive ResolverCall where
  | refreshRoot
  | root
  | manifestBytes (hash : String)
  | tldRegistry (tldRec : TldRecord)
  | tldRegistryByName (tld : String)
  | fetchAndCacheBlock (hash : String)
  | resolveDomain (host : String)
  | siteFiles (host : String)
  | resolve (host path : String)

/-- Something that happens to a resolver. -/
inductive ResolverEvent where
  | call (r : Resolver) (env : Environment) (call : ResolverCall)
  | restart (configuredRootKey : Option String)
  | files (disk : ResolverDisk)

variable [Externals] [SerdeDocuments] [ResolverExternals]

/-- The state a call leaves, whatever it returns. -/
def ResolverCall.after (call : ResolverCall) (r : Resolver) (env : Environment)
    (s : ResolverState) : ResolverState :=
  match call with
  | .refreshRoot => (exec (r.refreshRoot env) s).2
  | .root => (exec (r.root env) s).2
  | .manifestBytes hash => (exec (r.manifestBytes env hash) s).2
  | .tldRegistry tldRec => (exec (r.tldRegistry env tldRec) s).2
  | .tldRegistryByName tld => (exec (r.tldRegistryByName env tld) s).2
  | .fetchAndCacheBlock hash => (exec (r.blockTraced env hash) s).2
  | .resolveDomain host => (exec (r.resolveDomain env host) s).2
  | .siteFiles host => (exec (r.siteFiles env host) s).2
  | .resolve host path => (exec (r.resolve env host path) s).2

/-- The state an event leaves. -/
def ResolverState.step (s : ResolverState) : ResolverEvent → ResolverState
  | .call r env call => call.after r env s
  | .restart configuredRootKey => .new configuredRootKey s.disk s.ticks
  | .files disk => { s with disk }

/-- A state that some events lead to, from a resolver built on some data directory. -/
def ResolverState.Reachable (s : ResolverState) : Prop :=
  ∃ configuredRootKey disk events,
    Transition.run ResolverState.step (.new configuredRootKey disk 0) events = s

end Federate
