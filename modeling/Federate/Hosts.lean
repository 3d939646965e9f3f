import Federate.Dns.Server
import Federate.Library.Lines

/-!
# Cleaning the hosts file

`federate setup` asks the local resolver for the names of the hosts file, and removes the lines
that map a name with an address. What a question finds at the resolver, its clock and its upstream
server included, may differ from name to name.
-/

namespace Federate

open Outcome Stateful Dns

/-- The local resolver, as the question for each name finds it. -/
structure LocalResolver where
  /-- The server. -/
  server : DnsServer
  /-- What its resolver holds. -/
  state : String → ResolverState
  /-- The upstream server. -/
  upstream : String → Upstream
  /-- The socket is ready, and what the server sends arrives within two seconds. -/
  heard : String → Bool

/-- The question for a name, as far as the server receives it. -/
def question (name : String) : Bytes := (buildQuery 0x1a2b name 1).take 1500

/-- What `local_resolve` makes of a reply: its addresses. -/
def addressesOf (reply : Bytes) : Option (List Ip.Addr) :=
  match parseAnswers (reply.take 512) with
  | .error _ => none
  | .ok (rcode, answers) =>
    if rcode = 0 ∧ answers ≠ [] then some (answers.map fun answer => answer.1) else none

/-- What the writes of a cleanup come to. -/
structure HostsWrites where
  /-- The backup is written. -/
  backup : Bool
  /-- The hosts file is rewritten; a failure leaves it as it says. -/
  rewrite : Except String Unit

namespace LocalResolver

variable [Externals] [SerdeDocuments] [ResolverExternals] (resolver : LocalResolver)
  (env : Environment)

/-- `local_resolve`. -/
def localResolve (name : String) : Option (List Ip.Addr) :=
  if resolver.heard name = false then none
  else
    match (exec (resolver.server.handlePacket env (resolver.upstream name) (question name))
        (resolver.state name)).1 with
    | .error _ => none
    | .ok handling => handling.reply.bind addressesOf

/-- The inner loop of `setup_clean_hosts`, over the names of a line. -/
def anyResolves : List String → Bool
  | [] => false
  | name :: names => if (resolver.localResolve env name).isSome then true else anyResolves names

/-- Whether a line is stale: its first field is an address, the others are names. -/
def isStale (line : String) : Bool :=
  match Text.splitWhitespace (Text.beforeFirst '#' line) with
  | [] => false
  | _ :: names => resolver.anyResolves env names

/-- The loop of `setup_clean_hosts`: the lines that are kept, and those that are removed. -/
def sortLines (lines : List String) : List String × List String :=
  lines.foldl (fun sorted line =>
    if resolver.isStale env line then (sorted.1, sorted.2 ++ [line])
    else (sorted.1 ++ [line], sorted.2)) ([], [])

/-- `setup_clean_hosts`: what the hosts file, when it is read, is afterwards. -/
def setupCleanHosts (writes : HostsWrites) (content : String) : String :=
  let sorted := resolver.sortLines env (Text.lines content)
  if sorted.2 = [] then content
  else if writes.backup = false then content
  else
    match writes.rewrite with
    | .ok () => String.intercalate "\n" sorted.1 ++ "\n"
    | .error damaged => damaged

end LocalResolver

end Federate
