import Federate.Dns.Wire
import Federate.Library.Cut
import Federate.Resolution.Resolver

/-!
# The DNS server

Names below a TLD of the verified root zone are answered with the addresses of gateways, every
other name is forwarded to an upstream server. How datagrams and streams reach the server is left
out.
-/

namespace Federate.Dns

open Outcome Stateful Octets

/-- `MAX_ANSWERS`. -/
def maxAnswers : ℕ := 8

/-- `DnsServer`, with the gateways as they were last refreshed. -/
structure DnsServer where
  /-- The source of the root zone. -/
  resolver : Resolver
  /-- The life of an answer. -/
  ttl : UInt32
  /-- Addresses of healthy gateways. -/
  gateways : List Ip.Addr
  /-- Addresses to answer with instead. -/
  fixedAnswers : List Ip.Addr

/-- The upstream server, during one query. -/
structure Upstream where
  /-- A socket is bound and connected, and the query sent. -/
  reached : Bool
  /-- What is received until the deadline. -/
  datagrams : List (Except String Bytes)

/-- What becomes of a packet. -/
inductive Handling where
  /-- It is no query. -/
  | dropped
  /-- It is answered as a Federate name. -/
  | answered (reply : Bytes)
  /-- It is sent upstream; the reply is the upstream server's, or a failure. -/
  | forwarded (sent reply : Bytes)

/-- The reply of `handle_packet`. -/
def Handling.reply : Handling → Option Bytes
  | dropped => none
  | answered reply => some reply
  | forwarded _ reply => some reply

/-- The loop of `forward_upstream`: datagrams of other transactions are ignored. -/
def awaitReply (id : UInt16) : List (Except String Bytes) → Option Bytes
  | [] => none
  | .error _ :: _ => none
  | .ok datagram :: rest =>
    let buf := datagram.take 4096
    if 2 ≤ buf.length ∧ word16 buf 0 = id then some buf else awaitReply id rest

/-- `DnsServer::forward_upstream`. -/
def Upstream.forward (upstream : Upstream) (id : UInt16) : Option Bytes :=
  if upstream.reached then awaitReply id upstream.datagrams else none

/-- The addresses of a family. -/
def isIpv4 : Ip.Addr → Bool
  | .v4 .. => true
  | .v6 .. => false

namespace DnsServer

variable (server : DnsServer)

/-- The addresses that a Federate name is answered with. -/
def answers (qtype : QueryType) : List Ip.Addr :=
  let ips := if server.fixedAnswers.isEmpty then server.gateways else server.fixedAnswers
  let answers := match qtype with
    | .a => ips.filter isIpv4
    | .aaaa => ips.filter fun ip => !isIpv4 ip
    | .other _ => []
  answers.take maxAnswers

/-- The answer to a Federate name. -/
def localReply (packet : Bytes) (query : DnsQuery) : Bytes :=
  let answers := server.answers query.qtype
  if answers.isEmpty ∧ query.qtype = .a then buildServfail packet query
  else buildResponse packet query answers server.ttl

variable [Externals] [SerdeDocuments] [ResolverExternals] (env : Environment)

/-- `DnsServer::is_federate_name`. -/
def isFederateName (name : String) : ResolverM Bool := do
  let last := Text.afterLast '.' (Text.trimEndMatches '.' name)
  if last = "" then return false
  match ← attempt (server.resolver.root env) with
  | .error _ => return false
  | .ok zone =>
    match zone.lookupTld (Text.toAsciiLowercase last) with
    | none => return false
    | some tldRec =>
      if tldRec.status.isResolvable = false then return false
      return !tldRec.isExpired (← env.now)

/-- `DnsServer::handle_packet`. -/
def handlePacket (upstream : Upstream) (packet : Bytes) : ResolverM Handling := do
  match DnsQuery.parse packet with
  | .error _ => return .dropped
  | .ok query =>
    if ← server.isFederateName env query.name then
      return .answered (server.localReply packet query)
    return .forwarded packet ((upstream.forward query.id).getD (buildServfail packet query))

end DnsServer

end Federate.Dns
