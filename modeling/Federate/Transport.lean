import Federate.Library.Octets
import Federate.Library.Stateful
import Federate.Resolution.Environment

/-!
# Sessions

Messages travel as frames over a connection, a stream of bytes in each direction. A client opens a
session by naming the versions it speaks, a node chooses one or refuses, and then answers requests.
What is written arrives in order; reading fails where the stream ends, closed or silent.
-/

namespace Federate

open Outcome Stateful

/-! ## Frames -/

/-- `serde_json::from_slice` of a message. -/
class SerdeMessage where
  /-- Read a message. -/
  message : Bytes → Except String Message

/-- `frame_len`, of the four bytes before a body. -/
def frameLen (header : Bytes) : Result ℕ := do
  let len := Octets.word32 header 0
  rejectIf (len = 0 ∨ maxFrameBytes < len.toNat)
    (.network s!"invalid frame length {len} (cap {maxFrameBytes})")
  return len.toNat

/-- `decode`. -/
def decode [SerdeMessage] (body : Bytes) : Result Message := serde (SerdeMessage.message body)

/-- `negotiate`: the highest version of both. -/
def negotiate (ours theirs : List UInt16) : Option UInt16 :=
  (ours.filter fun v => v ∈ theirs).max?

/-! ## Connections -/

/-- `Connection`. -/
structure Connection where
  /-- What has arrived and is not read. -/
  incoming : Bytes
  /-- What was sent. -/
  outgoing : Bytes
  /-- The version of the session. -/
  version : UInt16

/-- A program on a connection. -/
abbrev SessionM : Type → Type := Prog Connection FederateError

namespace Connection

/-- `read_exact`. -/
def readExact (len : ℕ) : SessionM Bytes := do
  let c ← get
  modify fun c => { c with incoming := c.incoming.drop len }
  (rejectIf (c.incoming.length < len) (.network "recv failed: early eof") : Result Unit)
  return c.incoming.take len

variable [Externals]

/-- `Connection::send`. -/
def send (msg : Message) : SessionM Unit := do
  let frame ← (encode msg : Result Bytes)
  modify fun c => { c with outgoing := c.outgoing ++ frame }

variable [SerdeMessage]

omit [Externals] in
/-- `Connection::recv`. -/
def recv : SessionM Message := do
  let header ← readExact 4
  let len ← (frameLen header : Result ℕ)
  let body ← readExact len
  (decode body : Result Message)

variable [ResolverExternals]

omit [Externals] [SerdeMessage] in
/-- The version that a client takes from the answer to its greeting. -/
def chosenVersion (supported : List UInt16) : Message → Result UInt16
  | .welcome version _ _ _ =>
    if version ∈ supported then .ok version
    else .error (.network s!"peer chose unsupported protocol version {version}")
  | .error code detail => .error (.network s!"handshake rejected: {code.debugName}: {detail}")
  | other => .error (.network s!"expected Welcome, got {ResolverExternals.messageDebug other}")

/-- `Connection::connect` of a client that speaks these versions, over a stream that was opened. -/
def connectWith (supported : List UInt16) (nodeId agent : String) : SessionM Message := do
  send (.hello supported nodeId agent)
  let welcome ← recv
  let version ← (chosenVersion supported welcome : Result UInt16)
  modify fun c => { c with version }
  return welcome

/-- `Connection::connect`. -/
def connect (identity : NodeIdentity) (agent : String) : SessionM Message :=
  connectWith supportedVersions identity.nodeId agent

end Connection

/-! ## Nodes -/

/-- `NodeService`, with a state that its answers may change. -/
structure NodeService (σ : Type) where
  /-- Id of the node. -/
  nodeId : String
  /-- What it offers. -/
  capabilities : List Capability
  /-- The answer to a request. -/
  handle : Message → σ → Message × σ

/-- `MAX_REQUESTS_PER_CONNECTION`. -/
def maxRequestsPerConnection : ℕ := 10000

namespace NodeService

open Connection

variable [Externals] [SerdeMessage] {σ : Type} (service : NodeService σ)

/-- The request loop of `serve_conn`. -/
def serveRequests : ℕ → σ → SessionM Unit
  | 0, _ => pure ()
  | more + 1, state => do
    match ← attempt recv with
    | .error _ => return ()
    | .ok request =>
      let (response, state) := service.handle request state
      send response
      serveRequests more state

omit [Externals] [SerdeMessage] in
/-- The answer to a greeting, and whether requests are served. -/
def answerHello (supported : List UInt16) (agent : String) : Message → Message × Bool
  | .hello versions _ _ =>
    match negotiate supported versions with
    | some version => (.welcome version service.nodeId agent service.capabilities, true)
    | none =>
      (.error .unsupported s!"no shared protocol version (ours: {supported})", false)
  | _ => (.error .badRequest "session must start with Hello", false)

/-- `serve_conn` of a node that speaks these versions. -/
def serveWith (supported : List UInt16) (agent : String) (state : σ) : SessionM Unit := do
  let hello ← recv
  let (answer, accepted) := service.answerHello supported agent hello
  send answer
  if accepted then service.serveRequests maxRequestsPerConnection state

/-- `serve_conn`. -/
def serveConn (agent : String) (state : σ) : SessionM Unit :=
  service.serveWith supportedVersions agent state

end NodeService

end Federate
