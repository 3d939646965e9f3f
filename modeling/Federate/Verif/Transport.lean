import Federate.Transport
import Federate.Verif.Frame
import Federate.Reference.Registry

/-!
# Frames and negotiation

What was encoded is read back frame by frame: the limits of the encoder and of the reader coincide.
In a session each side checks the choice of the other, so a client holds the version that the node
announced, the highest that both speak.
-/

namespace Federate

open Outcome Stateful

/-! ## Negotiation -/

/-- The versions that both speak. -/
def Shared (ours theirs : List UInt16) : Set UInt16 := {v | v ∈ ours ∧ v ∈ theirs}

/-- The maximum of two versions is one of them, and no smaller than either. -/
instance lawfulMaxUInt16 : Std.LawfulOrderMax UInt16 where
  max_le_iff a b c := by
    show (if a ≤ b then b else a) ≤ c ↔ _
    by_cases le : a ≤ b
    · rw [if_pos le]
      exact ⟨fun below => ⟨UInt16.le_trans le below, below⟩, fun both => both.2⟩
    · rw [if_neg le]
      have above : b ≤ a := (UInt16.le_total a b).resolve_left le
      exact ⟨fun below => ⟨below, UInt16.le_trans above below⟩, fun both => both.1⟩
  max_eq_or a b := by
    show (if a ≤ b then b else a) = a ∨ (if a ≤ b then b else a) = b
    by_cases le : a ≤ b
    · exact .inr (if_pos le)
    · exact .inl (if_neg le)

/-- Either may be named first. -/
theorem shared_comm (ours theirs : List UInt16) : Shared ours theirs = Shared theirs ours :=
  Set.ext fun _ => and_comm

/-- The version that is negotiated is the highest that both speak. -/
theorem negotiate_eq_some {ours theirs : List UInt16} {version : UInt16} :
    negotiate ours theirs = some version ↔ IsGreatest (Shared ours theirs) version := by
  rw [negotiate, List.max?_eq_some_iff]
  simp only [List.mem_filter, decide_eq_true_eq]
  rfl

/-- Nothing is negotiated when there is none. -/
theorem negotiate_eq_none {ours theirs : List UInt16} :
    negotiate ours theirs = none ↔ Shared ours theirs = ∅ := by
  rw [negotiate, List.max?_eq_none_iff, List.filter_eq_nil_iff, Set.eq_empty_iff_forall_notMem]
  simp [Shared]

/-! ## Frames -/

/-- The four bytes of a length, as a word. -/
theorem toBeBytes_eq (n : UInt32) : toBeBytes n = Octets.be32 n := by
  have shifted (k : UInt32) : (n >>> k).toUInt8.toNat = n.toNat / 2 ^ (k.toNat % 32) % 256 := by
    rw [UInt32.toNat_toUInt8, UInt32.toNat_shiftRight, Nat.shiftRight_eq_div_pow]
  have first : (n >>> 24).toUInt8.toNat = n.toNat / 16777216 % 256 := shifted 24
  have second : (n >>> 16).toUInt8.toNat = n.toNat / 65536 % 256 := shifted 16
  have third : (n >>> 8).toUInt8.toNat = n.toNat / 256 % 256 := shifted 8
  simp only [toBeBytes, Octets.be32, List.cons.injEq, and_true, ← UInt8.toNat_inj,
    UInt8.toNat_ofNat', first, second, third, UInt32.toNat_toUInt8]
  refine ⟨trivial, ?_, ?_, ?_⟩ <;> omega

section Frames

variable [Externals] [SerdeMessage]

/-- Messages are read back, and the empty text is none. -/
structure MessagesTrip : Prop where
  /-- A written message is read back. -/
  written : ∀ msg : Message, SerdeMessage.message (Externals.toVec msg.toJson) = .ok msg
  /-- A text has a first character. -/
  empty : ∃ e, SerdeMessage.message [] = .error e

namespace Connection

omit [Externals] [SerdeMessage] in
/-- Reading takes the bytes that have arrived, if there are enough. -/
theorem exec_readExact_eq_ok {len : ℕ} {c c' : Connection} {bytes : Bytes} :
    exec (readExact len) c = (.ok bytes, c') ↔ len ≤ c.incoming.length ∧
      c.incoming.take len = bytes ∧ { c with incoming := c.incoming.drop len } = c' := by
  simp only [readExact, exec_bind_eq_ok, exec_get, exec_modify, exec_lift, exec_pure,
    Prod.mk.injEq, Except.ok.injEq, rejectIf_eq_ok, Nat.not_lt]
  constructor
  · rintro ⟨_, _, ⟨rfl, rfl⟩, _, _, ⟨-, rfl⟩, _, _, ⟨enough, rfl⟩, rfl, rfl⟩
    exact ⟨enough, rfl, rfl⟩
  · rintro ⟨enough, rfl, rfl⟩
    exact ⟨c, c, ⟨rfl, rfl⟩, ⟨⟩, _, ⟨trivial, rfl⟩, ⟨⟩, _, ⟨enough, rfl⟩, rfl, rfl⟩

omit [Externals] [SerdeMessage] in
/-- Bytes that have arrived are read. -/
theorem exec_readExact_append {len : ℕ} {part : Bytes} (length : part.length = len)
    (rest out : Bytes) (version : UInt16) :
    exec (readExact len) ⟨part ++ rest, out, version⟩ = (.ok part, ⟨rest, out, version⟩) := by
  subst length
  refine exec_readExact_eq_ok.mpr ⟨?_, List.take_left, ?_⟩
  · rw [List.length_append]
    exact Nat.le_add_right _ _
  · rw [List.drop_left]

omit [Externals] [SerdeMessage] in
/-- What was read is the front of what had arrived. -/
theorem exec_readExact_eq {len : ℕ} {c c' : Connection} {bytes : Bytes}
    (returned : exec (readExact len) c = (.ok bytes, c')) :
    c = { c' with incoming := bytes ++ c'.incoming } ∧ bytes.length = len := by
  obtain ⟨enough, rfl, rfl⟩ := exec_readExact_eq_ok.mp returned
  refine ⟨?_, List.length_take_of_le enough⟩
  rw [List.take_append_drop]

omit [Externals] in
/-- A body that is a message is read behind a header with its length. -/
theorem exec_recv_of_frame {header body : Bytes} {msg : Message} (four : header.length = 4)
    (length : frameLen header = .ok body.length) (reads : SerdeMessage.message body = .ok msg)
    (rest out : Bytes) (version : UInt16) :
    exec recv ⟨header ++ (body ++ rest), out, version⟩ = (.ok msg, ⟨rest, out, version⟩) := by
  have decoded : decode body = .ok msg := by rw [decode, reads]; rfl
  rw [recv, exec_bind_ok (exec_readExact_append four _ out version), length]
  rw [exec_bind_ok (exec_lift _ _), exec_bind_ok (exec_readExact_append rfl rest out version)]
  rw [exec_lift, decoded]

omit [Externals] in
/-- What is read is such a frame. -/
theorem exec_recv_eq {c c' : Connection} {msg : Message}
    (returned : exec recv c = (.ok msg, c')) :
    ∃ header body, c = { c' with incoming := header ++ (body ++ c'.incoming) } ∧
      header.length = 4 ∧ frameLen header = .ok body.length ∧
      SerdeMessage.message body = .ok msg := by
  simp only [recv, exec_bind_eq_ok, exec_lift, Prod.mk.injEq] at returned
  obtain ⟨header, c₁, first, len, _, ⟨length, rfl⟩, body, c₂, second, decoded, rfl⟩ := returned
  obtain ⟨rfl, four⟩ := exec_readExact_eq first
  obtain ⟨split, rfl⟩ := exec_readExact_eq second
  refine ⟨header, body, ?_, four, length, serde_eq_ok.mp decoded⟩
  rw [split]

omit [Externals] in
/-- More that arrives later does not change what was read. -/
theorem exec_recv_more {c c' : Connection} {msg : Message}
    (returned : exec recv c = (.ok msg, c')) (more : Bytes) :
    exec recv { c with incoming := c.incoming ++ more } =
      (.ok msg, { c' with incoming := c'.incoming ++ more }) := by
  obtain ⟨header, body, rfl, four, length, reads⟩ := exec_recv_eq returned
  simp only [List.append_assoc]
  exact exec_recv_of_frame four length reads _ _ _

/-- A frame is read as its message. -/
theorem exec_recv_frame (trips : MessagesTrip) {msg : Message} {frame : Bytes}
    (accepted : encode msg = .ok frame) (rest out : Bytes) (version : UInt16) :
    exec recv ⟨frame ++ rest, out, version⟩ = (.ok msg, ⟨rest, out, version⟩) := by
  obtain ⟨short, rfl⟩ := encode_eq_ok.mp accepted
  have reads := trips.written msg
  obtain ⟨e, unread⟩ := trips.empty
  have some_text : Externals.toVec msg.toJson ≠ [] := by
    intro none_written
    rw [none_written, unread] at reads
    cases reads
  have positive := List.length_pos_iff.mpr some_text
  have limit : maxFrameBytes = 71303168 := rfl
  have word : (UInt32.ofNat (Externals.toVec msg.toJson).length).toNat =
      (Externals.toVec msg.toJson).length := by
    rw [UInt32.toNat_ofNat']
    omega
  have length : frameLen (toBeBytes (UInt32.ofNat (Externals.toVec msg.toJson).length)) =
      .ok (Externals.toVec msg.toJson).length := by
    have read : Octets.word32 (toBeBytes (UInt32.ofNat (Externals.toVec msg.toJson).length)) 0 =
        UInt32.ofNat (Externals.toVec msg.toJson).length := by
      rw [toBeBytes_eq]
      exact Octets.word32_at [] (List.append_nil _).symm
    have nonzero : UInt32.ofNat (Externals.toVec msg.toJson).length ≠ 0 := by
      intro zero
      rw [zero] at word
      have none_written : (0 : UInt32).toNat = 0 := rfl
      omega
    simp only [frameLen, read, bind_eq_ok, rejectIf_eq_ok, exists_unit, pure_eq_ok, word, not_or]
    exact ⟨⟨nonzero, by omega⟩, trivial⟩
  rw [List.append_assoc]
  exact exec_recv_of_frame rfl length reads rest out version

/-- Read this many messages. -/
def recvMany : ℕ → SessionM (List Message)
  | 0 => return []
  | more + 1 => do
    let msg ← recv
    let msgs ← recvMany more
    return msg :: msgs

/-- Frames in a row are read as their messages. -/
theorem exec_recvMany_frames (trips : MessagesTrip) {msgs : List Message} {frames : List Bytes}
    (accepted : List.Forall₂ (fun msg frame => encode msg = .ok frame) msgs frames)
    (rest out : Bytes) (version : UInt16) :
    exec (recvMany msgs.length) ⟨frames.flatten ++ rest, out, version⟩ =
      (.ok msgs, ⟨rest, out, version⟩) := by
  induction accepted with
  | nil => rfl
  | cons first _ ih =>
    rw [List.length_cons, recvMany, List.flatten_cons, List.append_assoc]
    rw [exec_bind_ok (exec_recv_frame trips first _ out version), exec_bind_ok ih]
    rfl

/-! ## Sending -/

omit [SerdeMessage] in
/-- A message is sent exactly when it is encoded. -/
theorem exec_send_eq_ok {msg : Message} {c c' : Connection} {u : Unit} :
    exec (send msg) c = (.ok u, c') ↔
      ∃ frame, encode msg = .ok frame ∧ { c with outgoing := c.outgoing ++ frame } = c' := by
  simp only [send, exec_bind_eq_ok, exec_lift, exec_modify, Prod.mk.injEq]
  constructor
  · rintro ⟨frame, _, ⟨accepted, rfl⟩, -, rfl⟩
    exact ⟨frame, accepted, rfl⟩
  · rintro ⟨frame, accepted, rfl⟩
    exact ⟨frame, c, ⟨accepted, rfl⟩, trivial, rfl⟩

/-- What was sent stays sent. -/
def SentMore (c c' : Connection) : Prop := c.outgoing <+: c'.outgoing

omit [Externals] [SerdeMessage] in
instance : Std.Refl SentMore := ⟨fun _ => List.prefix_rfl⟩

omit [Externals] [SerdeMessage] in
instance : IsTrans Connection SentMore := ⟨fun _ _ _ => List.IsPrefix.trans⟩

omit [SerdeMessage] in
/-- Sending sends more. -/
theorem keeps_send (msg : Message) : Keeps SentMore (send msg) :=
  Keeps.afterLift _ fun frame => keeps_modify fun c => List.prefix_append c.outgoing frame

omit [Externals] in
/-- Reading sends nothing. -/
theorem keeps_recv : Keeps SentMore recv := by
  have reads (len : ℕ) : Keeps SentMore (readExact len) := by
    have dropped : Keeps SentMore (modify fun c : Connection =>
        { c with incoming := c.incoming.drop len } : SessionM PUnit) :=
      keeps_modify fun _ => List.prefix_rfl
    exact keeps_get.bind fun c => dropped.bind fun u => Keeps.afterLift _ fun u => keeps_pure _
  refine (reads 4).bind fun header => Keeps.afterLift _ fun len => (reads len).bind fun body => ?_
  exact keeps_lift _

end Connection

end Frames

/-! ## Sessions -/

section Sessions

open Connection

variable [Externals] [SerdeMessage] [ResolverExternals] {σ : Type} (service : NodeService σ)

omit [ResolverExternals] in
/-- Serving requests sends more. -/
theorem NodeService.keeps_serveRequests (more : ℕ) (state : σ) :
    Keeps SentMore (service.serveRequests more state) := by
  induction more generalizing state with
  | zero => exact keeps_pure _
  | succ more ih =>
    refine keeps_recv.attempt.bind fun outcome => ?_
    cases outcome with
    | error e => exact keeps_pure _
    | ok request => exact (keeps_send _).bind fun u => ih _

/-- What follows the greeting. -/
def NodeService.respond (supported : List UInt16) (agent : String) (state : σ) (hello : Message) :
    SessionM Unit := do
  send (service.answerHello supported agent hello).1
  if (service.answerHello supported agent hello).2 then
    service.serveRequests maxRequestsPerConnection state

variable (supported : List UInt16) (agent : String) (state : σ)

omit [ResolverExternals] in
/-- A node answers the greeting that it reads. -/
theorem exec_serveWith (trips : MessagesTrip) {hello : Message} {frame : Bytes}
    (greets : encode hello = .ok frame) (later out : Bytes) (version : UInt16) :
    exec (service.serveWith supported agent state) ⟨frame ++ later, out, version⟩ =
      exec (service.respond supported agent state hello) ⟨later, out, version⟩ := by
  rw [NodeService.serveWith, exec_bind_ok (exec_recv_frame trips greets later out version)]
  rfl

omit [SerdeMessage] [ResolverExternals] in
/-- The answer is the first that is sent; nothing is, when it is too long. -/
theorem exec_respond [SerdeMessage] (hello : Message) (later : Bytes) :
    (∃ frame, encode (service.answerHello supported agent hello).1 = .ok frame ∧
      frame <+: (exec (service.respond supported agent state hello) ⟨later, [], 0⟩).2.outgoing) ∨
    (∃ e, encode (service.answerHello supported agent hello).1 = .error e) ∧
      (exec (service.respond supported agent state hello) ⟨later, [], 0⟩).2.outgoing = [] := by
  cases accepted : encode (service.answerHello supported agent hello).1 with
  | error e =>
    right
    refine ⟨⟨e, rfl⟩, ?_⟩
    have failed : exec (send (service.answerHello supported agent hello).1) ⟨later, [], 0⟩ =
        (.error e, ⟨later, [], 0⟩) := by
      rw [send, accepted]
      rfl
    rw [NodeService.respond, exec_bind_error failed]
  | ok frame =>
    left
    refine ⟨frame, rfl, ?_⟩
    have sent : exec (send (service.answerHello supported agent hello).1) ⟨later, [], 0⟩ =
        (.ok (), ⟨later, frame, 0⟩) := exec_send_eq_ok.mpr ⟨frame, accepted, rfl⟩
    rw [NodeService.respond, exec_bind_ok sent]
    by_cases serves : (service.answerHello supported agent hello).2 = true
    · rw [if_pos serves]
      exact service.keeps_serveRequests maxRequestsPerConnection state ⟨later, frame, 0⟩
    · rw [if_neg serves]
      exact List.prefix_rfl

omit [Externals] [SerdeMessage] [ResolverExternals] in
/-- A greeting is answered with the highest version that both speak, or refused. -/
theorem answerHello_hello (versions : List UInt16) (nodeId clientAgent : String) :
    (∃ version, IsGreatest (Shared supported versions) version ∧
      service.answerHello supported agent (.hello versions nodeId clientAgent) =
        (.welcome version service.nodeId agent service.capabilities, true)) ∨
    Shared supported versions = ∅ ∧ ∃ detail,
      service.answerHello supported agent (.hello versions nodeId clientAgent) =
        (.error .unsupported detail, false) := by
  cases chosen : negotiate supported versions with
  | some version =>
    left
    refine ⟨version, negotiate_eq_some.mp chosen, ?_⟩
    rw [NodeService.answerHello, chosen]
  | none =>
    right
    refine ⟨negotiate_eq_none.mp chosen, s!"no shared protocol version (ours: {supported})", ?_⟩
    rw [NodeService.answerHello, chosen]

omit [Externals] [SerdeMessage] in
/-- A client takes a version from a welcome alone, and one that it speaks. -/
theorem chosenVersion_eq_ok {ours : List UInt16} {msg : Message} {version : UInt16} :
    chosenVersion ours msg = .ok version ↔
      version ∈ ours ∧ ∃ nodeId agent capabilities, msg = .welcome version nodeId agent capabilities := by
  cases msg with
  | welcome chosen nodeId agent capabilities =>
    rw [chosenVersion]
    by_cases member : chosen ∈ ours
    · rw [if_pos member]
      constructor
      · intro same
        rw [← Except.ok.inj same]
        exact ⟨member, nodeId, agent, capabilities, rfl⟩
      · rintro ⟨-, _, _, _, same⟩
        rw [(Message.welcome.inj same).1]
    · rw [if_neg member]
      simp only [reduceCtorEq, false_iff, not_and, not_exists]
      intro spoken nodeId' agent' capabilities' same
      exact member ((Message.welcome.inj same).1 ▸ spoken)
  | _ => simp [chosenVersion]

/-- What a client that opened a session has done. -/
theorem exec_connectWith_eq_ok {ours : List UInt16} {nodeId clientAgent : String}
    {c c' : Connection} {welcome : Message} :
    exec (connectWith ours nodeId clientAgent) c = (.ok welcome, c') ↔
      ∃ frame answered version, encode (.hello ours nodeId clientAgent) = .ok frame ∧
        exec recv { c with outgoing := c.outgoing ++ frame } = (.ok welcome, answered) ∧
        chosenVersion ours welcome = .ok version ∧ { answered with version } = c' := by
  simp only [connectWith, exec_bind_eq_ok, exec_lift, exec_modify, exec_pure, Prod.mk.injEq,
    Except.ok.injEq]
  constructor
  · rintro ⟨_, _, sent, msg, answered, read, version, _, ⟨chosen, rfl⟩, _, _, ⟨-, rfl⟩, rfl, rfl⟩
    obtain ⟨frame, accepted, rfl⟩ := exec_send_eq_ok.mp sent
    exact ⟨frame, _, version, accepted, read, chosen, rfl⟩
  · rintro ⟨frame, answered, version, accepted, read, chosen, rfl⟩
    exact ⟨⟨⟩, _, exec_send_eq_ok.mpr ⟨frame, accepted, rfl⟩, _, answered, read, version, _,
      ⟨chosen, rfl⟩, ⟨⟩, _, ⟨trivial, rfl⟩, rfl, rfl⟩

omit [Externals] [ResolverExternals] in
/-- Nothing is read from an empty stream. -/
theorem incoming_ne_nil {c c' : Connection} {msg : Message}
    (returned : exec recv c = (.ok msg, c')) : c.incoming ≠ [] := by
  obtain ⟨header, body, split, four, -⟩ := exec_recv_eq returned
  rw [split]
  have some_header : header ≠ [] := List.length_pos_iff.mp (by omega)
  simp [some_header]

/-- A client that has a session with a node has the version that the node announced, the highest
that both speak. -/
theorem session_version (trips : MessagesTrip) (ours theirs : List UInt16)
    (nodeId clientAgent : String) (later : Bytes) {incoming : Bytes} {welcome : Message}
    {conn : Connection}
    (opened : exec (connectWith ours nodeId clientAgent) ⟨incoming, [], 0⟩ = (.ok welcome, conn))
    (arrived : incoming <+: (exec (service.serveWith theirs agent state)
      ⟨conn.outgoing ++ later, [], 0⟩).2.outgoing) :
    welcome = .welcome conn.version service.nodeId agent service.capabilities ∧
      IsGreatest (Shared ours theirs) conn.version := by
  obtain ⟨frame, answered, version, greets, read, chosen, rfl⟩ := exec_connectWith_eq_ok.mp opened
  have outgoing : answered.outgoing = frame := by
    obtain ⟨header, body, split, -⟩ := exec_recv_eq read
    have same := congrArg Connection.outgoing split
    exact same.symm
  simp only [outgoing] at arrived
  rw [exec_serveWith service theirs agent state trips greets] at arrived
  obtain ⟨more, whole⟩ := arrived
  rcases exec_respond service theirs agent state (.hello ours nodeId clientAgent) later with
    ⟨answer, accepted, rest, output⟩ | ⟨-, silent⟩
  · -- the client reads the answer of the node
    rw [← whole] at output
    have all := exec_recv_more read more
    have received := exec_recv_frame trips accepted rest frame 0
    rw [output] at received
    have same : (Except.ok welcome : Result Message) = .ok _ :=
      congrArg Prod.fst (all.symm.trans received)
    have answers := Except.ok.inj same
    obtain ⟨-, nodeId', agent', capabilities', announced⟩ := chosenVersion_eq_ok.mp chosen
    rcases answerHello_hello service theirs agent ours nodeId clientAgent with
      ⟨version', greatest, answer⟩ | ⟨-, detail, answer⟩
    · rw [answer] at answers
      have versions : version' = version := by
        rw [answers] at announced
        exact (Message.welcome.inj announced).1
      rw [shared_comm, ← versions]
      exact ⟨answers, greatest⟩
    · rw [answer, announced] at answers
      cases answers
  · -- nothing was sent
    rw [silent] at whole
    exact absurd (List.append_eq_nil_iff.mp whole).1 (incoming_ne_nil read)

/-- A client that reads the whole answer of a node has a session when both speak a version. -/
theorem session_opens (trips : MessagesTrip) {ours theirs : List UInt16}
    {nodeId clientAgent : String} {greeting answer : Bytes} {version : UInt16}
    (greets : encode (.hello ours nodeId clientAgent) = .ok greeting)
    (both : IsGreatest (Shared ours theirs) version)
    (answers : encode (.welcome version service.nodeId agent service.capabilities) = .ok answer)
    (rest : Bytes) :
    exec (connectWith ours nodeId clientAgent) ⟨answer ++ rest, [], 0⟩ =
      (.ok (.welcome version service.nodeId agent service.capabilities),
        ⟨rest, greeting, version⟩) := by
  refine exec_connectWith_eq_ok.mpr ⟨greeting, ⟨rest, greeting, 0⟩, version, greets, ?_, ?_, rfl⟩
  · exact exec_recv_frame trips answers rest greeting 0
  · exact chosenVersion_eq_ok.mpr ⟨both.1.1, _, _, _, rfl⟩

end Sessions

/-! ## The whole -/

section Whole

open Connection NodeService

variable [Externals] [SerdeMessage] [ResolverExternals]

omit [ResolverExternals] in
/-- Frames in a row are read as the messages that they were encoded from, and nothing is left. -/
def FramesRead : Prop := ∀ (msgs : List Message) (frames : List Bytes) (out : Bytes)
    (version : UInt16), List.Forall₂ (fun msg frame => encode msg = .ok frame) msgs frames →
  exec (recvMany msgs.length) ⟨frames.flatten, out, version⟩ = (.ok msgs, ⟨[], out, version⟩)

omit [ResolverExternals] in
/-- A node answers a greeting with the highest version that both speak, or with an error. -/
def HellosAnswered : Prop := ∀ (σ : Type) (service : NodeService σ) (agent : String) (state : σ)
    (versions : List UInt16) (nodeId clientAgent : String) (frame later out : Bytes)
    (version : UInt16), encode (.hello versions nodeId clientAgent) = .ok frame →
  (∃ greatest, IsGreatest (Shared supportedVersions versions) greatest ∧
    exec (service.serveConn agent state) ⟨frame ++ later, out, version⟩ =
      exec (do
        send (.welcome greatest service.nodeId agent service.capabilities)
        service.serveRequests maxRequestsPerConnection state) ⟨later, out, version⟩) ∨
  Shared supportedVersions versions = ∅ ∧ ∃ detail,
    exec (service.serveConn agent state) ⟨frame ++ later, out, version⟩ =
      exec (send (.error .unsupported detail)) ⟨later, out, version⟩

/-- A client that has a session with a node, of whose bytes some have arrived, has the version that
the node announced, the highest that both speak. -/
def VersionsAgree : Prop := ∀ (σ : Type) (service : NodeService σ) (ours theirs : List UInt16)
    (agent nodeId clientAgent : String) (state : σ) (later incoming : Bytes) (welcome : Message)
    (conn : Connection),
  exec (connectWith ours nodeId clientAgent) ⟨incoming, [], 0⟩ = (.ok welcome, conn) →
  incoming <+: (exec (service.serveWith theirs agent state)
    ⟨conn.outgoing ++ later, [], 0⟩).2.outgoing →
  welcome = .welcome conn.version service.nodeId agent service.capabilities ∧
    IsGreatest (Shared ours theirs) conn.version

end Whole

end Federate

namespace Federate.Reference

open Json Encoding Connection

/-- The reference reader of messages. -/
noncomputable scoped instance : SerdeMessage where
  message := read (fun _ => True) Message.toJson

/-- It reads written messages back. -/
theorem messagesTrip : MessagesTrip where
  written msg := read_compact (fun m _ => m.readable) (fun _ _ => Message.toJson_injective) trivial
  empty := by
    have unwritten : ¬∃ msg : Message, True ∧ compact msg.toJson = squeeze .outside [] := by
      rintro ⟨msg, -, same⟩
      obtain ⟨members, tagged⟩ := msg.toJson_tag
      rw [tagged, compact] at same
      simp [squeeze] at same
    exact ⟨_, dif_neg unwritten⟩

end Federate.Reference
