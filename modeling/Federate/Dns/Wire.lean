import Federate.Core
import Federate.Library.Octets
import Federate.Library.Lossy

/-!
# DNS messages

A query is read as far as its first question, whose bytes are echoed in the answer. An answer has
one address record for each address, all of them named by a pointer to the question.
-/

namespace Federate.Dns

open Outcome Octets

/-- `ParseError`. -/
structure ParseError where
  /-- Its text. -/
  text : String
  deriving DecidableEq

/-- `QueryType`. -/
inductive QueryType where
  | a | aaaa
  | other (v : UInt16)
  deriving DecidableEq

/-- `QueryType::from_u16`. -/
def QueryType.fromU16 (v : UInt16) : QueryType :=
  if v = 1 then .a else if v = 28 then .aaaa else .other v

/-- `DnsQuery`. -/
structure DnsQuery where
  /-- The transaction. -/
  id : UInt16
  /-- The name, its labels joined with dots. -/
  name : String
  /-- The type asked for. -/
  qtype : QueryType
  /-- The bytes of the question, echoed back. -/
  questionBytes : Bytes
  /-- The flag that is echoed. -/
  recursionDesired : Bool

/-- The loop of `DnsQuery::parse` over the labels of the question: the labels as they are on the
wire, and the position after the name. -/
def questionLabels (packet : Bytes) (pos : ℕ) (labels : List Bytes) :
    Except ParseError (List Bytes × ℕ) :=
  if within : pos < packet.length then
    let len := packet[pos]
    if len = 0 then .ok (labels, pos + 1)
    else if len &&& 0xC0 ≠ 0 then .error ⟨"compressed question name"⟩
    else
      match slice packet (pos + 1) len.toNat with
      | none => .error ⟨"truncated label"⟩
      | some label => questionLabels packet (pos + 1 + len.toNat) (labels ++ [label])
  else .error ⟨"truncated name"⟩
termination_by packet.length - pos

/-- The labels as they are read, joined. -/
def joined (labels : List Bytes) : String :=
  String.intercalate "." (labels.map Utf8.fromUtf8Lossy)

/-- `DnsQuery::parse`. -/
def DnsQuery.parse (packet : Bytes) : Except ParseError DnsQuery := do
  rejectIf (packet.length < 12) ⟨"packet too short"⟩
  let id := word16 packet 0
  let flags := word16 packet 2
  rejectIf (flags &&& 0x8000 ≠ 0) ⟨"not a query"⟩
  let qdcount := word16 packet 4
  rejectIf (qdcount = 0) ⟨"no question"⟩
  let (labels, pos) ← questionLabels packet 12 []
  let qtypeBytes ← okOr (slice packet pos 4) ⟨"truncated qtype/qclass"⟩
  let qtype := word16 qtypeBytes 0
  return {
    id := id
    name := joined labels
    qtype := .fromU16 qtype
    questionBytes := (packet.drop 12).take (pos + 4 - 12)
    recursionDesired := flags &&& 0x0100 ≠ 0 }

/-- `header`: one question, and an authoritative answer. -/
def header (query : DnsQuery) (rcode : UInt8) (ancount : UInt16) : Bytes :=
  let flags : UInt16 := 0x8000
  let flags := flags ||| 0x0400
  let flags := if query.recursionDesired then flags ||| 0x0100 else flags
  let flags := flags ||| 0x0080
  let flags := flags ||| (rcode.toUInt16 &&& 0x000F)
  be16 query.id ++ be16 flags ++ be16 1 ++ be16 ancount ++ be16 0 ++ be16 0

/-- `IpAddr::octets`. -/
def octets : Ip.Addr → Bytes
  | .v4 a b c d => [a, b, c, d]
  | .v6 groups => groups.toList.flatMap be16

/-- The type of an address record: A or AAAA. -/
def recordType : Ip.Addr → UInt16
  | .v4 .. => 1
  | .v6 .. => 28

/-- One record of an answer, named by a pointer to the name at offset 12. -/
def record (ttl : UInt32) (ip : Ip.Addr) : Bytes :=
  [0xC0, 0x0C] ++ be16 (recordType ip) ++ be16 1 ++ be32 ttl ++
    be16 (UInt16.ofNat (octets ip).length) ++ octets ip

/-- `build_response`. -/
def buildResponse (_packet : Bytes) (query : DnsQuery) (ips : List Ip.Addr) (ttl : UInt32) :
    Bytes :=
  header query 0 (UInt16.ofNat ips.length) ++ query.questionBytes ++ ips.flatMap (record ttl)

/-- `build_servfail`. -/
def buildServfail (_packet : Bytes) (query : DnsQuery) : Bytes :=
  header query 2 0 ++ query.questionBytes

/-- A label on the wire: its length, as one byte, and its bytes. -/
def wireLabel (label : Bytes) : Bytes := UInt8.ofNat label.length :: label

/-- `build_query`. -/
def buildQuery (id : UInt16) (name : String) (qtype : UInt16) : Bytes :=
  be16 id ++ be16 0x0100 ++ be16 1 ++ [0, 0, 0, 0, 0, 0] ++
    ((Text.trimEndMatches '.' name).toList.splitOn '.').flatMap
      (fun label => wireLabel (Utf8.encode (String.ofList label))) ++
    [0] ++ be16 qtype ++ be16 1

/-- `skip_name`. -/
def skipName (packet : Bytes) (pos : ℕ) : Except ParseError ℕ :=
  if within : pos < packet.length then
    let len := packet[pos]
    if len &&& 0xC0 = 0xC0 then .ok (pos + 2)
    else if len = 0 then .ok (pos + 1)
    else skipName packet (pos + 1 + len.toNat)
  else .error ⟨"truncated"⟩
termination_by packet.length - pos

/-- The loop of `parse_answers` over the questions. -/
def skipQuestions (packet : Bytes) : ℕ → ℕ → Except ParseError ℕ
  | 0, pos => .ok pos
  | count + 1, pos => do
    let pos ← skipName packet pos
    skipQuestions packet count (pos + 4)

/-- `IpAddr::from` of the data of a record, when it has the length of its type. -/
def address (rtype : UInt16) (rdata : Bytes) : Option Ip.Addr :=
  if rtype = 1 ∧ rdata.length = 4 then
    some (.v4 (rdata.getD 0 0) (rdata.getD 1 0) (rdata.getD 2 0) (rdata.getD 3 0))
  else if rtype = 28 ∧ rdata.length = 16 then
    some (.v6 (Vector.ofFn fun i => word16 rdata (2 * i)))
  else none

/-- The loop of `parse_answers` over the answers. -/
def readAnswers (packet : Bytes) :
    ℕ → ℕ → List (Ip.Addr × UInt32) → Except ParseError (List (Ip.Addr × UInt32))
  | 0, _, answers => .ok answers
  | count + 1, pos, answers => do
    let pos ← skipName packet pos
    let fixed ← okOr (slice packet pos 10) ⟨"truncated answer"⟩
    let rtype := word16 fixed 0
    let ttl := word32 fixed 4
    let rdlen := (word16 fixed 8).toNat
    let rdata ← okOr (slice packet (pos + 10) rdlen) ⟨"truncated rdata"⟩
    let answers := match address rtype rdata with
      | some ip => answers ++ [(ip, ttl)]
      | none => answers
    readAnswers packet count (pos + 10 + rdlen) answers

/-- `parse_answers`: the code of the response, and its addresses. -/
def parseAnswers (packet : Bytes) : Except ParseError (UInt8 × List (Ip.Addr × UInt32)) := do
  rejectIf (packet.length < 12) ⟨"short response"⟩
  let flags := word16 packet 2
  let rcode := (flags &&& 0x000F).toUInt8
  let qdcount := (word16 packet 4).toNat
  let ancount := (word16 packet 6).toNat
  let pos ← skipQuestions packet qdcount 12
  let answers ← readAnswers packet ancount pos []
  return (rcode, answers)

end Federate.Dns
