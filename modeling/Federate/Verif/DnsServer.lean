import Federate.Dns.Server
import Federate.Verif.Dns
import Federate.Verif.Spelling

/-!
# What the DNS server answers itself

The server looks for the TLD behind the last dot of the joined name. That is the last label of the
question when the label is text without a dot, but a label may hold any bytes. A reply repeats the
question, whose length only the packet bounds.
-/

namespace Federate.Dns

open Outcome Stateful Octets Resolver

/-! ## The name behind the last dot -/

/-- The byte of a dot. -/
def dot : UInt8 := 0x2E

/-- What stands behind the last dot of the joined labels that something follows. -/
def lastRun (labels : List Bytes) : Bytes :=
  (([dot].intercalate labels).rdropWhile (· = dot)).rtakeWhile (· ≠ dot)

theorem dot_low : dot.toNat < 128 := by decide

theorem utf8EncodeChar_dot : String.utf8EncodeChar '.' = [dot] := rfl

variable {labels : List Bytes} {label : Bytes}

/-- Joined labels are read as the bytes joined with dots. -/
theorem toList_joined (labels : List Bytes) :
    (joined labels).toList = Utf8.decodeLossy ([dot].intercalate labels) := by
  have single : (".").toList = ['.'] := rfl
  rw [joined, String.toList_intercalate, single, List.map_map]
  induction labels with
  | nil => rw [List.intercalate_nil, Utf8.decodeLossy]; rfl
  | cons label labels ih =>
    cases labels with
    | nil =>
      rw [List.map_cons, List.map_nil, List.intercalate_singleton, List.intercalate_singleton]
      exact String.toList_ofList
    | cons next labels =>
      rw [List.map_cons, List.map_cons, List.intercalate_cons_cons, ← List.map_cons, ih,
        List.intercalate_cons_cons, List.append_assoc, List.append_assoc, List.singleton_append,
        List.singleton_append, Utf8.decodeLossy_append dot_low _ utf8EncodeChar_dot]
      congr 1
      exact String.toList_ofList

/-- The text behind the last dot is read from the bytes there. -/
theorem afterLast_joined (labels : List Bytes) :
    Text.afterLast '.' (Text.trimEndMatches '.' (joined labels)) =
      Utf8.fromUtf8Lossy (lastRun labels) := by
  rw [← String.toList_inj, Text.afterLast, Text.trimEndMatches, Text.toList_onChars,
    Text.toList_onChars, toList_joined, Utf8.rdropWhile_decodeLossy dot_low utf8EncodeChar_dot,
    Utf8.rtakeWhile_decodeLossy dot_low utf8EncodeChar_dot, Utf8.fromUtf8Lossy,
    String.toList_ofList]
  rfl

/-- Joined labels end with the last one. -/
theorem intercalate_ends (ends : labels.getLast? = some label) :
    ∃ before, [dot].intercalate labels = before ++ label ∧
      (before = [] ∨ ∃ earlier, before = earlier ++ [dot]) := by
  induction labels with
  | nil => cases ends
  | cons first labels ih =>
    cases labels with
    | nil =>
      have same : first = label := by simpa using ends
      exact ⟨[], by rw [List.intercalate_singleton, same]; rfl, .inl rfl⟩
    | cons next labels =>
      rw [List.getLast?_cons_cons] at ends
      obtain ⟨before, split, stops⟩ := ih ends
      refine ⟨first ++ [dot] ++ before, ?_, .inr ?_⟩
      · rw [List.intercalate_cons_cons, split]
        simp only [List.append_assoc]
      · rcases stops with rfl | ⟨earlier, rfl⟩
        · exact ⟨first, List.append_nil _⟩
        · exact ⟨first ++ [dot] ++ earlier, (List.append_assoc _ _ _).symm⟩

/-- A label without a dot stands behind the last dot. -/
theorem lastRun_eq (ends : labels.getLast? = some label) (filled : label ≠ [])
    (plain : dot ∉ label) : lastRun labels = label := by
  obtain ⟨before, split, stops⟩ := intercalate_ends ends
  have differs : ∀ b ∈ label, b ≠ dot := fun b member same => plain (same ▸ member)
  have kept : (before ++ label).rdropWhile (· = dot) = before ++ label := by
    rw [List.rdropWhile_eq_self_iff]
    intro nonempty
    rw [List.getLast_append_of_ne_nil _ filled]
    simpa using differs _ (List.getLast_mem filled)
  have stopped : before.reverse.takeWhile (· ≠ dot) = [] := by
    rcases stops with rfl | ⟨earlier, rfl⟩
    · rfl
    · simp
  rw [lastRun, split, kept, List.rtakeWhile, List.reverse_append, List.takeWhile_append_of_pos,
    stopped, List.append_nil, List.reverse_reverse]
  intro b member
  simpa using differs b (List.mem_reverse.mp member)

/-! ## Which names are answered -/

/-- The TLD is in the zone, with a resolvable status and no passed expiry. -/
def Usable [Externals] (zone : RootZone) (now : DateTime) (tld : String) : Prop :=
  ∃ tldRec, zone.lookupTld tld = some tldRec ∧ tldRec.status.isResolvable = true ∧
    tldRec.isExpired now = false

/-- The last label is the name of a usable TLD, up to the case of ASCII letters. -/
def NamesTld [Externals] (zone : RootZone) (now : DateTime) (labels : List Bytes) : Prop :=
  ∃ label, labels.getLast? = some label ∧
    ∃ tld, Usable zone now tld ∧ Utf8.eqIgnoreAsciiCase (Utf8.encode tld) label

/-- What stands behind the last dot is read as the name of a usable TLD. -/
def ReadsTld [Externals] (zone : RootZone) (now : DateTime) (labels : List Bytes) : Prop :=
  lastRun labels ≠ [] ∧
    Usable zone now (Text.toAsciiLowercase (Utf8.fromUtf8Lossy (lastRun labels)))

/-- The label is text without a dot. -/
def IsPlain (label : Bytes) : Prop := ∃ text, label = Utf8.encode text ∧ '.' ∉ text.toList

section Decision

variable [Externals] [SerdeDocuments] [ResolverExternals] {server : DnsServer} {env : Environment}
  {s : ResolverState} {zone : RootZone}

omit [Externals] [SerdeDocuments] [ResolverExternals] in
/-- Text is read from bytes exactly when there are some. -/
theorem fromUtf8Lossy_eq_empty {bytes : Bytes} : Utf8.fromUtf8Lossy bytes = "" ↔ bytes = [] := by
  constructor
  · intro nothing
    cases shape : bytes with
    | nil => rfl
    | cons b rest =>
      rw [shape, Utf8.fromUtf8Lossy, String.ofList_eq_empty_iff, Utf8.decodeLossy] at nothing
      split at nothing <;> cases nothing
  · intro nothing
    rw [nothing, Utf8.fromUtf8Lossy, Utf8.decodeLossy]

/-- The server takes for Federate names those that it reads as names below a usable TLD. -/
theorem exec_isFederateName (server : DnsServer) (env : Environment) (holds : s.root = some zone)
    (labels : List Bytes) :
    ∃ federate s', exec (server.isFederateName env (joined labels)) s = (.ok federate, s') ∧
      (federate = true ↔ ReadsTld zone (env.clock s.ticks) labels) := by
  have rooted : exec (attempt (server.resolver.root env)) s = (.ok (.ok zone), s) := by
    rw [exec_attempt, exec_root_held holds]
  unfold DnsServer.isFederateName
  simp only [afterLast_joined]
  by_cases nothing : lastRun labels = []
  · rw [if_pos (fromUtf8Lossy_eq_empty.mpr nothing)]
    refine ⟨false, s, rfl, ?_⟩
    simp [ReadsTld, nothing]
  rw [if_neg (fromUtf8Lossy_eq_empty.not.mpr nothing), exec_bind_ok rooted]
  simp only
  cases found : zone.lookupTld (Text.toAsciiLowercase (Utf8.fromUtf8Lossy (lastRun labels))) with
  | none =>
    refine ⟨false, s, rfl, ?_⟩
    simp [ReadsTld, Usable, found]
  | some tldRec =>
    simp only
    by_cases resolves : tldRec.status.isResolvable = true
    · have kept : ¬tldRec.status.isResolvable = false := by simp [resolves]
      rw [if_neg kept]
      refine ⟨!tldRec.isExpired (env.clock s.ticks), _, rfl, ?_⟩
      simp [ReadsTld, Usable, found, nothing, resolves]
    · rw [if_pos (by simpa using resolves)]
      refine ⟨false, s, rfl, ?_⟩
      simp [ReadsTld, Usable, found, resolves]

/-- The labels of the question of a packet. -/
def wireLabels (packet : Bytes) : List Bytes :=
  match questionLabels packet 12 [] with
  | .ok (labels, _) => labels
  | .error _ => []

omit [Externals] [SerdeDocuments] [ResolverExternals] in
/-- An accepted packet is a question for its labels. -/
theorem accepted_labels {packet : Bytes} {q : DnsQuery} (accepted : DnsQuery.parse packet = .ok q) :
    IsName (wireLabels packet) ∧ q.name = joined (wireLabels packet) ∧
      q.questionBytes.length = (wireName (wireLabels packet)).length + 4 := by
  obtain ⟨labels, fixed, rest, named, length, -, found, -, -, same⟩ := parse_eq_ok.mp accepted
  have labelled : wireLabels packet = labels := by
    rw [wireLabels, questionLabels_at named found]
    rfl
  rw [labelled, same]
  refine ⟨named, rfl, ?_⟩
  rw [List.length_append, length]

omit [Externals] [SerdeDocuments] [ResolverExternals] in
/-- A query for a name of text is a question for its labels. -/
theorem wireLabels_buildQuery (id qtype : UInt16) {labels : List String} (nonempty : labels ≠ [])
    (text : IsText labels) :
    wireLabels (buildQuery id (String.intercalate "." labels) qtype) = labels.map Utf8.encode := by
  have after : (buildQuery id (String.intercalate "." labels) qtype).drop 12 =
      wireName (labels.map Utf8.encode) ++ (be16 qtype ++ be16 1 ++ []) := by
    rw [buildQuery_eq id qtype nonempty text]
    rfl
  rw [wireLabels, questionLabels_at (isName_encode text) after]
  rfl

/-- A packet is answered when its last label is the name of a usable TLD, and forwarded unchanged
otherwise. -/
structure DecidesOnTld (zone : RootZone) (now : DateTime) (packet : Bytes)
    (outcome : Result Handling) : Prop where
  /-- What is answered. -/
  answered : (∃ reply, outcome = .ok (.answered reply)) ↔ NamesTld zone now (wireLabels packet)
  /-- What is forwarded. -/
  forwarded : ¬NamesTld zone now (wireLabels packet) →
    ∃ reply, outcome = .ok (.forwarded packet reply)

/-- The last label is read as it is: it is text without a dot, and when a usable TLD is named like
it up to case, so is one in lowercase; or the name behind the last dot is read as that of a usable
TLD exactly when the label names one. -/
def ReadAsItIs (zone : RootZone) (now : DateTime) (labels : List Bytes) : Prop :=
  ∀ label, labels.getLast? = some label →
    (IsPlain label ∧ ∀ tld, Usable zone now tld →
      Utf8.eqIgnoreAsciiCase (Utf8.encode tld) label →
        Usable zone now (Text.toAsciiLowercase tld)) ∨
    ¬IsPlain label ∧ (ReadsTld zone now labels ↔ NamesTld zone now labels)

/-- What becomes of an accepted packet. -/
theorem exec_handlePacket (server : DnsServer) (env : Environment) (holds : s.root = some zone)
    (upstream : Upstream) {packet : Bytes} {q : DnsQuery}
    (accepted : DnsQuery.parse packet = .ok q) :
    (ReadsTld zone (env.clock s.ticks) (wireLabels packet) ∧
      (exec (server.handlePacket env upstream packet) s).1 =
        .ok (.answered (server.localReply packet q))) ∨
    (¬ReadsTld zone (env.clock s.ticks) (wireLabels packet) ∧
      (exec (server.handlePacket env upstream packet) s).1 =
        .ok (.forwarded packet ((upstream.forward q.id).getD (buildServfail packet q)))) := by
  obtain ⟨named, name, -⟩ := accepted_labels accepted
  obtain ⟨federate, s', decided, reads⟩ :=
    exec_isFederateName server env holds (wireLabels packet)
  unfold DnsServer.handlePacket
  rw [accepted]
  simp only [name]
  rw [exec_bind_ok decided]
  cases federate with
  | true => exact .inl ⟨reads.mp rfl, rfl⟩
  | false => exact .inr ⟨fun read => absurd (reads.mpr read) (by simp), rfl⟩

omit [SerdeDocuments] [ResolverExternals] in
/-- A plain label is read as it is. -/
theorem readsTld_plain (zone : RootZone) (now : DateTime) {text : String} (named : IsName labels)
    (ends : labels.getLast? = some (Utf8.encode text)) (noDot : '.' ∉ text.toList) :
    ReadsTld zone now labels ↔ Usable zone now (Text.toAsciiLowercase text) := by
  have filled : Utf8.encode text ≠ [] := by
    intro empty
    have long := (named _ (List.mem_of_getLast? ends)).1
    rw [empty] at long
    cases long
  have plain : dot ∉ Utf8.encode text := by
    intro member
    obtain ⟨c, within, inside⟩ := List.mem_flatMap.mp member
    have code := (Utf8.utf8EncodeChar_low inside dot_low).2
    have same : c = '.' := Char.ext (UInt32.toNat_inj.mp code)
    exact noDot (same ▸ within)
  rw [ReadsTld, lastRun_eq ends filled plain, Utf8.fromUtf8Lossy_encode]
  exact ⟨fun reads => reads.2, fun usable => ⟨filled, usable⟩⟩

omit [SerdeDocuments] [ResolverExternals] in
/-- The name behind the last dot is that of a usable TLD exactly when the last label is, if and only
if the last label is read as it is. -/
theorem readsTld_iff_namesTld {now : DateTime} (named : IsName labels) :
    (ReadsTld zone now labels ↔ NamesTld zone now labels) ↔ ReadAsItIs zone now labels := by
  cases ends : labels.getLast? with
  | none =>
    have empty : labels = [] := List.getLast?_eq_none_iff.mp ends
    have unread : ¬ReadsTld zone now labels := by
      rw [empty]
      exact fun reads => reads.1 rfl
    have unnamed : ¬NamesTld zone now labels := by
      rintro ⟨label, last, -⟩
      rw [ends] at last
      cases last
    refine iff_of_true (iff_of_false unread unnamed) fun label last => ?_
    rw [ends] at last
    cases last
  | some label =>
    by_cases plain : IsPlain label
    · obtain ⟨text, same, noDot⟩ := plain
      rw [same] at ends
      have reads := readsTld_plain zone now named ends noDot
      have names : NamesTld zone now labels ↔ ∃ tld, Usable zone now tld ∧
          Utf8.eqIgnoreAsciiCase (Utf8.encode tld) (Utf8.encode text) := by
        constructor
        · rintro ⟨other, last, tld⟩
          rw [ends, Option.some.injEq] at last
          rwa [last]
        · exact fun tld => ⟨_, ends, tld⟩
      rw [reads, names]
      constructor
      · intro agree label' last
        rw [ends, Option.some.injEq] at last
        rw [← last]
        refine .inl ⟨⟨text, rfl, noDot⟩, fun tld usable alike => ?_⟩
        rw [Utf8.eqIgnoreAsciiCase_encode.mp alike]
        exact agree.mpr ⟨tld, usable, alike⟩
      · intro asItIs
        have lower := (asItIs _ ends).resolve_right fun other => other.1 ⟨text, rfl, noDot⟩
        constructor
        · intro usable
          refine ⟨_, usable, Utf8.eqIgnoreAsciiCase_encode.mpr ?_⟩
          exact Utf8.toAsciiLowercase_idem text
        · rintro ⟨tld, usable, alike⟩
          rw [← Utf8.eqIgnoreAsciiCase_encode.mp alike]
          exact lower.2 tld usable alike
    · constructor
      · intro agree label' last
        rw [ends, Option.some.injEq] at last
        exact .inr ⟨last ▸ plain, agree⟩
      · intro asItIs
        exact ((asItIs _ ends).resolve_left fun other => plain other.1).2

/-- An accepted packet is answered or forwarded by its TLD exactly when the last label of its name
is read as it is. -/
theorem decidesOnTld_iff (holds : s.root = some zone) (upstream : Upstream) {packet : Bytes}
    {q : DnsQuery} (accepted : DnsQuery.parse packet = .ok q) :
    DecidesOnTld zone (env.clock s.ticks) packet
        (exec (server.handlePacket env upstream packet) s).1 ↔
      ReadAsItIs zone (env.clock s.ticks) (wireLabels packet) := by
  rw [← readsTld_iff_namesTld (accepted_labels accepted).1]
  rcases exec_handlePacket server env holds upstream accepted with
    ⟨reads, outcome⟩ | ⟨unread, outcome⟩
  · rw [outcome]
    constructor
    · intro decides
      exact iff_of_true reads (decides.answered.mp ⟨_, rfl⟩)
    · intro agree
      exact ⟨iff_of_true ⟨_, rfl⟩ (agree.mp reads), fun unnamed => absurd (agree.mp reads) unnamed⟩
  · rw [outcome]
    have unanswered : ¬∃ reply, (Except.ok (Handling.forwarded packet
        ((upstream.forward q.id).getD (buildServfail packet q))) : Result Handling) =
          .ok (.answered reply) := by
      rintro ⟨reply, same⟩
      cases same
    constructor
    · intro decides
      exact iff_of_false unread fun named => unanswered (decides.answered.mpr named)
    · intro agree
      have unnamed := agree.not.mp unread
      exact ⟨iff_of_false unanswered unnamed, fun _ => ⟨_, rfl⟩⟩

omit [SerdeDocuments] [ResolverExternals] in
/-- In a zone whose usable TLDs have names in normal form, a label is read as it is exactly when it
is text without a dot or the name behind its last dot is not that of a usable TLD. -/
theorem readAsItIs_normal {now : DateTime} (normal : ∀ tld, Usable zone now tld → IsTldName tld) :
    ReadAsItIs zone now labels ↔
      ∀ label, labels.getLast? = some label → IsPlain label ∨ ¬ReadsTld zone now labels := by
  have plainName {tld : String} {label : Bytes} (usable : Usable zone now tld)
      (alike : Utf8.eqIgnoreAsciiCase (Utf8.encode tld) label) : IsPlain label := by
    have letters : ∀ b ∈ label, b.toNat < 128 ∧ b ≠ dot := by
      intro b member
      have lowered : Utf8.lowerByte b ∈ Utf8.encode (Text.toAsciiLowercase tld) := by
        rw [← Utf8.map_lowerByte_encode, alike]
        exact List.mem_map_of_mem member
      rw [toAsciiLowercase_label (normal tld usable).label_chars] at lowered
      obtain ⟨c, within, inside⟩ := List.mem_flatMap.mp lowered
      have letter := (normal tld usable).chars c within
      have range : 97 ≤ c.toNat ∧ c.toNat ≤ 122 := by
        simp only [Text.isAsciiLowercase, Bool.and_eq_true, decide_eq_true_eq] at letter
        exact letter
      have single : ∀ n < 128, String.utf8EncodeChar (Char.ofNat n) = [UInt8.ofNat n] := by
        decide +kernel
      have code := single c.toNat (by omega)
      rw [Char.ofNat_toNat] at code
      have byte : (Utf8.lowerByte b).toNat = c.toNat := by
        rw [code, List.mem_singleton] at inside
        rw [inside, UInt8.toNat_ofNat']
        omega
      have small : ∀ n < 256, 97 ≤ (Utf8.lowerByte (UInt8.ofNat n)).toNat ∧
          (Utf8.lowerByte (UInt8.ofNat n)).toNat ≤ 122 → n < 128 ∧ UInt8.ofNat n ≠ dot := by
        decide +kernel
      have one := small b.toNat b.toNat_lt
      rw [UInt8.ofNat_toNat] at one
      exact one (by omega)
    refine ⟨_, (Utf8.encode_ascii fun b member => (letters b member).1).symm, fun member => ?_⟩
    rw [String.toList_ofList, List.mem_map] at member
    obtain ⟨b, within, same⟩ := member
    have other : ∀ n < 128, Char.ofNat n = '.' → UInt8.ofNat n = dot := by decide +kernel
    have found := other b.toNat (letters b within).1 same
    rw [UInt8.ofNat_toNat] at found
    exact (letters b within).2 found
  constructor
  · intro asItIs label ends
    rcases asItIs label ends with ⟨plain, -⟩ | ⟨-, agree⟩
    · exact .inl plain
    · refine or_iff_not_imp_right.mpr fun reads => ?_
      obtain ⟨other, last, tld, usable, alike⟩ := agree.mp (not_not.mp reads)
      rw [ends, Option.some.injEq] at last
      exact plainName usable (last ▸ alike)
  · intro fits label ends
    by_cases plain : IsPlain label
    · refine .inl ⟨plain, fun tld usable _ => ?_⟩
      rwa [toAsciiLowercase_label (normal tld usable).label_chars]
    · refine .inr ⟨plain, iff_of_false ((fits label ends).resolve_left plain) ?_⟩
      rintro ⟨other, last, tld, usable, alike⟩
      rw [ends, Option.some.injEq] at last
      exact plain (plainName usable (last ▸ alike))

/-! ## The length of a reply -/

omit [SerdeDocuments] [ResolverExternals] [Externals] in
/-- The octets of one address record of the type asked for. -/
theorem length_record (ttl : UInt32) (ip : Ip.Addr) :
    (record ttl ip).length = if isIpv4 ip then 16 else 28 := by
  rw [record_eq]
  have head : (recordHead ttl ip).length = 10 := rfl
  cases ip with
  | v4 => rfl
  | v6 groups =>
    rw [List.length_cons, List.length_cons, List.length_append, head, length_octets_v6]
    rfl

/-- The octets of a record of the type asked for. -/
def recordSize : QueryType → ℕ
  | .a => 16
  | .aaaa => 28
  | .other _ => 0

/-- How many addresses there are of the family asked for. -/
def DnsServer.available (server : DnsServer) (qtype : QueryType) : ℕ :=
  let ips := if server.fixedAnswers.isEmpty then server.gateways else server.fixedAnswers
  match qtype with
  | .a => ips.countP isIpv4
  | .aaaa => ips.countP fun ip => !isIpv4 ip
  | .other _ => 0

omit [SerdeDocuments] [ResolverExternals] [Externals] in
/-- The records of addresses of one family. -/
theorem length_records (ttl : UInt32) (size : ℕ) {ips : List Ip.Addr}
    (family : ∀ ip ∈ ips, (record ttl ip).length = size) :
    (ips.flatMap (record ttl)).length = size * ips.length := by
  induction ips with
  | nil => rfl
  | cons ip ips ih =>
    rw [List.flatMap_cons, List.length_append, family ip List.mem_cons_self,
      ih fun other member => family other (List.mem_cons_of_mem _ member), List.length_cons]
    ring

omit [SerdeDocuments] [ResolverExternals] [Externals] in
/-- How many addresses a name is answered with. -/
theorem count_answers (server : DnsServer) (qtype : QueryType) :
    (server.answers qtype).length = min maxAnswers (server.available qtype) := by
  unfold DnsServer.answers DnsServer.available
  cases qtype with
  | a => simp only [List.length_take, List.countP_eq_length_filter]
  | aaaa => simp only [List.length_take, List.countP_eq_length_filter]
  | other v => simp

omit [SerdeDocuments] [ResolverExternals] [Externals] in
/-- The records of an answer. -/
theorem length_answers (server : DnsServer) (qtype : QueryType) :
    ((server.answers qtype).flatMap (record server.ttl)).length =
      recordSize qtype * min maxAnswers (server.available qtype) := by
  have kept {p : Ip.Addr → Bool} {ips : List Ip.Addr} {ip : Ip.Addr}
      (member : ip ∈ (ips.filter p).take maxAnswers) : p ip = true :=
    (List.mem_filter.mp (List.mem_of_mem_take member)).2
  rw [← count_answers]
  unfold DnsServer.answers recordSize
  cases qtype with
  | a =>
    apply length_records server.ttl 16
    intro ip member
    rw [length_record, if_pos (kept member)]
  | aaaa =>
    apply length_records server.ttl 28
    intro ip member
    have other : ¬isIpv4 ip = true := by simpa using kept member
    rw [length_record, if_neg other]
  | other v => simp

omit [SerdeDocuments] [ResolverExternals] [Externals] in
/-- The reply to a Federate name has a record for each address, and no failure code when there is
an address. -/
theorem localReply_eq (server : DnsServer) (packet : Bytes) (q : DnsQuery) :
    ∃ rcode, (rcode = 0 ∨ rcode = 2) ∧ (server.answers q.qtype ≠ [] → rcode = 0) ∧
      server.localReply packet q =
        header q rcode (UInt16.ofNat (server.answers q.qtype).length) ++ q.questionBytes ++
          (server.answers q.qtype).flatMap (record server.ttl) := by
  unfold DnsServer.localReply
  by_cases failure : (server.answers q.qtype).isEmpty = true ∧ q.qtype = .a
  · have empty := List.isEmpty_iff.mp failure.1
    refine ⟨2, .inr rfl, fun filled => absurd empty filled, ?_⟩
    simp only [if_pos failure]
    rw [empty, List.flatMap_nil, List.append_nil]
    rfl
  · refine ⟨0, .inl rfl, fun _ => rfl, ?_⟩
    simp only [if_neg failure]
    rfl

omit [SerdeDocuments] [ResolverExternals] [Externals] in
/-- The length of the reply to a Federate name. -/
theorem length_localReply (server : DnsServer) {packet : Bytes} {q : DnsQuery}
    (accepted : DnsQuery.parse packet = .ok q) :
    (server.localReply packet q).length = 16 + (wireName (wireLabels packet)).length +
      recordSize q.qtype * min maxAnswers (server.available q.qtype) := by
  obtain ⟨-, -, question⟩ := accepted_labels accepted
  obtain ⟨rcode, -, -, reply⟩ := localReply_eq server packet q
  have records := length_answers server q.qtype
  have head (ancount : UInt16) : (header q rcode ancount).length = 12 := rfl
  rw [reply, List.length_append, List.length_append, head, question, records]
  omega

/-- The reply to a Federate name fits a plain datagram exactly when its name and its records take at
most 496 bytes. -/
theorem replyFits_iff {upstream : Upstream} {packet : Bytes} {q : DnsQuery}
    (accepted : DnsQuery.parse packet = .ok q)
    (federate : (exec (server.isFederateName env q.name) s).1 = .ok true) :
    (∃ reply, (exec (server.handlePacket env upstream packet) s).1 = .ok (.answered reply) ∧
      reply.length ≤ 512) ↔
      (wireName (wireLabels packet)).length +
        recordSize q.qtype * min maxAnswers (server.available q.qtype) ≤ 496 := by
  have decided : exec (server.isFederateName env q.name) s =
      (.ok true, (exec (server.isFederateName env q.name) s).2) := by rw [← federate]
  have outcome : (exec (server.handlePacket env upstream packet) s).1 =
      .ok (.answered (server.localReply packet q)) := by
    unfold DnsServer.handlePacket
    rw [accepted]
    simp only
    rw [exec_bind_ok decided]
    rfl
  have length := length_localReply server accepted
  rw [outcome]
  constructor
  · intro fits
    obtain ⟨reply, same, short⟩ := fits
    rw [Except.ok.injEq, Handling.answered.injEq] at same
    rw [← same] at short
    omega
  · intro short
    refine ⟨_, rfl, ?_⟩
    rw [length]
    omega

end Decision

end Federate.Dns

namespace Federate.Reference

open Outcome Stateful Octets Dns

/-- A question for the A records of a name. -/
def asking (labels : List Bytes) : Bytes :=
  [0, 7, 1, 0, 0, 1, 0, 0, 0, 0, 0, 0] ++ (wireName labels ++ ([0, 1, 0, 1] ++ []))

/-- What is read of a question. -/
def asked (labels : List Bytes) : DnsQuery :=
  ⟨7, joined labels, .a, wireName labels ++ [0, 1, 0, 1], true⟩

/-- A question is accepted. -/
theorem asking_accepted {labels : List Bytes} (named : IsName labels) :
    DnsQuery.parse (asking labels) = .ok (asked labels) ∧ wireLabels (asking labels) = labels := by
  have after : (asking labels).drop 12 = wireName labels ++ ([0, 1, 0, 1] ++ []) := rfl
  have long : 12 ≤ (asking labels).length := by
    rw [asking, List.length_append]
    exact Nat.le_add_right 12 _
  have identity : word16 (asking labels) 0 = 7 := rfl
  have flags : word16 (asking labels) 2 = 256 := rfl
  have one : word16 (asking labels) 4 = 1 := rfl
  have kind : QueryType.fromU16 (word16 [0, 1, 0, 1] 0) = .a := by decide
  have recursion : decide ((256 : UInt16) &&& 256 ≠ 0) = true := by decide
  constructor
  · refine parse_eq_ok.mpr ⟨labels, [0, 1, 0, 1], [], named, rfl, long, after, ?_, ?_, ?_⟩
    · rw [flags]
      decide
    · rw [one]
      decide
    · rw [identity, flags, kind, recursion, asked]
  · rw [wireLabels, questionLabels_at named after]
    rfl

/-- Labels of allowed lengths. -/
theorem isName_of_lengths {labels : List Bytes}
    (lengths : labels.all (fun label => 1 ≤ label.length ∧ label.length ≤ 63) = true) :
    IsName labels := by
  intro label member
  simpa using List.all_eq_true.mp lengths label member

/-- A server whose resolver holds the zone of the site, with eight gateways. -/
def dnsServer : DnsServer :=
  ⟨resolver, 30, List.replicate 8 (.v4 45 0 0 1), []⟩

/-- An upstream server that is not reached. -/
def noUpstream : Upstream := ⟨false, []⟩

/-- The only TLD of the site's zone. -/
theorem siteZone_usable {now : DateTime} {tld : String} :
    Usable siteZone now tld ↔ tld = "foo" := by
  constructor
  · intro usable
    obtain ⟨tldRec, found, -⟩ := usable
    by_contra other
    have missing : siteZone.lookupTld tld = none := by
      refine (Std.ExtTreeMap.getElem?_insert).trans ?_
      rw [if_neg fun same => other (compare_eq_iff_eq.mp same).symm]
      rfl
    rw [missing] at found
    cases found
  · intro same
    rw [same]
    exact ⟨official "foo", Std.ExtTreeMap.getElem?_insert_self, rfl, rfl⟩

/-- The name of a site, and its TLD behind other bytes in one label. -/
def siteLabels : List Bytes := [Utf8.encode "alice", Utf8.encode "foo"]

/-- One label that ends like a name below the TLD. -/
def dottedLabels : List Bytes := [Utf8.encode "alice.foo"]

/-- The last label of the name of the site is read as it is, so the question is answered. -/
theorem site_decides : DecidesOnTld siteZone (offline.clock siteHeld.ticks) (asking siteLabels)
    (exec (dnsServer.handlePacket offline noUpstream (asking siteLabels)) siteHeld).1 := by
  have named : IsName siteLabels := isName_of_lengths (by decide +kernel)
  obtain ⟨accepted, labels⟩ := asking_accepted named
  refine (decidesOnTld_iff rfl noUpstream accepted).mpr ?_
  rw [labels]
  intro label ends
  have same : Utf8.encode "foo" = label := Option.some.inj ends
  rw [← same]
  refine .inl ⟨⟨"foo", rfl, by decide⟩, fun tld usable _ => ?_⟩
  have lower : Text.toAsciiLowercase "foo" = "foo" := by decide
  rw [siteZone_usable.mp usable, lower]
  exact siteZone_usable.mpr rfl

/-- A name that is one label with a dot in it is answered, although no TLD is named like it. -/
theorem dottedLabel_answered : ¬∀ (server : DnsServer) (env : Environment) (s : ResolverState)
    (zone : RootZone) (key : String) (upstream : Upstream) (packet : Bytes) (q : DnsQuery),
    s.root = some zone → zone.verify key = .ok () → DnsQuery.parse packet = .ok q →
      DecidesOnTld zone (env.clock s.ticks) packet
        (exec (server.handlePacket env upstream packet) s).1 := by
  intro all
  have named : IsName dottedLabels := isName_of_lengths (by decide +kernel)
  obtain ⟨accepted, labels⟩ := asking_accepted named
  have decides := all dnsServer offline siteHeld siteZone authority.root.nodeId noUpstream _ _ rfl
    siteZone_verify accepted
  have run : lastRun dottedLabels = Utf8.encode "foo" := by decide +kernel
  have lower : Text.toAsciiLowercase "foo" = "foo" := by decide
  have reads :
      ReadsTld siteZone (offline.clock siteHeld.ticks) (wireLabels (asking dottedLabels)) := by
    rw [labels, ReadsTld, run, Utf8.fromUtf8Lossy_encode, lower]
    exact ⟨by decide +kernel, siteZone_usable.mpr rfl⟩
  rcases exec_handlePacket dnsServer offline (s := siteHeld) rfl noUpstream accepted with
    ⟨-, outcome⟩ | ⟨unread, -⟩
  · obtain ⟨label, ends, tld, usable, alike⟩ := decides.answered.mp ⟨_, outcome⟩
    rw [labels] at ends
    have same : Utf8.encode "alice.foo" = label := Option.some.inj ends
    rw [siteZone_usable.mp usable, ← same] at alike
    exact absurd alike (by decide +kernel)
  · exact unread reads

/-- Labels below the TLD of the site are those of a Federate name. -/
theorem asking_federate {labels : List Bytes} (named : IsName labels)
    (ends : labels.getLast? = some (Utf8.encode "foo")) :
    ReadsTld siteZone (offline.clock siteHeld.ticks) labels ∧
      (exec (dnsServer.isFederateName offline (asked labels).name) siteHeld).1 = .ok true := by
  have lower : Text.toAsciiLowercase "foo" = "foo" := by decide
  have reads : ReadsTld siteZone (offline.clock siteHeld.ticks) labels := by
    rw [readsTld_plain _ _ named ends (by decide), lower]
    exact siteZone_usable.mpr rfl
  obtain ⟨federate, s', decided, decides⟩ := exec_isFederateName dnsServer offline
    (show siteHeld.root = some siteZone from rfl) labels
  refine ⟨reads, ?_⟩
  have name : (asked labels).name = joined labels := rfl
  rw [name, decided, decides.mpr reads]

/-- The reply to the name of the site fits a plain datagram. -/
theorem site_replyFits : ∃ reply,
    (exec (dnsServer.handlePacket offline noUpstream (asking siteLabels)) siteHeld).1 =
      .ok (.answered reply) ∧ reply.length ≤ 512 := by
  have named : IsName siteLabels := isName_of_lengths (by decide +kernel)
  obtain ⟨accepted, labels⟩ := asking_accepted named
  refine (replyFits_iff accepted (asking_federate named rfl).2).mpr ?_
  rw [labels]
  decide +kernel

/-- A name of long labels below the TLD of the site. -/
def longLabels (n : ℕ) : List Bytes :=
  List.replicate n (List.replicate 63 0x61) ++ [Utf8.encode "foo"]

/-- Long labels are labels. -/
theorem isName_longLabels (n : ℕ) : IsName (longLabels n) := by
  intro label member
  rw [longLabels, List.mem_append, List.mem_singleton] at member
  rcases member with long | last
  · rw [List.eq_of_mem_replicate long, List.length_replicate]
    omega
  · rw [last]
    decide

/-- The length of a name of long labels. -/
theorem length_longLabels (n : ℕ) : (wireName (longLabels n)).length = 64 * n + 5 := by
  have label : (wireLabel (List.replicate 63 0x61)).length = 64 := by
    rw [wireLabel, List.length_cons, List.length_replicate]
  have last : ([Utf8.encode "foo"].flatMap wireLabel).length = 4 := rfl
  have long : ((List.replicate n (List.replicate 63 (0x61 : UInt8))).flatMap wireLabel).length =
      64 * n := by
    rw [List.length_flatMap, List.map_replicate, label, List.sum_replicate, smul_eq_mul, mul_comm]
  rw [wireName, longLabels, List.flatMap_append, List.length_append, List.length_append, long, last]
  rfl

/-- The reply to a long name, with eight addresses, does not fit a plain datagram. -/
theorem longName_overflows : ¬∀ (server : DnsServer) (env : Environment) (s : ResolverState)
    (upstream : Upstream) (packet : Bytes) (q : DnsQuery), DnsQuery.parse packet = .ok q →
      (exec (server.isFederateName env q.name) s).1 = .ok true →
        ∃ reply, (exec (server.handlePacket env upstream packet) s).1 = .ok (.answered reply) ∧
          reply.length ≤ 512 := by
  intro all
  have named := isName_longLabels 6
  have ends : (longLabels 6).getLast? = some (Utf8.encode "foo") := by
    rw [longLabels, List.getLast?_append]
    rfl
  obtain ⟨accepted, labels⟩ := asking_accepted named
  obtain ⟨reads, federate⟩ := asking_federate named ends
  obtain ⟨reply, outcome, short⟩ := all dnsServer offline siteHeld noUpstream _ _ accepted federate
  have length := length_localReply dnsServer accepted
  have records : recordSize (asked (longLabels 6)).qtype *
      min maxAnswers (dnsServer.available (asked (longLabels 6)).qtype) = 128 := rfl
  rw [labels, length_longLabels, records] at length
  rcases exec_handlePacket dnsServer offline (s := siteHeld) rfl noUpstream accepted with
    ⟨-, answered⟩ | ⟨unread, -⟩
  · rw [answered, Except.ok.injEq, Handling.answered.injEq] at outcome
    rw [← outcome, length] at short
    omega
  · rw [labels] at unread
    exact unread reads

end Federate.Reference
