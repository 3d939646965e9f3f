import Federate.Hosts
import Federate.Library.Groups
import Federate.Verif.DnsServer

/-!
# What the cleanup of the hosts file removes

A name counts as stale when the resolver answers it with an address, wherever the address comes
from, and a stale name takes its whole line with it. A name that is forwarded may be answered by
the upstream server, and a Federate name may go without an address.
-/

namespace Federate

open Outcome Stateful Octets Dns

/-! ## Names with an address -/

/-- Whether the reply to a question has an address that is read. -/
def HasAddress (reply : Bytes) : Prop := (addressesOf reply).isSome = true

section Replies

variable {packet : Bytes} {q : DnsQuery}

/-- A reply has an address when it is read as a success with one. -/
theorem hasAddress_iff {reply : Bytes} : HasAddress reply ↔
    ∃ answers, parseAnswers (reply.take 512) = .ok (0, answers) ∧ answers ≠ [] := by
  rw [HasAddress, addressesOf]
  cases read : parseAnswers (reply.take 512) with
  | error e => simp
  | ok answer =>
    obtain ⟨rcode, answers⟩ := answer
    by_cases fine : rcode = 0 ∧ answers ≠ []
    · simp [fine]
    · simp [fine]

/-- The code that is read of the first bytes of a reply is the one written. -/
theorem rcode_take {rcode : UInt8} (code : rcode = 0 ∨ rcode = 2) (ancount : UInt16) (rest : Bytes)
    {answer : UInt8 × List (Ip.Addr × UInt32)}
    (read : parseAnswers ((header q rcode ancount ++ rest).take 512) = .ok answer) :
    answer.1 = rcode ∧ (ancount = 0 → answer.2 = []) := by
  have head : (header q rcode ancount).length = 12 := rfl
  have short : (header q rcode ancount ++ rest).take 512 =
      header q rcode ancount ++ rest.take 500 := by
    rw [List.take_append, head, List.take_of_length_le (by omega)]
  rw [short] at read
  have code' := header_rcode q code ancount (rest.take 500)
  have count := (header_words q rcode ancount (rest.take 500)).2.2
  simp only [parseAnswers, bind_eq_ok, pure_eq_ok, code', count] at read
  obtain ⟨-, -, pos, -, answers, listed, same⟩ := read
  rw [← same]
  refine ⟨rfl, fun zero => ?_⟩
  rw [zero] at listed
  exact (Except.ok.inj listed).symm

/-- A failure has no address. -/
theorem servfail_noAddress (packet : Bytes) (q : DnsQuery) :
    ¬HasAddress (buildServfail packet q) := by
  rw [hasAddress_iff]
  rintro ⟨answers, read, -⟩
  have code : (0 : UInt8) = 2 := (rcode_take (.inr rfl) 0 q.questionBytes read).1
  exact absurd code (by decide)

/-- The reply to a Federate name has an address that is read exactly when there is an address of the
family, and the name and its records take at most 496 bytes. -/
theorem localReply_hasAddress (server : DnsServer) (accepted : DnsQuery.parse packet = .ok q) :
    HasAddress (server.localReply packet q) ↔ 0 < server.available q.qtype ∧
      (wireName (wireLabels packet)).length +
        recordSize q.qtype * min maxAnswers (server.available q.qtype) ≤ 496 := by
  have length := length_localReply server accepted
  have count := count_answers server q.qtype
  have most : maxAnswers = 8 := rfl
  have few : (server.answers q.qtype).length ≤ 65535 := by omega
  obtain ⟨rcode, code, success, reply⟩ := localReply_eq server packet q
  rw [hasAddress_iff, reply]
  rw [reply] at length
  by_cases empty : server.answers q.qtype = []
  · rw [empty, List.length_nil] at count
    have none : ¬0 < server.available q.qtype := by omega
    refine iff_of_false ?_ fun both => none both.1
    rintro ⟨answers, read, filled⟩
    rw [empty, List.append_assoc] at read
    exact filled ((rcode_take code 0 _ read).2 rfl)
  have some : (server.answers q.qtype).length ≠ 0 := by simpa using empty
  rw [success empty] at length ⊢
  by_cases fits : (wireName (wireLabels packet)).length +
      recordSize q.qtype * min maxAnswers (server.available q.qtype) ≤ 496
  · refine iff_of_true ⟨(server.answers q.qtype).map (·, server.ttl), ?_, by simpa using empty⟩
      ⟨by omega, fits⟩
    rw [List.take_of_length_le (by omega)]
    exact parseAnswers_at accepted (.inl rfl) _ few server.ttl
  · refine iff_of_false ?_ fun both => fits both.2
    rintro ⟨answers, read, -⟩
    exact parseAnswers_cut accepted empty few server.ttl (by decide) (by omega) _ read

end Replies

/-! ## Mappings and comments -/

/-- The names that a line maps to its address. -/
def mappingsOf (line : String) : List (String × String) :=
  match Text.splitWhitespace (Text.beforeFirst '#' line) with
  | [] => []
  | address :: names => names.map fun name => (address, name)

/-- The comment of a line, without a carriage return at its end. -/
def commentsOf (line : String) : List String :=
  match line.toList.dropWhile (· ≠ '#') with
  | [] => []
  | c :: rest => [String.ofList ((c :: rest).rdropWhile (· = Char.ofNat 13))]

/-- A line as it is read back. -/
def readBack (line : String) : String := String.ofList (Text.dropReturn line.toList)

/-- A line is read back but for a carriage return at its end. -/
theorem readBack_cases (line : String) : readBack line = line ∨
    line.toList = (readBack line).toList ++ [Char.ofNat 13] := by
  rw [readBack, Text.dropReturn]
  by_cases ends : line.toList.getLast? = some (Char.ofNat 13)
  · obtain ⟨front, split⟩ := List.getLast?_eq_some_iff.mp ends
    rw [if_pos ends, split, List.dropLast_concat, String.toList_ofList]
    exact .inr rfl
  · rw [if_neg ends, String.ofList_toList]
    exact .inl rfl

/-- Reading back keeps the words before a comment. -/
theorem words_readBack (line : String) :
    Text.splitWhitespace (Text.beforeFirst '#' (readBack line)) =
      Text.splitWhitespace (Text.beforeFirst '#' line) := by
  rcases readBack_cases line with same | split
  · rw [same]
  simp only [Text.splitWhitespace, Text.beforeFirst, Text.toList_onChars, split,
    List.takeWhile_append]
  by_cases plain : ((readBack line).toList.takeWhile (· ≠ '#')).length =
      (readBack line).toList.length
  · have whole : (readBack line).toList.takeWhile (· ≠ '#') = (readBack line).toList :=
      (List.takeWhile_prefix _).eq_of_length plain
    have tail : [Char.ofNat 13].takeWhile (· ≠ '#') = [Char.ofNat 13] := by decide
    have blank : Text.isWhitespace (Char.ofNat 13) = true := by decide
    have white : ∀ c ∈ [Char.ofNat 13], Text.isWhitespace c = true := by
      intro c member
      rw [List.mem_singleton.mp member, blank]
    have words : Text.wordsOf ([] ++ (readBack line).toList ++ [Char.ofNat 13]) =
        Text.wordsOf (readBack line).toList :=
      Text.wordsOf_surrounded (fun c member => absurd member List.not_mem_nil) white
    rw [if_pos plain, whole, tail]
    exact congrArg (List.map String.ofList) words.symm
  · rw [if_neg plain]

/-- Reading back keeps the mappings of a line. -/
theorem mappingsOf_readBack (line : String) : mappingsOf (readBack line) = mappingsOf line := by
  rw [mappingsOf, mappingsOf, words_readBack]

/-- Reading back keeps the comment of a line. -/
theorem commentsOf_readBack (line : String) : commentsOf (readBack line) = commentsOf line := by
  rcases readBack_cases line with same | split
  · rw [same]
  have tail : [Char.ofNat 13].dropWhile (· ≠ '#') = [] := by decide
  rw [commentsOf, commentsOf, split, List.dropWhile_append, tail]
  cases shape : (readBack line).toList.dropWhile (· ≠ '#') with
  | nil => rfl
  | cons c rest =>
    have dropped : (c :: (rest ++ [Char.ofNat 13])).rdropWhile (· = Char.ofNat 13) =
        (c :: rest).rdropWhile (· = Char.ofNat 13) := by
      rw [← List.cons_append]
      exact List.rdropWhile_concat_pos _ _ _ (by simp)
    simp only [List.isEmpty_cons, Bool.false_eq_true, if_false, List.cons_append, dropped]

/-- Joining and ending with a separator is ending each part with it. -/
theorem intercalate_ended {c : Char} {parts : List (List Char)} (nonempty : parts ≠ []) :
    [c].intercalate parts ++ [c] = parts.flatMap fun part => part ++ [c] := by
  induction parts with
  | nil => exact absurd rfl nonempty
  | cons part parts ih =>
    cases parts with
    | nil => simp
    | cons next parts =>
      rw [List.intercalate_cons_cons, List.append_assoc, ih (List.cons_ne_nil _ _)]
      rfl

/-- Lines that are joined with line feeds, and ended with one, are read back, or one blank line is
when there is none. -/
theorem lines_joined {kept : List String} (oneLine : ∀ line ∈ kept, Char.ofNat 10 ∉ line.toList) :
    Text.lines (String.intercalate "\n" kept ++ "\n") =
      if kept = [] then [""] else kept.map readBack := by
  by_cases empty : kept = []
  · rw [if_pos empty, empty]
    decide
  · have joined : (String.intercalate "\n" kept ++ "\n").toList =
        (kept.map String.toList).flatMap fun line => line ++ [Char.ofNat 10] := by
      rw [String.toList_append, String.toList_intercalate]
      exact intercalate_ended (List.map_eq_nil_iff.not.mpr empty)
    have written : ∀ line ∈ kept.map String.toList, Char.ofNat 10 ∉ line := by
      intro line listed
      obtain ⟨text, member, same⟩ := List.mem_map.mp listed
      exact same ▸ oneLine text member
    rw [if_neg empty, Text.lines, joined, Text.linesOf_unlines written, List.map_map, List.map_map]
    rfl

section Resolver

variable [Externals] [SerdeDocuments] [ResolverExternals] (resolver : LocalResolver)
  (env : Environment) (zone : RootZone)

/-- When a name is asked for. -/
def LocalResolver.time (name : String) : DateTime := env.clock (resolver.state name).ticks

/-- The question for a name is answered with an address: from the zone, when the name that is read
is one below a usable TLD, and the server has an address for it and room for the reply; or by the
upstream server. -/
def LocalResolver.Answered (name : String) : Prop :=
  resolver.heard name = true ∧ ∃ q, DnsQuery.parse (question name) = .ok q ∧
    ((ReadsTld zone (resolver.time env name) (wireLabels (question name)) ∧
        0 < resolver.server.available q.qtype ∧
        (wireName (wireLabels (question name))).length +
          recordSize q.qtype * min maxAnswers (resolver.server.available q.qtype) ≤ 496) ∨
      (¬ReadsTld zone (resolver.time env name) (wireLabels (question name)) ∧
        ∃ reply, (resolver.upstream name).forward q.id = some reply ∧ HasAddress reply))

variable {resolver env zone}

/-- The cleanup takes for stale the names that are answered with an address. -/
theorem localResolve_iff {name : String} (serves : (resolver.state name).root = some zone) :
    (resolver.localResolve env name).isSome = true ↔ resolver.Answered env zone name := by
  unfold LocalResolver.localResolve LocalResolver.Answered LocalResolver.time
  by_cases heard : resolver.heard name = true
  swap
  · simp [heard]
  have ready : ¬resolver.heard name = false := by simp [heard]
  rw [if_neg ready]
  cases accepted : DnsQuery.parse (question name) with
  | error e =>
    have dropped : (exec (resolver.server.handlePacket env (resolver.upstream name)
        (question name)) (resolver.state name)).1 = .ok .dropped := by
      unfold DnsServer.handlePacket
      rw [accepted]
      rfl
    rw [dropped]
    simp [Handling.reply]
  | ok q =>
    rcases exec_handlePacket resolver.server env serves (resolver.upstream name) accepted with
      ⟨reads, outcome⟩ | ⟨unread, outcome⟩
    · rw [outcome]
      have same := localReply_hasAddress resolver.server accepted
      rw [HasAddress] at same
      simpa [Handling.reply, heard, reads] using same
    · rw [outcome]
      cases sent : (resolver.upstream name).forward q.id with
      | none =>
        have failed := servfail_noAddress (question name) q
        rw [HasAddress] at failed
        simpa [Handling.reply, heard, unread, sent] using failed
      | some reply => simp [Handling.reply, heard, unread, sent, HasAddress]

/-! ## Lines -/

/-- The names of a line. -/
def namesOf (line : String) : List String := (mappingsOf line).map fun mapping => mapping.2

/-- The names are asked for one by one until one has an address. -/
theorem anyResolves_iff (names : List String) : resolver.anyResolves env names = true ↔
    ∃ name ∈ names, (resolver.localResolve env name).isSome = true := by
  induction names with
  | nil => simp [LocalResolver.anyResolves]
  | cons name names ih =>
    rw [LocalResolver.anyResolves]
    by_cases here : (resolver.localResolve env name).isSome = true
    · simp [here]
    · rw [if_neg here, ih]
      simp [here]

/-- A line is stale when one of its names has an address. -/
theorem isStale_iff {line : String} : resolver.isStale env line = true ↔
    ∃ name ∈ namesOf line, (resolver.localResolve env name).isSome = true := by
  rw [LocalResolver.isStale, namesOf, mappingsOf]
  cases Text.splitWhitespace (Text.beforeFirst '#' line) with
  | nil => simp
  | cons address names =>
    have same : names.map (Prod.snd ∘ fun name => (address, name)) = names := List.map_id names
    simp only [List.map_map]
    rw [anyResolves_iff, same]

/-- The loop sorts the lines in their order. -/
theorem sortLines_eq (lines : List String) : resolver.sortLines env lines =
    (lines.filter (!resolver.isStale env ·), lines.filter (resolver.isStale env ·)) := by
  have step : ∀ kept removed : List String, lines.foldl (fun sorted line =>
      if resolver.isStale env line then (sorted.1, sorted.2 ++ [line])
      else (sorted.1 ++ [line], sorted.2)) (kept, removed) =
        (kept ++ lines.filter (!resolver.isStale env ·),
          removed ++ lines.filter (resolver.isStale env ·)) := by
    induction lines with
    | nil => simp
    | cons line lines ih =>
      intro kept removed
      rw [List.foldl_cons]
      by_cases stale : resolver.isStale env line = true
      · simp [stale, ih]
      · simp [stale, ih]
  exact step [] []

variable (resolver env) in
/-- What the lines of the file have, when it is what a cleanup leaves. -/
theorem members_setupCleanHosts {β : Type} (members : String → List β) (blank : members "" = [])
    (kept : ∀ line, members (readBack line) = members line) {writes : HostsWrites}
    (saved : writes.backup = true) (rewritten : writes.rewrite = .ok ()) (content : String) :
    (Text.lines (resolver.setupCleanHosts env writes content)).flatMap members =
      Groups.left members (resolver.isStale env) (Text.lines content) := by
  rw [LocalResolver.setupCleanHosts, sortLines_eq, Groups.left]
  by_cases clean : (Text.lines content).filter (resolver.isStale env ·) = []
  · have all : (Text.lines content).filter (!resolver.isStale env ·) = Text.lines content := by
      rw [List.filter_eq_self]
      intro line listed
      simpa using List.filter_eq_nil_iff.mp clean line listed
    simp only [clean, if_true, all]
  · have ready : ¬writes.backup = false := by simp [saved]
    have oneLine : ∀ line ∈ (Text.lines content).filter (!resolver.isStale env ·),
        Char.ofNat 10 ∉ line.toList := by
      intro line listed
      obtain ⟨chars, member, same⟩ := List.mem_map.mp (List.mem_filter.mp listed).1
      rw [← same, String.toList_ofList]
      exact Text.feed_not_mem member
    simp only [if_neg clean, if_neg ready, rewritten, lines_joined oneLine]
    by_cases empty : (Text.lines content).filter (!resolver.isStale env ·) = []
    · rw [if_pos empty, empty, List.flatMap_singleton, blank, List.flatMap_nil]
    · rw [if_neg empty, List.flatMap_map]
      exact List.flatMap_congr fun line _ => kept line

/-! ## What is touched -/

/-- The TLD of a name of the hosts file. -/
def tldOf (name : String) : String := Text.afterLast '.' (Text.trimEndMatches '.' name)

/-- The TLD of the name is a usable one of the zone, up to the case of ASCII letters. -/
def BelowUsable (zone : RootZone) (now : DateTime) (name : String) : Prop :=
  ∃ tld, Usable zone now tld ∧ Text.toAsciiLowercase tld = Text.toAsciiLowercase (tldOf name)

open Classical in
/-- Of the mappings exactly those of some names are gone, and every comment is kept. -/
structure TouchesOnly (stale : String → Prop) (before after : String) : Prop where
  /-- The mappings of the other names are left. -/
  mappings : (Text.lines after).flatMap mappingsOf =
    ((Text.lines before).flatMap mappingsOf).filter fun mapping => ¬stale mapping.2
  /-- The comments are left. -/
  comments : (Text.lines after).flatMap commentsOf = (Text.lines before).flatMap commentsOf

/-- The cleanup touches the mappings of some names exactly when a line with a name that has an
address maps such names only and has no comment, and the other lines map no such name. -/
theorem touchesOnly_iff {writes : HostsWrites} (saved : writes.backup = true)
    (rewritten : writes.rewrite = .ok ()) (stale : String → Prop) (content : String) :
    TouchesOnly stale content (resolver.setupCleanHosts env writes content) ↔
      ∀ line ∈ Text.lines content,
        (resolver.isStale env line = true →
          (∀ name ∈ namesOf line, stale name) ∧ commentsOf line = []) ∧
        (resolver.isStale env line = false → ∀ name ∈ namesOf line, ¬stale name) := by
  classical
  have mapped := members_setupCleanHosts resolver env mappingsOf (by decide)
    mappingsOf_readBack saved rewritten content
  have noted := members_setupCleanHosts resolver env commentsOf (by decide)
    commentsOf_readBack saved rewritten content
  have all : (Text.lines content).flatMap commentsOf =
      Groups.wanted commentsOf (fun _ => False) (Text.lines content) := by
    simp [Groups.wanted]
  have maps : Groups.left mappingsOf (resolver.isStale env) (Text.lines content) =
      Groups.wanted mappingsOf (fun mapping => stale mapping.2) (Text.lines content) ↔ _ :=
    Groups.left_eq_wanted_iff
  have notes : Groups.left commentsOf (resolver.isStale env) (Text.lines content) =
      Groups.wanted commentsOf (fun _ => False) (Text.lines content) ↔ _ :=
    Groups.left_eq_wanted_iff
  have names : ∀ (p : String → Prop) (line : String),
      (∀ mapping ∈ mappingsOf line, p mapping.2) ↔ ∀ name ∈ namesOf line, p name := by
    intro p line
    rw [namesOf, List.forall_mem_map]
  have silent : ∀ line, (∀ comment ∈ commentsOf line, False) ↔ commentsOf line = [] := by
    intro line
    exact List.eq_nil_iff_forall_not_mem.symm
  constructor
  · intro touches line listed
    have pureMaps := maps.mp (mapped ▸ touches.mappings) line listed
    have pureNotes := notes.mp (by rw [← noted, touches.comments, all]) line listed
    refine ⟨fun gone => ⟨?_, ?_⟩, fun stays => ?_⟩
    · exact (names _ line).mp (pureMaps.1 gone)
    · exact (silent line).mp (pureNotes.1 gone)
    · exact (names _ line).mp (pureMaps.2 stays)
  · intro lines
    constructor
    · rw [mapped]
      refine maps.mpr fun line listed => ⟨fun gone => ?_, fun stays => ?_⟩
      · exact (names _ line).mpr ((lines line listed).1 gone).1
      · exact (names _ line).mpr ((lines line listed).2 stays)
    · rw [noted, all]
      refine notes.mpr fun line listed => ⟨fun gone => ?_, fun _ _ _ => not_false⟩
      exact (silent line).mpr ((lines line listed).1 gone).2

/-- A line is cleaned rightly: it maps names of usable TLDs only, one of which has an address, and
has no comment; or it maps no such name, and no name that has an address. -/
def CleansLine (resolver : LocalResolver) (env : Environment) (zone : RootZone) (line : String) :
    Prop :=
  ((∃ name ∈ namesOf line, resolver.Answered env zone name) ∧
      (∀ name ∈ namesOf line, BelowUsable zone (resolver.time env name) name) ∧
      commentsOf line = []) ∨
    ∀ name ∈ namesOf line, ¬resolver.Answered env zone name ∧
      ¬BelowUsable zone (resolver.time env name) name

/-- The cleanup touches exactly the mappings of names below usable TLDs if and only if every line is
cleaned rightly. -/
theorem cleanHosts_iff (serves : ∀ name, (resolver.state name).root = some zone)
    {writes : HostsWrites} (saved : writes.backup = true) (rewritten : writes.rewrite = .ok ())
    (content : String) :
    TouchesOnly (fun name => BelowUsable zone (resolver.time env name) name) content
        (resolver.setupCleanHosts env writes content) ↔
      ∀ line ∈ Text.lines content, CleansLine resolver env zone line := by
  rw [touchesOnly_iff saved rewritten]
  have stale : ∀ line, resolver.isStale env line = true ↔
      ∃ name ∈ namesOf line, resolver.Answered env zone name := by
    intro line
    simp only [isStale_iff, localResolve_iff (serves _)]
  refine forall₂_congr fun line _ => ?_
  by_cases gone : resolver.isStale env line = true
  · have answered := (stale line).mp gone
    have other : ¬∀ name ∈ namesOf line, ¬resolver.Answered env zone name ∧
        ¬BelowUsable zone (resolver.time env name) name := by
      intro none
      obtain ⟨name, listed, has⟩ := answered
      exact (none name listed).1 has
    have stays : ¬resolver.isStale env line = false := by simp [gone]
    constructor
    · intro both
      exact .inl ⟨answered, both.1 gone⟩
    · intro cleans
      exact ⟨fun _ => (cleans.resolve_right other).2, fun kept => absurd kept stays⟩
  · have stays : resolver.isStale env line = false := by simpa using gone
    have none : ¬∃ name ∈ namesOf line, resolver.Answered env zone name :=
      (stale line).not.mp gone
    constructor
    · intro both
      exact .inr fun name listed => ⟨fun has => none ⟨name, listed, has⟩, both.2 stays name listed⟩
    · intro cleans
      have kept := cleans.resolve_left fun removed => none removed.1
      exact ⟨fun removed => absurd removed gone, fun _ name listed => (kept name listed).2⟩

end Resolver

end Federate

namespace Federate.Reference

open Outcome Stateful Octets Dns

/-- A resolver that serves the zone of the site, without an upstream server. -/
def localResolver : LocalResolver :=
  ⟨dnsServer, fun _ => siteHeld, fun _ => noUpstream, fun _ => true⟩

/-- Writes that succeed. -/
def hostsWritten : HostsWrites := ⟨true, .ok ()⟩

/-- The labels of the name of the site. -/
def siteNames : List String := ["alice", "foo"]

/-- The name of the site is a name of text. -/
theorem siteNames_text : IsText siteNames := by
  intro label member
  rcases List.mem_pair.mp member with alice | foo
  · rw [alice]
    decide
  · rw [foo]
    decide

/-- The TLD of the site's name is usable. -/
theorem site_below (now : DateTime) : BelowUsable siteZone now "alice.foo" := by
  have tld : Text.toAsciiLowercase "foo" = Text.toAsciiLowercase (tldOf "alice.foo") := by decide
  exact ⟨"foo", siteZone_usable.mpr rfl, tld⟩

/-- The name of the site is answered with an address. -/
theorem site_answered : localResolver.Answered offline siteZone "alice.foo" := by
  have name : String.intercalate "." siteNames = "alice.foo" := by decide
  have nonempty : siteNames ≠ [] := List.cons_ne_nil _ _
  obtain ⟨bytes, parsed⟩ := parse_buildQuery 0x1a2b 1 nonempty siteNames_text
  have labels := wireLabels_buildQuery 0x1a2b 1 nonempty siteNames_text
  have short : (buildQuery 0x1a2b "alice.foo" 1).length ≤ 1500 := by decide +kernel
  have whole : question "alice.foo" = buildQuery 0x1a2b "alice.foo" 1 :=
    List.take_of_length_le short
  rw [name, ← whole] at parsed labels
  have stock : localResolver.server.available (.fromU16 1) = 8 := by decide
  have room : (wireName (siteNames.map Utf8.encode)).length + recordSize (.fromU16 1) *
      min maxAnswers 8 ≤ 496 := by decide +kernel
  refine ⟨rfl, _, parsed, .inl ⟨?_, ?_, ?_⟩⟩
  · have lower : Text.toAsciiLowercase "foo" = "foo" := by decide
    rw [labels]
    refine (readsTld_plain _ _ (isName_encode siteNames_text) rfl (by decide)).mpr ?_
    rw [lower]
    exact siteZone_usable.mpr rfl
  · show 0 < localResolver.server.available (.fromU16 1)
    omega
  · show _ + recordSize (.fromU16 1) *
      min maxAnswers (localResolver.server.available (.fromU16 1)) ≤ 496
    rwa [labels, stock]

/-- A line with a comment and the name of another machine. -/
def sharedLine : String := "127.0.0.1 alice.foo printer # lab"

/-- A file with only the name of the site is cleaned rightly. -/
theorem siteLine_cleaned : TouchesOnly
    (fun name => BelowUsable siteZone (localResolver.time offline name) name)
    "127.0.0.1 alice.foo" (localResolver.setupCleanHosts offline hostsWritten
      "127.0.0.1 alice.foo") := by
  refine (cleanHosts_iff (fun _ => rfl) rfl rfl _).mpr fun line listed => ?_
  have lines : Text.lines "127.0.0.1 alice.foo" = ["127.0.0.1 alice.foo"] := by decide
  have names : namesOf "127.0.0.1 alice.foo" = ["alice.foo"] := by decide
  have comments : commentsOf "127.0.0.1 alice.foo" = [] := by decide
  rw [lines, List.mem_singleton] at listed
  rw [listed, CleansLine, names, comments]
  refine .inl ⟨⟨_, List.mem_singleton_self _, site_answered⟩, fun name member => ?_, rfl⟩
  rw [List.mem_singleton.mp member]
  exact site_below _

/-- Another name on the line of a stale one is lost. -/
theorem sharedLine_lost : ¬∀ (resolver : LocalResolver) (env : Environment) (zone : RootZone)
    (key : String) (content : String) (writes : HostsWrites),
    zone.verify key = .ok () → (∀ name, (resolver.state name).root = some zone) →
      writes.backup = true → writes.rewrite = .ok () →
        TouchesOnly (fun name => BelowUsable zone (resolver.time env name) name) content
          (resolver.setupCleanHosts env writes content) := by
  intro all
  have touches := all localResolver offline siteZone authority.root.nodeId sharedLine hostsWritten
    siteZone_verify (fun _ => rfl) rfl rfl
  have lines : Text.lines sharedLine = [sharedLine] := by decide
  have names : namesOf sharedLine = ["alice.foo", "printer"] := by decide
  have line := (touchesOnly_iff rfl rfl _ _).mp touches sharedLine (by rw [lines]; simp)
  have stale : localResolver.isStale offline sharedLine = true := by
    refine isStale_iff.mpr ⟨"alice.foo", by rw [names]; simp, ?_⟩
    exact (localResolve_iff rfl).mpr site_answered
  obtain ⟨tld, usable, same⟩ := (line.1 stale).1 "printer" (by rw [names]; simp)
  rw [siteZone_usable.mp usable] at same
  exact absurd same (by decide)

end Federate.Reference
