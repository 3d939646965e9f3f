import Federate.Library.Url
import Federate.Verif.DirectoryTable

/-!
# Health endpoints

A registration is accepted when the host of its health endpoint, as the directory splits it, is one
of the node's declared addresses. An HTTP client splits the same text by the rules for URLs: behind
a user name stands another host.
-/

namespace Federate

open Outcome

/-- The URLs that are fetched from an endpoint: itself, and a path behind it. -/
inductive Fetched (endpoint : String) : String → Prop
  | plain : Fetched endpoint endpoint
  | appended (path : String) (absolute : path.toList.head? = some '/') :
      Fetched endpoint (endpoint ++ path)
  | trimmed (path : String) (absolute : path.toList.head? = some '/') :
      Fetched endpoint (Text.trimEndMatches '/' endpoint ++ path)

namespace NodeRegistration

/-- A host that is one of the node's declared addresses. -/
def Declares (r : NodeRegistration) (host : Url.Host) : Prop :=
  ∃ ip ∈ r.publicIps, ∃ a, Ip.parse ip = some a ∧ host = .ip a

/-- Whatever is fetched from the health endpoint, it is fetched from a declared address. -/
def FetchesOwn (parser : Url.HostParser) (r : NodeRegistration) : Prop :=
  ∀ url, Fetched r.healthEndpoint url → ∀ host, Url.host parser url = some host → r.Declares host

/-- Where the authority of the endpoint has a user name, a declared address stands behind it, or no
host at all. -/
def OwnBehindUserinfo (parser : Url.HostParser) (r : NodeRegistration) : Prop :=
  ∀ behind ∈ ["", "/"], ∀ authority, Url.authority (r.healthEndpoint ++ behind) = some authority →
    '@' ∈ authority → ∀ host, Url.hostOf parser (Url.afterUserinfo authority) = some host →
      r.Declares host

end NodeRegistration

/-! ## The text of an endpoint -/

/-- A character of an address is none of the characters below and beside them. -/
theorem ofAddr_ne {c d : Char} (member : Ip.OfAddr c)
    (apart : d ∈ ['/', Char.ofNat 0x5C, '?', '#', '[', ']', '@']) : c ≠ d := by
  have range := member.range
  simp only [List.mem_cons, List.not_mem_nil, or_false] at apart
  intro same
  rw [same] at range
  revert range
  rcases apart with rfl | rfl | rfl | rfl | rfl | rfl | rfl <;> decide

/-- A character of an address is solid. -/
theorem ofAddr_solid {c : Char} (member : Ip.OfAddr c) : Url.isBlank c = false := by
  simp only [Url.isBlank, decide_eq_false_iff_not]
  rcases member.range with rfl | rfl | digit
  · decide
  · decide
  · omega

/-- A character of an address does not end an authority. -/
theorem ofAddr_inner {c : Char} (member : Ip.OfAddr c) : Url.endsAuthority c = false := by
  have slash := ofAddr_ne (d := '/') member (by simp)
  have backslash := ofAddr_ne (d := Char.ofNat 0x5C) member (by simp)
  have query := ofAddr_ne (d := '?') member (by simp)
  have fragment := ofAddr_ne (d := '#') member (by simp)
  simp [Url.endsAuthority, Url.isSlash, slash, backslash, query, fragment]

/-- How an endpoint that passes the check begins: with the address, up to a port or a path, or in a
bracket. -/
inductive Begins (ip : String) (a : Ip.Addr) : List Char → List Char → Prop
  | four (parsed : Ip.parseIpv4 ip = some a) {tail : List Char}
      (ends : ∀ c, tail.head? = some c → c ∈ [':', '/']) : Begins ip a ip.toList tail
  | bracket {tail : List Char} (ends : ∀ c, tail.head? = some c → c ∈ [']', '/']) :
      Begins ip a ('[' :: ip.toList) tail

/-- What follows the part before the first separator begins with the separator. -/
theorem split_before (c : Char) (s : String) : ∃ tail,
    s.toList = (Text.beforeFirst c s).toList ++ tail ∧ ∀ first, tail.head? = some first →
      first = c := by
  refine ⟨s.toList.dropWhile (· ≠ c), ?_, fun first head => ?_⟩
  · rw [Text.beforeFirst, Text.toList_onChars, List.takeWhile_append_dropWhile]
  · have fails := List.head?_dropWhile_not (fun other => decide (other ≠ c)) s.toList
    rw [head] at fails
    simpa using fails

/-- Two tails, one behind the other, begin with one of their separators. -/
theorem head?_tails {c d first : Char} {tail tail' : List Char}
    (begins : ∀ first, tail.head? = some first → first = c)
    (begins' : ∀ first, tail'.head? = some first → first = d)
    (head : (tail ++ tail').head? = some first) : first ∈ [c, d] := by
  rw [List.head?_append] at head
  rcases Option.or_eq_some_iff.mp head with own | ⟨-, later⟩
  · rw [begins first own]
    exact List.mem_cons_self
  · rw [begins' first later]
    exact List.mem_cons_of_mem _ List.mem_cons_self

/-- An endpoint whose host is an address. -/
theorem begins_of_host {endpoint ip : String} {a : Ip.Addr}
    (found : healthEndpointHost endpoint = some ip) (parsed : Ip.parse ip = some a) :
    ∃ scheme front tail, (scheme = "http://" ∨ scheme = "https://") ∧
      endpoint.toList = scheme.toList ++ (front ++ tail) ∧ Begins ip a front tail := by
  simp only [healthEndpointHost, Option.bind_eq_bind, Option.bind_eq_some_iff,
    Option.or_eq_some_iff, Text.stripPrefix_eq_some, Option.ite_none_left_eq_some,
    Option.some.injEq] at found
  obtain ⟨rest, begins, -, host⟩ := found
  have known : ∃ scheme, (scheme = "http://" ∨ scheme = "https://") ∧ endpoint = scheme ++ rest := by
    rcases begins with http | ⟨-, https⟩
    · exact ⟨_, .inl rfl, http⟩
    · exact ⟨_, .inr rfl, https⟩
  obtain ⟨scheme, known, whole⟩ := known
  obtain ⟨path, parts, slash⟩ := split_before '/' rest
  generalize Text.beforeFirst '/' rest = authority at host parts
  unfold authorityHost at host
  split at host
  · rename_i inside bracketed
    have opening := congrArg String.toList (Text.stripPrefix_eq_some.mp bracketed)
    obtain ⟨tail, inner, closing⟩ := split_before ']' inside
    refine ⟨scheme, '[' :: ip.toList, tail ++ path, known, ?_,
      .bracket fun c => head?_tails closing slash⟩
    rw [whole, String.toList_append, parts, opening, String.toList_append, inner, host]
    simp
  · obtain ⟨tail, inner, colon⟩ := split_before ':' authority
    refine ⟨scheme, ip.toList, tail ++ path, known, ?_, ?_⟩
    · rw [whole, String.toList_append, parts, inner, host, List.append_assoc]
    · rcases Ip.parse_cases parsed with four | six
      · exact .four four fun c => head?_tails colon slash
      · -- The host ends before a colon, and an IPv6 address has one.
        have colon := (Ip.parseIpv6_chars six).2
        rw [← host, Text.beforeFirst, Text.toList_onChars] at colon
        have before := List.mem_takeWhile_imp colon
        simp at before

/-- The front of an endpoint is solid, and belongs to the authority. -/
theorem Begins.front {ip : String} {a : Ip.Addr} (parsed : Ip.parse ip = some a)
    {front tail : List Char} (begins : Begins ip a front tail) : front ≠ [] ∧
      (∀ c ∈ front, Url.isBlank c = false) ∧ ∀ c ∈ front, Url.endsAuthority c = false := by
  have chars := Ip.parse_chars parsed
  have solid : ∀ c ∈ ip.toList, Url.isBlank c = false := fun c member =>
    ofAddr_solid (chars c member)
  have inner : ∀ c ∈ ip.toList, Url.endsAuthority c = false := fun c member =>
    ofAddr_inner (chars c member)
  cases begins with
  | four four ends =>
    refine ⟨fun empty => ?_, solid, inner⟩
    have none : Ip.parseIpv4 "" = none := by decide
    rw [String.toList_eq_nil_iff.mp empty, none] at four
    cases four
  | bracket ends =>
    refine ⟨List.cons_ne_nil _ _, List.forall_mem_cons.mpr ⟨by decide, solid⟩,
      List.forall_mem_cons.mpr ⟨by decide, inner⟩⟩

/-- What is left of a tail in the authority begins with its separator. -/
theorem head?_takeWhile {c first : Char} {tail : List Char} (solid : Url.isBlank c = false)
    (ends : ∀ first, tail.head? = some first → first ∈ [c, '/'])
    (head : ((Url.cleanTail tail).takeWhile fun c => !Url.endsAuthority c).head? = some first) :
    first = c := by
  have slash : Url.isBlank '/' = false := by decide
  have marks : ∀ mark ∈ [c, '/'], Url.isBlank mark = false := by
    simp [solid, slash]
  rw [List.head?_takeWhile, Option.filter_eq_some_iff] at head
  have member := Url.cleanTail_head marks ends first head.1
  simp only [List.mem_cons, List.not_mem_nil, or_false] at member
  rcases member with own | slash
  · exact own
  · have ends : Url.endsAuthority '/' = true := by decide
    have inner := head.2
    rw [slash, ends] at inner
    cases inner

/-- The text in front of a closing bracket, read again. -/
theorem takeWhile_bracket {text tail : List Char} (plain : ∀ c ∈ text, c ≠ ']')
    (closing : ∀ first, tail.head? = some first → first = ']') :
    (text ++ tail).takeWhile (· ≠ ']') = text := by
  rw [List.takeWhile_append_of_pos (by simpa using plain)]
  cases tail with
  | nil => simp
  | cons c rest => simp [closing c rfl]

/-- Without a user name, the host of the authority is the address. -/
theorem Begins.host {ip : String} {a : Ip.Addr} (parsed : Ip.parse ip = some a)
    {front tail : List Char} (begins : Begins ip a front tail) {parser : Url.HostParser}
    {host : Url.Host}
    (absent : '@' ∉ front ++ (Url.cleanTail tail).takeWhile fun c => !Url.endsAuthority c)
    (found : Url.hostOf parser (Url.afterUserinfo
      (front ++ (Url.cleanTail tail).takeWhile fun c => !Url.endsAuthority c)) = some host) :
    host = .ip a := by
  have chars := Ip.parse_chars parsed
  rw [Url.afterUserinfo_eq_self absent] at found
  simp only [Url.hostOf, Option.ite_none_left_eq_some] at found
  have read := found.2
  cases begins with
  | four four ends =>
    have plain : ∀ c ∈ ip.toList, c ≠ ':' ∧ c ≠ '[' ∧ c ≠ ']' := by
      intro c member
      refine ⟨fun colon => ?_, ofAddr_ne (chars c member) (by simp),
        ofAddr_ne (chars c member) (by simp)⟩
      have digit := Ip.parseIpv4_chars four c member
      rw [colon] at digit
      exact absurd digit (by simp [Ip.OfIpv4, Hex.digitValue])
    rw [Url.splitPort_append plain fun c => head?_takeWhile (by decide) ends,
      String.ofList_toList, parser.ipv4 ip a four, Option.some.injEq] at read
    exact read.symm
  | bracket ends =>
    have closing (first : Char)
        (head : ((Url.cleanTail tail).takeWhile fun c => !Url.endsAuthority c).head? =
          some first) : first = ']' :=
      head?_takeWhile (by decide) ends head
    generalize (Url.cleanTail tail).takeWhile (fun c => !Url.endsAuthority c) = behind at *
    have plain : ∀ c ∈ ip.toList, c ≠ ']' := fun c member => ofAddr_ne (chars c member) (by simp)
    have opened : (Url.splitPort false ('[' :: ip.toList ++ behind)).1 =
        '[' :: (ip.toList ++ (Url.splitPort true behind).1) := by
      rw [List.cons_append, Url.splitPort, if_neg (by decide), if_pos rfl]
      exact congrArg _ (Url.splitPort_inside plain)
    have begins : (Url.splitPort true behind).1.head? = behind.head? := by
      cases behind with
      | nil => rfl
      | cons c rest => rw [Url.splitPort, if_neg (by simp)]; rfl
    rw [opened] at read
    obtain ⟨inside, b, shape, six, rfl⟩ := parser.ipv6 _ _ (by simp) read
    -- Both texts run up to the first closing bracket.
    have same : ip.toList = inside.toList := by
      have text := congrArg String.toList shape
      simp only [String.toList_ofList, String.toList_append] at text
      have upTo := congrArg (List.takeWhile (· ≠ ']')) (List.cons.inj text).2
      have inner : ∀ c ∈ inside.toList, c ≠ ']' := fun c member =>
        ofAddr_ne ((Ip.parseIpv6_chars six).1 c member) (by simp)
      rw [takeWhile_bracket plain fun first head => closing first (begins ▸ head)] at upTo
      rw [upTo]
      exact takeWhile_bracket inner (by simp)
    rw [Ip.parse_of_parseIpv6 (String.toList_inj.mp same ▸ six) parsed]

/-- An endpoint begins as it did when a slash or nothing follows it. -/
theorem Begins.followed {ip : String} {a : Ip.Addr} {front tail behind : List Char}
    (begins : Begins ip a front tail) (slash : ∀ c, behind.head? = some c → c = '/') :
    Begins ip a front (tail ++ behind) := by
  have either {mark c : Char} (ends : ∀ c, tail.head? = some c → c ∈ [mark, '/'])
      (head : (tail ++ behind).head? = some c) : c ∈ [mark, '/'] := by
    rw [List.head?_append] at head
    rcases Option.or_eq_some_iff.mp head with own | ⟨-, later⟩
    · exact ends c own
    · rw [slash c later]
      simp
  cases begins with
  | four four ends => exact .four four fun c => either ends
  | bracket ends => exact .bracket fun c => either ends

/-! ## What is fetched from an endpoint -/

section Fetches

variable {scheme url : String} {front tail : List Char}

/-- A path behind an endpoint does not change its authority, but for the blanks at its end. -/
theorem Fetched.authority (known : scheme = "http://" ∨ scheme = "https://")
    (nonempty : front ≠ []) (solid : ∀ c ∈ front, Url.isBlank c = false)
    (inner : ∀ c ∈ front, Url.endsAuthority c = false) {endpoint : String}
    (whole : endpoint.toList = scheme.toList ++ (front ++ tail)) (fetched : Fetched endpoint url) :
    ∃ behind ∈ ["", "/"], Url.authority url = Url.authority (endpoint ++ behind) := by
  have behindSlash (tail' path : List Char) (s : String)
      (split : s.toList = scheme.toList ++ (front ++ (tail' ++ '/' :: path))) :
      Url.authority s = some (front ++
        (tail'.filter fun c => !Url.isBreak c).takeWhile fun c => !Url.endsAuthority c) := by
    rw [Url.authority_eq known solid inner nonempty split, Url.cleanTail_slash]
  have slashed : Url.authority (endpoint ++ "/") = some (front ++
      (tail.filter fun c => !Url.isBreak c).takeWhile fun c => !Url.endsAuthority c) := by
    refine behindSlash tail [] _ ?_
    rw [String.toList_append, whole]
    simp
  cases fetched with
  | plain => exact ⟨"", List.mem_cons_self, by rw [String.append_empty]⟩
  | appended path absolute =>
    obtain ⟨rest, shape⟩ : ∃ rest, path.toList = '/' :: rest := List.head?_eq_some_iff.mp absolute
    refine ⟨"/", by simp, ?_⟩
    rw [slashed]
    refine behindSlash tail rest _ ?_
    rw [String.toList_append, whole, shape]
    simp
  | trimmed path absolute =>
    obtain ⟨rest, shape⟩ : ∃ rest, path.toList = '/' :: rest := List.head?_eq_some_iff.mp absolute
    refine ⟨"/", by simp, ?_⟩
    have kept : (scheme.toList ++ front).rdropWhile (· = '/') = scheme.toList ++ front := by
      have stays : front.rdropWhile (· = '/') = front := by
        refine Url.rdropWhile_eq_self fun c member => ?_
        have noSlash := inner c member
        simp only [Url.endsAuthority, Url.isSlash, Bool.or_eq_false_iff] at noSlash
        exact noSlash.1.1.1
      rw [Url.rdropWhile_append_of_ne_nil (by rw [stays]; exact nonempty), stays]
    have left : (Text.trimEndMatches '/' endpoint).toList =
        scheme.toList ++ (front ++ tail.rdropWhile (· = '/')) := by
      rw [Text.trimEndMatches, Text.toList_onChars, whole, ← List.append_assoc,
        Url.rdropWhile_append kept, List.append_assoc]
    rw [behindSlash (tail.rdropWhile (· = '/')) rest _ (by
      rw [String.toList_append, left, shape]
      simp), slashed]
    -- The slashes that were removed ended the authority.
    have removed : ((tail.rdropWhile (· = '/')).filter fun c => !Url.isBreak c).takeWhile
        (fun c => !Url.endsAuthority c) =
        (tail.filter fun c => !Url.isBreak c).takeWhile fun c => !Url.endsAuthority c := by
      have parts := List.rdropWhile_append_rtakeWhile (p := fun c => decide (c = '/')) (l := tail)
      cases slashes : tail.rtakeWhile (· = '/') with
      | nil =>
        rw [slashes, List.append_nil] at parts
        rw [parts]
      | cons c more =>
        have slash : c = '/' := by
          have member : c ∈ tail.rtakeWhile (· = '/') := by
            rw [slashes]
            exact List.mem_cons_self
          simpa using List.mem_rtakeWhile_imp member
        rw [slashes, slash] at parts
        rw [← Url.takeWhile_slash more, parts]
    rw [removed]

end Fetches

namespace NodeRegistration

variable [Externals] {r : NodeRegistration}

/-- What is fetched from the health endpoint of a verified registration is fetched from a declared
address exactly when no other host stands behind a user name in it. -/
theorem fetchesOwn_iff (parser : Url.HostParser) (verified : r.verify = .ok ()) :
    r.FetchesOwn parser ↔ r.OwnBehindUserinfo parser := by
  constructor
  · intro own behind listed authority found user host read
    have fetched : Fetched r.healthEndpoint (r.healthEndpoint ++ behind) := by
      simp only [List.mem_cons, List.not_mem_nil, or_false] at listed
      rcases listed with rfl | rfl
      · rw [String.append_empty]
        exact .plain
      · exact .appended "/" rfl
    refine own _ fetched host ?_
    rw [Url.host, found]
    exact read
  · intro own url fetched host read
    obtain ⟨-, -, -, parse, ip, listed, hosted⟩ := verify_eq_ok.mp verified
    obtain ⟨a, parsed⟩ := parse ip listed
    obtain ⟨scheme, front, tail, known, whole, begins⟩ := begins_of_host hosted parsed
    obtain ⟨nonempty, solid, inner⟩ := begins.front parsed
    obtain ⟨behind, suffix, same⟩ := fetched.authority known nonempty solid inner whole
    rw [Url.host, same, Option.bind_eq_some_iff] at read
    obtain ⟨authority, found, read⟩ := read
    by_cases user : '@' ∈ authority
    · exact own behind suffix authority found user host read
    · refine ⟨ip, listed, a, parsed, ?_⟩
      have slash : ∀ c, behind.toList.head? = some c → c = '/' := by
        simp only [List.mem_cons, List.not_mem_nil, or_false] at suffix
        rcases suffix with rfl | rfl <;> simp
      have split : (r.healthEndpoint ++ behind).toList =
          scheme.toList ++ (front ++ (tail ++ behind.toList)) := by
        rw [String.toList_append, whole]
        simp
      rw [Url.authority_eq known solid inner nonempty split] at found
      obtain rfl := Option.some.inj found
      exact (begins.followed slash).host parsed user read

end NodeRegistration

end Federate

namespace Federate.Reference

/-- A reader of hosts: an IPv6 address in brackets, four decimal numbers, or a name. -/
def readHost (s : String) : Option Url.Host :=
  match s.toList with
  | [] => none
  | first :: rest =>
    if first = '[' then
      if rest.getLast? = some ']' then
        (Ip.parseIpv6 (String.ofList rest.dropLast)).map .ip
      else none
    else
      match Ip.parseIpv4 s with
      | some a => some (.ip a)
      | none => some (.domain s)

/-- Four decimal numbers are read as an address. -/
theorem readHost_ipv4 (s : String) (a : Ip.Addr) (parsed : Ip.parseIpv4 s = some a) :
    readHost s = some (.ip a) := by
  unfold readHost
  cases chars : s.toList with
  | nil =>
    have nothing : Ip.parseIpv4 "" = none := by decide
    rw [String.toList_eq_nil_iff.mp chars, nothing] at parsed
    cases parsed
  | cons first rest =>
    have member : first ∈ s.toList := by
      rw [chars]
      exact List.mem_cons_self
    have plain : first ≠ '[' :=
      ofAddr_ne (.inl (Ip.parseIpv4_chars parsed first member)) (by simp)
    simp [plain, parsed]

/-- A text that begins with a bracket is read as an address in brackets. -/
theorem readHost_ipv6 (s : String) (host : Url.Host) (opening : s.toList.head? = some '[')
    (read : readHost s = some host) :
    ∃ inside a, s = "[" ++ inside ++ "]" ∧ Ip.parseIpv6 inside = some a ∧ host = .ip a := by
  unfold readHost at read
  cases chars : s.toList with
  | nil =>
    rw [chars] at opening
    cases opening
  | cons first rest =>
    rw [chars] at opening read
    obtain rfl := Option.some.inj opening
    simp only [if_pos, Option.ite_none_right_eq_some, Option.map_eq_some_iff] at read
    obtain ⟨closing, a, six, same⟩ := read
    refine ⟨String.ofList rest.dropLast, a, ?_, six, same.symm⟩
    have parts : rest.dropLast ++ [']'] = rest := List.dropLast_append_getLast? _ closing
    have ends : "]".toList = [']'] := by decide
    refine String.toList_inj.mp ?_
    rw [chars, String.toList_append, String.toList_append, ends, List.append_assoc]
    simp [parts]

/-- The reader as a parameter of URLs. -/
def hostReader : Url.HostParser where
  parse := readHost
  ipv4 := readHost_ipv4
  ipv6 := readHost_ipv6

/-- A registration whose endpoint has no user name is fetched from its declared address. -/
theorem ownEndpoint_fetchesOwn : (selfSigned (identity 9) .dns).FetchesOwn hostReader := by
  refine (NodeRegistration.fetchesOwn_iff hostReader (selfSigned_verify _ _)).mpr ?_
  intro behind listed authority found user
  have plain : ∀ suffix ∈ ["", "/"],
      Url.authority ("http://203.0.113.5:8080" ++ suffix) = some "203.0.113.5:8080".toList := by
    decide +kernel
  have same : "203.0.113.5:8080".toList = authority :=
    Option.some.inj ((plain behind listed).symm.trans found)
  rw [← same] at user
  exact absurd user (by decide)

/-- A registration whose declared address is a user name in its endpoint. -/
def disguised : NodeRegistration :=
  let unsigned : NodeRegistration :=
    { nodeId := (identity 9).nodeId, publicKey := (identity 9).nodeId, roles := [.dns]
      publicIps := ["1.2.3.4"], region := "eu", version := "1", capacity := ⟨0, 0⟩
      healthEndpoint := "http://1.2.3.4:80@169.254.169.254/", nativePort := none
      registeredAt := "1970-01-01T00:00:00+00:00", signatureAlgorithm := signatureAlgorithm
      signature := none }
  { unsigned with signature := some ((identity 9).sign unsigned.signableBytes) }

/-- It verifies, and its endpoint is fetched from another address. -/
theorem disguised_escapes : disguised.verify = .ok () ∧ ¬disguised.FetchesOwn hostReader := by
  constructor
  · refine NodeRegistration.verify_eq_ok.mpr ⟨rfl, by simp [disguised], ⟨_, rfl, ?_⟩, ?_, ?_⟩
    · exact verifySignature_sign signaturesVerify (identity 9) _
    · have parsed : (Ip.parse "1.2.3.4").isSome = true := by decide +kernel
      simpa [disguised] using Option.isSome_iff_exists.mp parsed
    · have host : healthEndpointHost "http://1.2.3.4:80@169.254.169.254/" = some "1.2.3.4" := by
        decide +kernel
      exact ⟨"1.2.3.4", by simp [disguised], host⟩
  · intro own
    have authority : Url.authority "http://1.2.3.4:80@169.254.169.254/" =
        some "1.2.3.4:80@169.254.169.254".toList := by decide +kernel
    have behind : Url.splitPort false
        (Url.afterUserinfo "1.2.3.4:80@169.254.169.254".toList) =
          ("169.254.169.254".toList, none) := by decide +kernel
    have address : Ip.parseIpv4 "169.254.169.254" = some (.v4 169 254 169 254) := by
      decide +kernel
    have host : Url.host hostReader disguised.healthEndpoint =
        some (.ip (.v4 169 254 169 254)) := by
      change (Url.authority "http://1.2.3.4:80@169.254.169.254/").bind _ = _
      rw [authority, Option.bind_some, Url.hostOf, behind]
      simp [hostReader, readHost_ipv4 _ _ address]
    obtain ⟨ip, listed, a, parsed, same⟩ := own _ .plain _ host
    have declared : ip = "1.2.3.4" := by simpa [disguised] using listed
    have other : Ip.parse "1.2.3.4" = some (.v4 1 2 3 4) := by decide +kernel
    rw [declared, other] at parsed
    rw [← Option.some.inj parsed] at same
    simp at same

end Federate.Reference
