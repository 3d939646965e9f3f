import Federate.Library.Cut
import Federate.Uri
import Federate.Verif.Names

/-!
# Two spellings of an address

An address that is parsed is printed in its canonical form, which is read back unless it ends in
white space: the fragment is cut off after trimming, so that white space before it remains. A host
with a path and a query is the same address as the native spelling of both, up to the length of the
path, which only the native parser limits.
-/

namespace Federate

open Outcome

namespace FederateUri

/-! ## The parts of an address -/

/-- A path that is not empty, and the query. -/
def target (pathAndQuery : String) : String × Option String :=
  (if (splitQuery pathAndQuery).1 = "" then "/" else (splitQuery pathAndQuery).1,
    (splitQuery pathAndQuery).2)

/-- Text that can be an authority. -/
structure IsAuthority (s : String) : Prop where
  /-- It does not end the authority. -/
  open_ : ∀ c ∈ s.toList, endsAuthority c = false
  /-- There is no user. -/
  noUser : '@' ∉ s.toList
  /-- There is no port. -/
  noPort : ':' ∉ s.toList

/-- Text that can follow an authority. -/
def IsTail (s : String) : Prop := ∀ c, s.toList.head? = some c → endsAuthority c = true

variable {a t input host pq : String} {uri : FederateUri}

/-- The authority of a text is what stands before the tail. -/
theorem authority_append (front : IsAuthority a) (back : IsTail t) : authority (a ++ t) = a := by
  have stops : t.toList.takeWhile (fun c => !endsAuthority c) = [] := by
    cases shape : t.toList with
    | nil => rfl
    | cons c rest => exact List.takeWhile_cons_of_neg (by simp [back c (by simp [shape])])
  rw [← String.toList_inj, authority, Text.toList_onChars, String.toList_append,
    List.takeWhile_append_of_pos (by intro c member; simp [front.open_ c member]), stops,
    List.append_nil]

/-- The tail of a text is what follows the authority. -/
theorem tail_append (front : IsAuthority a) (back : IsTail t) : tail (a ++ t) = t := by
  have stops : t.toList.dropWhile (fun c => !endsAuthority c) = t.toList := by
    cases shape : t.toList with
    | nil => rfl
    | cons c rest => exact List.dropWhile_cons_of_neg (by simp [back c (by simp [shape])])
  rw [← String.toList_inj, tail, Text.toList_onChars, String.toList_append,
    List.dropWhile_append_of_pos (by intro c member; simp [front.open_ c member]), stops]

/-- A text is its authority and its tail. -/
theorem authority_tail (rest : String) : authority rest ++ tail rest = rest := by
  rw [← String.toList_inj, String.toList_append, authority, tail, Text.toList_onChars,
    Text.toList_onChars, List.takeWhile_append_dropWhile]

/-- The tail of a text begins with what ends the authority. -/
theorem isTail_tail (rest : String) : IsTail (tail rest) := by
  intro c first
  rw [tail, Text.toList_onChars] at first
  have stopped := List.head?_dropWhile_not (fun c => !endsAuthority c) rest.toList
  rw [first] at stopped
  simpa using stopped

/-- Nothing ends an authority within it. -/
theorem authority_open (rest : String) :
    ∀ c ∈ (authority rest).toList, endsAuthority c = false := by
  intro c member
  rw [authority, Text.toList_onChars] at member
  simpa using List.mem_takeWhile_imp member

/-- A tail up to the fragment is a tail. -/
theorem IsTail.beforeFirst (back : IsTail t) : IsTail (Text.beforeFirst '#' t) := by
  intro c first
  rw [Text.beforeFirst, Text.toList_onChars] at first
  cases shape : t.toList with
  | nil => simp [shape] at first
  | cons head rest =>
    by_cases hash : head = '#'
    · simp [shape, hash] at first
    · have same : head = c := by simpa [shape, hash] using first
      exact same ▸ back head (by simp [shape])

/-- A text has no query, or it has one after its first question mark. -/
theorem splitQuery_cases (t : String) : '?' ∉ t.toList ∧ splitQuery t = (t, none) ∨
    ∃ p q, t = p ++ ("?" ++ q) ∧ '?' ∉ p.toList ∧
      splitQuery t = (p, if q = "" then none else some q) := by
  unfold splitQuery
  cases found : Text.afterFirst '?' t with
  | none => exact .inl ⟨Text.afterFirst_eq_none.mp found, rfl⟩
  | some q =>
    have split := Text.split_afterFirst found
    refine .inr ⟨Text.beforeFirst '?' t, q, ?_, split.2, ?_⟩
    · rw [← String.append_assoc]
      exact split.1
    · by_cases empty : q = ""
      · simp [empty]
      · simp [empty]

/-- The path and the query of an address. -/
structure IsTarget (path : String) (query : Option String) : Prop where
  /-- The path is absolute. -/
  absolute : path.toList.head? = some '/'
  /-- The query is not in the path. -/
  plain : '?' ∉ path.toList
  /-- An empty query is none. -/
  full : query ≠ some ""

/-- What is printed of the path and the query. -/
def printed (path : String) (query : Option String) : String :=
  (if path ≠ "/" then path else "") ++ query.elim "" ("?" ++ ·)

/-- A path and a query split what is before the fragment. -/
theorem isTarget_target (back : IsTail t) (noFragment : '#' ∉ t.toList) :
    IsTarget (target t).1 (target t).2 := by
  have first {p : String} (rest : String) (split : t = p ++ rest) (plain : '?' ∉ p.toList)
      (nonempty : p ≠ "") : p.toList.head? = some '/' := by
    cases shape : p.toList with
    | nil => exact absurd (String.toList_eq_nil_iff.mp shape) nonempty
    | cons c chars =>
      have ends : endsAuthority c = true := back c (by simp [split, shape])
      have noQuery : c ≠ '?' := fun same => plain (by simp [shape, same])
      have noHash : c ≠ '#' := fun same => noFragment (by simp [split, shape, same])
      have slash : c = '/' := by simpa [endsAuthority, noQuery, noHash] using ends
      simp [slash]
  rcases splitQuery_cases t with ⟨plain, split⟩ | ⟨p, q, whole, plain, split⟩
  · unfold target
    rw [split]
    by_cases empty : t = ""
    · simp only [empty, if_true]
      exact ⟨by decide, by decide, nofun⟩
    · simp only [empty, if_false]
      exact ⟨first "" (by simp) plain empty, plain, nofun⟩
  · have full : (if q = "" then none else some q) ≠ some "" := by
      by_cases empty : q = ""
      · simp [empty]
      · simp [empty]
    unfold target
    rw [split]
    by_cases empty : p = ""
    · simp only [empty, if_true]
      exact ⟨by decide, by decide, full⟩
    · simp only [empty, if_false]
      exact ⟨first _ whole plain empty, plain, full⟩

/-- A path and a query are split again where they were joined. -/
theorem target_printed {path : String} {query : Option String} (parts : IsTarget path query) :
    target (printed path query) = (path, query) := by
  have nonempty : path ≠ "" := by
    intro empty
    have absolute := parts.absolute
    rw [empty] at absolute
    cases absolute
  have whole {p : String} (plain : '?' ∉ p.toList) : splitQuery p = (p, none) := by
    unfold splitQuery
    rw [Text.afterFirst_eq_none.mpr plain]
  have joined {p q : String} (plain : '?' ∉ p.toList) (full : q ≠ "") :
      splitQuery (p ++ ("?" ++ q)) = (p, some q) := by
    have before : Text.beforeFirst '?' (p ++ ("?" ++ q)) = p := by
      rw [← String.append_assoc]
      exact Text.beforeFirst_split plain
    have after : Text.afterFirst '?' (p ++ ("?" ++ q)) = some q := by
      rw [← String.append_assoc]
      exact Text.afterFirst_split plain
    unfold splitQuery
    rw [after, before]
    simp [full]
  unfold printed target
  by_cases root : path = "/"
  · rw [if_neg (not_not.mpr root), String.empty_append, root]
    cases query with
    | none => decide
    | some q =>
      have full : q ≠ "" := fun empty => parts.full (by rw [empty])
      have split : splitQuery ("?" ++ q) = ("", some q) := joined (p := "") (by decide) full
      simp only [Option.elim_some, split, if_true]
  · rw [if_pos root]
    cases query with
    | none =>
      rw [Option.elim_none, String.append_empty, whole parts.plain]
      simp only [nonempty, if_false]
    | some q =>
      have full : q ≠ "" := fun empty => parts.full (by rw [empty])
      rw [Option.elim_some, joined parts.plain full]
      simp only [nonempty, if_false]

/-- What the parser accepts, and the address it returns. -/
theorem parse_eq_ok : parse input = .ok uri ↔ ∃ a t, Text.trim input = "fed://" ++ (a ++ t) ∧
    IsAuthority a ∧ IsTail t ∧ FederateDomain.parse a = .ok uri.domain ∧
      target (Text.beforeFirst '#' t) = (uri.path, uri.query) ∧
        Text.byteLen uri.path ≤ maxPathLen := by
  simp only [parse, bind_eq_ok, okOr_eq_ok, Text.stripPrefix_eq_some, rejectIf_eq_ok, pure_eq_ok,
    exists_unit]
  constructor
  · intro accepted
    obtain ⟨rest, whole, -, noUser, noPort, domain, parsed, -, short, same⟩ := accepted
    have found := congrArg FederateUri.domain same
    have path := congrArg FederateUri.path same
    have query := congrArg FederateUri.query same
    simp only at found path query
    rw [path] at short
    refine ⟨authority rest, tail rest, by rw [authority_tail, whole],
      ⟨authority_open rest, noUser, noPort⟩, isTail_tail rest, found ▸ parsed, ?_, not_lt.mp short⟩
    rw [target, path, query]
  · intro accepted
    obtain ⟨a, t, whole, front, back, parsed, split, short⟩ := accepted
    have cut : IsTail (Text.beforeFirst '#' t) := back.beforeFirst
    have parts : IsTarget uri.path uri.query := by
      have both := isTarget_target cut Text.not_mem_beforeFirst
      rwa [split] at both
    have nonempty : a ++ t ≠ "" := by
      intro empty
      have fails : FederateDomain.parse "" = .error (.notFederateDomain "") := rfl
      rw [(String.append_eq_empty_iff.mp empty).1, fails] at parsed
      cases parsed
    have path := congrArg Prod.fst split
    have query := congrArg Prod.snd split
    simp only [target] at path query
    refine ⟨a ++ t, whole, nonempty, ?_⟩
    rw [authority_append front back, tail_append front back]
    simp only [path, query]
    exact ⟨front.noUser, front.noPort, uri.domain, parsed, by simp [parts.absolute],
      not_lt.mpr short, rfl⟩

/-! ## The canonical form -/

/-- An address up to the end of its query, or of its path when the query is empty. -/
def upToQuery (address : String) : String :=
  if Text.afterFirst '?' address = some "" then Text.beforeFirst '?' address else address

/-- What an input shows after the authority, up to the fragment. -/
def shown (input : String) : String :=
  upToQuery (Text.beforeFirst '#' (tail ((Text.stripPrefix "fed://" (Text.trim input)).getD "")))

/-- The printed address is read back, and printed again as it was. -/
structure Canonical (uri : FederateUri) : Prop where
  /-- The printed form denotes the address. -/
  denotes : parse uri.toString = .ok uri
  /-- It is the printed form of what it denotes. -/
  stable : ∀ again, parse uri.toString = .ok again → again.toString = uri.toString

/-- An address up to its query is its path and its query. -/
theorem upToQuery_eq (address : String) : upToQuery address =
    (splitQuery address).1 ++ (splitQuery address).2.elim "" ("?" ++ ·) := by
  rcases splitQuery_cases address with ⟨plain, split⟩ | ⟨p, q, whole, plain, split⟩
  · rw [split, upToQuery, Text.afterFirst_eq_none.mpr plain, if_neg nofun, Option.elim_none,
      String.append_empty]
  · have joined : address = p ++ '?'.toString ++ q := by
      rw [whole, ← String.append_assoc]
      rfl
    have before : Text.beforeFirst '?' address = p := joined ▸ Text.beforeFirst_split plain
    have after : Text.afterFirst '?' address = some q := joined ▸ Text.afterFirst_split plain
    rw [split, upToQuery, after, before]
    by_cases empty : q = ""
    · simp [empty]
    · simp [empty, whole]

/-- The printed form of an address shows it, but for a root path. -/
theorem upToQuery_printed (address : String) :
    upToQuery address = printed (target address).1 (target address).2 ∨
      upToQuery address = "/" ++ printed (target address).1 (target address).2 := by
  rw [upToQuery_eq]
  unfold target printed
  by_cases empty : (splitQuery address).1 = ""
  · left
    simp [empty]
  · by_cases root : (splitQuery address).1 = "/"
    · right
      simp [root]
    · left
      simp [empty, root]

/-- A slash is not white space. -/
theorem endsBlank_slash (s : String) : Text.EndsBlank ("/" ++ s) ↔ Text.EndsBlank s := by
  by_cases empty : s = ""
  · rw [empty]
    decide
  · exact Text.endsBlank_append empty

/-- The printed form of an address is no longer than the address. -/
theorem printed_length (address : String) :
    (printed (target address).1 (target address).2).length ≤ address.length := by
  have shown : (upToQuery address).length ≤ address.length := by
    rw [upToQuery_eq]
    rcases splitQuery_cases address with ⟨plain, split⟩ | ⟨p, q, whole, plain, split⟩
    · simp [split]
    · rw [split, whole]
      by_cases empty : q = ""
      · simp [empty]
      · simp [empty]
  rcases upToQuery_printed address with same | same
  · rwa [← same]
  · rw [same, String.length_append] at shown
    omega

/-- What is printed after a domain is a tail without a fragment. -/
theorem isTail_printed {path : String} {query : Option String} (parts : IsTarget path query) :
    IsTail (printed path query) := by
  intro c first
  unfold printed at first
  by_cases root : path = "/"
  · rw [if_neg (not_not.mpr root), String.empty_append] at first
    cases query with
    | none => simp at first
    | some q =>
      have mark : c = '?' := by simpa [eq_comm] using first
      rw [mark]
      decide
  · rw [if_pos root, String.toList_append, List.head?_append, parts.absolute] at first
    have slash : c = '/' := by simpa [eq_comm] using first
    rw [slash]
    decide

/-- The full name of a domain is an authority that ends solid. -/
theorem isAuthority_fqdn {d : FederateDomain} (label : IsLabel d.name) (tldName : IsTldName d.tld) :
    IsAuthority d.fqdn := by
  have apart {c : Char} (separator : isLabelChar c = false) (notDot : c ≠ '.') :
      c ∉ d.fqdn.toList := by
    intro member
    rcases fullName_chars label tldName c member with isLabel | dot
    · exact absurd isLabel (by simp [separator])
    · exact notDot dot
  refine ⟨fun c member => ?_, apart (by decide) (by decide), apart (by decide) (by decide)⟩
  by_contra other
  have ends : endsAuthority c = true := by simpa using other
  have listed : c = '/' ∨ c = '?' ∨ c = '#' := by simpa [endsAuthority, or_assoc] using ends
  rcases listed with rfl | rfl | rfl
  · exact apart (by decide) (by decide) member
  · exact apart (by decide) (by decide) member
  · exact apart (by decide) (by decide) member

/-- The full name of a domain does not end in white space. -/
theorem fqdn_solid {d : FederateDomain} (label : IsLabel d.name) (tldName : IsTldName d.tld) :
    ¬Text.EndsBlank ("fed://" ++ d.fqdn) := by
  intro blank
  have nonempty : d.fqdn ≠ "" := by
    intro empty
    have dot : '.' ∈ d.fqdn.toList := by simp [FederateDomain.fqdn]
    rw [empty] at dot
    cases dot
  obtain ⟨c, last, white⟩ := (Text.endsBlank_append nonempty).mp blank
  rcases fullName_chars label tldName c (List.mem_of_getLast? last) with isLabel | rfl
  · exact absurd (isLabelChar_solid isLabel) (by simp [white])
  · exact absurd white (by decide)

/-- The printed form is the domain and what is printed after it. -/
theorem toString_eq (uri : FederateUri) :
    uri.toString = "fed://" ++ uri.domain.fqdn ++ printed uri.path uri.query := by
  simp only [toString, printed, String.append_assoc]

/-- Only the end of a printed form is trimmed. -/
theorem trim_toString (label : IsLabel uri.domain.name) (tldName : IsTldName uri.domain.tld) :
    Text.trim uri.toString =
      "fed://" ++ (uri.domain.fqdn ++ Text.trimEnd (printed uri.path uri.query)) := by
  have first : uri.toString.toList.head? = some 'f' := by simp [toString_eq]
  rw [Text.trim_of_solid first (by decide), toString_eq,
    Text.trimEnd_append (fqdn_solid label tldName), String.append_assoc]

/-- A prefix of a tail is a tail. -/
theorem IsTail.trimEnd (back : IsTail t) : IsTail (Text.trimEnd t) := by
  intro c first
  obtain ⟨w, split, -⟩ := Text.trimEnd_append_blank t
  refine back c ?_
  rw [split, String.toList_append, List.head?_append, first]
  rfl

/-- The fields of a parsed address. -/
theorem parsed_fields (parsed : parse input = .ok uri) :
    (IsLabel uri.domain.name ∧ IsTldName uri.domain.tld) ∧ IsTarget uri.path uri.query ∧
      Text.byteLen uri.path ≤ maxPathLen ∧
      (¬Text.EndsBlank (shown input) ↔ ¬Text.EndsBlank (printed uri.path uri.query)) ∧
      '#' ∉ (printed uri.path uri.query).toList := by
  obtain ⟨a, t, whole, front, back, domain, split, short⟩ := parse_eq_ok.mp parsed
  have parts := isTarget_target back.beforeFirst Text.not_mem_beforeFirst
  have shows : shown input = upToQuery (Text.beforeFirst '#' t) := by
    have rest : Text.stripPrefix "fed://" (Text.trim input) = some (a ++ t) :=
      Text.stripPrefix_eq_some.mpr whole
    rw [shown, rest, Option.getD_some, tail_append front back]
  have fragment : '#' ∉ (upToQuery (Text.beforeFirst '#' t)).toList := by
    unfold upToQuery
    split
    · exact fun member => Text.not_mem_beforeFirst (Text.mem_of_mem_beforeFirst member)
    · exact Text.not_mem_beforeFirst
  have prints := upToQuery_printed (Text.beforeFirst '#' t)
  rw [split] at parts prints
  refine ⟨FederateDomain.parse_normal domain, parts, short, ?_, ?_⟩
  · rcases prints with same | same
    · rw [shows, same]
    · rw [shows, same, endsBlank_slash]
  · rcases prints with same | same
    · rwa [same] at fragment
    · intro member
      rw [same, String.toList_append] at fragment
      exact fragment (List.mem_append_right _ member)

/-- The canonical form of an address denotes it exactly when what the input shows of it before the
fragment does not end in white space. -/
theorem canonicalForm_iff (parsed : parse input = .ok uri) :
    Canonical uri ↔ ¬Text.EndsBlank (shown input) := by
  obtain ⟨⟨label, tldName⟩, parts, short, shows, noFragment⟩ := parsed_fields parsed
  have front : IsAuthority uri.domain.fqdn := isAuthority_fqdn label tldName
  have back : IsTail (printed uri.path uri.query) := isTail_printed parts
  have trimmed := trim_toString label tldName
  rw [shows]
  constructor
  · intro canonical blank
    obtain ⟨a, t, whole, front', back', -, split, -⟩ := parse_eq_ok.mp canonical.denotes
    have tails : Text.trimEnd (printed uri.path uri.query) = t := by
      have same : uri.domain.fqdn ++ Text.trimEnd (printed uri.path uri.query) = a ++ t := by
        rw [trimmed] at whole
        exact String.append_right_inj _ |>.mp whole
      rw [← tail_append front back.trimEnd, same, tail_append front' back']
    have shorter : (printed uri.path uri.query).length ≤ (Text.beforeFirst '#' t).length := by
      have length := printed_length (Text.beforeFirst '#' t)
      rwa [split] at length
    have within : (Text.beforeFirst '#' t).length ≤ t.length := by
      rw [← String.length_toList, ← String.length_toList, Text.beforeFirst, Text.toList_onChars]
      exact (List.takeWhile_sublist _).length_le
    obtain ⟨w, cut, -⟩ := Text.trimEnd_append_blank (printed uri.path uri.query)
    have nothing : w = "" := by
      have lengths := congrArg String.length cut
      rw [String.length_append, tails] at lengths
      have zero : w.length = 0 := by omega
      exact String.length_eq_zero_iff.mp zero
    have kept : Text.trimEnd (printed uri.path uri.query) = printed uri.path uri.query := by
      rw [nothing, String.append_empty] at cut
      exact cut.symm
    exact Text.trimEnd_eq_self_iff.mp kept blank
  · intro solid
    have kept : Text.trimEnd (printed uri.path uri.query) = printed uri.path uri.query :=
      Text.trimEnd_eq_self_iff.mpr solid
    have denotes : parse uri.toString = .ok uri := by
      refine parse_eq_ok.mpr ⟨uri.domain.fqdn, printed uri.path uri.query, by rw [trimmed, kept],
        front, back, FederateDomain.parse_fqdn label tldName, ?_, short⟩
      rw [Text.beforeFirst_eq_self noFragment]
      exact target_printed parts
    refine ⟨denotes, fun again reads => ?_⟩
    rw [denotes] at reads
    rw [Except.ok.inj reads]

/-- A parsed address without a fragment is printed canonically. -/
theorem canonical_about :
    Canonical ⟨⟨"joao", "pagina"⟩, "/about", some "x=1"⟩ := by
  have parsed : parse "fed://joao.pagina/about?x=1" =
      .ok ⟨⟨"joao", "pagina"⟩, "/about", some "x=1"⟩ := by decide +kernel
  exact (canonicalForm_iff parsed).mpr (by decide +kernel)

/-- The printed form of a path with a blank before the fragment denotes another path. -/
theorem blank_not_canonical :
    ¬∀ input uri, parse input = .ok uri → Canonical uri := by
  intro all
  have parsed : parse "fed://home.fed/a #x" = .ok ⟨⟨"home", "fed"⟩, "/a ", none⟩ := by
    decide +kernel
  exact absurd (all _ _ parsed).denotes (by decide +kernel)

/-! ## The address of an HTTP request -/

/-- A host and a path with a query that the native spelling can hold. -/
structure IsRequest (host pq : String) : Prop where
  /-- The host has no separators. -/
  host : ∀ c ∈ host.toList, c ≠ ':' ∧ c ≠ '/' ∧ c ≠ '?' ∧ c ≠ '#' ∧ c ≠ '@'
  /-- The path is absolute or empty. -/
  begins : ∀ c, pq.toList.head? = some c → c = '/' ∨ c = '?'
  /-- There is no fragment. -/
  noFragment : '#' ∉ pq.toList
  /-- There is no white space around the path and the query. -/
  trimmed : Text.trim pq = pq

/-- The host of a request is an authority. -/
theorem IsRequest.isAuthority (request : IsRequest host pq) : IsAuthority host := by
  refine ⟨fun c member => ?_, fun member => ?_, fun member => ?_⟩
  · obtain ⟨-, slash, mark, hash, -⟩ := request.host c member
    simp [endsAuthority, slash, mark, hash]
  · exact (request.host _ member).2.2.2.2 rfl
  · exact (request.host _ member).1 rfl

/-- The path and the query of a request are a tail. -/
theorem IsRequest.isTail (request : IsRequest host pq) : IsTail pq := by
  intro c first
  rcases request.begins c first with rfl | rfl
  · decide
  · decide

/-- A TLD name is validated without the white space after it. -/
theorem validateTldName_append_blank {name w : String} {tld : String}
    (blank : ∀ c ∈ w.toList, Text.isWhitespace c = true) :
    validateTldName (name ++ w) = .ok tld ↔ validateTldName name = .ok tld := by
  rw [validateTldName_eq_ok, validateTldName_eq_ok, Text.trim_append_blank blank]

/-- White space has no letters and no separators. -/
theorem blank_apart {c : Char} (white : Text.isWhitespace c = true) :
    ¬('A' ≤ c ∧ c ≤ 'Z') ∧ c ≠ '.' ∧ c ≠ ':' := by
  refine ⟨fun upper => ?_, fun same => ?_, fun same => ?_⟩
  · have low : 65 ≤ c.toNat := UInt32.le_iff_toNat_le.mp upper.1
    have high : c.toNat ≤ 90 := UInt32.le_iff_toNat_le.mp upper.2
    simp only [Text.isWhitespace, Bool.or_eq_true, Bool.and_eq_true, decide_eq_true_eq] at white
    omega
  · rw [same] at white
    exact absurd white (by decide)
  · rw [same] at white
    exact absurd white (by decide)

/-- A host is parsed without the white space after it. -/
theorem parse_append_blank {w : String} {d : FederateDomain} (noPort : ':' ∉ host.toList)
    (blank : ∀ c ∈ w.toList, Text.isWhitespace c = true) :
    FederateDomain.parse (host ++ w) = .ok d ↔ FederateDomain.parse host = .ok d := by
  have noPort' : ':' ∉ (host ++ w).toList := by
    intro member
    rw [String.toList_append, List.mem_append] at member
    rcases member with inHost | inBlank
    · exact noPort inHost
    · exact (blank_apart (blank _ inBlank)).2.2 rfl
  have lower : Text.toAsciiLowercase (host ++ w) = Text.toAsciiLowercase host ++ w := by
    have same : Text.toAsciiLowercase w = w :=
      Text.toAsciiLowercase_eq_self fun c member => (blank_apart (blank c member)).1
    rw [← String.toList_inj, String.toList_append, ← same, Text.toAsciiLowercase,
      Text.toList_onChars, String.toList_append, List.map_append, same, Text.toAsciiLowercase,
      Text.toList_onChars]
    congr 1
    have letters := congrArg String.toList same
    rwa [Text.toAsciiLowercase, Text.toList_onChars] at letters
  have noDot : '.' ∉ w.toList := fun member => (blank_apart (blank _ member)).2.1 rfl
  unfold FederateDomain.parse
  rw [Text.beforeFirst_eq_self noPort, Text.beforeFirst_eq_self noPort', lower]
  generalize Text.toAsciiLowercase host = low
  cases found : Text.afterFirst '.' low with
  | none =>
    have missing : Text.afterFirst '.' (low ++ w) = none := by
      rw [Text.afterFirst_eq_none, String.toList_append, List.mem_append, not_or]
      exact ⟨Text.afterFirst_eq_none.mp found, noDot⟩
    simp [found, missing]
  | some rest =>
    obtain ⟨split, absent⟩ := Text.split_afterFirst found
    have longer : low ++ w = Text.beforeFirst '.' low ++ '.'.toString ++ (rest ++ w) := by
      rw [← String.append_assoc, ← split]
    have after : Text.afterFirst '.' (low ++ w) = some (rest ++ w) :=
      longer ▸ Text.afterFirst_split absent
    have before : Text.beforeFirst '.' (low ++ w) = Text.beforeFirst '.' low :=
      longer ▸ Text.beforeFirst_split absent
    simp only [found, after, before, bind_eq_ok, okOr_eq_ok, Option.some.injEq, exists_eq_left',
      rejectIf_eq_ok, String.toList_append, List.mem_append, noDot, or_false, pure_eq_ok,
      validateTldName_append_blank blank]

/-- What the parser sees of a request: white space after a host alone is trimmed, which does not
change the domain. -/
theorem trim_request (request : IsRequest host pq) : ∃ a, IsAuthority a ∧
    (∀ d, FederateDomain.parse a = .ok d ↔ FederateDomain.parse host = .ok d) ∧
      Text.trim ("fed://" ++ host ++ pq) = "fed://" ++ (a ++ pq) := by
  have front := request.isAuthority
  have first : ("fed://" ++ host ++ pq).toList.head? = some 'f' := by simp
  rw [Text.trim_of_solid first (by decide)]
  by_cases alone : pq = ""
  · obtain ⟨w, split, blank⟩ := Text.trimEnd_append_blank host
    have within {c : Char} (member : c ∈ (Text.trimEnd host).toList) : c ∈ host.toList := by
      rw [split, String.toList_append]
      exact List.mem_append_left _ member
    refine ⟨Text.trimEnd host, ⟨fun c member => front.open_ c (within member),
      fun member => front.noUser (within member), fun member => front.noPort (within member)⟩,
      fun d => ?_, ?_⟩
    · conv_rhs => rw [split]
      exact (parse_append_blank (fun member => front.noPort (within member)) blank).symm
    · rw [alone, String.append_empty, String.append_empty, Text.trimEnd_append (by decide)]
  · refine ⟨host, front, fun d => Iff.rfl, ?_⟩
    have solid : ¬Text.EndsBlank ("fed://" ++ host ++ pq) := by
      rw [Text.endsBlank_append alone, ← request.trimmed]
      exact Text.trim_solid pq
    rw [Text.trimEnd_eq_self_iff.mpr solid, String.append_assoc]

/-- What the parser makes of a request in its native spelling. -/
theorem parse_request (request : IsRequest host pq) :
    parse ("fed://" ++ host ++ pq) = .ok uri ↔ FederateDomain.parse host = .ok uri.domain ∧
      target pq = (uri.path, uri.query) ∧ Text.byteLen uri.path ≤ maxPathLen := by
  obtain ⟨a, front, domain, trimmed⟩ := trim_request request
  have back := request.isTail
  have whole : Text.beforeFirst '#' pq = pq := Text.beforeFirst_eq_self request.noFragment
  rw [parse_eq_ok, ← domain, trimmed]
  constructor
  · intro accepted
    obtain ⟨a', t, same, front', back', parsed, split, short⟩ := accepted
    have rest : a ++ pq = a' ++ t := (String.append_right_inj _).mp same
    have names : a = a' := by
      rw [← authority_append front back, rest, authority_append front' back']
    have tails : pq = t := by rw [← tail_append front back, rest, tail_append front' back']
    rw [← names] at parsed
    rw [← tails, whole] at split
    exact ⟨parsed, split, short⟩
  · intro accepted
    obtain ⟨parsed, split, short⟩ := accepted
    exact ⟨a, pq, rfl, front, back, parsed, by rw [whole, split], short⟩

/-- What the gateway makes of a request. -/
theorem fromHttp_request (request : IsRequest host pq) : fromHttp host pq = .ok uri ↔
    FederateDomain.parse host = .ok uri.domain ∧ target pq = (uri.path, uri.query) := by
  have absolute := (isTarget_target request.isTail request.noFragment).absolute
  simp only [fromHttp, bind_eq_ok, rejectIf_eq_ok, pure_eq_ok, exists_unit]
  constructor
  · intro accepted
    obtain ⟨domain, parsed, -, same⟩ := accepted
    have found := congrArg FederateUri.domain same
    have path := congrArg FederateUri.path same
    have query := congrArg FederateUri.query same
    simp only at found path query
    refine ⟨found ▸ parsed, ?_⟩
    rw [target, path, query]
  · intro accepted
    obtain ⟨parsed, split⟩ := accepted
    rw [split] at absolute
    have path := congrArg Prod.fst split
    have query := congrArg Prod.snd split
    simp only [target] at path query
    refine ⟨uri.domain, parsed, ?_⟩
    rw [path, query]
    exact ⟨not_not.mpr absolute, rfl⟩

/-- The length of a path is that of what stands before the query, but for a root path. -/
theorem byteLen_target (pq : String) : Text.byteLen (target pq).1 ≤ maxPathLen ↔
    Text.byteLen (Text.beforeFirst '?' pq) ≤ maxPathLen := by
  have path : (splitQuery pq).1 = Text.beforeFirst '?' pq := by
    unfold splitQuery
    cases found : Text.afterFirst '?' pq with
    | none => exact (Text.beforeFirst_eq_self (Text.afterFirst_eq_none.mp found)).symm
    | some q => rfl
  rw [target, path]
  by_cases empty : Text.beforeFirst '?' pq = ""
  · rw [if_pos empty, empty]
    have slash : Text.byteLen "/" ≤ maxPathLen := by decide
    have nothing : Text.byteLen "" ≤ maxPathLen := by decide
    exact iff_of_true slash nothing
  · rw [if_neg empty]

/-- A host with a path is the same address as its native spelling exactly when the host is not the
name of a domain or the path is not too long. -/
theorem spellings_agree_iff (request : IsRequest host pq) :
    (∀ uri, fromHttp host pq = .ok uri ↔ parse ("fed://" ++ host ++ pq) = .ok uri) ↔
      (∀ d, FederateDomain.parse host ≠ .ok d) ∨
        Text.byteLen (Text.beforeFirst '?' pq) ≤ maxPathLen := by
  constructor
  · intro agree
    by_cases named : ∃ d, FederateDomain.parse host = .ok d
    · obtain ⟨d, parsed⟩ := named
      have native : parse ("fed://" ++ host ++ pq) = .ok ⟨d, (target pq).1, (target pq).2⟩ :=
        (agree _).mp ((fromHttp_request request).mpr ⟨parsed, rfl⟩)
      have short := ((parse_request request).mp native).2.2
      exact .inr ((byteLen_target pq).mp short)
    · exact .inl fun d parsed => named ⟨d, parsed⟩
  · intro fits uri
    rw [fromHttp_request request, parse_request request]
    constructor
    · intro accepted
      obtain ⟨parsed, split⟩ := accepted
      refine ⟨parsed, split, ?_⟩
      rcases fits with nameless | short
      · exact absurd parsed (nameless _)
      · have limit := (byteLen_target pq).mpr short
        rwa [split] at limit
    · intro accepted
      exact ⟨accepted.1, accepted.2.1⟩

/-- A request for a page is the same address as its native spelling. -/
theorem about_agrees :
    fromHttp "joao.pagina" "/about?x=1" = .ok ⟨⟨"joao", "pagina"⟩, "/about", some "x=1"⟩ ↔
      parse ("fed://" ++ "joao.pagina" ++ "/about?x=1") =
        .ok ⟨⟨"joao", "pagina"⟩, "/about", some "x=1"⟩ := by
  have request : IsRequest "joao.pagina" "/about?x=1" :=
    ⟨by simp, by simp, by simp, by decide +kernel⟩
  exact (spellings_agree_iff request).mpr (.inr (by decide +kernel)) _

/-- A path of `n` letters. -/
def letters (n : ℕ) : String := String.ofList ('/' :: List.replicate n 'a')

/-- The characters of a path of letters. -/
theorem mem_letters {n : ℕ} {c : Char} (member : c ∈ (letters n).toList) : c = '/' ∨ c = 'a' := by
  rw [letters, String.toList_ofList, List.mem_cons] at member
  exact member.imp_right List.eq_of_mem_replicate

/-- A path of letters can be asked for. -/
theorem isRequest_letters (n : ℕ) : IsRequest "home.fed" (letters n) := by
  constructor
  · simp
  · intro c first
    rw [letters, String.toList_ofList] at first
    exact .inl (Option.some.inj first).symm
  · intro member
    simpa using mem_letters member
  · refine Text.trim_eq_self fun c member => ?_
    rcases mem_letters member with rfl | rfl
    · decide
    · decide

/-- A path of letters has no query. -/
theorem target_letters (n : ℕ) : target (letters n) = (letters n, none) := by
  have plain : '?' ∉ (letters n).toList := fun member => by simpa using mem_letters member
  have nonempty : letters n ≠ "" := by simp [letters]
  rw [target, splitQuery, Text.afterFirst_eq_none.mpr plain]
  simp only [nonempty, if_false]

/-- The length of a path of letters. -/
theorem byteLen_letters (n : ℕ) : Text.byteLen (letters n) = 1 + n := by
  rw [Text.byteLen, letters, String.toList_ofList, List.map_cons, List.map_replicate,
    List.sum_cons, List.sum_replicate, smul_eq_mul]
  have slash : Char.utf8Size '/' = 1 := rfl
  have letter : Char.utf8Size 'a' = 1 := rfl
  rw [slash, letter, Nat.mul_one]

/-- A long path is an address of the gateway that has no native spelling. -/
theorem long_disagrees : ¬∀ host pq, IsRequest host pq → ∀ uri,
    fromHttp host pq = .ok uri ↔ parse ("fed://" ++ host ++ pq) = .ok uri := by
  intro all
  have request := isRequest_letters maxPathLen
  have parsed : FederateDomain.parse "home.fed" = .ok ⟨"home", "fed"⟩ := by decide +kernel
  have native := (all _ _ request ⟨⟨"home", "fed"⟩, letters maxPathLen, none⟩).mp
    ((fromHttp_request request).mpr ⟨parsed, target_letters maxPathLen⟩)
  have short := ((parse_request request).mp native).2.2
  rw [byteLen_letters] at short
  omega

end FederateUri

end Federate
