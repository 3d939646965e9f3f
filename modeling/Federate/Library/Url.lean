import Mathlib.Data.List.DropRight
import Federate.Library.Ip
import Federate.Library.Text

/-!
# The host of an HTTP URL

The part of the WHATWG URL parser that finds the host of an `http` or `https` URL: blanks around the
text and tabs and line breaks in it go, then the authority runs from the slashes behind the scheme
to the next slash, backslash, question mark or number sign. The host stands behind the last `@` of
the authority and before its port. How the text of a host is read is a parameter, with the laws for
addresses.
-/
namespace Url

/-- A control character or a space. -/
def isBlank (c : Char) : Bool := c.toNat ≤ 0x20

/-- A tab or a line break. -/
def isBreak (c : Char) : Bool := c.toNat = 0x9 || c.toNat = 0xA || c.toNat = 0xD

/-- A slash or a backslash. -/
def isSlash (c : Char) : Bool := c = '/' || c = Char.ofNat 0x5C

/-- A character that ends an authority. -/
def endsAuthority (c : Char) : Bool := isSlash c || c = '?' || c = '#'

/-- The text that is parsed: blanks around it and breaks in it are removed. -/
def clean (chars : List Char) : List Char :=
  ((chars.dropWhile isBlank).rdropWhile isBlank).filter fun c => !isBreak c

/-- The authority of an `http` or `https` URL. -/
def authority (s : String) : Option (List Char) :=
  let chars := clean s.toList
  match chars.dropWhile (· ≠ ':') with
  | [] => none
  | _ :: rest =>
    if (chars.takeWhile (· ≠ ':')).map Char.toLower ∈ ["http".toList, "https".toList] then
      some ((rest.dropWhile isSlash).takeWhile fun c => !endsAuthority c)
    else none

/-- An authority without user name and password. -/
def afterUserinfo (authority : List Char) : List Char := authority.rtakeWhile (· ≠ '@')

/-- A host and the port behind it: at the first colon outside brackets. -/
def splitPort : Bool → List Char → List Char × Option (List Char)
  | _, [] => ([], none)
  | inside, c :: rest =>
    if c = ':' ∧ inside = false then ([], some rest)
    else
      let split := splitPort (if c = '[' then true else if c = ']' then false else inside) rest
      (c :: split.1, split.2)

/-- A host. -/
inductive Host where
  | ip (a : Ip.Addr)
  | domain (name : String)

/-- A reader of the text of a host. -/
structure HostParser where
  /-- Read a text. -/
  parse : String → Option Host
  /-- Four decimal numbers are an address. -/
  ipv4 : ∀ s a, Ip.parseIpv4 s = some a → parse s = some (.ip a)
  /-- A text that begins with a bracket is an address in brackets. -/
  ipv6 : ∀ s host, s.toList.head? = some '[' → parse s = some host →
    ∃ inside a, s = "[" ++ inside ++ "]" ∧ Ip.parseIpv6 inside = some a ∧ host = .ip a

/-- The host of a host and port. -/
def hostOf (parser : HostParser) (text : List Char) : Option Host :=
  let (host, port) := splitPort false text
  let digits := port.getD []
  if host = [] ∨ digits.all Char.isDigit = false ∨ 65535 < Nat.ofDigitChars 10 digits 0 then none
  else parser.parse (String.ofList host)

/-- The host of a URL. -/
def host (parser : HostParser) (s : String) : Option Host :=
  (authority s).bind fun authority => hostOf parser (afterUserinfo authority)

/-! ## Texts that begin with solid characters -/

section Solid

variable {front tail : List Char}

/-- A text without characters that trimming removes. -/
theorem rdropWhile_eq_self {p : Char → Bool} (kept : ∀ c ∈ front, p c = false) :
    front.rdropWhile p = front := by
  refine List.rdropWhile_eq_self_iff.mpr fun nonempty => ?_
  simp [kept _ (List.getLast_mem nonempty)]

/-- Trimming stops at a text that it leaves alone. -/
theorem rdropWhile_append {p : Char → Bool} (kept : front.rdropWhile p = front) :
    (front ++ tail).rdropWhile p = front ++ tail.rdropWhile p := by
  induction tail using List.reverseRecOn with
  | nil => rw [List.append_nil, List.rdropWhile_nil, List.append_nil, kept]
  | append_singleton tail c ih =>
    rw [← List.append_assoc]
    by_cases drops : p c = true
    · rw [List.rdropWhile_concat_pos _ _ _ drops, List.rdropWhile_concat_pos _ _ _ drops, ih]
    · rw [List.rdropWhile_concat_neg _ _ _ drops, List.rdropWhile_concat_neg _ _ _ drops,
        List.append_assoc]

/-- Trimming a text whose end is kept somewhere leaves what is in front of it alone. -/
theorem rdropWhile_append_of_ne_nil {p : Char → Bool} (some : tail.rdropWhile p ≠ []) :
    (front ++ tail).rdropWhile p = front ++ tail.rdropWhile p := by
  induction tail using List.reverseRecOn with
  | nil => exact absurd (List.rdropWhile_nil p) some
  | append_singleton tail c ih =>
    rw [← List.append_assoc]
    by_cases drops : p c = true
    · rw [List.rdropWhile_concat_pos _ _ _ drops] at some ⊢
      rw [List.rdropWhile_concat_pos _ _ _ drops, ih some]
    · rw [List.rdropWhile_concat_neg _ _ _ drops, List.rdropWhile_concat_neg _ _ _ drops,
        List.append_assoc]

/-- A character that is not blank is no break. -/
theorem isBreak_of_solid {c : Char} (solid : isBlank c = false) : isBreak c = false := by
  simp only [isBlank, decide_eq_false_iff_not] at solid
  simp only [isBreak, Bool.or_eq_false_iff, decide_eq_false_iff_not]
  omega

/-- The cleaned text of the characters after solid ones. -/
def cleanTail (tail : List Char) : List Char := (tail.rdropWhile isBlank).filter fun c => !isBreak c

/-- Solid characters in front stay. -/
theorem clean_append (solid : ∀ c ∈ front, isBlank c = false) (nonempty : front ≠ []) :
    clean (front ++ tail) = front ++ cleanTail tail := by
  obtain ⟨c, rest, rfl⟩ := List.exists_cons_of_ne_nil nonempty
  have first : isBlank c = false := solid c List.mem_cons_self
  have unchanged : ((c :: rest) ++ tail).dropWhile isBlank = (c :: rest) ++ tail := by
    simp [first]
  have breaks : (c :: rest).filter (fun c => !isBreak c) = c :: rest := by
    refine List.filter_eq_self.mpr fun other member => ?_
    rw [isBreak_of_solid (solid other member)]
    rfl
  rw [clean, unchanged, rdropWhile_append (rdropWhile_eq_self solid), List.filter_append, breaks]
  rfl

/-- The authority of a URL runs over solid characters in front. -/
theorem authority_eq {scheme s : String} (known : scheme = "http://" ∨ scheme = "https://")
    (solid : ∀ c ∈ front, isBlank c = false) (inner : ∀ c ∈ front, endsAuthority c = false)
    (nonempty : front ≠ []) (split : s.toList = scheme.toList ++ (front ++ tail)) :
    authority s = some (front ++ (cleanTail tail).takeWhile fun c => !endsAuthority c) := by
  have cleaned : clean s.toList = scheme.toList ++ (front ++ cleanTail tail) := by
    have marks : scheme.toList.all (fun c => !isBlank c) = true := by
      rcases known with rfl | rfl <;> decide
    have scheme_solid : ∀ c ∈ scheme.toList, isBlank c = false := by
      simpa using marks
    rw [split, ← List.append_assoc, clean_append, List.append_assoc]
    · intro c member
      rcases List.mem_append.mp member with early | late
      · exact scheme_solid c early
      · exact solid c late
    · exact fun empty => nonempty (List.append_eq_nil_iff.mp empty).2
  have slashes : (front ++ cleanTail tail).dropWhile isSlash = front ++ cleanTail tail := by
    obtain ⟨c, rest, rfl⟩ := List.exists_cons_of_ne_nil nonempty
    have first : isSlash c = false := by
      have whole := inner c List.mem_cons_self
      simp only [endsAuthority, Bool.or_eq_false_iff] at whole
      exact whole.1.1
    simp [first]
  have runs : (front ++ cleanTail tail).takeWhile (fun c => !endsAuthority c) =
      front ++ (cleanTail tail).takeWhile fun c => !endsAuthority c := by
    refine List.takeWhile_append_of_pos fun c member => ?_
    rw [inner c member]
    rfl
  unfold authority
  rw [cleaned]
  have slash : isSlash '/' = true := by decide
  rcases known with rfl | rfl
  · have chars : "http://".toList = ['h', 't', 't', 'p', ':', '/', '/'] := by decide
    simp [chars, slash, slashes, runs]
  · have chars : "https://".toList = ['h', 't', 't', 'p', 's', ':', '/', '/'] := by decide
    simp [chars, slash, slashes, runs]

/-- The cleaned text after solid characters begins with the mark that the text begins with, if it
does not end there. -/
theorem cleanTail_head {marks : List Char} (solid : ∀ c ∈ marks, isBlank c = false)
    (begins : ∀ c, tail.head? = some c → c ∈ marks) :
    ∀ c, (cleanTail tail).head? = some c → c ∈ marks := by
  cases tail with
  | nil => simp [cleanTail]
  | cons mark rest =>
    have own : mark ∈ marks := begins mark rfl
    have kept : ∀ c ∈ [mark], isBlank c = false := by
      simpa using solid mark own
    have shape : cleanTail (mark :: rest) = mark :: cleanTail rest := by
      change (List.rdropWhile isBlank ([mark] ++ rest)).filter _ = _
      rw [rdropWhile_append (rdropWhile_eq_self kept), List.filter_append]
      simp [isBreak_of_solid (solid mark own), cleanTail]
    rw [shape]
    intro c first
    rw [← Option.some.inj first]
    exact own

/-- A slash ends the authority. -/
theorem takeWhile_slash (path : List Char) :
    ((tail ++ '/' :: path).filter fun c => !isBreak c).takeWhile (fun c => !endsAuthority c) =
      (tail.filter fun c => !isBreak c).takeWhile fun c => !endsAuthority c := by
  have ends : endsAuthority '/' = true := by decide
  have solid : isBreak '/' = false := by decide
  rw [List.filter_append, List.takeWhile_append]
  split
  · rename_i whole
    have all : (tail.filter fun c => !isBreak c).takeWhile (fun c => !endsAuthority c) =
        tail.filter fun c => !isBreak c :=
      (List.takeWhile_prefix _).eq_of_length whole
    simp [all, solid, ends]
  · rfl

/-- In front of a slash the text is cleaned of breaks only. -/
theorem cleanTail_slash (path : List Char) :
    (cleanTail (tail ++ '/' :: path)).takeWhile (fun c => !endsAuthority c) =
      (tail.filter fun c => !isBreak c).takeWhile fun c => !endsAuthority c := by
  have slash : ∀ c ∈ ['/'], isBlank c = false := by simp [isBlank]
  have stays : ('/' :: path).rdropWhile isBlank = '/' :: path.rdropWhile isBlank :=
    rdropWhile_append (rdropWhile_eq_self slash)
  rw [cleanTail, rdropWhile_append_of_ne_nil (by simp [stays]), stays, takeWhile_slash]

end Solid

/-! ## The host of an authority -/

/-- Without a user name, all of the authority is host and port. -/
theorem afterUserinfo_eq_self {text : List Char} (absent : '@' ∉ text) :
    afterUserinfo text = text := by
  refine List.rtakeWhile_eq_self_iff.mpr fun c member => ?_
  have differs : c ≠ '@' := fun same => absent (same ▸ member)
  simpa using differs

/-- A host without colons and brackets, up to a port. -/
theorem splitPort_append {host tail : List Char} (plain : ∀ c ∈ host, c ≠ ':' ∧ c ≠ '[' ∧ c ≠ ']')
    (begins : ∀ c, tail.head? = some c → c = ':') :
    (splitPort false (host ++ tail)).1 = host := by
  induction host with
  | nil =>
    cases tail with
    | nil => rfl
    | cons c rest =>
      rw [begins c rfl]
      rfl
  | cons c rest ih =>
    obtain ⟨colon, opening, closing⟩ := plain c List.mem_cons_self
    rw [List.cons_append, splitPort, if_neg (fun both => colon both.1), if_neg opening,
      if_neg closing]
    simp only
    rw [ih fun other member => plain other (List.mem_cons_of_mem _ member)]

/-- Inside brackets everything up to the closing one belongs to the host. -/
theorem splitPort_inside {host tail : List Char} (plain : ∀ c ∈ host, c ≠ ']') :
    (splitPort true (host ++ tail)).1 = host ++ (splitPort true tail).1 := by
  induction host with
  | nil => rfl
  | cons c rest ih =>
    have stays : (if c = '[' then true else if c = ']' then false else true) = true := by
      rw [if_neg (plain c List.mem_cons_self)]
      exact ite_self true
    rw [List.cons_append, splitPort, if_neg (by simp), stays]
    simp only
    rw [ih fun other member => plain other (List.mem_cons_of_mem _ member), List.cons_append]

end Url
