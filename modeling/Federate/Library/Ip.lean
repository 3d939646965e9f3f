import Federate.Library.Text
import Federate.Library.Hex

/-!
# IP addresses as text

Reading an address as `std::net::IpAddr` does: an IPv4 address in four decimal octets without
leading zeros, or an IPv6 address in groups of hexadecimal digits, one run of which may be left
out and the last two of which may be written as an IPv4 address.
-/
namespace Ip

/-- An address. -/
inductive Addr where
  | v4 (a b c d : UInt8)
  | v6 (groups : Vector UInt16 8)
  deriving DecidableEq, Repr

/-- The value of a digit below the radix. -/
def digitOf (radix : ℕ) (c : Char) : Option ℕ := (Hex.digitValue c).filter (· < radix)

/-- The value of digits, most significant first. -/
def valueOf (radix : ℕ) (digits : List Char) : ℕ :=
  digits.foldl (fun n c => n * radix + (digitOf radix c).getD 0) 0

/-- `read_number`: all the digits that follow, at most so many, of a value within a limit. -/
def readNumber (radix maxDigits limit : ℕ) (allowZeroPrefix : Bool) (chars : List Char) :
    Option (ℕ × List Char) :=
  let digits := chars.takeWhile fun c => (digitOf radix c).isSome
  if digits = [] ∨ maxDigits < digits.length ∨ limit < valueOf radix digits ∨
      (allowZeroPrefix = false ∧ digits.head? = some '0' ∧ 1 < digits.length) then none
  else some (valueOf radix digits, chars.dropWhile fun c => (digitOf radix c).isSome)

/-- `read_given_char`. -/
def readGivenChar (c : Char) : List Char → Option (List Char)
  | [] => none
  | first :: rest => if first = c then some rest else none

/-- An octet of an IPv4 address. -/
def readOctet (chars : List Char) : Option (UInt8 × List Char) :=
  (readNumber 10 3 255 false chars).map fun read => (UInt8.ofNat read.1, read.2)

/-- `read_ipv4_addr`. -/
def readIpv4 (chars : List Char) : Option ((UInt8 × UInt8 × UInt8 × UInt8) × List Char) := do
  let (a, chars) ← readOctet chars
  let (b, chars) ← readOctet (← readGivenChar '.' chars)
  let (c, chars) ← readOctet (← readGivenChar '.' chars)
  let (d, chars) ← readOctet (← readGivenChar '.' chars)
  return ((a, b, c, d), chars)

/-- `read_separator`: all but the first item of a list follow a colon. -/
def separated (first : Bool) (chars : List Char) : Option (List Char) :=
  if first then some chars else readGivenChar ':' chars

/-- Two octets as a group. -/
def group (high low : UInt8) : UInt16 := UInt16.ofNat (256 * high.toNat + low.toNat)

/-- `read_groups`: as many groups as follow, at most so many; whether the last two were an IPv4
address. -/
def readGroups : ℕ → Bool → List Char → (List UInt16 × Bool) × List Char
  | 0, _, chars => (([], false), chars)
  | slots + 1, first, chars =>
    match (if 0 < slots then (separated first chars).bind readIpv4 else none) with
    | some ((a, b, c, d), rest) => (([group a b, group c d], true), rest)
    | none =>
      match (separated first chars).bind (readNumber 16 4 0xFFFF true) with
      | none => (([], false), chars)
      | some (g, rest) =>
        let later := readGroups slots false rest
        ((UInt16.ofNat g :: later.1.1, later.1.2), later.2)

/-- Eight groups, in order. -/
def ofGroups (groups : List UInt16) : Vector UInt16 8 := Vector.ofFn fun i => groups.getD i 0

/-- `read_ipv6_addr`. -/
def readIpv6 (chars : List Char) : Option (Vector UInt16 8 × List Char) :=
  let head := readGroups 8 true chars
  if head.1.1.length = 8 then some (ofGroups head.1.1, head.2)
  else if head.1.2 then none
  else do
    let rest ← readGivenChar ':' (← readGivenChar ':' head.2)
    let tail := readGroups (8 - (head.1.1.length + 1)) true rest
    let zeros := List.replicate (8 - (head.1.1.length + tail.1.1.length)) 0
    return (ofGroups (head.1.1 ++ zeros ++ tail.1.1), tail.2)

/-- The whole of a text, read as an IPv4 address. -/
def parseIpv4 (s : String) : Option Addr :=
  match readIpv4 s.toList with
  | some ((a, b, c, d), []) => some (.v4 a b c d)
  | _ => none

/-- The whole of a text, read as an IPv6 address. -/
def parseIpv6 (s : String) : Option Addr :=
  match readIpv6 s.toList with
  | some (groups, []) => some (.v6 groups)
  | _ => none

/-- `IpAddr::from_str`: an IPv4 address is tried first. -/
def parse (s : String) : Option Addr :=
  if (readIpv4 s.toList).isSome then parseIpv4 s else parseIpv6 s

/-! ## The characters of an address -/

/-- A character of an IPv4 address. -/
def OfIpv4 (c : Char) : Prop := (Hex.digitValue c).isSome ∨ c = '.'

/-- A character of an address. -/
def OfAddr (c : Char) : Prop := OfIpv4 c ∨ c = ':'

/-- The range of the characters of an address. -/
theorem OfAddr.range {c : Char} (member : OfAddr c) : c = '.' ∨ c = ':' ∨
    (48 ≤ c.toNat ∧ c.toNat ≤ 57) ∨ (65 ≤ c.toNat ∧ c.toNat ≤ 70) ∨
      (97 ≤ c.toNat ∧ c.toNat ≤ 102) := by
  rcases member with (digit | dot) | colon
  · unfold Hex.digitValue at digit
    split at digit
    · rename_i range
      exact .inr (.inr (.inl range))
    · split at digit
      · rename_i range
        exact .inr (.inr (.inr (.inr range)))
      · split at digit
        · rename_i range
          exact .inr (.inr (.inr (.inl range)))
        · cases digit
  · exact .inl dot
  · exact .inr (.inl colon)

/-- The input is what was read, all of it of one kind of characters, and what is left. -/
def Consumed (P : Char → Prop) (chars rest : List Char) : Prop :=
  ∃ used, chars = used ++ rest ∧ ∀ c ∈ used, P c

variable {P Q : Char → Prop} {chars rest rest' : List Char}

/-- Nothing was read. -/
theorem Consumed.refl : Consumed P chars chars := ⟨[], rfl, by simp⟩

/-- One part was read after another. -/
theorem Consumed.trans (first : Consumed P chars rest) (second : Consumed P rest rest') :
    Consumed P chars rest' := by
  obtain ⟨used, rfl, each⟩ := first
  obtain ⟨used', rfl, each'⟩ := second
  refine ⟨used ++ used', by rw [List.append_assoc], fun c member => ?_⟩
  exact (List.mem_append.mp member).elim (each c) (each' c)

/-- The characters may be of a wider kind. -/
theorem Consumed.mono (consumed : Consumed P chars rest) (wider : ∀ c, P c → Q c) :
    Consumed Q chars rest := by
  obtain ⟨used, split, each⟩ := consumed
  exact ⟨used, split, fun c member => wider c (each c member)⟩

theorem readNumber_consumed {radix maxDigits limit n : ℕ} {allowZeroPrefix : Bool}
    (read : readNumber radix maxDigits limit allowZeroPrefix chars = some (n, rest)) :
    Consumed (fun c => (Hex.digitValue c).isSome) chars rest := by
  simp only [readNumber] at read
  split at read
  · exact absurd read (by simp)
  · have left := (Prod.mk.inj (Option.some.inj read)).2
    refine ⟨chars.takeWhile fun c => (digitOf radix c).isSome, ?_, fun c member => ?_⟩
    · rw [← left, List.takeWhile_append_dropWhile]
    · have isDigit : (digitOf radix c).isSome = true :=
        List.mem_takeWhile_imp (p := fun c => (digitOf radix c).isSome) member
      cases found : Hex.digitValue c with
      | none => simp [digitOf, found] at isDigit
      | some value => simp [found]

theorem readGivenChar_consumed {c : Char} (read : readGivenChar c chars = some rest) :
    chars = c :: rest := by
  cases chars with
  | nil => exact absurd read (by simp [readGivenChar])
  | cons first tail =>
    rw [readGivenChar] at read
    split at read
    · rename_i same
      rw [same, Option.some.inj read]
    · exact absurd read (by simp)

theorem readOctet_consumed {octet : UInt8} (read : readOctet chars = some (octet, rest)) :
    Consumed OfIpv4 chars rest := by
  obtain ⟨number, found, same⟩ := Option.map_eq_some_iff.mp read
  rw [← (Prod.mk.inj same).2]
  exact (readNumber_consumed found).mono fun _ digit => .inl digit

/-- A dot and the octet after it. -/
theorem dotOctet_consumed {octet : UInt8}
    (dot : readGivenChar '.' chars = some rest) (read : readOctet rest = some (octet, rest')) :
    Consumed OfIpv4 chars rest' := by
  have one : Consumed OfIpv4 chars rest := ⟨['.'], readGivenChar_consumed dot, by simp [OfIpv4]⟩
  exact one.trans (readOctet_consumed read)

theorem readIpv4_consumed {octets : UInt8 × UInt8 × UInt8 × UInt8}
    (read : readIpv4 chars = some (octets, rest)) : Consumed OfIpv4 chars rest := by
  simp only [readIpv4, Option.bind_eq_bind, Option.bind_eq_some_iff, Option.pure_def,
    Option.some.injEq, Prod.mk.injEq, Prod.exists] at read
  obtain ⟨a, s₁, first, s₂, dot₂, b, s₃, second, s₄, dot₄, c, s₅, third, s₆, dot₆, d, s₇, fourth,
    -, rfl⟩ := read
  exact (((readOctet_consumed first).trans (dotOctet_consumed dot₂ second)).trans
    (dotOctet_consumed dot₄ third)).trans (dotOctet_consumed dot₆ fourth)

/-- The characters before an item that `separated` allows: none or a colon. -/
def separator (first : Bool) : List Char := if first then [] else [':']

theorem separated_eq_some {first : Bool} (read : separated first chars = some rest) :
    chars = separator first ++ rest := by
  cases first with
  | true => exact Option.some.inj read
  | false => exact readGivenChar_consumed read

/-- Groups are made of the characters of an address, and more than one of them, an IPv4 address
counting as one, are separated by a colon. -/
theorem readGroups_consumed (slots : ℕ) (first : Bool) (chars : List Char) :
    ∃ used, chars = used ++ (readGroups slots first chars).2 ∧ (∀ c ∈ used, OfAddr c) ∧
      (':' ∈ used ∨ (readGroups slots first chars).1.1.length ≤ if first then 2 else 0) := by
  induction slots generalizing first chars with
  | zero => exact ⟨[], rfl, by simp, .inr (Nat.zero_le _)⟩
  | succ slots ih =>
    have ofSeparator : ∀ c ∈ separator first, OfAddr c := by
      cases first <;> simp [separator, OfAddr]
    -- an item that is not the first one follows a colon
    have colonOr {used : List Char} {size : ℕ} (short : size ≤ 2) :
        ':' ∈ separator first ++ used ∨ size ≤ if first then 2 else 0 := by
      cases first <;> simp [separator, short]
    unfold readGroups
    split
    · rename_i a b c d rest found
      have read : (separated first chars).bind readIpv4 = some ((a, b, c, d), rest) := by
        split at found
        · exact found
        · exact absurd found (by simp)
      obtain ⟨start, before, address⟩ := Option.bind_eq_some_iff.mp read
      obtain ⟨used, split, each⟩ := readIpv4_consumed address
      refine ⟨separator first ++ used, ?_, fun c member => ?_, colonOr le_rfl⟩
      · rw [separated_eq_some before, split, List.append_assoc]
      · exact (List.mem_append.mp member).elim (ofSeparator c) fun inside => .inl (each c inside)
    · split
      · exact ⟨[], rfl, by simp, .inr (Nat.zero_le _)⟩
      · rename_i g rest found
        obtain ⟨start, before, number⟩ := Option.bind_eq_some_iff.mp found
        obtain ⟨used, split, each⟩ := readNumber_consumed number
        obtain ⟨more, later, each', colon⟩ := ih false rest
        refine ⟨separator first ++ (used ++ more), ?_, fun c member => ?_, ?_⟩
        · rw [separated_eq_some before, split, List.append_assoc, List.append_assoc, ← later]
        · rcases List.mem_append.mp member with inside | inside
          · exact ofSeparator c inside
          · exact (List.mem_append.mp inside).elim (fun digit => .inl (.inl (each c digit)))
              (each' c)
        · rcases colon with colon | short
          · exact .inl (by simp [colon])
          · rw [if_neg Bool.false_ne_true] at short
            exact colonOr (by rw [List.length_cons]; omega)

/-- An IPv6 address is made of the characters of an address, a colon among them. -/
theorem readIpv6_consumed {groups : Vector UInt16 8} (read : readIpv6 chars = some (groups, rest)) :
    ∃ used, chars = used ++ rest ∧ (∀ c ∈ used, OfAddr c) ∧ ':' ∈ used := by
  obtain ⟨used, split, each, colon⟩ := readGroups_consumed 8 true chars
  simp only [readIpv6] at read
  split at read
  · rename_i full
    rw [full] at colon
    have left := (Prod.mk.inj (Option.some.inj read)).2
    exact ⟨used, left ▸ split, each, colon.resolve_right (by decide)⟩
  · split at read
    · exact absurd read (by simp)
    · simp only [Option.bind_eq_bind, Option.bind_eq_some_iff, Option.pure_def, Option.some.injEq,
        Prod.mk.injEq] at read
      obtain ⟨s₁, first, s₂, second, -, left⟩ := read
      obtain ⟨more, split', each', -⟩ :=
        readGroups_consumed (8 - ((readGroups 8 true chars).1.1.length + 1)) true s₂
      refine ⟨used ++ (':' :: ':' :: more), ?_, fun c member => ?_, by simp⟩
      · rw [← left]
        conv_lhs => rw [split, readGivenChar_consumed first, readGivenChar_consumed second, split']
        simp
      · simp only [List.mem_append, List.mem_cons] at member
        rcases member with inside | rfl | rfl | inside
        · exact each c inside
        · exact .inr rfl
        · exact .inr rfl
        · exact each' c inside

variable {s : String} {a : Addr}

/-- The text of an IPv4 address. -/
theorem parseIpv4_chars (parsed : parseIpv4 s = some a) : ∀ c ∈ s.toList, OfIpv4 c := by
  unfold parseIpv4 at parsed
  split at parsed
  · rename_i octets read
    obtain ⟨used, split, each⟩ := readIpv4_consumed read
    rw [split, List.append_nil]
    exact each
  · exact absurd parsed (by simp)

/-- The text of an IPv6 address. -/
theorem parseIpv6_chars (parsed : parseIpv6 s = some a) :
    (∀ c ∈ s.toList, OfAddr c) ∧ ':' ∈ s.toList := by
  unfold parseIpv6 at parsed
  split at parsed
  · rename_i groups read
    obtain ⟨used, split, each, colon⟩ := readIpv6_consumed read
    rw [split, List.append_nil]
    exact ⟨each, colon⟩
  · exact absurd parsed (by simp)

/-- An address is one of the two kinds. -/
theorem parse_cases (parsed : parse s = some a) : parseIpv4 s = some a ∨ parseIpv6 s = some a := by
  unfold parse at parsed
  split at parsed
  · exact .inl parsed
  · exact .inr parsed

/-- The text of an address. -/
theorem parse_chars (parsed : parse s = some a) : ∀ c ∈ s.toList, OfAddr c := by
  rcases parse_cases parsed with four | six
  · exact fun c member => .inl (parseIpv4_chars four c member)
  · exact (parseIpv6_chars six).1

/-- A text that is an IPv6 address is read as that. -/
theorem parse_of_parseIpv6 {b : Addr} (six : parseIpv6 s = some b) (parsed : parse s = some a) :
    a = b := by
  rcases parse_cases parsed with four | six'
  · have colon := parseIpv4_chars four ':' (parseIpv6_chars six).2
    exact absurd colon (by simp [OfIpv4, Hex.digitValue])
  · exact Option.some.inj (six'.symm.trans six)

end Ip
