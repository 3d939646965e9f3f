import Federate.Dns.Wire

/-!
# DNS messages are read back

A name on the wire is its labels, each behind its length, up to an empty one. The parser of queries
and the skipping of names in answers walk over the same bytes, so that the question of any accepted
packet is skipped in the answer that echoes it.
-/

namespace Federate.Dns

open Outcome Octets

/-! ## Names on the wire -/

/-- Labels that a name on the wire can have. -/
def IsName (labels : List Bytes) : Prop := ∀ label ∈ labels, 1 ≤ label.length ∧ label.length ≤ 63

/-- The bytes of a name. -/
def wireName (labels : List Bytes) : Bytes := labels.flatMap wireLabel ++ [0]

/-- A length below 64 has neither of the pointer bits, and any other length has one. -/
theorem pointerBits (b : UInt8) : (b &&& 0xC0 = 0 ↔ b.toNat < 64) ∧
    (b.toNat < 64 → b &&& 0xC0 ≠ 0xC0) := by
  have all : ∀ n < 256, (UInt8.ofNat n &&& 0xC0 = 0 ↔ (UInt8.ofNat n).toNat < 64) ∧
      ((UInt8.ofNat n).toNat < 64 → UInt8.ofNat n &&& 0xC0 ≠ 0xC0) := by decide +kernel
  have one := all b.toNat b.toNat_lt
  rwa [UInt8.ofNat_toNat] at one

/-- The length of a label is read back. -/
theorem toNat_labelLength {label : Bytes} (short : label.length ≤ 63) :
    (UInt8.ofNat label.length).toNat = label.length := by
  rw [UInt8.toNat_ofNat']
  omega

/-- A name with a first label. -/
theorem wireName_cons (label : Bytes) (labels : List Bytes) :
    wireName (label :: labels) = UInt8.ofNat label.length :: (label ++ wireName labels) := by
  simp [wireName, wireLabel]

variable {packet rest : Bytes} {pos p : ℕ} {labels acc : List Bytes}

/-- The byte at a position where bytes are known. -/
theorem getElem_at {b : UInt8} (found : packet.drop pos = b :: rest) :
    ∃ within : pos < packet.length, packet[pos] = b ∧ packet.drop (pos + 1) = rest := by
  have within : pos < packet.length := by
    by_contra beyond
    rw [List.drop_of_length_le (not_lt.mp beyond)] at found
    cases found
  rw [List.drop_eq_getElem_cons within, List.cons.injEq] at found
  exact ⟨within, found.1, found.2⟩

/-- The labels of a name are read where it was written. -/
theorem questionLabels_at (named : IsName labels)
    (found : packet.drop pos = wireName labels ++ rest) :
    questionLabels packet pos acc = .ok (acc ++ labels, pos + (wireName labels).length) := by
  induction labels generalizing pos acc with
  | nil =>
    obtain ⟨within, zero, -⟩ := getElem_at found
    rw [questionLabels, dif_pos within]
    simp only [zero, if_true, List.append_nil]
    rfl
  | cons label labels ih =>
    obtain ⟨long, short⟩ := named label List.mem_cons_self
    rw [wireName_cons, List.cons_append, List.append_assoc] at found
    obtain ⟨within, length, after⟩ := getElem_at found
    have value : (UInt8.ofNat label.length).toNat = label.length := toNat_labelLength short
    have nonzero : UInt8.ofNat label.length ≠ 0 := by
      intro zero
      rw [zero] at value
      have nothing : (0 : UInt8).toNat = 0 := rfl
      omega
    have plain : UInt8.ofNat label.length &&& 0xC0 = 0 :=
      (pointerBits _).1.mpr (by omega)
    have taken : slice packet (pos + 1) label.length = some label :=
      slice_at (by omega) after
    rw [questionLabels, dif_pos within]
    simp only [length, nonzero, plain, if_false, ne_eq, not_true_eq_false, value, taken]
    rw [ih (fun other member => named other (List.mem_cons_of_mem _ member)) (drop_at after),
      wireName_cons, List.append_assoc, List.singleton_append, List.length_cons,
      List.length_append]
    congr 2
    omega

/-- The labels that are read are those of a name that stands there. -/
theorem questionLabels_eq_ok (read : questionLabels packet pos acc = .ok (labels, p)) :
    ∃ new rest, labels = acc ++ new ∧ IsName new ∧ packet.drop pos = wireName new ++ rest ∧
      p = pos + (wireName new).length := by
  fun_induction questionLabels packet pos acc with
  | case1 pos acc within len zero =>
    rw [Except.ok.injEq, Prod.mk.injEq] at read
    obtain ⟨rfl, rfl⟩ := read
    refine ⟨[], packet.drop (pos + 1), (List.append_nil _).symm, nofun, ?_, rfl⟩
    rw [List.drop_eq_getElem_cons within]
    exact congrArg (· :: _) zero
  | case2 => cases read
  | case3 => cases read
  | case4 pos acc within len nonzero plain label taken ih =>
    obtain ⟨new, rest, split, named, after, ends⟩ := ih read
    obtain ⟨tail, -, here, length⟩ := slice_eq_some.mp taken
    have short : len.toNat < 64 := (pointerBits len).1.mp (by simpa using plain)
    have long : len.toNat ≠ 0 := fun zero => nonzero (UInt8.toNat_inj.mp zero)
    have follows : tail = wireName new ++ rest := by
      rw [← after, ← length, drop_at here]
    refine ⟨label :: new, rest, by rw [split, List.append_assoc]; rfl, ?_, ?_, ?_⟩
    · intro other member
      rcases List.mem_cons.mp member with rfl | later
      · omega
      · exact named other later
    · rw [List.drop_eq_getElem_cons within, here, follows, wireName_cons, List.cons_append,
        List.append_assoc, length, UInt8.ofNat_toNat]
    · rw [ends, wireName_cons, List.length_cons, List.length_append]
      omega
  | case5 => cases read

/-! ## Queries -/

variable {q : DnsQuery}

/-- The packets that are accepted, and the query that is read: a question stands after the header,
its name, its type and its class, whatever follows. -/
theorem parse_eq_ok : DnsQuery.parse packet = .ok q ↔ ∃ labels fixed rest,
    IsName labels ∧ fixed.length = 4 ∧ 12 ≤ packet.length ∧
      packet.drop 12 = wireName labels ++ (fixed ++ rest) ∧
      word16 packet 2 &&& 0x8000 = 0 ∧ word16 packet 4 ≠ 0 ∧
      q = ⟨word16 packet 0, joined labels, .fromU16 (word16 fixed 0), wireName labels ++ fixed,
        decide (word16 packet 2 &&& 0x0100 ≠ 0)⟩ := by
  simp only [DnsQuery.parse, bind_eq_ok, rejectIf_eq_ok, okOr_eq_ok, pure_eq_ok, exists_unit,
    Prod.exists, not_lt, not_not]
  constructor
  · intro accepted
    obtain ⟨long, query, asks, labels, p, read, fixed, taken, same⟩ := accepted
    obtain ⟨new, tail, split, named, found, ends⟩ := questionLabels_eq_ok read
    rw [List.nil_append] at split
    obtain ⟨rest, within, after, length⟩ := slice_eq_some.mp taken
    have follows : tail = fixed ++ rest := by rw [← after, ends, drop_at found]
    have question : (packet.drop 12).take (p + 4 - 12) = wireName labels ++ fixed := by
      have size : p + 4 - 12 = (wireName new ++ fixed).length := by
        rw [ends, List.length_append, length]
        omega
      rw [found, follows, ← List.append_assoc, size, List.take_left, split]
    rw [question] at same
    exact ⟨labels, fixed, rest, split ▸ named, length, long, by rw [found, follows, split], query,
      asks, same.symm⟩
  · intro accepted
    obtain ⟨labels, fixed, rest, named, length, long, found, query, asks, same⟩ := accepted
    have within : 12 + (wireName labels).length ≤ packet.length := by
      have total := congrArg List.length found
      rw [List.length_drop, List.length_append] at total
      omega
    have after : packet.drop (12 + (wireName labels).length) = fixed ++ rest := drop_at found
    have question : (packet.drop 12).take (12 + (wireName labels).length + 4 - 12) =
        wireName labels ++ fixed := by
      have size : 12 + (wireName labels).length + 4 - 12 = (wireName labels ++ fixed).length := by
        rw [List.length_append, length]
        omega
      rw [found, ← List.append_assoc, size, List.take_left]
    refine ⟨long, query, asks, labels, _, questionLabels_at named found, fixed, ?_, ?_⟩
    · rw [← length]
      exact slice_at within after
    · rw [question, same]

/-! ## Answers -/

/-- A name is skipped where it was written. -/
theorem skipName_at (named : IsName labels) (found : packet.drop pos = wireName labels ++ rest) :
    skipName packet pos = .ok (pos + (wireName labels).length) := by
  induction labels generalizing pos with
  | nil =>
    obtain ⟨within, zero, -⟩ := getElem_at found
    have plain : ¬(0 : UInt8) &&& 0xC0 = 0xC0 := by decide
    rw [skipName, dif_pos within]
    simp only [zero, plain, if_false, if_true]
    rfl
  | cons label labels ih =>
    obtain ⟨long, short⟩ := named label List.mem_cons_self
    rw [wireName_cons, List.cons_append, List.append_assoc] at found
    obtain ⟨within, length, after⟩ := getElem_at found
    have value : (UInt8.ofNat label.length).toNat = label.length := toNat_labelLength short
    have nonzero : UInt8.ofNat label.length ≠ 0 := by
      intro zero
      rw [zero] at value
      have nothing : (0 : UInt8).toNat = 0 := rfl
      omega
    have plain : UInt8.ofNat label.length &&& 0xC0 ≠ 0xC0 := (pointerBits _).2 (by omega)
    rw [skipName, dif_pos within]
    simp only [length, nonzero, plain, if_false, value]
    rw [ih (fun other member => named other (List.mem_cons_of_mem _ member)) (drop_at after),
      wireName_cons, List.length_cons, List.length_append]
    congr 1
    omega

/-- A pointer is skipped where it was written. -/
theorem skipName_pointer (found : packet.drop pos = 0xC0 :: 0x0C :: rest) :
    skipName packet pos = .ok (pos + 2) := by
  obtain ⟨within, pointer, -⟩ := getElem_at found
  have marks : (0xC0 : UInt8) &&& 0xC0 = 0xC0 := by decide
  rw [skipName, dif_pos within]
  simp only [pointer, marks, if_true]

/-- The words after the first of a list of words. -/
theorem drop_words (words : List UInt16) {i : ℕ} (within : i < words.length) :
    (words.flatMap be16).drop (2 * i) = be16 words[i] ++ (words.drop (i + 1)).flatMap be16 := by
  induction words generalizing i with
  | nil => cases within
  | cons word words ih =>
    cases i with
    | zero => rfl
    | succ i =>
      have later : i < words.length := Nat.lt_of_succ_lt_succ within
      have double : 2 * (i + 1) = (be16 word).length + 2 * i := by
        rw [length_be16]
        omega
      rw [List.flatMap_cons, double, ← List.drop_drop, List.drop_left, ih later]
      rfl

/-- The number of octets of an IPv6 address. -/
theorem length_octets_v6 (groups : Vector UInt16 8) : (octets (.v6 groups)).length = 16 := by
  have constant : groups.toList.map (fun word => (be16 word).length) = List.replicate 8 2 := by
    rw [List.eq_replicate_iff, List.length_map, Vector.length_toList]
    refine ⟨rfl, fun n member => ?_⟩
    obtain ⟨word, -, rfl⟩ := List.mem_map.mp member
    rfl
  rw [octets, List.length_flatMap, constant]
  rfl

/-- The number of octets of an address. -/
theorem length_octets (ip : Ip.Addr) : (octets ip).length = 4 ∨ (octets ip).length = 16 := by
  cases ip with
  | v4 => exact .inl rfl
  | v6 groups => exact .inr (length_octets_v6 groups)

/-- The octets of an address are read back as the address. -/
theorem address_octets (ip : Ip.Addr) : address (recordType ip) (octets ip) = some ip := by
  cases ip with
  | v4 a b c d => rfl
  | v6 groups =>
    have size := length_octets_v6 groups
    have kind : recordType (.v6 groups) = 28 := rfl
    have other : ¬((28 : UInt16) = 1 ∧ (octets (.v6 groups)).length = 4) := by
      rintro ⟨type, -⟩
      exact absurd type (by decide)
    have same : (Vector.ofFn fun i : Fin 8 => word16 (octets (.v6 groups)) (2 * i)) = groups := by
      refine Vector.ext fun i within => ?_
      have inside : i < groups.toList.length := by rwa [Vector.length_toList]
      rw [Vector.getElem_ofFn, octets]
      have read := word16_at _ (drop_words groups.toList inside)
      simpa using read
    rw [address, kind, if_neg other, if_pos ⟨rfl, size⟩, same]

/-- The fixed part of a record. -/
def recordHead (ttl : UInt32) (ip : Ip.Addr) : Bytes :=
  be16 (recordType ip) ++ (be16 1 ++ (be32 ttl ++ be16 (UInt16.ofNat (octets ip).length)))

/-- A record is a pointer, its fixed part and the address. -/
theorem record_eq (ttl : UInt32) (ip : Ip.Addr) :
    record ttl ip = 0xC0 :: 0x0C :: (recordHead ttl ip ++ octets ip) := by
  simp only [record, recordHead, List.append_assoc, List.cons_append, List.nil_append]

/-- The length of the data of a record. -/
theorem recordHead_length (ttl : UInt32) (ip : Ip.Addr) :
    (word16 (recordHead ttl ip) 8).toNat = (octets ip).length := by
  have value : word16 (recordHead ttl ip) 8 = UInt16.ofNat (octets ip).length :=
    word16_at [] (by rw [List.append_nil]; rfl)
  rw [value, UInt16.toNat_ofNat']
  rcases length_octets ip with four | sixteen
  · omega
  · omega

/-- The records of addresses are read where they were written. -/
theorem readAnswers_at {ips : List Ip.Addr} {ttl : UInt32} {answers : List (Ip.Addr × UInt32)}
    (found : packet.drop pos = ips.flatMap (record ttl) ++ rest) :
    readAnswers packet ips.length pos answers = .ok (answers ++ ips.map (·, ttl)) := by
  induction ips generalizing pos answers with
  | nil => simp [readAnswers]
  | cons ip ips ih =>
    rw [List.flatMap_cons, record_eq, List.append_assoc, List.cons_append, List.cons_append,
      List.append_assoc] at found
    obtain ⟨within, -, next⟩ := getElem_at found
    obtain ⟨within', -, head⟩ := getElem_at next
    have taken : slice packet (pos + 2) 10 = some (recordHead ttl ip) :=
      (slice_at (by omega) head : slice packet (pos + 2) (recordHead ttl ip).length = _)
    have tail := drop_at head
    have size : (recordHead ttl ip).length = 10 := rfl
    have kind : word16 (recordHead ttl ip) 0 = recordType ip := word16_at _ rfl
    have life : word32 (recordHead ttl ip) 4 = ttl :=
      word32_at (be16 (UInt16.ofNat (octets ip).length)) rfl
    have length := recordHead_length ttl ip
    have reached : pos + 2 + 10 ≤ packet.length := by
      have total := congrArg List.length head
      rw [List.length_drop, List.length_append, size] at total
      omega
    have data : slice packet (pos + 2 + 10) (octets ip).length = some (octets ip) :=
      slice_at reached tail
    have later : packet.drop (pos + 2 + 10 + (octets ip).length) =
        ips.flatMap (record ttl) ++ rest := drop_at tail
    simp only [List.length_cons, readAnswers, skipName_pointer found, taken, okOr, kind, life,
      length, data, address_octets, bind, Except.bind]
    rw [ih later, List.map_cons, List.append_assoc]
    rfl

/-! ## Round trips -/

/-- The words of a header. -/
theorem header_words (query : DnsQuery) (rcode : UInt8) (ancount : UInt16) (rest : Bytes) :
    ((header query rcode ancount ++ rest).drop 12 = rest) ∧
      word16 (header query rcode ancount ++ rest) 4 = 1 ∧
        word16 (header query rcode ancount ++ rest) 6 = ancount := by
  refine ⟨rfl, ?_, ?_⟩
  · exact word16_at (be16 ancount ++ be16 0 ++ be16 0 ++ rest) rfl
  · exact word16_at (be16 0 ++ be16 0 ++ rest) rfl

/-- The code of a header. -/
theorem header_rcode (query : DnsQuery) {rcode : UInt8} (code : rcode = 0 ∨ rcode = 2)
    (ancount : UInt16) (rest : Bytes) :
    (word16 (header query rcode ancount ++ rest) 2 &&& 0x000F).toUInt8 = rcode := by
  have flags : word16 (header query rcode ancount ++ rest) 2 =
      (if query.recursionDesired then (0x8000 ||| 0x0400 ||| 0x0100 : UInt16) else
        0x8000 ||| 0x0400) ||| 0x0080 ||| (rcode.toUInt16 &&& 0x000F) :=
    word16_at (be16 1 ++ be16 ancount ++ be16 0 ++ be16 0 ++ rest) rfl
  rw [flags]
  cases query.recursionDesired with
  | true => rcases code with rfl | rfl <;> decide
  | false => rcases code with rfl | rfl <;> decide

/-- What is read of an answer that echoes the question of an accepted packet. -/
theorem parseAnswers_at (accepted : DnsQuery.parse packet = .ok q) {rcode : UInt8}
    (code : rcode = 0 ∨ rcode = 2) (ips : List Ip.Addr) (few : ips.length ≤ 65535) (ttl : UInt32) :
    parseAnswers (header q rcode (UInt16.ofNat ips.length) ++ q.questionBytes ++
      ips.flatMap (record ttl)) = .ok (rcode, ips.map (·, ttl)) := by
  obtain ⟨labels, fixed, rest, named, length, long, found, query, asks, same⟩ :=
    parse_eq_ok.mp accepted
  have question : q.questionBytes = wireName labels ++ fixed := by rw [same]
  rw [question, List.append_assoc]
  obtain ⟨after, one, count⟩ := header_words q rcode (UInt16.ofNat ips.length)
    (wireName labels ++ fixed ++ ips.flatMap (record ttl))
  have rcodes := header_rcode q code (UInt16.ofNat ips.length)
    (wireName labels ++ fixed ++ ips.flatMap (record ttl))
  generalize answer : header q rcode (UInt16.ofNat ips.length) ++
    (wireName labels ++ fixed ++ ips.flatMap (record ttl)) = response at after one count rcodes ⊢
  have size : ¬response.length < 12 := by
    rw [← answer, List.length_append]
    have head : (header q rcode (UInt16.ofNat ips.length)).length = 12 := rfl
    omega
  have skips : skipQuestions response 1 12 = .ok (12 + (wireName labels).length + 4) := by
    rw [List.append_assoc] at after
    simp only [skipQuestions, skipName_at named after, bind, Except.bind]
  have records : response.drop (12 + (wireName labels).length + 4) =
      ips.flatMap (record ttl) ++ [] := by
    rw [List.append_nil, ← length, ← List.drop_drop, ← List.drop_drop, after, List.append_assoc,
      List.drop_left, List.drop_left]
  have number : (UInt16.ofNat ips.length).toNat = ips.length := by
    rw [UInt16.toNat_ofNat']
    omega
  have ones : (1 : UInt16).toNat = 1 := rfl
  simp only [parseAnswers, rejectIf, if_neg size, one, count, rcodes, number, ones, skips,
    readAnswers_at records, bind, Except.bind, List.nil_append]
  rfl

/-! ## Cut answers -/

/-- A name that is skipped in the first bytes is skipped in all of them. -/
theorem skipName_initial {short : Bytes} (initial : short <+: packet)
    (skipped : skipName short pos = .ok p) : skipName packet pos = .ok p := by
  fun_induction skipName short pos with
  | case1 pos within len pointer =>
    have inside : pos < packet.length := within.trans_le initial.length_le
    have same : packet[pos] = len := (initial.getElem within).symm
    rw [skipName, dif_pos inside]
    simp only [same, pointer, if_true]
    exact skipped
  | case2 pos within len plain zero =>
    have inside : pos < packet.length := within.trans_le initial.length_le
    have same : packet[pos] = len := (initial.getElem within).symm
    rw [skipName, dif_pos inside]
    simp only [same, zero, if_true]
    exact skipped
  | case3 pos within len plain nonzero ih =>
    have inside : pos < packet.length := within.trans_le initial.length_le
    have same : packet[pos] = len := (initial.getElem within).symm
    rw [skipName, dif_pos inside]
    simp only [same, plain, nonzero, if_false]
    exact ih skipped
  | case4 => cases skipped

/-- When the records of addresses are read in the first bytes, all of them are there. -/
theorem readAnswers_initial {short : Bytes} (initial : short <+: packet) {ips : List Ip.Addr}
    {ttl : UInt32} (nonempty : ips ≠ []) {answers all : List (Ip.Addr × UInt32)}
    (found : packet.drop pos = ips.flatMap (record ttl) ++ rest)
    (read : readAnswers short ips.length pos answers = .ok all) :
    pos + (ips.flatMap (record ttl)).length ≤ short.length := by
  induction ips generalizing pos answers with
  | nil => exact absurd rfl nonempty
  | cons ip ips ih =>
    rw [List.flatMap_cons, record_eq, List.append_assoc, List.cons_append, List.cons_append,
      List.append_assoc] at found
    obtain ⟨within, -, next⟩ := getElem_at found
    obtain ⟨within', -, head⟩ := getElem_at next
    have tail := drop_at head
    have size : (recordHead ttl ip).length = 10 := rfl
    rw [List.length_cons, readAnswers] at read
    obtain ⟨after, skipped, read⟩ := bind_eq_ok.mp read
    have here : pos + 2 = after := by
      have pointer := skipName_pointer found
      rw [skipName_initial initial skipped] at pointer
      exact (Except.ok.inj pointer).symm
    rw [← here] at read
    obtain ⟨fixed, taken, read⟩ := bind_eq_ok.mp read
    have same : fixed = recordHead ttl ip := by
      have there := (slice_initial initial (okOr_eq_ok.mp taken)).1
      rw [← size, slice_at (by omega) head] at there
      exact (Option.some.inj there).symm
    obtain ⟨rdata, data, read⟩ := bind_eq_ok.mp read
    rw [same, recordHead_length ttl ip] at data read
    have inside := (slice_initial initial (okOr_eq_ok.mp data)).2
    rw [List.flatMap_cons, record_eq, List.length_append, List.length_cons, List.length_cons,
      List.length_append, size]
    by_cases last : ips = []
    · rw [last, List.flatMap_nil, List.length_nil]
      omega
    · have later : packet.drop (pos + 2 + 10 + (octets ip).length) =
          ips.flatMap (record ttl) ++ rest := drop_at tail
      have more := ih last later read
      omega

/-- The first bytes of an answer are no answer when an address is cut. -/
theorem parseAnswers_cut (accepted : DnsQuery.parse packet = .ok q) {rcode : UInt8}
    {ips : List Ip.Addr} (nonempty : ips ≠ []) (few : ips.length ≤ 65535) (ttl : UInt32) {n : ℕ}
    (long : 12 ≤ n) (cut : n < (header q rcode (UInt16.ofNat ips.length) ++ q.questionBytes ++
      ips.flatMap (record ttl)).length) (answer : UInt8 × List (Ip.Addr × UInt32)) :
    parseAnswers ((header q rcode (UInt16.ofNat ips.length) ++ q.questionBytes ++
      ips.flatMap (record ttl)).take n) ≠ .ok answer := by
  intro read
  obtain ⟨labels, fixed, rest, named, length, -, -, -, -, same⟩ := parse_eq_ok.mp accepted
  have question : q.questionBytes = wireName labels ++ fixed := by rw [same]
  rw [question, List.append_assoc] at read cut
  have head : (header q rcode (UInt16.ofNat ips.length)).length = 12 := rfl
  have words := header_words q rcode (UInt16.ofNat ips.length)
    ((wireName labels ++ fixed ++ ips.flatMap (record ttl)).take (n - 12))
  have after := (header_words q rcode (UInt16.ofNat ips.length)
    (wireName labels ++ fixed ++ ips.flatMap (record ttl))).1
  have short : (header q rcode (UInt16.ofNat ips.length) ++
      (wireName labels ++ fixed ++ ips.flatMap (record ttl))).take n =
        header q rcode (UInt16.ofNat ips.length) ++
          (wireName labels ++ fixed ++ ips.flatMap (record ttl)).take (n - 12) := by
    rw [List.take_append, head, List.take_of_length_le (by omega)]
  rw [← short] at words
  generalize whole : header q rcode (UInt16.ofNat ips.length) ++
    (wireName labels ++ fixed ++ ips.flatMap (record ttl)) = response at *
  have initial : response.take n <+: response := List.take_prefix n response
  have number : (UInt16.ofNat ips.length).toNat = ips.length := by
    rw [UInt16.toNat_ofNat']
    omega
  simp only [parseAnswers, bind_eq_ok, words.2.1, words.2.2, number] at read
  obtain ⟨-, -, pos, skips, answers, listed, -⟩ := read
  have ones : (1 : UInt16).toNat = 1 := rfl
  rw [ones, skipQuestions] at skips
  obtain ⟨next, skipped, ends⟩ := bind_eq_ok.mp skips
  rw [List.append_assoc] at after
  have here : 12 + (wireName labels).length = next := by
    have name := skipName_at named after
    rw [skipName_initial initial skipped] at name
    exact (Except.ok.inj name).symm
  have start : next + 4 = pos := Except.ok.inj ends
  have records : response.drop pos = ips.flatMap (record ttl) ++ [] := by
    rw [← start, ← here, List.append_nil, ← length, ← List.drop_drop, ← List.drop_drop, after,
      List.drop_left, List.drop_left]
  have inside := readAnswers_initial initial nonempty records listed
  have total := congrArg List.length whole
  rw [List.length_take] at inside
  rw [List.length_append, List.length_append, List.length_append] at total
  omega

/-! ## Names of text -/

/-- Text of labels: not empty, at most 63 bytes, and without a dot. -/
def IsText (labels : List String) : Prop :=
  ∀ label ∈ labels, 1 ≤ Text.byteLen label ∧ Text.byteLen label ≤ 63 ∧ '.' ∉ label.toList

/-- A name of labels ends with a character of its last label. -/
theorem name_ends {labels : List String} (nonempty : labels ≠ []) (text : IsText labels) :
    ∃ front c, (String.intercalate "." labels).toList = front ++ [c] ∧ c ≠ '.' := by
  rw [String.toList_intercalate]
  induction labels with
  | nil => exact absurd rfl nonempty
  | cons label labels ih =>
    cases labels with
    | nil =>
      obtain ⟨long, -, noDot⟩ := text label List.mem_cons_self
      have filled : label.toList ≠ [] := by
        intro empty
        rw [Text.byteLen, empty] at long
        cases long
      refine ⟨label.toList.dropLast, label.toList.getLast filled, ?_, fun same => ?_⟩
      · rw [List.dropLast_append_getLast]
        exact List.intercalate_singleton
      · exact noDot (same ▸ List.getLast_mem filled)
    | cons next labels =>
      obtain ⟨front, c, ends, other⟩ := ih (List.cons_ne_nil _ _)
        fun later member => text later (List.mem_cons_of_mem _ member)
      refine ⟨label.toList ++ ['.'] ++ front, c, ?_, other⟩
      rw [List.map_cons, List.map_cons, List.intercalate_cons_cons, ← List.map_cons, ends,
        ← List.append_assoc]
      rfl

/-- A name of labels does not end with a dot. -/
theorem trimEndMatches_name {labels : List String} (nonempty : labels ≠ []) (text : IsText labels) :
    Text.trimEndMatches '.' (String.intercalate "." labels) = String.intercalate "." labels := by
  obtain ⟨front, c, ends, other⟩ := name_ends nonempty text
  rw [← String.toList_inj, Text.trimEndMatches, Text.toList_onChars, ends,
    List.rdropWhile_concat_neg _ _ _ (by simpa using other)]

/-- A name is split into its labels. -/
theorem splitOn_name {labels : List String} (nonempty : labels ≠ []) (text : IsText labels) :
    (String.intercalate "." labels).toList.splitOn '.' = labels.map String.toList := by
  have dot : (".").toList = ['.'] := rfl
  rw [String.toList_intercalate, dot, List.splitOn_intercalate]
  · intro chars member
    obtain ⟨label, within, rfl⟩ := List.mem_map.mp member
    exact (text label within).2.2
  · simpa using nonempty

/-- The labels of a name of text are those of a name on the wire. -/
theorem isName_encode {labels : List String} (text : IsText labels) :
    IsName (labels.map Utf8.encode) := by
  intro bytes member
  obtain ⟨label, within, rfl⟩ := List.mem_map.mp member
  rw [Utf8.length_encode]
  exact ⟨(text label within).1, (text label within).2.1⟩

/-- A query for a name of labels has the labels behind its header. -/
theorem buildQuery_eq (id qtype : UInt16) {labels : List String} (nonempty : labels ≠ [])
    (text : IsText labels) : buildQuery id (String.intercalate "." labels) qtype =
      be16 id ++ be16 0x0100 ++ be16 1 ++ [0, 0, 0, 0, 0, 0] ++
        (wireName (labels.map Utf8.encode) ++ (be16 qtype ++ be16 1 ++ [])) := by
  have wire : ((String.intercalate "." labels).toList.splitOn '.').flatMap
      (fun label => wireLabel (Utf8.encode (String.ofList label))) ++ [0] =
        wireName (labels.map Utf8.encode) := by
    rw [splitOn_name nonempty text, wireName, List.flatMap_map, List.flatMap_map]
    simp only [String.ofList_toList]
  rw [← wire, buildQuery, trimEndMatches_name nonempty text]
  simp only [List.append_assoc, List.append_nil]

/-- A query for a name of labels is read back. -/
theorem parse_buildQuery (id qtype : UInt16) {labels : List String} (nonempty : labels ≠ [])
    (text : IsText labels) : ∃ question,
      DnsQuery.parse (buildQuery id (String.intercalate "." labels) qtype) =
        .ok ⟨id, String.intercalate "." labels, .fromU16 qtype, question, true⟩ := by
  have split := buildQuery_eq id qtype nonempty text
  have named := isName_encode text
  have name : joined (labels.map Utf8.encode) = String.intercalate "." labels := by
    rw [joined, List.map_map]
    congr 1
    refine (List.map_congr_left fun label _ => ?_).trans (List.map_id _)
    exact Utf8.fromUtf8Lossy_encode label
  have words {pos : ℕ} {v : UInt16} {rest : Bytes}
      (there : (be16 id ++ be16 0x0100 ++ be16 1 ++ [0, 0, 0, 0, 0, 0] ++
        (wireName (labels.map Utf8.encode) ++ (be16 qtype ++ be16 1 ++ []))).drop pos =
          be16 v ++ rest) :
      word16 (buildQuery id (String.intercalate "." labels) qtype) pos = v :=
    word16_at _ (split ▸ there)
  have identity : word16 (buildQuery id (String.intercalate "." labels) qtype) 0 = id := words rfl
  have flags : word16 (buildQuery id (String.intercalate "." labels) qtype) 2 = 0x0100 := words rfl
  have one : word16 (buildQuery id (String.intercalate "." labels) qtype) 4 = 1 := words rfl
  have kind : word16 (be16 qtype ++ be16 1) 0 = qtype := word16_at _ rfl
  have recursion : decide ((0x0100 : UInt16) &&& 0x0100 ≠ 0) = true := by decide
  refine ⟨wireName (labels.map Utf8.encode) ++ (be16 qtype ++ be16 1), parse_eq_ok.mpr
    ⟨labels.map Utf8.encode, be16 qtype ++ be16 1, [], named, rfl, ?_, ?_, ?_, ?_, ?_⟩⟩
  · rw [split, List.length_append]
    have head : (be16 id ++ be16 0x0100 ++ be16 1 ++ [0, 0, 0, 0, 0, 0]).length = 12 := rfl
    omega
  · rw [split]
    rfl
  · rw [flags]
    decide
  · rw [one]
    decide
  · rw [identity, flags, kind, name, recursion]

/-- Queries for names of labels are read back, and so are the addresses of the answers to every
packet that is accepted. -/
theorem codec_roundTrip :
    (∀ (id qtype : UInt16) (labels : List String), labels ≠ [] → IsText labels →
      ∃ question, DnsQuery.parse (buildQuery id (String.intercalate "." labels) qtype) =
        .ok ⟨id, String.intercalate "." labels, .fromU16 qtype, question, true⟩) ∧
    ∀ packet q, DnsQuery.parse packet = .ok q →
      (∀ (ips : List Ip.Addr) (ttl : UInt32), ips.length ≤ 65535 →
        parseAnswers (buildResponse packet q ips ttl) = .ok (0, ips.map (·, ttl))) ∧
      parseAnswers (buildServfail packet q) = .ok (2, []) := by
  refine ⟨fun id qtype labels nonempty text => parse_buildQuery id qtype nonempty text, ?_⟩
  intro packet q accepted
  constructor
  · intro ips ttl few
    exact parseAnswers_at accepted (.inl rfl) ips few ttl
  · have read := parseAnswers_at accepted (.inr rfl) [] (by decide) 0
    rwa [List.flatMap_nil, List.append_nil] at read

/-- A query for the name of a domain is read back, and so is the answer to it. -/
theorem homeFed_roundTrip : ∃ q, DnsQuery.parse (buildQuery 0x1234 "home.fed" 1) = .ok q ∧
    q.name = "home.fed" ∧
      parseAnswers (buildResponse (buildQuery 0x1234 "home.fed" 1) q [.v4 45 1 1 1] 30) =
        .ok (0, [(.v4 45 1 1 1, 30)]) := by
  have text : IsText ["home", "fed"] := by
    simp [IsText, Text.byteLen]
    decide
  obtain ⟨question, read⟩ := codec_roundTrip.1 0x1234 1 ["home", "fed"] (by simp) text
  exact ⟨_, read, rfl, (codec_roundTrip.2 _ _ read).1 [.v4 45 1 1 1] 30 (by decide)⟩

end Federate.Dns
