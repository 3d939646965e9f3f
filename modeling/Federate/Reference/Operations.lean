import Federate.Library.JsonPrint
import Federate.Resolution.Environment
import Federate.Verif.Records

/-!
# Reference operations

Concrete operations in place of the third-party ones: serializers that print JSON, readers that
invert them, the text of a time, and a checksum in place of the hash and of the signatures. The
laws that the results rely on hold of them, so that a result can be applied to concrete inputs.
-/

namespace Federate.Reference

open Json Outcome

/-! ## Checksums -/

/-- The FNV-1a checksum. -/
def checksum (bytes : Bytes) : UInt64 :=
  bytes.foldl (fun sum b => (sum ^^^ b.toUInt64) * 1099511628211) 14695981039346656037

/-- The bytes of a checksum, repeated to a length. -/
def digest (length : ℕ) (bytes : Bytes) : Vector UInt8 length :=
  let sum := checksum bytes
  Vector.ofFn fun i => (sum >>> (8 * (UInt64.ofNat i % 8))).toUInt8

/-! ## Times -/

/-- The proleptic Gregorian year, month and day of a day since the epoch. -/
def civil (days : ℤ) : ℤ × ℤ × ℤ :=
  let shifted := days + 719468
  let era := shifted / 146097
  let dayOfEra := shifted % 146097
  let yearOfEra :=
    (dayOfEra - dayOfEra / 1460 + dayOfEra / 36524 - dayOfEra / 146096) / 365
  let dayOfYear := dayOfEra - (365 * yearOfEra + yearOfEra / 4 - yearOfEra / 100)
  let shiftedMonth := (5 * dayOfYear + 2) / 153
  let day := dayOfYear - (153 * shiftedMonth + 2) / 5 + 1
  let month := if shiftedMonth < 10 then shiftedMonth + 3 else shiftedMonth - 9
  (yearOfEra + era * 400 + (if month ≤ 2 then 1 else 0), month, day)

/-- The day since the epoch of a year, month and day. -/
def daysFromCivil (year month day : ℤ) : ℤ :=
  let shifted := if month ≤ 2 then year - 1 else year
  let era := shifted / 400
  let yearOfEra := shifted % 400
  let dayOfYear := (153 * (if 2 < month then month - 3 else month + 9) + 2) / 5 + day - 1
  era * 146097 + (yearOfEra * 365 + yearOfEra / 4 - yearOfEra / 100 + dayOfYear) - 719468

/-- A number with at least so many digits. -/
def padded (width : ℕ) (n : ℤ) : List Char :=
  let digits := Nat.toDigits 10 n.toNat
  List.replicate (width - digits.length) '0' ++ digits

/-- The RFC 3339 text of a time in UTC, with as many digits of the second as it needs. -/
def timeText (t : DateTime) : String :=
  let seconds := t.timestamp
  let nanos := t.nanos % 1000000000
  let (year, month, day) := civil (seconds / 86400)
  let second := seconds % 86400
  let fraction :=
    if nanos = 0 then []
    else if nanos % 1000000 = 0 then '.' :: padded 3 (nanos / 1000000)
    else if nanos % 1000 = 0 then '.' :: padded 6 (nanos / 1000)
    else '.' :: padded 9 nanos
  String.ofList (padded 4 year ++ ['-'] ++ padded 2 month ++ ['-'] ++ padded 2 day ++ ['T'] ++
    padded 2 (second / 3600) ++ [':'] ++ padded 2 (second / 60 % 60) ++ [':'] ++
    padded 2 (second % 60) ++ fraction ++ "+00:00".toList)

/-- The digits at a position, as a number. -/
def numberAt (chars : List Char) (start width : ℕ) : Option ℤ :=
  let digits := (chars.drop start).take width
  if digits.length = width ∧ digits.all Char.isDigit = true then
    some (Nat.ofDigitChars 10 digits 0)
  else none

/-- Read an RFC 3339 time of whole seconds in UTC. -/
def readTime (text : String) : Option DateTime := do
  let chars := text.toList
  let year ← numberAt chars 0 4
  let month ← numberAt chars 5 2
  let day ← numberAt chars 8 2
  let hour ← numberAt chars 11 2
  let minute ← numberAt chars 14 2
  let second ← numberAt chars 17 2
  if chars.drop 19 = "+00:00".toList ∨ chars.drop 19 = ['Z'] then
    some ⟨(daysFromCivil year month day * 86400 + hour * 3600 + minute * 60 + second) * 1000000000⟩
  else none

/-! ## The operations -/

/-- The third-party operations of every component. -/
scoped instance : Externals where
  blake3 := digest 32
  verifyingKey key := key
  signMessage key message := digest 64 (key.toList ++ message)
  verifyMessage key message signature := signature == digest 64 (key.toList ++ message)
  toRfc3339 := timeText
  parseFromRfc3339 := readTime
  toVec := compact
  toVecPretty := pretty 0

/-- Signatures verify. -/
theorem signaturesVerify : SignaturesVerify := fun _ _ => beq_self_eq_true _

/-- The compact text of scalars is JSON. -/
theorem compactText : CompactText where
  tokens :=
    { null := rfl
      bool := fun b => by cases b <;> rfl
      number := fun n => by
        have text : Externals.toVec (.num n) = scalarText (.num n) := rfl
        rw [text]
        exact tokens_scalarText.number n
      opens := fun s => tokens_scalarText.opens s
      string := fun s t => by
        have text (s : String) : Externals.toVec (.str s) = scalarText (.str s) := rfl
        rw [text, text]
        exact tokens_scalarText.string s t }
  integers := fun m n left right same => by
    have readable {n : Number} (integral : n.Integral) : n.Readable := by
      cases n with
      | posInt n => trivial
      | negInt n => exact integral
      | float bits => exact integral.elim
    exact numberText_injective (readable left) (readable right) same

/-! ## Reading -/

open Classical in
/-- Read a text, up to whitespace, as the known value that is written so. -/
noncomputable def read {α : Type} (known : α → Prop) (toJson : α → Json) (bytes : Bytes) :
    Except String α :=
  if written : ∃ a, known a ∧ compact (toJson a) = squeeze .outside bytes then .ok written.choose
  else .error "no value is written so"

section Read

variable {α : Type} {known : α → Prop} {toJson : α → Json} {bytes : Bytes} {a : α}

/-- What is read is known and written so. -/
theorem read_known (reads : read known toJson bytes = .ok a) :
    known a ∧ compact (toJson a) = squeeze .outside bytes := by
  unfold read at reads
  split at reads
  · rename_i written
    exact Except.ok.inj reads ▸ written.choose_spec
  · exact absurd reads nofun

/-- Reading depends on the text up to whitespace only. -/
theorem read_congr {bytes' : Bytes} (same : squeeze .outside bytes = squeeze .outside bytes') :
    read known toJson bytes = read known toJson bytes' := by
  unfold read
  rw [same]

/-- A known value is read back, when its text determines it. -/
theorem read_compact (readable : ∀ a, known a → (toJson a).Readable)
    (injective : ∀ a b, toJson a = toJson b → a = b) (holds : known a) :
    read known toJson (compact (toJson a)) = .ok a := by
  have text : squeeze .outside (compact (toJson a)) = compact (toJson a) :=
    (becomes_compact _).whole
  have written : ∃ b, known b ∧ compact (toJson b) = squeeze .outside (compact (toJson a)) :=
    ⟨a, holds, text.symm⟩
  unfold read
  rw [dif_pos written]
  obtain ⟨known', same⟩ := written.choose_spec
  have equal := compact_injective (readable _ known') (readable _ holds) (same.trans text)
  exact congrArg _ (injective _ _ equal)

/-- The indented text of a value that was read is read as the value. -/
theorem read_pretty (reads : read known toJson bytes = .ok a) :
    read known toJson (pretty 0 (toJson a)) = .ok a := by
  rw [← reads]
  exact read_congr ((becomes_pretty 0 _).whole.trans (read_known reads).2)

end Read

/-- The readers of the registry. -/
noncomputable scoped instance : SerdeJson where
  rootZone := read RootZone.FromJson RootZone.toJson
  tldRegistry := read TldRegistry.FromJson TldRegistry.toJson
  manifest := read (fun _ => True) Manifest.toJson
  tldRecord := read TldRecord.FromJson TldRecord.toJson
  domainRecord := read DomainRecord.FromJson DomainRecord.toJson
  mutationRequest := read MutationRequest.FromJson MutationRequest.toJson
  appliedMutation := read (fun m => m.mutation.FromJson) AppliedMutation.toJson
  auditRecord := read (fun _ => True) AuditRecord.toJson

/-- The reader of a directory's snapshot. -/
noncomputable scoped instance : SerdeDirectory where
  nodeEntries := read (fun _ => True) fun entries => .arr (entries.map TrackedNode.toJson)

open Classical in
/-- The registry that is written as the value, up to the order of members. -/
noncomputable def registryOf (value : Json) : Except String TldRegistry :=
  if written : ∃ r : TldRegistry, r.FromJson ∧ Same Eq List.Perm r.toJson value then
    .ok written.choose
  else .error "no registry is written so"

/-- The operations that only a resolver calls. -/
noncomputable scoped instance : ResolverExternals where
  mimeGuess name :=
    if name.toList.drop (name.length - 5) = ".html".toList then "text/html"
    else "application/octet-stream"
  messageDebug _ := "Message"
  socketIp text :=
    if text.toList.all (fun c => c.isDigit || c == '.') = true then some text else none
  jsonValue := read (fun v => v.Readable ∧ v.Sorted) id
  registryFromValue := registryOf
  nodesFromValue
    | .arr [] => .ok []
    | _ => .error "no list of nodes"

end Federate.Reference
