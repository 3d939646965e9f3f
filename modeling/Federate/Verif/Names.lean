import Federate.Registry

/-!
# Normal forms of names

A label and a TLD name that validation returns are in normal form, and validation leaves a
normal form alone. A domain in normal form is parsed back from its full name, and a full name
splits into label and TLD in one way only.
-/

namespace Federate

open Outcome

/-! ## Characters of names -/

/-- The label characters, by code point. -/
theorem isLabelChar_iff {c : Char} : isLabelChar c = true ↔
    97 ≤ c.toNat ∧ c.toNat ≤ 122 ∨ 48 ≤ c.toNat ∧ c.toNat ≤ 57 ∨ c.toNat = 45 := by
  have hyphen : c = '-' ↔ c.toNat = 45 := ⟨fun equal => equal ▸ rfl, fun code => Char.ext (by
    exact UInt32.toNat_inj.mp code)⟩
  simp only [isLabelChar, Text.isAsciiLowercase, Text.isAsciiDigit, Bool.or_eq_true,
    Bool.and_eq_true, decide_eq_true_eq, Char.le_def, UInt32.le_iff_toNat_le, hyphen]
  exact or_assoc

/-- A lowercase letter is a label character. -/
theorem isLabelChar_of_lowercase {c : Char} (lower : Text.isAsciiLowercase c = true) :
    isLabelChar c = true := by
  simp [isLabelChar, lower]

/-- A label character is not white space. -/
theorem isLabelChar_solid {c : Char} (label : isLabelChar c = true) :
    Text.isWhitespace c = false := by
  have code := isLabelChar_iff.mp label
  simp only [Text.isWhitespace, Bool.or_eq_false_iff, Bool.and_eq_false_iff, decide_eq_false_iff_not]
  omega

/-- A label character is not an uppercase letter. -/
theorem isLabelChar_not_upper {c : Char} (label : isLabelChar c = true) :
    ¬('A' ≤ c ∧ c ≤ 'Z') := by
  have code := isLabelChar_iff.mp label
  simp only [Char.le_def, UInt32.le_iff_toNat_le]
  change ¬(65 ≤ c.toNat ∧ c.toNat ≤ 90)
  omega

/-- A separator does not occur among label characters. -/
theorem not_mem_of_label {c : Char} {s : String} (separator : isLabelChar c = false)
    (label : ∀ c ∈ s.toList, isLabelChar c = true) : c ∉ s.toList := fun member => by
  simp [label c member] at separator

/-! ## Normal forms -/

/-- A label in normal form. -/
structure IsLabel (s : String) : Prop where
  /-- Not empty. -/
  nonempty : s.toList ≠ []
  /-- At most 63 bytes. -/
  short : Text.byteLen s ≤ 63
  /-- Letters, digits and hyphens. -/
  chars : ∀ c ∈ s.toList, isLabelChar c = true
  /-- No hyphen at the start. -/
  start : s.toList.head? ≠ some '-'
  /-- No hyphen at the end. -/
  finish : s.toList.getLast? ≠ some '-'

/-- A TLD name in normal form. -/
structure IsTldName (s : String) : Prop where
  /-- At least two bytes. -/
  long : 2 ≤ Text.byteLen s
  /-- At most 32 bytes. -/
  short : Text.byteLen s ≤ 32
  /-- Lowercase letters. -/
  chars : ∀ c ∈ s.toList, Text.isAsciiLowercase c = true

/-- The characters of a TLD name are label characters. -/
theorem IsTldName.label_chars {s : String} (name : IsTldName s) :
    ∀ c ∈ s.toList, isLabelChar c = true := fun c member =>
  isLabelChar_of_lowercase (name.chars c member)

/-- Validation returns the trimmed, lowercased label when that is in normal form. -/
theorem validateLabel_eq_ok {input label : String} : validateLabel input = .ok label ↔
    label = Text.toAsciiLowercase (Text.trim input) ∧ IsLabel label := by
  simp only [validateLabel, bind_eq_ok, rejectIf_eq_ok, pure_eq_ok, exists_const,
    Bool.not_eq_false, List.all_eq_true, not_or, not_lt]
  constructor
  · rintro ⟨⟨nonempty, short⟩, chars, ⟨start, finish⟩, rfl⟩
    exact ⟨rfl, nonempty, short, chars, start, finish⟩
  · rintro ⟨rfl, normal⟩
    exact ⟨⟨normal.nonempty, normal.short⟩, normal.chars, ⟨normal.start, normal.finish⟩, rfl⟩

/-- Validation returns the trimmed, lowercased name when that is in normal form. -/
theorem validateTldName_eq_ok {input name : String} : validateTldName input = .ok name ↔
    name = Text.toAsciiLowercase (Text.trimStartMatches '.' (Text.trim input)) ∧
      IsTldName name := by
  simp only [validateTldName, bind_eq_ok, rejectIf_eq_ok, pure_eq_ok, exists_const,
    Bool.not_eq_false, List.all_eq_true, not_or, not_lt]
  constructor
  · rintro ⟨⟨long, short⟩, chars, rfl⟩
    exact ⟨rfl, long, short, chars⟩
  · rintro ⟨rfl, normal⟩
    exact ⟨⟨normal.long, normal.short⟩, normal.chars, rfl⟩

section Unchanged

variable {s : String} (label : ∀ c ∈ s.toList, isLabelChar c = true)

include label

/-- Label characters are already lowercase. -/
theorem toAsciiLowercase_label : Text.toAsciiLowercase s = s :=
  Text.toAsciiLowercase_eq_self fun c member => isLabelChar_not_upper (label c member)

/-- There is nothing to trim around label characters. -/
theorem trim_label : Text.trim s = s :=
  Text.trim_eq_self fun c member => isLabelChar_solid (label c member)

end Unchanged

/-- Validation leaves a label in normal form alone. -/
theorem IsLabel.validate {s : String} (normal : IsLabel s) : validateLabel s = .ok s := by
  rw [validateLabel_eq_ok, trim_label normal.chars, toAsciiLowercase_label normal.chars]
  exact ⟨rfl, normal⟩

/-- Validation leaves a TLD name in normal form alone. -/
theorem IsTldName.validate {s : String} (normal : IsTldName s) : validateTldName s = .ok s := by
  have noDot := not_mem_of_label (c := '.') (by decide) normal.label_chars
  rw [validateTldName_eq_ok, trim_label normal.label_chars, Text.trimStartMatches_eq_self noDot,
    toAsciiLowercase_label normal.label_chars]
  exact ⟨rfl, normal⟩

/-- A label is in normal form exactly when validation leaves it alone. -/
theorem isLabel_iff {s : String} : IsLabel s ↔ validateLabel s = .ok s :=
  ⟨IsLabel.validate, fun same => (validateLabel_eq_ok.mp same).2⟩

/-- A label that validation accepts has no dot, also before normalization. -/
theorem no_dot_of_validateLabel {input label : String} (valid : validateLabel input = .ok label) :
    '.' ∉ input.toList := by
  intro dot
  obtain ⟨rfl, normal⟩ := validateLabel_eq_ok.mp valid
  have kept : '.' ∈ (Text.trim input).toList := Text.mem_trim dot (by decide)
  have lowered : '.' ∈ (Text.toAsciiLowercase (Text.trim input)).toList := by
    rw [Text.toAsciiLowercase, Text.toList_onChars]
    exact List.mem_map.mpr ⟨'.', kept, by decide⟩
  exact absurd (normal.chars '.' lowered) (by decide)

/-! ## Full names -/

/-- A full name splits into a label without a dot and a TLD in one way. -/
theorem fullName_unique {label label' tld tld' : String} (noDot : '.' ∉ label.toList)
    (noDot' : '.' ∉ label'.toList) (same : label ++ "." ++ tld = label' ++ "." ++ tld') :
    label = label' ∧ tld = tld' :=
  Text.split_unique (c := '.') noDot noDot' same

/-- Parsing returns a label and a TLD name in normal form. -/
theorem FederateDomain.parse_normal {host : String} {d : FederateDomain}
    (parsed : FederateDomain.parse host = .ok d) : IsLabel d.name ∧ IsTldName d.tld := by
  simp only [FederateDomain.parse, bind_eq_ok, okOr_eq_ok, rejectIf_eq_ok, pure_eq_ok,
    exists_const] at parsed
  obtain ⟨tld, -, -, name, label, tldName, valid, rfl⟩ := parsed
  exact ⟨(validateLabel_eq_ok.mp label).2, (validateTldName_eq_ok.mp valid).2⟩

/-- The characters of a full name in normal form. -/
theorem fullName_chars {label tld : String} (normal : IsLabel label) (tldName : IsTldName tld) :
    ∀ c ∈ (label ++ "." ++ tld).toList, isLabelChar c = true ∨ c = '.' := by
  intro c member
  simp only [String.toList_append, List.mem_append] at member
  rcases member with (first | dot) | rest
  · exact .inl (normal.chars c first)
  · exact .inr (by simpa using dot)
  · exact .inl (tldName.label_chars c rest)

/-- A full name in normal form is lowercase. -/
theorem fullName_lowercase {label tld : String} (normal : IsLabel label)
    (tldName : IsTldName tld) :
    Text.toAsciiLowercase (label ++ "." ++ tld) = label ++ "." ++ tld := by
  refine Text.toAsciiLowercase_eq_self fun c member => ?_
  rcases fullName_chars normal tldName c member with isLabel | rfl
  · exact isLabelChar_not_upper isLabel
  · decide

/-- A label and a TLD name in normal form are parsed back from the full name. -/
theorem FederateDomain.parse_fqdn {d : FederateDomain} (label : IsLabel d.name)
    (tldName : IsTldName d.tld) : FederateDomain.parse d.fqdn = .ok d := by
  have noDot := not_mem_of_label (c := '.') (by decide) label.chars
  have noDot' := not_mem_of_label (c := '.') (by decide) tldName.label_chars
  have noPort : ':' ∉ d.fqdn.toList := fun member => by
    rcases fullName_chars label tldName ':' member with isLabel | dot
    · exact absurd isLabel (by decide)
    · exact absurd dot (by decide)
  have lower : Text.toAsciiLowercase d.fqdn = d.fqdn := fullName_lowercase label tldName
  have before : Text.beforeFirst '.' d.fqdn = d.name := Text.beforeFirst_split noDot
  have after : Text.afterFirst '.' d.fqdn = some d.tld := Text.afterFirst_split noDot
  simp only [parse, Text.beforeFirst_eq_self noPort, lower, before, after, bind_eq_ok, okOr_eq_ok,
    rejectIf_eq_ok, pure_eq_ok, exists_const, Option.some.injEq]
  exact ⟨d.tld, rfl, noDot', d.name, label.validate, d.tld, tldName.validate, rfl⟩

/-- A parsed domain is parsed back from its full name. -/
theorem FederateDomain.parse_fqdn_of_parse {host : String} {d : FederateDomain}
    (parsed : FederateDomain.parse host = .ok d) : FederateDomain.parse d.fqdn = .ok d :=
  FederateDomain.parse_fqdn (parse_normal parsed).1 (parse_normal parsed).2

/-! ## Names of new TLDs -/

/-- The check passes a name that no list holds. -/
theorem Blocklists.check_eq_none {b : Blocklists} {name : String} : b.check name = none ↔
    name ∉ b.iana ∧ name ∉ b.reserved ∧ name ∉ b.policy ∧ name ∉ b.brandSafety := by
  unfold Blocklists.check
  split_ifs <;> simp_all

/-- The check reports a name as reserved when the reserved list is the first to hold it. -/
theorem Blocklists.check_eq_reserved {b : Blocklists} {name : String} :
    b.check name = some .reserved ↔ name ∉ b.iana ∧ name ∈ b.reserved := by
  unfold Blocklists.check
  split_ifs <;> simp_all

/-- A new TLD gets a name in normal form that no blocklist holds first, or that the reserved
list holds first when reserved names are allowed. -/
theorem Blocklists.validateNewTld_eq_ok {b : Blocklists} {input name : String}
    {allowReserved : Bool} : b.validateNewTld input allowReserved = .ok name ↔
      validateTldName input = .ok name ∧
        (b.check name = none ∨ b.check name = some .reserved ∧ allowReserved = true) := by
  simp only [validateNewTld, bind_eq_ok]
  constructor
  · rintro ⟨tld, valid, checked⟩
    cases listed : b.check tld with
    | none =>
      simp only [listed, pure_eq_ok] at checked
      exact ⟨checked ▸ valid, .inl (checked ▸ listed)⟩
    | some reason =>
      cases reason <;> cases allowReserved <;>
        simp only [listed, reduceIte, Bool.false_eq_true, throw, throwThe, MonadExceptOf.throw,
          reduceCtorEq, pure_eq_ok] at checked
      exact ⟨checked ▸ valid, .inr ⟨checked ▸ listed, rfl⟩⟩
  · rintro ⟨valid, unlisted | ⟨reserved, rfl⟩⟩
    · exact ⟨name, valid, by simp only [unlisted, pure_eq_ok]⟩
    · exact ⟨name, valid, by simp only [reserved, reduceIte, pure_eq_ok]⟩

end Federate
