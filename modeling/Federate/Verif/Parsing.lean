import Federate.Library.Case
import Federate.Library.Lossy
import Federate.Verif.Names

/-!
# Which names are accepted

A domain is parsed from exactly the spellings of a label and a TLD around one dot, in any case, with
white space around each and any port behind, and is then in normal form. A new TLD is refused for
each blocklist that holds its normal form, save that the reserved list is looked at before two
others and an official TLD is exempt from it.
-/

namespace Federate

open Outcome

/-! ## The grammar -/

/-- One to 63 small letters, digits and hyphens, with no hyphen at either end. -/
structure LabelChars (chars : List Char) : Prop where
  /-- Not empty. -/
  long : 1 ≤ chars.length
  /-- At most 63. -/
  short : chars.length ≤ 63
  /-- Letters, digits and hyphens. -/
  each : ∀ c ∈ chars, 'a' ≤ c ∧ c ≤ 'z' ∨ '0' ≤ c ∧ c ≤ '9' ∨ c = '-'
  /-- No hyphen at the start. -/
  start : chars.head? ≠ some '-'
  /-- No hyphen at the end. -/
  finish : chars.getLast? ≠ some '-'

/-- Two to 32 small letters. -/
structure TldChars (chars : List Char) : Prop where
  /-- At least two. -/
  long : 2 ≤ chars.length
  /-- At most 32. -/
  short : chars.length ≤ 32
  /-- Letters. -/
  each : ∀ c ∈ chars, 'a' ≤ c ∧ c ≤ 'z'

/-- Label characters are ASCII. -/
theorem byteLen_label {s : String} (label : ∀ c ∈ s.toList, isLabelChar c = true) :
    Text.byteLen s = s.toList.length := by
  refine Text.byteLen_ascii fun c member => ?_
  have code := isLabelChar_iff.mp (label c member)
  omega

/-- The normal form of a label is the grammar's. -/
theorem isLabel_iff_chars {s : String} : IsLabel s ↔ LabelChars s.toList := by
  have each (c : Char) : isLabelChar c = true ↔
      'a' ≤ c ∧ c ≤ 'z' ∨ '0' ≤ c ∧ c ≤ '9' ∨ c = '-' := by
    simp [isLabelChar, Text.isAsciiLowercase, Text.isAsciiDigit, or_assoc]
  constructor
  · intro normal
    have length := byteLen_label normal.chars
    have short := normal.short
    exact ⟨List.length_pos_iff.mpr normal.nonempty, by omega,
      fun c member => (each c).mp (normal.chars c member), normal.start, normal.finish⟩
  · intro grammar
    have chars : ∀ c ∈ s.toList, isLabelChar c = true :=
      fun c member => (each c).mpr (grammar.each c member)
    have length := byteLen_label chars
    have short := grammar.short
    exact ⟨List.length_pos_iff.mp grammar.long, by omega, chars, grammar.start, grammar.finish⟩

/-- The normal form of a TLD name is the grammar's. -/
theorem isTldName_iff_chars {s : String} : IsTldName s ↔ TldChars s.toList := by
  have each (c : Char) : Text.isAsciiLowercase c = true ↔ 'a' ≤ c ∧ c ≤ 'z' := by
    simp [Text.isAsciiLowercase]
  constructor
  · intro normal
    have length := byteLen_label normal.label_chars
    have long := normal.long
    have short := normal.short
    exact ⟨by omega, by omega, fun c member => (each c).mp (normal.chars c member)⟩
  · intro grammar
    have chars : ∀ c ∈ s.toList, Text.isAsciiLowercase c = true :=
      fun c member => (each c).mpr (grammar.each c member)
    have length := byteLen_label fun c member => isLabelChar_of_lowercase (chars c member)
    have long := grammar.long
    have short := grammar.short
    exact ⟨by omega, by omega, chars⟩

/-- White space only. -/
def Blank (s : String) : Prop := ∀ c ∈ s.toList, Text.isWhitespace c = true

/-- The text spells the name: in any case, with white space around it. -/
def Spells (text name : String) : Prop :=
  ∃ before word after, text = before ++ word ++ after ∧ Blank before ∧ Blank after ∧
    Text.toAsciiLowercase word = name

/-- A text spells what trimming and lowercasing make of it. -/
theorem spells_normal (text : String) : Spells text (Text.toAsciiLowercase (Text.trim text)) := by
  obtain ⟨before, after, split, blank, blank'⟩ := Text.trim_split text
  exact ⟨before, Text.trim text, after, split, blank, blank', rfl⟩

/-- A text spells no other name that has no white space. -/
theorem Spells.normal {text name : String} (spells : Spells text name)
    (solid : ∀ c ∈ name.toList, Text.isWhitespace c = false) :
    Text.toAsciiLowercase (Text.trim text) = name := by
  obtain ⟨before, word, after, rfl, blank, blank', rfl⟩ := spells
  have kept : Text.trim word = word := by
    refine Text.trim_eq_self fun c member => ?_
    rw [← Text.isWhitespace_toLower]
    apply solid
    rw [Text.toAsciiLowercase, Text.toList_onChars]
    exact List.mem_map_of_mem member
  rw [Text.trim_append_blank blank', Text.trim_blank_append blank, kept]

/-- Neither the white space around a name nor the name has a dot. -/
theorem Spells.no_dot {text name : String} (spells : Spells text name)
    (noDot : '.' ∉ name.toList) : '.' ∉ text.toList := by
  obtain ⟨before, word, after, rfl, blank, trailing, rfl⟩ := spells
  intro member
  rw [String.toList_append, String.toList_append, List.mem_append, List.mem_append] at member
  rcases member with (first | middle) | last
  · exact absurd (blank '.' first) (by decide)
  · apply noDot
    rw [Text.toAsciiLowercase, Text.toList_onChars]
    exact List.mem_map.mpr ⟨'.', middle, by decide⟩
  · exact absurd (trailing '.' last) (by decide)

/-- Lowercasing a text leaves its dots. -/
theorem dot_mem_toAsciiLowercase {text : String} :
    '.' ∈ (Text.toAsciiLowercase text).toList ↔ '.' ∈ text.toList := by
  rw [Text.toAsciiLowercase, Text.toList_onChars, List.mem_map]
  constructor
  · rintro ⟨c, member, lower⟩
    exact (Text.toLower_eq_iff (by decide)).mp lower ▸ member
  · intro member
    exact ⟨'.', member, by decide⟩

/-- A lowercased text is split at the dot where the text is. -/
theorem toAsciiLowercase_split {text first rest : String}
    (split : Text.toAsciiLowercase text = first ++ "." ++ rest) :
    ∃ label tld, text = label ++ "." ++ tld ∧ Text.toAsciiLowercase label = first ∧
      Text.toAsciiLowercase tld = rest := by
  have chars := congrArg String.toList split
  rw [Text.toAsciiLowercase, Text.toList_onChars, String.toList_append, String.toList_append,
    List.append_assoc, List.map_eq_append_iff] at chars
  obtain ⟨label, tail, whole, lower, lowered⟩ := chars
  obtain ⟨dot, tld, rfl, isDot, lower'⟩ := List.map_eq_cons_iff.mp lowered
  have same : dot = '.' := (Text.toLower_eq_iff (by decide)).mp isDot
  refine ⟨String.ofList label, String.ofList tld, ?_, ?_, ?_⟩
  · rw [← String.toList_inj, whole, same]
    simp
  · rw [← String.toList_inj, Text.toAsciiLowercase, Text.toList_onChars, String.toList_ofList,
      lower]
  · rw [← String.toList_inj, Text.toAsciiLowercase, Text.toList_onChars, String.toList_ofList,
      lower']
    rfl

/-- The host is a label and a TLD around a dot, before any colon. -/
def SpellsDomain (host : String) (d : FederateDomain) : Prop :=
  ∃ label tld, Text.beforeFirst ':' host = label ++ "." ++ tld ∧ Spells label d.name ∧
    Spells tld d.tld ∧ LabelChars d.name.toList ∧ TldChars d.tld.toList

/-- A label is validated as the name that it spells. -/
theorem validateLabel_iff_spells {text name : String} :
    validateLabel (Text.toAsciiLowercase text) = .ok name ↔ Spells text name ∧ IsLabel name := by
  have idem (s : String) : Text.toAsciiLowercase (Text.toAsciiLowercase s) =
      Text.toAsciiLowercase s := Utf8.toAsciiLowercase_idem s
  rw [validateLabel_eq_ok, Text.trim_toAsciiLowercase, idem]
  constructor
  · rintro ⟨rfl, normal⟩
    exact ⟨spells_normal text, normal⟩
  · rintro ⟨spells, normal⟩
    exact ⟨(spells.normal fun c member => isLabelChar_solid (normal.chars c member)).symm, normal⟩

/-- So is a TLD name, when it has no dot. -/
theorem validateTldName_iff_spells {text name : String} (noDot : '.' ∉ text.toList) :
    validateTldName (Text.toAsciiLowercase text) = .ok name ↔ Spells text name ∧ IsTldName name := by
  have idem (s : String) : Text.toAsciiLowercase (Text.toAsciiLowercase s) =
      Text.toAsciiLowercase s := Utf8.toAsciiLowercase_idem s
  have undotted : '.' ∉ (Text.toAsciiLowercase (Text.trim text)).toList := by
    rw [dot_mem_toAsciiLowercase]
    intro member
    rw [Text.trim, Text.toList_onChars] at member
    exact noDot ((List.dropWhile_sublist _).mem ((List.rdropWhile_prefix _ _).mem member))
  rw [validateTldName_eq_ok, Text.trim_toAsciiLowercase, Text.trimStartMatches_eq_self undotted,
    idem]
  constructor
  · rintro ⟨rfl, normal⟩
    exact ⟨spells_normal text, normal⟩
  · rintro ⟨spells, normal⟩
    exact ⟨(spells.normal fun c member => isLabelChar_solid (normal.label_chars c member)).symm,
      normal⟩

/-- A host is parsed as the domain that it spells. -/
theorem parse_eq_ok_iff {host : String} {d : FederateDomain} :
    FederateDomain.parse host = .ok d ↔ SpellsDomain host d := by
  simp only [FederateDomain.parse, SpellsDomain, bind_eq_ok, okOr_eq_ok, rejectIf_eq_ok,
    pure_eq_ok, exists_const, ← isLabel_iff_chars, ← isTldName_iff_chars]
  generalize Text.beforeFirst ':' host = text
  constructor
  · rintro ⟨rest, found, undotted, name, valid, tld, validTld, rfl⟩
    obtain ⟨split, -⟩ := Text.split_afterFirst found
    obtain ⟨label, tldText, rfl, lower, rfl⟩ := toAsciiLowercase_split split
    rw [← lower] at valid
    have named := validateLabel_iff_spells.mp valid
    have noDot : '.' ∉ tldText.toList := fun member =>
      undotted (dot_mem_toAsciiLowercase.mpr member)
    have tlds := (validateTldName_iff_spells noDot).mp validTld
    exact ⟨label, tldText, rfl, named.1, tlds.1, named.2, tlds.2⟩
  · rintro ⟨label, tldText, rfl, spells, spellsTld, normal, normalTld⟩
    have noDot := spells.no_dot (not_mem_of_label (by decide) normal.chars)
    have noDot' := spellsTld.no_dot (not_mem_of_label (by decide) normalTld.label_chars)
    have undotted : '.' ∉ (Text.toAsciiLowercase label).toList :=
      fun member => noDot (dot_mem_toAsciiLowercase.mp member)
    have lowered : Text.toAsciiLowercase (label ++ "." ++ tldText) =
        Text.toAsciiLowercase label ++ "." ++ Text.toAsciiLowercase tldText := by
      rw [Text.toAsciiLowercase_append, Text.toAsciiLowercase_append]
      rfl
    have before : Text.beforeFirst '.' (Text.toAsciiLowercase (label ++ "." ++ tldText)) =
        Text.toAsciiLowercase label := lowered ▸ Text.beforeFirst_split undotted
    have after : Text.afterFirst '.' (Text.toAsciiLowercase (label ++ "." ++ tldText)) =
        some (Text.toAsciiLowercase tldText) := lowered ▸ Text.afterFirst_split undotted
    refine ⟨Text.toAsciiLowercase tldText, after, ?_, d.name, ?_, d.tld, ?_, rfl⟩
    · exact fun member => noDot' (dot_mem_toAsciiLowercase.mp member)
    · rw [before]
      exact validateLabel_iff_spells.mpr ⟨spells, normal⟩
    · exact (validateTldName_iff_spells noDot').mpr ⟨spellsTld, normalTld⟩

/-- Domains in normal form have different full names. -/
theorem fqdn_injective {d d' : FederateDomain} (label : IsLabel d.name) (label' : IsLabel d'.name)
    (same : d.fqdn = d'.fqdn) : d = d' := by
  have noDot := not_mem_of_label (c := '.') (by decide) label.chars
  have noDot' := not_mem_of_label (c := '.') (by decide) label'.chars
  obtain ⟨names, tlds⟩ := fullName_unique noDot noDot' same
  exact FederateDomain.ext names tlds

/-- A host is parsed exactly as the domain that it spells, which is in normal form, is parsed back
from its full name and has no full name in common with another. -/
theorem parse_normal_form :
    (∀ host d, FederateDomain.parse host = .ok d → LabelChars d.name.toList ∧
      TldChars d.tld.toList ∧ FederateDomain.parse d.fqdn = .ok d) ∧
    (∀ host d, FederateDomain.parse host = .ok d ↔ SpellsDomain host d) ∧
    ∀ host host' d d', FederateDomain.parse host = .ok d → FederateDomain.parse host' = .ok d' →
      d.fqdn = d'.fqdn → d = d' := by
  refine ⟨fun host d parsed => ?_, fun host d => parse_eq_ok_iff,
    fun host host' d d' parsed parsed' => ?_⟩
  · have normal := FederateDomain.parse_normal parsed
    exact ⟨isLabel_iff_chars.mp normal.1, isTldName_iff_chars.mp normal.2,
      FederateDomain.parse_fqdn_of_parse parsed⟩
  · exact fqdn_injective (FederateDomain.parse_normal parsed).1
      (FederateDomain.parse_normal parsed').1

/-! ## New TLDs -/

/-- The name is on none of the lists that bind the root, too. -/
def Unlisted (b : Blocklists) (tld : String) : Prop :=
  tld ∉ b.iana ∧ tld ∉ b.policy ∧ tld ∉ b.brandSafety

/-- A new TLD is accepted exactly with a normal form that is on no list, an official one exactly
with one that is on no list but the reserved one. -/
def DecidesExactly (b : Blocklists) (input : String) : Prop :=
  (∀ tld, b.validateNewTld input false = .ok tld ↔
    validateTldName input = .ok tld ∧ tld ∉ b.reserved ∧ Unlisted b tld) ∧
  ∀ tld, b.validateNewTld input true = .ok tld ↔ validateTldName input = .ok tld ∧ Unlisted b tld

/-- The decision is exact unless the reserved list masks another one. -/
theorem decidesExactly_iff (b : Blocklists) (input : String) : DecidesExactly b input ↔
    ∀ tld, validateTldName input = .ok tld → tld ∈ b.reserved →
      tld ∈ b.policy ∨ tld ∈ b.brandSafety → tld ∈ b.iana := by
  constructor
  · intro exactly tld valid reserved listed
    by_contra notPublic
    have checked : b.check tld = some .reserved :=
      Blocklists.check_eq_reserved.mpr ⟨notPublic, reserved⟩
    have accepted : b.validateNewTld input true = .ok tld :=
      Blocklists.validateNewTld_eq_ok.mpr ⟨valid, .inr ⟨checked, rfl⟩⟩
    obtain ⟨-, -, policy, brandSafety⟩ := (exactly.2 tld).mp accepted
    rcases listed with member | member
    · exact policy member
    · exact brandSafety member
  · intro unmasked
    constructor
    · intro tld
      rw [Blocklists.validateNewTld_eq_ok, Blocklists.check_eq_none, Unlisted]
      simp [and_left_comm]
    · intro tld
      rw [Blocklists.validateNewTld_eq_ok, Blocklists.check_eq_none, Blocklists.check_eq_reserved]
      refine and_congr_right fun valid => ?_
      constructor
      · rintro (⟨notPublic, -, others⟩ | ⟨⟨notPublic, reserved⟩, -⟩)
        · exact ⟨notPublic, others⟩
        · exact ⟨notPublic, fun member => notPublic (unmasked tld valid reserved (.inl member)),
            fun member => notPublic (unmasked tld valid reserved (.inr member))⟩
      · intro unlisted
        by_cases reserved : tld ∈ b.reserved
        · exact .inr ⟨⟨unlisted.1, reserved⟩, rfl⟩
        · exact .inl ⟨unlisted.1, reserved, unlisted.2⟩

/-- A name on the reserved list and on the policy list is accepted for an official TLD. -/
theorem reserved_masks_policy : ¬DecidesExactly ⟨∅, {"fed"}, {"fed"}, ∅⟩ "fed" := by
  intro exactly
  have valid : validateTldName "fed" = .ok "fed" := by decide +kernel
  have checked : Blocklists.check ⟨∅, {"fed"}, {"fed"}, ∅⟩ "fed" = some .reserved :=
    Blocklists.check_eq_reserved.mpr ⟨by simp, by simp⟩
  have accepted : Blocklists.validateNewTld ⟨∅, {"fed"}, {"fed"}, ∅⟩ "fed" true = .ok "fed" :=
    Blocklists.validateNewTld_eq_ok.mpr ⟨valid, .inr ⟨checked, rfl⟩⟩
  obtain ⟨-, -, policy, -⟩ := (exactly.2 "fed").mp accepted
  simp at policy

end Federate
