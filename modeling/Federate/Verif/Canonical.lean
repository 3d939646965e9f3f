import Federate.Verif.Revocation

/-!
# Canonical domain keys

A domain is reached by parsing its name and looking the normal form up, so the keys of the
zone have to be in normal form. Publication files under the parsed name. Issuing validates the
normal form of the label and files under the label as it came, so it keeps the keys canonical
exactly when the label already is in normal form.
-/

namespace Federate

open Outcome RegistryStore

/-- The key is the full name of the domain it parses to. -/
def CanonicalKey (k : String) : Prop := ∃ d, FederateDomain.parse k = .ok d ∧ d.fqdn = k

/-- Every domain of the zone is filed under the full name of the domain its key parses to, so
that parsing and lowercasing reach it, and no two keys parse to the same domain. -/
structure CanonicalKeys (z : RootZone) : Prop where
  /-- Every key is the full name of the domain it parses to. -/
  canonical : ∀ k ∈ z.domains, CanonicalKey k
  /-- Lowercasing, as `SetDomainStatus` does, leaves every key alone. -/
  lowercase : ∀ k ∈ z.domains, Text.toAsciiLowercase k = k
  /-- No two keys parse to the same domain. -/
  distinct : ∀ k ∈ z.domains, ∀ k' ∈ z.domains, ∀ d, FederateDomain.parse k = .ok d →
    FederateDomain.parse k' = .ok d → k = k'

/-- A canonical key is determined by the domain it parses to. -/
theorem CanonicalKey.eq_fqdn {k : String} (canonical : CanonicalKey k) {d : FederateDomain}
    (parsed : FederateDomain.parse k = .ok d) : k = d.fqdn := by
  obtain ⟨d', parsed', own⟩ := canonical
  rw [← own, Except.ok.inj (parsed.symm.trans parsed')]

/-- The keys of a zone are canonical as soon as each is. -/
theorem canonicalKeys_iff {z : RootZone} :
    CanonicalKeys z ↔ ∀ k ∈ z.domains, CanonicalKey k := by
  refine ⟨CanonicalKeys.canonical, fun canonical => ⟨canonical, ?_, ?_⟩⟩
  · intro k member
    obtain ⟨d, parsed, rfl⟩ := canonical k member
    obtain ⟨label, tld⟩ := FederateDomain.parse_normal parsed
    exact fullName_lowercase label tld
  · intro k member k' member' d parsed parsed'
    rw [(canonical k member).eq_fqdn parsed, (canonical k' member').eq_fqdn parsed']

/-- The full name of a label without a dot under a TLD name in normal form is a canonical key
exactly when the label is in normal form. -/
theorem canonicalKey_fullName {label tld : String} (noDot : '.' ∉ label.toList)
    (tldName : IsTldName tld) :
    CanonicalKey (label ++ "." ++ tld) ↔ validateLabel label = .ok label := by
  constructor
  · rintro ⟨d, parsed, own⟩
    obtain ⟨normal, -⟩ := FederateDomain.parse_normal parsed
    have noDot' := not_mem_of_label (c := '.') (by decide) normal.chars
    have same : d.name ++ "." ++ d.tld = label ++ "." ++ tld := own
    rw [← (fullName_unique noDot' noDot same).1]
    exact normal.validate
  · intro valid
    have normal : IsLabel (FederateDomain.mk label tld).name := isLabel_iff.mpr valid
    have parsed := FederateDomain.parse_fqdn normal tldName
    unfold FederateDomain.fqdn at parsed
    exact ⟨⟨label, tld⟩, parsed, by unfold FederateDomain.fqdn; rfl⟩

variable [Externals] [SerdeJson]

/-- An issued record has its label in normal form. -/
def IssuesNormalLabel : MutationAction → Prop
  | .issueDomain r => validateLabel r.label = .ok r.label
  | _ => True

/-- A granted action keeps the keys canonical exactly when it does not issue a label out of
normal form. -/
theorem Grant.canonical_iff {zone : RootZone} {manifests : Table String Bytes}
    {registries : Registries} {actor : String} {ctx : MutationContext} {clock : DateTime}
    {action : MutationAction} {effect : ActionEffect} (named : ZoneNamed zone)
    (granted : Grant zone manifests registries actor ctx clock action effect)
    (canonical : CanonicalKeys zone) :
    CanonicalKeys effect.zone ↔ IssuesNormalLabel action := by
  have inserted : ∀ (fqdn : String) (r : DomainRecord),
      CanonicalKeys (zone.putDomain fqdn r) ↔ CanonicalKey fqdn := by
    intro fqdn r
    simp only [canonicalKeys_iff, RootZone.putDomain, Std.ExtTreeMap.mem_insert,
      Std.LawfulEqCmp.compare_eq_iff_eq]
    constructor
    · exact fun all => all fqdn (.inl rfl)
    · rintro own k (rfl | member)
      · exact own
      · exact canonical.canonical k member
  cases granted with
  | publish requested parses =>
    have own : CanonicalKey _ := ⟨_, FederateDomain.parse_fqdn_of_parse parses, rfl⟩
    refine ⟨fun _ => ?_, fun _ => (inserted _ _).mpr own⟩
    rcases requested with ⟨rfl, -⟩ | ⟨rfl, -⟩ <;> trivial
  | setDomainStatus held =>
    have own := canonical.canonical _ (mem_of_getElem? held)
    exact ⟨fun _ => trivial, fun _ => (inserted _ _).mpr own⟩
  | @issueDomain r _ _ found managed entitled labelled signed =>
    rw [inserted, (DomainRecord.verify_eq_ok.mp signed).1, canonicalKey_fullName
      (no_dot_of_validateLabel labelled) (named.tldName (mem_of_getElem? found))]
    rfl
  | restrictTld requested =>
    refine ⟨fun _ => ?_, fun _ => canonicalKeys_iff.mpr canonical.canonical⟩
    rcases requested with ⟨rfl, -⟩ | ⟨rfl, -⟩ <;> trivial
  | _ => exact ⟨fun _ => trivial, fun _ => canonicalKeys_iff.mpr canonical.canonical⟩

/-- The keys of the zone are canonical in every state of a run exactly when every `IssueDomain`
that the run accepts has its label in normal form. -/
theorem canonicalKeys_iff_normalLabels {a : Authority} {s : RegistryStore} (genesis : a.Genesis s)
    (ops : List Op) :
    (∀ earlier, earlier <+: ops → CanonicalKeys (a.run s earlier).zone) ↔
      Transition.Guarded a.step (a.WhenAccepted fun _ req => IssuesNormalLabel req.action) s
        ops := by
  refine genesis.holds_iff (fun _ => True) ?_ ?_ ?_ ops fun _ _ => trivial
  · intro z z' _ domains keys
    simpa only [canonicalKeys_iff, domains] using keys
  · intro z _ domains
    exact canonicalKeys_iff.mpr fun k member => absurd member (by simp [domains])
  · exact fun s call effect named _ keys granted => granted.canonical_iff named keys

end Federate

namespace Federate.Reference

/-- The official operator issues a label with an uppercase letter. -/
def issueUppercase : ApplyCall := issueFoo 1 "Alice" .active

/-- The keys of a registry with one TLD are canonical exactly as long as its requests are. -/
theorem canonicalKeys_foo :
    (∀ earlier, earlier <+: [Op.apply createFoo, .apply issueUppercase] →
        CanonicalKeys (authority.run start earlier).zone) ↔
      Transition.Guarded authority.step
        (authority.WhenAccepted fun _ req => IssuesNormalLabel req.action) start
        [.apply createFoo, .apply issueUppercase] :=
  canonicalKeys_iff_normalLabels genesis _

/-- An accepted label with an uppercase letter leaves a key that is not canonical: the name is
read back in lowercase. -/
theorem uppercase_not_canonical : authority.Genesis start ∧
    ¬CanonicalKeys (authority.run start [.apply createFoo, .apply issueUppercase]).zone := by
  refine ⟨genesis, fun keys => ?_⟩
  have normal : validateLabel "Alice" = .ok "alice" := by decide +kernel
  have issued := (stage_issueFoo 1 .active normal (by decide +kernel) (by decide +kernel)).2
  have member : "Alice.foo" ∈
      (authority.run start [.apply createFoo, .apply issueUppercase]).zone.domains := by
    rw [issueUppercase, issued.domains]
    simp
  have parses : FederateDomain.parse "Alice.foo" = .ok ⟨"alice", "foo"⟩ := by decide +kernel
  exact absurd ((keys.canonical _ member).eq_fqdn parses) (by decide)

end Federate.Reference
