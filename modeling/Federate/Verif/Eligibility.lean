import Federate.Origin
import Federate.Verif.Operators

/-!
# What Node 1 says of a name

`tld_check` decides what the creation and the delegation of a TLD decide, before anyone signs a
mutation; the list of domains holds each domain that the zone holds; and over HTTP Node 1 says of
a name what it says over the native protocol.
-/

namespace Federate

open Outcome Stateful RegistryStore

/-- A key without a value. -/
theorem not_mem_of_getElem? {α : Type} {t : Table String α} {k : String} (absent : t[k]? = none) :
    k ∉ t := by
  rw [Std.ExtTreeMap.mem_iff_isSome_getElem?, absent]
  exact Bool.false_ne_true

/-! ## Names that can be had -/

section Check

variable [Externals] {s : RegistryStore} {blocklists : Blocklists} {input : String}

namespace Origin

omit [Externals] in
/-- A name can be had when it is valid, new, and on no list. -/
theorem tldCheck_available : (tldCheck s blocklists input).available = true ↔
    ∃ name, validateTldName input = .ok name ∧ name ∉ s.zone.tlds ∧
      blocklists.check name = none := by
  unfold tldCheck RootZone.lookupTld
  cases valid : validateTldName input with
  | error e => simp
  | ok tld =>
    cases held : s.zone.tlds[tld]? with
    | some r =>
      have member : tld ∈ s.zone.tlds := mem_of_getElem? held
      simp [member]
    | none =>
      have absent : tld ∉ s.zone.tlds := not_mem_of_getElem? held
      cases listed : blocklists.check tld with
      | none => simp [absent, listed]
      | some reason => simp [held, listed]

omit [Externals] in
/-- A new name that only the list of reserved names holds back. The verdict alone does not tell it
from a TLD that the zone holds as reserved. -/
theorem tldCheck_reserved : ((tldCheck s blocklists input).verdict = "reserved" ∧
    (tldCheck s blocklists input).tld ∉ s.zone.tlds) ↔
      ∃ name, validateTldName input = .ok name ∧ name ∉ s.zone.tlds ∧
        blocklists.check name = some .reserved := by
  unfold tldCheck RootZone.lookupTld
  cases valid : validateTldName input with
  | error e => simp
  | ok tld =>
    cases held : s.zone.tlds[tld]? with
    | some r =>
      have member : tld ∈ s.zone.tlds := mem_of_getElem? held
      simp [member]
    | none =>
      have absent : tld ∉ s.zone.tlds := not_mem_of_getElem? held
      cases listed : blocklists.check tld with
      | none => simp [held, listed]
      | some reason => cases reason <;> simp [absent, listed]

end Origin

variable [SerdeJson] {zone : RootZone} {manifests : Table String Bytes}
  {registries : Registries} {ctx : MutationContext} {clock : DateTime}

/-- The root can delegate a TLD when its name is valid, new, and on no list. -/
theorem delegateTld_accepted_iff {tld owner operator operatorName : String}
    {registryType : RegistryType} {endpoint expiresAt : Option String}
    (delegated : registryType ≠ .rootManaged) (ownerKey : isKeyText owner = true)
    (operatorKey : isKeyText operator = true) :
    (∃ effect, applyAction zone manifests registries zone.rootPublicKey ctx clock
      (.delegateTld tld owner operator operatorName registryType endpoint expiresAt) =
        .ok effect) ↔
    ∃ name, validateTldName tld = .ok name ∧ name ∉ zone.tlds ∧
      ctx.blocklists.check name = none := by
  constructor
  · rintro ⟨effect, ran⟩
    cases applyAction_grant ran with
    | @delegateTld _ _ _ _ name _ _ _ entitled admitted absent =>
      obtain ⟨valid, unlisted⟩ := Blocklists.validateNewTld_eq_ok.mp admitted
      exact ⟨name, valid, absent, by simpa using unlisted⟩
    | publish requested | restrictTld requested =>
      rcases requested with ⟨other, -⟩ | ⟨other, -⟩ <;> cases other
  · rintro ⟨name, valid, absent, unlisted⟩
    have admitted : ctx.blocklists.validateNewTld tld false = .ok name :=
      Blocklists.validateNewTld_eq_ok.mpr ⟨valid, .inl unlisted⟩
    simp only [applyAction, delegateTld, bind_eq_ok, rejectIf_eq_ok, pure_eq_ok, exists_const,
      forM_eq_ok, ne_eq, not_not, Bool.not_eq_false, List.mem_cons, List.not_mem_nil, or_false,
      forall_eq_or_imp, forall_eq]
    exact ⟨_, trivial, name, admitted, absent, delegated, ⟨ownerKey, operatorKey⟩, rfl⟩

/-- The root can create an official TLD under the same names, and under a new one that only the
list of reserved names holds back. -/
theorem createTld_accepted_iff {tld purpose : String} :
    (∃ effect, applyAction zone manifests registries zone.rootPublicKey ctx clock
      (.createTld tld purpose) = .ok effect) ↔
    ∃ name, validateTldName tld = .ok name ∧ name ∉ zone.tlds ∧
      (ctx.blocklists.check name = none ∨ ctx.blocklists.check name = some .reserved) := by
  constructor
  · rintro ⟨effect, ran⟩
    cases applyAction_grant ran with
    | @createTld _ _ name entitled admitted absent =>
      obtain ⟨valid, unlisted⟩ := Blocklists.validateNewTld_eq_ok.mp admitted
      exact ⟨name, valid, absent, by simpa using unlisted⟩
    | publish requested | restrictTld requested =>
      rcases requested with ⟨other, -⟩ | ⟨other, -⟩ <;> cases other
  · rintro ⟨name, valid, absent, unlisted⟩
    have admitted : ctx.blocklists.validateNewTld tld true = .ok name :=
      Blocklists.validateNewTld_eq_ok.mpr ⟨valid, by simpa using unlisted⟩
    simp only [applyAction, createTld, bind_eq_ok, rejectIf_eq_ok, pure_eq_ok, exists_const,
      ne_eq, not_not]
    exact ⟨_, trivial, name, admitted, absent, rfl⟩

/-- `tld_check` announces what a mutation of the root comes to: a name can be had exactly when it
can be delegated, and created as an official TLD when it can be had or is a new reserved name. -/
theorem tldCheck_decides {owner operator : String} (ownerKey : isKeyText owner = true)
    (operatorKey : isKeyText operator = true) {registryType : RegistryType}
    (delegated : registryType ≠ .rootManaged) (input operatorName purpose : String)
    (endpoint expiresAt : Option String) :
    ((Origin.tldCheck s ctx.blocklists input).available = true ↔
      ∃ effect, applyAction s.zone s.manifests s.registries s.zone.rootPublicKey ctx clock
        (.delegateTld input owner operator operatorName registryType endpoint expiresAt) =
          .ok effect) ∧
    ((∃ effect, applyAction s.zone s.manifests s.registries s.zone.rootPublicKey ctx clock
      (.createTld input purpose) = .ok effect) ↔
        (Origin.tldCheck s ctx.blocklists input).available = true ∨
        (Origin.tldCheck s ctx.blocklists input).verdict = "reserved" ∧
          (Origin.tldCheck s ctx.blocklists input).tld ∉ s.zone.tlds) := by
  constructor
  · rw [Origin.tldCheck_available]
    exact (delegateTld_accepted_iff delegated ownerKey operatorKey).symm
  · rw [Origin.tldCheck_available, Origin.tldCheck_reserved, createTld_accepted_iff]
    constructor
    · rintro ⟨name, valid, absent, unlisted | reserved⟩
      · exact .inl ⟨name, valid, absent, unlisted⟩
      · exact .inr ⟨name, valid, absent, reserved⟩
    · rintro (⟨name, valid, absent, unlisted⟩ | ⟨name, valid, absent, reserved⟩)
      · exact ⟨name, valid, absent, .inl unlisted⟩
      · exact ⟨name, valid, absent, .inr reserved⟩

end Check

/-! ## The list of domains -/

section Listing

variable [Externals] [SerdeJson] {a : Authority} {s : RegistryStore}

/-- The domains of the registry are listed, each as the zone holds it under its own name; a filter
keeps the domains of one TLD. -/
theorem mem_domainsByTld (reachable : a.Reachable s) {tld : Option String} {r : DomainRecord} :
    r ∈ Origin.domainsByTld s tld ↔ s.zone.lookup r.domain = some r ∧
      ∀ t, tld = some t → r.tld = Text.toAsciiLowercase (Text.trimStartMatches '.' t) := by
  have held : r ∈ s.zone.domains.toList.map Prod.snd ↔ s.zone.lookup r.domain = some r := by
    rw [List.mem_map]
    constructor
    · rintro ⟨⟨k, r'⟩, member, rfl⟩
      have found : s.zone.domains[k]? = some r' :=
        Std.ExtTreeMap.mem_toList_iff_getElem?_eq_some.mp member
      have own : r'.domain = k := (reachable.named.domains k r' found).1
      rw [RootZone.lookup, own]
      exact found
    · intro found
      exact ⟨(r.domain, r), Std.ExtTreeMap.mem_toList_iff_getElem?_eq_some.mpr found, rfl⟩
  rw [Origin.domainsByTld, List.mem_filter, held]
  cases tld <;> simp

end Listing

/-! ## Over HTTP and over the native protocol -/

namespace Origin

variable [Externals] {s : RegistryStore} {nodeId : String}

omit [Externals] in
/-- The name of a TLD stands for itself in a request. -/
theorem lowercase_undotted {tld : String} (name : IsTldName tld) :
    Text.toAsciiLowercase (Text.trimStartMatches '.' tld) = tld := by
  have noDot : '.' ∉ tld.toList := not_mem_of_label (by decide) name.label_chars
  rw [Text.trimStartMatches_eq_self noDot, toAsciiLowercase_label name.label_chars]

/-- The registry of a delegated TLD comes as the same bytes. -/
theorem tldRegistry_native {tld : String} (name : IsTldName tld) (bytes : Bytes) :
    tldRegistry s tld = some bytes ↔
      handle nodeId s (.getTldRegistry tld) = .tldRegistry tld bytes := by
  rw [tldRegistry, lowercase_undotted name, handle]
  cases s.registries[tld]? with
  | none => simp
  | some entry => simp

/-- The record of a domain comes as its serialized text. -/
theorem domainRecord_native {d : FederateDomain} (label : IsLabel d.name)
    (name : IsTldName d.tld) {record : DomainRecord}
    (found : domainRecord s d.fqdn = some record) :
    handle nodeId s (.getDomainRecord d.fqdn) =
      .domainRecord d.fqdn (Externals.toVec record.toJson) := by
  have lower : Text.toAsciiLowercase d.fqdn = d.fqdn := fullName_lowercase label name
  rw [domainRecord, lower] at found
  rw [handle, found]

omit [Externals] in
/-- A TLD that is asked for in normal form is looked up as it is. -/
theorem tldRecord_name {tld : String} (name : IsTldName tld) :
    tldRecord s tld = s.zone.lookupTld tld := by
  rw [tldRecord, lowercase_undotted name]

end Origin

end Federate

namespace Federate.Reference

open Outcome Stateful RegistryStore

/-- The name `bar` can be had in a new registry, so it can be delegated, and created. -/
theorem bar_decided : (Origin.tldCheck start ⟨∅, ∅, ∅, ∅⟩ "bar").available = true ∧
    (∃ effect, applyAction start.zone start.manifests start.registries start.zone.rootPublicKey
      (authority.context (delegateBar (identity 10).nodeId)) ⟨0⟩ (.delegateTld "bar"
        (identity 3).nodeId (identity 10).nodeId "Bar" .delegatedManifest none none) =
          .ok effect) ∧
    ∃ effect, applyAction start.zone start.manifests start.registries start.zone.rootPublicKey
      (authority.context (delegateBar (identity 10).nodeId)) ⟨0⟩ (.createTld "bar" "sites") =
        .ok effect := by
  have valid : validateTldName "bar" = .ok "bar" := by decide +kernel
  have absent : "bar" ∉ start.zone.tlds := stage_start.tlds ▸ Std.ExtTreeMap.not_mem_empty
  have available : (Origin.tldCheck start ⟨∅, ∅, ∅, ∅⟩ "bar").available = true :=
    Origin.tldCheck_available.mpr ⟨"bar", valid, absent, by simp [Blocklists.check]⟩
  have ownerKey : isKeyText (identity 3).nodeId = true := by decide +kernel
  have operatorKey : isKeyText (identity 10).nodeId = true := by decide +kernel
  have delegated : RegistryType.delegatedManifest ≠ .rootManaged := by decide
  refine ⟨available, ?_, ?_⟩
  · apply (tldCheck_decides ownerKey operatorKey delegated "bar" "Bar" "sites" none none).1.mp
    exact available
  · apply (tldCheck_decides ownerKey operatorKey delegated "bar" "Bar" "sites" none none).2.mpr
    exact .inl available

end Federate.Reference
