import Federate.Reference.Registry

/-!
# Authorization and frame of the mutation path

One call of `apply` writes at most one record of the zone, and only a key that is entitled to
that record in the zone before the call can have it written.
-/

namespace Federate

open Outcome RegistryStore

/-- The names whose TLD record differs between two zones. -/
def changedTlds (before after : RootZone) : Set String := {k | after.tlds[k]? ≠ before.tlds[k]?}

/-- The names whose domain record differs between two zones. -/
def changedDomains (before after : RootZone) : Set String :=
  {k | after.domains[k]? ≠ before.domains[k]?}

/-- At most one record of the zone is inserted or replaced, and none is removed. -/
structure AtMostOneWrite (before after : RootZone) : Prop where
  /-- At most one record differs. -/
  one : (changedTlds before after).Subsingleton ∧ changedDomains before after = ∅ ∨
    changedTlds before after = ∅ ∧ (changedDomains before after).Subsingleton
  /-- No TLD record is removed. -/
  tlds : ∀ k ∈ before.tlds, k ∈ after.tlds
  /-- No domain record is removed. -/
  domains : ∀ k ∈ before.domains, k ∈ after.domains

variable [Externals]

/-- Every record that differs between two zones was written by a key entitled to it in the
first. -/
structure Authorized (a : Authority) (req : MutationRequest) (clock : DateTime)
    (before after : RootZone) : Prop where
  /-- TLD records belong to the root key; the operator of an existing one may pin a registry. -/
  tlds : ∀ k ∈ changedTlds before after, req.actorPublicKey = before.rootPublicKey ∨
    ∃ (tld registryHex : String) (old new : TldRecord), req.action = .updateRegistryPointer tld registryHex ∧
      before.tlds[k]? = some old ∧ after.tlds[k]? = some new ∧
      req.actorPublicKey = old.operatorPublicKey ∧
      new = { old with
        registryManifestHash := new.registryManifestHash
        updatedAt := new.updatedAt
        signature := new.signature }
  /-- An existing domain record belongs to its owner, the operator of its TLD and the root
  key. -/
  existing : ∀ k ∈ changedDomains before after, ∀ old : DomainRecord,
    before.domains[k]? = some old → req.actorPublicKey = old.ownerPublicKey ∨
    (∃ t : TldRecord, before.tlds[old.tld]? = some t ∧ req.actorPublicKey = t.operatorPublicKey) ∨
    req.actorPublicKey = before.rootPublicKey
  /-- A new domain record is owned by its publisher under an official TLD open to publication,
  or issued by the operator of its root-managed TLD. -/
  created : ∀ (k : String) (new : DomainRecord), before.domains[k]? = none →
    after.domains[k]? = some new → ∃ t : TldRecord, before.tlds[new.tld]? = some t ∧ t.registryType = .rootManaged ∧
      (new.ownerPublicKey = req.actorPublicKey ∧ t.status.isResolvable = true ∧
          t.isExpired clock = false ∧ t.operatorPublicKey = a.officialOperator.nodeId ∨
        req.actorPublicKey = t.operatorPublicKey)

section Put

variable (z : RootZone)

omit [Externals] in
/-- Inserting a TLD record writes at most that record. -/
theorem AtMostOneWrite.putTld (name : String) (r : TldRecord) :
    AtMostOneWrite z (z.putTld name r) where
  one := by
    refine .inl ⟨?_, by simp [changedDomains]⟩
    have only : ∀ k ∈ changedTlds z (z.putTld name r), k = name := by
      intro k differs
      by_contra other
      exact differs (by simp [RootZone.putTld_getElem?, Ne.symm other])
    exact fun k member k' member' => (only k member).trans (only k' member').symm
  tlds k member := Std.ExtTreeMap.mem_insert.mpr (.inr member)
  domains k member := member

omit [Externals] in
/-- Inserting a domain record writes at most that record. -/
theorem AtMostOneWrite.putDomain (fqdn : String) (r : DomainRecord) :
    AtMostOneWrite z (z.putDomain fqdn r) where
  one := by
    refine .inr ⟨by simp [changedTlds], ?_⟩
    have only : ∀ k ∈ changedDomains z (z.putDomain fqdn r), k = fqdn := by
      intro k differs
      by_contra other
      exact differs (by simp [RootZone.putDomain_getElem?, Ne.symm other])
    exact fun k member k' member' => (only k member).trans (only k' member').symm
  tlds k member := member
  domains k member := Std.ExtTreeMap.mem_insert.mpr (.inr member)

end Put

section Grants

variable {a : Authority} {req : MutationRequest} {clock : DateTime} {zone : RootZone}

/-- A TLD record that the root key writes is authorized. -/
theorem Authorized.rootTld (name : String) (r : TldRecord)
    (isRoot : req.actorPublicKey = zone.rootPublicKey) :
    Authorized a req clock zone (zone.putTld name r) where
  tlds _ _ := .inl isRoot
  existing _ differs := absurd rfl differs
  created _ _ absent found := absurd (absent.symm.trans found) (by simp)

/-- A domain record is authorized when its writer is entitled to the record it replaces, or to
the new one. -/
theorem Authorized.domain (fqdn : String) (r : DomainRecord)
    (replaces : ∀ old : DomainRecord, zone.domains[fqdn]? = some old →
      req.actorPublicKey = old.ownerPublicKey ∨
      (∃ t : TldRecord, zone.tlds[old.tld]? = some t ∧ req.actorPublicKey = t.operatorPublicKey) ∨
      req.actorPublicKey = zone.rootPublicKey)
    (creates : zone.domains[fqdn]? = none →
      ∃ t : TldRecord, zone.tlds[r.tld]? = some t ∧ t.registryType = .rootManaged ∧
        (r.ownerPublicKey = req.actorPublicKey ∧ t.status.isResolvable = true ∧
            t.isExpired clock = false ∧ t.operatorPublicKey = a.officialOperator.nodeId ∨
          req.actorPublicKey = t.operatorPublicKey)) :
    Authorized a req clock zone (zone.putDomain fqdn r) where
  tlds _ differs := absurd rfl differs
  existing k differs old found := by
    by_cases same : fqdn = k
    · exact replaces old (same ▸ found)
    · exact absurd (by simp [RootZone.putDomain_getElem?, same]) differs
  created k new absent found := by
    rw [RootZone.putDomain_getElem?] at found
    split at found
    · rename_i same
      rw [← Option.some.inj found]
      exact creates (same ▸ absent)
    · exact absurd (absent.symm.trans found) (by simp)

variable [SerdeJson] {manifests : Table String Bytes} {registries : Registries}
  {ctx : MutationContext} {effect : ActionEffect}

/-- Every granted action writes at most one record. -/
theorem Grant.atMostOneWrite
    (granted : Grant zone manifests registries req.actorPublicKey ctx clock req.action effect) :
    AtMostOneWrite zone effect.zone := by
  generalize req.action = action at granted
  cases granted with
  | publish | setDomainStatus | issueDomain => exact .putDomain _ _ _
  | _ => exact .putTld _ _ _

/-- Every granted action is authorized. -/
theorem Grant.authorized (named : ZoneNamed zone) (official : ctx.officialOperator =
      a.officialOperator)
    (granted : Grant zone manifests registries req.actorPublicKey ctx clock req.action effect) :
    Authorized a req clock zone effect.zone := by
  generalize requested : req.action = action at granted
  cases granted with
  | publish _ parses found managed resolvable unexpired operated owned =>
    refine .domain _ _ (fun old held => .inl (owned old held).1.symm) fun _ => ?_
    exact ⟨_, found, managed, .inl ⟨rfl, resolvable, unexpired, official ▸ operated⟩⟩
  | @setDomainStatus _ _ r tldRec _ held found entitled =>
    refine .domain _ _ (fun old heldOld => .inr ?_) fun absent =>
      absurd (absent.symm.trans held) (by simp)
    obtain rfl := Option.some.inj (held.symm.trans heldOld)
    rcases entitled with ⟨isRoot, -⟩ | ⟨isOperator, -⟩
    · exact .inr isRoot
    · exact .inl ⟨tldRec, found, isOperator⟩
  | @issueDomain r tldRec _ found managed entitled labelled signed =>
    refine .domain _ _ (fun old held => .inr (.inl ⟨tldRec, ?_, entitled⟩)) fun _ =>
      ⟨tldRec, found, managed, .inr entitled⟩
    -- The replaced record has the same full name, so it lies in the same TLD.
    obtain ⟨-, split, noDot, -⟩ := named.domains _ _ held
    have own := (DomainRecord.verify_eq_ok.mp signed).1
    rw [(fullName_unique noDot (no_dot_of_validateLabel labelled) (split.symm.trans own)).2]
    exact found
  | delegateTld entitled | createTld entitled | updateTld entitled | setTldStatus entitled =>
    exact .rootTld _ _ entitled
  | restrictTld _ entitled => exact .rootTld _ _ entitled
  | @updateRegistryPointer tld registryHex r bytes registry held entitled =>
    refine ⟨fun k differs => .inr ?_, fun _ differs => absurd rfl differs,
      fun _ _ absent found => absurd (absent.symm.trans found) (by simp)⟩
    have same : Text.toAsciiLowercase tld = k := by
      by_contra other
      exact differs (by simp [RootZone.putTld_getElem?, other])
    subst same
    exact ⟨tld, registryHex, r, _, requested, held,
      (zone.putTld_getElem? _ _ _).trans (if_pos rfl), entitled, rfl⟩

end Grants

/-- In every reachable store, a call of `apply`, whether it is accepted, rejected or fails in
storage, writes at most one record of the zone, and only with the authority of a key that is
entitled to it in the zone before the call. -/
theorem apply_authorized [SerdeJson] {a : Authority} {s : RegistryStore}
    (reachable : a.Reachable s) (call : ApplyCall) :
    AtMostOneWrite s.zone (a.applyTo call s).2.zone ∧
      Authorized a call.request call.clock s.zone (a.applyTo call s).2.zone := by
  rcases a.step_zone s (.apply call) with same | ⟨call', p, equal, prepared, stored⟩
  · rw [Authority.step] at same
    rw [same]
    exact ⟨⟨.inl ⟨by simp [changedTlds], by simp [changedDomains]⟩, fun _ h => h, fun _ h => h⟩,
      ⟨fun _ differs => absurd rfl differs, fun _ differs => absurd rfl differs,
        fun _ _ absent found => absurd (absent.symm.trans found) (by simp)⟩⟩
  · obtain rfl := Op.apply.inj equal
    rw [Authority.step] at stored
    rw [stored]
    obtain ⟨effect, granted, rfl, -⟩ := prepared.granted
    have one := granted.atMostOneWrite
    have entitled := granted.authorized (a := a) reachable.named rfl
    exact ⟨⟨one.one, one.tlds, one.domains⟩, ⟨entitled.tlds, entitled.existing, entitled.created⟩⟩

end Federate

namespace Federate.Reference

/-- Creating an official TLD is authorized. -/
theorem createFoo_authorized :
    AtMostOneWrite start.zone (authority.applyTo createFoo start).2.zone ∧
      Authorized authority createFoo.request createFoo.clock start.zone
        (authority.applyTo createFoo start).2.zone :=
  apply_authorized stage_start.reachable createFoo

end Federate.Reference
