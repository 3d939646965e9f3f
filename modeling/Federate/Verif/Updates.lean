import Federate.Verif.Versions
import Federate.Verif.Routers

/-!
# What an owner's update leaves of a record

Publishing a site under an existing domain rebuilds its record from constants and from some fields
of the old one. Every other field comes back as it was only when it had the constant's value.
-/

namespace Federate

open Outcome Stateful RegistryStore

/-- A record after an owner's update: only what the update is about differs. -/
structure DomainRecord.UpdatedFrom (r' r : DomainRecord) : Prop where
  /-- Every field but the target, its time and the signature is the old one. -/
  others : r' = { r with
    targetType := r'.targetType, manifestHash := r'.manifestHash, updatedAt := r'.updatedAt
    signature := r'.signature }
  /-- A record that points at a manifest keeps doing so. -/
  target : r.targetType = .manifest → r'.targetType = .manifest

/-- The record has nothing that an update would reset. -/
structure DomainRecord.Bare (r : DomainRecord) : Prop where
  /-- It is active. -/
  status : r.status = .active
  /-- It has no service identity. -/
  serviceId : r.serviceId = none
  /-- It has no node identity. -/
  nodeId : r.nodeId = none
  /-- It has no renewal metadata. -/
  renewal : r.renewal = none
  /-- It has no pricing metadata. -/
  pricing : r.pricing = none
  /-- It names the signature scheme of the code. -/
  algorithm : r.signatureAlgorithm = Federate.signatureAlgorithm

variable [Externals]

/-- The record that a publication writes for a domain is an update of the existing one exactly when
that one is bare. -/
theorem publishedRecord_updatedFrom {r : DomainRecord} {parsed : FederateDomain}
    {actor manifestHash now : String} (operator : NodeIdentity) (domain : r.domain = parsed.fqdn)
    (tld : r.tld = parsed.tld) (label : r.label = parsed.name) (owned : r.ownerPublicKey = actor) :
    DomainRecord.UpdatedFrom
      ((publishedRecord (some r) parsed actor manifestHash now).signedBy operator) r ↔ r.Bare := by
  constructor
  · intro updated
    have others := updated.others
    simp only [DomainRecord.signedBy, publishedRecord, DomainRecord.mk.injEq] at others
    obtain ⟨-, -, -, -, -, -, serviceId, nodeId, status, -, -, -, renewal, pricing, algorithm, -⟩ :=
      others
    exact ⟨status.symm, serviceId.symm, nodeId.symm, renewal.symm, pricing.symm, algorithm.symm⟩
  · intro bare
    constructor
    · simp [DomainRecord.signedBy, publishedRecord, domain, tld, label, owned, bare.status,
        bare.serviceId, bare.nodeId, bare.renewal, bare.pricing, bare.algorithm]
    · intro _
      rfl

variable [SerdeJson] {a : Authority} {s : RegistryStore}

/-- A publication or update that a call grants, on the record of its name. -/
theorem Authority.Prepares.publishes {call : ApplyCall} {p : Prepared}
    (prepared : a.Prepares s call p) {domain manifestHash : String}
    (requested : call.request.action = .publishSite domain manifestHash ∨
      call.request.action = .updateDomainManifest domain manifestHash)
    {parsed : FederateDomain} (parses : FederateDomain.parse domain = .ok parsed) :
    (∀ r, s.zone.domains[parsed.fqdn]? = some r → r.ownerPublicKey = call.request.actorPublicKey) ∧
      p.zone.domains[parsed.fqdn]? = some ((publishedRecord s.zone.domains[parsed.fqdn]? parsed
        call.request.actorPublicKey manifestHash (Externals.toRfc3339 call.now)).signedBy
          a.officialOperator) := by
  obtain ⟨effect, granted, rfl, -⟩ := prepared.granted
  generalize call.request.action = action at requested granted
  cases granted with
  | @publish _ _ asked hash own _ _ _ named parsesOwn _ _ _ _ _ owned =>
    have same : asked = domain ∧ hash = manifestHash := by
      rcases named with ⟨rfl, -⟩ | ⟨rfl, -⟩ <;> simpa using requested
    obtain ⟨rfl, rfl⟩ := same
    obtain rfl : own = parsed := Except.ok.inj (parsesOwn.symm.trans parses)
    constructor
    · intro r held
      exact (owned r held).1
    · exact (RootZone.putDomain_getElem? _ _ _ _).trans (if_pos rfl)
  | restrictTld named =>
    rcases named with ⟨rfl, -⟩ | ⟨rfl, -⟩ <;> simp at requested
  | _ => simp at requested

/-- In every reachable store, an accepted publication or update of an existing domain leaves the
rest of its record alone exactly when the record is bare. -/
theorem ownerUpdate_frame_iff (reachable : a.Reachable s) {call : ApplyCall} {event : AuditRecord}
    (accepted : a.Accepts s call event) {domain manifestHash : String}
    (requested : call.request.action = .publishSite domain manifestHash ∨
      call.request.action = .updateDomainManifest domain manifestHash)
    {parsed : FederateDomain} (parses : FederateDomain.parse domain = .ok parsed)
    {r : DomainRecord} (existing : s.zone.domains[parsed.fqdn]? = some r) :
    (∃ r' : DomainRecord, (a.step s (.apply call)).zone.domains[parsed.fqdn]? = some r' ∧
      r'.UpdatedFrom r) ↔ r.Bare := by
  obtain ⟨-, -, -, -, p, prepared, stored⟩ := accepted.effects
  obtain ⟨owned, written⟩ := prepared.publishes requested parses
  have actor : r.ownerPublicKey = call.request.actorPublicKey := owned r existing
  obtain ⟨named, split, noDot, -⟩ := reachable.named.domains _ _ existing
  have label := (FederateDomain.parse_normal parses).1
  have parts : parsed.name = r.label ∧ parsed.tld = r.tld :=
    fullName_unique (not_mem_of_label (by decide) label.chars) noDot split
  have update : DomainRecord.UpdatedFrom ((publishedRecord (some r) parsed
      call.request.actorPublicKey manifestHash (Externals.toRfc3339 call.now)).signedBy
        a.officialOperator) r ↔ r.Bare :=
    publishedRecord_updatedFrom a.officialOperator named parts.2.symm parts.1.symm actor
  rw [stored, written, existing]
  constructor
  · intro left
    obtain ⟨r', held, updated⟩ := left
    rw [← Option.some.inj held] at updated
    exact update.mp updated
  · intro bare
    exact ⟨_, rfl, update.mpr bare⟩

end Federate

namespace Federate.Reference

open Json Outcome Stateful RegistryStore

/-- The address of the manifest of the site. -/
def siteHash : String := hashBytes (compact siteManifest.toJson)

/-- The manifest is filed. -/
def storeSite : Op := .storeManifest siteHash (compact siteManifest.toJson) (.ok ())

/-- The owner of `alice.foo` publishes the site. -/
def publishAlice : ApplyCall := call (identity 3) "third" 2 (.publishSite "alice.foo" siteHash)

/-- The domain `alice.foo` is issued in some status, and the manifest is filed. -/
def issueAlice (status : DomainStatus) : List Op :=
  [.apply createFoo, .apply (issueFoo 1 "alice" status), storeSite]

/-- The record that the publication leaves. -/
def publishedAlice (status : DomainStatus) : DomainRecord :=
  (publishedRecord (some (issuedRecord "alice" "foo" status)) ⟨"alice", "foo"⟩ (identity 3).nodeId
    siteHash stamp).signedBy authority.officialOperator

section Filed

variable {s : RegistryStore} {tlds : Table String TldRecord} {domains : Table String DomainRecord}
  {ids : List String} {versions : String → UInt64} {count : ℕ}

/-- Filing the manifest leaves everything that the next call depends on. -/
theorem Stage.storeSite (stage : Stage s tlds domains ids versions count) :
    Stage (authority.step s storeSite) tlds domains ids versions count ∧
      (authority.step s Reference.storeSite).manifests[siteHash]? =
        some (compact siteManifest.toJson) := by
  have passes : verifyHash (compact siteManifest.toJson) siteHash = .ok () :=
    verifyHash_eq_ok.mpr ⟨isValidHash_hashBytes _, rfl⟩
  have filed : authority.step s Reference.storeSite = { s with
      files := { s.files with
        manifests := s.files.manifests.insert siteHash (compact siteManifest.toJson) }
      manifests := s.manifests.insert siteHash (compact siteManifest.toJson) } := by
    simp [Reference.storeSite, Authority.step, storeManifest, exec_bind, passes, exec_writeManifest]
  have reachable : authority.Reachable (authority.step s Reference.storeSite) := by
    obtain ⟨first, ops, genesis, rfl⟩ := stage.reachable
    refine ⟨first, ops ++ [Reference.storeSite], genesis, ?_⟩
    rw [Authority.run, Transition.run_append]
    rfl
  rw [filed] at reachable ⊢
  constructor
  · exact ⟨reachable, stage.tlds, stage.domains, stage.applied, stage.versions, stage.below⟩
  · exact Std.ExtTreeMap.getElem?_insert_self

end Filed

/-! The ids of the calls, each of them computed once. -/

theorem createFoo_id : createFoo.request.mutationId =
    "53baf969354372b753baf969354372b753baf969354372b753baf969354372b7" := by
  decide +kernel

theorem issueActive_id : (issueFoo 1 "alice" .active).request.mutationId =
    "0f8113d39c40d2a10f8113d39c40d2a10f8113d39c40d2a10f8113d39c40d2a1" := by
  decide +kernel

theorem issuePending_id : (issueFoo 1 "alice" .pending).request.mutationId =
    "2429450b17ae315a2429450b17ae315a2429450b17ae315a2429450b17ae315a" := by
  decide +kernel

theorem publishAlice_id : publishAlice.request.mutationId =
    "7100044290226996710004429022699671000442902269967100044290226996" := by
  decide +kernel

/-- The owner's publication is accepted when the domain is active or pending. -/
theorem publishAlice_accepted {status : DomainStatus}
    (allowed : status = .active ∨ status = .pending) :
    authority.Reachable (authority.run start (issueAlice status)) ∧
      (authority.run start (issueAlice status)).zone.domains["alice.foo"]? =
        some (issuedRecord "alice" "foo" status) ∧
      ∃ event, authority.Accepts (authority.run start (issueAlice status)) publishAlice event := by
  have normal : validateLabel "alice" = .ok "alice" := by decide +kernel
  have issuedFresh : (issueFoo 1 "alice" status).request.mutationId ∉
      [createFoo.request.mutationId] := by
    rw [createFoo_id]
    rcases allowed with rfl | rfl
    · rw [issueActive_id]
      decide
    · rw [issuePending_id]
      decide
  have issuedAdvances : (if "tld:foo" = (issueFoo 1 "alice" status).request.action.targetKey then 1
      else 0) < (1 : UInt64) := by
    have key : (issueFoo 1 "alice" status).request.action.targetKey = "domain:alice.foo" := by
      show "domain" ++ ":" ++ Text.toAsciiLowercase ("alice" ++ "." ++ "foo") = _
      decide +kernel
    rw [key]
    decide
  have issued := (stage_issueFoo 1 status normal issuedFresh issuedAdvances).2
  obtain ⟨stage, stored⟩ := issued.storeSite
  have split : authority.run start (issueAlice status) = authority.step (authority.run start
      [.apply createFoo, .apply (issueFoo 1 "alice" status)]) storeSite := rfl
  rw [← split] at stage stored
  generalize authority.run start (issueAlice status) = s at stage stored ⊢
  have held : s.zone.domains["alice.foo"]? = some (issuedRecord "alice" "foo" status) := by
    rw [stage.domains]
    exact Std.ExtTreeMap.getElem?_insert_self
  have found : s.zone.lookupTld "foo" = some (official "foo") := by
    rw [RootZone.lookupTld, stage.tlds]
    exact Std.ExtTreeMap.getElem?_insert_self
  have name : (FederateDomain.mk "alice" "foo").fqdn = "alice.foo" := by decide
  have owned : checkPublishable (some (issuedRecord "alice" "foo" status)) "alice.foo"
      (identity 3).nodeId false = .ok () := by
    refine checkPublishable_eq_ok.mpr ⟨?_, by simp⟩
    intro r same
    rw [← Option.some.inj same]
    exact ⟨rfl, allowed⟩
  have granted : applyAction s.zone s.manifests s.registries (identity 3).nodeId
      (authority.context publishAlice) publishAlice.clock (.publishSite "alice.foo" siteHash) =
        .ok ⟨s.zone.putDomain "alice.foo" (publishedAlice status), none, .domainOwner⟩ := by
    simp only [applyAction, publish, bind_eq_ok, mapError_eq_ok, okOr_eq_ok, rejectIf_eq_ok,
      exists_const, pure_eq_ok]
    refine ⟨⟨"alice", "foo"⟩, parse_alice, official "foo", found, by decide, by decide +kernel,
      by decide, ⟨⟩, ?_, compact siteManifest.toJson, stored, siteManifest,
      serde_eq_ok.mpr siteManifest_reads, ⟨⟩, siteManifest_validate, ⟨⟩, ?_, ?_⟩
    · rw [name, held]
      exact owned
    · exact siteManifest_verify
    · rw [name, held]
      rfl
  have fresh : publishAlice.request.mutationId ∉
      [(issueFoo 1 "alice" status).request.mutationId, createFoo.request.mutationId] := by
    rw [createFoo_id, publishAlice_id]
    rcases allowed with rfl | rfl
    · rw [issueActive_id]
      decide
    · rw [issuePending_id]
      decide
  have advances : (if (issueFoo 1 "alice" status).request.action.targetKey =
      (MutationAction.publishSite "alice.foo" siteHash).targetKey then 1
      else if "tld:foo" = (MutationAction.publishSite "alice.foo" siteHash).targetKey then 1
      else 0) < (2 : UInt64) := by
    split
    · decide
    · split <;> decide
  have accepted := (stage.putDomain (c := publishAlice) rfl rfl rfl (by decide) fresh advances
    granted).1
  exact ⟨stage.reachable, held, accepted⟩

/-- The owner's publication leaves the rest of an active record alone. -/
theorem activeAlice_updated :
    ∃ event, authority.Accepts (authority.run start (issueAlice .active)) publishAlice event ∧
      ((∃ r' : DomainRecord, (authority.step (authority.run start (issueAlice .active))
        (.apply publishAlice)).zone.domains[(FederateDomain.mk "alice" "foo").fqdn]? = some r' ∧
          r'.UpdatedFrom (issuedRecord "alice" "foo" .active)) ↔
        (issuedRecord "alice" "foo" .active).Bare) := by
  obtain ⟨reachable, held, event, accepted⟩ := publishAlice_accepted (.inl rfl)
  exact ⟨event, accepted, ownerUpdate_frame_iff reachable accepted (.inl rfl) parse_alice held⟩

/-- The owner's publication makes a pending domain active. -/
theorem pendingAlice_activated : authority.Reachable (authority.run start (issueAlice .pending)) ∧
    (∃ event, authority.Accepts (authority.run start (issueAlice .pending)) publishAlice event) ∧
    (authority.run start (issueAlice .pending)).zone.domains["alice.foo"]? =
      some (issuedRecord "alice" "foo" .pending) ∧
    ¬∃ r' : DomainRecord, (authority.step (authority.run start (issueAlice .pending))
      (.apply publishAlice)).zone.domains["alice.foo"]? = some r' ∧
        r'.UpdatedFrom (issuedRecord "alice" "foo" .pending) := by
  obtain ⟨reachable, held, event, accepted⟩ := publishAlice_accepted (.inr rfl)
  refine ⟨reachable, ⟨event, accepted⟩, held, ?_⟩
  obtain ⟨-, -, -, -, p, prepared, stored⟩ := accepted.effects
  obtain ⟨-, written⟩ := prepared.publishes (.inl rfl) parse_alice
  intro left
  obtain ⟨r', found, updated⟩ := left
  rw [stored] at found
  have active : r'.status = .active := by
    rw [← Option.some.inj (written.symm.trans found)]
    rfl
  have pending : r'.status = .pending := by
    rw [updated.others]
    rfl
  rw [active] at pending
  cases pending

end Federate.Reference
