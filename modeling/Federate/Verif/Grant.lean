import Federate.Mutation.Run
import Federate.Verif.Names

/-!
# What an accepted action writes

`Grant` is the policy of the mutation path, stated apart from the code: one constructor for
each way an action may be accepted, with every condition it is accepted under and the one
record it writes. The code grants nothing else (`applyAction_grant`); what later results need
about actions they take from this relation, by cases, and never from the code.
-/

namespace Federate

open Outcome

variable [Externals]

/-- The action is accepted and leaves this effect. -/
inductive Grant [SerdeJson] (zone : RootZone) (manifests : Table String Bytes)
    (registries : Registries) (actor : String) (ctx : MutationContext) (clock : DateTime) :
    MutationAction → ActionEffect → Prop
  | publish {action : MutationAction} {isUpdate : Bool} {domain manifestHash : String}
      {parsed : FederateDomain} {tldRec : TldRecord} {bytes : Bytes} {manifest : Manifest}
      (requested : action = .publishSite domain manifestHash ∧ isUpdate = false ∨
        action = .updateDomainManifest domain manifestHash ∧ isUpdate = true)
      (parses : FederateDomain.parse domain = .ok parsed)
      (found : zone.tlds[parsed.tld]? = some tldRec)
      (managed : tldRec.registryType = .rootManaged)
      (resolvable : tldRec.status.isResolvable = true)
      (unexpired : tldRec.isExpired clock = false)
      (operated : tldRec.operatorPublicKey = ctx.officialOperator.nodeId)
      (owned : ∀ r, zone.domains[parsed.fqdn]? = some r →
        r.ownerPublicKey = actor ∧ (r.status = .active ∨ r.status = .pending))
      (present : isUpdate = true → parsed.fqdn ∈ zone.domains)
      (stored : manifests[manifestHash]? = some bytes)
      (reads : SerdeDocuments.manifest bytes = .ok manifest)
      (valid : manifest.validate = .ok ())
      (signed : manifest.verify parsed.fqdn actor = .ok ()) :
      Grant zone manifests registries actor ctx clock action
        ⟨zone.putDomain parsed.fqdn ((publishedRecord zone.domains[parsed.fqdn]? parsed actor
          manifestHash (Externals.toRfc3339 ctx.now)).signedBy ctx.officialOperator), none,
          .domainOwner⟩
  | setDomainStatus {domain : String} {status : DomainStatus} {r : DomainRecord}
      {tldRec : TldRecord} {role : ActorRole}
      (held : zone.domains[Text.toAsciiLowercase domain]? = some r)
      (found : zone.tlds[r.tld]? = some tldRec)
      (entitled : actor = zone.rootPublicKey ∧ role = .root ∨
        actor = tldRec.operatorPublicKey ∧ role = .tldOperator)
      (allowed : allowedDomainTransition r.status status (actor = zone.rootPublicKey) = true)
      (operated : tldRec.operatorPublicKey = ctx.officialOperator.nodeId) :
      Grant zone manifests registries actor ctx clock (.setDomainStatus domain status)
        ⟨zone.putDomain (Text.toAsciiLowercase domain) (DomainRecord.signedBy { r with
          status, updatedAt := Externals.toRfc3339 ctx.now, signature := none }
          ctx.officialOperator), none, role⟩
  | issueDomain {r : DomainRecord} {tldRec : TldRecord} {label : String}
      (found : zone.tlds[r.tld]? = some tldRec)
      (managed : tldRec.registryType = .rootManaged)
      (entitled : actor = tldRec.operatorPublicKey)
      (labelled : validateLabel r.label = .ok label)
      (signed : r.verify actor = .ok ())
      (unexpired : r.isExpired clock = false)
      (reissued : ∀ existing, zone.domains[r.domain]? = some existing →
        existing.status = .revoked → actor = zone.rootPublicKey) :
      Grant zone manifests registries actor ctx clock (.issueDomain r)
        ⟨zone.putDomain r.domain r, none, .tldOperator⟩
  | delegateTld {tld owner operator operatorName name : String} {registryType : RegistryType}
      {endpoint expiresAt : Option String}
      (entitled : actor = zone.rootPublicKey)
      (admitted : ctx.blocklists.validateNewTld tld false = .ok name)
      (absent : name ∉ zone.tlds)
      (delegated : registryType ≠ .rootManaged)
      (ownerKey : isKeyText owner = true)
      (operatorKey : isKeyText operator = true) :
      Grant zone manifests registries actor ctx clock
        (.delegateTld tld owner operator operatorName registryType endpoint expiresAt)
        ⟨zone.putTld name ((delegatedRecord name owner operator operatorName registryType endpoint
          expiresAt (Externals.toRfc3339 ctx.now)).signedBy ctx.root), none, .root⟩
  | createTld {tld purpose name : String}
      (entitled : actor = zone.rootPublicKey)
      (admitted : ctx.blocklists.validateNewTld tld true = .ok name)
      (absent : name ∉ zone.tlds) :
      Grant zone manifests registries actor ctx clock (.createTld tld purpose)
        ⟨zone.putTld name ((officialRecord ctx name purpose
          (Externals.toRfc3339 ctx.now)).signedBy ctx.root), none, .root⟩
  | restrictTld {action : MutationAction} {status : TldStatus} {mode : TldMode}
      {tld reason name : String}
      (requested : action = .reserveTld tld reason ∧ status = .reserved ∧ mode = .reserved ∨
        action = .blockTld tld reason ∧ status = .blocked ∧ mode = .blocked)
      (entitled : actor = zone.rootPublicKey)
      (named : validateTldName tld = .ok name)
      (absent : name ∉ zone.tlds) :
      Grant zone manifests registries actor ctx clock action
        ⟨zone.putTld name ((restrictedRecord ctx status mode name reason
          (Externals.toRfc3339 ctx.now)).signedBy ctx.root), none, .root⟩
  | updateTld {tld : String} {endpoint expiresAt notes : Option String} {r : TldRecord}
      (entitled : actor = zone.rootPublicKey)
      (held : zone.tlds[Text.toAsciiLowercase tld]? = some r) :
      Grant zone manifests registries actor ctx clock (.updateTld tld endpoint expiresAt notes)
        ⟨zone.putTld (Text.toAsciiLowercase tld) (TldRecord.signedBy { r with
          registryEndpoint := endpoint.or r.registryEndpoint
          expiresAt := expiresAt.or r.expiresAt
          notes := notes.or r.notes
          updatedAt := Externals.toRfc3339 ctx.now
          signature := none } ctx.root), none, .root⟩
  | setTldStatus {tld : String} {status : TldStatus} {r : TldRecord}
      (entitled : actor = zone.rootPublicKey)
      (held : zone.tlds[Text.toAsciiLowercase tld]? = some r)
      (changes : r.status ≠ status) :
      Grant zone manifests registries actor ctx clock (.setTldStatus tld status)
        ⟨zone.putTld (Text.toAsciiLowercase tld) (TldRecord.signedBy { r with
          status, updatedAt := Externals.toRfc3339 ctx.now, signature := none } ctx.root), none,
          .root⟩
  | updateRegistryPointer {tld registryHex : String} {r : TldRecord} {bytes : Bytes}
      {registry : TldRegistry}
      (held : zone.tlds[Text.toAsciiLowercase tld]? = some r)
      (entitled : actor = r.operatorPublicKey)
      (pinned : r.registryType = .delegatedManifest)
      (decodes : Hex.decode registryHex = some bytes)
      (reads : SerdeDocuments.tldRegistry bytes = .ok registry)
      (signed : registry.verify (Text.toAsciiLowercase tld) actor = .ok ())
      (advances : ∀ entry, registries[Text.toAsciiLowercase tld]? = some entry →
        entry.2.version < registry.version) :
      Grant zone manifests registries actor ctx clock (.updateRegistryPointer tld registryHex)
        ⟨zone.putTld (Text.toAsciiLowercase tld) (TldRecord.signedBy { r with
          registryManifestHash := some (hashBytes bytes)
          updatedAt := Externals.toRfc3339 ctx.now
          signature := none } ctx.root), some (Text.toAsciiLowercase tld, bytes, registry),
          .tldOperator⟩

omit [Externals] in
/-- A publication needs the actor to own an existing domain that is active or pending. -/
theorem checkPublishable_eq_ok {existing : Option DomainRecord} {fqdn actor : String}
    {isUpdate : Bool} {u : Unit} : checkPublishable existing fqdn actor isUpdate = .ok u ↔
      (∀ r, existing = some r →
        r.ownerPublicKey = actor ∧ (r.status = .active ∨ r.status = .pending)) ∧
      (isUpdate = true → existing.isSome = true) := by
  cases existing with
  | none => simp [checkPublishable]
  | some r => simp [checkPublishable, or_iff_not_imp_left]

omit [Externals] in
/-- The root key or the operator key of the TLD may change the status of a domain. -/
theorem statusRole_eq_ok {zone : RootZone} {actor fqdn tld : String} {tldRec : TldRecord}
    {role : ActorRole} (entitled : statusRole zone actor tldRec fqdn tld = .ok role) :
    actor = zone.rootPublicKey ∧ role = .root ∨
      actor = tldRec.operatorPublicKey ∧ role = .tldOperator := by
  unfold statusRole at entitled
  split at entitled
  · rename_i isRoot
    exact .inl ⟨isRoot, (Except.ok.inj entitled).symm⟩
  · split at entitled
    · rename_i isOperator
      exact .inr ⟨isOperator, (Except.ok.inj entitled).symm⟩
    · exact absurd entitled (by simp)

section Arms

variable [SerdeJson] {zone : RootZone} {manifests : Table String Bytes}
  {registries : Registries} {actor : String} {ctx : MutationContext} {clock : DateTime}
  {effect : ActionEffect}

/-- What `publish` accepts is granted. -/
theorem publish_grant {action : MutationAction} {isUpdate : Bool} {domain manifestHash : String}
    (requested : action = .publishSite domain manifestHash ∧ isUpdate = false ∨
      action = .updateDomainManifest domain manifestHash ∧ isUpdate = true)
    (accepted : publish zone manifests actor ctx clock isUpdate domain manifestHash =
      .ok effect) : Grant zone manifests registries actor ctx clock action effect := by
  simp only [publish, bind_eq_ok, mapError_eq_ok, serde_eq_ok, okOr_eq_ok, rejectIf_eq_ok, pure_eq_ok,
    exists_const, exists_unit, checkPublishable_eq_ok, ne_eq, not_not, not_or,
    Bool.not_eq_false, Bool.not_eq_true] at accepted
  obtain ⟨parsed, parses, tldRec, found, managed, ⟨resolvable, unexpired⟩, operated,
    ⟨owned, present⟩, bytes, stored, manifest, reads, valid, signed, rfl⟩ := accepted
  exact .publish requested parses found managed resolvable unexpired operated owned
    (fun update => Std.ExtTreeMap.mem_iff_isSome_getElem?.mpr (present update)) stored reads valid
    signed

/-- What `setDomainStatus` accepts is granted. -/
theorem setDomainStatus_grant {domain : String} {status : DomainStatus}
    (accepted : setDomainStatus zone actor ctx domain status = .ok effect) :
    Grant zone manifests registries actor ctx clock (.setDomainStatus domain status) effect := by
  simp only [setDomainStatus, bind_eq_ok, okOr_eq_ok, rejectIf_eq_ok, pure_eq_ok, exists_const,
    ne_eq, not_not, Bool.not_eq_false] at accepted
  obtain ⟨r, held, tldRec, found, role, entitled, allowed, operated, rfl⟩ := accepted
  exact .setDomainStatus held found (statusRole_eq_ok entitled) allowed operated

/-- What `issueDomain` accepts is granted. -/
theorem issueDomain_grant {r : DomainRecord}
    (accepted : issueDomain zone actor clock r = .ok effect) :
    Grant zone manifests registries actor ctx clock (.issueDomain r) effect := by
  simp only [issueDomain, bind_eq_ok, mapError_eq_ok, okOr_eq_ok, rejectIf_eq_ok, exists_const,
    exists_unit, ne_eq, not_not, Bool.not_eq_true] at accepted
  obtain ⟨tldRec, found, managed, entitled, label, labelled, signed, unexpired, reissued⟩ :=
    accepted
  split at reissued
  · rename_i existing held
    simp only [rejectIf_eq_ok, bind_eq_ok, exists_const, pure_eq_ok, not_and, not_not]
      at reissued
    obtain ⟨rootOnly, rfl⟩ := reissued
    refine .issueDomain found managed entitled labelled signed unexpired ?_
    intro other heldOther
    rw [held, Option.some.injEq] at heldOther
    exact heldOther ▸ rootOnly
  · rename_i absent
    simp only [pure_eq_ok] at reissued
    obtain ⟨-, rfl⟩ := reissued
    refine .issueDomain found managed entitled labelled signed unexpired ?_
    intro other heldOther
    simp [absent] at heldOther

/-- What `delegateTld` accepts is granted. -/
theorem delegateTld_grant {tld owner operator operatorName : String}
    {registryType : RegistryType} {endpoint expiresAt : Option String}
    (accepted : delegateTld zone actor ctx tld owner operator operatorName registryType endpoint
      expiresAt = .ok effect) :
    Grant zone manifests registries actor ctx clock
      (.delegateTld tld owner operator operatorName registryType endpoint expiresAt) effect := by
  simp only [delegateTld, bind_eq_ok, rejectIf_eq_ok, pure_eq_ok, exists_const, forM_eq_ok,
    ne_eq, not_not, Bool.not_eq_false, List.mem_cons, List.not_mem_nil, or_false,
    forall_eq_or_imp, forall_eq] at accepted
  obtain ⟨entitled, name, admitted, absent, delegated, ⟨ownerKey, operatorKey⟩, rfl⟩ := accepted
  exact .delegateTld entitled admitted absent delegated ownerKey operatorKey

/-- What `createTld` accepts is granted. -/
theorem createTld_grant {tld purpose : String}
    (accepted : createTld zone actor ctx tld purpose = .ok effect) :
    Grant zone manifests registries actor ctx clock (.createTld tld purpose) effect := by
  simp only [createTld, bind_eq_ok, rejectIf_eq_ok, pure_eq_ok, exists_const, ne_eq, not_not]
    at accepted
  obtain ⟨entitled, name, admitted, absent, rfl⟩ := accepted
  exact .createTld entitled admitted absent

/-- What `restrictTld` accepts is granted. -/
theorem restrictTld_grant {action : MutationAction} {status : TldStatus} {mode : TldMode}
    {tld reason : String}
    (requested : action = .reserveTld tld reason ∧ status = .reserved ∧ mode = .reserved ∨
      action = .blockTld tld reason ∧ status = .blocked ∧ mode = .blocked)
    (accepted : restrictTld zone actor ctx status mode tld reason = .ok effect) :
    Grant zone manifests registries actor ctx clock action effect := by
  simp only [restrictTld, bind_eq_ok, rejectIf_eq_ok, pure_eq_ok, exists_const, ne_eq, not_not]
    at accepted
  obtain ⟨entitled, name, named, absent, rfl⟩ := accepted
  exact .restrictTld requested entitled named absent

/-- What `updateTld` accepts is granted. -/
theorem updateTld_grant {tld : String} {endpoint expiresAt notes : Option String}
    (accepted : updateTld zone actor ctx tld endpoint expiresAt notes = .ok effect) :
    Grant zone manifests registries actor ctx clock (.updateTld tld endpoint expiresAt notes)
      effect := by
  simp only [updateTld, bind_eq_ok, okOr_eq_ok, rejectIf_eq_ok, pure_eq_ok, exists_const, ne_eq,
    not_not] at accepted
  obtain ⟨entitled, r, held, rfl⟩ := accepted
  exact .updateTld entitled held

/-- What `setTldStatus` accepts is granted. -/
theorem setTldStatus_grant {tld : String} {status : TldStatus}
    (accepted : setTldStatus zone actor ctx tld status = .ok effect) :
    Grant zone manifests registries actor ctx clock (.setTldStatus tld status) effect := by
  simp only [setTldStatus, bind_eq_ok, okOr_eq_ok, rejectIf_eq_ok, pure_eq_ok, exists_const, ne_eq,
    not_not] at accepted
  obtain ⟨entitled, r, held, changes, rfl⟩ := accepted
  exact .setTldStatus entitled held changes

/-- What `updateRegistryPointer` accepts is granted. -/
theorem updateRegistryPointer_grant {tld registryHex : String}
    (accepted : updateRegistryPointer zone registries actor ctx tld registryHex = .ok effect) :
    Grant zone manifests registries actor ctx clock (.updateRegistryPointer tld registryHex)
      effect := by
  simp only [updateRegistryPointer, bind_eq_ok, serde_eq_ok, okOr_eq_ok, rejectIf_eq_ok,
    pure_eq_ok, exists_const, exists_unit, ne_eq, not_not] at accepted
  obtain ⟨r, held, entitled, pinned, bytes, decodes, registry, reads, signed, advances, rfl⟩ :=
    accepted
  refine .updateRegistryPointer held entitled pinned decodes reads signed ?_
  intro entry pinnedBefore
  simpa [pinnedBefore, UInt64.not_le] using advances

/-- Every action the code accepts is granted, with the effect the code computes. -/
theorem applyAction_grant {action : MutationAction}
    (accepted : applyAction zone manifests registries actor ctx clock action = .ok effect) :
    Grant zone manifests registries actor ctx clock action effect := by
  cases action with
  | publishSite => exact publish_grant (.inl ⟨rfl, rfl⟩) accepted
  | updateDomainManifest => exact publish_grant (.inr ⟨rfl, rfl⟩) accepted
  | setDomainStatus => exact setDomainStatus_grant accepted
  | issueDomain => exact issueDomain_grant accepted
  | delegateTld => exact delegateTld_grant accepted
  | updateTld => exact updateTld_grant accepted
  | createTld => exact createTld_grant accepted
  | reserveTld => exact restrictTld_grant (.inl ⟨rfl, rfl, rfl⟩) accepted
  | blockTld => exact restrictTld_grant (.inr ⟨rfl, rfl, rfl⟩) accepted
  | setTldStatus => exact setTldStatus_grant accepted
  | updateRegistryPointer => exact updateRegistryPointer_grant accepted

end Arms

end Federate
