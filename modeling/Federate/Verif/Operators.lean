import Federate.Verif.Resolution
import Federate.Verif.Registries
import Federate.Verif.Signed
import Federate.Verif.Versions

/-!
# How the key of an operator is written

A delegation takes the operator's key in either case of its hexadecimal digits, while everything
the operator does later is compared with its node id, which is in lowercase.
-/

namespace Federate

open Outcome Stateful RegistryStore

/-- Text that lowercasing leaves alone has no uppercase letters. -/
theorem not_upper_of_lowercase {s : String} (lower : Text.toAsciiLowercase s = s) :
    ∀ c ∈ s.toList, ¬('A' ≤ c ∧ c ≤ 'Z') := by
  intro c member upper
  have same : s.toList.map Char.toLower = s.toList := by
    conv_rhs => rw [← lower, Text.toAsciiLowercase, Text.toList_onChars]
  obtain ⟨i, found⟩ := List.mem_iff_getElem?.mp member
  have own : c.toLower = c := by
    have kept := congrArg (·[i]?) same
    simp only [List.getElem?_map, found, Option.map_some, Option.some.injEq] at kept
    exact kept
  have raised : c.val + 32 = c.val := by
    rw [Char.toLower, dif_pos ⟨upper.1, upper.2⟩] at own
    exact congrArg Char.val own
  have small : c.val.toNat ≤ 90 := UInt32.le_iff_toNat_le.mp upper.2
  have shifted : (c.val + 32).toNat = c.val.toNat + 32 := by
    rw [UInt32.toNat_add]
    exact Nat.mod_eq_of_lt (by show c.val.toNat + 32 < 2 ^ 32; omega)
  rw [raised] at shifted
  omega

variable [Externals]

/-- A key text of an identity is in lowercase exactly when it is its node id. -/
theorem lowercase_iff_nodeId {key : String} {identity : NodeIdentity}
    (own : Hex.decode key = some (Externals.verifyingKey identity.signingKey).toList) :
    Text.toAsciiLowercase key = key ↔ key = identity.nodeId := by
  constructor
  · intro lower
    have digits : ∀ c ∈ key.toList, ¬('A' ≤ c ∧ c ≤ 'F') := by
      intro c member upper
      have atMost : c ≤ 'Z' := Char.le_trans upper.2 (by decide)
      exact not_upper_of_lowercase lower c member ⟨upper.1, atMost⟩
    exact (Hex.encode_of_decode own digits).symm
  · intro same
    rw [same]
    refine Text.toAsciiLowercase_eq_self fun c member upper => ?_
    rcases Hex.encode_lowercase _ c member with decimal | letter
    · exact absurd (Char.le_trans upper.1 decimal.2) (by decide)
    · exact absurd (Char.le_trans letter.1 upper.2) (by decide)

/-- Every domain is filed under its own name in the TLD. -/
def FiledIn (tld : String) (domains : Table String DomainRecord) : Prop :=
  ∀ (fqdn : String) (d : DomainRecord), domains[fqdn]? = some d → d.tld = tld ∧ d.domain = fqdn

/-- A registry that an identity signs verifies under a key exactly when that is its node id and the
domains are filed in the TLD. -/
theorem TldRegistry.verify_signed (signs : SignaturesVerify) (identity : NodeIdentity)
    (tld : String) (version : UInt64) (generatedAt : String) (domains : Table String DomainRecord)
    (key : String) :
    (TldRegistry.signed identity tld version generatedAt domains).verify tld key = .ok () ↔
      key = identity.nodeId ∧ FiledIn tld domains := by
  rw [TldRegistry.verify_eq_ok]
  constructor
  · intro verified
    exact ⟨verified.2.1.symm, verified.2.2.2⟩
  · intro fits
    obtain ⟨rfl, filed⟩ := fits
    exact ⟨rfl, rfl, ⟨_, rfl, verifySignature_sign signs identity _⟩, filed⟩

variable [SerdeJson]

/-- Updating the pointer of a TLD of the zone fails as unauthorized exactly when the actor is not
its operator. -/
theorem updateRegistryPointer_unauthorized {zone : RootZone} {registries : Registries}
    {actor tld registryHex : String} {ctx : MutationContext} {r : TldRecord}
    (held : zone.tlds[Text.toAsciiLowercase tld]? = some r) :
    (∀ detail, updateRegistryPointer zone registries actor ctx tld registryHex ≠
      .error (.unauthorized detail)) ↔ r.operatorPublicKey = actor := by
  constructor
  · intro admitted
    by_contra differs
    have refused : actor ≠ r.operatorPublicKey := fun same => differs same.symm
    refine admitted s!"actor is not the operator of .{Text.toAsciiLowercase tld}" ?_
    simp [updateRegistryPointer, held, okOr, rejectIf, refused, bind, Except.bind]
  · intro operator detail refused
    have found (e : FederateError) : okOr zone.tlds[Text.toAsciiLowercase tld]? e = pure r := by
      rw [held]
      rfl
    have skipped (e : FederateError) : rejectIf (actor ≠ r.operatorPublicKey) e = pure () :=
      if_neg (not_not.mpr operator.symm)
    have fails : FailsWith (fun e => e ≠ .unauthorized detail)
        (updateRegistryPointer zone registries actor ctx tld registryHex) := by
      unfold updateRegistryPointer
      simp only [found, pure_bind, skipped]
      refine (failsWith_rejectIf (by simp)).bind fun _ => ?_
      refine (failsWith_okOr (by simp)).bind fun bytes => ?_
      refine FailsWith.bind ?_ fun registry => ?_
      · intro e failed same
        cases reads : SerdeDocuments.tldRegistry bytes with
        | ok registry => simp [serde, mapError, reads] at failed
        | error text =>
          simp only [serde, mapError, reads, Except.error.injEq] at failed
          rw [same] at failed
          cases failed
      refine FailsWith.bind ?_ fun _ => ?_
      · intro e failed same
        have signature := registry.verify_failed _ _ e failed
        rw [same] at signature
        cases signature
      refine (failsWith_rejectIf (by simp)).bind fun _ => ?_
      intro e failed
      cases failed
    exact fails _ refused rfl

/-- The identity can operate the TLD of a record with a registry of these domains. -/
structure Operates (s : RegistryStore) (identity : NodeIdentity) (r : TldRecord) (name : String)
    (version : UInt64) (generatedAt : String) (domains : Table String DomainRecord) : Prop where
  /-- The registry, signed by the identity, verifies under the record. -/
  verifies : (TldRegistry.signed identity name version generatedAt domains).verify name
    r.operatorPublicKey = .ok ()
  /-- The identity passes the operator check of every pointer update. -/
  admitted : ∀ ctx clock spelled registryHex detail, Text.toAsciiLowercase spelled = name →
    applyAction s.zone s.manifests s.registries identity.nodeId ctx clock
      (.updateRegistryPointer spelled registryHex) ≠ .error (.unauthorized detail)

/-- An identity can operate a TLD of the zone exactly when its node id is the operator's key and the
domains are filed in the TLD. -/
theorem operates_iff (signs : SignaturesVerify) {s : RegistryStore} {identity : NodeIdentity}
    {r : TldRecord} {name : String} {version : UInt64} {generatedAt : String}
    {domains : Table String DomainRecord} (held : s.zone.tlds[name]? = some r) :
    Operates s identity r name version generatedAt domains ↔
      r.operatorPublicKey = identity.nodeId ∧ FiledIn name domains := by
  constructor
  · intro operates
    exact (TldRegistry.verify_signed signs ..).mp operates.verifies
  · intro fits
    constructor
    · exact (TldRegistry.verify_signed signs ..).mpr fits
    · intro ctx clock spelled registryHex detail asked
      have found : s.zone.tlds[Text.toAsciiLowercase spelled]? = some r := asked ▸ held
      exact (updateRegistryPointer_unauthorized found).mpr fits.1 detail

variable {a : Authority} {s : RegistryStore}

/-- A TLD of the zone keeps its operator whatever happens to the registry. -/
theorem Authority.run_operator {name operator : String} (ops : List Op) {r : TldRecord}
    (held : s.zone.tlds[name]? = some r) (own : r.operatorPublicKey = operator) :
    ∃ r' : TldRecord, (a.run s ops).zone.tlds[name]? = some r' ∧
      r'.operatorPublicKey = operator := by
  have kept (s : RegistryStore) (op : Op)
      (has : ∃ r : TldRecord, s.zone.tlds[name]? = some r ∧ r.operatorPublicKey = operator)
      (_ : True) : ∃ r : TldRecord, (a.step s op).zone.tlds[name]? = some r ∧
        r.operatorPublicKey = operator := by
    refine step_keeps (P := fun z => ∃ r : TldRecord, z.tlds[name]? = some r ∧
      r.operatorPublicKey = operator) has ?_ op
    intro call p prepared
    obtain ⟨effect, granted, rfl, -⟩ := prepared.granted
    obtain ⟨r, held, own⟩ := has
    obtain ⟨new, found, same, -⟩ := granted.tld_kept held
    exact ⟨new, found, same.trans own⟩
  exact Transition.invariant kept ⟨r, held, own⟩ (Transition.guarded_true a.step s ops)

/-- What an accepted delegation files. -/
theorem Authority.Accepts.delegates {call : ApplyCall} {event : AuditRecord}
    (accepted : a.Accepts s call event)
    {tld owner operator operatorName : String} {registryType : RegistryType}
    {endpoint expiresAt : Option String}
    (requested : call.request.action =
      .delegateTld tld owner operator operatorName registryType endpoint expiresAt) :
    ∃ name, validateTldName tld = .ok name ∧ ∃ r : TldRecord,
      (a.step s (.apply call)).zone.tlds[name]? = some r ∧ r.operatorPublicKey = operator := by
  obtain ⟨-, -, -, -, p, prepared, stored⟩ := accepted.effects
  obtain ⟨effect, granted, rfl, -⟩ := prepared.granted
  rw [stored]
  rw [requested] at granted
  cases granted with
  | @delegateTld _ _ _ _ name _ _ _ entitled admitted =>
    have valid : validateTldName tld = .ok name := (Blocklists.validateNewTld_eq_ok.mp admitted).1
    let r : TldRecord := (delegatedRecord name owner operator operatorName registryType endpoint
      expiresAt (Externals.toRfc3339 call.now)).signedBy a.root
    have filed : (s.zone.putTld name r).tlds[name]? = some r :=
      (RootZone.putTld_getElem? s.zone name name r).trans (if_pos rfl)
    exact ⟨name, valid, r, filed, rfl⟩
  | publish named | restrictTld named => rcases named with ⟨named, -⟩ | ⟨named, -⟩ <;> cases named

/-- In every store that an accepted delegation leads to, the identity of the operator's key can
operate the TLD exactly when the key was written in lowercase, as far as the domains are filed in
the TLD. -/
theorem delegation_operable_iff (signs : SignaturesVerify) {call : ApplyCall} {event : AuditRecord}
    (accepted : a.Accepts s call event)
    {tld owner operator operatorName : String} {registryType : RegistryType}
    {endpoint expiresAt : Option String}
    (requested : call.request.action =
      .delegateTld tld owner operator operatorName registryType endpoint expiresAt)
    {identity : NodeIdentity}
    (own : Hex.decode operator = some (Externals.verifyingKey identity.signingKey).toList)
    (ops : List Op) :
    ∃ name r, validateTldName tld = .ok name ∧
      (a.run s (.apply call :: ops)).zone.tlds[name]? = some r ∧
      ∀ version generatedAt domains,
        Operates (a.run s (.apply call :: ops)) identity r name version generatedAt domains ↔
          Text.toAsciiLowercase operator = operator ∧ FiledIn name domains := by
  obtain ⟨name, valid, r, held, operates⟩ := accepted.delegates requested
  obtain ⟨r', later, same⟩ := a.run_operator ops held operates
  have filed : (a.run s (.apply call :: ops)).zone.tlds[name]? = some r' := later
  refine ⟨name, r', valid, filed, ?_⟩
  intro version generatedAt domains
  rw [operates_iff signs filed, same, lowercase_iff_nodeId own]

end Federate

namespace Federate.Reference

open Outcome Stateful RegistryStore

/-- The root delegates the TLD `bar` to the key of an operator. -/
def delegateBar (operator : String) : ApplyCall :=
  call authority.root "first" 1
    (.delegateTld "bar" (identity 3).nodeId operator "Bar" .delegatedManifest none none)

/-- The delegation is accepted whenever the key is a key text. -/
theorem delegateBar_accepted {operator : String} (key : isKeyText operator = true) :
    ∃ event, authority.Accepts start (delegateBar operator) event := by
  have rootKey : authority.root.nodeId = start.zone.rootPublicKey :=
    stage_start.reachable.verified.1.symm
  have valid : validateTldName "bar" = .ok "bar" := by decide +kernel
  have unlisted : Blocklists.validateNewTld ⟨∅, ∅, ∅, ∅⟩ "bar" false = .ok "bar" :=
    Blocklists.validateNewTld_eq_ok.mpr ⟨valid, .inl (by simp [Blocklists.check])⟩
  have ownerKey : isKeyText (identity 3).nodeId = true := by decide +kernel
  have absent : "bar" ∉ start.zone.tlds := stage_start.tlds ▸ Std.ExtTreeMap.not_mem_empty
  let r : TldRecord := delegatedRecord "bar" (identity 3).nodeId operator "Bar" .delegatedManifest
    none none (Externals.toRfc3339 ⟨0⟩)
  have granted : applyAction start.zone start.manifests start.registries authority.root.nodeId
      (authority.context (delegateBar operator)) (delegateBar operator).clock
      (.delegateTld "bar" (identity 3).nodeId operator "Bar" .delegatedManifest none none) =
        .ok ⟨start.zone.putTld "bar" (r.signedBy authority.root), none, .root⟩ := by
    simp only [applyAction, delegateTld, bind_eq_ok, rejectIf_eq_ok, pure_eq_ok, exists_const,
      forM_eq_ok, ne_eq, not_not, Bool.not_eq_false, List.mem_cons, List.not_mem_nil, or_false,
      forall_eq_or_imp, forall_eq]
    exact ⟨rootKey, "bar", unlisted, absent, by decide, ⟨ownerKey, key⟩, rfl⟩
  exact (stage_start.putTld (c := delegateBar operator) rfl rfl rfl (by decide) List.not_mem_nil
    (by decide) granted).1

/-- An operator whose key was written as its node id can operate its TLD. -/
theorem nodeId_operable :
    ∃ event, authority.Accepts start (delegateBar (identity 10).nodeId) event ∧
      ∃ name r, validateTldName "bar" = .ok name ∧
        (authority.run start [.apply (delegateBar (identity 10).nodeId)]).zone.tlds[name]? =
          some r ∧
        ∀ version generatedAt domains,
          Operates (authority.run start [.apply (delegateBar (identity 10).nodeId)]) (identity 10) r
            name version generatedAt domains ↔
          Text.toAsciiLowercase (identity 10).nodeId = (identity 10).nodeId ∧
            FiledIn name domains := by
  have key : isKeyText (identity 10).nodeId = true := by decide +kernel
  obtain ⟨event, accepted⟩ := delegateBar_accepted key
  exact ⟨event, accepted,
    delegation_operable_iff signaturesVerify accepted rfl (Hex.decode_encode _) []⟩

/-- An operator whose key was written in uppercase cannot operate its TLD, not even with an empty
registry. -/
theorem uppercase_inoperable :
    (∃ event, authority.Accepts start (delegateBar uppercaseKey) event) ∧
    Hex.decode uppercaseKey = some (Externals.verifyingKey (identity 10).signingKey).toList ∧
    ∃ r : TldRecord, (authority.step start (.apply (delegateBar uppercaseKey))).zone.tlds["bar"]? =
        some r ∧
      (TldRegistry.signed (identity 10) "bar" 1 stamp ∅).verify "bar" r.operatorPublicKey ≠ .ok () ∧
      ∃ detail, applyAction (authority.step start (.apply (delegateBar uppercaseKey))).zone
        (authority.step start (.apply (delegateBar uppercaseKey))).manifests
        (authority.step start (.apply (delegateBar uppercaseKey))).registries (identity 10).nodeId
        (authority.context (delegateBar uppercaseKey)) ⟨0⟩ (.updateRegistryPointer "bar" "") =
          .error (.unauthorized detail) := by
  have key : isKeyText uppercaseKey = true := by decide +kernel
  have differs : uppercaseKey ≠ (identity 10).nodeId := by decide +kernel
  have decodes : Hex.decode uppercaseKey =
      some (Externals.verifyingKey (identity 10).signingKey).toList := by decide +kernel
  obtain ⟨event, accepted⟩ := delegateBar_accepted key
  obtain ⟨name, valid, r, held, operates⟩ := accepted.delegates rfl
  have bar : validateTldName "bar" = .ok "bar" := by decide +kernel
  obtain rfl : name = "bar" := Except.ok.inj (valid.symm.trans bar)
  have apart : r.operatorPublicKey ≠ (identity 10).nodeId := operates ▸ differs
  refine ⟨⟨event, accepted⟩, decodes, r, held, ?_, ?_⟩
  · intro verified
    exact apart ((TldRegistry.verify_signed signaturesVerify _ _ _ _ _ _).mp verified).1
  · have lower : Text.toAsciiLowercase "bar" = "bar" := by decide +kernel
    have found : (authority.step start (.apply (delegateBar uppercaseKey))).zone.tlds[
        Text.toAsciiLowercase "bar"]? = some r := lower.symm ▸ held
    by_contra admitted
    have same : r.operatorPublicKey = (identity 10).nodeId :=
      (updateRegistryPointer_unauthorized found).mp (not_exists.mp admitted)
    exact apart same

end Federate.Reference
