import Federate.Reference.Operations
import Federate.Verif.Mirror

/-!
# A reference registry

A new registry under the reference operations, and what a call signed by an identity leaves of
it. A `Stage` records what the next call depends on, so that a sequence of calls is followed step
by step.
-/

namespace Federate.Reference

open Outcome Stateful RegistryStore

/-- An identity whose key repeats one byte. -/
def identity (n : UInt8) : NodeIdentity := ⟨Vector.replicate 32 n⟩

/-- The root and the official operator. -/
def authority : Authority := ⟨identity 1, identity 2⟩

/-- The key of an operator, in uppercase. -/
def uppercaseKey : String := String.ofList ((List.replicate 32 ['0', 'A']).flatten)

/-- The text of the epoch. -/
def stamp : String := "1970-01-01T00:00:00+00:00"

/-- A call with a request signed at the epoch, no blocklists and a storage that works. -/
def call (signer : NodeIdentity) (nonce : String) (version : UInt64) (action : MutationAction) :
    ApplyCall where
  request := .signed signer nonce stamp version action
  blocklists := ⟨∅, ∅, ∅, ∅⟩
  now := ⟨0⟩
  clock := ⟨0⟩
  io := .ok

/-- The store of a new registry. -/
def start : RegistryStore := initialStore (.fresh "node") (initialZone authority.root ⟨0⟩)

/-- A request signed at the epoch is in the window there. -/
theorem inWindow : MutationRequest.InWindow stamp ⟨0⟩ :=
  ⟨⟨0⟩, by decide +kernel, by decide, by decide⟩

/-- The first initialization returns a new registry of the root identity. -/
theorem initialized_by (root : NodeIdentity) : initEmptyRegistry (.fresh "node") root ⟨0⟩ .ok =
    .ok (initialStore (.fresh "node") (initialZone root ⟨0⟩)) := by
  have verified : (initialZone root ⟨0⟩).verify root.nodeId = .ok () :=
    RootZone.verify_signedBy signaturesVerify _ _ rfl fun tld r found =>
      absurd found (by simp [emptyZone])
  have written (s : RegistryStore) : exec (writeSnapshot .ok) s =
      (.ok (s.path ++ "/snapshots/" ++ s!"root-zone-v{s.zone.rootVersion}.json"), s.withSnapshot) :=
    s.exec_writeSnapshot .ok
  simp only [initEmptyRegistry, RegistryStore.init, bind_eq_ok, rejectIf_eq_ok, exists_const,
    exists_unit, pure_eq_ok, written]
  exact ⟨by decide, verified, by decide, rfl, _, rfl, rfl⟩

/-- The first initialization returns the new registry. -/
theorem initialized : initEmptyRegistry (.fresh "node") authority.root ⟨0⟩ .ok = .ok start :=
  initialized_by authority.root

theorem genesis : authority.Genesis start := ⟨_, _, _, initialized⟩

/-- What the next call depends on: the records, the accepted ids, the target versions, and a bound
of the numbers in the audit log. -/
structure Stage (s : RegistryStore) (tlds : Table String TldRecord)
    (domains : Table String DomainRecord) (ids : List String) (versions : String → UInt64)
    (count : ℕ) : Prop where
  reachable : authority.Reachable s
  tlds : s.zone.tlds = tlds
  domains : s.zone.domains = domains
  applied : ∀ id ∈ s.applied, id ∈ ids
  versions : ∀ key, s.targetVersion key = versions key
  below : AuditBelow count s

theorem stage_start : Stage start ∅ ∅ [] (fun _ => 0) 0 where
  reachable := ⟨start, [], genesis, rfl⟩
  tlds := rfl
  domains := rfl
  applied _ member := absurd member Std.ExtTreeMap.not_mem_empty
  versions key := by simp [targetVersion, start, initialStore, withSnapshot, withSnapshotFile]
  below _ member := absurd member Std.ExtTreeMap.not_mem_empty

section Calls

variable {s : RegistryStore} {tlds : Table String TldRecord} {domains : Table String DomainRecord}
  {ids : List String} {versions : String → UInt64} {count : ℕ} {c : ApplyCall}
  {signer : NodeIdentity} {nonce : String} {version : UInt64} {action : MutationAction}
  {effect : ActionEffect}

/-- A signed call with a new id that advances its target is accepted when its action is, and
leaves the records of its effect. -/
theorem Stage.next (stage : Stage s tlds domains ids versions count)
    (requested : c.request = .signed signer nonce stamp version action) (now : c.now = ⟨0⟩)
    (io : c.io = .ok) (short : count < 2 ^ 64) (fresh : c.request.mutationId ∉ ids)
    (advances : versions action.targetKey < version)
    (accepted : applyAction s.zone s.manifests s.registries signer.nodeId (authority.context c)
      c.clock action = .ok effect)
    (records : ∀ (tld : String) (r : TldRecord), effect.zone.tlds[tld]? = some r →
      r.verify authority.root.nodeId = .ok ()) :
    authority.Prepares s c (s.prepared c.request (authority.context c) effect) ∧
      (∃ event, authority.Accepts s c event) ∧
      Stage (authority.step s (.apply c)) effect.zone.tlds effect.zone.domains
        (c.request.mutationId :: ids)
        (fun key => if action.targetKey = key then version else versions key) (count + 1) := by
  have signed : c.request.verify = .ok () := by
    rw [requested]
    exact MutationRequest.verify_signed signaturesVerify ..
  have own : c.request.actorPublicKey = signer.nodeId ∧ c.request.action = action ∧
      c.request.issuedAt = stamp ∧ c.request.targetVersion = version := by
    rw [requested]
    exact ⟨rfl, rfl, rfl, rfl⟩
  obtain ⟨actor, asked, issued, reached⟩ := own
  have granted := applyAction_grant accepted
  have prepared : authority.Prepares s c (s.prepared c.request (authority.context c) effect) := by
    refine stage.reachable.prepares signaturesVerify signed ?_ (fun member => fresh
      (stage.applied _ member)) ?_ ?_ granted.keeps.1 records
    · rw [issued, now]
      exact inWindow
    · rw [asked, reached, stage.versions]
      exact advances
    · rw [actor, asked]
      exact accepted
  obtain ⟨seq, numbered⟩ := Rows.exists_nextNumber stage.below (by omega)
  obtain ⟨tables, committed⟩ := nextTables_eq_ok.mpr
    ⟨seq, show s.database.nextAuditSeq = .ok seq from okOr_eq_ok.mpr numbered⟩
  have stored := authority.applyTo_stored s prepared (fun _ => by rw [io]; rfl) committed
    (by rw [io]; rfl) (by rw [io]; rfl) (by rw [io]; rfl)
  have reachable : authority.Reachable (authority.step s (.apply c)) := by
    obtain ⟨first, ops, genesis, rfl⟩ := stage.reachable
    refine ⟨first, ops ++ [.apply c], genesis, ?_⟩
    rw [Authority.run, Transition.run_append]
    rfl
  have memory : authority.step s (.apply c) =
      s.stored c.request (s.prepared c.request (authority.context c) effect) tables :=
    congrArg Prod.snd stored
  refine ⟨prepared, ⟨_, congrArg Prod.fst stored⟩, reachable, ?_, ?_, ?_, ?_, stage.below.step _⟩
  · rw [prepared.step_zone]
    rfl
  · rw [prepared.step_zone]
    rfl
  · intro id member
    rw [memory] at member
    simp only [RegistryStore.stored, withSnapshot, withSnapshotFile, adopt_applied,
      Std.ExtTreeMap.mem_insert, Std.LawfulEqCmp.compare_eq_iff_eq] at member
    rcases member with rfl | earlier
    · exact List.mem_cons_self
    · exact List.mem_cons_of_mem _ (stage.applied _ earlier)
  · intro key
    rw [memory]
    simp only [RegistryStore.stored, withSnapshot, withSnapshotFile, targetVersion,
      adopt_targetVersions, Std.ExtTreeMap.getElem?_insert, Std.LawfulEqCmp.compare_eq_iff_eq,
      asked, reached]
    split
    · rfl
    · exact stage.versions key

/-- A call whose action files a TLD record signed by the root. -/
theorem Stage.putTld (stage : Stage s tlds domains ids versions count) {name : String}
    {r : TldRecord} {o : ActorRole} {p : Option (String × Bytes × TldRegistry)}
    (requested : c.request = .signed signer nonce stamp version action) (now : c.now = ⟨0⟩)
    (io : c.io = .ok) (short : count < 2 ^ 64) (fresh : c.request.mutationId ∉ ids)
    (advances : versions action.targetKey < version)
    (accepted : applyAction s.zone s.manifests s.registries signer.nodeId (authority.context c)
      c.clock action = .ok ⟨s.zone.putTld name (r.signedBy authority.root), p, o⟩) :
    (∃ event, authority.Accepts s c event) ∧
      Stage (authority.step s (.apply c)) (tlds.insert name (r.signedBy authority.root)) domains
        (c.request.mutationId :: ids)
        (fun key => if action.targetKey = key then version else versions key) (count + 1) := by
  have verified := (RootZone.verify_eq_ok.mp stage.reachable.verified.2.2).2.2
  have next := stage.next requested now io short fresh advances accepted fun tld other found => by
    rw [RootZone.putTld_getElem?] at found
    split at found
    · rw [← Option.some.inj found]
      exact TldRecord.verify_signedBy signaturesVerify r authority.root
    · exact verified tld other found
  rw [← stage.tlds, ← stage.domains]
  exact next.2

/-- A call whose action files a domain record. -/
theorem Stage.putDomain (stage : Stage s tlds domains ids versions count) {fqdn : String}
    {r : DomainRecord} {o : ActorRole}
    (requested : c.request = .signed signer nonce stamp version action) (now : c.now = ⟨0⟩)
    (io : c.io = .ok) (short : count < 2 ^ 64) (fresh : c.request.mutationId ∉ ids)
    (advances : versions action.targetKey < version)
    (accepted : applyAction s.zone s.manifests s.registries signer.nodeId (authority.context c)
      c.clock action = .ok ⟨s.zone.putDomain fqdn r, none, o⟩) :
    (∃ event, authority.Accepts s c event) ∧
      Stage (authority.step s (.apply c)) tlds (domains.insert fqdn r)
        (c.request.mutationId :: ids)
        (fun key => if action.targetKey = key then version else versions key) (count + 1) := by
  have verified := (RootZone.verify_eq_ok.mp stage.reachable.verified.2.2).2.2
  have next := stage.next requested now io short fresh advances accepted fun tld other found =>
    verified tld other found
  rw [← stage.tlds, ← stage.domains]
  exact next.2

end Calls

/-! ## Calls on one TLD and its domains -/

/-- The record of an official TLD. -/
def official (tld : String) : TldRecord :=
  TldRecord.signedBy (officialRecord ⟨authority.root, authority.officialOperator, ⟨∅, ∅, ∅, ∅⟩, ⟨0⟩⟩
    tld "sites" (Externals.toRfc3339 ⟨0⟩)) authority.root

/-- A domain record under a TLD, signed by the official operator. -/
def issuedRecord (label tld : String) (status : DomainStatus) : DomainRecord :=
  DomainRecord.signedBy
    { domain := label ++ "." ++ tld, tld, label
      ownerPublicKey := (identity 3).nodeId
      targetType := .manifest, manifestHash := "", serviceId := none, nodeId := none, status
      createdAt := stamp, updatedAt := stamp, expiresAt := none, renewal := none, pricing := none
      signatureAlgorithm := signatureAlgorithm, signature := none } authority.officialOperator

section Actions

variable {s : RegistryStore} {tlds : Table String TldRecord} {domains : Table String DomainRecord}
  {ids : List String} {versions : String → UInt64} {count : ℕ} {nonce : String} {version : UInt64}

/-- The root creates an official TLD. -/
theorem Stage.created (stage : Stage s tlds domains ids versions count) {tld name : String}
    (valid : validateTldName tld = .ok name) (absent : name ∉ tlds)
    (short : count < 2 ^ 64)
    (fresh : (call authority.root nonce version (.createTld tld "sites")).request.mutationId ∉ ids)
    (advances : versions (MutationAction.createTld tld "sites").targetKey < version) :
    (∃ event, authority.Accepts s
        (call authority.root nonce version (.createTld tld "sites")) event) ∧
      Stage (authority.step s (.apply (call authority.root nonce version (.createTld tld "sites"))))
        (tlds.insert name (official name)) domains
        ((call authority.root nonce version (.createTld tld "sites")).request.mutationId :: ids)
        (fun key => if (MutationAction.createTld tld "sites").targetKey = key then version
          else versions key) (count + 1) := by
  refine stage.putTld (o := .root) (p := none) rfl rfl rfl short fresh advances ?_
  have rootKey : authority.root.nodeId = s.zone.rootPublicKey := stage.reachable.verified.1.symm
  have unlisted : Blocklists.validateNewTld ⟨∅, ∅, ∅, ∅⟩ tld true = .ok name :=
    Blocklists.validateNewTld_eq_ok.mpr ⟨valid, .inl (by simp [Blocklists.check])⟩
  simp only [applyAction, createTld, bind_eq_ok, rejectIf_eq_ok, pure_eq_ok, exists_const, ne_eq,
    not_not]
  exact ⟨rootKey, name, unlisted, stage.tlds ▸ absent, rfl⟩

/-- The official operator issues a domain under an official TLD. -/
theorem Stage.issued (stage : Stage s tlds domains ids versions count) {label normal tld : String}
    {status : DomainStatus} (found : tlds[tld]? = some (official tld))
    (valid : validateLabel label = .ok normal) (absent : domains[label ++ "." ++ tld]? = none)
    (short : count < 2 ^ 64)
    (fresh : (call authority.officialOperator nonce version
      (.issueDomain (issuedRecord label tld status))).request.mutationId ∉ ids)
    (advances : versions (MutationAction.issueDomain (issuedRecord label tld status)).targetKey <
      version) :
    (∃ event, authority.Accepts s (call authority.officialOperator nonce version
        (.issueDomain (issuedRecord label tld status))) event) ∧
      Stage (authority.step s (.apply (call authority.officialOperator nonce version
          (.issueDomain (issuedRecord label tld status)))))
        tlds (domains.insert (label ++ "." ++ tld) (issuedRecord label tld status))
        ((call authority.officialOperator nonce version
          (.issueDomain (issuedRecord label tld status))).request.mutationId :: ids)
        (fun key => if (MutationAction.issueDomain (issuedRecord label tld status)).targetKey = key
          then version else versions key) (count + 1) := by
  refine stage.putDomain (o := .tldOperator) rfl rfl rfl short fresh advances ?_
  have held : s.zone.lookupTld (issuedRecord label tld status).tld = some (official tld) := by
    rw [RootZone.lookupTld, stage.tlds]
    exact found
  have signed : (issuedRecord label tld status).verify authority.officialOperator.nodeId = .ok () :=
    DomainRecord.verify_eq_ok.mpr ⟨rfl, _, rfl, verifySignature_sign signaturesVerify _ _⟩
  have vacant : s.zone.domains[(issuedRecord label tld status).domain]? = none := by
    rw [stage.domains]
    exact absent
  simp only [applyAction, issueDomain, bind_eq_ok, mapError_eq_ok, okOr_eq_ok, rejectIf_eq_ok,
    exists_const, exists_unit, ne_eq, not_not, vacant, pure_eq_ok]
  exact ⟨official tld, held, rfl, rfl, normal, valid, signed, Bool.false_ne_true, rfl⟩

end Actions

/-- The root creates the TLD `foo`. -/
def createFoo : ApplyCall := call authority.root "first" 1 (.createTld "foo" "sites")

/-- The official operator issues a record under the TLD `foo`. -/
def issueFoo (version : UInt64) (label : String) (status : DomainStatus) : ApplyCall :=
  call authority.officialOperator "second" version (.issueDomain (issuedRecord label "foo" status))

/-- The registry with the TLD `foo`. -/
theorem stage_foo : (∃ event, authority.Accepts start createFoo event) ∧
    Stage (authority.step start (.apply createFoo)) ((∅ : Table _ _).insert "foo" (official "foo"))
      ∅ [createFoo.request.mutationId] (fun key => if "tld:foo" = key then 1 else 0) 1 :=
  stage_start.created (by decide +kernel) Std.ExtTreeMap.not_mem_empty (by decide)
    List.not_mem_nil (by decide)

/-- The registry with one domain under the TLD `foo`. -/
theorem stage_issueFoo (version : UInt64) {label normal : String} (status : DomainStatus)
    (valid : validateLabel label = .ok normal)
    (fresh : (issueFoo version label status).request.mutationId ∉ [createFoo.request.mutationId])
    (advances : (if "tld:foo" = (issueFoo version label status).request.action.targetKey then 1
      else 0) < version) :
    (∃ event, authority.Accepts (authority.step start (.apply createFoo))
        (issueFoo version label status) event) ∧
      Stage (authority.run start [.apply createFoo, .apply (issueFoo version label status)])
        ((∅ : Table _ _).insert "foo" (official "foo"))
        ((∅ : Table _ _).insert (label ++ "." ++ "foo") (issuedRecord label "foo" status))
        [(issueFoo version label status).request.mutationId, createFoo.request.mutationId]
        (fun key => if (issueFoo version label status).request.action.targetKey = key then version
          else if "tld:foo" = key then 1 else 0) 2 := by
  rw [Authority.run, Transition.run_cons, Transition.run_cons, Transition.run_nil]
  exact stage_foo.2.issued (by simp) valid (by simp) (by decide) fresh advances

end Federate.Reference
