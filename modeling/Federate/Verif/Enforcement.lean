import Federate.Verif.Atomic
import Federate.Verif.Signed

/-!
# Enforcement

The root key can revoke every domain under an official TLD as long as two things never happened:
no accepted request used up the versions of its target, and no record was issued under such a
TLD with a name that `SetDomainStatus`, which lowercases, cannot reach.
-/

namespace Federate

open Outcome Stateful RegistryStore

variable [Externals] [SerdeJson]

/-- The request leaves a later version for its target, and does not issue a domain under an
official TLD with uppercase letters in its name. -/
structure Authority.LeavesRoom (a : Authority) (s : RegistryStore) (req : MutationRequest) :
    Prop where
  /-- A later version exists. -/
  version : req.targetVersion.toNat + 1 < 2 ^ 64
  /-- A domain issued under an official TLD is named in lowercase. -/
  lowercase : ∀ (r : DomainRecord) (t : TldRecord), req.action = .issueDomain r →
    s.zone.tlds[r.tld]? = some t → t.operatorPublicKey = a.officialOperator.nodeId →
    Text.toAsciiLowercase r.domain = r.domain

/-- The domains under official TLDs are named in lowercase. -/
def Authority.OfficialLowercase (a : Authority) (z : RootZone) : Prop :=
  ∀ (k : String) (r : DomainRecord) (t : TldRecord), z.domains[k]? = some r →
    z.tlds[r.tld]? = some t → t.operatorPublicKey = a.officialOperator.nodeId →
    Text.toAsciiLowercase k = k

/-- The root key can revoke: `mutation_target` has a next version for every target, and a fresh
request of the root to revoke a domain under an official TLD, signed for that version and
inside the window, is accepted unless the domain is revoked already. -/
structure Authority.Enforceable (a : Authority) (s : RegistryStore) : Prop where
  /-- The next version never overflows. -/
  next : ∀ (kind : TargetKind) (id : String), (nextTargetVersion s kind id).isSome = true
  /-- A domain under an official TLD can be revoked with the next version. -/
  revoke : ∀ (k : String) (r : DomainRecord) (t : TldRecord), s.zone.domains[k]? = some r →
    s.zone.tlds[r.tld]? = some t → t.operatorPublicKey = a.officialOperator.nodeId →
    r.status ≠ .revoked → ∃ version, nextTargetVersion s .domain k = some version ∧
      ∀ call : ApplyCall, (∃ nonce issuedAt, call.request = .signed a.root nonce issuedAt version
          (.setDomainStatus k .revoked) ∧ MutationRequest.InWindow issuedAt call.now) →
        call.request.mutationId ∉ s.applied → call.io = StorageIo.ok →
        ∃ event, a.Accepts s call event

section Invariant

variable {a : Authority} {s : RegistryStore}

/-- A granted action that leaves room keeps the domains under official TLDs in lowercase. -/
theorem Grant.officialLowercase {zone : RootZone} {manifests : Table String Bytes}
    {registries : Registries} {actor : String} {ctx : MutationContext} {clock : DateTime}
    {action : MutationAction} {effect : ActionEffect} (named : ZoneNamed zone)
    (granted : Grant zone manifests registries actor ctx clock action effect)
    (issued : ∀ (r : DomainRecord) (t : TldRecord), action = .issueDomain r →
      zone.tlds[r.tld]? = some t → t.operatorPublicKey = a.officialOperator.nodeId →
      Text.toAsciiLowercase r.domain = r.domain)
    (lowercase : a.OfficialLowercase zone) : a.OfficialLowercase effect.zone := by
  have inserted : ∀ {fqdn : String} {r : DomainRecord},
      (∀ t : TldRecord, zone.tlds[r.tld]? = some t →
        t.operatorPublicKey = a.officialOperator.nodeId → Text.toAsciiLowercase fqdn = fqdn) →
      a.OfficialLowercase (zone.putDomain fqdn r) := by
    intro fqdn r own k other t found held operated
    rw [RootZone.putDomain_getElem?] at found
    split at found
    · rename_i same
      obtain rfl := Option.some.inj found
      exact same ▸ own t held operated
    · exact lowercase k other t found held operated
  have kept : effect.zone.domains = zone.domains → a.OfficialLowercase effect.zone := by
    intro same k r t found held operated
    rw [same] at found
    -- The TLD of a registered domain was there before, with the operator it has now.
    obtain ⟨old, heldOld⟩ := Option.isSome_iff_exists.mp
      (Std.ExtTreeMap.mem_iff_isSome_getElem?.mp (named.domains k r found).2.2.2)
    obtain ⟨new, heldNew, operator, -⟩ := granted.tld_kept heldOld
    obtain rfl := Option.some.inj (held.symm.trans heldNew)
    exact lowercase k r old found heldOld (operator.symm.trans operated)
  cases granted with
  | publish _ parses =>
    obtain ⟨label, tld⟩ := FederateDomain.parse_normal parses
    exact inserted fun _ _ _ => fullName_lowercase label tld
  | setDomainStatus held =>
    exact inserted fun t found operated => lowercase _ _ t held found operated
  | issueDomain => exact inserted fun t found operated => issued _ t rfl found operated
  | _ => exact kept rfl

/-- Names, room for versions and lowercase names of the domains under official TLDs. -/
structure Authority.HasRoom (a : Authority) (s : RegistryStore) : Prop where
  /-- Every record is filed under its own name. -/
  named : ZoneNamed s.zone
  /-- Every target has a next version. -/
  versions : ∀ key, (s.targetVersion key).toNat + 1 < 2 ^ 64
  /-- The domains under official TLDs are named in lowercase. -/
  lowercase : a.OfficialLowercase s.zone

/-- A call that leaves room keeps room, whatever the storage does. -/
theorem Authority.HasRoom.step {op : Op} (room : a.HasRoom s)
    (leaves : a.WhenAccepted a.LeavesRoom s op) : a.HasRoom (a.step s op) where
  named := Authority.step_named room.named op
  versions key := by
    rcases a.step_targetVersion s op key with same | ⟨call, p, rfl, prepared, -, written⟩
    · rw [same]
      exact room.versions key
    · rw [written]
      exact (leaves p prepared).version
  lowercase := by
    rcases a.step_zone s op with same | ⟨call, p, rfl, prepared, stored⟩
    · rw [same]
      exact room.lowercase
    · rw [stored]
      obtain ⟨effect, granted, rfl, -⟩ := prepared.granted
      exact granted.officialLowercase room.named (leaves _ prepared).lowercase room.lowercase

end Invariant

/-! ## Revoking -/

section Revoke

variable {a : Authority} {s : RegistryStore}

omit [SerdeJson] in
/-- The root key may revoke a domain that is not revoked under a TLD of the official operator,
and leaves the TLD records alone. -/
theorem setDomainStatus_revoke {zone : RootZone} {ctx : MutationContext} {k : String}
    {r : DomainRecord} {t : TldRecord} (lowercase : Text.toAsciiLowercase k = k)
    (held : zone.domains[k]? = some r) (found : zone.tlds[r.tld]? = some t)
    (operated : t.operatorPublicKey = ctx.officialOperator.nodeId) (live : r.status ≠ .revoked) :
    ∃ effect, setDomainStatus zone zone.rootPublicKey ctx k .revoked = .ok effect ∧
      effect.zone.tlds = zone.tlds ∧ effect.zone.rootPublicKey = zone.rootPublicKey := by
  simp only [setDomainStatus, lowercase, bind_eq_ok, okOr_eq_ok, rejectIf_eq_ok, exists_const,
    statusRole, reduceIte, pure_eq_ok]
  refine ⟨_, ⟨r, held, t, found, .root, rfl, ?_, not_not.mpr operated, rfl⟩, rfl, rfl⟩
  simp [allowedDomainTransition, live]

/-- In every run of fewer than 2^64 calls whose accepted requests all leave room, the root key
can revoke every domain under an official TLD. -/
theorem enforceable_of_room (signs : SignaturesVerify) (genesis : a.Genesis s) {ops : List Op}
    (short : ops.length < 2 ^ 64)
    (leaves : Transition.Guarded a.step (a.WhenAccepted a.LeavesRoom) s ops) :
    a.Enforceable (a.run s ops) := by
  have reachable : a.Reachable (a.run s ops) := ⟨s, ops, genesis, rfl⟩
  have initial : a.HasRoom s ∧ AuditBelow 0 s := by
    have named := Authority.Reachable.named (a := a) ⟨s, [], genesis, rfl⟩
    obtain ⟨dir, now, io, returned⟩ := genesis
    obtain ⟨-, -, rfl⟩ := initEmptyRegistry_eq_ok returned
    refine ⟨⟨named, fun key => ?_, fun k r t found => ?_⟩, fun seq member => ?_⟩
    · simp [targetVersion, initialStore, withSnapshot, withSnapshotFile]
    · simp [initialStore, withSnapshot, withSnapshotFile, initialZone, emptyZone,
        RootZone.signedBy] at found
    · exact absurd member Std.ExtTreeMap.not_mem_empty
  have room : a.HasRoom (a.run s ops) :=
    Transition.invariant (fun _ _ room leaves => room.step leaves) initial.1 leaves
  have below : AuditBelow (0 + ops.length) (a.run s ops) :=
    Transition.invariant_counted (fun _ _ op below => below.step op) initial.2 ops
  generalize a.run s ops = s at reachable room below
  have next : ∀ kind id, nextTargetVersion s kind id =
      some (s.targetVersion (kind.asStr ++ ":" ++ Text.toAsciiLowercase id) + 1) :=
    fun kind id => if_pos (room.versions _)
  refine ⟨fun kind id => by rw [next]; rfl, fun k r t held found operated live => ?_⟩
  refine ⟨_, next .domain k, ?_⟩
  rintro call ⟨nonce, issuedAt, requested, window⟩ fresh ok
  have lowercase := room.lowercase k r t held found operated
  have signed : call.request.verify = .ok () := by
    rw [requested]
    exact MutationRequest.verify_signed signs ..
  have advances : s.targetVersion call.request.action.targetKey < call.request.targetVersion := by
    have current := room.versions (TargetKind.domain.asStr ++ ":" ++ Text.toAsciiLowercase k)
    rw [requested, UInt64.lt_iff_toNat_lt]
    simp only [MutationRequest.signed, MutationAction.targetKey, MutationAction.target]
    rw [UInt64.toNat_add, UInt64.toNat_one, Nat.mod_eq_of_lt current]
    exact Nat.lt_succ_self _
  obtain ⟨effect, accepted, tlds, rootKey⟩ : ∃ effect, applyAction s.zone s.manifests s.registries
      call.request.actorPublicKey (a.context call) call.clock call.request.action = .ok effect ∧
      effect.zone.tlds = s.zone.tlds ∧ effect.zone.rootPublicKey = s.zone.rootPublicKey := by
    have actor : call.request.actorPublicKey = s.zone.rootPublicKey := by
      rw [requested, reachable.verified.1]
      rfl
    rw [actor, requested]
    exact setDomainStatus_revoke lowercase held found operated live
  have issued : call.request.issuedAt = issuedAt := by rw [requested]; rfl
  have records : ∀ (tld : String) (r : TldRecord), effect.zone.tlds[tld]? = some r →
      r.verify a.root.nodeId = .ok () := fun tld r found =>
    (RootZone.verify_eq_ok.mp reachable.verified.2.2).2.2 tld r (tlds ▸ found)
  have prepared := reachable.prepares signs signed (issued ▸ window) fresh advances accepted
    rootKey records
  obtain ⟨seq, numbered⟩ := Rows.exists_nextNumber below (by omega)
  obtain ⟨tables, committed⟩ := nextTables_eq_ok.mpr
    ⟨seq, show s.database.nextAuditSeq = .ok seq from okOr_eq_ok.mpr numbered⟩
  have stored := a.applyTo_stored s prepared (fun _ => by rw [ok]; rfl) committed (by rw [ok]; rfl)
    (by rw [ok]; rfl) (by rw [ok]; rfl)
  exact ⟨_, congrArg Prod.fst stored⟩

end Revoke

end Federate

namespace Federate.Reference

/-- A record that the operator issues with a version that has a successor can be revoked. -/
theorem alice_enforceable :
    authority.Enforceable
      (authority.run start [.apply createFoo, .apply (issueFoo 1 "alice" .active)]) := by
  refine enforceable_of_room signaturesVerify genesis (by decide) ⟨?_, ?_, trivial⟩
  · exact fun p _ => ⟨by decide, fun r t requested => absurd requested nofun⟩
  · refine fun p _ => ⟨by decide, fun r t requested _ _ => ?_⟩
    obtain rfl := MutationAction.issueDomain.inj requested
    decide

/-- A record that the operator issues with the last version can never be revoked: the next
version overflows. -/
theorem lastVersion_not_enforceable : authority.Genesis start ∧
    ¬authority.Enforceable
      (authority.run start [.apply createFoo, .apply (issueFoo (2 ^ 64 - 1) "alice" .active)]) := by
  refine ⟨genesis, fun enforceable => ?_⟩
  have normal : validateLabel "alice" = .ok "alice" := by decide +kernel
  have issued := (stage_issueFoo (2 ^ 64 - 1) .active normal (by decide +kernel)
    (by decide +kernel)).2
  have next := enforceable.next .domain "alice.foo"
  have own : (issueFoo (2 ^ 64 - 1) "alice" .active).request.action.targetKey =
      TargetKind.domain.asStr ++ ":" ++ Text.toAsciiLowercase "alice.foo" := by decide +kernel
  have current := issued.versions (TargetKind.domain.asStr ++ ":" ++
    Text.toAsciiLowercase "alice.foo")
  rw [if_pos own] at current
  have full : ¬((2 ^ 64 - 1 : UInt64).toNat + 1 < 2 ^ 64) := by decide +kernel
  simp only [nextTargetVersion, current, if_neg full] at next
  exact absurd next nofun

end Federate.Reference
