import Federate.Verif.Authorization

/-!
# Versions of a record

Rollback protection counts versions under the name a request spells, lowercased, while the
record an action writes is filed under the name in normal form. As long as every accepted
request spells the name of the record it writes, the versions accepted for one record strictly
increase, and the audit log names the record.
-/

namespace Federate

open Outcome Stateful RegistryStore

/-- The names whose record of a kind differs between two zones. -/
def changedRecords (before after : RootZone) : TargetKind → Set String
  | .tld => changedTlds before after
  | .domain => changedDomains before after

/-- The name that the action spells, lowercased, is the name it is filed under. -/
def MutationAction.SpellsTarget : MutationAction → Prop
  | .publishSite domain _ | .updateDomainManifest domain _ =>
    ∀ parsed, FederateDomain.parse domain = .ok parsed →
      Text.toAsciiLowercase domain = parsed.fqdn
  | .issueDomain record => Text.toAsciiLowercase record.domain = record.domain
  | .delegateTld tld .. | .createTld tld _ | .reserveTld tld _ | .blockTld tld _ =>
    ∀ name, validateTldName tld = .ok name → Text.toAsciiLowercase tld = name
  | .setDomainStatus .. | .updateTld .. | .setTldStatus .. | .updateRegistryPointer .. => True

variable [Externals] [SerdeJson]

section Grants

variable {zone : RootZone} {manifests : Table String Bytes} {registries : Registries}
  {actor : String} {ctx : MutationContext} {clock : DateTime} {action : MutationAction}
  {effect : ActionEffect}

/-- A granted action that spells its target writes no record but its target. -/
theorem Grant.writes_target
    (granted : Grant zone manifests registries actor ctx clock action effect)
    (spelled : action.SpellsTarget) {kind : TargetKind} {key : String}
    (changed : key ∈ changedRecords zone effect.zone kind) : action.target = (kind, key) := by
  have tld : ∀ {name : String} {r : TldRecord},
      key ∈ changedRecords zone (zone.putTld name r) kind → (TargetKind.tld, name) = (kind, key) := by
    intro name r changed
    cases kind with
    | domain => exact absurd rfl changed
    | tld =>
      by_contra other
      have differs : name ≠ key := fun same => other (by rw [same])
      exact changed ((zone.putTld_getElem? _ _ _).trans (if_neg differs))
  have domain : ∀ {fqdn : String} {r : DomainRecord},
      key ∈ changedRecords zone (zone.putDomain fqdn r) kind →
        (TargetKind.domain, fqdn) = (kind, key) := by
    intro fqdn r changed
    cases kind with
    | tld => exact absurd rfl changed
    | domain =>
      by_contra other
      have differs : fqdn ≠ key := fun same => other (by rw [same])
      exact changed ((zone.putDomain_getElem? _ _ _).trans (if_neg differs))
  cases granted with
  | publish requested parses =>
    rw [← domain changed]
    rcases requested with ⟨rfl, -⟩ | ⟨rfl, -⟩ <;>
      exact congrArg (Prod.mk TargetKind.domain) (spelled _ parses)
  | setDomainStatus => exact domain changed
  | issueDomain =>
    rw [← domain changed]
    exact congrArg (Prod.mk TargetKind.domain) spelled
  | delegateTld _ admitted | createTld _ admitted =>
    rw [← tld changed]
    exact congrArg (Prod.mk TargetKind.tld)
      (spelled _ (Blocklists.validateNewTld_eq_ok.mp admitted).1)
  | restrictTld requested _ named =>
    rw [← tld changed]
    rcases requested with ⟨rfl, -⟩ | ⟨rfl, -⟩ <;>
      exact congrArg (Prod.mk TargetKind.tld) (spelled _ named)
  | updateTld | setTldStatus | updateRegistryPointer => exact tld changed

end Grants

variable {a : Authority} {s : RegistryStore}

/-- The version of a target never decreases, whatever the storage does. -/
theorem Authority.targetVersion_le_step (a : Authority) (s : RegistryStore) (op : Op)
    (key : String) : s.targetVersion key ≤ (a.step s op).targetVersion key := by
  rcases a.step_targetVersion s op key with same | ⟨call, p, -, prepared, rfl, written⟩
  · rw [same]
    exact UInt64.le_refl _
  · rw [written]
    exact UInt64.le_of_lt (prepare_eq_ok.mp prepared).2.2.2.1

/-- What an accepted call has done: its target version advanced to the requested one, its event
names its target, and the zone is the one it prepared. -/
theorem Authority.Accepts.effects {call : ApplyCall} {event : AuditRecord}
    (accepted : a.Accepts s call event) :
    s.targetVersion call.request.action.targetKey < call.request.targetVersion ∧
      (a.step s (.apply call)).targetVersion call.request.action.targetKey =
        call.request.targetVersion ∧
      event.targetType = call.request.action.target.1.asStr ∧
      event.targetId = call.request.action.target.2 ∧
      ∃ p, a.Prepares s call p ∧ (a.step s (.apply call)).zone = p.zone := by
  obtain ⟨p, tables, prepared, rfl, -, -, -, -, -, stored⟩ := a.accepts_iff s |>.mp accepted
  obtain ⟨-, -, -, advances, effect, -, -, rfl⟩ := prepare_eq_ok.mp prepared
  refine ⟨advances, ?_, rfl, rfl, _, prepared, prepared.step_zone⟩
  have versions : (a.applyTo call s).2.targetVersions =
      s.targetVersions.insert call.request.action.targetKey call.request.targetVersion := by
    rw [stored]
    exact s.adopt_targetVersions call.request _
  simp [Authority.step, targetVersion, versions]

open Classical in
/-- The accepted mutation and its event, when a call inserts or changes a record. -/
noncomputable def Authority.writeOf (a : Authority) (kind : TargetKind) (key : String)
    (s : RegistryStore) : Op → Option (MutationRequest × AuditRecord)
  | .apply call =>
    match (a.applyTo call s).1 with
    | .ok event =>
      if key ∈ changedRecords s.zone (a.applyTo call s).2.zone kind then some (call.request, event)
      else none
    | .error _ => none
  | _ => none

/-- An accepted call that changes a record is a write of it. -/
theorem Authority.writeOf_accepted {call : ApplyCall} {event : AuditRecord} {kind : TargetKind}
    {key : String} (accepted : a.Accepts s call event)
    (changed : key ∈ changedRecords s.zone (a.step s (.apply call)).zone kind) :
    a.writeOf kind key s (.apply call) = some (call.request, event) := by
  have result : (a.applyTo call s).1 = .ok event := accepted
  rw [Authority.step] at changed
  simp only [writeOf, result, if_pos changed]

/-- The accepted mutations of a run that inserted or changed a record, in order, with their
events. -/
noncomputable def Authority.writes (a : Authority) (kind : TargetKind) (key : String)
    (s : RegistryStore) (ops : List Op) : List (MutationRequest × AuditRecord) :=
  Transition.observations a.step (a.writeOf kind key) s ops

/-- Every accepted request meets a condition. -/
def Authority.OnAccepted (a : Authority) (condition : MutationRequest → Prop)
    (s : RegistryStore) : Op → Prop
  | .apply call => ∀ event, a.Accepts s call event → condition call.request
  | _ => True

/-- The accepted mutations that wrote one record have strictly increasing versions and one
target, and their events name the record. -/
structure VersionsIncrease (kind : TargetKind) (key : String)
    (writes : List (MutationRequest × AuditRecord)) : Prop where
  /-- Versions strictly increase. -/
  increasing : writes.Pairwise fun w w' => w.1.targetVersion < w'.1.targetVersion
  /-- Every one has the record as its target. -/
  target : ∀ w ∈ writes, w.1.action.targetKey = kind.asStr ++ ":" ++ key
  /-- Every event names the record. -/
  event : ∀ w ∈ writes, w.2.targetType = kind.asStr ∧ w.2.targetId = key

/-- A write of a record by a request that spells its target raises the version counted for the
record. -/
theorem Authority.writeOf_spec {kind : TargetKind} {key : String} {op : Op}
    (spelled : a.OnAccepted (fun req => req.action.SpellsTarget) s op)
    {w : MutationRequest × AuditRecord} (wrote : a.writeOf kind key s op = some w) :
    (s.targetVersion (kind.asStr ++ ":" ++ key) < w.1.targetVersion ∧
      (a.step s op).targetVersion (kind.asStr ++ ":" ++ key) = w.1.targetVersion) ∧
    w.1.action.targetKey = kind.asStr ++ ":" ++ key ∧
    w.2.targetType = kind.asStr ∧ w.2.targetId = key := by
  cases op with
  | storeManifest | storeBlocks => exact absurd wrote (by simp [writeOf])
  | apply call =>
    simp only [writeOf] at wrote
    split at wrote
    · rename_i event accepted
      split at wrote
      · rename_i changed
        obtain rfl := Option.some.inj wrote
        obtain ⟨advances, reached, eventType, eventId, p, prepared, zone⟩ :=
          Accepts.effects accepted
        obtain ⟨effect, granted, rfl, -⟩ := prepared.granted
        have target : call.request.action.target = (kind, key) := by
          refine granted.writes_target (spelled event accepted) ?_
          rw [Authority.step] at zone
          rw [zone] at changed
          cases kind <;> exact changed
        have targetKey : call.request.action.targetKey = kind.asStr ++ ":" ++ key := by
          rw [MutationAction.targetKey, target]
        rw [target] at eventType eventId
        rw [targetKey] at advances reached
        exact ⟨⟨advances, reached⟩, targetKey, eventType, eventId⟩
      · exact absurd wrote (by simp)
    · exact absurd wrote (by simp)

/-- In every run whose accepted requests spell their targets, the versions accepted for each
record of the zone strictly increase, all have the record as their target, and the events name
it. -/
theorem versionsIncrease_of_spelled {ops : List Op}
    (spelled : Transition.Guarded a.step (a.OnAccepted fun req => req.action.SpellsTarget) s ops)
    (kind : TargetKind) (key : String) :
    VersionsIncrease kind key (a.writes kind key s ops) := by
  refine ⟨?_, ?_, ?_⟩
  · have above : ∀ s op (w : MutationRequest × AuditRecord),
        a.OnAccepted (fun req => req.action.SpellsTarget) s op → a.writeOf kind key s op = some w →
        (s.targetVersion (kind.asStr ++ ":" ++ key)).toNat < w.1.targetVersion.toNat ∧
          w.1.targetVersion.toNat ≤
            ((a.step s op).targetVersion (kind.asStr ++ ":" ++ key)).toNat := by
      intro s op w spelled wrote
      obtain ⟨⟨advances, reached⟩, -⟩ := Authority.writeOf_spec spelled wrote
      exact ⟨UInt64.lt_iff_toNat_lt.mp advances, reached ▸ Nat.le_refl _⟩
    have rises : ∀ s op, a.OnAccepted (fun req => req.action.SpellsTarget) s op →
        (s.targetVersion (kind.asStr ++ ":" ++ key)).toNat ≤
          ((a.step s op).targetVersion (kind.asStr ++ ":" ++ key)).toNat :=
      fun s op _ => UInt64.le_iff_toNat_le.mp (a.targetVersion_le_step s op _)
    exact (Transition.observations_increasing rises above spelled).1
  · exact Transition.observations_forall
      (fun s op w spelled wrote => (Authority.writeOf_spec spelled wrote).2.1) spelled
  · exact Transition.observations_forall
      (fun s op w spelled wrote => (Authority.writeOf_spec spelled wrote).2.2) spelled

end Federate

namespace Federate.Reference

open Outcome

/-- The versions accepted for the TLD `foo` increase. -/
theorem foo_versionsIncrease :
    VersionsIncrease .tld "foo" (authority.writes .tld "foo" start [.apply createFoo]) := by
  have spelled : Transition.Guarded authority.step
      (authority.OnAccepted fun req => req.action.SpellsTarget) start [.apply createFoo] := by
    refine ⟨fun event _ name valid => ?_, trivial⟩
    have own : validateTldName "foo" = .ok "foo" := by decide +kernel
    obtain rfl := Except.ok.inj (own.symm.trans valid)
    decide
  exact versionsIncrease_of_spelled spelled .tld "foo"

/-- The root creates the TLD `foo` under the spelling `.foo`. -/
def createDotted : ApplyCall := call authority.root "first" 2 (.createTld ".foo" "sites")

/-- The root updates the TLD `foo` with an earlier version. -/
def updateEarlier : ApplyCall :=
  call authority.root "second" 1 (.updateTld "foo" none none (some "older"))

/-- Two accepted mutations write one record with decreasing versions: rollback protection counts
their spellings apart. -/
theorem spellings_decrease : authority.Genesis start ∧
    ¬VersionsIncrease .tld "foo"
      (authority.writes .tld "foo" start [.apply createDotted, .apply updateEarlier]) := by
  have own : validateTldName ".foo" = .ok "foo" := by decide +kernel
  have spelled : Text.toAsciiLowercase "foo" = "foo" := by decide
  obtain ⟨⟨first, created⟩, stage⟩ : (∃ event, authority.Accepts start createDotted event) ∧
      Stage (authority.step start (.apply createDotted)) _ _ _ _ _ :=
    stage_start.created own Std.ExtTreeMap.not_mem_empty (by decide) List.not_mem_nil (by decide)
  set before := authority.step start (.apply createDotted)
  have held : before.zone.tlds["foo"]? = some (official "foo") := by
    rw [stage.tlds]
    simp
  have rootKey : authority.root.nodeId = before.zone.rootPublicKey :=
    stage.reachable.verified.1.symm
  have granted : applyAction before.zone before.manifests before.registries authority.root.nodeId
      (authority.context updateEarlier) updateEarlier.clock
      (.updateTld "foo" none none (some "older")) = .ok ⟨before.zone.putTld "foo"
        (TldRecord.signedBy { official "foo" with
          notes := some "older", updatedAt := Externals.toRfc3339 ⟨0⟩, signature := none }
          authority.root), none, .root⟩ := by
    simp only [applyAction, updateTld, spelled, bind_eq_ok, rejectIf_eq_ok, okOr_eq_ok,
      pure_eq_ok, exists_const, ne_eq, not_not]
    exact ⟨rootKey, official "foo", held, rfl⟩
  obtain ⟨⟨second, updated⟩, last⟩ := stage.putTld (c := updateEarlier) rfl rfl rfl (by decide)
    (by decide +kernel) (by decide) granted
  have inserts : "foo" ∈ changedRecords start.zone before.zone .tld := by
    change before.zone.tlds["foo"]? ≠ start.zone.tlds["foo"]?
    rw [held, stage_start.tlds]
    simp
  have changes : "foo" ∈ changedRecords before.zone
      (authority.step before (.apply updateEarlier)).zone .tld := by
    change (authority.step before (.apply updateEarlier)).zone.tlds["foo"]? ≠
      before.zone.tlds["foo"]?
    rw [held, last.tlds, Std.ExtTreeMap.getElem?_insert_self]
    exact fun same => absurd (congrArg TldRecord.notes (Option.some.inj same)) (by decide)
  refine ⟨genesis, fun increase => ?_⟩
  have ordered := increase.increasing
  rw [Authority.writes, Transition.observations, Transition.observations, Transition.observations,
    Authority.writeOf_accepted created inserts, Authority.writeOf_accepted updated changes]
    at ordered
  have later : createDotted.request.targetVersion < updateEarlier.request.targetVersion :=
    (List.pairwise_cons.mp ordered).1 (updateEarlier.request, second) (by simp)
  exact absurd later (by decide)

end Federate.Reference
