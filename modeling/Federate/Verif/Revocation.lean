import Federate.Reference.Registry

/-!
# Revocation

A revoked domain stays revoked until the root key acts on it: no sequence of calls by owners
and operators makes it resolvable again.
-/

namespace Federate

open Outcome RegistryStore

/-- The domain is registered and revoked. -/
def IsRevoked (z : RootZone) (fqdn : String) : Prop :=
  ∃ r : DomainRecord, z.domains[fqdn]? = some r ∧ r.status = .revoked

/-- Only the root key may move a domain out of the revoked status. -/
theorem allowedDomainTransition_revoked {target : DomainStatus} {actorIsRoot : Bool}
    (allowed : allowedDomainTransition .revoked target actorIsRoot = true) :
    actorIsRoot = true := by
  cases target <;> cases actorIsRoot <;> simp_all [allowedDomainTransition]

variable [Externals] [SerdeJson]

/-- A granted action that ends a revocation has the root key as its actor. -/
theorem Grant.lifts_revocation {zone : RootZone} {manifests : Table String Bytes}
    {registries : Registries} {actor : String} {ctx : MutationContext} {clock : DateTime}
    {action : MutationAction} {effect : ActionEffect} {fqdn : String}
    (granted : Grant zone manifests registries actor ctx clock action effect)
    (revoked : IsRevoked zone fqdn) (lifted : ¬IsRevoked effect.zone fqdn) :
    actor = zone.rootPublicKey := by
  obtain ⟨old, held, status⟩ := revoked
  have written : ∀ (key : String) (r : DomainRecord),
      ¬IsRevoked (zone.putDomain key r) fqdn → key = fqdn := by
    intro key r lifted
    by_contra other
    exact lifted ⟨old, by simp [RootZone.putDomain_getElem?, other, held], status⟩
  cases granted with
  | publish _ _ _ _ _ _ _ owned =>
    obtain rfl := written _ _ lifted
    rcases (owned old held).2 with active | pending
    · exact absurd (active.symm.trans status) (by decide)
    · exact absurd (pending.symm.trans status) (by decide)
  | setDomainStatus heldHere _ _ allowed =>
    obtain rfl := written _ _ lifted
    obtain rfl := Option.some.inj (heldHere.symm.trans held)
    rw [status] at allowed
    simpa using allowedDomainTransition_revoked allowed
  | issueDomain _ _ _ _ _ _ reissued =>
    obtain rfl := written _ _ lifted
    exact reissued old held status
  | _ => exact absurd ⟨old, held, status⟩ lifted

/-- A call that ends a revocation is a mutation signed by the root key. -/
theorem Authority.step_lifts_revocation {a : Authority} {s : RegistryStore} {op : Op}
    {fqdn : String} (revoked : IsRevoked s.zone fqdn)
    (lifted : ¬IsRevoked (a.step s op).zone fqdn) :
    ∃ call, op = .apply call ∧ call.request.verify = .ok () ∧
      call.request.actorPublicKey = s.zone.rootPublicKey := by
  rcases a.step_zone s op with same | ⟨call, p, rfl, prepared, stored⟩
  · exact absurd (same ▸ revoked) lifted
  · rw [stored] at lifted
    obtain ⟨effect, granted, rfl, -⟩ := prepared.granted
    exact ⟨call, rfl, (prepare_eq_ok.mp prepared).1, granted.lifts_revocation revoked lifted⟩

/-- Runs from a reachable store end in a reachable store. -/
theorem Authority.Reachable.run {a : Authority} {s : RegistryStore} (reachable : a.Reachable s)
    (ops : List Op) : a.Reachable (a.run s ops) := by
  obtain ⟨s₀, earlier, genesis, rfl⟩ := reachable
  exact ⟨s₀, earlier ++ ops, genesis, Transition.run_append _ _ _⟩

/-- When a run takes a revoked domain out of the revoked status, the first call that does so is
a mutation signed by the root key; and a run in which the root key does not act leaves the
domain registered and not resolvable. -/
theorem revocation_terminal {a : Authority} {s : RegistryStore} (reachable : a.Reachable s)
    {fqdn : String} (revoked : IsRevoked s.zone fqdn) (ops : List Op) :
    (¬IsRevoked (a.run s ops).zone fqdn →
      ∃ before call after, ops = before ++ .apply call :: after ∧
        (∀ earlier, earlier <+: before → IsRevoked (a.run s earlier).zone fqdn) ∧
        ¬IsRevoked (a.step (a.run s before) (.apply call)).zone fqdn ∧
        call.request.verify = .ok () ∧ call.request.actorPublicKey = a.root.nodeId) ∧
    ((∀ call, Op.apply call ∈ ops → call.request.actorPublicKey ≠ a.root.nodeId) →
      ∃ r : DomainRecord, (a.run s ops).zone.domains[fqdn]? = some r ∧
        r.status.isResolvable = false) := by
  have first : ¬IsRevoked (a.run s ops).zone fqdn →
      ∃ before call after, ops = before ++ .apply call :: after ∧
        (∀ earlier, earlier <+: before → IsRevoked (a.run s earlier).zone fqdn) ∧
        ¬IsRevoked (a.step (a.run s before) (.apply call)).zone fqdn ∧
        call.request.verify = .ok () ∧ call.request.actorPublicKey = a.root.nodeId := by
    intro lifted
    obtain ⟨before, op, after, split, held, lost⟩ := Transition.first_loss
      (P := fun s : RegistryStore => IsRevoked s.zone fqdn) revoked lifted
    obtain ⟨call, rfl, verified, actor⟩ :=
      Authority.step_lifts_revocation (held before (List.prefix_refl before)) lost
    have rootKey := (reachable.run before).verified.1
    exact ⟨before, call, after, split, held, lost, verified, actor.trans rootKey⟩
  refine ⟨first, fun rootSilent => ?_⟩
  by_contra resolves
  have lifted : ¬IsRevoked (a.run s ops).zone fqdn := by
    rintro ⟨r, held, status⟩
    exact resolves ⟨r, held, by rw [status]; rfl⟩
  obtain ⟨before, call, after, split, -, -, -, isRoot⟩ := first lifted
  exact rootSilent call (by simp [split]) isRoot

end Federate

namespace Federate.Reference

open Outcome

/-- The root moves `alice.foo` to another status. -/
theorem setStatus_granted {s : RegistryStore} {domains : Table String DomainRecord}
    {ids : List String} {versions : String → UInt64} {count : ℕ}
    (stage : Stage s ((∅ : Table _ _).insert "foo" (official "foo")) domains ids versions count)
    {r : DomainRecord} (held : domains["alice.foo"]? = some r) (under : r.tld = "foo")
    {status : DomainStatus} (allowed : allowedDomainTransition r.status status true = true)
    (nonce : String) (version : UInt64) :
    applyAction s.zone s.manifests s.registries authority.root.nodeId
      (authority.context (call authority.root nonce version (.setDomainStatus "alice.foo" status)))
      ⟨0⟩ (.setDomainStatus "alice.foo" status) = .ok ⟨s.zone.putDomain "alice.foo"
        (DomainRecord.signedBy { r with
          status, updatedAt := Externals.toRfc3339 ⟨0⟩, signature := none }
          authority.officialOperator), none, .root⟩ := by
  have spelled : Text.toAsciiLowercase "alice.foo" = "alice.foo" := by decide +kernel
  have found : s.zone.lookupTld r.tld = some (official "foo") := by
    rw [RootZone.lookupTld, stage.tlds, under]
    exact Std.ExtTreeMap.getElem?_insert_self
  have rootKey : authority.root.nodeId = s.zone.rootPublicKey :=
    stage.reachable.verified.1.symm
  simp only [applyAction, setDomainStatus, spelled, bind_eq_ok, rejectIf_eq_ok, okOr_eq_ok,
    pure_eq_ok, exists_const, ne_eq, not_not, statusRole, if_pos rootKey]
  refine ⟨r, stage.domains ▸ held, official "foo", found, .root, rfl, ?_, rfl, rfl⟩
  simp [rootKey, allowed]

/-- The root lifts the revocation of a domain. -/
def lift : ApplyCall := call authority.root "third" 2 (.setDomainStatus "alice.foo" .active)

/-- A domain is issued revoked. -/
def issueRevoked : List Op := [.apply createFoo, .apply (issueFoo 1 "alice" .revoked)]

theorem stage_revoked : Stage (authority.run start issueRevoked)
    ((∅ : Table _ _).insert "foo" (official "foo"))
    ((∅ : Table _ _).insert "alice.foo" (issuedRecord "alice" "foo" .revoked))
    [(issueFoo 1 "alice" .revoked).request.mutationId, createFoo.request.mutationId]
    (fun key => if (issueFoo 1 "alice" .revoked).request.action.targetKey = key then 1
      else if "tld:foo" = key then 1 else 0) 2 := by
  have normal : validateLabel "alice" = .ok "alice" := by decide +kernel
  exact (stage_issueFoo 1 .revoked normal (by decide +kernel) (by decide +kernel)).2

/-- The root ends the revocation, and without a call of it the domain is not resolvable. -/
theorem lift_by_root :
    (∃ before call after, [Op.apply lift] = before ++ .apply call :: after ∧
      call.request.actorPublicKey = authority.root.nodeId) ∧
    ∃ r : DomainRecord,
      (authority.run (authority.run start issueRevoked) []).zone.domains["alice.foo"]? = some r ∧
        r.status.isResolvable = false := by
  have stage := stage_revoked
  generalize authority.run start issueRevoked = s at stage ⊢
  have held : s.zone.domains["alice.foo"]? = some (issuedRecord "alice" "foo" .revoked) := by
    rw [stage.domains]
    simp
  have granted := setStatus_granted stage (stage.domains ▸ held) rfl
    (show allowedDomainTransition .revoked .active true = true by decide) "third" 2
  have lifted := (stage.putDomain (c := lift) rfl rfl rfl (by decide) (by decide +kernel)
    (by decide +kernel) granted).2
  have revoked : IsRevoked s.zone "alice.foo" := ⟨_, held, rfl⟩
  have free : ¬IsRevoked (authority.run s [.apply lift]).zone "alice.foo" := by
    rintro ⟨r, holds, status⟩
    rw [Authority.run, Transition.run_cons, Transition.run_nil, lifted.domains,
      Std.ExtTreeMap.getElem?_insert_self] at holds
    rw [← Option.some.inj holds] at status
    cases status
  obtain ⟨before, call, after, split, -, -, -, isRoot⟩ :=
    (revocation_terminal stage.reachable revoked [.apply lift]).1 free
  have silent := (revocation_terminal stage.reachable revoked []).2
    fun call member => absurd member List.not_mem_nil
  exact ⟨⟨before, call, after, split, isRoot⟩, silent⟩

end Federate.Reference
