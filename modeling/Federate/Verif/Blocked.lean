import Federate.Verif.Revocation

/-!
# Blocked names

The blocklists are consulted when a TLD is created or delegated. A status change consults
none of them, and the creation of an official TLD stops at the reserved list. Blocked names
stay unresolvable exactly as long as no accepted mutation takes one of these two ways.
-/

namespace Federate

open Outcome RegistryStore

/-- The name is on a list that no resolvable TLD may be on. -/
def Blocklists.Blocked (b : Blocklists) (name : String) : Prop :=
  name ∈ b.iana ∨ name ∈ b.policy ∨ name ∈ b.brandSafety

/-- No TLD record with a resolvable status has a blocked name. -/
def BlockedNeverResolve (b : Blocklists) (z : RootZone) : Prop :=
  ∀ (k : String) (r : TldRecord), z.tlds[k]? = some r → r.status.isResolvable = true →
    ¬b.Blocked r.tld

/-- A name that passes the check is not blocked. -/
theorem Blocklists.not_blocked {b : Blocklists} {name : String} (unlisted : b.check name = none) :
    ¬b.Blocked name := by
  obtain ⟨iana, -, policy, brandSafety⟩ := check_eq_none.mp unlisted
  rintro (listed | listed | listed)
  · exact iana listed
  · exact policy listed
  · exact brandSafety listed

variable [Externals] [SerdeJson]

/-- The action makes no blocked name resolvable: it does not change the status of one to a
resolvable status, and it does not create one that is also on the reserved list. -/
def KeepsBlocked (b : Blocklists) : MutationAction → Prop
  | .setTldStatus tld status => status.isResolvable = true →
      ¬b.Blocked (Text.toAsciiLowercase tld)
  | .createTld tld _ => ∀ name, validateTldName tld = .ok name → name ∈ b.reserved →
      ¬(name ∈ b.policy ∨ name ∈ b.brandSafety)
  | _ => True

/-- A granted action keeps blocked names unresolvable exactly when it makes none of them
resolvable. -/
theorem Grant.blocked_iff {zone : RootZone} {manifests : Table String Bytes}
    {registries : Registries} {actor : String} {ctx : MutationContext} {clock : DateTime}
    {action : MutationAction} {effect : ActionEffect} (named : ZoneNamed zone)
    (granted : Grant zone manifests registries actor ctx clock action effect)
    (unresolved : BlockedNeverResolve ctx.blocklists zone) :
    BlockedNeverResolve ctx.blocklists effect.zone ↔ KeepsBlocked ctx.blocklists action := by
  have inserted : ∀ (name : String) (r : TldRecord),
      BlockedNeverResolve ctx.blocklists (zone.putTld name r) ↔
        (r.status.isResolvable = true → ¬ctx.blocklists.Blocked r.tld) := by
    intro name r
    constructor
    · exact fun all => all name r (by simp [RootZone.putTld_getElem?])
    · intro own k other found
      rw [RootZone.putTld_getElem?] at found
      split at found
      · rwa [← Option.some.inj found]
      · exact unresolved k other found
  cases granted with
  | publish requested =>
    refine ⟨fun _ => ?_, fun _ => unresolved⟩
    rcases requested with ⟨rfl, -⟩ | ⟨rfl, -⟩ <;> trivial
  | setDomainStatus => exact ⟨fun _ => trivial, fun _ => unresolved⟩
  | issueDomain => exact ⟨fun _ => trivial, fun _ => unresolved⟩
  | @delegateTld _ _ _ _ name _ _ _ _ admitted =>
    refine ⟨fun _ => trivial, fun _ => (inserted _ _).mpr fun _ => ?_⟩
    rcases (Blocklists.validateNewTld_eq_ok.mp admitted).2 with unlisted | ⟨-, never⟩
    · exact Blocklists.not_blocked unlisted
    · exact absurd never (by simp)
  | @createTld _ _ name _ admitted =>
    obtain ⟨valid, unlisted | ⟨reserved, -⟩⟩ := Blocklists.validateNewTld_eq_ok.mp admitted
    · refine ⟨fun _ name' valid' member _ => ?_, fun _ => (inserted _ _).mpr fun _ =>
        Blocklists.not_blocked unlisted⟩
      obtain rfl := Except.ok.inj (valid.symm.trans valid')
      exact (Blocklists.check_eq_none.mp unlisted).2.1 member
    · obtain ⟨iana, member⟩ := Blocklists.check_eq_reserved.mp reserved
      refine (inserted _ _).trans ⟨fun own name' valid' _ later => ?_, fun keeps _ listed => ?_⟩
      · obtain rfl := Except.ok.inj (valid.symm.trans valid')
        exact own rfl (.inr later)
      · exact keeps name valid member (listed.resolve_left iana)
  | restrictTld requested =>
    rcases requested with ⟨rfl, rfl, -⟩ | ⟨rfl, rfl, -⟩
    · exact ⟨fun _ => trivial, fun _ => (inserted _ _).mpr fun resolvable =>
        absurd resolvable (by simp [restrictedRecord, TldRecord.signedBy, TldStatus.isResolvable])⟩
    · exact ⟨fun _ => trivial, fun _ => (inserted _ _).mpr fun resolvable =>
        absurd resolvable (by simp [restrictedRecord, TldRecord.signedBy, TldStatus.isResolvable])⟩
  | updateTld _ held =>
    have same := unresolved _ _ held
    exact ⟨fun _ => trivial, fun _ => (inserted _ _).mpr same⟩
  | @setTldStatus tld status r _ held =>
    have own : r.tld = Text.toAsciiLowercase tld := (named.tlds _ _ held).1
    rw [KeepsBlocked, ← own]
    exact inserted _ _
  | updateRegistryPointer held =>
    have same := unresolved _ _ held
    exact ⟨fun _ => trivial, fun _ => (inserted _ _).mpr same⟩

/-- Under fixed blocklists, no blocked name has a resolvable status in any state of a run
exactly when no accepted mutation of the run changes the status of one to a resolvable status
or creates one that is also on the reserved list. -/
theorem blockedNeverResolve_iff {a : Authority} {b : Blocklists} {s : RegistryStore}
    (genesis : a.Genesis s) (ops : List Op)
    (fixed : ∀ call, Op.apply call ∈ ops → call.blocklists = b) :
    (∀ earlier, earlier <+: ops → BlockedNeverResolve b (a.run s earlier).zone) ↔
      Transition.Guarded a.step (a.WhenAccepted fun _ req => KeepsBlocked b req.action) s ops := by
  refine genesis.holds_iff (fun call => call.blocklists = b) ?_ ?_ ?_ ops fixed
  · exact fun z z' tlds _ unresolved => by rwa [BlockedNeverResolve, ← tlds]
  · exact fun z tlds _ k r found => absurd found (by simp [tlds])
  · rintro s call effect named rfl unresolved granted
    exact granted.blocked_iff named unresolved

end Federate

namespace Federate.Reference

open Outcome

/-- Blocklists with one public TLD. -/
def blockedCom : Blocklists := ⟨{"com"}, ∅, ∅, ∅⟩

/-- The root reserves the blocked name. -/
def reserveCom : ApplyCall :=
  { call authority.root "first" 1 (.reserveTld "com" "public") with blocklists := blockedCom }

/-- The record of the reserved name. -/
def reservedCom : TldRecord :=
  TldRecord.signedBy (restrictedRecord (authority.context reserveCom) .reserved .reserved "com"
    "public" (Externals.toRfc3339 ⟨0⟩)) authority.root

/-- The root makes the reserved name official. -/
def openCom : ApplyCall :=
  { call authority.root "second" 2 (.setTldStatus "com" .official) with blocklists := blockedCom }

/-- Blocked names resolve in no state of the run exactly when no request makes one resolvable. -/
theorem blockedCom_iff :
    (∀ earlier, earlier <+: [Op.apply reserveCom, .apply openCom] →
        BlockedNeverResolve blockedCom (authority.run start earlier).zone) ↔
      Transition.Guarded authority.step
        (authority.WhenAccepted fun _ req => KeepsBlocked blockedCom req.action) start
        [.apply reserveCom, .apply openCom] := by
  refine blockedNeverResolve_iff genesis _ fun call member => ?_
  simp only [List.mem_cons, Op.apply.injEq, List.not_mem_nil, or_false] at member
  rcases member with rfl | rfl <;> rfl

/-- A blocked name that was reserved becomes official. -/
theorem blockedCom_resolves : authority.Genesis start ∧
    ¬BlockedNeverResolve blockedCom
      (authority.run start [.apply reserveCom, .apply openCom]).zone := by
  have own : validateTldName "com" = .ok "com" := by decide +kernel
  have spelled : Text.toAsciiLowercase "com" = "com" := by decide
  have rootKey : authority.root.nodeId = start.zone.rootPublicKey := rfl
  have reserves : applyAction start.zone start.manifests start.registries authority.root.nodeId
      (authority.context reserveCom) reserveCom.clock (.reserveTld "com" "public") =
      .ok ⟨start.zone.putTld "com" reservedCom, none, .root⟩ := by
    simp only [applyAction, restrictTld, bind_eq_ok, rejectIf_eq_ok, pure_eq_ok, exists_const,
      ne_eq, not_not]
    exact ⟨rootKey, "com", own, Std.ExtTreeMap.not_mem_empty, rfl⟩
  have reserved := (stage_start.putTld (c := reserveCom) rfl rfl rfl (by decide) List.not_mem_nil
    (by decide) reserves).2
  set before := authority.step start (.apply reserveCom)
  have held : before.zone.tlds["com"]? = some reservedCom := by
    rw [reserved.tlds, Std.ExtTreeMap.getElem?_insert_self, reservedCom]
  have rootKey : authority.root.nodeId = before.zone.rootPublicKey :=
    reserved.reachable.verified.1.symm
  have opens : applyAction before.zone before.manifests before.registries authority.root.nodeId
      (authority.context openCom) openCom.clock (.setTldStatus "com" .official) =
      .ok ⟨before.zone.putTld "com" (TldRecord.signedBy { reservedCom with
          status := .official, updatedAt := Externals.toRfc3339 ⟨0⟩, signature := none }
        authority.root), none, .root⟩ := by
    simp only [applyAction, setTldStatus, spelled, bind_eq_ok, rejectIf_eq_ok, okOr_eq_ok,
      pure_eq_ok, exists_const, ne_eq, not_not]
    exact ⟨rootKey, reservedCom, held, by decide, rfl⟩
  have opened := (reserved.putTld (c := openCom) rfl rfl rfl (by decide) (by decide +kernel)
    (by decide) opens).2
  refine ⟨genesis, fun unresolved => ?_⟩
  have resolvable := unresolved "com" _ (by
    rw [Authority.run, Transition.run_cons, Transition.run_cons, Transition.run_nil, opened.tlds,
      Std.ExtTreeMap.getElem?_insert_self]) rfl
  exact resolvable (.inl (Finset.mem_singleton_self _))

end Federate.Reference
