import Federate.Verif.Commit

/-!
# Names and signatures of the zone

In every reachable store each record of the zone is filed under its own canonical name, every
domain belongs to a TLD of the zone, and every record is signed by the key that is entitled to
it. Each invariant is kept by one inserted record at a time.
-/

namespace Federate

open Outcome Stateful RegistryStore

/-! ## One inserted record -/

section Put

variable (z : RootZone)

@[simp] theorem RootZone.putDomain_tlds (fqdn : String) (r : DomainRecord) :
    (z.putDomain fqdn r).tlds = z.tlds := rfl

@[simp] theorem RootZone.putTld_domains (tld : String) (r : TldRecord) :
    (z.putTld tld r).domains = z.domains := rfl

@[simp] theorem RootZone.putDomain_network (fqdn : String) (r : DomainRecord) :
    (z.putDomain fqdn r).network = z.network := rfl

@[simp] theorem RootZone.putTld_network (tld : String) (r : TldRecord) :
    (z.putTld tld r).network = z.network := rfl

@[simp] theorem RootZone.putDomain_rootPublicKey (fqdn : String) (r : DomainRecord) :
    (z.putDomain fqdn r).rootPublicKey = z.rootPublicKey := rfl

@[simp] theorem RootZone.putTld_rootPublicKey (tld : String) (r : TldRecord) :
    (z.putTld tld r).rootPublicKey = z.rootPublicKey := rfl

/-- The domains after one is inserted. -/
theorem RootZone.putDomain_getElem? (fqdn key : String) (r : DomainRecord) :
    (z.putDomain fqdn r).domains[key]? = if fqdn = key then some r else z.domains[key]? := by
  simp [RootZone.putDomain, Std.ExtTreeMap.getElem?_insert]

/-- The TLDs after one is inserted. -/
theorem RootZone.putTld_getElem? (tld key : String) (r : TldRecord) :
    (z.putTld tld r).tlds[key]? = if tld = key then some r else z.tlds[key]? := by
  simp [RootZone.putTld, Std.ExtTreeMap.getElem?_insert]

end Put

/-! ## Names -/

/-- Every record of the zone is filed under its own name. -/
structure ZoneNamed (z : RootZone) : Prop where
  /-- A TLD record is filed under its name, which is in normal form. -/
  tlds : ∀ (k : String) (r : TldRecord), z.tlds[k]? = some r → r.tld = k ∧ IsTldName k
  /-- A domain record is filed under its full name, its label has no dot, and its TLD is one of
  the zone. -/
  domains : ∀ (k : String) (r : DomainRecord), z.domains[k]? = some r →
    r.domain = k ∧ k = r.label ++ "." ++ r.tld ∧ '.' ∉ r.label.toList ∧ r.tld ∈ z.tlds

/-- The name of a TLD of the zone is in normal form. -/
theorem ZoneNamed.tldName {z : RootZone} (named : ZoneNamed z) {k : String} (member : k ∈ z.tlds) :
    IsTldName k := by
  obtain ⟨r, found⟩ := Option.isSome_iff_exists.mp
    (Std.ExtTreeMap.mem_iff_isSome_getElem?.mp member)
  exact (named.tlds k r found).2

/-- An inserted TLD record filed under its own name keeps the names. -/
theorem ZoneNamed.putTld {z : RootZone} (named : ZoneNamed z) {name : String} {r : TldRecord}
    (own : r.tld = name) (normal : IsTldName name) : ZoneNamed (z.putTld name r) where
  tlds k other found := by
    rw [RootZone.putTld_getElem?] at found
    split at found
    · rename_i same
      subst same
      rw [← Option.some.inj found]
      exact ⟨own, normal⟩
    · exact named.tlds k other found
  domains k other found := by
    obtain ⟨domain, split, noDot, member⟩ := named.domains k other found
    exact ⟨domain, split, noDot, Std.ExtTreeMap.mem_insert.mpr (.inr member)⟩

/-- An inserted domain record filed under its own name in a TLD of the zone keeps the names. -/
theorem ZoneNamed.putDomain {z : RootZone} (named : ZoneNamed z) {fqdn : String}
    {r : DomainRecord} (own : r.domain = fqdn) (split : fqdn = r.label ++ "." ++ r.tld)
    (noDot : '.' ∉ r.label.toList) (member : r.tld ∈ z.tlds) :
    ZoneNamed (z.putDomain fqdn r) where
  tlds := named.tlds
  domains k other found := by
    rw [RootZone.putDomain_getElem?] at found
    split at found
    · rename_i same
      subst same
      rw [← Option.some.inj found]
      exact ⟨own, split, noDot, member⟩
    · exact named.domains k other found

/-- A found record is a member. -/
theorem mem_of_getElem? {α : Type} {t : Table String α} {k : String} {v : α}
    (found : t[k]? = some v) : k ∈ t :=
  Std.ExtTreeMap.mem_iff_isSome_getElem?.mpr (by simp [found])

variable [Externals] [SerdeJson]

section Grants

variable {zone : RootZone} {manifests : Table String Bytes} {registries : Registries}
  {actor : String} {ctx : MutationContext} {clock : DateTime} {action : MutationAction}
  {effect : ActionEffect}

/-- Every granted action keeps the names. -/
theorem Grant.named (granted : Grant zone manifests registries actor ctx clock action effect)
    (named : ZoneNamed zone) : ZoneNamed effect.zone := by
  cases granted with
  | publish requested parses found =>
    obtain ⟨label, -⟩ := FederateDomain.parse_normal parses
    exact named.putDomain rfl rfl (not_mem_of_label (by decide) label.chars)
      (mem_of_getElem? found)
  | setDomainStatus held =>
    obtain ⟨domain, split, noDot, member⟩ := named.domains _ _ held
    exact named.putDomain domain split noDot member
  | issueDomain found managed entitled labelled signed =>
    exact named.putDomain rfl (DomainRecord.verify_eq_ok.mp signed).1
      (no_dot_of_validateLabel labelled) (mem_of_getElem? found)
  | delegateTld entitled admitted =>
    exact named.putTld rfl (validateTldName_eq_ok.mp (Blocklists.validateNewTld_eq_ok.mp admitted).1).2
  | createTld entitled admitted =>
    exact named.putTld rfl (validateTldName_eq_ok.mp (Blocklists.validateNewTld_eq_ok.mp admitted).1).2
  | restrictTld requested entitled valid =>
    exact named.putTld rfl (validateTldName_eq_ok.mp valid).2
  | updateTld entitled held => exact named.putTld (named.tlds _ _ held).1 (named.tlds _ _ held).2
  | setTldStatus entitled held =>
    exact named.putTld (named.tlds _ _ held).1 (named.tlds _ _ held).2
  | updateRegistryPointer held =>
    exact named.putTld (named.tlds _ _ held).1 (named.tlds _ _ held).2

/-- No action changes the root key, the network or the audit trail of the zone. -/
theorem Grant.keeps (granted : Grant zone manifests registries actor ctx clock action effect) :
    effect.zone.rootPublicKey = zone.rootPublicKey ∧ effect.zone.network = zone.network ∧
      effect.zone.audit = zone.audit := by
  cases granted <;> exact ⟨rfl, rfl, rfl⟩

end Grants

/-! ## Invariants of the zone over runs -/

/-- What a prepared mutation was granted, and the zone it is about to store. -/
theorem Authority.Prepares.granted {a : Authority} {s : RegistryStore} {call : ApplyCall}
    {p : Prepared} (prepared : a.Prepares s call p) :
    ∃ effect, Grant s.zone s.manifests s.registries call.request.actorPublicKey (a.context call)
        call.clock call.request.action effect ∧
      s.prepared call.request (a.context call) effect = p ∧
      p.zone.verify a.root.nodeId = .ok () := by
  obtain ⟨-, -, -, -, effect, accepted, verified, rfl⟩ := prepare_eq_ok.mp prepared
  exact ⟨effect, applyAction_grant accepted, rfl, verified⟩

/-- The signed zone of a new registry. -/
def initialZone (root : NodeIdentity) (now : DateTime) : RootZone :=
  (emptyZone root now).signedBy root

/-- The tables of a new registry. -/
def initialTables (zone : RootZone) : RedbTables :=
  RedbTables.empty.commitInitial
    { zoneJson := Externals.toVec zone.toJson
      rootVersion := zone.rootVersion
      stateHash := stateHash zone
      tlds := Rows.values zone.tlds
      domains := Rows.values zone.domains
      delegatedRegistries := []
      snapshot := ⟨zone.rootVersion, zone.generatedAt, stateHash zone⟩ }

/-- The store of a new registry. -/
def initialStore (dir : RegistryDir) (zone : RootZone) : RegistryStore :=
  RegistryStore.withSnapshot
    { path := dir.path
      database := initialTables zone
      files := dir.files
      zone
      registries := ∅
      manifests := ∅
      targetVersions := ∅
      applied := ∅
      audit := [] }

omit [SerdeJson] in
/-- A first initialization that succeeds returns the store of a new registry. -/
theorem initEmptyRegistry_eq_ok {dir : RegistryDir} {root : NodeIdentity} {now : DateTime}
    {io : StorageIo} {s : RegistryStore} (returned : initEmptyRegistry dir root now io = .ok s) :
    dir.exists = false ∧ (initialZone root now).verify root.nodeId = .ok () ∧
      s = initialStore dir (initialZone root now) := by
  simp only [initEmptyRegistry, RegistryStore.init, bind_eq_ok, rejectIf_eq_ok, exists_const,
    exists_unit, Bool.not_eq_true, pure_eq_ok] at returned
  obtain ⟨unused, verified, -, -, name, written, rfl⟩ := returned
  refine ⟨unused, verified, ?_⟩
  rw [exec_writeSnapshot] at written ⊢
  rcases file : io.snapshotFile with e | ⟨⟩ <;>
    rcases snapshot : io.snapshotTransaction with e | ⟨⟩ <;>
    simp only [file, snapshot, reduceCtorEq] at written ⊢
  rfl

namespace Authority

variable {a : Authority} {s : RegistryStore}

/-- The zone after a call that passes every check, whatever the storage does. -/
theorem Prepares.step_zone {call : ApplyCall} {p : Prepared} (prepared : a.Prepares s call p) :
    (a.step s (.apply call)).zone = p.zone := by
  rcases a.applyTo_cases s call with ⟨e, failed, -⟩ | ⟨p', prepared', outcome⟩
  · exact absurd (prepared.symm.trans failed) (by simp)
  · obtain rfl := Except.ok.inj (prepared.symm.trans prepared')
    simp only [Authority.step]
    generalize a.applyTo call s = result at outcome ⊢
    cases outcome <;> simp [stored, withSnapshot, withSnapshotFile]

/-- A property of the zone that every mutation which passes every check keeps is kept by every
call, whatever the storage does. -/
theorem step_keeps {P : RootZone → Prop} (holds : P s.zone)
    (kept : ∀ call p, a.Prepares s call p → P p.zone) (op : Op) : P (a.step s op).zone := by
  rcases a.step_zone s op with same | ⟨call, p, -, prepared, stored⟩
  · rwa [same]
  · rw [stored]
    exact kept call p prepared

/-- A property of the zone that holds of the empty zone and that every mutation which passes
every check keeps holds in every reachable store, whatever the storage does. -/
theorem Reachable.zone_invariant {P : RootZone → Prop} (reachable : a.Reachable s)
    (initial : ∀ now, (initialZone a.root now).verify a.root.nodeId = .ok () →
      P (initialZone a.root now))
    (kept : ∀ s call p, P s.zone → a.Prepares s call p → P p.zone) : P s.zone := by
  obtain ⟨s₀, ops, ⟨dir, now, io, returned⟩, rfl⟩ := reachable
  obtain ⟨-, verified, rfl⟩ := initEmptyRegistry_eq_ok returned
  refine Transition.invariant (I := fun s : RegistryStore => P s.zone) ?_ (initial now verified)
    (Transition.guarded_true _ _ _)
  exact fun s op holds _ => step_keeps holds (kept s · · holds) op

/-- A mutation that passes every check keeps the names. -/
theorem Prepares.named {call : ApplyCall} {p : Prepared} (prepared : a.Prepares s call p)
    (named : ZoneNamed s.zone) : ZoneNamed p.zone := by
  obtain ⟨effect, granted, rfl, -⟩ := prepared.granted
  exact ⟨(granted.named named).tlds, (granted.named named).domains⟩

/-- In every reachable store each record is filed under its own name. -/
theorem Reachable.named (reachable : a.Reachable s) : ZoneNamed s.zone := by
  refine reachable.zone_invariant (fun now _ => ⟨?_, ?_⟩) ?_
  · intro k r found
    simp [initialZone, emptyZone, RootZone.signedBy] at found
  · intro k r found
    simp [initialZone, emptyZone, RootZone.signedBy] at found
  · exact fun s call p named prepared => prepared.named named

/-- Names are kept by every call, whatever the storage does. -/
theorem step_named (named : ZoneNamed s.zone) (op : Op) : ZoneNamed (a.step s op).zone :=
  step_keeps named (fun _ _ prepared => prepared.named named) op

/-- Every mutation that passes every check meets a condition on the request. -/
def WhenAccepted (a : Authority) (condition : RegistryStore → MutationRequest → Prop)
    (s : RegistryStore) : Op → Prop
  | .apply call => ∀ p, a.Prepares s call p → condition s call.request
  | _ => True

/-- A property of the records of the zone that each granted action keeps exactly under a
condition on it holds in every state of a run exactly when every accepted action of the run
meets the condition. -/
theorem Genesis.holds_iff {P : RootZone → Prop} {condition : MutationAction → Prop}
    (genesis : a.Genesis s) (assumed : ApplyCall → Prop)
    (records : ∀ z z' : RootZone, z.tlds = z'.tlds → z.domains = z'.domains → P z → P z')
    (initial : ∀ z : RootZone, z.tlds = ∅ → z.domains = ∅ → P z)
    (exactly : ∀ (s : RegistryStore) call effect, ZoneNamed s.zone → assumed call → P s.zone →
      Grant s.zone s.manifests s.registries call.request.actorPublicKey (a.context call)
        call.clock call.request.action effect →
      (P effect.zone ↔ condition call.request.action))
    (ops : List Op) (assumption : ∀ call, Op.apply call ∈ ops → assumed call) :
    (∀ earlier, earlier <+: ops → P (a.run s earlier).zone) ↔
      Transition.Guarded a.step (a.WhenAccepted fun _ req => condition req.action) s ops := by
  have reachable : a.Reachable s := ⟨s, [], genesis, rfl⟩
  refine Transition.holds_iff_guarded (P := fun s : RegistryStore => P s.zone)
    (I := fun s : RegistryStore => ZoneNamed s.zone) (fun s op named => step_named named op) ?_
    reachable.named ?_
    (Transition.guarded_of_forall (fun _ op => ∀ call, op = .apply call → assumed call) s ?_)
  · intro s op named holds assumedOp
    by_cases accepted : ∃ call p, op = .apply call ∧ a.Prepares s call p
    · obtain ⟨call, p, rfl, prepared⟩ := accepted
      obtain ⟨effect, granted, rfl, -⟩ := prepared.granted
      have step := exactly s call effect named (assumedOp call rfl) holds granted
      rw [prepared.step_zone]
      set zone := (s.prepared call.request (a.context call) effect).zone
      constructor
      · exact fun after _ _ => step.mp (records zone effect.zone rfl rfl after)
      · exact fun meets => records effect.zone zone rfl rfl (step.mpr (meets _ prepared))
    · rcases a.step_zone s op with same | ⟨call, p, isApply, prepared, -⟩
      · rw [same]
        refine ⟨fun _ => ?_, fun _ => holds⟩
        cases op with
        | apply call => exact fun p prepared => absurd ⟨call, p, rfl, prepared⟩ accepted
        | _ => trivial
      · exact absurd ⟨call, p, isApply, prepared⟩ accepted
  · obtain ⟨dir, now, io, returned⟩ := genesis
    obtain ⟨-, -, rfl⟩ := initEmptyRegistry_eq_ok returned
    exact initial _ rfl rfl
  · exact fun op member _ call isApply => assumption call (isApply ▸ member)

/-- In every reachable store the zone advertises the root key, is named and verifies. -/
theorem Reachable.verified (reachable : a.Reachable s) :
    s.zone.rootPublicKey = a.root.nodeId ∧ s.zone.network = networkName ∧
      s.zone.verify a.root.nodeId = .ok () := by
  refine reachable.zone_invariant (P := fun z => z.rootPublicKey = a.root.nodeId ∧
    z.network = networkName ∧ z.verify a.root.nodeId = .ok ()) ?_ ?_
  · intro now verified
    exact ⟨rfl, rfl, verified⟩
  · rintro s call p ⟨key, network, -⟩ prepared
    obtain ⟨effect, granted, rfl, verified⟩ := prepared.granted
    obtain ⟨keepsKey, keepsNetwork, -⟩ := granted.keeps
    exact ⟨keepsKey.trans key, keepsNetwork.trans network, verified⟩

/-- In every reachable store the zone is valid. -/
theorem Reachable.valid (reachable : a.Reachable s) : s.zone.validate = .ok () := by
  refine RootZone.validate_eq_ok.mpr ⟨?_, fun k r found => (reachable.named.domains k r found).2.2.2⟩
  rw [reachable.verified.2.1]
  decide

/-- A mutation passes every check in a reachable store when its envelope does, its action is
accepted, and the root key signs every TLD record the action leaves. -/
theorem Reachable.prepares (signs : SignaturesVerify) (reachable : a.Reachable s)
    {call : ApplyCall} {effect : ActionEffect} (signed : call.request.verify = .ok ())
    (window : MutationRequest.InWindow call.request.issuedAt call.now)
    (fresh : call.request.mutationId ∉ s.applied)
    (advances : s.targetVersion call.request.action.targetKey < call.request.targetVersion)
    (accepted : applyAction s.zone s.manifests s.registries call.request.actorPublicKey
      (a.context call) call.clock call.request.action = .ok effect)
    (rootKey : effect.zone.rootPublicKey = s.zone.rootPublicKey)
    (records : ∀ (tld : String) (r : TldRecord), effect.zone.tlds[tld]? = some r →
      r.verify a.root.nodeId = .ok ()) :
    a.Prepares s call (s.prepared call.request (a.context call) effect) :=
  prepare_eq_ok.mpr ⟨signed, window, fresh, advances, effect, accepted,
    RootZone.verify_signedBy signs _ a.root (rootKey.trans reachable.verified.1) records, rfl⟩

end Authority

end Federate
