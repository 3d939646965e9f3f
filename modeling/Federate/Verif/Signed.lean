import Federate.Verif.Revocation

/-!
# Well-signed stores

Every domain record of a reachable zone verifies under the operator key of its TLD, and every
delegated registry is the parse of the exact bytes that the root pinned. The operator key of a
TLD never changes, so a record signed under it stays signed; content addresses keep the pinned
bytes in place as long as the contents handed to the store do not collide.
-/

namespace Federate

open Outcome Stateful RegistryStore

variable [Externals]

/-- The pinned registry of a TLD after a mutation that may have pinned a new one. -/
def repinned (newRegistry : Option (String × Bytes × TldRegistry)) (tld : String)
    (old : Option String) : Option String :=
  match newRegistry with
  | some (name, bytes, _) => if name = tld then some (hashBytes bytes) else old
  | none => old

section Grants

variable [SerdeJson] {zone : RootZone} {manifests : Table String Bytes} {registries : Registries}
  {actor : String} {ctx : MutationContext} {clock : DateTime} {action : MutationAction}
  {effect : ActionEffect}

/-- A granted action keeps every TLD of the zone with its operator key and registry type, and
changes its pinned registry only to one it adopts. -/
theorem Grant.tld_kept (granted : Grant zone manifests registries actor ctx clock action effect)
    {k : String} {old : TldRecord} (held : zone.tlds[k]? = some old) :
    ∃ new : TldRecord, effect.zone.tlds[k]? = some new ∧
      new.operatorPublicKey = old.operatorPublicKey ∧ new.registryType = old.registryType ∧
      new.registryManifestHash = repinned effect.newRegistry k old.registryManifestHash := by
  have replaced : ∀ {name : String} {r r' : TldRecord}, zone.tlds[name]? = some r →
      r'.operatorPublicKey = r.operatorPublicKey → r'.registryType = r.registryType →
      r'.registryManifestHash = r.registryManifestHash →
      ∃ new : TldRecord, (zone.putTld name r').tlds[k]? = some new ∧
        new.operatorPublicKey = old.operatorPublicKey ∧ new.registryType = old.registryType ∧
        new.registryManifestHash = repinned none k old.registryManifestHash := by
    intro name r r' heldName operator registryType pinned
    rw [RootZone.putTld_getElem?]
    split
    · rename_i same
      obtain rfl := Option.some.inj (heldName.symm.trans (same ▸ held))
      exact ⟨r', rfl, operator, registryType, pinned⟩
    · exact ⟨old, held, rfl, rfl, rfl⟩
  have inserted : ∀ {name : String} {r : TldRecord}, name ∉ zone.tlds →
      (zone.putTld name r).tlds[k]? = some old := by
    intro name r absent
    have other : name ≠ k := fun same => absent (same ▸ mem_of_getElem? held)
    rw [RootZone.putTld_getElem?, if_neg other, held]
  cases granted with
  | publish | setDomainStatus | issueDomain => exact ⟨old, held, rfl, rfl, rfl⟩
  | delegateTld _ _ absent | createTld _ _ absent | restrictTld _ _ _ absent =>
    exact ⟨old, inserted absent, rfl, rfl, rfl⟩
  | updateTld _ heldName | setTldStatus _ heldName => exact replaced heldName rfl rfl rfl
  | @updateRegistryPointer tld _ r bytes registry heldName =>
    by_cases same : Text.toAsciiLowercase tld = k
    · subst same
      obtain rfl := Option.some.inj (heldName.symm.trans held)
      exact ⟨_, (zone.putTld_getElem? _ _ _).trans (if_pos rfl), rfl, rfl, (if_pos rfl).symm⟩
    · exact ⟨old, (zone.putTld_getElem? _ _ _).trans ((if_neg same).trans held), rfl, rfl,
        (if_neg same).symm⟩

/-- Every domain record verifies under the operator key of its TLD. -/
def DomainsSigned (z : RootZone) : Prop :=
  ∀ (k : String) (r : DomainRecord), z.domains[k]? = some r →
    ∃ t : TldRecord, z.tlds[r.tld]? = some t ∧ r.verify t.operatorPublicKey = .ok ()

/-- Every granted action keeps the domain records signed. -/
theorem Grant.domainsSigned (signs : SignaturesVerify) (named : ZoneNamed zone)
    (granted : Grant zone manifests registries actor ctx clock action effect)
    (signed : DomainsSigned zone) : DomainsSigned effect.zone := by
  have inserted : ∀ {fqdn : String} {r : DomainRecord},
      (∃ t : TldRecord, zone.tlds[r.tld]? = some t ∧ r.verify t.operatorPublicKey = .ok ()) →
      DomainsSigned (zone.putDomain fqdn r) := by
    intro fqdn r own k other found
    rw [RootZone.putDomain_getElem?] at found
    split at found
    · rwa [← Option.some.inj found]
    · exact signed k other found
  have kept : effect.zone.domains = zone.domains → DomainsSigned effect.zone := by
    intro same k r found
    obtain ⟨t, held, verified⟩ := signed k r (same ▸ found)
    obtain ⟨new, foundNew, operator, -⟩ := granted.tld_kept held
    exact ⟨new, foundNew, operator ▸ verified⟩
  cases granted with
  | publish _ _ found _ _ _ operated =>
    exact inserted ⟨_, found, operated ▸ DomainRecord.verify_signedBy signs _ _ rfl⟩
  | setDomainStatus held found _ _ operated =>
    obtain ⟨domain, split, -⟩ := named.domains _ _ held
    exact inserted ⟨_, found,
      operated ▸ DomainRecord.verify_signedBy signs _ _ (domain.trans split)⟩
  | issueDomain found _ entitled _ verified => exact inserted ⟨_, found, entitled ▸ verified⟩
  | _ => exact kept rfl

end Grants

/-- In every reachable store the domain records are signed. -/
theorem Authority.Reachable.domainsSigned [SerdeJson] {a : Authority} {s : RegistryStore}
    (signs : SignaturesVerify) (reachable : a.Reachable s) : DomainsSigned s.zone := by
  have both := reachable.zone_invariant (P := fun z => ZoneNamed z ∧ DomainsSigned z) ?_ ?_
  · exact both.2
  · refine fun now _ => ⟨⟨?_, ?_⟩, ?_⟩ <;>
    · intro k r found
      simp [initialZone, emptyZone, RootZone.signedBy] at found
  · rintro s call p ⟨named, signed⟩ prepared
    refine ⟨prepared.named named, ?_⟩
    obtain ⟨effect, granted, rfl, -⟩ := prepared.granted
    exact granted.domainsSigned signs named signed

/-! ## Delegated registries -/

/-- Every storage operation of the call succeeds. -/
def Op.StorageSucceeds : Op → Prop
  | .apply call => call.io = StorageIo.ok
  | .storeManifest _ _ written => written = .ok ()
  | .storeBlocks _ written => ∀ index, written index = .ok ()

/-- The contents that a call may file as a manifest. -/
def Op.contents : Op → Set Bytes
  | .apply call => {bytes | ∃ tld registryHex,
      call.request.action = .updateRegistryPointer tld registryHex ∧
        Hex.decode registryHex = some bytes}
  | .storeManifest _ bytes _ => {bytes}
  | .storeBlocks _ _ => ∅

/-- Every delegated registry is the parse of its bytes, verifies for its TLD, and is the one the
root pinned. -/
def RegistriesPinned [SerdeJson] (s : RegistryStore) : Prop :=
  ∀ (tld : String) (bytes : Bytes) (r : TldRegistry), s.registries[tld]? = some (bytes, r) →
    SerdeDocuments.tldRegistry bytes = .ok r ∧
    ∃ t : TldRecord, s.zone.tlds[tld]? = some t ∧ r.verify tld t.operatorPublicKey = .ok () ∧
      t.registryManifestHash = some (hashBytes bytes)

/-- The bytes of every delegated registry are served as a manifest; they are among the given
contents. -/
def RegistriesServed (contents : Set Bytes) (s : RegistryStore) : Prop :=
  ∀ (tld : String) (bytes : Bytes) (r : TldRegistry), s.registries[tld]? = some (bytes, r) →
    bytes ∈ contents ∧ s.manifests[hashBytes bytes]? = some bytes

section Registries

variable {contents : Set Bytes} {s s' : RegistryStore}

/-- Filing more contents keeps the bytes of every registry in place, as long as contents do not
collide. -/
theorem manifests_kept (distinct : Set.InjOn hashBytes contents)
    {manifests : Table String Bytes} {bytes filed : Bytes} (member : bytes ∈ contents)
    (filedMember : filed ∈ contents) (held : manifests[hashBytes bytes]? = some bytes) :
    (manifests.insert (hashBytes filed) filed)[hashBytes bytes]? = some bytes := by
  rw [Std.ExtTreeMap.getElem?_insert]
  split
  · rename_i same
    rw [distinct filedMember member (Std.LawfulEqCmp.eq_of_compare same)]
  · exact held

/-- The registries and manifests are a matter of memory. -/
theorem RegistriesServed.congr (same : s.SameMemory s') (served : RegistriesServed contents s) :
    RegistriesServed contents s' := by
  simpa only [RegistriesServed, same.registries, same.manifests] using served

/-- The registries after an adopted mutation: the newly pinned one, and those of other TLDs. -/
theorem adopt_registries {req : MutationRequest} {p : Prepared} {tld : String} {bytes : Bytes}
    {r : TldRegistry} (held : (s.adopt req p).registries[tld]? = some (bytes, r)) :
    p.newRegistry = some (tld, bytes, r) ∨
      s.registries[tld]? = some (bytes, r) ∧ ∀ pin, p.newRegistry = some pin → pin.1 ≠ tld := by
  rcases p with ⟨zone, _ | ⟨name, newBytes, registry⟩, event⟩
  · exact .inr ⟨held, fun _ isPin => absurd isPin (by simp)⟩
  · have inserted : (s.registries.insert name (newBytes, registry))[tld]? = some (bytes, r) := held
    rw [Std.ExtTreeMap.getElem?_insert] at inserted
    split at inserted
    · rename_i same
      obtain ⟨rfl, rfl⟩ := Prod.mk.inj (Option.some.inj inserted)
      exact .inl (by rw [Std.LawfulEqCmp.eq_of_compare same])
    · rename_i other
      refine .inr ⟨inserted, fun pin isPin => ?_⟩
      rw [← Option.some.inj isPin]
      exact fun same => other (same ▸ Std.ReflCmp.compare_self)

variable [SerdeJson]

/-- The registries and the zone are a matter of memory. -/
theorem RegistriesPinned.congr (same : s.SameMemory s') (pinned : RegistriesPinned s) :
    RegistriesPinned s' := by
  simpa only [RegistriesPinned, same.registries, same.zone] using pinned

/-- Adopting a mutation that passes every check keeps the registries pinned. -/
theorem RegistriesPinned.adopt {a : Authority} {call : ApplyCall} {p : Prepared}
    (prepared : a.Prepares s call p) (pinned : RegistriesPinned s) :
    RegistriesPinned (s.adopt call.request p) := by
  obtain ⟨effect, granted, rfl, -⟩ := prepared.granted
  intro tld bytes r held
  rw [adopt_zone]
  rcases adopt_registries held with isPin | ⟨before, others⟩
  · -- The registry that is pinned now was checked against the record it is pinned in.
    generalize call.request.action = action at granted
    cases granted with
    | updateRegistryPointer heldRec entitled _ _ reads signed =>
      obtain ⟨rfl, rfl, rfl⟩ : _ = tld ∧ _ = bytes ∧ _ = r := by
        simpa [RegistryStore.prepared] using isPin
      exact ⟨reads, _, (s.zone.putTld_getElem? _ _ _).trans (if_pos rfl), entitled ▸ signed, rfl⟩
    | _ => exact absurd isPin (by simp [RegistryStore.prepared])
  · -- A registry that stays keeps its record, whose pin changes only with a registry for it.
    obtain ⟨parses, t, found, verified, pin⟩ := pinned tld bytes r before
    obtain ⟨new, foundNew, operator, -, pinNew⟩ := granted.tld_kept found
    refine ⟨parses, new, foundNew, operator ▸ verified, ?_⟩
    rw [pinNew, ← pin]
    unfold repinned
    split
    · rename_i name other parsed isPin
      exact if_neg (others _ isPin)
    · rfl

/-- Adopting a mutation that passes every check keeps the registries served. -/
theorem RegistriesServed.adopt (distinct : Set.InjOn hashBytes contents) {a : Authority}
    {call : ApplyCall} {p : Prepared} (prepared : a.Prepares s call p)
    (within : (Op.apply call).contents ⊆ contents) (served : RegistriesServed contents s) :
    RegistriesServed contents (s.adopt call.request p) := by
  have filed : ∀ pin, p.newRegistry = some pin → pin.2.1 ∈ contents ∧
      (s.adopt call.request p).manifests = s.manifests.insert (hashBytes pin.2.1) pin.2.1 := by
    intro pin isPin
    refine ⟨within ?_, by simp [RegistryStore.adopt, adoptRegistry, isPin]⟩
    obtain ⟨effect, granted, rfl, -⟩ := prepared.granted
    generalize requested : call.request.action = action at granted
    cases granted with
    | updateRegistryPointer _ _ _ decodes =>
      rw [← Option.some.inj isPin]
      exact ⟨_, _, requested, decodes⟩
    | _ => exact absurd isPin (by simp [RegistryStore.prepared])
  intro tld bytes r held
  rcases adopt_registries held with isPin | ⟨before, -⟩
  · obtain ⟨member, manifests⟩ := filed _ isPin
    exact ⟨member, by rw [manifests]; exact Std.ExtTreeMap.getElem?_insert_self⟩
  · obtain ⟨member, inPlace⟩ := served tld bytes r before
    refine ⟨member, ?_⟩
    rcases pinned : p.newRegistry with _ | pin
    · simpa [RegistryStore.adopt, adoptRegistry, pinned] using inPlace
    · obtain ⟨pinMember, manifests⟩ := filed pin pinned
      rw [manifests]
      exact manifests_kept distinct member pinMember inPlace

/-- A successful call keeps the registries pinned. -/
theorem RegistriesPinned.step {a : Authority} {op : Op} (succeeds : op.StorageSucceeds)
    (pinned : RegistriesPinned s) : RegistriesPinned (a.step s op) := by
  cases op with
  | apply call =>
    rcases a.applyTo_cases s call with ⟨e, -, rejected⟩ | ⟨p, prepared, outcome⟩
    · rwa [Authority.step, rejected]
    · have manifest : call.io.manifestFile = .ok () := congrArg StorageIo.manifestFile succeeds
      exact (pinned.adopt prepared).congr (outcome.memory manifest)
  | storeManifest hash bytes written =>
    rcases s.storeManifest_cases hash bytes written with same | ⟨-, filed⟩
    · rwa [Authority.step, same]
    · rw [Authority.step, filed]
      exact pinned
  | storeBlocks blocks written =>
    obtain ⟨stored, frame⟩ := s.storeBlocks_frame blocks written
    rw [Authority.step, frame]
    exact pinned

/-- A successful call keeps the registries served. -/
theorem RegistriesServed.step (distinct : Set.InjOn hashBytes contents) {a : Authority} {op : Op}
    (succeeds : op.StorageSucceeds) (within : op.contents ⊆ contents)
    (served : RegistriesServed contents s) : RegistriesServed contents (a.step s op) := by
  cases op with
  | apply call =>
    rcases a.applyTo_cases s call with ⟨e, -, rejected⟩ | ⟨p, prepared, outcome⟩
    · rwa [Authority.step, rejected]
    · have manifest : call.io.manifestFile = .ok () := congrArg StorageIo.manifestFile succeeds
      exact (served.adopt distinct prepared within).congr (outcome.memory manifest)
  | storeManifest hash bytes written =>
    rcases s.storeManifest_cases hash bytes written with same | ⟨rfl, filed⟩
    · rwa [Authority.step, same]
    · rw [Authority.step, filed]
      intro tld registry r held
      obtain ⟨member, inPlace⟩ := served tld registry r held
      exact ⟨member, manifests_kept distinct member (within rfl) inPlace⟩
  | storeBlocks blocks written =>
    obtain ⟨stored, frame⟩ := s.storeBlocks_frame blocks written
    rw [Authority.step, frame]
    exact served

end Registries

/-! ## Reachable stores -/

/-- Everything a store serves is signed by the key that is entitled to it. -/
structure WellSigned [SerdeJson] (a : Authority) (s : RegistryStore) : Prop where
  /-- The zone is signed by the root key. -/
  verifies : s.zone.verify a.root.nodeId = .ok ()
  /-- The zone is valid. -/
  valid : s.zone.validate = .ok ()
  /-- Every TLD record is filed under its name and signed by the root key. -/
  tlds : ∀ (k : String) (r : TldRecord), s.zone.tlds[k]? = some r →
    r.tld = k ∧ r.verify a.root.nodeId = .ok ()
  /-- Every domain record is filed under its name and signed by the operator of its TLD. -/
  domains : ∀ (k : String) (r : DomainRecord), s.zone.domains[k]? = some r → r.domain = k ∧
    ∃ t : TldRecord, s.zone.tlds[r.tld]? = some t ∧ r.verify t.operatorPublicKey = .ok ()
  /-- Every registry is parsed from its bytes, verifies for its TLD, and its bytes are the ones
  the TLD record pins and are served as a manifest. -/
  registries : ∀ (tld : String) (bytes : Bytes) (r : TldRegistry),
    s.registries[tld]? = some (bytes, r) → SerdeDocuments.tldRegistry bytes = .ok r ∧
    (∃ t : TldRecord, s.zone.tlds[tld]? = some t ∧ r.verify tld t.operatorPublicKey = .ok () ∧
      t.registryManifestHash = some (hashBytes bytes)) ∧
    s.manifests[hashBytes bytes]? = some bytes

/-- Every run of calls whose storage operations succeed, from the first initialization on,
leaves a well-signed store, as long as the contents it is handed do not collide under the
hash. -/
theorem wellSigned_of_run [SerdeJson] {a : Authority} {s : RegistryStore}
    (signs : SignaturesVerify) (genesis : a.Genesis s) (ops : List Op)
    (succeed : ∀ op ∈ ops, op.StorageSucceeds)
    (distinct : Set.InjOn hashBytes {bytes | ∃ op ∈ ops, bytes ∈ op.contents}) :
    WellSigned a (a.run s ops) := by
  have reachable : a.Reachable (a.run s ops) := ⟨s, ops, genesis, rfl⟩
  have verified := reachable.verified.2.2
  have named := reachable.named
  have registries : RegistriesPinned (a.run s ops) ∧
      RegistriesServed {bytes | ∃ op ∈ ops, bytes ∈ op.contents} (a.run s ops) := by
    have guarded : Transition.Guarded a.step (fun _ op => op.StorageSucceeds ∧
        op.contents ⊆ {bytes | ∃ op ∈ ops, bytes ∈ op.contents}) s ops :=
      Transition.guarded_of_forall _ _ fun op member _ =>
        ⟨succeed op member, fun bytes content => ⟨op, member, content⟩⟩
    refine Transition.invariant (I := fun s => RegistriesPinned s ∧ RegistriesServed _ s) ?_ ?_
      guarded
    · exact fun s op both holds =>
        ⟨both.1.step holds.1, both.2.step distinct holds.1 holds.2⟩
    · obtain ⟨dir, now, io, returned⟩ := genesis
      obtain ⟨-, -, rfl⟩ := initEmptyRegistry_eq_ok returned
      refine ⟨fun tld bytes r held => ?_, fun tld bytes r held => ?_⟩ <;>
        simp [initialStore, withSnapshot, withSnapshotFile] at held
  refine ⟨verified, reachable.valid, ?_, ?_, ?_⟩
  · exact fun k r found => ⟨(named.tlds k r found).1,
      (RootZone.verify_eq_ok.mp verified).2.2 k r found⟩
  · exact fun k r found => ⟨(named.domains k r found).1, reachable.domainsSigned signs k r found⟩
  · intro tld bytes r held
    obtain ⟨parses, record⟩ := registries.1 tld bytes r held
    exact ⟨parses, record, (registries.2 tld bytes r held).2⟩

end Federate

namespace Federate.Reference

/-- The domain `alice.foo` is issued, and two manifests are stored. -/
def signedCalls : List Op := issueRevoked ++
  [.storeManifest (hashBytes [1]) [1] (.ok ()), .storeManifest (hashBytes [2]) [2] (.ok ())]

/-- The stored manifests are all that the calls file, and their hashes differ. -/
theorem signedCalls_distinct :
    Set.InjOn hashBytes {bytes | ∃ op ∈ signedCalls, bytes ∈ op.contents} := by
  have only : {bytes | ∃ op ∈ signedCalls, bytes ∈ op.contents} ⊆ {[1], [2]} := by
    rintro bytes ⟨op, member, content⟩
    simp only [signedCalls, issueRevoked, List.cons_append, List.nil_append, List.mem_cons,
      List.not_mem_nil, or_false] at member
    rcases member with rfl | rfl | rfl | rfl
    · obtain ⟨tld, registryHex, requested, -⟩ := content
      exact absurd requested nofun
    · obtain ⟨tld, registryHex, requested, -⟩ := content
      exact absurd requested nofun
    · exact .inl content
    · exact .inr content
  have differ : hashBytes [1] ≠ hashBytes [2] := by decide +kernel
  refine Set.InjOn.mono only ?_
  rintro bytes (rfl | rfl) bytes' (rfl | rfl) same
  · rfl
  · exact absurd same differ
  · exact absurd same.symm differ
  · rfl

/-- The registry with the TLD `foo` and the domain `alice.foo` is well signed. -/
theorem alice_wellSigned : WellSigned authority (authority.run start signedCalls) ∧
    (authority.run start signedCalls).zone.tlds["foo"]? = some (official "foo") ∧
    (authority.run start signedCalls).zone.domains["alice.foo"]? =
      some (issuedRecord "alice" "foo" .revoked) := by
  have zone : (authority.run start signedCalls).zone =
      (authority.run start issueRevoked).zone := by
    have kept (s : RegistryStore) (hash : String) (bytes : Bytes) :
        (authority.step s (.storeManifest hash bytes (.ok ()))).zone = s.zone := by
      rcases s.storeManifest_cases hash bytes (.ok ()) with same | ⟨-, filed⟩
      · rw [Authority.step, same]
      · rw [Authority.step, filed]
    rw [signedCalls, Authority.run, Authority.run, Transition.run_append, Transition.run_cons,
      Transition.run_cons, Transition.run_nil, kept, kept]
  refine ⟨?_, ?_, ?_⟩
  · refine wellSigned_of_run signaturesVerify genesis _ ?_ signedCalls_distinct
    intro op member
    simp only [signedCalls, issueRevoked, List.cons_append, List.nil_append, List.mem_cons,
      List.not_mem_nil, or_false] at member
    rcases member with rfl | rfl | rfl | rfl <;> exact rfl
  · rw [zone, stage_revoked.tlds]
    exact Std.ExtTreeMap.getElem?_insert_self
  · rw [zone, stage_revoked.domains]
    exact Std.ExtTreeMap.getElem?_insert_self

end Federate.Reference
