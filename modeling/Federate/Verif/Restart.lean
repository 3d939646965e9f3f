import Federate.Mutation.Wire
import Federate.Verif.Atomic
import Federate.Verif.Signed

/-!
# Restart

Opening the directory of a registry that only successful calls have changed gives the registry
in memory back. Every call keeps an invariant from which opening succeeds: memory and tables
agree, content files are filed under their hash, and every stored record is one that reading
its text gives back.
-/

namespace Federate

open Outcome Stateful RegistryStore

variable [Externals] [SerdeJson]

/-- The free-form values that `serde_json` reads back from every row: integral ones, no deeper than
leaves room for the four objects around them in a row of the history. -/
def PlainValue (v : Value) : Prop := Value.Plain (maxDepth - 4) v

/-- Reading the text of a record gives the record back, when its free-form values are of a kind. -/
structure ReadsBack (P : Value → Prop) : Prop where
  /-- A root zone. -/
  rootZone : ∀ z : RootZone, z.Values P → SerdeDocuments.rootZone (Externals.toVec z.toJson) = .ok z
  /-- A TLD record. -/
  tldRecord : ∀ r : TldRecord, r.Values P →
    SerdeJson.tldRecord (Externals.toVec r.toJson) = .ok r
  /-- A domain record. -/
  domainRecord : ∀ r : DomainRecord, r.Values P →
    SerdeJson.domainRecord (Externals.toVec r.toJson) = .ok r
  /-- A history entry. -/
  appliedMutation : ∀ m : AppliedMutation, m.mutation.Values P →
    SerdeJson.appliedMutation (Externals.toVec m.toJson) = .ok m
  /-- An audit event. -/
  auditRecord : ∀ e : AuditRecord, SerdeJson.auditRecord (Externals.toVec e.toJson) = .ok e

/-- Reading the text of a record that came from JSON gives the record back, and a request that
was read came from JSON. -/
structure SerdeRoundTrips : Prop extends ReadsBack Value.FromJson where
  /-- A request that was read. -/
  request : ∀ bytes req, SerdeJson.mutationRequest bytes = .ok req → req.FromJson

variable {P : Value → Prop}

/-- Every granted action on records of a kind leaves records of that kind. -/
theorem Grant.values {zone : RootZone} {manifests : Table String Bytes} {registries : Registries}
    {actor : String} {ctx : MutationContext} {clock : DateTime} {action : MutationAction}
    {effect : ActionEffect}
    (granted : Grant zone manifests registries actor ctx clock action effect)
    (issued : ∀ r, action = .issueDomain r → r.Values P) (values : zone.Values P) :
    effect.zone.Values P := by
  have domain : ∀ {fqdn : String} {r : DomainRecord}, r.Values P →
      (zone.putDomain fqdn r).Values P := by
    intro fqdn r own
    refine ⟨values.tlds, fun k other found => ?_⟩
    rw [RootZone.putDomain_getElem?] at found
    split at found
    · exact Option.some.inj found ▸ own
    · exact values.domains k other found
  have tld : ∀ {name : String} {r : TldRecord}, r.Values P → (zone.putTld name r).Values P := by
    intro name r own
    refine ⟨fun k other found => ?_, values.domains⟩
    rw [RootZone.putTld_getElem?] at found
    split at found
    · exact Option.some.inj found ▸ own
    · exact values.tlds k other found
  cases granted with
  | publish =>
    exact domain ⟨fun _ absent => absurd absent nofun, fun _ absent => absurd absent nofun⟩
  | setDomainStatus held =>
    have own := values.domains _ _ held
    exact domain own
  | issueDomain => exact domain (issued _ rfl)
  | delegateTld | createTld | restrictTld => exact tld fun _ absent => absurd absent nofun
  | updateTld _ held | setTldStatus _ held =>
    have own := values.tlds _ _ held
    exact tld own
  | updateRegistryPointer held =>
    have own := values.tlds _ _ held
    exact tld own

/-! ## The invariant -/

/-- What every successful call keeps, and opening the directory needs. -/
structure Restorable (P : Value → Prop) (a : Authority) (s : RegistryStore) : Prop where
  /-- Memory and tables agree. -/
  settled : Settled s
  /-- The delegated registries are the ones the root pinned. -/
  pinned : RegistriesPinned s
  /-- The manifest files are the manifests in memory. -/
  files : s.files.manifests = s.manifests
  /-- Every manifest is filed under its hash. -/
  manifests : ∀ (hash : String) (bytes : Bytes), s.manifests[hash]? = some bytes →
    hashBytes bytes = hash
  /-- Every block is filed under its hash. -/
  blocks : ∀ (hash : String) (bytes : Bytes), s.files.blocks[hash]? = some bytes →
    hashBytes bytes = hash
  /-- Every history entry is filed under its mutation. -/
  keyed : Rows.Keyed (fun m : AppliedMutation => m.mutation.mutationId) s.applied
  /-- The root key signed every audit event. -/
  audit : ∀ event ∈ s.audit, event.verify a.root.nodeId = .ok ()
  /-- The values of the zone are of the kind. -/
  zoneValues : s.zone.Values P
  /-- So are those of every mutation of the history. -/
  appliedValues : ∀ (id : String) (m : AppliedMutation), s.applied[id]? = some m →
    m.mutation.Values P

/-- The call succeeds, and a mutation was read from JSON. -/
def Authority.Succeeds (a : Authority) (s : RegistryStore) : Op → Prop
  | .apply call => (∃ bytes, SerdeJson.mutationRequest bytes = .ok call.request) ∧
      ∃ event, a.Accepts s call event
  | .storeManifest hash bytes written => (exec (storeManifest hash bytes written) s).1 = .ok ()
  | .storeBlocks blocks written => (exec (storeBlocks blocks written) s).1 = .ok ()

variable {a : Authority} {s : RegistryStore}

omit [SerdeJson] in
/-- Storing blocks keeps every block filed under its hash. -/
theorem storeBlocks_hashed (blocks : List (String × Bytes)) (written : ℕ → Result Unit)
    (hashed : ∀ (hash : String) (bytes : Bytes), s.files.blocks[hash]? = some bytes →
      hashBytes bytes = hash) :
    ∀ (hash : String) (bytes : Bytes),
      (exec (storeBlocks blocks written) s).2.files.blocks[hash]? = some bytes →
      hashBytes bytes = hash := by
  induction blocks generalizing s written with
  | nil => exact hashed
  | cons block rest ih =>
    obtain ⟨hash, bytes⟩ := block
    rcases valid : verifyHash bytes hash with e | ⟨⟩
    · simpa [storeBlocks, putBlock, exec_bind, valid] using hashed
    · rcases file : written 0 with e | ⟨⟩
      · simpa [storeBlocks, putBlock, exec_bind, valid, file] using hashed
      · simp only [storeBlocks, putBlock, exec_bind, exec_lift, valid, file, exec_modify]
        refine ih _ fun other content found => ?_
        rw [Std.ExtTreeMap.getElem?_insert] at found
        split at found
        · rename_i same
          rw [← Option.some.inj found, ← Std.LawfulEqCmp.eq_of_compare same]
          exact (verifyHash_eq_ok.mp valid).2
        · exact hashed other content found

/-- A registry initialized in a new directory is restorable. -/
theorem restorable_initial {path : String} {now : DateTime} {io : StorageIo}
    (returned : initEmptyRegistry (RegistryDir.fresh path) a.root now io = .ok s) :
    Restorable P a s := by
  have settled := Authority.Genesis.settled (a := a) ⟨_, _, _, returned⟩
  obtain ⟨-, -, rfl⟩ := initEmptyRegistry_eq_ok returned
  have absent : ∀ {α : Type} {k : String} {v : α}, (∅ : Table String α)[k]? = some v → False :=
    fun found => by simp at found
  exact {
    settled
    pinned := fun _ _ _ found => (absent found).elim
    files := rfl
    manifests := fun _ _ found => (absent found).elim
    blocks := fun _ _ found => (absent found).elim
    keyed := fun _ _ found => (absent found).elim
    audit := fun _ member => absurd member List.not_mem_nil
    zoneValues := ⟨fun _ _ found => (absent found).elim, fun _ _ found => (absent found).elim⟩
    appliedValues := fun _ _ found => (absent found).elim }

/-- An accepted mutation with values of the kind keeps the registry restorable. -/
theorem Restorable.stored (signs : SignaturesVerify) (restorable : Restorable P a s)
    {call : ApplyCall} {p : Prepared} {tables : RedbTables} (prepared : a.Prepares s call p)
    (committed : s.nextTables call.request p = .ok tables) (values : call.request.Values P) :
    Restorable P a (s.stored call.request p tables) where
  settled := by
    have named := prepared.named restorable.settled.named
    exact ⟨(s.adopt_zone call.request p).symm ▸ named,
      restorable.settled.mirrors.stored named committed, restorable.settled.traced.stored prepared⟩
  pinned := (restorable.pinned.adopt prepared).congr ⟨rfl, rfl, rfl, rfl, rfl, rfl⟩
  files := by
    rcases p with ⟨zone, _ | ⟨tld, bytes, parsed⟩, event⟩
    · exact restorable.files
    · exact congrArg (fun files => files.insert (hashBytes bytes) bytes) restorable.files
  manifests := by
    rcases p with ⟨zone, _ | ⟨tld, bytes, parsed⟩, event⟩
    · exact restorable.manifests
    · intro hash content found
      change (s.manifests.insert (hashBytes bytes) bytes)[hash]? = some content at found
      rw [Std.ExtTreeMap.getElem?_insert] at found
      split at found
      · rename_i same
        rw [← Option.some.inj found, Std.LawfulEqCmp.eq_of_compare same]
      · exact restorable.manifests hash content found
  blocks := by
    rcases p with ⟨zone, _ | ⟨tld, bytes, parsed⟩, event⟩ <;> exact restorable.blocks
  keyed := by
    intro id m found
    change (s.adopt call.request p).applied[id]? = some m at found
    rw [adopt_applied, Std.ExtTreeMap.getElem?_insert] at found
    split at found
    · rename_i same
      rw [← Option.some.inj found]
      exact Std.LawfulEqCmp.eq_of_compare same
    · exact restorable.keyed id m found
  audit := by
    intro event member
    change event ∈ (s.adopt call.request p).audit at member
    rw [adopt_audit] at member
    rcases List.mem_append.mp member with earlier | here
    · exact restorable.audit event earlier
    · obtain ⟨effect, -, rfl, -⟩ := prepared.granted
      rw [List.mem_singleton.mp here]
      exact AuditRecord.verify_finalize signs _ a.root
  zoneValues := by
    change (s.adopt call.request p).zone.Values P
    rw [adopt_zone]
    obtain ⟨effect, granted, rfl, -⟩ := prepared.granted
    have kept := granted.values values restorable.zoneValues
    exact ⟨kept.tlds, kept.domains⟩
  appliedValues := by
    intro id m found
    change (s.adopt call.request p).applied[id]? = some m at found
    rw [adopt_applied, Std.ExtTreeMap.getElem?_insert] at found
    split at found
    · rw [← Option.some.inj found]
      exact values
    · exact restorable.appliedValues id m found

/-- A successful call keeps the registry restorable. -/
theorem Restorable.step (signs : SignaturesVerify) (trips : SerdeRoundTrips)
    (restorable : Restorable Value.FromJson a s) {op : Op} (succeeds : a.Succeeds s op) :
    Restorable Value.FromJson a (a.step s op) := by
  cases op with
  | apply call =>
    obtain ⟨⟨bytes, read⟩, event, accepted⟩ := succeeds
    obtain ⟨p, tables, prepared, -, -, committed, -, -, -, stored⟩ := a.accepts_iff s |>.mp accepted
    rw [Authority.step, stored]
    exact restorable.stored signs prepared committed (trips.request bytes _ read)
  | storeManifest hash bytes written =>
    rcases s.storeManifest_cases hash bytes written with same | ⟨rfl, filed⟩
    · rwa [Authority.step, same]
    · rw [Authority.step, filed]
      exact { restorable with
        settled := restorable.settled.withContent _ _
        files := congrArg (fun files => files.insert (hashBytes bytes) bytes) restorable.files
        manifests := fun hash content found => by
          rw [Std.ExtTreeMap.getElem?_insert] at found
          split at found
          · rename_i same
            rw [← Option.some.inj found, Std.LawfulEqCmp.eq_of_compare same]
          · exact restorable.manifests hash content found }
  | storeBlocks blocks written =>
    have blocksHashed := storeBlocks_hashed blocks written restorable.blocks
    obtain ⟨stored, frame⟩ := s.storeBlocks_frame blocks written
    rw [frame] at blocksHashed
    rw [Authority.step, frame]
    exact { restorable with
      settled := restorable.settled.withContent _ _
      blocks := blocksHashed }

/-! ## Opening -/

omit [SerdeJson] in
/-- Mirroring tables give the zone back. -/
theorem Mirrors.currentRootZone (mirrors : Mirrors s) : s.database.currentRootZone =
    .ok (some (s.zone.rootVersion, Externals.toVec s.zone.toJson)) := by
  simp [RedbTables.currentRootZone, mirrors.version, mirrors.zone, okOr, bind, Except.bind, pure,
    Except.pure]

/-- Opening the directory of a restorable registry gives the registry back. -/
theorem Restorable.openDir (reads : ReadsBack P) (reachable : a.Reachable s)
    (restorable : Restorable P a s) : RegistryStore.openDir s.dir a.root.nodeId = .ok s := by
  have mirrors := restorable.settled.mirrors
  have zone := reads.rootZone s.zone restorable.zoneValues
  have loaded : loadRegistries s.zone s.database.delegatedRegistries = .ok s.registries := by
    rw [mirrors.registries]
    refine Rows.load_encoded fun tld entry held => ?_
    obtain ⟨parses, t, found, verified, -⟩ := restorable.pinned tld entry.1 entry.2 held
    simp only [bind_eq_ok, okOr_eq_ok, pure_eq_ok, exists_unit]
    exact ⟨entry.2, serde_eq_ok.mpr parses, t, found, verified, rfl⟩
  have mutations : s.database.listMutations = .ok (Rows.values s.applied) := by
    rw [RedbTables.listMutations, mirrors.mutations]
    exact serde_eq_ok.mpr <| Rows.readAll_encoded fun id m held =>
      reads.appliedMutation m (restorable.appliedValues id m held)
  have audit : s.database.listAuditEvents = .ok s.audit :=
    serde_eq_ok.mpr <| Rows.readAll_isLog mirrors.audit fun event _ => reads.auditRecord event
  have applied : Rows.store (fun m : AppliedMutation => m.mutation.mutationId) id
      (Rows.values s.applied) = s.applied := by
    rw [Rows.store_values restorable.keyed, Rows.encoded_id]
  have manifests : (s.files.manifests.filter fun name bytes => hashBytes bytes = name) =
      s.manifests := by
    apply Std.ExtTreeMap.ext_getElem?
    intro name
    rw [restorable.files, Std.ExtTreeMap.getElem?_filter']
    cases held : s.manifests[name]? with
    | none => rfl
    | some bytes => simp [restorable.manifests name bytes held]
  simp only [RegistryStore.openDir, RegistryStore.dir, bind_eq_ok, serde_eq_ok, okOr_eq_ok,
    Option.some.injEq, exists_eq_left', mirrors.currentRootZone, Except.ok.injEq, zone,
    reachable.valid, reachable.verified.2.2, mirrors.stateHash, exists_const, loaded, mutations, audit, pure_eq_ok,
    rejectIf_eq_ok, ne_eq, not_true, not_false_eq_true, true_and, manifests,
    mirrors.targetVersions, applied]

/-- The record tables of a restorable registry mirror its zone. -/
theorem Restorable.verifyTables (reads : ReadsBack P) (restorable : Restorable P a s) :
    s.verifyTables = .ok () := by
  have mirrors := restorable.settled.mirrors
  have named := restorable.settled.named
  have tlds : s.database.listTlds = .ok (Rows.values s.zone.tlds) := by
    rw [RedbTables.listTlds, mirrors.tlds]
    exact serde_eq_ok.mpr <| Rows.readAll_encoded fun k r held =>
      reads.tldRecord r (restorable.zoneValues.tlds k r held)
  have domains : s.database.listDomains = .ok (Rows.values s.zone.domains) := by
    rw [RedbTables.listDomains, mirrors.domains]
    exact serde_eq_ok.mpr <| Rows.readAll_encoded fun k r held =>
      reads.domainRecord r (restorable.zoneValues.domains k r held)
  have tldsHeld : ∀ r ∈ Rows.values s.zone.tlds, s.zone.lookupTld r.tld = some r := by
    intro r member
    obtain ⟨k, held⟩ := Rows.mem_values.mp member
    exact ((named.tlds k r held).1.symm ▸ held : s.zone.tlds[r.tld]? = some r)
  have domainsHeld : ∀ r ∈ Rows.values s.zone.domains, s.zone.lookup r.domain = some r := by
    intro r member
    obtain ⟨k, held⟩ := Rows.mem_values.mp member
    exact ((named.domains k r held).1.symm ▸ held : s.zone.domains[r.domain]? = some r)
  simp only [RegistryStore.verifyTables, tlds, domains, bind_eq_ok, Except.ok.injEq,
    exists_eq_left', rejectIf_eq_ok, exists_const, not_or, List.any_eq_true, not_exists, not_and]
  refine ⟨⟨by simp [Rows.values], fun r member => ?_⟩, by simp [Rows.values], fun r member => ?_⟩
  · simp [tldsHeld r member]
  · simp [domainsHeld r member]

/-- A restorable registry passes its self-check. -/
theorem Restorable.verifyAll (reads : ReadsBack P) (reachable : a.Reachable s)
    (restorable : Restorable P a s) : ∃ report, s.verifyAll a.root.nodeId = .ok report := by
  simp only [RegistryStore.verifyAll, bind_eq_ok, forM_eq_ok, exists_unit, pure_eq_ok,
    reachable.valid, reachable.verified.2.2, restorable.verifyTables reads, true_and]
  refine ⟨_, ?_, ?_, ?_, restorable.audit, rfl⟩
  · rintro ⟨tld, bytes, r⟩ member
    obtain ⟨-, t, found, verified, -⟩ := restorable.pinned tld bytes r
      (Std.ExtTreeMap.mem_toList_iff_getElem?_eq_some.mp member)
    simp only [okOr_eq_ok]
    exact ⟨t, found, verified⟩
  · rintro ⟨hash, bytes⟩ member
    have held := restorable.manifests hash bytes
      (Std.ExtTreeMap.mem_toList_iff_getElem?_eq_some.mp member)
    exact verifyHash_eq_ok.mpr ⟨held ▸ isValidHash_hashBytes bytes, held⟩
  · rintro ⟨hash, bytes⟩ member
    have held := restorable.blocks hash bytes
      (Std.ExtTreeMap.mem_toList_iff_getElem?_eq_some.mp member)
    have valid : isValidHash hash = true := held ▸ isValidHash_hashBytes bytes
    simp only [checkBlock, bind_eq_ok, rejectIf_eq_ok, exists_const, verifyHash_eq_ok]
    exact ⟨by simp [valid], valid, held⟩

/-- For every run of successful calls from the first initialization of a directory, with every
mutation read from JSON, opening the directory gives exactly the registry that performed the
run, which passes its self-check; so every later call has the same outcome before and after the
restart, and leaves the same registry. -/
theorem open_after_run (signs : SignaturesVerify) (trips : SerdeRoundTrips) {path : String}
    {now : DateTime} {io : StorageIo}
    (returned : initEmptyRegistry (RegistryDir.fresh path) a.root now io = .ok s) {ops : List Op}
    (succeed : Transition.Guarded a.step a.Succeeds s ops) :
    ∃ opened, RegistryStore.openDir (a.run s ops).dir a.root.nodeId = .ok opened ∧
      opened.zone = (a.run s ops).zone ∧ opened.registries = (a.run s ops).registries ∧
      opened.targetVersions = (a.run s ops).targetVersions ∧
      opened.applied = (a.run s ops).applied ∧ opened.audit = (a.run s ops).audit ∧
      opened.manifests = (a.run s ops).manifests ∧
      (∃ report, opened.verifyAll a.root.nodeId = .ok report) ∧
      ∀ call, a.applyTo call opened = a.applyTo call (a.run s ops) := by
  have reachable : a.Reachable (a.run s ops) := ⟨s, ops, ⟨_, _, _, returned⟩, rfl⟩
  have restorable : Restorable Value.FromJson a (a.run s ops) :=
    Transition.invariant (fun _ _ restorable succeeds => restorable.step signs trips succeeds)
      (restorable_initial returned) succeed
  exact ⟨a.run s ops, restorable.openDir trips.toReadsBack reachable, rfl, rfl, rfl, rfl, rfl, rfl,
    restorable.verifyAll trips.toReadsBack reachable, fun _ => rfl⟩

end Federate

namespace Federate.Reference

open Json

/-- A plain value came from JSON. -/
theorem fromJson_of_plain {v : Value} (plain : PlainValue v) : v.FromJson :=
  ⟨plain.integral.readable, plain.present⟩

/-- The reference readers invert the writers of records from JSON. -/
theorem readsBack {P : Value → Prop} (json : ∀ v, P v → v.FromJson) : ReadsBack P := by
  have domain {r : DomainRecord} (values : r.Values P) : r.FromJson :=
    ⟨fun v found => json v (values.1 v found), fun v found => json v (values.2 v found)⟩
  have tld {r : TldRecord} (values : r.Values P) : r.FromJson :=
    fun v found => json v (values v found)
  constructor
  · intro z values
    have fromJson : z.FromJson :=
      ⟨fun k r found => tld (values.tlds k r found),
        fun k r found => domain (values.domains k r found)⟩
    exact read_compact (fun _ => RootZone.FromJson.readable) (fun _ _ => RootZone.toJson_injective)
      fromJson
  · exact fun r values => read_compact (fun _ => TldRecord.FromJson.readable)
      (fun _ _ => TldRecord.toJson_injective) (tld values)
  · exact fun r values => read_compact (fun _ => DomainRecord.FromJson.readable)
      (fun _ _ => DomainRecord.toJson_injective) (domain values)
  · intro m values
    have fromJson : m.mutation.FromJson := fun r requested => domain (values r requested)
    exact read_compact (fun _ => AppliedMutation.readable)
      (fun _ _ => AppliedMutation.toJson_injective) fromJson
  · exact fun e => read_compact (fun e _ => AuditRecord.readable e)
      (fun _ _ => AuditRecord.toJson_injective) trivial

/-- The reference readers invert the writers of records with plain values. -/
theorem plainReads : ReadsBack PlainValue := readsBack fun _ => fromJson_of_plain

/-- The reference readers invert the writers. -/
theorem serdeRoundTrips : SerdeRoundTrips where
  toReadsBack := readsBack fun _ json => json
  request _ _ reads := (read_known reads).1

/-- The directory of the registry with the TLD `foo` opens as that registry. -/
theorem foo_opens : ∃ opened,
    RegistryStore.openDir (authority.run start [.apply createFoo]).dir authority.root.nodeId =
      .ok opened ∧ opened.zone = (authority.run start [.apply createFoo]).zone ∧
      ∃ report, opened.verifyAll authority.root.nodeId = .ok report := by
  have json : createFoo.request.FromJson := fun r requested => absurd requested nofun
  have reads : SerdeJson.mutationRequest (compact createFoo.request.toJson) =
      .ok createFoo.request :=
    read_compact (fun _ => MutationRequest.FromJson.readable)
      (fun _ _ => MutationRequest.toJson_injective) json
  have succeed : Transition.Guarded authority.step authority.Succeeds start [.apply createFoo] :=
    ⟨⟨⟨_, reads⟩, stage_foo.1⟩, trivial⟩
  obtain ⟨opened, opens, zone, -, -, -, -, -, verifies, -⟩ :=
    open_after_run signaturesVerify serdeRoundTrips initialized succeed
  exact ⟨opened, opens, zone, verifies⟩

end Federate.Reference
