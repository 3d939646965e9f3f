import Federate.Mutation.Migration
import Federate.Verif.Restart

/-!
# Migration of a legacy registry

Every transaction of the import adds one item to what the database holds of the legacy state.
`Imported` says how much that is, and opening a database gives exactly that much; so a migration
that ends well has lost nothing, and one that stops early opens as a part.
-/

namespace Federate

open Json Outcome Stateful RegistryStore

/-! ## A loop of transactions -/

/-- The number of leading successes among the first outcomes. -/
def leading (committed : ℕ → Result Unit) : ℕ → ℕ
  | 0 => 0
  | n + 1 =>
    match committed 0 with
    | .ok _ => leading (fun index => committed (index + 1)) n + 1
    | .error _ => 0

/-- Of so many outcomes at most all are successes. -/
theorem leading_le (committed : ℕ → Result Unit) (n : ℕ) : leading committed n ≤ n := by
  induction n generalizing committed with
  | zero => exact Nat.le_refl 0
  | succ n ih =>
    unfold leading
    split
    · exact Nat.succ_le_succ (ih _)
    · exact Nat.zero_le _

/-- Successes lead to the end. -/
theorem leading_ok (n : ℕ) : leading (fun _ => .ok ()) n = n := by
  induction n with
  | zero => rfl
  | succ n ih => exact congrArg Nat.succ ih

/-- A transaction that cannot be written or committed changes nothing. -/
theorem exec_transact (change : RedbTables → Result RedbTables) (committed : Result Unit)
    (dir : RegistryDir) : exec (transact change committed) dir =
      match change (dir.database.getD .empty), committed with
      | .error e, _ => (.error e, dir)
      | .ok _, .error e => (.error e, dir)
      | .ok t, .ok _ => (.ok (), { dir with database := some t }) := by
  simp only [transact, exec_bind, exec_get, exec_lift]
  cases change (dir.database.getD .empty) with
  | error e => rfl
  | ok t => cases committed <;> rfl

/-- A program leaves the database with these tables: it returns where it has done its whole work,
and fails where it has not. -/
def LeavesTables (program : DirM Unit) (dir : RegistryDir) (whole : Prop) (t : RedbTables) : Prop :=
  whole ∧ exec program dir = (.ok (), { dir with database := some t }) ∨
    ¬whole ∧ ∃ e, exec program dir = (.error e, { dir with database := some t })

section Loop

variable {α : Type} (change : α → RedbTables → Result RedbTables)
  (Inv : List α → RedbTables → Prop)

/-- Every item can be written after those before it. -/
def Writable (done items : List α) : Prop :=
  ∀ before item after t, before ++ item :: after = items → Inv (done ++ before) t →
    ∃ t', change item t = .ok t'

/-- A loop of transactions that continues from items already imported imports a first part of its
items; the part ends with the first transaction that is not committed, when every item can be
written. -/
theorem transactEach_continues (items : List α)
    (step : ∀ done, ∀ item ∈ items, ∀ t t', Inv done t → change item t = .ok t' →
      Inv (done ++ [item]) t')
    (committed : ℕ → Result Unit) (done : List α) {dir : RegistryDir} {t : RedbTables}
    (held : dir.database = some t) (inv : Inv done t) : ∃ n t', Inv (done ++ items.take n) t' ∧
      LeavesTables (transactEach change items committed) dir (n = items.length) t' ∧
      (Writable change Inv done items → n = leading committed items.length) := by
  induction items generalizing committed done dir t with
  | nil =>
    have same : { dir with database := some t } = dir := by rw [← held]
    refine ⟨0, t, by simpa using inv, .inl ⟨rfl, ?_⟩, fun _ => rfl⟩
    rw [same]
    rfl
  | cons item rest ih =>
    have same : { dir with database := some t } = dir := by rw [← held]
    have current : dir.database.getD .empty = t := by rw [held, Option.getD_some]
    have none_done : ¬0 = (item :: rest).length := by simp
    have first := exec_transact (change item) (committed 0) dir
    rw [current] at first
    cases written : change item t with
    | error e =>
      have stops : exec (transact (change item) (committed 0)) dir = (.error e, dir) := by
        rw [first, written]
      refine ⟨0, t, by simpa using inv, .inr ⟨none_done, e, ?_⟩, ?_⟩
      · rw [transactEach, exec_bind_error stops, same]
      · intro writable
        obtain ⟨t', writes⟩ := writable [] item rest t rfl (by simpa using inv)
        cases written.symm.trans writes
    | ok t₁ =>
      have inv₁ : Inv (done ++ [item]) t₁ :=
        step done item List.mem_cons_self t t₁ inv written
      cases outcome : committed 0 with
      | error e =>
        have stops : exec (transact (change item) (committed 0)) dir = (.error e, dir) := by
          rw [first, written, outcome]
        refine ⟨0, t, by simpa using inv, .inr ⟨none_done, e, ?_⟩, ?_⟩
        · rw [transactEach, exec_bind_error stops, same]
        · intro _
          simp [leading, outcome]
      | ok u =>
        have commits : exec (transact (change item) (committed 0)) dir =
            (.ok (), { dir with database := some t₁ }) := by
          rw [first, written, outcome]
        have stored : ({ dir with database := some t₁ } : RegistryDir).database = some t₁ := rfl
        obtain ⟨n, t', inv', leaves, counts⟩ :=
          ih (fun done other member => step done other (List.mem_cons_of_mem _ member))
            (fun index => committed (index + 1)) (done ++ [item]) stored inv₁
        refine ⟨n + 1, t', by simpa using inv', ?_, ?_⟩
        · rw [LeavesTables, transactEach, exec_bind_ok commits]
          rcases leaves with ⟨whole, returns⟩ | ⟨part, e, fails⟩
          · exact .inl ⟨congrArg Nat.succ whole, returns⟩
          · exact .inr ⟨fun whole => part (Nat.succ.inj whole), e, fails⟩
        · intro writable
          have later : Writable change Inv (done ++ [item]) rest := by
            intro before other after t parts inv
            refine writable (item :: before) other after t (congrArg (item :: ·) parts) ?_
            simpa using inv
          simp [leading, outcome, counts later]

/-- A loop of transactions imports a first part of its items. -/
theorem transactEach_imports (items : List α)
    (step : ∀ done, ∀ item ∈ items, ∀ t t', Inv done t → change item t = .ok t' →
      Inv (done ++ [item]) t')
    (committed : ℕ → Result Unit) {dir : RegistryDir} {t : RedbTables}
    (held : dir.database = some t) (inv : Inv [] t) : ∃ n t', Inv (items.take n) t' ∧
      LeavesTables (transactEach change items committed) dir (n = items.length) t' ∧
      (Writable change Inv [] items → n = leading committed items.length) :=
  transactEach_continues change Inv items step committed [] held inv

end Loop

/-! ## What the database holds -/

/-- A first part of the entries of a map that gives the map has all entries. -/
theorem take_complete {α : Type} {table : Table String α} {n : ℕ}
    (whole : (Rows.store Prod.fst Prod.snd (table.toList.take n) : Table String α) = table) :
    table.toList.length ≤ n := by
  by_contra short
  have room : n < table.toList.length := by omega
  have distinct : table.toList.Pairwise fun a b => ¬compare a.1 b.1 = .eq :=
    Std.ExtTreeMap.distinct_keys_toList
  have listed : (table.toList[n]).1 ∈ table := mem_of_getElem?
    (Std.ExtTreeMap.mem_toList_iff_getElem?_eq_some.mp (List.getElem_mem room))
  obtain ⟨name, named⟩ : ∃ name, (table.toList[n]).1 = name := ⟨_, rfl⟩
  rw [named, ← whole, Rows.mem_store] at listed
  obtain ⟨entry, among, same⟩ := listed
  rw [← named] at same
  obtain ⟨i, inside, rfl⟩ := List.mem_iff_getElem.mp among
  have before : i < n := by
    rw [List.length_take] at inside
    omega
  rw [List.getElem_take] at same
  have differs := List.pairwise_iff_getElem.mp distinct i n (by omega) room before
  exact differs (by rw [same]; exact Std.ReflCmp.compare_self)

section Import

variable [Externals]

/-- The database holds the initial state of a legacy registry and these mutations, audit events and
target versions. -/
structure Imported (legacy : LegacyJsonState) (applied : List AppliedMutation)
    (audit : List AuditRecord) (targets : List (String × UInt64)) (t : RedbTables) : Prop where
  /-- The metadata points at the version of the zone. -/
  version : t.registryMetadata["current_version"]? = some (Text.ofUInt64 legacy.zone.rootVersion)
  /-- The zone is stored under its version. -/
  zone : t.rootZoneVersions[legacy.zone.rootVersion]? =
    some (Externals.toVec legacy.zone.toJson)
  /-- The metadata holds the hash of the zone. -/
  stateHash : t.registryMetadata["state_hash"]? = some (stateHash legacy.zone)
  /-- The exact bytes of the delegated registries. -/
  registries : t.delegatedRegistries = Rows.encoded Prod.fst legacy.registries
  /-- The mutations. -/
  mutations : t.mutations = Rows.store (fun m : AppliedMutation => m.mutation.mutationId)
    (fun m => Externals.toVec m.toJson) applied
  /-- The audit log. -/
  audit : Rows.IsLog t.auditEvents (audit.map fun event => Externals.toVec event.toJson)
  /-- The target versions. -/
  targets : t.targetVersions = Rows.store Prod.fst Prod.snd targets

namespace Imported

variable {legacy : LegacyJsonState} {applied : List AppliedMutation} {audit : List AuditRecord}
  {targets : List (String × UInt64)} {t t' : RedbTables}

/-- The initial state is imported without mutations, events and target versions. -/
theorem initial (legacy : LegacyJsonState) :
    Imported legacy [] [] [] (RedbTables.empty.commitInitial legacy.initialState) where
  version := pointer_version _ _ _
  zone := Std.ExtTreeMap.getElem?_insert_self
  stateHash := pointer_stateHash _ _ _
  registries := by
    have rows := Rows.foldl_insert_toList Prod.fst legacy.registries
    rw [← rows]
    show (legacy.registries.toList.map fun entry => (entry.1, entry.2.1)).foldl _ ∅ = _
    rw [List.foldl_map]
  mutations := rfl
  audit := Rows.isLog_empty
  targets := rfl

/-- A zone of another version leaves the current one in place. -/
theorem putRootZoneVersion (imported : Imported legacy applied audit targets t)
    {version : UInt64} (older : version ≠ legacy.zone.rootVersion) (bytes : Bytes) :
    Imported legacy applied audit targets (t.putRootZoneVersion version bytes) :=
  { imported with
    zone := by
      have differs : compare version legacy.zone.rootVersion ≠ .eq := fun same =>
        older (Std.LawfulEqCmp.eq_of_compare same)
      show (t.rootZoneVersions.insert version bytes)[legacy.zone.rootVersion]? = _
      rw [Std.ExtTreeMap.getElem?_insert, if_neg differs]
      exact imported.zone }

/-- One more mutation. -/
theorem appendMutation (imported : Imported legacy applied audit targets t)
    (m : AppliedMutation) :
    Imported legacy (applied ++ [m]) audit targets (t.appendMutation m) :=
  { imported with
    mutations := by
      show t.mutations.insert m.mutation.mutationId (Externals.toVec m.toJson) = _
      rw [imported.mutations, Rows.store, Rows.store, List.foldl_append]
      rfl }

/-- One more audit event. -/
theorem appendAuditEvent (imported : Imported legacy applied audit targets t)
    {event : AuditRecord} (appended : t.appendAuditEvent event = .ok t') :
    Imported legacy applied (audit ++ [event]) targets t' := by
  simp only [RedbTables.appendAuditEvent, RedbTables.nextAuditSeq, bind_eq_ok, okOr_eq_ok,
    pure_eq_ok] at appended
  obtain ⟨seq, next, rfl⟩ := appended
  have log := Rows.isLog_insert imported.audit next (Externals.toVec event.toJson)
  exact { imported with audit := by rwa [List.map_append] }

/-- One more target version. -/
theorem putTargetVersion (imported : Imported legacy applied audit targets t)
    (entry : String × UInt64) :
    Imported legacy applied audit (targets ++ [entry])
      (t.putTargetVersion entry.1 entry.2) :=
  { imported with
    targets := by
      show t.targetVersions.insert entry.1 entry.2 = _
      rw [imported.targets, Rows.store, Rows.store, List.foldl_append]
      rfl }

end Imported

end Import

/-! ## State files -/

/-- A state file is determined by its content. -/
theorem PersistedState.toJson_injective {st st' : PersistedState}
    (same : st.toJson = st'.toJson) : st = st' := by
  simp only [PersistedState.toJson, Json.obj.injEq, List.cons.injEq, Prod.mk.injEq, true_and,
    and_true] at same
  obtain ⟨zone, registries, versions⟩ := same
  have sameVersions : ∀ {a b : UInt64}, Json.ofUInt64 a = Json.ofUInt64 b → a = b := by
    intro a b equal
    simpa [Json.ofUInt64] using equal
  cases st
  cases st'
  simp only [PersistedState.mk.injEq]
  exact ⟨RootZone.toJson_injective zone, table_injective Json.str.inj registries,
    table_injective sameVersions versions⟩

/-- The content of a state file is readable. -/
theorem PersistedState.readable {st : PersistedState} (json : st.zone.FromJson) :
    st.toJson.Readable := by
  have registries := readable_table (t := st.registries) fun k bytes found => readable_str bytes
  have versions := readable_table (t := st.targetVersions) fun k n found => readable_ofUInt64 n
  refine readableFields_iff.mpr ?_
  simp [json.readable, registries, versions]

/-! ## Opening what was imported -/

section Opening

variable [Externals] [SerdeLegacy]

/-- What was read from the files of a legacy registry came from JSON. -/
structure LegacyReads : Prop where
  /-- The zone of a state file. -/
  state : ∀ bytes state, SerdeLegacy.persistedState bytes = .ok state → state.zone.FromJson
  /-- A mutation of a log line. -/
  mutation : ∀ bytes m, SerdeJson.appliedMutation bytes = .ok m → m.mutation.FromJson

/-- What a legacy registry that was loaded has passed. -/
structure LegacyJsonState.Loaded (legacy : LegacyJsonState) (key : String) : Prop where
  /-- The zone is valid. -/
  valid : legacy.zone.validate = .ok ()
  /-- The zone is signed by the root key. -/
  verified : legacy.zone.verify key = .ok ()
  /-- The zone came from JSON. -/
  zoneJson : legacy.zone.FromJson
  /-- Every delegated registry is the parse of its bytes and signed by its operator. -/
  registries : ∀ (tld : String) (entry : Bytes × TldRegistry),
    legacy.registries[tld]? = some entry → SerdeDocuments.tldRegistry entry.1 = .ok entry.2 ∧
      ∃ record, legacy.zone.lookupTld tld = some record ∧
        entry.2.verify tld record.operatorPublicKey = .ok ()
  /-- Every mutation came from JSON. -/
  appliedJson : ∀ m ∈ legacy.applied, m.mutation.FromJson

/-- Loading checks the whole state. -/
theorem LegacyFiles.load_loaded (reads : LegacyReads) {files : LegacyFiles} {key : String}
    {legacy : LegacyJsonState} (loads : files.load key = .ok legacy) : legacy.Loaded key := by
  simp only [LegacyFiles.load, bind_eq_ok, serde_eq_ok, exists_unit, pure_eq_ok] at loads
  obtain ⟨bytes, -, state, parsed, valid, verified, registries, loaded, lines, -, applied, read,
    -, -, audit, -, entries, -, rfl⟩ := loads
  have fromJson := reads.state bytes state parsed
  refine ⟨valid, verified, fromJson, ?_, ?_⟩
  · intro tld entry held
    obtain ⟨hexBytes, -, decodes⟩ := Rows.of_load loaded held
    simp only [bind_eq_ok, okOr_eq_ok, serde_eq_ok, exists_unit, pure_eq_ok] at decodes
    obtain ⟨raw, -, registry, parses, record, found, signed, rfl⟩ := decodes
    exact ⟨parses, record, found, signed⟩
  · have pairs := mapM_eq_ok.mp read
    clear read
    show ∀ m ∈ applied, m.mutation.FromJson
    induction pairs with
    | nil => exact fun _ member => absurd member List.not_mem_nil
    | cons here _ ih =>
      intro m member
      rcases List.mem_cons.mp member with rfl | later
      · exact reads.mutation _ _ (mapError_eq_ok.mp here)
      · exact ih m later

/-- The registry that opening a part of a legacy state gives. -/
def LegacyJsonState.openedAs (legacy : LegacyJsonState) (applied : List AppliedMutation)
    (audit : List AuditRecord) (targets : List (String × UInt64)) (t : RedbTables)
    (dir : RegistryDir) : RegistryStore where
  path := dir.path
  database := t
  files := dir.files
  zone := legacy.zone
  registries := legacy.registries
  manifests := dir.files.manifests.filter fun name bytes => hashBytes bytes = name
  targetVersions := Rows.store Prod.fst Prod.snd targets
  applied := Rows.store (fun m : AppliedMutation => m.mutation.mutationId) id applied
  audit

/-- Opening a database that holds a part of a legacy state gives that part. -/
theorem Imported.openDir (trips : SerdeRoundTrips) {legacy : LegacyJsonState} {key : String}
    (loaded : legacy.Loaded key) {applied : List AppliedMutation} {audit : List AuditRecord}
    {targets : List (String × UInt64)} {t : RedbTables}
    (imported : Imported legacy applied audit targets t)
    (appliedJson : ∀ m ∈ applied, m.mutation.FromJson) {dir : RegistryDir}
    (held : dir.database = some t) :
    RegistryStore.openDir dir key = .ok (legacy.openedAs applied audit targets t dir) := by
  have zone := trips.rootZone legacy.zone loaded.zoneJson
  have current : t.currentRootZone =
      .ok (some (legacy.zone.rootVersion, Externals.toVec legacy.zone.toJson)) := by
    simp [RedbTables.currentRootZone, imported.version, imported.zone, okOr, bind, Except.bind,
      pure, Except.pure]
  have registries : loadRegistries legacy.zone t.delegatedRegistries = .ok legacy.registries := by
    rw [imported.registries]
    refine Rows.load_encoded fun tld entry found => ?_
    obtain ⟨parses, record, known, signed⟩ := loaded.registries tld entry found
    simp only [bind_eq_ok, okOr_eq_ok, serde_eq_ok, pure_eq_ok, exists_unit]
    exact ⟨entry.2, parses, record, known, signed, rfl⟩
  have keyed := Rows.keyed_store (fun m : AppliedMutation => m.mutation.mutationId) applied
  have mutations : t.listMutations = .ok (Rows.values
      (Rows.store (fun m : AppliedMutation => m.mutation.mutationId) id applied)) := by
    rw [RedbTables.listMutations, imported.mutations, Rows.store_eq_encoded]
    refine serde_eq_ok.mpr (Rows.readAll_encoded fun other m found => trips.appliedMutation m ?_)
    rw [Rows.store_getElem?, Option.map_id, id] at found
    exact appliedJson m (List.mem_reverse.mp (List.mem_of_find?_eq_some found))
  have events : t.listAuditEvents = .ok audit :=
    serde_eq_ok.mpr <| Rows.readAll_isLog imported.audit fun event _ => trips.auditRecord event
  have applied : Rows.store (fun m : AppliedMutation => m.mutation.mutationId) id (Rows.values
      (Rows.store (fun m : AppliedMutation => m.mutation.mutationId) id applied)) =
      Rows.store (fun m : AppliedMutation => m.mutation.mutationId) id applied := by
    rw [Rows.store_values keyed, Rows.encoded_id]
  simp only [RegistryStore.openDir, bind_eq_ok, serde_eq_ok, okOr_eq_ok, held, Option.some.injEq,
    exists_eq_left', current, Except.ok.injEq, zone, loaded.valid, loaded.verified,
    imported.stateHash, exists_const, registries, mutations, events, pure_eq_ok, rejectIf_eq_ok,
    ne_eq, not_true, not_false_eq_true, true_and, imported.targets, applied,
    LegacyJsonState.openedAs]

end Opening

/-! ## The course of a migration -/

section Course

variable [Externals]

namespace LegacyJsonState

variable (legacy : LegacyJsonState) (io : MigrationIo)

/-- Every older zone version is committed. -/
def ZonesDone : Prop :=
  leading io.zoneVersion legacy.olderZones.length = legacy.olderZones.length

instance : Decidable (legacy.ZonesDone io) := inferInstanceAs (Decidable (_ = _))

/-- The number of mutations that are committed. -/
def mutationsDone : ℕ :=
  if legacy.ZonesDone io then leading io.mutation legacy.applied.length else 0

/-- Every mutation is committed, and what comes before. -/
def MutationsDone : Prop := legacy.ZonesDone io ∧ legacy.mutationsDone io = legacy.applied.length

instance : Decidable (legacy.MutationsDone io) := inferInstanceAs (Decidable (_ ∧ _))

/-- The number of audit events that are committed. -/
def auditDone : ℕ :=
  if legacy.MutationsDone io then leading io.auditEvent legacy.audit.length else 0

/-- Every audit event is committed, and what comes before. -/
def AuditDone : Prop := legacy.MutationsDone io ∧ legacy.auditDone io = legacy.audit.length

instance : Decidable (legacy.AuditDone io) := inferInstanceAs (Decidable (_ ∧ _))

/-- The number of target versions that are committed. -/
def targetsDone : ℕ :=
  if legacy.AuditDone io then leading io.target legacy.targetVersions.toList.length else 0

end LegacyJsonState

omit [Externals] in
/-- Moving the files away changes nothing but whether the state file is there, and ends well when
every move does. -/
theorem exec_backupFiles (files : LegacyFiles) (moved : ℕ → Result Unit) (dir : RegistryDir) :
    ∃ outcome flag, exec (backupFiles files moved) dir =
        (outcome, { dir with files := { dir.files with legacyJson := flag } }) ∧
      ((∀ index, moved index = .ok ()) → ∃ backup, outcome = .ok backup) := by
  by_cases well : ∀ index, moved index = .ok ()
  · refine ⟨.ok (dir.path ++ "/legacy-json-backup"), false, ?_, fun _ => ⟨_, rfl⟩⟩
    simp only [backupFiles, exec_bind, exec_get, exec_lift, well]
    cases files.mutations.isSome <;> cases files.audit.isSome <;> rfl
  · simp only [well, false_implies, and_true, backupFiles, exec_bind, exec_get, exec_lift]
    cases moved 0 with
    | error e => exact ⟨_, dir.files.legacyJson, rfl⟩
    | ok u =>
      cases moved 1 with
      | error e => exact ⟨_, dir.files.legacyJson, rfl⟩
      | ok u =>
        cases files.mutations.isSome <;> cases files.audit.isSome <;> cases moved 2 <;>
          cases moved 3 <;> exact ⟨_, false, rfl⟩

/-- The audit log of a part of a legacy registry has room for one more event. -/
theorem Imported.appendable {legacy : LegacyJsonState} {applied : List AppliedMutation}
    {audit : List AuditRecord} {targets : List (String × UInt64)} {t : RedbTables}
    (imported : Imported legacy applied audit targets t) (room : audit.length < 2 ^ 64)
    (event : AuditRecord) : ∃ t', t.appendAuditEvent event = .ok t' := by
  have below : ∀ number : UInt64, number ∈ t.auditEvents → number.toNat < audit.length := by
    intro number member
    obtain ⟨item, held⟩ := Option.isSome_iff_exists.mp
      (Std.ExtTreeMap.mem_iff_isSome_getElem?.mp member)
    have entry := Std.ExtTreeMap.mem_toList_iff_getElem?_eq_some.mpr held
    rw [imported.audit.2, Rows.numbered, List.mem_map] at entry
    obtain ⟨⟨found, index⟩, within, equal⟩ := entry
    have small : index < audit.length := by
      have bound := List.mem_zipIdx within
      simp only [List.length_map] at bound
      omega
    have position : (UInt64.ofNat index).toNat = index :=
      UInt64.toNat_ofNat_of_lt (Nat.lt_trans small room)
    rw [← (Prod.mk.inj equal).1, position]
    exact small
  obtain ⟨next, numbered⟩ := Rows.exists_nextNumber below room
  refine ⟨{ t with auditEvents := t.auditEvents.insert next (Externals.toVec event.toJson) }, ?_⟩
  simp only [RedbTables.appendAuditEvent, RedbTables.nextAuditSeq, bind_eq_ok, okOr_eq_ok,
    pure_eq_ok]
  exact ⟨next, numbered, rfl⟩

/-- The part of a migration that follows the initial state. -/
def importItems (files : LegacyFiles) (legacy : LegacyJsonState) (io : MigrationIo)
    (dbPath : String) : DirM MigrationReport := do
  transactEach (fun entry t => .ok (t.putRootZoneVersion entry.1 entry.2)) legacy.olderZones
    io.zoneVersion
  transactEach (fun m t => .ok (t.appendMutation m)) legacy.applied io.mutation
  transactEach (fun event t => t.appendAuditEvent event) legacy.audit io.auditEvent
  transactEach (fun entry t => .ok (t.putTargetVersion entry.1 entry.2))
    legacy.targetVersions.toList io.target
  let backup ← backupFiles files io.backup
  return {
    rootVersion := legacy.zone.rootVersion
    tlds := legacy.zone.tlds.size
    domains := legacy.zone.domains.size
    delegatedRegistries := legacy.registries.size
    mutations := legacy.applied.length
    auditEvents := legacy.audit.length
    olderZoneVersions := legacy.snapshotZones.size
    legacyBackup := backup
    database := dbPath }

/-- The part of a migration that follows the loading of the legacy registry. -/
def importLegacy (files : LegacyFiles) (legacy : LegacyJsonState) (io : MigrationIo)
    (dbPath : String) : DirM MigrationReport := do
  io.create
  modify fun dir => { dir with database := some .empty }
  io.ensureTables
  transact (fun t => .ok (t.commitInitial legacy.initialState)) io.initial
  importItems files legacy io dbPath

section Phases

variable {legacy : LegacyJsonState} {dir : RegistryDir} {t : RedbTables}
  {applied : List AppliedMutation} {audit : List AuditRecord}

/-- The older zone versions. -/
theorem importZones (committed : ℕ → Result Unit) (held : dir.database = some t)
    (imported : Imported legacy [] [] [] t) : ∃ n t', Imported legacy [] [] [] t' ∧
      LeavesTables (transactEach (fun entry t => .ok (t.putRootZoneVersion entry.1 entry.2))
        legacy.olderZones committed) dir (n = legacy.olderZones.length) t' ∧
      n = leading committed legacy.olderZones.length := by
  obtain ⟨n, t', inv, leaves, counts⟩ := transactEach_imports
    (fun (entry : UInt64 × Bytes) t => .ok (t.putRootZoneVersion entry.1 entry.2))
    (fun _ t => Imported legacy [] [] [] t) legacy.olderZones (by
      intro done entry member t t' imported written
      obtain rfl := Except.ok.inj written
      have older : entry.1 ≠ legacy.zone.rootVersion := by
        simpa using (List.mem_filter.mp member).2
      exact imported.putRootZoneVersion older entry.2) committed held imported
  exact ⟨n, t', inv, leaves, counts fun _ _ _ _ _ _ => ⟨_, rfl⟩⟩

/-- The mutations. -/
theorem importMutations (committed : ℕ → Result Unit) (held : dir.database = some t)
    (imported : Imported legacy [] [] [] t) :
    ∃ n t', Imported legacy (legacy.applied.take n) [] [] t' ∧
      LeavesTables (transactEach (fun m t => .ok (t.appendMutation m)) legacy.applied committed)
        dir (n = legacy.applied.length) t' ∧ n = leading committed legacy.applied.length := by
  obtain ⟨n, t', inv, leaves, counts⟩ := transactEach_imports
    (fun m t => .ok (t.appendMutation m)) (fun applied t => Imported legacy applied [] [] t)
    legacy.applied (by
      intro done m _ t t' imported written
      obtain rfl := Except.ok.inj written
      exact imported.appendMutation m) committed held imported
  exact ⟨n, t', inv, leaves, counts fun _ _ _ _ _ _ => ⟨_, rfl⟩⟩

/-- The audit events. -/
theorem importAudit (committed : ℕ → Result Unit) (held : dir.database = some t)
    (imported : Imported legacy applied [] [] t) :
    ∃ n t', Imported legacy applied (legacy.audit.take n) [] t' ∧
      LeavesTables (transactEach (fun event t => t.appendAuditEvent event) legacy.audit committed)
        dir (n = legacy.audit.length) t' ∧
      (legacy.audit.length ≤ 2 ^ 64 → n = leading committed legacy.audit.length) := by
  obtain ⟨n, t', inv, leaves, counts⟩ := transactEach_imports
    (fun event t => t.appendAuditEvent event) (fun audit t => Imported legacy applied audit [] t)
    legacy.audit (fun done event _ t t' imported => imported.appendAuditEvent) committed held
    imported
  refine ⟨n, t', inv, leaves, fun bounded => counts ?_⟩
  intro before event after t parts imported
  have room : before.length < 2 ^ 64 := by
    have total := congrArg List.length parts
    rw [List.length_append, List.length_cons] at total
    omega
  exact imported.appendable room event

/-- The target versions. -/
theorem importTargets (committed : ℕ → Result Unit) (held : dir.database = some t)
    (imported : Imported legacy applied audit [] t) :
    ∃ n t', Imported legacy applied audit (legacy.targetVersions.toList.take n) t' ∧
      LeavesTables (transactEach (fun entry t => .ok (t.putTargetVersion entry.1 entry.2))
        legacy.targetVersions.toList committed) dir
        (n = legacy.targetVersions.toList.length) t' ∧
      n = leading committed legacy.targetVersions.toList.length := by
  obtain ⟨n, t', inv, leaves, counts⟩ := transactEach_imports
    (fun (entry : String × UInt64) t => .ok (t.putTargetVersion entry.1 entry.2))
    (fun targets t => Imported legacy applied audit targets t) legacy.targetVersions.toList (by
      intro done entry _ t t' imported written
      obtain rfl := Except.ok.inj written
      exact imported.putTargetVersion entry) committed held imported
  exact ⟨n, t', inv, leaves, counts fun _ _ _ _ _ _ => ⟨_, rfl⟩⟩

/-- What a migration has imported when it ends: first parts of the mutations, the audit events and
the target versions. -/
structure Progress (legacy : LegacyJsonState) (io : MigrationIo) (mutations events targets : ℕ)
    (outcome : Result MigrationReport) (t : RedbTables) : Prop where
  /-- The parts are what the database holds. -/
  imported : Imported legacy (legacy.applied.take mutations) (legacy.audit.take events)
    (legacy.targetVersions.toList.take targets) t
  /-- A migration that returns has imported everything. -/
  whole : ∀ report, outcome = .ok report → mutations = legacy.applied.length ∧
    events = legacy.audit.length ∧ targets = legacy.targetVersions.toList.length
  /-- Each part is what was committed. -/
  counts : legacy.audit.length ≤ 2 ^ 64 → mutations = legacy.mutationsDone io ∧
    events = legacy.auditDone io ∧ targets = legacy.targetsDone io
  /-- A migration that has imported everything and moved the files returns. -/
  returns : legacy.ZonesDone io → mutations = legacy.applied.length →
    events = legacy.audit.length → targets = legacy.targetVersions.toList.length →
    (∀ index, io.backup index = .ok ()) → ∃ report, outcome = .ok report

/-- The directory a migration leaves: other tables, and perhaps without its state file. -/
def RegistryDir.migrated (dir : RegistryDir) (t : RedbTables) (legacyJson : Bool) : RegistryDir :=
  { dir with database := some t, files := { dir.files with legacyJson } }

/-- The part of a migration that follows the initial state ends with some progress. -/
theorem importItems_progress (files : LegacyFiles) (io : MigrationIo) (dbPath : String)
    (held : dir.database = some t) (imported : Imported legacy [] [] [] t) :
    ∃ outcome t' flag mutations events targets,
      exec (importItems files legacy io dbPath) dir = (outcome, dir.migrated t' flag) ∧
      Progress legacy io mutations events targets outcome t' := by
  obtain ⟨zones, t₁, inv₁, leaves₁, zonesCount⟩ := importZones io.zoneVersion held imported
  rcases leaves₁ with ⟨whole₁, returns₁⟩ | ⟨part₁, e, fails₁⟩
  · have zonesDone : legacy.ZonesDone io := zonesCount.symm.trans whole₁
    have held₁ : ({ dir with database := some t₁ } : RegistryDir).database = some t₁ := rfl
    obtain ⟨mutations, t₂, inv₂, leaves₂, mutationsCount⟩ :=
      importMutations io.mutation held₁ inv₁
    have mutationsDone : mutations = legacy.mutationsDone io := by
      rw [mutationsCount, LegacyJsonState.mutationsDone, if_pos zonesDone]
    rcases leaves₂ with ⟨whole₂, returns₂⟩ | ⟨part₂, e, fails₂⟩
    · have allMutations : legacy.MutationsDone io :=
        ⟨zonesDone, mutationsDone.symm.trans whole₂⟩
      have held₂ : ({ dir with database := some t₂ } : RegistryDir).database = some t₂ := rfl
      obtain ⟨events, t₃, inv₃, leaves₃, eventsCount⟩ := importAudit io.auditEvent held₂ inv₂
      have eventsDone : legacy.audit.length ≤ 2 ^ 64 → events = legacy.auditDone io := by
        intro bounded
        rw [eventsCount bounded, LegacyJsonState.auditDone, if_pos allMutations]
      rcases leaves₃ with ⟨whole₃, returns₃⟩ | ⟨part₃, e, fails₃⟩
      · have held₃ : ({ dir with database := some t₃ } : RegistryDir).database = some t₃ := rfl
        obtain ⟨targets, t₄, inv₄, leaves₄, targetsCount⟩ := importTargets io.target held₃ inv₃
        have targetsDone : legacy.audit.length ≤ 2 ^ 64 → targets = legacy.targetsDone io := by
          intro bounded
          have allEvents : legacy.AuditDone io :=
            ⟨allMutations, (eventsDone bounded).symm.trans whole₃⟩
          rw [targetsCount, LegacyJsonState.targetsDone, if_pos allEvents]
        rcases leaves₄ with ⟨whole₄, returns₄⟩ | ⟨part₄, e, fails₄⟩
        · obtain ⟨moved, flag, backs, well⟩ := exec_backupFiles files io.backup
            { dir with database := some t₄ }
          have left : (exec (importItems files legacy io dbPath) dir).2 =
                dir.migrated t₄ flag ∧ ((∃ backup, moved = .ok backup) →
                ∃ report, (exec (importItems files legacy io dbPath) dir).1 = .ok report) := by
            rw [importItems, exec_bind_ok returns₁, exec_bind_ok returns₂, exec_bind_ok returns₃,
              exec_bind_ok returns₄]
            cases moved with
            | error e =>
              rw [exec_bind_error backs]
              exact ⟨rfl, by simp⟩
            | ok backup =>
              rw [exec_bind_ok backs, exec_pure]
              exact ⟨rfl, fun _ => ⟨_, rfl⟩⟩
          exact ⟨_, t₄, flag, mutations, events, targets, Prod.ext rfl left.1, inv₄,
            fun _ _ => ⟨whole₂, whole₃, whole₄⟩,
            fun bounded => ⟨mutationsDone, eventsDone bounded, targetsDone bounded⟩,
            fun _ _ _ _ moves => left.2 (well moves)⟩
        · refine ⟨.error e, t₄, dir.files.legacyJson, mutations, events, targets, ?_, inv₄,
            by simp, fun bounded => ⟨mutationsDone, eventsDone bounded, targetsDone bounded⟩,
            fun _ _ _ whole => absurd whole part₄⟩
          rw [importItems, exec_bind_ok returns₁, exec_bind_ok returns₂, exec_bind_ok returns₃,
            exec_bind_error fails₄]
          rfl
      · refine ⟨.error e, t₃, dir.files.legacyJson, mutations, events, 0, ?_,
          by simpa using inv₃, by simp, fun bounded => ⟨mutationsDone, eventsDone bounded, ?_⟩,
          fun _ _ whole => absurd whole part₃⟩
        · rw [importItems, exec_bind_ok returns₁, exec_bind_ok returns₂, exec_bind_error fails₃]
          rfl
        · have unfinished₃ : ¬legacy.AuditDone io := fun done =>
            part₃ ((eventsDone bounded).trans done.2)
          rw [LegacyJsonState.targetsDone, if_neg unfinished₃]
    · have unfinished₂ : ¬legacy.MutationsDone io := fun done => part₂ (mutationsDone.trans done.2)
      refine ⟨.error e, t₂, dir.files.legacyJson, mutations, 0, 0, ?_, by simpa using inv₂,
        by simp, fun _ => ⟨mutationsDone, ?_, ?_⟩, fun _ whole => absurd whole part₂⟩
      · rw [importItems, exec_bind_ok returns₁, exec_bind_error fails₂]
        rfl
      · rw [LegacyJsonState.auditDone, if_neg unfinished₂]
      · rw [LegacyJsonState.targetsDone, if_neg fun done => unfinished₂ done.1]
  · have unfinished₁ : ¬legacy.ZonesDone io := fun done => part₁ (zonesCount.trans done)
    refine ⟨.error e, t₁, dir.files.legacyJson, 0, 0, 0, ?_, by simpa using inv₁, by simp,
      fun _ => ⟨?_, ?_, ?_⟩, fun done => absurd done unfinished₁⟩
    · rw [importItems, exec_bind_error fails₁]
      rfl
    · rw [LegacyJsonState.mutationsDone, if_neg unfinished₁]
    · rw [LegacyJsonState.auditDone, if_neg fun done => unfinished₁ done.1]
    · rw [LegacyJsonState.targetsDone, if_neg fun done => unfinished₁ done.1.1]

end Phases

end Course

/-! ## Whole migrations -/

section Migrations

variable [Externals] [SerdeLegacy] {files : LegacyFiles} {key : String} {io : MigrationIo}
  {dir : RegistryDir} {legacy : LegacyJsonState}

/-- A migration begins where there is no database and a state file, and the legacy registry
loads. -/
structure MigrationBegins (files : LegacyFiles) (key : String) (dir : RegistryDir)
    (legacy : LegacyJsonState) : Prop where
  /-- There is no database. -/
  fresh : dir.database = none
  /-- There is a state file. -/
  present : dir.files.legacyJson = true
  /-- The legacy registry loads. -/
  loads : files.load key = .ok legacy

/-- A migration that begins creates the database first. -/
theorem MigrationBegins.exec_migrate (begins : MigrationBegins files key dir legacy) :
    exec (migrateJsonToRedb files key io) dir =
      exec (importLegacy files legacy io dir.dbPath) dir := by
  have absent : ¬dir.database.isSome = true := by simp [begins.fresh]
  have present : ¬dir.files.legacyJson = false := by simp [begins.present]
  rw [migrateJsonToRedb, exec_bind, exec_get]
  simp only
  rw [exec_bind, exec_lift, rejectIf, if_neg absent]
  simp only
  rw [exec_bind, exec_lift, rejectIf, if_neg present]
  simp only
  rw [exec_bind, exec_lift, begins.loads]
  rfl

/-- A migration whose database cannot be created leaves the directory as it was. -/
theorem MigrationBegins.uncreated (begins : MigrationBegins files key dir legacy)
    {e : FederateError} (failed : io.create = .error e) :
    exec (migrateJsonToRedb files key io) dir = (.error e, dir) := by
  rw [begins.exec_migrate, importLegacy, exec_bind, exec_lift, failed]

/-- A migration that stops before the initial state is committed leaves an empty database. -/
theorem MigrationBegins.emptied (begins : MigrationBegins files key dir legacy)
    (created : io.create = .ok ())
    (failed : ¬(io.ensureTables = .ok () ∧ io.initial = .ok ())) : ∃ e,
    exec (migrateJsonToRedb files key io) dir =
      (.error e, { dir with database := some .empty }) := by
  rw [begins.exec_migrate, importLegacy, exec_bind, exec_lift, created]
  simp only
  rw [exec_bind, exec_modify]
  simp only
  rw [exec_bind, exec_lift]
  cases tables : io.ensureTables with
  | error e => exact ⟨e, rfl⟩
  | ok u =>
    cases initial : io.initial with
    | ok u => exact absurd ⟨tables, initial⟩ failed
    | error e =>
      refine ⟨e, ?_⟩
      simp only
      rw [exec_bind, exec_transact]

/-- A migration that commits the initial state ends with some progress. -/
theorem MigrationBegins.progress (begins : MigrationBegins files key dir legacy)
    (created : io.create = .ok ()) (tables : io.ensureTables = .ok ()) (initial : io.initial = .ok ()) :
    ∃ outcome t flag mutations events targets,
      exec (migrateJsonToRedb files key io) dir = (outcome, dir.migrated t flag) ∧
      Progress legacy io mutations events targets outcome t := by
  have held : ({ dir with database := some (RedbTables.empty.commitInitial
      legacy.initialState) } : RegistryDir).database =
      some (RedbTables.empty.commitInitial legacy.initialState) := rfl
  obtain ⟨outcome, t, flag, mutations, events, targets, ends, progress⟩ :=
    importItems_progress files io dir.dbPath held (Imported.initial legacy)
  refine ⟨outcome, t, flag, mutations, events, targets, ?_, progress⟩
  rw [begins.exec_migrate, importLegacy, exec_bind, exec_lift, created]
  simp only
  rw [exec_bind, exec_modify]
  simp only
  rw [exec_bind, exec_lift, tables]
  simp only
  rw [exec_bind, exec_transact, initial]
  exact ends

/-- A migration that returns began. -/
theorem begins_of_migrate {report : MigrationReport} {dir' : RegistryDir}
    (returned : exec (migrateJsonToRedb files key io) dir = (.ok report, dir')) :
    ∃ legacy, MigrationBegins files key dir legacy := by
  rw [migrateJsonToRedb, exec_bind, exec_get] at returned
  simp only at returned
  rw [exec_bind_eq_ok] at returned
  obtain ⟨⟨⟩, s₁, absent, returned⟩ := returned
  rw [exec_lift, Prod.mk.injEq, rejectIf_eq_ok] at absent
  obtain ⟨absent, rfl⟩ := absent
  rw [exec_bind_eq_ok] at returned
  obtain ⟨⟨⟩, s₁, present, returned⟩ := returned
  rw [exec_lift, Prod.mk.injEq, rejectIf_eq_ok] at present
  obtain ⟨present, rfl⟩ := present
  rw [exec_bind_eq_ok] at returned
  obtain ⟨legacy, s₁, loads, -⟩ := returned
  rw [exec_lift, Prod.mk.injEq] at loads
  exact ⟨legacy, by simpa using absent, by simpa using present, loads.1⟩

/-- A directory with a database is not migrated. -/
theorem migrate_refused {t : RedbTables} (held : dir.database = some t) :
    ∃ e, exec (migrateJsonToRedb files key io) dir = (.error e, dir) := by
  have present : dir.database.isSome = true := by simp [held]
  rw [migrateJsonToRedb, exec_bind, exec_get]
  simp only
  rw [exec_bind, exec_lift, rejectIf, if_pos present]
  exact ⟨_, rfl⟩

/-- A store that lists a mutation as accepted, or its target at its version or later, rejects
it. -/
theorem apply_rejects {s : RegistryStore} {req : MutationRequest} (ctx : MutationContext)
    (clock : DateTime) (storage : StorageIo) (replayed : req.mutationId ∈ s.applied ∨
      req.targetVersion ≤ s.targetVersion req.action.targetKey) :
    ∃ e, exec (RegistryStore.apply req ctx clock storage) s = (.error e, s) := by
  cases checked : s.prepare req ctx clock with
  | ok p =>
    obtain ⟨-, -, fresh, advances, -⟩ := prepare_eq_ok.mp checked
    rcases replayed with known | behind
    · exact absurd known fresh
    · exact absurd advances (UInt64.not_lt.mpr behind)
  | error e =>
    refine ⟨e, ?_⟩
    rw [RegistryStore.apply, exec_bind, exec_get]
    simp only
    rw [exec_bind, exec_lift, checked]

/-- For every legacy registry that loads, with distinct mutation ids: when its migration returns,
the directory opens as a registry with the same zone, delegated registries, target versions,
accepted mutations and audit log, which rejects every mutation that was accepted and every version
that a target already had. -/
theorem migration_lossless (trips : SerdeRoundTrips) (reads : LegacyReads)
    (loads : files.load key = .ok legacy)
    (distinct : legacy.applied.Pairwise fun m m' => m.mutation.mutationId ≠ m'.mutation.mutationId)
    {report : MigrationReport} {dir' : RegistryDir}
    (returned : exec (migrateJsonToRedb files key io) dir = (.ok report, dir')) :
    ∃ opened, RegistryStore.openDir dir' key = .ok opened ∧ opened.zone = legacy.zone ∧
      opened.registries = legacy.registries ∧ opened.targetVersions = legacy.targetVersions ∧
      (∀ (id : String) (m : AppliedMutation), opened.applied[id]? = some m ↔
        m ∈ legacy.applied ∧ m.mutation.mutationId = id) ∧
      opened.audit = legacy.audit ∧
      ∀ req ctx clock storage, (∃ m ∈ legacy.applied, m.mutation.mutationId = req.mutationId) ∨
          req.targetVersion ≤ legacy.targetVersions[req.action.targetKey]?.getD 0 →
        ∃ e, exec (RegistryStore.apply req ctx clock storage) opened = (.error e, opened) := by
  obtain ⟨legacy', begins⟩ := begins_of_migrate returned
  obtain rfl : legacy = legacy' := Except.ok.inj (loads.symm.trans begins.loads)
  have loaded := LegacyFiles.load_loaded reads loads
  have created : io.create = .ok () := by
    cases outcome : io.create with
    | ok u => rfl
    | error e =>
      rw [begins.uncreated outcome] at returned
      simp at returned
  have committed : io.ensureTables = .ok () ∧ io.initial = .ok () := by
    by_contra failed
    obtain ⟨e, fails⟩ := begins.emptied created failed
    rw [fails] at returned
    simp at returned
  obtain ⟨outcome, t, flag, mutations, events, targets, ends, progress⟩ :=
    begins.progress created committed.1 committed.2
  rw [ends, Prod.mk.injEq] at returned
  obtain ⟨ended, rfl⟩ := returned
  obtain ⟨allMutations, allEvents, allTargets⟩ := progress.whole report ended
  have imported := progress.imported
  rw [allMutations, allEvents, allTargets, List.take_length, List.take_length,
    List.take_length] at imported
  have opens := imported.openDir trips loaded loaded.appliedJson
    (show (dir.migrated t flag).database = some t from rfl)
  have versions : Rows.store Prod.fst Prod.snd legacy.targetVersions.toList =
      legacy.targetVersions := Rows.store_toList legacy.targetVersions
  refine ⟨_, opens, rfl, rfl, versions, fun id m => Rows.store_eq_some distinct, rfl, ?_⟩
  intro req ctx clock storage replayed
  refine apply_rejects ctx clock storage ?_
  rcases replayed with known | behind
  · exact .inl (Rows.mem_store.mpr known)
  · refine .inr ?_
    show req.targetVersion ≤ (Rows.store Prod.fst Prod.snd
      legacy.targetVersions.toList)[req.action.targetKey]?.getD 0
    rwa [versions]

/-! ### Where a migration may stop -/

/-- The directory cannot be opened and the migration can be done from there, or it opens with the
accepted mutations, the audit log and the target versions of the whole legacy registry. -/
def AllOrNothing (files : LegacyFiles) (key : String) (legacy : LegacyJsonState)
    (dir : RegistryDir) : Prop :=
  ((∃ e, RegistryStore.openDir dir key = .error e) ∧
      ∃ io report dir', exec (migrateJsonToRedb files key io) dir = (.ok report, dir')) ∨
    ∃ opened, RegistryStore.openDir dir key = .ok opened ∧
      opened.applied =
        Rows.store (fun m : AppliedMutation => m.mutation.mutationId) id legacy.applied ∧
      opened.audit = legacy.audit ∧ opened.targetVersions = legacy.targetVersions

/-- A migration stops before it creates the database, or after the transactions that complete the
mutations, the audit log and the target versions. -/
def LegacyJsonState.StopsWhole (legacy : LegacyJsonState) (io : MigrationIo) : Prop :=
  (∃ e, io.create = .error e) ∨
    io.ensureTables = .ok () ∧ io.initial = .ok () ∧
      Rows.store (fun m : AppliedMutation => m.mutation.mutationId) id
          (legacy.applied.take (legacy.mutationsDone io)) =
        Rows.store (fun m : AppliedMutation => m.mutation.mutationId) id legacy.applied ∧
      legacy.auditDone io = legacy.audit.length ∧
      legacy.targetsDone io = legacy.targetVersions.toList.length

omit [Externals] [SerdeLegacy] in
/-- Everything is committed when every storage operation succeeds. -/
theorem LegacyJsonState.done_ok (legacy : LegacyJsonState) : legacy.ZonesDone .ok ∧
    legacy.mutationsDone .ok = legacy.applied.length ∧
    legacy.auditDone .ok = legacy.audit.length ∧
    legacy.targetsDone .ok = legacy.targetVersions.toList.length := by
  have zones : legacy.ZonesDone .ok := leading_ok _
  have mutations : legacy.mutationsDone .ok = legacy.applied.length := by
    rw [mutationsDone, if_pos zones]
    exact leading_ok _
  have allMutations : legacy.MutationsDone .ok := ⟨zones, mutations⟩
  have events : legacy.auditDone .ok = legacy.audit.length := by
    rw [auditDone, if_pos allMutations]
    exact leading_ok _
  have allEvents : legacy.AuditDone .ok := ⟨allMutations, events⟩
  have targets : legacy.targetsDone .ok = legacy.targetVersions.toList.length := by
    rw [targetsDone, if_pos allEvents]
    exact leading_ok _
  exact ⟨zones, mutations, events, targets⟩

/-- A migration that begins returns when every storage operation succeeds. -/
theorem MigrationBegins.completes (begins : MigrationBegins files key dir legacy)
    (bounded : legacy.audit.length ≤ 2 ^ 64) :
    ∃ report dir', exec (migrateJsonToRedb files key .ok) dir = (.ok report, dir') := by
  obtain ⟨outcome, t, flag, mutations, events, targets, ends, progress⟩ :=
    begins.progress (show MigrationIo.ok.create = .ok () from rfl) rfl rfl
  obtain ⟨mutationsCount, eventsCount, targetsCount⟩ := progress.counts bounded
  obtain ⟨zones, mutationsDone, auditDone, targetsDone⟩ := legacy.done_ok
  obtain ⟨report, rfl⟩ := progress.returns zones (mutationsCount.trans mutationsDone)
    (eventsCount.trans auditDone) (targetsCount.trans targetsDone) fun _ => rfl
  exact ⟨report, _, ends⟩

omit [SerdeLegacy] in
/-- A directory without a database, or with an empty one, does not open. -/
theorem openDir_empty [SerdeJson] (empty : dir.database = none ∨ dir.database = some .empty) :
    ∃ e, RegistryStore.openDir dir key = .error e := by
  cases opened : RegistryStore.openDir dir key with
  | error e => exact ⟨e, rfl⟩
  | ok s =>
    simp only [RegistryStore.openDir, bind_eq_ok, okOr_eq_ok] at opened
    obtain ⟨t, held, current, read, found, present, -⟩ := opened
    rcases empty with none | some
    · simp [none] at held
    · rw [some, Option.some.injEq] at held
      rw [← held] at read
      have nothing : RedbTables.empty.currentRootZone = .ok none := by
        simp [RedbTables.currentRootZone, RedbTables.empty]
      rw [nothing, Except.ok.injEq] at read
      rw [← read] at present
      cases present

/-- A migration that commits the initial state leaves a directory that opens as the parts that were
committed. -/
theorem MigrationBegins.opensPart (trips : SerdeRoundTrips) (reads : LegacyReads)
    (begins : MigrationBegins files key dir legacy) (bounded : legacy.audit.length ≤ 2 ^ 64)
    (created : io.create = .ok ()) (tables : io.ensureTables = .ok ())
    (initial : io.initial = .ok ()) :
    ∃ t flag, (exec (migrateJsonToRedb files key io) dir).2 = dir.migrated t flag ∧
      RegistryStore.openDir (dir.migrated t flag) key = .ok (legacy.openedAs
        (legacy.applied.take (legacy.mutationsDone io)) (legacy.audit.take (legacy.auditDone io))
        (legacy.targetVersions.toList.take (legacy.targetsDone io)) t (dir.migrated t flag)) := by
  have loaded := LegacyFiles.load_loaded reads begins.loads
  obtain ⟨outcome, t, flag, mutations, events, targets, ends, progress⟩ :=
    begins.progress created tables initial
  obtain ⟨rfl, rfl, rfl⟩ := progress.counts bounded
  have held : (dir.migrated t flag).database = some t := rfl
  have opens := progress.imported.openDir trips loaded
    (fun m member => loaded.appliedJson m (List.mem_of_mem_take member)) held
  exact ⟨t, flag, by rw [ends], opens⟩

/-- A migration of which no target version is committed leaves a registry that opens without any,
and is not all or nothing when the legacy registry has some. -/
theorem MigrationBegins.losesVersions (trips : SerdeRoundTrips) (reads : LegacyReads)
    (begins : MigrationBegins files key dir legacy) (bounded : legacy.audit.length ≤ 2 ^ 64)
    (created : io.create = .ok ()) (tables : io.ensureTables = .ok ())
    (initial : io.initial = .ok ()) {e : FederateError} (stopped : io.target 0 = .error e)
    (versions : legacy.targetVersions ≠ ∅) :
    ¬AllOrNothing files key legacy (exec (migrateJsonToRedb files key io) dir).2 := by
  have nothing : legacy.targetsDone io = 0 := by
    unfold LegacyJsonState.targetsDone
    split
    · cases legacy.targetVersions.toList.length with
      | zero => rfl
      | succ n => simp [leading, stopped]
    · rfl
  obtain ⟨t, flag, left, opens⟩ := begins.opensPart trips reads bounded created tables initial
  rw [left]
  intro whole
  rcases whole with ⟨⟨e, unopened⟩, -⟩ | ⟨opened, opened', -, -, kept⟩
  · rw [opens] at unopened
    cases unopened
  · rw [opens, Except.ok.injEq] at opened'
    subst opened'
    have none : Rows.store Prod.fst Prod.snd (legacy.targetVersions.toList.take
        (legacy.targetsDone io)) = legacy.targetVersions := kept
    rw [nothing, List.take_zero] at none
    exact versions none.symm

/-- For every legacy registry that loads and every point where its migration fails or is stopped:
what it leaves is all or nothing if and only if it stops before it creates the database, or after
the transactions that complete the mutations, the audit log and the target versions. -/
theorem migration_atomic_iff (trips : SerdeRoundTrips) (reads : LegacyReads)
    (begins : MigrationBegins files key dir legacy) (bounded : legacy.audit.length ≤ 2 ^ 64) :
    AllOrNothing files key legacy (exec (migrateJsonToRedb files key io) dir).2 ↔
      legacy.StopsWhole io := by
  cases created : io.create with
  | error e =>
    rw [begins.uncreated created]
    have unopened : ∃ e, RegistryStore.openDir dir key = .error e :=
      openDir_empty (.inl begins.fresh)
    exact ⟨fun _ => .inl ⟨e, created⟩, fun _ => .inl ⟨unopened, .ok, begins.completes bounded⟩⟩
  | ok u =>
    have uncreated : ¬∃ e, io.create = .error e := by simp [created]
    by_cases committed : io.ensureTables = .ok () ∧ io.initial = .ok ()
    · obtain ⟨t, flag, left, opens⟩ :=
        begins.opensPart trips reads bounded created committed.1 committed.2
      rw [left]
      constructor
      · intro whole
        rcases whole with ⟨⟨e, unopened⟩, -⟩ | ⟨opened, opened', applied, audit, versions⟩
        · rw [opens] at unopened
          cases unopened
        · rw [opens, Except.ok.injEq] at opened'
          subst opened'
          have eventsBound : legacy.auditDone io ≤ legacy.audit.length := by
            unfold LegacyJsonState.auditDone
            split
            · exact leading_le _ _
            · exact Nat.zero_le _
          have targetsBound : legacy.targetsDone io ≤ legacy.targetVersions.toList.length := by
            unfold LegacyJsonState.targetsDone
            split
            · exact leading_le _ _
            · exact Nat.zero_le _
          have events : legacy.auditDone io = legacy.audit.length := by
            have taken := congrArg List.length audit
            simp only [LegacyJsonState.openedAs, List.length_take] at taken
            omega
          have targets := take_complete versions
          exact .inr ⟨committed.1, committed.2, applied, events, by omega⟩
      · intro stops
        rcases stops with absent | ⟨-, -, applied, events, targets⟩
        · exact absurd absent uncreated
        · refine .inr ⟨_, opens, applied, ?_, ?_⟩
          · show legacy.audit.take (legacy.auditDone io) = legacy.audit
            rw [events, List.take_length]
          · show Rows.store Prod.fst Prod.snd (legacy.targetVersions.toList.take
              (legacy.targetsDone io)) = legacy.targetVersions
            rw [targets, List.take_length]
            exact Rows.store_toList _
    · obtain ⟨e, ends⟩ := begins.emptied created committed
      have unopened : ∃ e, RegistryStore.openDir { dir with database := some .empty } key =
          .error e := openDir_empty (.inr rfl)
      have refused : ∀ io', ∃ e, exec (migrateJsonToRedb files key io')
          { dir with database := some .empty } =
            (.error e, { dir with database := some .empty }) := fun io' => migrate_refused rfl
      rw [ends]
      constructor
      · intro whole
        rcases whole with ⟨-, io', report, dir', again⟩ | ⟨opened, opened', -⟩
        · obtain ⟨e', fails⟩ := refused io'
          simp [fails] at again
        · obtain ⟨e', fails⟩ := unopened
          rw [fails] at opened'
          cases opened'
      · intro stops
        rcases stops with absent | ⟨tables, initial, -⟩
        · exact absurd absent uncreated
        · exact absurd ⟨tables, initial⟩ committed

end Migrations

end Federate

namespace Federate.Reference

open Json Outcome Stateful

noncomputable scoped instance : SerdeLegacy where
  persistedState := read (fun st => st.zone.FromJson) PersistedState.toJson

/-- The reference readers give what came from JSON. -/
theorem legacyReads : LegacyReads where
  state _ _ reads := (read_known reads).1
  mutation _ _ reads := (read_known reads).1

/-! ## A legacy registry with one target version -/

/-- The content of its state file. -/
def legacyState : PersistedState where
  zone := start.zone
  registries := ∅
  targetVersions := (∅ : Table String UInt64).insert "tld:foo" 7

/-- Its files: the state file alone. -/
def legacyFiles : LegacyFiles := ⟨.ok (compact legacyState.toJson), none, none, .ok []⟩

/-- Its directory. -/
def legacyDir : RegistryDir := ⟨"node", none, ⟨∅, ∅, ∅, true⟩⟩

/-- What it loads as. -/
def legacy : LegacyJsonState := ⟨legacyState.zone, ∅, legacyState.targetVersions, [], [], ∅⟩

/-- A state file without delegated registries loads as it is. -/
theorem load_plain {st : PersistedState} {key : String} (json : st.zone.FromJson)
    (valid : st.zone.validate = .ok ()) (verified : st.zone.verify key = .ok ())
    (empty : st.registries = ∅) :
    LegacyFiles.load ⟨.ok (compact st.toJson), none, none, .ok []⟩ key =
      .ok ⟨st.zone, ∅, st.targetVersions, [], [], ∅⟩ := by
  have parsed : SerdeLegacy.persistedState (compact st.toJson) = .ok st :=
    read_compact (fun _ => PersistedState.readable) (fun _ _ => PersistedState.toJson_injective)
      json
  have registries : Rows.load (fun (tld : String) hexBytes => (do
      let raw ← okOr (Hex.decode hexBytes)
        (.invalidRoot s!"persisted .{tld} registry is not hex")
      let parsed ← serde (SerdeDocuments.tldRegistry raw)
      let record ← okOr (st.zone.lookupTld tld)
        (.invalidRoot s!"persisted registry for .{tld} has no TLD record in the zone")
      parsed.verify tld record.operatorPublicKey
      return (raw, parsed) : Result (Bytes × TldRegistry))) st.registries = .ok ∅ := by
    rw [empty]
    rfl
  simp only [LegacyFiles.load, bind_eq_ok, serde_eq_ok, exists_unit, pure_eq_ok]
  exact ⟨_, rfl, st, parsed, valid, verified, ∅, registries, [], rfl, [], rfl, [], rfl, [], rfl, [],
    rfl, rfl⟩

theorem legacy_begins : MigrationBegins legacyFiles authority.root.nodeId legacyDir legacy := by
  have reachable : authority.Reachable start := ⟨start, [], genesis, rfl⟩
  have json : start.zone.FromJson := by
    constructor
    · intro k r found
      simp [stage_start.tlds] at found
    · intro k r found
      simp [stage_start.domains] at found
  exact ⟨rfl, rfl, load_plain json reachable.valid reachable.verified.2.2 rfl⟩

/-- The migration of the legacy registry returns, and its target version is there. -/
theorem legacy_migrates : ∃ report dir' opened,
    exec (migrateJsonToRedb legacyFiles authority.root.nodeId .ok) legacyDir =
      (.ok report, dir') ∧ RegistryStore.openDir dir' authority.root.nodeId = .ok opened ∧
      opened.zone = start.zone ∧ opened.targetVersions = legacyState.targetVersions := by
  obtain ⟨report, dir', returned⟩ := legacy_begins.completes (show 0 ≤ 2 ^ 64 by decide)
  obtain ⟨opened, opens, zone, -, versions, -⟩ := migration_lossless serdeRoundTrips legacyReads
    legacy_begins.loads List.Pairwise.nil returned
  exact ⟨report, dir', opened, returned, opens, zone, versions⟩

/-- A migration of the legacy registry that stops before its target version is committed leaves a
registry that opens without it. -/
theorem legacy_losesVersion : ¬AllOrNothing legacyFiles authority.root.nodeId legacy
    (exec (migrateJsonToRedb legacyFiles authority.root.nodeId
      { MigrationIo.ok with target := fun _ => .error (.storage "no space left") })
      legacyDir).2 := by
  have bounded : legacy.audit.length ≤ 2 ^ 64 := by decide
  have versions : legacy.targetVersions ≠ ∅ := by
    intro none
    have found : legacy.targetVersions["tld:foo"]? = some 7 :=
      Std.ExtTreeMap.getElem?_insert_self
    simp [none] at found
  exact legacy_begins.losesVersions serdeRoundTrips legacyReads bounded rfl rfl rfl rfl versions

/-- The migration of the legacy registry is all or nothing when every operation succeeds. -/
theorem legacy_allOrNothing : AllOrNothing legacyFiles authority.root.nodeId legacy
    (exec (migrateJsonToRedb legacyFiles authority.root.nodeId .ok) legacyDir).2 := by
  obtain ⟨-, mutations, events, targets⟩ := legacy.done_ok
  have bounded : legacy.audit.length ≤ 2 ^ 64 := by decide
  refine (migration_atomic_iff serdeRoundTrips legacyReads legacy_begins bounded).mpr ?_
  exact .inr ⟨rfl, rfl, by rw [mutations, List.take_length], events, targets⟩

end Federate.Reference
