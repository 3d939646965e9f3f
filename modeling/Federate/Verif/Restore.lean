import Federate.Mutation.Restore
import Federate.Verif.Restart

/-!
# Restoring a backup

The backup is copied over the database before it is opened and checked. A restore that fails has
therefore left the database in place exactly when it was refused before the copy, when the copy
left the content there was, or when it would not have failed: the backup passes all checks.
-/

namespace Federate

open Outcome Stateful RegistryStore

variable [Externals] [SerdeJson]

namespace RegistryHost

/-- The directory opens and passes its self-check. -/
def Sound (host : RegistryHost) (expectedRootKey : String) : Prop :=
  ∃ store report, host.openStore expectedRootKey = .ok store ∧
    store.verifyAll expectedRootKey = .ok report

/-- Nothing else is written over the database than what may stay: a restore without `force` is
refused, one that cannot create the directory or read the backup stops before, an interrupted copy
left the old content, and a complete one the old content or a sound database. -/
def Harmless (host : RegistryHost) (old input : DatabaseFile) (expectedRootKey : String)
    (force : Bool) (io : RestoreIo) : Prop :=
  force = false ∨ (∃ e, io.directory = .error e) ∨
    match io.copy with
    | .unread _ => True
    | .interrupted left _ => left = old
    | .copied => input = old ∨ (host.holding input).Sound expectedRootKey

/-- A restore without `force` is refused where a database exists. -/
theorem restoreRegistry_refused (host : RegistryHost) (old input : DatabaseFile) (key : String)
    (io : RestoreIo) : ∃ e, exec (restoreRegistry input key false io) (host.holding old) =
      (.error e, host.holding old) := by
  refine ⟨.storage
    s!"{host.dbPath} already exists; pass --force to replace it with the backup", ?_⟩
  simp only [restoreRegistry, exec_bind, exec_get, exec_lift, rejectIf, holding]
  rfl

/-- A forced restore is the copy, followed by the checks of the content it left. -/
theorem restoreRegistry_forced (host : RegistryHost) (input : DatabaseFile) (key : String)
    {io : RestoreIo} (created : io.directory = .ok ()) :
    exec (restoreRegistry input key true io) host =
      exec (do
        copyOver input io.copy
        let host ← get
        let store ← host.openStore key
        let report ← store.verifyAll key
        return ⟨host.dbPath, report⟩) host := by
  simp only [restoreRegistry, exec_bind, exec_get, exec_lift, rejectIf, created,
    Bool.true_eq_false, and_false, if_false]

/-- After a complete copy the restore fails exactly where the backup is not sound, and leaves the
backup in place. -/
theorem restoreRegistry_copied (host : RegistryHost) (input : DatabaseFile) (key : String)
    {io : RestoreIo} (created : io.directory = .ok ()) (copied : io.copy = .copied) :
    (exec (restoreRegistry input key true io) host).2 = host.holding input ∧
      ((∃ e, (exec (restoreRegistry input key true io) host).1 = .error e) ↔
        ¬(host.holding input).Sound key) := by
  rw [restoreRegistry_forced host input key created, copied]
  simp only [copyOver, exec_bind, exec_modify, exec_get, exec_lift, Sound]
  cases opened : (host.holding input).openStore key with
  | error e => simp
  | ok store =>
    cases checked : store.verifyAll key with
    | error e => simp [checked]
    | ok report => simp [checked]

/-- For every directory with a database, every backup and every course of the file operations: a
failed restore leaves the database as it was if and only if nothing was written over it that may
not stay. -/
theorem restore_atomic_iff (host : RegistryHost) (old input : DatabaseFile)
    (expectedRootKey : String) (force : Bool) (io : RestoreIo) :
    ((∃ e, (exec (restoreRegistry input expectedRootKey force io) (host.holding old)).1 =
        .error e) →
      (exec (restoreRegistry input expectedRootKey force io) (host.holding old)).2.database =
        some old) ↔
      host.Harmless old input expectedRootKey force io := by
  cases force with
  | false =>
    obtain ⟨e, refused⟩ := restoreRegistry_refused host old input expectedRootKey io
    rw [refused]
    exact ⟨fun _ => .inl rfl, fun _ _ => rfl⟩
  | true =>
    cases created : io.directory with
    | error e =>
      have stopped : exec (restoreRegistry input expectedRootKey true io) (host.holding old) =
          (.error e, host.holding old) := by
        simp only [restoreRegistry, exec_bind, exec_get, exec_lift, rejectIf, created,
          Bool.true_eq_false, and_false, if_false]
      rw [stopped]
      exact ⟨fun _ => .inr (.inl ⟨e, created⟩), fun _ _ => rfl⟩
    | ok u =>
      have forced := restoreRegistry_forced (host.holding old) input expectedRootKey created
      have uncreated : ¬∃ e, io.directory = .error e := by simp [created]
      simp only [Harmless, Bool.true_eq_false, uncreated, false_or]
      cases copy : io.copy with
      | unread e =>
        rw [forced, copy]
        simp [copyOver, holding]
      | interrupted left e =>
        rw [forced, copy]
        simp [copyOver, exec_bind, holding]
      | copied =>
        obtain ⟨left, fails⟩ := restoreRegistry_copied (host.holding old) input expectedRootKey
          created copy
        have same : (host.holding old).holding input = host.holding input := rfl
        have kept : (host.holding input).database = some old ↔ input = old := by simp [holding]
        rw [left, fails, same, kept]
        by_cases sound : (host.holding input).Sound expectedRootKey
        · simp [sound]
        · simp [sound]

end RegistryHost

/-! ## A backup of another registry -/

/-- A directory that opens holds a zone that advertises the expected root key. -/
theorem openDir_rootKey {dir : RegistryDir} {key : String} {s : RegistryStore}
    (opened : RegistryStore.openDir dir key = .ok s) : ∃ t version bytes zone,
      dir.database = some t ∧ t.currentRootZone = .ok (some (version, bytes)) ∧
      SerdeDocuments.rootZone bytes = .ok zone ∧ zone.rootPublicKey = key := by
  simp only [RegistryStore.openDir, bind_eq_ok, okOr_eq_ok, serde_eq_ok, exists_unit] at opened
  obtain ⟨t, found, current, read, ⟨version, bytes⟩, held, zone, parsed, -, verified, -⟩ := opened
  have own := (RootZone.verify_eq_ok.mp verified).1
  exact ⟨t, version, bytes, zone, found, held ▸ read, parsed, own⟩

/-- A database opens under one root key only. -/
theorem openDir_unique {dir dir' : RegistryDir} {key key' : String} {s s' : RegistryStore}
    (opened : RegistryStore.openDir dir key = .ok s)
    (opened' : RegistryStore.openDir dir' key' = .ok s') (same : dir.database = dir'.database) :
    key = key' := by
  obtain ⟨t, version, bytes, zone, found, read, parsed, own⟩ := openDir_rootKey opened
  obtain ⟨t', version', bytes', zone', found', read', parsed', own'⟩ := openDir_rootKey opened'
  have sameTables : t = t' := Option.some.inj (found.symm.trans (same.trans found'))
  rw [← sameTables, read, Except.ok.injEq, Option.some.injEq, Prod.mk.injEq] at read'
  rw [← read'.2, parsed, Except.ok.injEq] at parsed'
  exact own.symm.trans ((congrArg RootZone.rootPublicKey parsed').trans own')

/-- The directory of a new registry opens as it. -/
theorem newRegistry_opens {P : Value → Prop} (reads : ReadsBack P) {a : Authority} {path : String}
    {now : DateTime} {io : StorageIo} {s : RegistryStore}
    (returned : initEmptyRegistry (RegistryDir.fresh path) a.root now io = .ok s) :
    RegistryStore.openDir s.dir a.root.nodeId = .ok s := by
  have genesis : a.Genesis s := ⟨_, now, io, returned⟩
  have reachable : a.Reachable s := ⟨s, [], genesis, rfl⟩
  have restorable : Restorable P a s := restorable_initial returned
  exact restorable.openDir reads reachable

/-- A forced restore of the backup of another root's registry fails, and leaves that registry in
the place of the database. -/
theorem restore_foreign {P : Value → Prop} (reads : ReadsBack P) {path : String}
    {a other : Authority} {now : DateTime} {io : StorageIo} {s s' : RegistryStore}
    (own : initEmptyRegistry (RegistryDir.fresh path) a.root now io = .ok s)
    (foreign : initEmptyRegistry (RegistryDir.fresh path) other.root now io = .ok s')
    (differs : other.root.nodeId ≠ a.root.nodeId) {host : RegistryHost}
    (held : host.database = some (.tables s.database)) :
    (∃ e, (exec (RegistryHost.restoreRegistry (.tables s'.database) a.root.nodeId true
        ⟨.ok (), .copied⟩) host).1 = .error e) ∧
      (exec (RegistryHost.restoreRegistry (.tables s'.database) a.root.nodeId true
        ⟨.ok (), .copied⟩) host).2.database ≠ host.database := by
  obtain ⟨left, fails⟩ := RegistryHost.restoreRegistry_copied host (.tables s'.database)
    a.root.nodeId (show (⟨.ok (), .copied⟩ : RestoreIo).directory = .ok () from rfl) rfl
  rw [left, fails, held]
  constructor
  · intro sound
    obtain ⟨store, report, opened, -⟩ := sound
    have there := newRegistry_opens reads foreign
    have opens : RegistryStore.openDir ⟨host.path, some s'.database, host.files⟩ a.root.nodeId =
        .ok store := opened
    exact differs (openDir_unique there opens rfl)
  · intro same
    have tables : s'.database = s.database := by
      simpa [RegistryHost.holding] using same
    have here := newRegistry_opens reads own
    have there := newRegistry_opens reads foreign
    exact differs (openDir_unique there here (congrArg some tables))

end Federate

namespace Federate.Reference

open Outcome Stateful

/-- The directory of a new registry of the root identity. -/
def newHost (root : NodeIdentity) : RegistryHost :=
  ⟨"node", some (.tables (initialStore (.fresh "node") (initialZone root ⟨0⟩)).database),
    (initialStore (.fresh "node") (initialZone root ⟨0⟩)).files⟩

/-- A forced restore over a new registry of the backup of another root's new registry fails and
replaces the database. -/
theorem foreignBackup_replaces :
    (∃ e, (exec (RegistryHost.restoreRegistry
        (.tables (initialStore (.fresh "node") (initialZone (identity 5) ⟨0⟩)).database)
        (identity 1).nodeId true ⟨.ok (), .copied⟩) (newHost (identity 1))).1 = .error e) ∧
      (exec (RegistryHost.restoreRegistry
        (.tables (initialStore (.fresh "node") (initialZone (identity 5) ⟨0⟩)).database)
        (identity 1).nodeId true ⟨.ok (), .copied⟩) (newHost (identity 1))).2.database ≠
        (newHost (identity 1)).database := by
  have own : initEmptyRegistry (.fresh "node") (Authority.mk (identity 1) (identity 2)).root ⟨0⟩
      .ok = .ok (initialStore (.fresh "node") (initialZone (identity 1) ⟨0⟩)) :=
    initialized_by (identity 1)
  have foreign : initEmptyRegistry (.fresh "node") (Authority.mk (identity 5) (identity 2)).root
      ⟨0⟩ .ok = .ok (initialStore (.fresh "node") (initialZone (identity 5) ⟨0⟩)) :=
    initialized_by (identity 5)
  exact restore_foreign plainReads own foreign (by decide) rfl

end Federate.Reference
