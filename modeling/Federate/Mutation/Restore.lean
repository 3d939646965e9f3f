import Federate.Mutation.Store

/-!
# Backup files

Restoring a registry copies a backup over the database file of the directory, opens the
directory and runs the self-check. A backup is a file of any content: the tables of a database,
or bytes that the engine does not open.
-/

namespace Federate

open Outcome Stateful

/-- The content of a file that should be a registry database. -/
inductive DatabaseFile where
  /-- A database with these tables. -/
  | tables (t : RedbTables)
  /-- Bytes that do not open as a database, for this reason. -/
  | damaged (bytes : Bytes) (reason : String)

/-- A registry directory whose database file may have any content. -/
structure RegistryHost where
  /-- Its path. -/
  path : String
  /-- `registry.redb`, when the file exists. -/
  database : Option DatabaseFile
  /-- The other files. -/
  files : DirFiles

/-- The directory with another database file. -/
def RegistryHost.holding (host : RegistryHost) (file : DatabaseFile) : RegistryHost :=
  { host with database := some file }

/-- `RedbRegistryStore::db_path`. -/
def RegistryHost.dbPath (host : RegistryHost) : String := host.path ++ "/registry.redb"

/-- How `std::fs::copy` ends. -/
inductive CopyEnd where
  /-- The source cannot be opened; the destination is not touched. -/
  | unread (e : FederateError)
  /-- Writing the destination stops and leaves this content. -/
  | interrupted (left : DatabaseFile) (e : FederateError)
  /-- The destination has the content of the source. -/
  | copied

/-- The outcomes of the file operations of one restore. -/
structure RestoreIo where
  /-- Creating the directory. -/
  directory : Result Unit
  /-- Copying the backup. -/
  copy : CopyEnd

/-- What `restore_registry` reports. -/
structure RestoreReport where
  /-- Path of the restored file. -/
  restored : String
  /-- The counts of the self-check. -/
  verify : RegistryStore.VerifyReport

variable [Externals] [SerdeJson]

namespace RegistryHost

/-- `RegistryStore::open` on a database file of any content. -/
def openStore (host : RegistryHost) (expectedRootKey : String) : Result RegistryStore :=
  match host.database with
  | some (.damaged _ reason) => .error (.storage reason)
  | some (.tables t) => RegistryStore.openDir ⟨host.path, some t, host.files⟩ expectedRootKey
  | none => RegistryStore.openDir ⟨host.path, none, host.files⟩ expectedRootKey

/-- `std::fs::copy(input, &dst)`. -/
def copyOver (input : DatabaseFile) : CopyEnd → Prog RegistryHost FederateError Unit
  | .unread e => throw e
  | .interrupted left e => do
    modify fun host => host.holding left
    throw e
  | .copied => modify fun host => host.holding input

/-- `restore_registry`. -/
def restoreRegistry (input : DatabaseFile) (expectedRootKey : String) (force : Bool)
    (io : RestoreIo) : Prog RegistryHost FederateError RestoreReport := do
  let host ← get
  (rejectIf (host.database.isSome = true ∧ force = false) (.storage
    s!"{host.dbPath} already exists; pass --force to replace it with the backup") : Result Unit)
  io.directory
  copyOver input io.copy
  let host ← get
  let store ← host.openStore expectedRootKey
  let report ← store.verifyAll expectedRootKey
  return ⟨host.dbPath, report⟩

end RegistryHost

end Federate
