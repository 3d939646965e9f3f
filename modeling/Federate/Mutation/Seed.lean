import Federate.Mutation.Run

/-!
# Seed files

The TLDs of a new network come from a seed file, each as a signed mutation of the root. The loop
skips the names that the zone already has and stops at the first entry that fails.
-/

namespace Federate

open Outcome Stateful RegistryStore

/-- `SeedTld`. -/
structure SeedTld where
  /-- The TLD, as written in the file. -/
  name : String
  /-- How the TLD is created. -/
  mode : String
  /-- Purpose of an official TLD. -/
  purpose : Option String
  /-- Reason of a reserved or blocked entry. -/
  reason : Option String

/-- `SeedFile`. -/
structure SeedFile where
  /-- The entries, in file order. -/
  tlds : List SeedTld

/-- `SeedOutcome`. -/
structure SeedOutcome where
  /-- The names that were created. -/
  created : List String
  /-- The names that were there already. -/
  skippedExisting : List String

/-- The action of an entry, under its validated name. -/
def SeedTld.action (entry : SeedTld) (name : String) : Result MutationAction :=
  if entry.mode = "official" then
    .ok (.createTld name (entry.purpose.getD "official Federate TLD"))
  else if entry.mode = "reserved" then
    .ok (.reserveTld name ((entry.reason.or entry.purpose).getD "reserved by seed file"))
  else if entry.mode = "blocked" then
    .ok (.blockTld name ((entry.reason.or entry.purpose).getD "blocked by seed file"))
  else .error (.mutationRejected (s!"seed entry .{name}: unknown mode '{entry.mode}' " ++
    "(official | reserved | blocked)"))

/-- What the environment contributes to the call of `apply` for one entry. -/
structure SeedCourse where
  /-- Reading of the wall clock. -/
  clock : DateTime
  /-- Outcomes of the storage operations. -/
  io : StorageIo

variable [Externals] [SerdeJson]

namespace RegistryStore

/-- The body of the loop of `apply_seed`. The sum is checked, as in a debug build. -/
def seedEntry (ctx : MutationContext) (course : SeedCourse) (outcome : SeedOutcome)
    (entry : SeedTld) : StoreM SeedOutcome := do
  let name ← validateTldName entry.name
  let s ← get
  if name ∈ s.zone.tlds then
    return { outcome with skippedExisting := outcome.skippedExisting ++ [name] }
  else do
    let action ← entry.action name
    let current := s.targetVersion action.targetKey
    let version ← okOr (if current.toNat + 1 < 2 ^ 64 then some (current + 1) else none)
      (FederateError.storage "attempt to add with overflow")
    let req := MutationRequest.signed ctx.root s!"seed:{name}" (Externals.toRfc3339 ctx.now)
      version action
    let _ ← apply req ctx course.clock course.io
    return { outcome with created := outcome.created ++ [name] }

/-- The loop of `apply_seed`; the environment contributes to every entry. -/
def seedEntries (ctx : MutationContext) :
    List SeedTld → (ℕ → SeedCourse) → SeedOutcome → StoreM SeedOutcome
  | [], _, outcome => pure outcome
  | entry :: rest, course, outcome => do
    let outcome ← seedEntry ctx (course 0) outcome entry
    seedEntries ctx rest (fun index => course (index + 1)) outcome

/-- `apply_seed`. -/
def applySeed (seed : SeedFile) (ctx : MutationContext) (force : Bool) (course : ℕ → SeedCourse) :
    StoreM SeedOutcome := do
  let s ← get
  (rejectIf (s.zone.tlds.size ≠ 0 ∧ force = false) (.mutationRejected
    (s!"registry already holds {s.zone.tlds.size} TLD record(s); refusing to re-seed " ++
      "(use --force to add missing entries only)")) : Result Unit)
  seedEntries ctx seed.tlds course ⟨[], []⟩

end RegistryStore

end Federate
