import Federate.Verif.Availability

/-!
# The root zone over a whole run

A resolver whose data directory nobody else writes, called and restarted any number of times with
one configured root key or none, never changes a pinned key, never holds or stores a zone that
does not verify under it, and never returns an older zone than before. Two inputs are excepted: an
empty configured key hides the persisted one from every restart, and a zone that is not read back
as it was stored is no longer the zone that was signed.
-/

namespace Federate

open Outcome Stateful Resolver

variable [Externals] [SerdeDocuments]

/-- The stored text of the zone is read back as the zone. -/
def RootZone.ReadsBack (z : RootZone) : Prop :=
  SerdeDocuments.rootZone (Externals.toVecPretty z.toJson) = .ok z

/-- An event of the resolver itself, built with this root key or none. -/
def ResolverEvent.Own (configured : Option String) : ResolverEvent → Prop
  | .call _ _ _ => True
  | .restart key => key = configured
  | .files _ => False

/-- Every root zone that arrives is read back from the cache file as it was. -/
def ResolverEvent.Faithful : ResolverEvent → Prop
  | .call r env _ => ∀ z, Arrives r env z → z.ReadsBack
  | _ => True

/-- What memory and disk agree on: the zone in memory is the cached one, which verifies under the
pinned key, and a restart pins the same key. -/
structure Anchored (configured : Option String) (s : ResolverState) : Prop where
  /-- The zone in memory verifies under the pinned key. -/
  trusted : RootTrusted s
  /-- The cache file reads as a zone that verifies under the pinned key. -/
  file : ∀ bytes, s.disk.rootZone = some bytes → ∃ z, Cached s.disk z ∧ Trusts s z
  /-- The zone in memory is the cached one. -/
  memory : ∀ z, s.root = some z → Cached s.disk z
  /-- A restart pins the same key. -/
  reload : ∀ key, s.trustedRootKey = some key →
    (ResolverState.new configured s.disk s.ticks).trustedRootKey = some key
  /-- A configured key is the pinned one. -/
  configured : ∀ key, configured = some key → s.trustedRootKey = some key

/-! ## The text of a key -/

section Key

omit [Externals] [SerdeDocuments]

/-- A hexadecimal digit is no white space. -/
theorem isWhitespace_of_digit {c : Char} (digit : Hex.digitValue c ≠ none) :
    Text.isWhitespace c = false := by
  have range : 48 ≤ c.toNat ∧ c.toNat ≤ 57 ∨ 97 ≤ c.toNat ∧ c.toNat ≤ 102 ∨
      65 ≤ c.toNat ∧ c.toNat ≤ 70 := by
    unfold Hex.digitValue at digit
    split at digit
    · rename_i within
      exact .inl ⟨UInt32.le_iff_toNat_le.mp within.1, UInt32.le_iff_toNat_le.mp within.2⟩
    · split at digit
      · rename_i within
        exact .inr (.inl ⟨UInt32.le_iff_toNat_le.mp within.1, UInt32.le_iff_toNat_le.mp within.2⟩)
      · split at digit
        · rename_i within
          exact .inr (.inr ⟨UInt32.le_iff_toNat_le.mp within.1, UInt32.le_iff_toNat_le.mp within.2⟩)
        · exact absurd rfl digit
  simp only [Text.isWhitespace, Bool.or_eq_false_iff, Bool.and_eq_false_iff, decide_eq_false_iff_not]
  omega

end Key

omit [SerdeDocuments] in
/-- A key that a signature verifies under is hexadecimal text, so that trimming leaves it alone. -/
theorem RootZone.verify_key {z : RootZone} {key : String} (verified : z.verify key = .ok ()) :
    Text.trim key = key ∧ key ≠ "" := by
  obtain ⟨-, ⟨signature, -, valid⟩, -⟩ := RootZone.verify_eq_ok.mp verified
  unfold verifySignature at valid
  cases decoded : Hex.decode key with
  | none => simp [decoded] at valid
  | some bytes =>
    constructor
    · exact Text.trim_eq_self fun c member =>
        isWhitespace_of_digit (Hex.decodeChars_digitValue decoded c member)
    · rintro rfl
      obtain rfl : [] = bytes := Option.some.inj decoded
      simp [decoded, toArray] at valid

/-! ## The invariant -/

variable {configured : Option String} {s s' : ResolverState} {r : Resolver} {env : Environment}

omit [Externals] [SerdeDocuments] in
/-- The key that a resolver built on persisted text pins. -/
theorem ResolverState.new_persisted {disk : ResolverDisk} {key : String} (ticks : ℕ)
    (absent : configured = none) (persisted : disk.trustedRootKey = some key)
    (text : Text.trim key = key ∧ key ≠ "") :
    (ResolverState.new configured disk ticks).trustedRootKey = some key := by
  simp [ResolverState.new, absent, persisted, text.1, text.2]

omit [Externals] [SerdeDocuments] in
/-- The key that a resolver built with a configured key pins. -/
theorem ResolverState.new_configured {disk : ResolverDisk} {key : String} (ticks : ℕ)
    (present : configured ≠ some "") (given : configured = some key) :
    (ResolverState.new configured disk ticks).trustedRootKey = some key := by
  have filled : key ≠ "" := fun empty => present (by rw [given, empty])
  simp [ResolverState.new, given, filled]

omit [Externals] [SerdeDocuments] in
/-- An empty configured key hides the persisted one. -/
theorem ResolverState.new_empty (disk : ResolverDisk) (ticks : ℕ) :
    (ResolverState.new (some "") disk ticks).trustedRootKey = none := by
  simp [ResolverState.new]

/-- A resolver built on an untouched directory is anchored. -/
theorem anchored_fresh (present : configured ≠ some "") (ticks : ℕ) :
    Anchored configured (.new configured .fresh ticks) where
  trusted _ held := absurd held nofun
  file _ held := absurd held nofun
  memory _ held := absurd held nofun
  reload _ held := held
  configured _ given := ResolverState.new_configured ticks present given

/-- A restart keeps a resolver anchored. -/
theorem Anchored.restart (present : configured ≠ some "") (anchored : Anchored configured s) :
    Anchored configured (.new configured s.disk s.ticks) where
  trusted _ held := absurd held nofun
  file bytes held := by
    obtain ⟨z, cached, key, pinned, verified⟩ := anchored.file bytes held
    exact ⟨z, cached, key, anchored.reload key pinned, verified⟩
  memory _ held := absurd held nofun
  reload _ held := held
  configured _ given := ResolverState.new_configured _ present given

omit [Externals] in
/-- The cache file reads as one zone. -/
theorem Cached.unique {d : ResolverDisk} {z z' : RootZone} (first : Cached d z)
    (second : Cached d z') : z = z' := by
  obtain ⟨bytes, held, reads, -⟩ := first
  obtain ⟨bytes', held', reads', -⟩ := second
  obtain rfl := Option.some.inj (held.symm.trans held')
  exact Except.ok.inj (reads.symm.trans reads')

/-- An accepted zone that is read back is the cached one. -/
theorem Accepted.cached {z : RootZone} (accepted : Accepted r env s s' z) (back : z.ReadsBack) :
    Cached s'.disk z := ⟨_, accepted.stored, back, accepted.valid⟩

/-- A kept zone is the cached one. -/
theorem Anchored.kept (anchored : Anchored configured s) {z : RootZone} (kept : Kept s s' z) :
    Cached s'.disk z := by
  obtain ⟨bytes, held, reads⟩ := kept.had.elim (anchored.memory z) id
  exact ⟨bytes, kept.unchanged.trans held, reads⟩

/-- A returned zone is the cached one. -/
theorem Anchored.returned (back : ∀ z, Arrives r env z → z.ReadsBack)
    (anchored : Anchored configured s) {z : RootZone} (outcome : RootOutcome r env s s' (.ok z)) :
    Cached s'.disk z := by
  cases outcome with
  | returned held trusted source =>
    exact source.elim (fun accepted => accepted.cached (back z accepted.arrived)) anchored.kept

/-- A call keeps a resolver anchored. -/
theorem Anchored.call (back : ∀ z, Arrives r env z → z.ReadsBack)
    (anchored : Anchored configured s) (change : RootChange r env s s') :
    Anchored configured s' := by
  obtain ⟨keyUpdate, res, outcome⟩ := change anchored.trusted
  have reload : ∀ key, s'.trustedRootKey = some key →
      (ResolverState.new configured s'.disk s'.ticks).trustedRootKey = some key := by
    intro key pinned'
    cases pinned : s.trustedRootKey with
    | some key₀ =>
      obtain ⟨stays, file⟩ := keyUpdate.stays key₀ pinned
      obtain rfl := Option.some.inj (stays.symm.trans pinned')
      have loaded := anchored.reload key₀ pinned
      rwa [ResolverState.new, ← file] at loaded
    | none =>
      obtain ⟨file, z, verified⟩ := keyUpdate.pins pinned key pinned'
      have absent : configured = none := by
        cases given : configured with
        | none => rfl
        | some c =>
          rw [anchored.configured c given] at pinned
          cases pinned
      exact ResolverState.new_persisted _ absent file (RootZone.verify_key verified)
  have configuredStays : ∀ key, configured = some key → s'.trustedRootKey = some key :=
    fun key given => (keyUpdate.stays key (anchored.configured key given)).1
  cases outcome with
  | @returned z held trusted source =>
    have cached : Cached s'.disk z :=
      source.elim (fun accepted => accepted.cached (back z accepted.arrived)) anchored.kept
    refine ⟨change.trusted anchored.trusted, fun _ _ => ⟨z, cached, trusted⟩, fun z' held' => ?_,
      reload, configuredStays⟩
    obtain rfl := Option.some.inj (held.symm.trans held')
    exact cached
  | failed root file =>
    have same : ∀ z, Cached s'.disk z ↔ Cached s.disk z := fun z => by rw [Cached, Cached, file]
    refine ⟨change.trusted anchored.trusted, fun bytes held => ?_, fun z held => ?_, reload,
      configuredStays⟩
    · obtain ⟨z, cached, key, pinned, verified⟩ := anchored.file bytes (file ▸ held)
      exact ⟨z, (same z).mpr cached, key, (keyUpdate.stays key pinned).1, verified⟩
    · exact (same z).mpr (anchored.memory z (root ▸ held))

/-! ## Versions -/

omit [Externals] in
/-- A zone of at least this version is cached. -/
def Reached (version : UInt64) (s : ResolverState) : Prop :=
  ∃ z, Cached s.disk z ∧ version ≤ z.rootVersion

/-- A zone that `root` or `refresh_root` returns is not older than the cached one was. -/
theorem Anchored.notOlder (anchored : Anchored configured s) {z : RootZone} {version : UInt64}
    (reached : Reached version s) (outcome : RootOutcome r env s s' (.ok z))
    (keyUpdate : KeyUpdate s s') : version ≤ z.rootVersion := by
  obtain ⟨known, cached, below⟩ := reached
  have isKnown : ∀ key, s.trustedRootKey = some key → Known key s known := by
    intro key pinned
    cases held : s.root with
    | some z' => exact .inl (by rw [(anchored.memory z' held).unique cached] at held; exact held)
    | none =>
      have ⟨bytes, stored, _⟩ := cached
      obtain ⟨z', cached', key', pinned', verified⟩ := anchored.file bytes stored
      obtain rfl := Option.some.inj (pinned.symm.trans pinned')
      obtain rfl := cached'.unique cached
      exact .inr ⟨held, cached', verified⟩
  cases outcome with
  | returned held trusted source =>
    rcases source with accepted | kept
    · obtain ⟨bytes, stored, -⟩ := cached
      obtain ⟨-, -, key, pinned, -⟩ := anchored.file bytes stored
      exact UInt64.le_trans below (accepted.newest key known (keyUpdate.stays key pinned).1
        (isKnown key pinned))
    · have same := (kept.had.elim (anchored.memory z) id).unique cached
      exact same ▸ below

/-! ## Every event -/

variable [ResolverExternals]

/-- The version of the zone that a call of `refresh_root` returns. -/
def ResolverState.refreshedVersion (s : ResolverState) : ResolverEvent → Option UInt64
  | .call r env .refreshRoot => (exec (r.refreshRoot env) s).1.toOption.map RootZone.rootVersion
  | _ => none

/-- Every event of the resolver keeps it anchored. -/
theorem Anchored.step (present : configured ≠ some "") (anchored : Anchored configured s)
    {event : ResolverEvent} (own : event.Own configured) (faithful : event.Faithful) :
    Anchored configured (s.step event) := by
  cases event with
  | call r env call => exact anchored.call faithful (call.after_change r env s)
  | restart key =>
    obtain rfl : key = configured := own
    exact anchored.restart present
  | files disk => exact own.elim

/-- Every event of the resolver keeps a pinned key. -/
theorem Anchored.keyStays (anchored : Anchored configured s) {event : ResolverEvent}
    (own : event.Own configured) {key : String} (pinned : s.trustedRootKey = some key) :
    (s.step event).trustedRootKey = some key := by
  cases event with
  | call r env call =>
    exact ((call.after_change r env s anchored.trusted).1.stays key pinned).1
  | restart given =>
    obtain rfl : given = configured := own
    exact anchored.reload key pinned
  | files disk => exact own.elim

/-- A version that was reached stays reached. -/
theorem Anchored.reached (anchored : Anchored configured s) {event : ResolverEvent}
    (own : event.Own configured) (faithful : event.Faithful) {version : UInt64}
    (reached : Reached version s) : Reached version (s.step event) := by
  cases event with
  | call r env call =>
    obtain ⟨keyUpdate, res, outcome⟩ := call.after_change r env s anchored.trusted
    cases res with
    | ok z =>
      exact ⟨z, anchored.returned faithful outcome, anchored.notOlder reached outcome keyUpdate⟩
    | error e =>
      cases outcome with
      | failed root file =>
        obtain ⟨z, ⟨bytes, held, reads⟩, below⟩ := reached
        exact ⟨z, ⟨bytes, file.trans held, reads⟩, below⟩
  | restart given => exact reached
  | files disk => exact own.elim

/-- What `refresh_root` returned is the zone of its outcome. -/
theorem refreshedVersion_outcome (anchored : Anchored configured s) {event : ResolverEvent}
    (faithful : event.Faithful) {version : UInt64}
    (observed : s.refreshedVersion event = some version) :
    ∃ z, z.rootVersion = version ∧ Cached (s.step event).disk z ∧
      ∀ earlier, Reached earlier s → earlier ≤ version := by
  unfold ResolverState.refreshedVersion at observed
  split at observed
  · rename_i r env
    obtain ⟨keyUpdate, outcome⟩ := refreshRoot_outcome env r anchored.trusted Prod.mk.eta.symm
    cases returned : (exec (r.refreshRoot env) s).1 with
    | error e => simp [returned, Except.toOption] at observed
    | ok z =>
      rw [returned] at outcome
      obtain rfl : z.rootVersion = version := by
        simpa [returned, Except.toOption] using observed
      exact ⟨z, rfl, anchored.returned faithful outcome,
        fun earlier reached => anchored.notOlder reached outcome keyUpdate⟩
  · cases observed

/-! ## Every run -/

/-- What holds after a run: the zone in memory and the cached one verify under the pinned key, as
does every zone returned next, and the versions returned along the run never decrease. -/
structure RootSafe (start s : ResolverState) (events : List ResolverEvent) : Prop where
  /-- A key that was pinned at any point of the run still is. -/
  keyStays : ∀ first second key, events = first ++ second →
    (Transition.run ResolverState.step start first).trustedRootKey = some key →
    s.trustedRootKey = some key
  /-- The zone in memory verifies under the pinned key. -/
  held : RootTrusted s
  /-- The zone in the cache file does. -/
  stored : ∀ bytes, s.disk.rootZone = some bytes →
    ∃ z, SerdeDocuments.rootZone bytes = .ok z ∧ Trusts s z
  /-- The zone that the next call returns does. -/
  returned : ∀ (r : Resolver) (env : Environment) (z : RootZone) (s' : ResolverState),
    exec (r.refreshRoot env) s = (.ok z, s') ∨ exec (r.root env) s = (.ok z, s') → Trusts s' z
  /-- No returned version is below an earlier one. -/
  versions : (Transition.observations ResolverState.step ResolverState.refreshedVersion start
    events).Pairwise (· ≤ ·)

end Federate

namespace Federate.Reference

open Outcome Stateful

/-- A zone that arrives is read back from its indented text. -/
theorem readsBack_of_arrives {r : Resolver} {env : Environment} {z : RootZone}
    (arrives : Arrives r env z) : z.ReadsBack := by
  cases arrives with
  | native provider answered reads => exact read_pretty reads
  | http answered whole reads => exact read_pretty reads

/-- A resolver without a key pins the one of a zone that is served. -/
theorem refresh_serving_pins {root : NodeIdentity} {version : UInt64}
    (short : (Json.compact (plainZone root version).toJson).length ≤ maxRootBytes)
    {s : ResolverState} (unpinned : s.trustedRootKey = none) (unheld : s.root = none) :
    (s.step (.call peered (serving root version) .refreshRoot)).trustedRootKey =
      some root.nodeId := by
  have pins := refreshRoot_pins _ _ unpinned (fetchRootNetwork_serving short s)
    (plainZone_verify root version) (fun _ => rfl) unheld
  exact pins

end Federate.Reference
