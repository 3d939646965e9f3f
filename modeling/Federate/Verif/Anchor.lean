import Federate.Verif.Fetch

/-!
# The trust anchor of a resolver

What one refresh of the root zone can do to the zone and the key, in memory and on disk: a pinned
key stays, a zone is held only when it verifies under the pinned key, and the cached zone changes
only to a fetched one that is not older than the one known before.
-/

namespace Federate

open Outcome Stateful Resolver

variable [Externals] [SerdeDocuments]

/-- The zone verifies under the key the resolver has pinned. -/
def Trusts (s : ResolverState) (z : RootZone) : Prop :=
  ∃ key, s.trustedRootKey = some key ∧ z.verify key = .ok ()

/-- A zone in memory verifies under the pinned key. -/
def RootTrusted (s : ResolverState) : Prop := ∀ z, s.root = some z → Trusts s z

/-- The cache file reads as the zone. -/
def Cached (d : ResolverDisk) (z : RootZone) : Prop :=
  ∃ bytes, d.rootZone = some bytes ∧ SerdeDocuments.rootZone bytes = .ok z ∧ z.validate = .ok ()

/-- The zone a resolver with this key compares fetched ones with. -/
def Known (key : String) (s : ResolverState) (z : RootZone) : Prop :=
  s.root = some z ∨ s.root = none ∧ Cached s.disk z ∧ z.verify key = .ok ()

/-- What a step does to the pinned key: one that is pinned stays with its file, and a new one is
the persisted root key of a self-consistent zone. -/
structure KeyUpdate (s s' : ResolverState) : Prop where
  /-- Operations are only added. -/
  ticks : s.ticks ≤ s'.ticks
  /-- A pinned key stays. -/
  stays : ∀ key, s.trustedRootKey = some key →
    s'.trustedRootKey = some key ∧ s'.disk.trustedRootKey = s.disk.trustedRootKey
  /-- A new key is the root key of a zone it signs, and is persisted. -/
  pins : s.trustedRootKey = none → ∀ key, s'.trustedRootKey = some key →
    s'.disk.trustedRootKey = some key ∧ ∃ z : RootZone, z.verify key = .ok ()

/-- A document that reads as the root zone arrives from a native provider or from the bootstrap
node. -/
inductive Arrives (r : Resolver) (env : Environment) (z : RootZone) : Prop
  | native {n : ℕ} {addr : String} {zoneJson : Bytes} (provider : addr ∈ r.nativeProviders)
      (answered : env.exchange n addr .getRoot = .ok (.root zoneJson))
      (reads : SerdeDocuments.rootZone zoneJson = .ok z) : Arrives r env z
  | http {n : ℕ} {response : HttpResponse} {bytes : Bytes}
      (answered : env.httpGet n (r.client.base ++ "/v1/root") = .ok response)
      (whole : Environment.readCapped response maxRootBytes = .ok bytes)
      (reads : SerdeDocuments.rootZone bytes = .ok z) : Arrives r env z

/-- A zone that was fetched and not rejected: cached, and not older than the known one. -/
structure Accepted (r : Resolver) (env : Environment) (s s' : ResolverState) (z : RootZone) :
    Prop where
  /-- The cache file holds it. -/
  stored : s'.disk.rootZone = some (Externals.toVecPretty z.toJson)
  /-- It arrived. -/
  arrived : Arrives r env z
  /-- It is well formed. -/
  valid : z.validate = .ok ()
  /-- The known zone is not newer. -/
  newest : ∀ key known, s'.trustedRootKey = some key → Known key s known →
    known.rootVersion ≤ z.rootVersion

/-- A zone that the resolver had already. -/
structure Kept (s s' : ResolverState) (z : RootZone) : Prop where
  /-- The cache file is unchanged. -/
  unchanged : s'.disk.rootZone = s.disk.rootZone
  /-- It was in memory or in the cache file. -/
  had : s.root = some z ∨ Cached s.disk z

/-- What a refresh returns and leaves. -/
inductive RootOutcome (r : Resolver) (env : Environment) (s s' : ResolverState) :
    Result RootZone → Prop
  | returned {z : RootZone} (held : s'.root = some z) (trusted : Trusts s' z)
      (source : Accepted r env s s' z ∨ Kept s s' z) : RootOutcome r env s s' (.ok z)
  | failed {e : FederateError} (root : s'.root = s.root)
      (file : s'.disk.rootZone = s.disk.rootZone) : RootOutcome r env s s' (.error e)

/-! ## The steps of a refresh -/

section Steps

variable (env : Environment)

omit [SerdeDocuments] in
/-- A pinned key decides; without one, a self-consistent zone has its key persisted and pinned,
and otherwise at most the file of the key is touched. -/
theorem verifyZone_cases (z : RootZone) (s : ResolverState) :
    (∃ key, s.trustedRootKey = some key ∧ exec (verifyZone env z) s = (z.verify key, s)) ∨
    s.trustedRootKey = none ∧
      (z.verify z.rootPublicKey = .ok () ∧ exec (verifyZone env z) s = (.ok (), { s with
          trustedRootKey := some z.rootPublicKey
          disk := { s.disk with trustedRootKey := some z.rootPublicKey }
          ticks := s.ticks + 1 }) ∨
        ∃ e keyFile n, s.ticks ≤ n ∧ exec (verifyZone env z) s = (.error e, { s with
          disk := { s.disk with trustedRootKey := keyFile }
          ticks := n })) := by
  cases pinned : s.trustedRootKey with
  | some key => exact .inl ⟨key, rfl, by simp [verifyZone, exec_bind, pinned]⟩
  | none =>
    refine .inr ⟨rfl, ?_⟩
    cases own : z.verify z.rootPublicKey with
    | error e =>
      have ran : exec (verifyZone env z) s = (.error e, s) := by
        simp [verifyZone, exec_bind, pinned, own]
      exact .inr ⟨e, s.disk.trustedRootKey, s.ticks, le_rfl, by rw [ran, ← pinned]⟩
    | ok done =>
      cases wrote : env.file s.ticks with
      | ok done =>
        exact .inl ⟨rfl, by
          simp [verifyZone, Environment.overwriteFile, exec_bind, pinned, own, wrote, mapError]⟩
      | error e =>
        refine .inr ⟨.io e, ?_⟩
        cases part : env.torn s.ticks with
        | none =>
          exact ⟨s.disk.trustedRootKey, s.ticks + 1, Nat.le_succ _, by
            simp [verifyZone, Environment.overwriteFile, exec_bind, pinned, own, wrote, part,
              mapError]⟩
        | some length =>
          exact ⟨some (String.ofList (z.rootPublicKey.toList.take length)), s.ticks + 1,
            Nat.le_succ _, by
            simp [verifyZone, Environment.overwriteFile, exec_bind, pinned, own, wrote, part,
              mapError]⟩

omit [SerdeDocuments] in
/-- Verifying a zone changes at most the key, and trusts the zone when it succeeds. -/
theorem verifyZone_update {z : RootZone} {s s' : ResolverState} {res : Result Unit}
    (ran : exec (verifyZone env z) s = (res, s')) :
    KeyUpdate s s' ∧ s'.root = s.root ∧ s'.disk.rootZone = s.disk.rootZone ∧
      (res = .ok () → Trusts s' z) ∧ (s.trustedRootKey ≠ none → s' = s) := by
  rcases verifyZone_cases env z s with ⟨key, pinned, decided⟩ | ⟨unpinned, ⟨own, wrote⟩ | failed⟩
  · obtain ⟨rfl, rfl⟩ := Prod.mk.inj (decided.symm.trans ran)
    exact ⟨⟨le_rfl, fun _ held => ⟨held, rfl⟩, fun absent => absurd (pinned ▸ absent) nofun⟩, rfl,
      rfl, fun passed => ⟨key, pinned, passed⟩, fun _ => rfl⟩
  · obtain ⟨rfl, rfl⟩ := Prod.mk.inj (wrote.symm.trans ran)
    refine ⟨⟨Nat.le_succ _, fun _ held => absurd (unpinned ▸ held) nofun, ?_⟩, rfl, rfl,
      fun _ => ⟨_, rfl, own⟩, fun pinned => absurd unpinned pinned⟩
    intro _ key held
    obtain rfl := Option.some.inj held
    exact ⟨rfl, z, own⟩
  · obtain ⟨e, keyFile, n, later, wrote⟩ := failed
    obtain ⟨rfl, rfl⟩ := Prod.mk.inj (wrote.symm.trans ran)
    exact ⟨⟨later, fun _ held => absurd (unpinned ▸ held) nofun,
      fun _ _ held => absurd (unpinned ▸ held) nofun⟩, rfl, rfl, nofun,
      fun pinned => absurd unpinned pinned⟩

end Steps

omit [Externals] in
/-- Loading the cached zone changes nothing, and gives what the cache file reads as. -/
theorem rootCacheLoad_eq {s s' : ResolverState} {res : Result RootZone}
    (ran : exec rootCacheLoad s = (res, s')) :
    s' = s ∧ ∀ z, res = .ok z ↔ Cached s.disk z := by
  have left : exec (rootCacheLoad) s = ((do
      let bytes ← okOr s.disk.rootZone (FederateError.io "No such file or directory (os error 2)")
      let zone ← serde (SerdeDocuments.rootZone bytes)
      zone.validate
      return zone : Result RootZone), s) := by
    simp only [rootCacheLoad, readFile, exec_bind, exec_get, exec_lift]
    cases okOr s.disk.rootZone (FederateError.io "No such file or directory (os error 2)") with
    | error e => rfl
    | ok bytes =>
      simp only [bind, Except.bind]
      cases serde (SerdeDocuments.rootZone bytes) with
      | error e => rfl
      | ok zone =>
        simp only
        cases zone.validate <;> rfl
  obtain ⟨rfl, rfl⟩ := Prod.mk.inj (left.symm.trans ran)
  refine ⟨rfl, fun z => ?_⟩
  simp only [bind_eq_ok, okOr_eq_ok, serde_eq_ok, exists_unit, pure_eq_ok, Cached]
  constructor
  · rintro ⟨bytes, held, zone, reads, valid, rfl⟩
    exact ⟨bytes, held, reads, valid⟩
  · rintro ⟨bytes, held, reads, valid⟩
    exact ⟨bytes, held, z, reads, valid, rfl⟩

/-! ## A whole refresh -/

section Refresh

variable (env : Environment)

omit [SerdeDocuments] in
/-- A step that leaves the root zone alone leaves the key alone. -/
theorem KeepsRoot.keyUpdate {s s' : ResolverState} (keeps : KeepsRoot s s') : KeyUpdate s s' where
  ticks := keeps.ticks
  stays _ held := ⟨keeps.key.trans held, keeps.keyFile⟩
  pins absent _ held := absurd (absent.symm.trans (keeps.key.symm.trans held)) nofun

omit [SerdeDocuments] in
/-- Two steps one after the other. -/
theorem KeyUpdate.trans {s s₁ s' : ResolverState} (first : KeyUpdate s s₁)
    (second : KeyUpdate s₁ s') : KeyUpdate s s' where
  ticks := le_trans first.ticks second.ticks
  stays key held := by
    obtain ⟨held₁, file₁⟩ := first.stays key held
    obtain ⟨held', file'⟩ := second.stays key held₁
    exact ⟨held', file'.trans file₁⟩
  pins absent key held := by
    cases between : s₁.trustedRootKey with
    | none => exact second.pins between key held
    | some key₁ =>
      obtain ⟨held', file'⟩ := second.stays key₁ between
      obtain ⟨file₁, signs⟩ := first.pins absent key₁ between
      obtain rfl := Option.some.inj (held'.symm.trans held)
      exact ⟨file'.trans file₁, signs⟩

/-- With a pinned key, the cached zone is verified without any change. -/
theorem verifiedCache_pinned {s s' : ResolverState} {key : String} {res : Result RootZone}
    (pinned : s.trustedRootKey = some key) (ran : exec (verifiedCache env) s = (res, s')) :
    s' = s ∧ ∀ z, res = .ok z ↔ Cached s.disk z ∧ z.verify key = .ok () := by
  rw [verifiedCache, exec_bind] at ran
  generalize loaded : exec rootCacheLoad s = load at ran
  obtain ⟨outcome, s₁⟩ := load
  obtain ⟨rfl, reads⟩ := rootCacheLoad_eq loaded
  cases outcome with
  | error e =>
    obtain ⟨rfl, rfl⟩ := Prod.mk.inj ran
    exact ⟨rfl, fun z => ⟨nofun, fun both => absurd ((reads z).mpr both.1) nofun⟩⟩
  | ok cached =>
    have decided : exec (verifyZone env cached) s₁ = (cached.verify key, s₁) := by
      simp [verifyZone, exec_bind, pinned]
    have only : ∀ z, Cached s₁.disk z ↔ z = cached := fun z =>
      (reads z).symm.trans ⟨fun same => (Except.ok.inj same).symm, fun same => by rw [same]⟩
    simp only [exec_bind, decided] at ran
    cases outcome : cached.verify key with
    | error e =>
      rw [outcome] at ran
      obtain ⟨rfl, rfl⟩ := Prod.mk.inj ran
      exact ⟨rfl, fun z => ⟨nofun, fun ⟨held, passed⟩ => by
        rw [(only z).mp held, outcome] at passed; exact absurd passed nofun⟩⟩
    | ok done =>
      rw [outcome] at ran
      obtain ⟨rfl, rfl⟩ := Prod.mk.inj ran
      refine ⟨rfl, fun z => ⟨fun same => ?_, fun ⟨held, passed⟩ => by rw [(only z).mp held]⟩⟩
      obtain rfl := Except.ok.inj same
      exact ⟨(only _).mpr rfl, outcome⟩

/-- With a pinned key, the last verified zone is the known one, found without any change. -/
theorem lastVerifiedZone_pinned {s s' : ResolverState} {key : String}
    {res : Result (Option RootZone)} (pinned : s.trustedRootKey = some key)
    (ran : exec (lastVerifiedZone env) s = (res, s')) :
    s' = s ∧ ∃ found, res = .ok found ∧ ∀ z, found = some z ↔ Known key s z := by
  rw [lastVerifiedZone, exec_bind, exec_get] at ran
  cases held : s.root with
  | some zone =>
    simp only [held, exec_pure] at ran
    obtain ⟨rfl, rfl⟩ := Prod.mk.inj ran
    exact ⟨rfl, some zone, rfl, fun z => by simp [Known, held]⟩
  | none =>
    simp only [held, exec_bind, exec_attempt, exec_pure] at ran
    obtain ⟨rfl, rfl⟩ := Prod.mk.inj ran
    obtain ⟨same, reads⟩ := verifiedCache_pinned env pinned (Prod.mk.eta).symm
    refine ⟨same, _, rfl, fun z => ?_⟩
    simp only [Known, held, reduceCtorEq, true_and, false_or, ← reads z]
    cases (exec (verifiedCache env) s).1 <;> simp [Except.toOption]

/-- The cached zone, verified: at most the key changes. -/
theorem verifiedCache_update {s s' : ResolverState} {res : Result RootZone}
    (ran : exec (verifiedCache env) s = (res, s')) :
    KeyUpdate s s' ∧ s'.root = s.root ∧ s'.disk.rootZone = s.disk.rootZone ∧
      ∀ z, res = .ok z → Cached s.disk z ∧ Trusts s' z := by
  rw [verifiedCache, exec_bind] at ran
  generalize loaded : exec rootCacheLoad s = load at ran
  obtain ⟨outcome, s₁⟩ := load
  obtain ⟨rfl, reads⟩ := rootCacheLoad_eq loaded
  cases outcome with
  | error e =>
    obtain ⟨rfl, rfl⟩ := Prod.mk.inj ran
    exact ⟨(Std.Refl.refl s₁ : KeepsRoot s₁ s₁).keyUpdate, rfl, rfl, nofun⟩
  | ok cached =>
    simp only [exec_bind] at ran
    generalize verified : exec (verifyZone env cached) s₁ = verdict at ran
    obtain ⟨passed, s₂⟩ := verdict
    obtain ⟨key, root, file, trusts, -⟩ := verifyZone_update env verified
    cases passed with
    | error e =>
      obtain ⟨rfl, rfl⟩ := Prod.mk.inj ran
      exact ⟨key, root, file, nofun⟩
    | ok done =>
      obtain ⟨rfl, rfl⟩ := Prod.mk.inj ran
      refine ⟨key, root, file, fun z same => ?_⟩
      obtain rfl := Except.ok.inj same
      exact ⟨(reads _).mp rfl, trusts rfl⟩

/-- The outcome depends on the zone in memory and in the cache before, and on nothing else. -/
theorem RootOutcome.of_same {r : Resolver} {env : Environment} {s₀ s s' : ResolverState}
    {res : Result RootZone} (root : s.root = s₀.root)
    (file : s.disk.rootZone = s₀.disk.rootZone) (outcome : RootOutcome r env s s' res) :
    RootOutcome r env s₀ s' res := by
  have cached : ∀ z, Cached s₀.disk z ↔ Cached s.disk z := fun z => by rw [Cached, Cached, file]
  have known : ∀ key z, Known key s₀ z ↔ Known key s z := fun key z => by
    rw [Known, Known, root, cached]
  cases outcome with
  | failed root' file' => exact .failed (root'.trans root) (file'.trans file)
  | @returned z held trusted source =>
    refine .returned held trusted (source.imp (fun accepted => ?_) fun kept => ?_)
    · exact ⟨accepted.stored, accepted.arrived, accepted.valid, fun key other pinned knew =>
        accepted.newest key other pinned ((known key other).mp knew)⟩
    · refine ⟨kept.unchanged.trans file, ?_⟩
      rw [← root, cached]
      exact kept.had

/-- A fetched zone that verifies under the pinned key is stored and held, unless the known zone
is newer. -/
theorem acceptRoot_outcome {r : Resolver} {s s' : ResolverState} {z : RootZone} {key : String}
    {res : Result RootZone} (pinned : s.trustedRootKey = some key) (trusted : z.verify key = .ok ())
    (memory : RootTrusted s) (arrived : Arrives r env z) (valid : z.validate = .ok ())
    (ran : exec (acceptRoot env z) s = (res, s')) :
    KeyUpdate s s' ∧ RootOutcome r env s s' res := by
  rw [acceptRoot, exec_bind] at ran
  generalize looked : exec (lastVerifiedZone env) s = look at ran
  obtain ⟨outcome, s₁⟩ := look
  obtain ⟨rfl, found, rfl, knew⟩ := lastVerifiedZone_pinned env pinned looked
  -- storing the zone, once the known one is not newer
  have store (newest : ∀ known, Known key s₁ known → known.rootVersion ≤ z.rootVersion)
      (stored : exec (do
        rootCacheStore env z
        holdRoot z
        return z : ResolverM RootZone) s₁ = (res, s')) :
      KeyUpdate s₁ s' ∧ RootOutcome r env s₁ s' res := by
    simp only [rootCacheStore, Environment.changeFile, holdRoot, exec_bind, exec_ask, exec_modify,
      exec_pure] at stored
    cases wrote : env.file s₁.ticks with
    | error e =>
      rw [wrote] at stored
      obtain ⟨rfl, rfl⟩ := Prod.mk.inj stored
      exact ⟨⟨Nat.le_succ _, fun _ held => ⟨held, rfl⟩,
        fun absent => by rw [absent] at pinned; cases pinned⟩, .failed rfl rfl⟩
    | ok done =>
      rw [wrote] at stored
      obtain ⟨rfl, rfl⟩ := Prod.mk.inj stored
      refine ⟨⟨Nat.le_succ _, fun _ held => ⟨held, rfl⟩,
        fun absent => by rw [absent] at pinned; cases pinned⟩,
        .returned rfl ⟨key, pinned, trusted⟩ (.inl ⟨rfl, arrived, valid, ?_⟩)⟩
      intro key' known pinned' held
      obtain rfl : key = key' := Option.some.inj (pinned.symm.trans pinned')
      exact newest known held
  cases found with
  | none => exact store (fun known held => by cases (knew known).mpr held) ran
  | some known =>
    have isKnown : Known key s₁ known := (knew known).mp rfl
    simp only at ran
    split at ran
    · obtain ⟨rfl, rfl⟩ := Prod.mk.inj ran
      refine ⟨⟨le_rfl, fun _ held => ⟨held, rfl⟩,
        fun absent => by rw [absent] at pinned; cases pinned⟩,
        .returned rfl ?_ (.inr ⟨rfl, isKnown.imp_right fun fromFile => fromFile.2.1⟩)⟩
      rcases isKnown with held | ⟨-, -, verified⟩
      · exact memory known held
      · exact ⟨key, pinned, verified⟩
    · rename_i notOlder
      refine store (fun other held => ?_) ran
      obtain rfl := Option.some.inj ((knew other).mpr held)
      exact UInt64.not_lt.mp notOlder

variable [ResolverExternals] (r : Resolver)

omit [Externals] in
/-- What `fetch_root_native` gives arrived from the provider and is well formed. -/
theorem fetchRootNative_arrives {addr : String} (provider : addr ∈ r.nativeProviders) :
    Returns (fun z => Arrives r env z ∧ z.validate = .ok ()) (r.fetchRootNative env addr) := by
  refine (returns_any _).bind fun version _ => (ask_answered _).bind fun answer answered => ?_
  split
  · rename_i zoneJson
    obtain ⟨n, answered⟩ := answered
    exact (returns_any _).bind fun _ _ => (returns_lift _).bind fun zone reads =>
      (returns_lift _).bind fun _ valid =>
        returns_pure ⟨.native provider answered (serde_eq_ok.mp reads), valid⟩
  · exact returns_throw _

omit [Externals] [ResolverExternals] in
/-- What `NodeClient::fetch_root` gives arrived from the bootstrap node and is well formed. -/
theorem fetchRoot_arrives :
    Returns (fun z => Arrives r env z ∧ z.validate = .ok ()) (r.client.fetchRoot env) := by
  refine (getCapped_answered env _ _).bind fun bytes arrived =>
    (returns_lift _).bind fun zone reads => (returns_lift _).bind fun _ valid => ?_
  obtain ⟨n, response, answered, whole⟩ := arrived
  exact returns_pure ⟨.http answered whole (serde_eq_ok.mp reads), valid⟩

omit [Externals] in
/-- A fetched zone arrived and is well formed. -/
theorem fetchRootNetwork_arrives :
    Returns (fun z => Arrives r env z ∧ z.validate = .ok ()) (r.fetchRootNetwork env) := by
  intro s s' z ran
  cases tryEach_ok ran with
  | inl native =>
    obtain ⟨addr, provider, s₁, found⟩ := native
    exact fetchRootNative_arrives env r provider s₁ s' z found
  | inr http =>
    obtain ⟨s₁, found⟩ := http
    exact fetchRoot_arrives env r s₁ s' z found

/-- What a refresh does: the key is at most newly pinned, and the zone it returns is trusted. -/
theorem refreshRoot_outcome {s s' : ResolverState} {res : Result RootZone}
    (memory : RootTrusted s) (ran : exec (r.refreshRoot env) s = (res, s')) :
    KeyUpdate s s' ∧ RootOutcome r env s s' res := by
  rw [refreshRoot, exec_bind, exec_attempt] at ran
  have fetchKeeps := keeps_fetchRootNetwork env r s
  have fetchArrives := fetchRootNetwork_arrives env r s
  generalize exec (r.fetchRootNetwork env) s = fetch at ran fetchKeeps fetchArrives
  obtain ⟨outcome, s₁⟩ := fetch
  have keeps : KeepsRoot s s₁ := fetchKeeps.keepsRoot
  have memory₁ : RootTrusted s₁ := fun z held => by
    rw [Trusts, keeps.key]
    exact memory z (keeps.root ▸ held)
  suffices from₁ : KeyUpdate s₁ s' ∧ RootOutcome r env s₁ s' res from
    ⟨keeps.keyUpdate.trans from₁.1, from₁.2.of_same keeps.root keeps.zoneFile⟩
  cases outcome with
  | ok zone =>
    obtain ⟨arrived, valid⟩ := fetchArrives s₁ zone rfl
    simp only [exec_bind, exec_attempt] at ran
    generalize verified : exec (verifyZone env zone) s₁ = verdict at ran
    obtain ⟨passed, s₂⟩ := verdict
    obtain ⟨keyUpdate, root, file, trusts, -⟩ := verifyZone_update env verified
    have memory₂ : RootTrusted s₂ := fun z held => by
      obtain ⟨key, pinned, passes⟩ := memory₁ z (root ▸ held)
      exact ⟨key, (keyUpdate.stays key pinned).1, passes⟩
    cases passed with
    | ok done =>
      obtain ⟨key, pinned, passes⟩ := trusts rfl
      obtain ⟨update, result⟩ :=
        acceptRoot_outcome env pinned passes memory₂ arrived valid ran
      exact ⟨keyUpdate.trans update, result.of_same root file⟩
    | error e =>
      simp only [exec_bind, exec_attempt] at ran
      generalize fell : exec (verifiedCache env) s₂ = cache at ran
      obtain ⟨found, s₃⟩ := cache
      obtain ⟨update, root', file', gives⟩ := verifiedCache_update env fell
      refine ⟨?_, .of_same root file (?_ : RootOutcome r env s₂ s' res)⟩
      · cases found <;> obtain ⟨rfl, rfl⟩ := Prod.mk.inj ran
        · exact keyUpdate.trans update
        · exact keyUpdate.trans ⟨update.ticks, update.stays, update.pins⟩
      · cases found with
        | error _ =>
          obtain ⟨rfl, rfl⟩ := Prod.mk.inj ran
          exact .failed root' file'
        | ok cached =>
          obtain ⟨rfl, rfl⟩ := Prod.mk.inj ran
          obtain ⟨fromFile, trusted⟩ := gives cached rfl
          exact .returned rfl trusted (.inr ⟨file', .inr fromFile⟩)
  | error e =>
    simp only [exec_bind, exec_attempt] at ran
    generalize loaded : exec rootCacheLoad s₁ = load at ran
    obtain ⟨found, s₂⟩ := load
    obtain ⟨rfl, reads⟩ := rootCacheLoad_eq loaded
    cases found with
    | error _ =>
      obtain ⟨rfl, rfl⟩ := Prod.mk.inj ran
      exact ⟨(Std.Refl.refl s₂ : KeepsRoot s₂ s₂).keyUpdate, .failed rfl rfl⟩
    | ok zone =>
      simp only [exec_bind] at ran
      generalize verified : exec (verifyZone env zone) s₂ = verdict at ran
      obtain ⟨passed, s₃⟩ := verdict
      obtain ⟨keyUpdate, root, file, trusts, -⟩ := verifyZone_update env verified
      cases passed with
      | error _ =>
        obtain ⟨rfl, rfl⟩ := Prod.mk.inj ran
        exact ⟨keyUpdate, .failed root file⟩
      | ok done =>
        obtain ⟨rfl, rfl⟩ := Prod.mk.inj ran
        exact ⟨⟨keyUpdate.ticks, keyUpdate.stays, keyUpdate.pins⟩,
          .returned rfl (trusts rfl) (.inr ⟨file, .inr ((reads zone).mp rfl)⟩)⟩

/-- A resolver without a pinned key pins the one of the self-consistent zone that it fetches. -/
theorem refreshRoot_pins {s : ResolverState} {zone : RootZone} (unpinned : s.trustedRootKey = none)
    (fetched : (exec (r.fetchRootNetwork env) s).1 = .ok zone)
    (own : zone.verify zone.rootPublicKey = .ok ()) (writes : ∀ n, env.file n = .ok ())
    (unheld : s.root = none) :
    (exec (r.refreshRoot env) s).2.trustedRootKey = some zone.rootPublicKey := by
  have ticks := keeps_fetchRootNetwork env r s
  have arrives := fetchRootNetwork_arrives env r s
  rw [refreshRoot, exec_bind, exec_attempt]
  generalize exec (r.fetchRootNetwork env) s = fetch at fetched ticks arrives
  obtain ⟨outcome, s₁⟩ := fetch
  obtain rfl : outcome = .ok zone := fetched
  have keeps : KeepsRoot s s₁ := ticks.keepsRoot
  obtain ⟨arrived, valid⟩ := arrives s₁ zone rfl
  simp only [exec_bind, exec_attempt]
  rcases verifyZone_cases env zone s₁ with ⟨key, pinned, -⟩ | ⟨-, ⟨-, ran⟩ | failed⟩
  · rw [keeps.key, unpinned] at pinned
    cases pinned
  · rw [ran]
    simp only
    generalize accepted : exec (acceptRoot env zone) _ = accept
    obtain ⟨res, s'⟩ := accept
    have memory : RootTrusted { s₁ with
        trustedRootKey := some zone.rootPublicKey
        disk := { s₁.disk with trustedRootKey := some zone.rootPublicKey }
        ticks := s₁.ticks + 1 } := by
      intro z held
      have absent : s₁.root = none := keeps.root.trans unheld
      cases absent.symm.trans held
    exact ((acceptRoot_outcome env rfl own memory arrived valid accepted).1.stays _ rfl).1
  · obtain ⟨e, keyFile, n, -, ran⟩ := failed
    have succeeded : (exec (verifyZone env zone) s₁).1 = .ok () := by
      have wrote := writes s₁.ticks
      have none' := keeps.key.trans unpinned
      simp [verifyZone, Environment.overwriteFile, exec_bind, none', own, wrote, mapError]
    rw [ran] at succeeded
    cases succeeded

/-- What `root` does: a zone in memory is returned as it is, and otherwise it refreshes. -/
theorem root_outcome {s s' : ResolverState} {res : Result RootZone} (memory : RootTrusted s)
    (ran : exec (r.root env) s = (res, s')) : KeyUpdate s s' ∧ RootOutcome r env s s' res := by
  rw [Resolver.root, exec_bind, exec_get] at ran
  cases held : s.root with
  | some zone =>
    simp only [held] at ran
    obtain ⟨rfl, rfl⟩ := Prod.mk.inj ran
    exact ⟨(Std.Refl.refl s : KeepsRoot s s).keyUpdate,
      .returned held (memory zone held) (.inr ⟨rfl, .inl held⟩)⟩
  | none =>
    simp only [held] at ran
    exact refreshRoot_outcome env r memory ran

end Refresh

end Federate
