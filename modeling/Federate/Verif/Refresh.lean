import Federate.Resolution.Refresh
import Federate.Verif.Availability
import Federate.Verif.Rollback

/-!
# The root zone under overlapping refreshes

A call that runs alone does what `root` and `refresh_root` do. Calls that overlap, in any order of
their accesses and with any answers from the network, never change a pinned key and never hold or
return a zone that does not verify under it, nor one older than what was held before any of them
began. They do not keep more than that: of two that overlap, the one that fetched the older zone
may come last.
-/

namespace Federate

open Outcome Stateful Resolver

variable [Externals] [SerdeDocuments] [ResolverExternals]

omit [SerdeDocuments] [ResolverExternals] in
/-- A zone is written to the cache file. -/
theorem exec_rootCacheStore {env : Environment} {s : ResolverState} (zone : RootZone)
    (succeeds : env.file s.ticks = .ok ()) : exec (rootCacheStore env zone) s =
      (.ok (), { s with
        ticks := s.ticks + 1
        disk := { s.disk with rootZone := some (Externals.toVecPretty zone.toJson) } }) :=
  Environment.exec_changeFile succeeds _

omit [SerdeDocuments] [ResolverExternals] in
/-- A zone cannot be written to the cache file. -/
theorem exec_rootCacheStore_error {env : Environment} {s : ResolverState} {e : String}
    (zone : RootZone) (fails : env.file s.ticks = .error e) :
    exec (rootCacheStore env zone) s = (.error (.io e), { s with ticks := s.ticks + 1 }) := by
  rw [rootCacheStore, Environment.changeFile, exec_bind, exec_ask, fails]
  rfl

/-! ## A call that runs alone -/

/-- Alone from here, the call ends as the program does. -/
def Refresh.Ends (r : Resolver) (env : Environment) (task : Refresh) (s : ResolverState)
    (program : ResolverM RootZone) : Prop :=
  Tasks.Leads (Refresh.step r) env (s, task) ((exec program s).2, .done (exec program s).1)

namespace Refresh

variable (r : Resolver) (env : Environment) (s : ResolverState)

/-- A call that holds a zone returns it. -/
theorem holding_ends (zone : RootZone) :
    Ends r env (holding zone) s (do
      holdRoot zone
      return zone) :=
  .next rfl (.refl _ _)

/-- A call that stores a zone holds and returns it, unless storing fails. -/
theorem storing_ends (zone : RootZone) :
    Ends r env (storing zone) s (do
      rootCacheStore env zone
      holdRoot zone
      return zone) := by
  unfold Ends
  cases stored : exec (rootCacheStore env zone) s with
  | mk res s' =>
    cases res with
    | ok done =>
      rw [exec_bind_ok stored]
      have now : step r env (storing zone) s = (s', holding zone) := by simp only [step, stored]
      exact .next now (holding_ends r env s' zone)
    | error e =>
      rw [exec_bind_error stored]
      have now : step r env (storing zone) s = (s', done (.error e)) := by
        simp only [step, stored]
      exact .next now (.refl _ _)

/-- Verifying a zone takes as many accesses as the pinned key needs. -/
theorem verifying_leads (aim : Aim) {zone : RootZone} {verdict : Result Unit} {s' : ResolverState}
    (verified : exec (verifyZone env zone) s = (verdict, s')) :
    Tasks.Leads (step r) env (s, verifying aim zone) (s', decided zone aim verdict) := by
  obtain rfl : (exec (verifyZone env zone) s).1 = verdict := by rw [verified]
  obtain rfl : (exec (verifyZone env zone) s).2 = s' := by rw [verified]
  clear verified
  cases pinned : s.trustedRootKey with
  | some key =>
    have whole : exec (verifyZone env zone) s = (zone.verify key, s) := by
      simp [verifyZone, exec_bind, pinned]
    have now : step r env (verifying aim zone) s = (s, decided zone aim (zone.verify key)) := by
      simp only [step, pinned]
    rw [whole]
    exact .next now (.refl _ _)
  | none =>
    cases own : zone.verify zone.rootPublicKey with
    | error e =>
      have whole : exec (verifyZone env zone) s = (.error e, s) := by
        simp [verifyZone, exec_bind, pinned, own]
      have now : step r env (verifying aim zone) s = (s, decided zone aim (.error e)) := by
        simp only [step, pinned, own]
      rw [whole]
      exact .next now (.refl _ _)
    | ok verified =>
      have now : step r env (verifying aim zone) s = (s, persisting aim zone) := by
        simp only [step, pinned, own]
      refine .next now ?_
      cases wrote : exec (env.overwriteFile
          (fun part d => { d with trustedRootKey := some (String.ofList part) })
          zone.rootPublicKey.toList) s with
      | mk res s' =>
        cases res with
        | error e =>
          have whole : exec (verifyZone env zone) s = (.error e, s') := by
            simp [verifyZone, exec_bind, pinned, own, wrote]
          have then' : step r env (persisting aim zone) s =
              (s', decided zone aim (.error e)) := by simp only [step, wrote]
          rw [whole]
          exact .next then' (.refl _ _)
        | ok persisted =>
          have whole : exec (verifyZone env zone) s =
              (.ok (), { s' with trustedRootKey := some zone.rootPublicKey }) := by
            simp [verifyZone, exec_bind, pinned, own, wrote]
          have then' : step r env (persisting aim zone) s = (s', pinning aim zone) := by
            simp only [step, wrote]
          rw [whole]
          exact .next then' (.next rfl (.refl _ _))

/-- The cache file is read, and what it holds is verified. -/
theorem loading_leads (use : CacheUse) {cached : RootZone} {verdict : Result Unit}
    {s₁ s' : ResolverState} (loaded : exec rootCacheLoad s = (.ok cached, s₁))
    (verified : exec (verifyZone env cached) s₁ = (verdict, s')) :
    Tasks.Leads (step r) env (s, loading use) (s', decided cached (.cached use) verdict) := by
  have now : step r env (loading use) s = (s₁, verifying (.cached use) cached) := by
    simp only [step, loaded]
  exact .next now (verifying_leads r env s₁ (.cached use) verified)

/-- The cache file cannot be read. -/
theorem loading_leads_unread (use : CacheUse) {e : FederateError} {s' : ResolverState}
    (failed : exec rootCacheLoad s = (.error e, s')) :
    Tasks.Leads (step r) env (s, loading use) (s', unread use) := by
  have now : step r env (loading use) s = (s', unread use) := by simp only [step, failed]
  exact .next now (.refl _ _)

end Refresh

/-- `acceptRoot` once the last verified zone is known. -/
def acceptOver (env : Environment) (zone : RootZone) : Option RootZone → ResolverM RootZone
  | some known =>
    if zone.rootVersion < known.rootVersion then do
      holdRoot known
      return known
    else do
      rootCacheStore env zone
      holdRoot zone
      return zone
  | none => do
    rootCacheStore env zone
    holdRoot zone
    return zone

omit [ResolverExternals] in
/-- Accepting a zone asks for the last verified one first. -/
theorem exec_acceptRoot {env : Environment} {s s' : ResolverState} {known : Option RootZone}
    (zone : RootZone) (asked : exec (lastVerifiedZone env) s = (.ok known, s')) :
    exec (acceptRoot env zone) s = exec (acceptOver env zone known) s' := by
  rw [acceptRoot, exec_bind_ok asked]
  cases known with
  | none => rfl
  | some known => rfl

omit [ResolverExternals] in
/-- Where memory holds no zone, a verified one in the cache file is the last verified one. -/
theorem exec_lastVerifiedZone_none {env : Environment} {s s' : ResolverState}
    {res : Result RootZone} (unheld : s.root = none)
    (ran : exec (verifiedCache env) s = (res, s')) :
    exec (lastVerifiedZone env) s = (.ok res.toOption, s') := by
  simp only [lastVerifiedZone, exec_bind, exec_get, unheld, exec_attempt, ran, exec_pure]

namespace Refresh

variable (r : Resolver) (env : Environment) (s : ResolverState)

/-- A zone compared with the last verified one, which stays when it is newer. -/
theorem compare_ends (zone known : RootZone) :
    Ends r env (compare zone known) s (acceptOver env zone (some known)) := by
  simp only [compare, acceptOver]
  split
  · exact holding_ends r env s known
  · exact storing_ends r env s zone

/-- A zone that was fetched and verified is accepted or not. -/
theorem looking_ends (zone : RootZone) : Ends r env (looking zone) s (acceptRoot env zone) := by
  unfold Ends
  cases held : s.root with
  | some known =>
    have now : step r env (looking zone) s = (s, compare zone known) := by
      simp only [step, held]
    have asked : exec (lastVerifiedZone env) s = (.ok (some known), s) := by
      simp only [lastVerifiedZone, exec_bind, exec_get, held, exec_pure]
    rw [exec_acceptRoot zone asked]
    exact .next now (compare_ends r env s zone known)
  | none =>
    have now : step r env (looking zone) s = (s, loading (.known zone)) := by
      simp only [step, held]
    apply Tasks.Leads.next now
    cases loaded : exec rootCacheLoad s with
    | mk res s₁ =>
      cases res with
      | error e =>
        have failed : exec (verifiedCache env) s = (.error e, s₁) := by
          rw [verifiedCache, exec_bind_error loaded]
        have asked := exec_lastVerifiedZone_none held failed
        rw [exec_acceptRoot zone asked]
        exact .trans (loading_leads_unread r env s (.known zone) loaded)
          (storing_ends r env s₁ zone)
      | ok cached =>
        cases verified : exec (verifyZone env cached) s₁ with
        | mk verdict s₂ =>
          have read := loading_leads r env s (.known zone) loaded verified
          cases verdict with
          | error e =>
            have asked := exec_lastVerifiedZone_none held
              (by rw [verifiedCache, exec_bind_ok loaded, exec_bind_error verified])
            rw [exec_acceptRoot zone asked]
            exact .trans read (storing_ends r env s₂ zone)
          | ok passed =>
            have asked := exec_lastVerifiedZone_none held
              (by rw [verifiedCache, exec_bind_ok loaded, exec_bind_ok verified, exec_pure])
            rw [exec_acceptRoot zone asked]
            exact .trans read (compare_ends r env s₂ zone cached)

/-- A refresh that runs alone is `refresh_root`. -/
theorem fetching_ends : Ends r env fetching s (r.refreshRoot env) := by
  unfold Ends
  cases fetched : exec (r.fetchRootNetwork env) s with
  | mk res s₁ =>
    cases res with
    | ok zone =>
      have now : step r env fetching s = (s₁, verifying .fetched zone) := by
        simp only [step, fetched]
      apply Tasks.Leads.next now
      cases verified : exec (verifyZone env zone) s₁ with
      | mk verdict s₂ =>
        apply Tasks.Leads.trans (verifying_leads r env s₁ .fetched verified)
        cases verdict with
        | ok passed =>
          have whole : exec (r.refreshRoot env) s = exec (acceptRoot env zone) s₂ := by
            simp only [refreshRoot, exec_bind, exec_attempt, fetched, verified]
          rw [whole]
          exact looking_ends r env s₂ zone
        | error e =>
          cases loaded : exec rootCacheLoad s₂ with
          | mk found s₃ =>
            cases found with
            | error e' =>
              have whole : exec (r.refreshRoot env) s = (.error e, s₃) := by
                simp only [refreshRoot, exec_bind, exec_attempt, fetched, verified,
                  verifiedCache, loaded, exec_throw]
              rw [whole]
              exact loading_leads_unread r env s₂ (.instead e) loaded
            | ok cached =>
              cases checked : exec (verifyZone env cached) s₃ with
              | mk outcome s₄ =>
                have read := loading_leads r env s₂ (.instead e) loaded checked
                cases outcome with
                | error e' =>
                  have whole : exec (r.refreshRoot env) s = (.error e, s₄) := by
                    simp only [refreshRoot, exec_bind, exec_attempt, fetched, verified,
                      verifiedCache, loaded, checked, exec_throw]
                  rw [whole]
                  exact read
                | ok passed =>
                  have whole : exec (r.refreshRoot env) s = exec (do
                      holdRoot cached
                      return cached) s₄ := by
                    simp only [refreshRoot, exec_bind, exec_attempt, fetched, verified,
                      verifiedCache, loaded, checked, exec_pure]
                  rw [whole]
                  exact .trans read (holding_ends r env s₄ cached)
    | error e =>
      have now : step r env fetching s = (s₁, loading .offline) := by simp only [step, fetched]
      apply Tasks.Leads.next now
      cases loaded : exec rootCacheLoad s₁ with
      | mk found s₂ =>
        cases found with
        | error e' =>
          have whole : exec (r.refreshRoot env) s = (.error .rootUnavailable, s₂) := by
            simp only [refreshRoot, exec_bind, exec_attempt, fetched, loaded, exec_throw]
          rw [whole]
          exact loading_leads_unread r env s₁ .offline loaded
        | ok cached =>
          cases checked : exec (verifyZone env cached) s₂ with
          | mk outcome s₃ =>
            have read := loading_leads r env s₁ .offline loaded checked
            cases outcome with
            | error e' =>
              have whole : exec (r.refreshRoot env) s = (.error e', s₃) := by
                simp only [refreshRoot, exec_bind, exec_attempt, fetched, loaded, checked]
              rw [whole]
              exact read
            | ok passed =>
              have whole : exec (r.refreshRoot env) s = exec (do
                  holdRoot cached
                  return cached) s₃ := by
                simp only [refreshRoot, exec_bind, exec_attempt, fetched, loaded, checked]
              rw [whole]
              exact .trans read (holding_ends r env s₃ cached)

/-- A call of `root` that runs alone is `root`. -/
theorem asking_ends : Ends r env asking s (r.root env) := by
  unfold Ends
  cases held : s.root with
  | some zone =>
    have now : step r env asking s = (s, done (.ok zone)) := by simp only [step, held]
    have whole : exec (r.root env) s = (.ok zone, s) := by
      simp only [root, exec_bind, exec_get, held, exec_pure]
    rw [whole]
    exact .next now (.refl _ _)
  | none =>
    have now : step r env asking s = (s, fetching) := by simp only [step, held]
    have whole : exec (r.root env) s = exec (r.refreshRoot env) s := by
      simp only [root, exec_bind, exec_get, held]
    rw [whole]
    exact .next now (fetching_ends r env s)

end Refresh

/-! ## Calls that overlap -/

section Overlap

variable {key : String} {floor : UInt64} {first : Prop}

/-- A zone that may be held and returned. -/
structure RootZone.AtLeast (key : String) (floor : UInt64) (z : RootZone) : Prop where
  /-- It verifies under the pinned key. -/
  verifies : z.verify key = .ok ()
  /-- It is not older than the floor. -/
  notOlder : floor ≤ z.rootVersion

/-- A zone whose stored text reads as no older one than the floor, if it is not older itself. -/
def RootZone.Storable (floor : UInt64) (z : RootZone) : Prop := floor = 0 ∨ z.ReadsBack

/-- No verified zone of the cache file is older than the floor. -/
def ResolverDisk.Floored (key : String) (floor : UInt64) (d : ResolverDisk) : Prop :=
  ∀ z, Cached d z → z.verify key = .ok () → floor ≤ z.rootVersion

/-- What overlapping calls keep of the resolver's state. -/
structure ResolverState.Floored (key : String) (floor : UInt64) (first : Prop)
    (s : ResolverState) : Prop where
  /-- The key stays pinned. -/
  pinned : s.trustedRootKey = some key
  /-- The zone in memory may be held. -/
  memory : ∀ z, s.root = some z → z.AtLeast key floor
  /-- So may the one in the cache file, when it verifies. -/
  file : s.disk.Floored key floor
  /-- Memory is empty at most at first, without a floor. -/
  unheld : s.root = none → first ∧ floor = 0

/-- What a call that reads the cache file has fetched: nothing in memory was compared with it. -/
def CacheUse.Floored (key : String) (floor : UInt64) : CacheUse → Prop
  | .known fetched => fetched.verify key = .ok () ∧ fetched.Storable floor ∧ floor = 0
  | .instead _ => True
  | .offline => True

/-- What a call knows where it stands. -/
def Refresh.Floored (key : String) (floor : UInt64) : Refresh → Prop
  | .asking => True
  | .fetching => True
  | .verifying .fetched zone => zone.Storable floor
  | .verifying (.cached use) zone =>
    use.Floored key floor ∧ (zone.verify key = .ok () → floor ≤ zone.rootVersion)
  | .persisting _ _ => False
  | .pinning _ _ => False
  | .looking fetched => fetched.verify key = .ok () ∧ fetched.Storable floor
  | .loading use => use.Floored key floor
  | .storing zone => zone.AtLeast key floor ∧ zone.Storable floor
  | .holding zone => zone.AtLeast key floor
  | .done (.ok zone) => zone.AtLeast key floor
  | .done (.error _) => True

omit [ResolverExternals] in
/-- The newer of a fetched zone and a known one may be stored or held. -/
theorem Refresh.compare_floored {zone known : RootZone} (verifies : zone.verify key = .ok ())
    (storable : zone.Storable floor) (atLeast : known.AtLeast key floor) :
    (compare zone known).Floored key floor := by
  unfold compare
  split
  · exact atLeast
  · rename_i notOlder
    have above : known.rootVersion ≤ zone.rootVersion := UInt64.not_lt.mp notOlder
    exact ⟨⟨verifies, UInt64.le_trans atLeast.notOlder above⟩, storable⟩

omit [ResolverExternals] in
/-- With the key pinned, a verdict on a zone is the zone's own. -/
theorem Refresh.decided_floored {zone : RootZone} {aim : Aim}
    (known : (verifying aim zone).Floored key floor) :
    (decided zone aim (zone.verify key)).Floored key floor := by
  cases verdict : zone.verify key with
  | ok passed =>
    cases aim with
    | fetched => exact ⟨verdict, known⟩
    | cached use =>
      have atLeast : zone.AtLeast key floor := ⟨verdict, known.2 verdict⟩
      cases use with
      | known fetched => exact compare_floored known.1.1 known.1.2.1 atLeast
      | instead e => exact atLeast
      | offline => exact atLeast
  | error e =>
    cases aim with
    | fetched => trivial
    | cached use =>
      cases use with
      | known fetched =>
        have lowest : floor ≤ fetched.rootVersion := by
          rw [known.1.2.2]
          exact UInt64.zero_le
        exact ⟨⟨known.1.1, lowest⟩, known.1.2.1⟩
      | instead e' => trivial
      | offline => trivial

omit [ResolverExternals] in
/-- Where the cache file cannot be read, a fetched zone meets the floor only if there is none. -/
theorem Refresh.unread_floored {use : CacheUse} (known : use.Floored key floor) :
    (unread use).Floored key floor := by
  cases use with
  | known fetched =>
    have lowest : floor ≤ fetched.rootVersion := by
      rw [known.2.2]
      exact UInt64.zero_le
    exact ⟨⟨known.1, lowest⟩, known.2.1⟩
  | instead e => trivial
  | offline => trivial

omit [ResolverExternals] in
/-- A state that differs in its operations only. -/
theorem ResolverState.Floored.ticked {s : ResolverState} (floored : s.Floored key floor first)
    (n : ℕ) : ResolverState.Floored key floor first { s with ticks := n } :=
  ⟨floored.pinned, floored.memory, floored.file, floored.unheld⟩

omit [ResolverExternals] in
/-- A stored zone is the cached one. -/
theorem ResolverDisk.floored_stored {zone : RootZone} (atLeast : zone.AtLeast key floor)
    (storable : zone.Storable floor) (d : ResolverDisk) :
    ResolverDisk.Floored key floor
      { d with rootZone := some (Externals.toVecPretty zone.toJson) } := by
  intro z cached verifies
  cases storable with
  | inl lowest =>
    rw [lowest]
    exact UInt64.zero_le
  | inr back =>
    obtain ⟨bytes, held, reads, -⟩ := cached
    have same : Externals.toVecPretty zone.toJson = bytes := Option.some.inj held
    rw [← same, back] at reads
    rw [← Except.ok.inj reads]
    exact atLeast.notOlder

/-- One access keeps the floor. -/
theorem Refresh.step_floored (r : Resolver) (env : Environment) (task : Refresh)
    (s : ResolverState) (arriving : ∀ z, Arrives r env z → z.Storable floor)
    (floored : s.Floored key floor first) (known : task.Floored key floor) :
    (step r env task s).1.Floored key floor first ∧ (step r env task s).2.Floored key floor := by
  cases task with
  | asking =>
    cases held : s.root with
    | some zone =>
      simp only [step, held]
      exact ⟨floored, floored.memory zone held⟩
    | none =>
      simp only [step, held]
      exact ⟨floored, trivial⟩
  | fetching =>
    have keeps := keeps_fetchRootNetwork env r s
    have arrives := fetchRootNetwork_arrives env r s
    cases fetched : exec (r.fetchRootNetwork env) s with
    | mk res s₁ =>
      rw [fetched] at keeps
      obtain ⟨n, -, rfl⟩ := keeps
      cases res with
      | ok zone =>
        simp only [step, fetched]
        exact ⟨floored.ticked n, arriving zone (arrives _ zone fetched).1⟩
      | error e =>
        simp only [step, fetched]
        exact ⟨floored.ticked n, trivial⟩
  | verifying aim zone =>
    simp only [step, floored.pinned]
    exact ⟨floored, decided_floored known⟩
  | persisting aim zone => exact known.elim
  | pinning aim zone => exact known.elim
  | looking fetched =>
    cases held : s.root with
    | some zone =>
      simp only [step, held]
      exact ⟨floored, compare_floored known.1 known.2 (floored.memory zone held)⟩
    | none =>
      have lowest : floor = 0 := (floored.unheld held).2
      simp only [step, held]
      exact ⟨floored, known.1, known.2, lowest⟩
  | loading use =>
    cases loaded : exec rootCacheLoad s with
    | mk res s₁ =>
      have load := rootCacheLoad_eq loaded
      cases res with
      | ok zone =>
        have cached : Cached s.disk zone := (load.2 zone).mp rfl
        simp only [step, loaded]
        rw [load.1]
        exact ⟨floored, known, floored.file zone cached⟩
      | error e =>
        simp only [step, loaded]
        rw [load.1]
        exact ⟨floored, unread_floored known⟩
  | storing zone =>
    cases wrote : env.file s.ticks with
    | ok written =>
      have stored := exec_rootCacheStore zone wrote
      simp only [step, stored]
      have file := ResolverDisk.floored_stored known.1 known.2 s.disk
      exact ⟨⟨floored.pinned, floored.memory, file, floored.unheld⟩, known.1⟩
    | error e =>
      have stored := exec_rootCacheStore_error zone wrote
      simp only [step, stored]
      exact ⟨floored.ticked _, trivial⟩
  | holding zone =>
    have memory : ∀ z, some zone = some z → z.AtLeast key floor := fun z held => by
      rw [← Option.some.inj held]
      exact known
    have unheld : some zone = none → first ∧ floor = 0 := fun empty => by cases empty
    exact ⟨⟨floored.pinned, memory, floored.file, unheld⟩, known⟩
  | done res => exact ⟨floored, known⟩

/-- A turn of the resolver: it begins a call of `root` or `refresh_root`, lets a call go on, or
another program leaves files of this kind. -/
def OverlapTurn (kind : ResolverDisk → Prop) : Tasks.Turn Refresh Environment ResolverDisk → Prop
  | .begin task => task = .asking ∨ task = .fetching
  | .step _ _ => True
  | .outside disk => kind disk

/-- What arrives while a call goes on is read back from the cache file as it was. -/
def FaithfulTurn (r : Resolver) : Tasks.Turn Refresh Environment ResolverDisk → Prop
  | .step _ env => ∀ z, Arrives r env z → z.ReadsBack
  | _ => True

/-- The key is pinned, and the zone in memory and every returned one is an allowed one. -/
structure ServesOnly (key : String) (allowed : RootZone → Prop)
    (p : Tasks ResolverState Refresh) : Prop where
  /-- The key is pinned. -/
  pinned : p.shared.trustedRootKey = some key
  /-- The zone in memory is allowed. -/
  memory : ∀ z, p.shared.root = some z → allowed z
  /-- So is every zone that a call has returned. -/
  returned : ∀ z, Refresh.done (.ok z) ∈ p.tasks → allowed z

/-- Overlapping calls keep the floor, whatever happens between their accesses. -/
theorem ResolverState.Floored.overlap (r : Resolver) {s : ResolverState}
    (floored : s.Floored key floor first)
    {turns : List (Tasks.Turn Refresh Environment ResolverDisk)}
    (own : ∀ turn ∈ turns, OverlapTurn (ResolverDisk.Floored key floor) turn)
    (faithful : floor = 0 ∨ ∀ turn ∈ turns, FaithfulTurn r turn) :
    Tasks.Holds (ResolverState.Floored key floor first) (Refresh.Floored key floor)
      (Transition.run r.overlap ⟨s, []⟩ turns) := by
  have idle : Tasks.Holds (ResolverState.Floored key floor first) (Refresh.Floored key floor)
      ⟨s, []⟩ := ⟨floored, fun task member => absurd member List.not_mem_nil⟩
  apply idle.run (Refresh.step_floored r)
  apply Transition.guarded_of_forall
  intro turn member p
  have allowed := own turn member
  cases turn with
  | begin task =>
    cases allowed with
    | inl asked =>
      rw [asked]
      trivial
    | inr refreshed =>
      rw [refreshed]
      trivial
  | step place env =>
    intro z arrives
    cases faithful with
    | inl lowest => exact .inl lowest
    | inr back => exact .inr (back _ member z arrives)
  | outside disk =>
    exact fun floored => ⟨floored.pinned, floored.memory, allowed, floored.unheld⟩

omit [ResolverExternals] in
/-- What overlapping calls serve above the floor. -/
theorem ServesOnly.of_floored {p : Tasks ResolverState Refresh}
    (holds : Tasks.Holds (ResolverState.Floored key floor first) (Refresh.Floored key floor) p) :
    ServesOnly key (RootZone.AtLeast key floor) p :=
  ⟨holds.shared.pinned, holds.shared.memory, fun _ member => holds.tasks _ member⟩

/-- Calls of `root` and `refresh_root` that overlap in any way never change a pinned key, and never
hold or return a zone that does not verify under it, whatever the network answers and whatever
becomes of the files. -/
theorem overlap_trusted (r : Resolver) {s : ResolverState}
    (pinned : s.trustedRootKey = some key)
    (memory : ∀ z, s.root = some z → z.verify key = .ok ())
    {turns : List (Tasks.Turn Refresh Environment ResolverDisk)}
    (own : ∀ turn ∈ turns, OverlapTurn (fun _ => True) turn) :
    ServesOnly key (fun z => z.verify key = .ok ()) (Transition.run r.overlap ⟨s, []⟩ turns) := by
  have floored : s.Floored key 0 True :=
    ⟨pinned, fun z held => ⟨memory z held, UInt64.zero_le⟩, fun _ _ _ => UInt64.zero_le,
      fun _ => ⟨trivial, rfl⟩⟩
  have lowest : ∀ turn ∈ turns, OverlapTurn (ResolverDisk.Floored key 0) turn := by
    intro turn member
    have allowed := own turn member
    cases turn with
    | begin task => exact allowed
    | step place env => trivial
    | outside disk => exact fun _ _ _ => UInt64.zero_le
  have serves := ServesOnly.of_floored (floored.overlap r lowest (.inl rfl))
  exact ⟨serves.pinned, fun z held => (serves.memory z held).verifies,
    fun z member => (serves.returned z member).verifies⟩

/-- A verified zone in memory is a floor for all calls that begin after, when no older one is in the
cache file: however they overlap, the resolver keeps a zone in memory, and it and every zone
returned is verified and not older. -/
theorem overlap_floor (r : Resolver) {s : ResolverState} {known : RootZone}
    (pinned : s.trustedRootKey = some key) (held : s.root = some known)
    (verified : known.verify key = .ok ()) (file : s.disk.Floored key known.rootVersion)
    {turns : List (Tasks.Turn Refresh Environment ResolverDisk)}
    (own : ∀ turn ∈ turns, OverlapTurn (ResolverDisk.Floored key known.rootVersion) turn)
    (faithful : ∀ turn ∈ turns, FaithfulTurn r turn) :
    let p := Transition.run r.overlap ⟨s, []⟩ turns
    p.shared.root ≠ none ∧ ServesOnly key
      (fun z => z.verify key = .ok () ∧ known.rootVersion ≤ z.rootVersion) p := by
  intro p
  have memory : ∀ z, s.root = some z → z.AtLeast key known.rootVersion := by
    intro z held'
    have same : known = z := Option.some.inj (held.symm.trans held')
    rw [← same]
    exact ⟨verified, UInt64.le_refl _⟩
  have unheld : s.root = none → False ∧ known.rootVersion = 0 := by
    rw [held]
    exact fun empty => by cases empty
  have floored : s.Floored key known.rootVersion False := ⟨pinned, memory, file, unheld⟩
  have holds := floored.overlap r own (.inr faithful)
  have serves := ServesOnly.of_floored holds
  refine ⟨fun empty => (holds.shared.unheld empty).1, serves.pinned, ?_, ?_⟩
  · exact fun z held => ⟨(serves.memory z held).verifies, (serves.memory z held).notOlder⟩
  · exact fun z member => ⟨(serves.returned z member).verifies, (serves.returned z member).notOlder⟩

end Overlap

/-! ## What overlapping calls do not keep -/

section Races

variable {r : Resolver} {env : Environment} {s : ResolverState} {key : String} {zone : RootZone}

/-- A fetched zone that is not older than the one in memory comes to be stored. -/
theorem Refresh.fetching_leads_storing {known : RootZone}
    (served : ∀ s, (exec (r.fetchRootNetwork env) s).1 = .ok zone)
    (pinned : s.trustedRootKey = some key) (signed : zone.verify key = .ok ())
    (held : s.root = some known) (notOlder : known.rootVersion ≤ zone.rootVersion) :
    ∃ n, Tasks.Leads (step r) env (s, fetching) ({ s with ticks := n }, storing zone) := by
  have keeps := keeps_fetchRootNetwork env r s
  obtain ⟨n, -, after⟩ := keeps
  have fetched : exec (r.fetchRootNetwork env) s = (.ok zone, { s with ticks := n }) :=
    Prod.ext (served s) after
  have now : step r env fetching s = ({ s with ticks := n }, verifying .fetched zone) := by
    simp only [step, fetched]
  have checked : step r env (verifying .fetched zone) { s with ticks := n } =
      ({ s with ticks := n }, looking zone) := by
    simp only [step, pinned, signed, decided]
  have compared : step r env (looking zone) { s with ticks := n } =
      ({ s with ticks := n }, storing zone) := by
    simp only [step, held, compare, if_neg (UInt64.not_lt.mpr notOlder)]
  exact ⟨n, .next now (.next checked (.next compared (.refl _ _)))⟩

/-- A zone that comes to be stored ends up in the cache file and in memory. -/
theorem Refresh.storing_leads_done (writes : ∀ n, env.file n = .ok ()) (s : ResolverState) :
    Tasks.Leads (step r) env (s, storing zone)
      ({ s with
        ticks := s.ticks + 1
        disk := { s.disk with rootZone := some (Externals.toVecPretty zone.toJson) }
        root := some zone }, done (.ok zone)) := by
  have stored : step r env (storing zone) s =
      ({ s with
        ticks := s.ticks + 1
        disk := { s.disk with rootZone := some (Externals.toVecPretty zone.toJson) } },
        holding zone) := by
    simp only [step, exec_rootCacheStore zone (writes s.ticks)]
  exact .next stored (.next rfl (.refl _ _))

/-- Two refreshes may rewind the root zone: when both compare what they fetched with the zone in
memory before either stores it, the older one may be stored last, although the newer one was held
and returned before. -/
theorem overlap_rewinds {known older newer : RootZone} {envOlder envNewer : Environment}
    (pinned : s.trustedRootKey = some key) (held : s.root = some known)
    (notOlder : known.rootVersion ≤ older.rootVersion)
    (rises : older.rootVersion < newer.rootVersion)
    (olderSigned : older.verify key = .ok ()) (newerSigned : newer.verify key = .ok ())
    (olderServed : ∀ s, (exec (r.fetchRootNetwork envOlder) s).1 = .ok older)
    (newerServed : ∀ s, (exec (r.fetchRootNetwork envNewer) s).1 = .ok newer)
    (olderWrites : ∀ n, envOlder.file n = .ok ()) (newerWrites : ∀ n, envNewer.file n = .ok ()) :
    ∃ before after, (∀ turn ∈ before ++ after, OverlapTurn (fun _ => False) turn) ∧
      (Transition.run r.overlap ⟨s, []⟩ before).shared.root = some newer ∧
      Refresh.done (.ok newer) ∈ (Transition.run r.overlap ⟨s, []⟩ before).tasks ∧
      (Transition.run r.overlap ⟨s, []⟩ (before ++ after)).shared.root = some older ∧
      (Transition.run r.overlap ⟨s, []⟩ (before ++ after)).shared.disk.rootZone =
        some (Externals.toVecPretty older.toJson) := by
  have newerAbove : known.rootVersion ≤ newer.rootVersion :=
    UInt64.le_trans notOlder (UInt64.le_of_lt rises)
  obtain ⟨n, fetchOlder⟩ := Refresh.fetching_leads_storing olderServed pinned olderSigned held
    notOlder
  let s₁ : ResolverState := { s with ticks := n }
  obtain ⟨m, fetchNewer⟩ :=
    Refresh.fetching_leads_storing newerServed (show s₁.trustedRootKey = some key from pinned)
      newerSigned (show s₁.root = some known from held) newerAbove
  let s₂ : ResolverState := { s with
    ticks := m + 1
    disk := { s.disk with rootZone := some (Externals.toVecPretty newer.toJson) }
    root := some newer }
  have bothFetch : ∃ i, Transition.run r.overlap ⟨s, [.fetching, .fetching]⟩
      (List.replicate i (.step 0 envOlder)) = ⟨s₁, [.storing older, .fetching]⟩ :=
    fetchOlder.turns rfl rfl
  have newerEnds : ∃ i, Transition.run r.overlap ⟨s₁, [.storing older, .fetching]⟩
      (List.replicate i (.step 1 envNewer)) = ⟨s₂, [.storing older, .done (.ok newer)]⟩ :=
    (fetchNewer.trans (Refresh.storing_leads_done newerWrites _)).turns rfl rfl
  have olderEnds : ∃ i, Transition.run r.overlap ⟨s₂, [.storing older, .done (.ok newer)]⟩
      (List.replicate i (.step 0 envOlder)) =
        ⟨{ s₂ with
          ticks := m + 1 + 1
          disk := { s₂.disk with rootZone := some (Externals.toVecPretty older.toJson) }
          root := some older }, [.done (.ok older), .done (.ok newer)]⟩ :=
    (Refresh.storing_leads_done olderWrites s₂).turns rfl rfl
  obtain ⟨i, first⟩ := bothFetch
  obtain ⟨j, second⟩ := newerEnds
  obtain ⟨k, third⟩ := olderEnds
  let before : List (Tasks.Turn Refresh Environment ResolverDisk) :=
    .begin .fetching :: .begin .fetching ::
      (List.replicate i (.step 0 envOlder) ++ List.replicate j (.step 1 envNewer))
  have ran : Transition.run r.overlap ⟨s, []⟩ before =
      ⟨s₂, [.storing older, .done (.ok newer)]⟩ := by
    show Transition.run r.overlap ⟨s, [.fetching, .fetching]⟩ _ = _
    rw [Transition.run_append, first, second]
  refine ⟨before, List.replicate k (.step 0 envOlder), ?_, ?_⟩
  · intro turn member
    simp only [before, List.cons_append, List.mem_cons, List.mem_append,
      List.mem_replicate] at member
    rcases member with rfl | rfl | (⟨-, rfl⟩ | ⟨-, rfl⟩) | ⟨-, rfl⟩
    · exact .inr rfl
    · exact .inr rfl
    · trivial
    · trivial
    · trivial
  · rw [Transition.run_append, ran, third]
    exact ⟨rfl, List.mem_cons_of_mem _ List.mem_cons_self, rfl, rfl⟩

/-- Without a pinned key, a fetched zone that is signed by its own key comes to have it
persisted. -/
theorem Refresh.fetching_leads_persisting
    (served : ∀ s, (exec (r.fetchRootNetwork env) s).1 = .ok zone)
    (unpinned : s.trustedRootKey = none) (own : zone.verify zone.rootPublicKey = .ok ()) :
    ∃ n, Tasks.Leads (step r) env (s, fetching)
      ({ s with ticks := n }, persisting .fetched zone) := by
  have keeps := keeps_fetchRootNetwork env r s
  obtain ⟨n, -, after⟩ := keeps
  have fetched : exec (r.fetchRootNetwork env) s = (.ok zone, { s with ticks := n }) :=
    Prod.ext (served s) after
  have now : step r env fetching s = ({ s with ticks := n }, verifying .fetched zone) := by
    simp only [step, fetched]
  have checked : step r env (verifying .fetched zone) { s with ticks := n } =
      ({ s with ticks := n }, persisting .fetched zone) := by
    simp only [step, unpinned, own]
  exact ⟨n, .next now (.next checked (.refl _ _))⟩

/-- The key is written to its file first. -/
theorem Refresh.persisting_leads_pinning (writes : ∀ n, env.file n = .ok ())
    (s : ResolverState) :
    Tasks.Leads (step r) env (s, persisting .fetched zone)
      ({ s with
        ticks := s.ticks + 1
        disk := { s.disk with trustedRootKey := some zone.rootPublicKey } },
        pinning .fetched zone) := by
  have wrote : exec (env.overwriteFile
      (fun part d => { d with trustedRootKey := some (String.ofList part) })
      zone.rootPublicKey.toList) s = (.ok (), { s with
        ticks := s.ticks + 1
        disk := { s.disk with trustedRootKey := some zone.rootPublicKey } }) := by
    simp [Environment.overwriteFile, exec_bind, writes s.ticks, mapError]
  have now : step r env (persisting .fetched zone) s = ({ s with
      ticks := s.ticks + 1
      disk := { s.disk with trustedRootKey := some zone.rootPublicKey } },
      pinning .fetched zone) := by
    simp only [step, wrote]
  exact .next now (.refl _ _)

/-- A zone that was verified when nothing was held or cached is stored, held and returned. -/
theorem Refresh.looking_leads_done (writes : ∀ n, env.file n = .ok ()) (s : ResolverState)
    (unheld : s.root = none) (uncached : s.disk.rootZone = none) :
    Tasks.Leads (step r) env (s, looking zone)
      ({ s with
        ticks := s.ticks + 1
        disk := { s.disk with rootZone := some (Externals.toVecPretty zone.toJson) }
        root := some zone }, done (.ok zone)) := by
  have looked : step r env (looking zone) s = (s, loading (.known zone)) := by
    simp only [step, unheld]
  have missing : exec rootCacheLoad s =
      (.error (.io "No such file or directory (os error 2)"), s) := by
    simp [rootCacheLoad, readFile, exec_bind, uncached, okOr]
  have unread' := loading_leads_unread r env s (.known zone) missing
  exact .next looked (unread'.trans (storing_leads_done writes s))

/-- Two first uses may leave a resolver that trusts nobody consistently: each pins the key of the
zone it fetched, so that one key is pinned, the other is persisted, and a zone that does not verify
under the pinned key is held and was returned. -/
theorem overlap_first_use {one other : RootZone} {envOne envOther : Environment}
    (unpinned : s.trustedRootKey = none) (unheld : s.root = none)
    (uncached : s.disk.rootZone = none)
    (oneSigned : one.verify one.rootPublicKey = .ok ())
    (otherSigned : other.verify other.rootPublicKey = .ok ())
    (differ : one.rootPublicKey ≠ other.rootPublicKey)
    (oneServed : ∀ s, (exec (r.fetchRootNetwork envOne) s).1 = .ok one)
    (otherServed : ∀ s, (exec (r.fetchRootNetwork envOther) s).1 = .ok other)
    (oneWrites : ∀ n, envOne.file n = .ok ()) (otherWrites : ∀ n, envOther.file n = .ok ()) :
    ∃ turns, (∀ turn ∈ turns, OverlapTurn (fun _ => False) turn) ∧
      (Transition.run r.overlap ⟨s, []⟩ turns).shared.trustedRootKey =
        some other.rootPublicKey ∧
      (Transition.run r.overlap ⟨s, []⟩ turns).shared.disk.trustedRootKey =
        some one.rootPublicKey ∧
      (Transition.run r.overlap ⟨s, []⟩ turns).shared.root = some one ∧
      Refresh.done (.ok one) ∈ (Transition.run r.overlap ⟨s, []⟩ turns).tasks ∧
      one.verify other.rootPublicKey ≠ .ok () := by
  obtain ⟨n, oneFetches⟩ := Refresh.fetching_leads_persisting oneServed unpinned oneSigned
  let s₁ : ResolverState := { s with ticks := n }
  obtain ⟨m, otherFetches⟩ := Refresh.fetching_leads_persisting otherServed
    (show s₁.trustedRootKey = none from unpinned) otherSigned
  let s₂ : ResolverState := { s with
    ticks := m + 1
    disk := { s.disk with trustedRootKey := some other.rootPublicKey } }
  let s₃ : ResolverState := { s with
    ticks := m + 1 + 1
    disk := { s.disk with trustedRootKey := some one.rootPublicKey }
    trustedRootKey := some one.rootPublicKey }
  let s₄ : ResolverState := { s₃ with trustedRootKey := some other.rootPublicKey }
  let s₅ : ResolverState := { s₄ with
    ticks := s₄.ticks + 1
    disk := { s₄.disk with rootZone := some (Externals.toVecPretty one.toJson) }
    root := some one }
  have first : ∃ i, Transition.run r.overlap ⟨s, [.fetching, .fetching]⟩
      (List.replicate i (.step 0 envOne)) = ⟨s₁, [.persisting .fetched one, .fetching]⟩ :=
    oneFetches.turns rfl rfl
  have second : ∃ i, Transition.run r.overlap ⟨s₁, [.persisting .fetched one, .fetching]⟩
      (List.replicate i (.step 1 envOther)) =
        ⟨s₂, [.persisting .fetched one, .pinning .fetched other]⟩ :=
    (otherFetches.trans (Refresh.persisting_leads_pinning otherWrites _)).turns rfl rfl
  have pins : Tasks.Leads (Refresh.step r) envOne (s₂, .persisting .fetched one)
      (s₃, .looking one) :=
    (Refresh.persisting_leads_pinning oneWrites s₂).trans (.next rfl (.refl _ _))
  have third : ∃ i, Transition.run r.overlap
      ⟨s₂, [.persisting .fetched one, .pinning .fetched other]⟩
      (List.replicate i (.step 0 envOne)) = ⟨s₃, [.looking one, .pinning .fetched other]⟩ :=
    pins.turns rfl rfl
  have repins : Tasks.Leads (Refresh.step r) envOther (s₃, .pinning .fetched other)
      (s₄, .looking other) := .next rfl (.refl _ _)
  have fourth : ∃ i, Transition.run r.overlap ⟨s₃, [.looking one, .pinning .fetched other]⟩
      (List.replicate i (.step 1 envOther)) = ⟨s₄, [.looking one, .looking other]⟩ :=
    repins.turns rfl rfl
  have fifth : ∃ i, Transition.run r.overlap ⟨s₄, [.looking one, .looking other]⟩
      (List.replicate i (.step 0 envOne)) = ⟨s₅, [.done (.ok one), .looking other]⟩ :=
    (Refresh.looking_leads_done oneWrites s₄ unheld uncached).turns rfl rfl
  obtain ⟨a, first⟩ := first
  obtain ⟨b, second⟩ := second
  obtain ⟨c, third⟩ := third
  obtain ⟨d, fourth⟩ := fourth
  obtain ⟨e, fifth⟩ := fifth
  let turns : List (Tasks.Turn Refresh Environment ResolverDisk) :=
    .begin .fetching :: .begin .fetching :: (List.replicate a (.step 0 envOne) ++
      (List.replicate b (.step 1 envOther) ++ (List.replicate c (.step 0 envOne) ++
        (List.replicate d (.step 1 envOther) ++ List.replicate e (.step 0 envOne)))))
  have ran : Transition.run r.overlap ⟨s, []⟩ turns =
      ⟨s₅, [.done (.ok one), .looking other]⟩ := by
    show Transition.run r.overlap ⟨s, [.fetching, .fetching]⟩ _ = _
    rw [Transition.run_append, first, Transition.run_append, second, Transition.run_append, third,
      Transition.run_append, fourth, fifth]
  refine ⟨turns, ?_, ?_⟩
  · intro turn member
    simp only [turns, List.mem_cons, List.mem_append, List.mem_replicate] at member
    rcases member with rfl | rfl | ⟨-, rfl⟩ | ⟨-, rfl⟩ | ⟨-, rfl⟩ | ⟨-, rfl⟩ | ⟨-, rfl⟩
    · exact .inr rfl
    · exact .inr rfl
    all_goals trivial
  · rw [ran]
    refine ⟨rfl, rfl, rfl, List.mem_cons_self, fun verified => differ ?_⟩
    exact (RootZone.verify_eq_ok.mp verified).1

end Races

end Federate

namespace Federate.Reference

open Json Outcome Stateful Resolver

/-- A refresh, a request and a lost data directory between them. -/
def overlapping : List (Tasks.Turn Refresh Environment ResolverDisk) :=
  [.begin .fetching, .begin .asking, .step 0 (serving (identity 9) 2), .outside .fresh,
    .step 1 offline, .step 0 offline, .step 0 offline]

theorem overlapping_own (kind : ResolverDisk → Prop) (lost : kind .fresh) :
    ∀ turn ∈ overlapping, OverlapTurn kind turn := by
  intro turn member
  simp only [overlapping, List.mem_cons, List.not_mem_nil, or_false] at member
  rcases member with rfl | rfl | rfl | rfl | rfl | rfl | rfl
  · exact .inr rfl
  · exact .inl rfl
  · trivial
  · exact lost
  all_goals trivial

/-- A forged zone is neither held nor returned. -/
theorem forged_overlap_trusted :
    ServesOnly authority.root.nodeId (fun z => z.verify authority.root.nodeId = .ok ())
      (Transition.run peered.overlap ⟨holding (plainZone authority.root 0), []⟩ overlapping) := by
  refine overlap_trusted peered rfl (fun z held => ?_) (overlapping_own _ trivial)
  rw [← Option.some.inj held]
  exact plainZone_verify _ _

/-- Nor does it lower the floor. -/
theorem forged_overlap_floor :
    (Transition.run peered.overlap ⟨holding (plainZone authority.root 0), []⟩
        overlapping).shared.root ≠ none ∧
      ServesOnly authority.root.nodeId
        (fun z => z.verify authority.root.nodeId = .ok () ∧
          (plainZone authority.root 0).rootVersion ≤ z.rootVersion)
        (Transition.run peered.overlap ⟨holding (plainZone authority.root 0), []⟩ overlapping) := by
  refine overlap_floor peered rfl rfl (plainZone_verify _ _) ?_ (overlapping_own _ ?_) ?_
  · rintro z ⟨bytes, held, -⟩
    cases held
  · rintro z ⟨bytes, held, -⟩
    cases held
  · intro turn member
    cases turn with
    | step place env => exact fun z arrives => readsBack_of_arrives arrives
    | begin task => trivial
    | outside disk => trivial

/-- Versions 1 and 2 of a zone, fetched by two refreshes of a resolver that holds version 0. -/
theorem plainZone_rewound :
    ∃ before after, (∀ turn ∈ before ++ after, OverlapTurn (fun _ => False) turn) ∧
      (Transition.run peered.overlap ⟨holding (plainZone authority.root 0), []⟩
        before).shared.root = some (plainZone authority.root 2) ∧
      Refresh.done (.ok (plainZone authority.root 2)) ∈
        (Transition.run peered.overlap ⟨holding (plainZone authority.root 0), []⟩ before).tasks ∧
      (Transition.run peered.overlap ⟨holding (plainZone authority.root 0), []⟩
        (before ++ after)).shared.root = some (plainZone authority.root 1) ∧
      (Transition.run peered.overlap ⟨holding (plainZone authority.root 0), []⟩
        (before ++ after)).shared.disk.rootZone =
          some (Externals.toVecPretty (plainZone authority.root 1).toJson) := by
  have notOlder : (plainZone authority.root 0).rootVersion ≤
      (plainZone authority.root 1).rootVersion := by decide
  have rises : (plainZone authority.root 1).rootVersion <
      (plainZone authority.root 2).rootVersion := by decide
  have short : (compact (plainZone authority.root 1).toJson).length ≤ maxRootBytes := by
    decide +kernel
  have short' : (compact (plainZone authority.root 2).toJson).length ≤ maxRootBytes := by
    decide +kernel
  exact overlap_rewinds rfl rfl notOlder rises (plainZone_verify _ _) (plainZone_verify _ _)
    (fetchRootNetwork_serving short) (fetchRootNetwork_serving short') (fun _ => rfl) fun _ => rfl

/-- A forged zone and the true one, fetched by the first two refreshes of a resolver without a
key. -/
theorem plainZone_first_use :
    ∃ turns, (∀ turn ∈ turns, OverlapTurn (fun _ => False) turn) ∧
      (Transition.run peered.overlap ⟨.new none .fresh 0, []⟩ turns).shared.trustedRootKey =
        some (plainZone authority.root 1).rootPublicKey ∧
      (Transition.run peered.overlap ⟨.new none .fresh 0, []⟩ turns).shared.disk.trustedRootKey =
        some (plainZone (identity 9) 1).rootPublicKey ∧
      (Transition.run peered.overlap ⟨.new none .fresh 0, []⟩ turns).shared.root =
        some (plainZone (identity 9) 1) ∧
      Refresh.done (.ok (plainZone (identity 9) 1)) ∈
        (Transition.run peered.overlap ⟨.new none .fresh 0, []⟩ turns).tasks ∧
      (plainZone (identity 9) 1).verify (plainZone authority.root 1).rootPublicKey ≠ .ok () := by
  have differ : (plainZone (identity 9) 1).rootPublicKey ≠
      (plainZone authority.root 1).rootPublicKey := by decide +kernel
  have short : (compact (plainZone (identity 9) 1).toJson).length ≤ maxRootBytes := by
    decide +kernel
  have short' : (compact (plainZone authority.root 1).toJson).length ≤ maxRootBytes := by
    decide +kernel
  exact overlap_first_use rfl rfl rfl (plainZone_verify _ _) (plainZone_verify _ _) differ
    (fetchRootNetwork_serving short) (fetchRootNetwork_serving short') (fun _ => rfl) fun _ => rfl

end Federate.Reference
