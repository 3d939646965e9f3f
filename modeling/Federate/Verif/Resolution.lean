import Federate.Reference.Registry
import Federate.Reference.Resolver
import Federate.Verif.Anchor

/-!
# Sound resolution

In every state a resolver reaches, the zone in memory verifies under the pinned root key. Content
is served only at the end of a chain of signed objects that starts at that key: root zone, TLD
record, domain record, manifest, block.
-/

namespace Federate

open Outcome Stateful Resolver

variable [Externals] [SerdeDocuments] [ResolverExternals]

/-! ## Calls -/

/-- What a call does to the root zone and the key, when the zone in memory is trusted. -/
def RootChange (r : Resolver) (env : Environment) (s s' : ResolverState) : Prop :=
  RootTrusted s → KeyUpdate s s' ∧ ∃ res, RootOutcome r env s s' res

section Changes

variable {r : Resolver} {env : Environment}

omit [ResolverExternals] in
/-- What leaves the root zone alone is such a change. -/
theorem KeepsRoot.rootChange {s s' : ResolverState} (keeps : KeepsRoot s s') :
    RootChange r env s s' :=
  fun _ => ⟨keeps.keyUpdate, .error .rootUnavailable, .failed keeps.root keeps.zoneFile⟩

omit [ResolverExternals] in
/-- Leaving the root zone alone after a change makes no difference to it. -/
theorem RootChange.keeps (s s₁ s' : ResolverState) (change : RootChange r env s s₁)
    (keeps : KeepsRoot s₁ s') : RootChange r env s s' := by
  intro memory
  obtain ⟨key, res, outcome⟩ := change memory
  refine ⟨key.trans keeps.keyUpdate, res, ?_⟩
  cases outcome with
  | failed root file => exact .failed (keeps.root.trans root) (keeps.zoneFile.trans file)
  | @returned z held trusted source =>
    have trusted' : Trusts s' z := by rw [Trusts, keeps.key]; exact trusted
    refine .returned (keeps.root.trans held) trusted' (source.imp (fun accepted => ?_) fun kept => ?_)
    · exact ⟨keeps.zoneFile.trans accepted.stored, accepted.arrived, accepted.valid,
        fun key known pinned => accepted.newest key known (keeps.key ▸ pinned)⟩
    · exact ⟨keeps.zoneFile.trans kept.unchanged, kept.had⟩

omit [ResolverExternals] in
instance : Std.Refl (RootChange r env) := ⟨fun s => (Std.Refl.refl s : KeepsRoot s s).rootChange⟩

omit [ResolverExternals] in
/-- The zone in memory stays trusted under every change. -/
theorem RootChange.trusted {s s' : ResolverState} (change : RootChange r env s s')
    (memory : RootTrusted s) : RootTrusted s' := by
  obtain ⟨key, res, outcome⟩ := change memory
  intro z held
  cases outcome with
  | @returned z' held' trusted _ =>
    obtain rfl := Option.some.inj (held'.symm.trans held)
    exact trusted
  | failed root file =>
    obtain ⟨k, pinned, verified⟩ := memory z (root ▸ held)
    exact ⟨k, (key.stays k pinned).1, verified⟩

end Changes

section Calls

variable (r : Resolver) (env : Environment)

theorem keeps_root : Keeps (RootChange r env) (r.root env) :=
  fun _ memory => ⟨(root_outcome env r memory Prod.mk.eta.symm).1, _,
    (root_outcome env r memory Prod.mk.eta.symm).2⟩

theorem keeps_resolveDomain (host : String) : Keeps (RootChange r env) (r.resolveDomain env host) := by
  refine .afterLift _ fun domain => (keeps_root r env).followed (fun root => ?_) RootChange.keeps
  have checked (record : DomainRecord) (now : DateTime) : Keeps KeepsRoot (do
      liftM (rejectIf (record.status.isResolvable = false ∨ record.isExpired now = true)
        (FederateError.tldUnavailable domain.tld
          (if record.isExpired now then "expired" else record.status.asStr)))
      return record : ResolverM DomainRecord) := (keeps_lift _).bind fun _ => keeps_pure _
  have clock : Keeps KeepsRoot env.now := (keeps_ask _).mono fun _ _ => OnlyTicks.keepsRoot
  exact (keeps_lift _).bind fun tldRec => clock.bind fun now => (keeps_lift _).bind fun _ =>
    (keeps_locateRecord env r root tldRec _).bind fun record => (keeps_lift _).bind fun _ =>
      (keeps_lift _).bind fun _ => clock.bind fun now => checked record now

/-- Serving a checked record leaves the root zone alone. -/
theorem keeps_serve (fqdn path : String) (record : DomainRecord) :
    Keeps KeepsRoot (r.serve env fqdn path record) := by
  refine (keeps_manifest env r record.manifestHash).attempt.bind fun outcome => ?_
  cases outcome with
  | error e => exact keeps_lift _
  | ok m =>
    simp only
    split
    · exact keeps_pure _
    · split
      · exact keeps_pure _
      · refine (keeps_blockTraced env r _).attempt.bind fun outcome => ?_
        cases outcome with
        | error e => exact keeps_lift _
        | ok bytes => exact keeps_pure _

/-- Checking and serving a located record leaves the root zone alone. -/
theorem keeps_resolveRecord (domain : FederateDomain) (path : String) (tldRec : TldRecord)
    (record : DomainRecord) : Keeps KeepsRoot (r.resolveRecord env domain path tldRec record) := by
  have clock : Keeps KeepsRoot env.now := (keeps_ask _).mono fun _ _ => OnlyTicks.keepsRoot
  unfold resolveRecord
  simp only
  split
  · exact keeps_pure _
  · split
    · exact keeps_pure _
    · split
      · exact keeps_pure _
      · refine clock.bind fun now => ?_
        split
        · exact keeps_pure _
        · exact keeps_serve r env _ path record

/-- Resolving below a zone leaves the root zone alone. -/
theorem keeps_resolveIn (domain : FederateDomain) (path : String) (root : RootZone) :
    Keeps KeepsRoot (r.resolveIn env domain path root) := by
  have clock : Keeps KeepsRoot env.now := (keeps_ask _).mono fun _ _ => OnlyTicks.keepsRoot
  unfold resolveIn
  split
  · exact keeps_pure _
  · refine keeps_get.bind fun s => ?_
    simp only
    split
    · exact keeps_pure _
    · split
      · exact keeps_pure _
      · refine clock.bind fun now => ?_
        split
        · exact keeps_pure _
        · refine (keeps_locateRecord env r root _ _).attempt.bind fun outcome => ?_
          cases outcome with
          | error e => exact keeps_lift _
          | ok record => exact keeps_resolveRecord r env domain path _ record

theorem keeps_resolve (host path : String) : Keeps (RootChange r env) (r.resolve env host path) := by
  unfold resolve
  split
  · exact keeps_pure _
  · refine (keeps_root r env).attempt.followed (fun outcome => ?_) RootChange.keeps
    split
    · exact keeps_pure _
    · exact keeps_throw _
    · exact keeps_resolveIn r env _ path _

/-- Every call does to the root zone what `root` or `refresh_root` does, or nothing. -/
theorem ResolverCall.after_change (call : ResolverCall) (s : ResolverState) :
    RootChange r env s (call.after r env s) := by
  cases call with
  | refreshRoot =>
    exact fun memory => ⟨(refreshRoot_outcome env r memory Prod.mk.eta.symm).1, _,
      (refreshRoot_outcome env r memory Prod.mk.eta.symm).2⟩
  | root => exact keeps_root r env s
  | manifestBytes hash => exact (keeps_manifestBytes env r hash s).rootChange
  | tldRegistry tldRec => exact (keeps_tldRegistry env r tldRec s).rootChange
  | tldRegistryByName tld =>
    exact (keeps_root r env).followed (fun root => (keeps_lift _).bind fun tldRec =>
      keeps_tldRegistry env r tldRec) RootChange.keeps s
  | fetchAndCacheBlock hash => exact (keeps_blockTraced env r hash s).rootChange
  | resolveDomain host => exact keeps_resolveDomain r env host s
  | siteFiles host =>
    exact (keeps_resolveDomain r env host).followed (fun record => (keeps_manifest env r _).bind
      fun m => (keeps_lift _).bind fun _ => keeps_pure _) RootChange.keeps s
  | resolve host path => exact keeps_resolve r env host path s

end Calls

/-- In every reachable state the zone in memory verifies under the pinned root key. -/
theorem ResolverState.Reachable.trusted {s : ResolverState} (reachable : s.Reachable) :
    RootTrusted s := by
  obtain ⟨configured, disk, events, rfl⟩ := reachable
  have fresh (configured : Option String) (disk : ResolverDisk) (ticks : ℕ) :
      RootTrusted (.new configured disk ticks) := fun _ held => absurd held nofun
  refine Transition.invariant (fun s event memory _ => ?_) (fresh configured disk 0)
    (Transition.guarded_true _ _ _)
  cases event with
  | call r env call => exact (call.after_change r env s).trusted memory
  | restart configured => exact fresh configured s.disk s.ticks
  | files disk => exact memory

/-! ## The checks of a resolution -/

section Checks

omit [SerdeDocuments] [ResolverExternals]

/-- A TLD record fails verification in one way only. -/
theorem TldRecord.verify_failed (tldRec : TldRecord) (key : String) :
    FailsWith (isVerificationFailed · = true) (tldRec.verify key) :=
  (failsWith_okOr (by rfl)).bind fun _ => failsWith_rejectIf (by rfl)

/-- A domain record fails verification in one way only. -/
theorem DomainRecord.verify_failed (record : DomainRecord) (key : String) :
    FailsWith (isVerificationFailed · = true) (record.verify key) :=
  (failsWith_rejectIf (by rfl)).bind fun _ => (failsWith_okOr (by rfl)).bind fun _ => failsWith_rejectIf (by rfl)

/-- A manifest fails verification in one way only. -/
theorem Manifest.verify_failed (m : Manifest) (domain key : String) :
    FailsWith (isVerificationFailed · = true) (m.verify domain key) :=
  (failsWith_rejectIf (by rfl)).bind fun _ => (failsWith_rejectIf (by rfl)).bind fun _ =>
    (failsWith_okOr (by rfl)).bind fun _ => failsWith_rejectIf (by rfl)

omit [Externals] in
/-- A check that can only fail as a signature failure passed when it gave no outcome. -/
theorem checkFailure_eq_none {fqdn : String} {check : Result Unit}
    (fails : FailsWith (isVerificationFailed · = true) check) (none : checkFailure fqdn check = none) :
    check = .ok () := by
  cases check with
  | ok done => rfl
  | error e =>
    have signature := fails e rfl
    cases e <;> simp_all [isVerificationFailed, checkFailure]

omit [Externals] in
/-- The only outcome a check gives is a security failure. -/
theorem checkFailure_isSecurityFailure {fqdn : String} {check : Result Unit} {outcome : Resolved}
    (failed : checkFailure fqdn check = some outcome) :
    ∃ layer reason, outcome = .securityFailure fqdn layer reason := by
  unfold checkFailure at failed
  split at failed
  · exact ⟨_, _, (Option.some.inj failed).symm⟩
  · exact absurd failed nofun

end Checks

/-- The content a resolution served is the block its verified manifest selects. -/
structure Served (fqdn path : String) (record : DomainRecord) (bytes : Bytes) (hash : String) :
    Prop where
  /-- A manifest, read from bytes of the recorded address, signed by the owner for the domain. -/
  manifest : ∃ (m : Manifest) (manifestBytes : Bytes) (file : String),
    SerdeDocuments.manifest manifestBytes = .ok m ∧
      hashBytes manifestBytes = record.manifestHash ∧ m.domain = fqdn ∧
      m.verify fqdn record.ownerPublicKey = .ok () ∧ m.resolvePath path = some (file, hash)
  /-- The bytes are those of the selected address. -/
  block : hashBytes bytes = hash

/-- The chain of signed objects from the root key to the record of a domain. -/
structure Chain (key : String) (current : DateTime → Prop) (domain : FederateDomain)
    (zone : RootZone) (tldRec : TldRecord) (record : DomainRecord) : Prop where
  /-- The zone verifies under the root key. -/
  zoneVerified : zone.verify key = .ok ()
  /-- The TLD record is the zone's for the TLD. -/
  tldHeld : zone.tlds[domain.tld]? = some tldRec
  /-- It verifies under the root key. -/
  tldVerified : tldRec.verify key = .ok ()
  /-- Its status is resolvable. -/
  tldResolvable : tldRec.status.isResolvable = true
  /-- It is not expired. -/
  tldCurrent : ∃ now, current now ∧ tldRec.isExpired now = false
  /-- The domain record is filed under the full name: in the zone for a root-managed TLD, and
  otherwise in a registry that verifies for the TLD and its operator. -/
  recordHeld : (tldRec.registryType = .rootManaged ∧ zone.domains[domain.fqdn]? = some record) ∨
    tldRec.registryType ≠ .rootManaged ∧ ∃ registry : TldRegistry,
      registry.verify tldRec.tld tldRec.operatorPublicKey = .ok () ∧
        registry.domains[domain.fqdn]? = some record
  /-- It verifies under the key of the TLD's operator. -/
  recordVerified : record.verify tldRec.operatorPublicKey = .ok ()
  /-- It belongs to the TLD. -/
  recordTld : record.tld = domain.tld
  /-- Its status is resolvable. -/
  recordResolvable : record.status.isResolvable = true
  /-- It is not expired. -/
  recordCurrent : ∃ now, current now ∧ record.isExpired now = false

section Sound

variable {r : Resolver} {env : Environment} {domain : FederateDomain} {fqdn path : String}
  {tldRec : TldRecord} {record : DomainRecord} {root : RootZone} {s s' : ResolverState}
  {name path' mime hash : String} {bytes : Bytes}

/-- Content is served from a verified manifest and a verified block. -/
theorem serve_content
    (ran : exec (r.serve env fqdn path record) s = (.ok (.content name path' bytes mime hash), s')) :
    name = fqdn ∧ Served fqdn path record bytes hash := by
  rw [serve, exec_bind_eq_ok] at ran
  obtain ⟨outcome, s₁, tried, ran⟩ := ran
  cases outcome with
  | error e => cases e <;> simp [unfetched] at ran
  | ok m =>
    obtain ⟨manifestBytes, valid, reads⟩ :=
      manifest_verified env r _ _ _ _ (exec_attempt_eq_ok.mp tried)
    simp only at ran
    split at ran
    · rename_i outcome failed
      obtain ⟨layer, reason, rfl⟩ := checkFailure_isSecurityFailure failed
      simp at ran
    · rename_i passed
      have signed := checkFailure_eq_none (m.verify_failed _ _) passed
      split at ran
      · simp at ran
      · rename_i file fileHash selected
        rw [exec_bind_eq_ok] at ran
        obtain ⟨outcome, s₂, tried, ran⟩ := ran
        cases outcome with
        | error e => cases e <;> simp [unfetched] at ran
        | ok block =>
          have verified := blockTraced_verified env r _ _ _ _ (exec_attempt_eq_ok.mp tried)
          simp only [exec_pure, Prod.mk.injEq, Except.ok.injEq, Resolved.content.injEq] at ran
          obtain ⟨⟨rfl, -, rfl, -, rfl⟩, -⟩ := ran
          exact ⟨rfl, ⟨m, manifestBytes, file, reads, (verifyHash_eq_ok.mp valid).2,
            (Manifest.verify_eq_ok.mp signed).1, signed, selected⟩, (verifyHash_eq_ok.mp verified).2⟩

/-- Content is served for a record that passes every check, at a reading of the clock during the
call. -/
theorem resolveRecord_content
    (ran : exec (r.resolveRecord env domain path tldRec record) s =
      (.ok (.content name path' bytes mime hash), s')) :
    record.verify tldRec.operatorPublicKey = .ok () ∧ record.tld = domain.tld ∧
      record.status.isResolvable = true ∧ record.isExpired (env.clock s.ticks) = false ∧
      s.ticks < s'.ticks ∧ name = domain.fqdn ∧ Served domain.fqdn path record bytes hash := by
  rw [resolveRecord] at ran
  split at ran
  · rename_i outcome failed
    obtain ⟨layer, reason, rfl⟩ := checkFailure_isSecurityFailure failed
    simp at ran
  · rename_i passed
    have verified := checkFailure_eq_none (record.verify_failed _) passed
    split at ran
    · simp at ran
    · rename_i sameTld
      split at ran
      · simp at ran
      · rename_i resolvable
        rw [Environment.now, exec_bind, exec_ask] at ran
        simp only at ran
        split at ran
        · simp at ran
        · rename_i current
          have later : s.ticks + 1 ≤ s'.ticks := by
            have keeps := keeps_serve r env domain.fqdn path record
              { s with ticks := s.ticks + 1 }
            rw [ran] at keeps
            exact keeps.ticks
          obtain ⟨named, served⟩ := serve_content ran
          exact ⟨verified, not_not.mp sameTld, Bool.not_eq_false _ ▸ resolvable,
            Bool.not_eq_true _ ▸ current, later, named, served⟩

/-- Content is served below a trusted zone at the end of a chain of signed objects. -/
theorem resolveIn_content {key : String} (pinned : s.trustedRootKey = some key)
    (trusted : root.verify key = .ok ())
    (ran : exec (r.resolveIn env domain path root) s =
      (.ok (.content name path' bytes mime hash), s')) :
    name = domain.fqdn ∧ ∃ tldRec record,
      Chain key (fun now => ∃ n, s.ticks ≤ n ∧ n < s'.ticks ∧ env.clock n = now) domain root tldRec
        record ∧ Served domain.fqdn path record bytes hash := by
  rw [resolveIn] at ran
  split at ran
  · simp at ran
  · rename_i tldRec held
    rw [exec_bind, exec_get] at ran
    simp only [pinned, Option.getD_some] at ran
    split at ran
    · rename_i outcome failed
      obtain ⟨layer, reason, rfl⟩ := checkFailure_isSecurityFailure failed
      simp at ran
    · rename_i passed
      have verified := checkFailure_eq_none (tldRec.verify_failed _) passed
      split at ran
      · simp at ran
      · rename_i resolvable
        rw [Environment.now, exec_bind, exec_ask] at ran
        simp only at ran
        split at ran
        · simp at ran
        · rename_i current
          rw [exec_bind_eq_ok] at ran
          obtain ⟨outcome, s₁, tried, ran⟩ := ran
          have between : s.ticks + 1 ≤ s₁.ticks := by
            have keeps := keeps_locateRecord env r root tldRec domain.fqdn
              { s with ticks := s.ticks + 1 }
            rw [exec_attempt_eq_ok.mp tried] at keeps
            exact keeps.ticks
          cases outcome with
          | error e => cases e <;> simp [unlocated] at ran
          | ok record =>
            have located := locateRecord_held env r root tldRec domain.fqdn _ _ _
              (exec_attempt_eq_ok.mp tried)
            obtain ⟨recordVerified, sameTld, recordResolvable, recordCurrent, later, named, served⟩ :=
              resolveRecord_content ran
            refine ⟨named, tldRec, record, ⟨trusted, held, verified, Bool.not_eq_false _ ▸ resolvable,
              ?_, located, recordVerified, sameTld, recordResolvable, ?_⟩, served⟩
            · exact ⟨_, ⟨s.ticks, le_rfl, by omega, rfl⟩, Bool.not_eq_true _ ▸ current⟩
            · exact ⟨_, ⟨s₁.ticks, by omega, later, rfl⟩, recordCurrent⟩

end Sound

/-- Whatever the caches hold and whoever answers, content is served only for a name that parses,
at the end of a chain of signed objects from the pinned root key, and is the block that the
verified manifest selects. -/
theorem resolve_sound {r : Resolver} {env : Environment} {host path : String}
    {s s' : ResolverState} {name path' mime hash : String} {bytes : Bytes}
    (reachable : s.Reachable) (returned : exec (r.resolve env host path) s =
      (.ok (.content name path' bytes mime hash), s')) :
    ∃ domain key zone tldRec record, FederateDomain.parse host = .ok domain ∧
      s'.trustedRootKey = some key ∧ (∀ pinned, s.trustedRootKey = some pinned → pinned = key) ∧
      name = domain.fqdn ∧
      Chain key (fun now => ∃ n, s.ticks ≤ n ∧ n < s'.ticks ∧ env.clock n = now) domain zone tldRec
        record ∧
      Served domain.fqdn path record bytes hash := by
  rw [resolve] at returned
  split at returned
  · simp at returned
  · rename_i domain parses
    rw [exec_bind_eq_ok] at returned
    obtain ⟨outcome, s₁, tried, returned⟩ := returned
    obtain ⟨keyUpdate, result⟩ :=
      root_outcome env r reachable.trusted (exec_attempt_eq_ok.mp tried)
    split at returned
    · simp at returned
    · simp at returned
    · rename_i zone
      cases result with
      | returned held trusted source =>
        obtain ⟨key, pinned, verified⟩ := trusted
        obtain ⟨named, tldRec, record, chain, served⟩ := resolveIn_content pinned verified returned
        have keeps := keeps_resolveIn r env domain path zone s₁
        rw [returned] at keeps
        refine ⟨domain, key, zone, tldRec, record, parses, keeps.key.trans pinned, ?_, named,
          { chain with tldCurrent := ?_, recordCurrent := ?_ }, served⟩
        · intro before held
          exact Option.some.inj ((keyUpdate.stays before held).1.symm.trans pinned)
        · obtain ⟨now, ⟨n, from₁, before, reading⟩, current⟩ := chain.tldCurrent
          exact ⟨now, ⟨n, le_trans keyUpdate.ticks from₁, before, reading⟩, current⟩
        · obtain ⟨now, ⟨n, from₁, before, reading⟩, current⟩ := chain.recordCurrent
          exact ⟨now, ⟨n, le_trans keyUpdate.ticks from₁, before, reading⟩, current⟩

/-! ## Passing the checks -/

section Served

variable {env : Environment} {r : Resolver} {s s₁ s₂ : ResolverState} {path : String}
  {record : DomainRecord} {tldRec : TldRecord}

/-- A valid manifest is taken, once it is read. -/
theorem exec_manifest_read {hash : String} {bytes : Bytes} {m : Manifest}
    (whole : exec (r.manifestBytes env hash) s = (.ok bytes, s₁))
    (reads : SerdeDocuments.manifest bytes = .ok m) (valid : m.validate = .ok ()) :
    exec (r.manifest env hash) s = (.ok m, s₁) := by
  rw [Resolver.manifest, exec_bind_ok whole, exec_bind, exec_lift, serde_eq_ok.mpr reads]
  simp only
  rw [exec_bind, exec_lift, valid]
  rfl

/-- A cached manifest is read from the data directory. -/
theorem exec_manifest_cached {hash : String} {bytes : Bytes} {m : Manifest}
    (filed : s.disk.manifests[hash]? = some bytes) (named : isValidHash hash = true)
    (intact : verifyHash bytes hash = .ok ()) (reads : SerdeDocuments.manifest bytes = .ok m)
    (valid : m.validate = .ok ()) : exec (r.manifest env hash) s = (.ok m, s) := by
  have whole : exec (r.manifestBytes env hash) s = (.ok bytes, s) := by
    rw [manifestBytes, exec_bind, exec_lift, rejectIf, if_neg (by simp [named])]
    simp only
    rw [exec_bind, exec_get]
    simp only [filed, intact, reduceIte]
    rfl
  exact exec_manifest_read whole reads valid

/-- A page is served when its manifest is read, signed and names a block that is found. -/
theorem exec_serve_content {fqdn file hash : String} {m : Manifest} {bytes : Bytes}
    (fetched : exec (r.manifest env record.manifestHash) s = (.ok m, s₁))
    (signed : m.verify fqdn record.ownerPublicKey = .ok ())
    (selected : m.resolvePath path = some (file, hash))
    (found : exec (r.blockTraced env hash) s₁ = (.ok bytes, s₂)) :
    exec (r.serve env fqdn path record) s =
      (.ok (.content fqdn path bytes (ResolverExternals.mimeGuess file) hash), s₂) := by
  rw [serve, exec_bind, exec_attempt, fetched]
  simp only [signed, checkFailure, selected]
  rw [exec_bind, exec_attempt, found]
  rfl

/-- A record that passes its checks is served. -/
theorem exec_resolveRecord_serve {d : FederateDomain}
    (signed : record.verify tldRec.operatorPublicKey = .ok ()) (own : record.tld = d.tld)
    (resolvable : record.status.isResolvable = true)
    (current : record.isExpired (env.clock s.ticks) = false) :
    exec (r.resolveRecord env d path tldRec record) s =
      exec (r.serve env d.fqdn path record) { s with ticks := s.ticks + 1 } := by
  simp only [resolveRecord, signed, checkFailure, own, ne_eq, not_true_eq_false, if_false,
    resolvable, Bool.true_eq_false, Environment.now]
  rw [exec_bind, exec_ask]
  simp only [current, Bool.false_eq_true, if_false]

/-- A record that is found below a TLD in force is checked. -/
theorem exec_resolveIn_record {d : FederateDomain} {zone : RootZone} {key : String}
    (pinned : s.trustedRootKey = some key) (held : zone.lookupTld d.tld = some tldRec)
    (signed : tldRec.verify key = .ok ()) (resolvable : tldRec.status.isResolvable = true)
    (current : tldRec.isExpired (env.clock s.ticks) = false)
    (located : exec (r.locateRecord env zone tldRec d.fqdn) { s with ticks := s.ticks + 1 } =
      (.ok record, s₁)) :
    exec (r.resolveIn env d path zone) s = exec (r.resolveRecord env d path tldRec record) s₁ := by
  obtain ⟨memory, rootKey, files, ticks⟩ := s
  obtain rfl : rootKey = some key := pinned
  unfold resolveIn
  simp only [held]
  rw [exec_bind, exec_get]
  simp only [Option.getD_some, signed, checkFailure, resolvable, Bool.true_eq_false, if_false]
  rw [exec_bind, Environment.now, exec_ask]
  simp only [current, Bool.false_eq_true, if_false]
  rw [exec_bind, exec_attempt, located]

end Served

end Federate

namespace Federate.Reference

open Json Outcome Stateful Resolver

/-- The content of a site. -/
def site : Bytes := [104, 105]

/-- The manifest of the site, signed by its owner. -/
def siteManifest : Manifest :=
  let unsigned : Manifest :=
    { domain := "alice.foo", version := 1, entry := "index.html"
      files := (∅ : Table _ _).insert "index.html" (hashBytes site)
      ownerPublicKey := (identity 3).nodeId
      createdAt := stamp, signatureAlgorithm := signatureAlgorithm, signature := none }
  { unsigned with signature := some ((identity 3).sign unsigned.signableBytes) }

theorem siteManifest_reads :
    SerdeDocuments.manifest (compact siteManifest.toJson) = .ok siteManifest :=
  read_compact (fun m _ => m.readable) (fun _ _ => Manifest.toJson_injective) trivial

theorem siteManifest_selected : siteManifest.files["index.html"]? = some (hashBytes site) :=
  Std.ExtTreeMap.getElem?_insert_self

theorem siteManifest_validate : siteManifest.validate = .ok () := by
  have listed : "index.html" ∈ siteManifest.files := mem_of_getElem? siteManifest_selected
  simp only [Manifest.validate, bind_eq_ok, rejectIf_eq_ok, exists_const]
  exact ⟨by decide, not_not.mpr listed⟩

theorem siteManifest_verify : siteManifest.verify "alice.foo" (identity 3).nodeId = .ok () :=
  Manifest.verify_eq_ok.mpr ⟨rfl, rfl, _, rfl, verifySignature_sign signaturesVerify _ _⟩

/-- The record of the site, signed by the official operator. -/
def siteRecord : DomainRecord :=
  DomainRecord.signedBy { issuedRecord "alice" "foo" .active with
    manifestHash := hashBytes (compact siteManifest.toJson), signature := none }
    authority.officialOperator

/-- A zone with the record of the site, signed by the root. -/
def siteZone : RootZone :=
  RootZone.signedBy { emptyZone authority.root ⟨0⟩ with
    tlds := (∅ : Table _ _).insert "foo" (official "foo")
    domains := (∅ : Table _ _).insert "alice.foo" siteRecord } authority.root

/-- A data directory with the zone, the manifest and the content of the site. -/
def siteDisk : ResolverDisk :=
  ⟨some (compact siteZone.toJson), none,
    (∅ : Table _ _).insert siteRecord.manifestHash (compact siteManifest.toJson), ∅,
    (∅ : Table _ _).insert (hashBytes site) site⟩

theorem siteZone_verify : siteZone.verify authority.root.nodeId = .ok () := by
  refine RootZone.verify_signedBy signaturesVerify _ _ rfl fun tld r found => ?_
  rw [Std.ExtTreeMap.getElem?_insert] at found
  split at found
  · rw [← Option.some.inj found]
    exact TldRecord.verify_signedBy signaturesVerify _ _
  · exact absurd found (by simp)

/-- The zone of the data directory is held once no network answers. -/
theorem exec_root_site (s : ResolverState) (fresh : s.root = none)
    (pinned : s.trustedRootKey = some authority.root.nodeId) (disk : s.disk = siteDisk) :
    exec (resolver.root offline) s =
      (.ok siteZone, { s with root := some siteZone, ticks := s.ticks + 1 }) := by
  have unreachable : exec (resolver.fetchRootNetwork offline) s =
      (.error (.network "unreachable"), { s with ticks := s.ticks + 1 }) := by
    simp [fetchRootNetwork, resolver, tryEach, NodeClient.fetchRoot, NodeClient.getBytes,
      Environment.getCapped, exec_bind, offline, mapError]
  have json : siteZone.FromJson := by
    constructor
    · intro k r found v priced
      rw [siteZone, RootZone.signedBy, Std.ExtTreeMap.getElem?_insert] at found
      split at found
      · rw [← Option.some.inj found] at priced
        cases priced
      · exact absurd found (by simp)
    · intro k r found
      rw [siteZone, RootZone.signedBy, Std.ExtTreeMap.getElem?_insert] at found
      split at found
      · rw [← Option.some.inj found]
        exact ⟨fun _ absent => (by cases absent), fun _ absent => (by cases absent)⟩
      · exact absurd found (by simp)
  have reads : SerdeDocuments.rootZone (compact siteZone.toJson) = .ok siteZone :=
    read_compact (fun _ => RootZone.FromJson.readable) (fun _ _ => RootZone.toJson_injective) json
  have valid : siteZone.validate = .ok () := by
    refine RootZone.validate_eq_ok.mpr ⟨by decide, fun k r found => ?_⟩
    rw [siteZone, RootZone.signedBy, Std.ExtTreeMap.getElem?_insert] at found
    split at found
    · rw [← Option.some.inj found]
      exact Std.ExtTreeMap.mem_insert_self
    · exact absurd found (by simp)
  have loaded : exec rootCacheLoad { s with ticks := s.ticks + 1 } =
      (.ok siteZone, { s with ticks := s.ticks + 1 }) := by
    obtain ⟨same, outcome⟩ := rootCacheLoad_eq (s := { s with ticks := s.ticks + 1 }) rfl
    exact Prod.ext ((outcome siteZone).mpr ⟨_, congrArg ResolverDisk.rootZone disk, reads, valid⟩) same
  have trusted : exec (verifyZone offline siteZone) { s with ticks := s.ticks + 1 } =
      (.ok (), { s with ticks := s.ticks + 1 }) := by
    rw [verifyZone, exec_bind, exec_get]
    simp only [pinned, exec_lift, siteZone_verify]
  rw [root, exec_bind, exec_get]
  simp only [fresh]
  rw [refreshRoot, exec_bind, exec_attempt, unreachable]
  simp only
  rw [exec_bind, exec_attempt, loaded]
  simp only
  rw [exec_bind, trusted]
  rfl

/-- The manifest of the site is read from the data directory. -/
theorem exec_manifest_site (s : ResolverState) (disk : s.disk = siteDisk) :
    exec (resolver.manifest offline siteRecord.manifestHash) s = (.ok siteManifest, s) := by
  have filed : s.disk.manifests[siteRecord.manifestHash]? = some (compact siteManifest.toJson) := by
    rw [disk]
    exact Std.ExtTreeMap.getElem?_insert_self
  have valid : isValidHash siteRecord.manifestHash = true := isValidHash_hashBytes _
  have intact : verifyHash (compact siteManifest.toJson) siteRecord.manifestHash = .ok () :=
    verifyHash_eq_ok.mpr ⟨valid, rfl⟩
  exact exec_manifest_cached filed valid intact siteManifest_reads siteManifest_validate

/-- The content of the site is served from the data directory. -/
theorem exec_serve_site (s : ResolverState) (disk : s.disk = siteDisk) :
    exec (resolver.serve offline "alice.foo" "/" siteRecord) s =
      (.ok (.content "alice.foo" "/" site "text/html" (hashBytes site)), s) := by
  have path : siteManifest.resolvePath "/" = some ("index.html", hashBytes site) := by
    have root : siteManifest.candidates "/" = ["index.html"] := by
      have slash : (Text.trimStartMatches '/' "/").toList = [] := by decide
      simp only [Manifest.candidates, slash, reduceIte]
      rfl
    simp [Manifest.resolvePath, root, siteManifest_selected]
  have block : exec (resolver.blockTraced offline (hashBytes site)) s = (.ok site, s) := by
    have held : s.disk.blocks[hashBytes site]? = some site := by
      rw [disk]
      exact Std.ExtTreeMap.getElem?_insert_self
    have cached : exec (blockGet (hashBytes site)) s = (.ok site, s) := by
      have valid := isValidHash_hashBytes site
      have intact : verifyHash site (hashBytes site) = .ok () := verifyHash_eq_ok.mpr ⟨valid, rfl⟩
      rw [blockGet, exec_bind, exec_lift, rejectIf, if_neg (by simp [valid])]
      simp only
      rw [exec_bind, exec_get]
      simp only
      rw [exec_bind, exec_lift, held, okOr]
      simp only
      rw [exec_bind, exec_lift, intact]
      rfl
    rw [blockTraced, exec_bind, exec_attempt, cached]
    rfl
  have signed : siteManifest.verify "alice.foo" siteRecord.ownerPublicKey = .ok () :=
    siteManifest_verify
  exact exec_serve_content (exec_manifest_site s disk) signed path block

/-- The record of the site passes its checks. -/
theorem exec_resolveRecord_site (s : ResolverState) (disk : s.disk = siteDisk) :
    exec (resolver.resolveRecord offline ⟨"alice", "foo"⟩ "/" (official "foo") siteRecord) s =
      (.ok (.content "alice.foo" "/" site "text/html" (hashBytes site)),
        { s with ticks := s.ticks + 1 }) := by
  have signed : siteRecord.verify (official "foo").operatorPublicKey = .ok () :=
    DomainRecord.verify_eq_ok.mpr ⟨rfl, _, rfl, verifySignature_sign signaturesVerify _ _⟩
  have name : (FederateDomain.mk "alice" "foo").fqdn = "alice.foo" := rfl
  rw [exec_resolveRecord_serve signed rfl rfl rfl, name]
  exact exec_serve_site { s with ticks := s.ticks + 1 } disk

/-- The site resolves below its zone. -/
theorem exec_resolveIn_site (s : ResolverState) (disk : s.disk = siteDisk)
    (pinned : s.trustedRootKey = some authority.root.nodeId) :
    exec (resolver.resolveIn offline ⟨"alice", "foo"⟩ "/" siteZone) s =
      (.ok (.content "alice.foo" "/" site "text/html" (hashBytes site)),
        { s with ticks := s.ticks + 1 + 1 }) := by
  have held : siteZone.lookupTld (FederateDomain.mk "alice" "foo").tld = some (official "foo") :=
    Std.ExtTreeMap.getElem?_insert_self
  have signed : (official "foo").verify authority.root.nodeId = .ok () :=
    TldRecord.verify_signedBy signaturesVerify _ _
  have located : exec (resolver.locateRecord offline siteZone (official "foo")
      (FederateDomain.mk "alice" "foo").fqdn) { s with ticks := s.ticks + 1 } =
        (.ok siteRecord, { s with ticks := s.ticks + 1 }) := by
    have filed : siteZone.lookup "alice.foo" = some siteRecord :=
      Std.ExtTreeMap.getElem?_insert_self
    change exec (liftM (okOr (siteZone.lookup "alice.foo") _)) _ = _
    rw [filed]
    rfl
  rw [exec_resolveIn_record pinned held signed rfl rfl located]
  exact exec_resolveRecord_site { s with ticks := s.ticks + 1 } disk

/-- A verified zone on disk is enough to resolve a site without a network. -/
theorem exec_resolve_site : ∃ s', exec (resolver.resolve offline "alice.foo" "/")
    (.new (some authority.root.nodeId) siteDisk 0) =
      (.ok (.content "alice.foo" "/" site "text/html" (hashBytes site)), s') := by
  have parses : FederateDomain.parse "alice.foo" = .ok ⟨"alice", "foo"⟩ := by decide +kernel
  have pinned : (ResolverState.new (some authority.root.nodeId) siteDisk 0).trustedRootKey =
      some authority.root.nodeId := by
    have filled : authority.root.nodeId ≠ "" := by decide +kernel
    simp [ResolverState.new, filled]
  have rooted := exec_root_site (.new (some authority.root.nodeId) siteDisk 0) rfl pinned rfl
  have resolved := exec_resolveIn_site { ResolverState.new (some authority.root.nodeId) siteDisk 0
    with root := some siteZone, ticks := 1 } rfl pinned
  unfold resolve
  simp only [parses]
  rw [exec_bind, exec_attempt, rooted]
  exact ⟨_, resolved⟩

/-- The site is served at the end of a chain of signed objects. -/
theorem site_sound : ∃ s' domain key zone tldRec record,
    exec (resolver.resolve offline "alice.foo" "/")
      (.new (some authority.root.nodeId) siteDisk 0) =
        (.ok (.content "alice.foo" "/" site "text/html" (hashBytes site)), s') ∧
    FederateDomain.parse "alice.foo" = .ok domain ∧ key = authority.root.nodeId ∧
    Chain key (fun now => now = ⟨0⟩) domain zone tldRec record ∧
    Served "alice.foo" "/" record site (hashBytes site) := by
  obtain ⟨s', returned⟩ := exec_resolve_site
  have pinned : (ResolverState.new (some authority.root.nodeId) siteDisk 0).trustedRootKey =
      some authority.root.nodeId := by
    have filled : authority.root.nodeId ≠ "" := by decide +kernel
    simp [ResolverState.new, filled]
  obtain ⟨domain, key, zone, tldRec, record, parses, -, same, name, chain, served⟩ :=
    resolve_sound ⟨_, _, [], rfl⟩ returned
  refine ⟨s', domain, key, zone, tldRec, record, returned, parses, (same _ pinned).symm,
    { chain with tldCurrent := ?_, recordCurrent := ?_ }, name ▸ served⟩
  · obtain ⟨now, ⟨n, -, -, reading⟩, current⟩ := chain.tldCurrent
    exact ⟨now, reading.symm, current⟩
  · obtain ⟨now, ⟨n, -, -, reading⟩, current⟩ := chain.recordCurrent
    exact ⟨now, reading.symm, current⟩

end Federate.Reference
