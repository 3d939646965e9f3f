import Federate.Verif.Resolution

/-!
# The routers of a name

A registry view, `resolve_domain` and `resolve` each decide whether a name has a record. For a TLD
that the root manages they agree on the records that are in force, and two of them on the names
that the records carry only as far as the root filed these under their own names.
-/

namespace Federate

open Outcome Stateful Resolver

variable [Externals]

/-- The checks of the record of a root-managed name that every router makes. -/
structure Routed (z : RootZone) (now : DateTime) (domain : FederateDomain) (tldRec : TldRecord)
    (record : DomainRecord) : Prop where
  /-- The TLD resolves. -/
  tldResolvable : tldRec.status.isResolvable = true
  /-- Its lease has not passed. -/
  tldCurrent : tldRec.isExpired now = false
  /-- The zone files the record under the name. -/
  held : z.lookup domain.fqdn = some record
  /-- The operator signed it. -/
  verified : record.verify tldRec.operatorPublicKey = .ok ()
  /-- Its lease has not passed. -/
  current : record.isExpired now = false

/-- The checks that `locate_domain` leaves out. -/
structure InForce (domain : FederateDomain) (record : DomainRecord) : Prop where
  /-- The record belongs to the TLD. -/
  tld : record.tld = domain.tld
  /-- Its status is resolvable. -/
  resolvable : record.status.isResolvable = true

/-- The outcomes of a name without a record in force. -/
def Resolved.IsRefusal : Resolved → Prop
  | .tldNotFound _ | .tldUnavailable _ _ | .domainNotFound _ | .domainUnavailable _ _
  | .notFederate _ => True
  | .securityFailure _ layer _ => layer = "tld" ∨ layer = "domain"
  | _ => False

/-- A resolution got past its checks of the domain record. -/
def PastChecks (outcome : Result Resolved) : Prop := ∀ res, outcome = .ok res → ¬res.IsRefusal

section Refusals

omit [Externals] in
theorem pastChecks_ok {res : Resolved} : PastChecks (.ok res) ↔ ¬res.IsRefusal := by
  constructor
  · intro past
    exact past res rfl
  · intro further res' same
    rw [← Except.ok.inj same]
    exact further

/-- A check that fails in one layer only. -/
def FailsIn (layer : String) (check : Result Unit) : Prop :=
  FailsWith (fun e => ∃ subject reason, e = .verificationFailed layer subject reason) check

theorem DomainRecord.verify_layer (record : DomainRecord) (key : String) :
    FailsIn "domain" (record.verify key) :=
  (failsWith_rejectIf ⟨_, _, rfl⟩).bind fun _ => (failsWith_okOr ⟨_, _, rfl⟩).bind fun _ =>
    failsWith_rejectIf ⟨_, _, rfl⟩

theorem Manifest.verify_layer (m : Manifest) (domain key : String) :
    FailsIn "manifest" (m.verify domain key) :=
  (failsWith_rejectIf ⟨_, _, rfl⟩).bind fun _ => (failsWith_rejectIf ⟨_, _, rfl⟩).bind fun _ =>
    (failsWith_okOr ⟨_, _, rfl⟩).bind fun _ => failsWith_rejectIf ⟨_, _, rfl⟩

omit [Externals] in
/-- The outcome of a failed check names its layer. -/
theorem checkFailure_layer {fqdn layer : String} {check : Result Unit} {outcome : Resolved}
    (fails : FailsIn layer check) (failed : checkFailure fqdn check = some outcome) :
    ∃ reason, outcome = .securityFailure fqdn layer reason := by
  cases check with
  | ok u => simp [checkFailure] at failed
  | error e =>
    obtain ⟨subject, reason, rfl⟩ := fails e rfl
    exact ⟨reason, (Option.some.inj failed).symm⟩

end Refusals

variable [SerdeDocuments] [ResolverExternals] {r : Resolver} {env : Environment}

omit [Externals] [SerdeDocuments] [ResolverExternals] in
/-- Bytes that cannot be had refuse no name. -/
theorem returns_unfetched {fqdn layer what : String} (e : FederateError)
    (other : ¬(layer = "tld" ∨ layer = "domain")) : Returns (fun res => ¬res.IsRefusal)
      (liftM (unfetched fqdn layer what e) : ResolverM Resolved) := by
  refine (returns_lift _).mono fun res same => ?_
  cases e with
  | hashMismatch expected actual =>
    rw [← Except.ok.inj same]
    exact other
  | _ => cases same

/-- Serving a checked record refuses nothing any more. -/
theorem pastChecks_serve (fqdn path : String) (record : DomainRecord) (s : ResolverState) :
    PastChecks (exec (r.serve env fqdn path record) s).1 := by
  have serves : Returns (fun res => ¬res.IsRefusal) (r.serve env fqdn path record) := by
    unfold serve
    refine (returns_any _).bind fun outcome _ => ?_
    cases outcome with
    | error e => exact returns_unfetched e (by decide)
    | ok m =>
      simp only
      split
      · rename_i outcome failed
        obtain ⟨reason, rfl⟩ := checkFailure_layer (m.verify_layer _ _) failed
        exact returns_pure (by simp [Resolved.IsRefusal])
      · split
        · exact returns_pure (by simp [Resolved.IsRefusal])
        · refine (returns_any _).bind fun outcome _ => ?_
          cases outcome with
          | error e => exact returns_unfetched e (by decide)
          | ok bytes => exact returns_pure (by simp [Resolved.IsRefusal])
  intro res same
  exact serves s _ res (Prod.ext same rfl)

/-! ## What each router decides -/

section Routers

variable {host path : String} {now : DateTime} {domain : FederateDomain} {z : RootZone}
  {tldRec : TldRecord} {record : DomainRecord} {s : ResolverState}

omit [SerdeDocuments] [ResolverExternals] in
/-- A registry view finds the records that are routed. -/
theorem locateDomain_eq_ok (parses : FederateDomain.parse host = .ok domain)
    (found : z.lookupTld domain.tld = some tldRec) (managed : tldRec.registryType = .rootManaged) :
    RegistryView.locateDomain ⟨z⟩ host now = .ok (.rootManaged record) ↔
      Routed z now domain tldRec record := by
  simp only [RegistryView.locateDomain, RegistryView.tld, parses, found, managed, bind_eq_ok,
    okOr_eq_ok, rejectIf_eq_ok, pure_eq_ok, exists_const, exists_unit, Except.ok.injEq,
    Option.some.injEq, exists_eq_left', DomainSource.rootManaged.injEq, Bool.not_eq_false,
    Bool.not_eq_true]
  constructor
  · intro checked
    obtain ⟨resolvable, unexpired, rec', held, verified, current, rfl⟩ := checked
    exact ⟨resolvable, unexpired, held, verified, current⟩
  · intro routed
    exact ⟨routed.tldResolvable, routed.tldCurrent, record, routed.held, routed.verified,
      routed.current, rfl⟩

/-- What `resolve_domain` returns passed the checks at two readings of the clock. -/
theorem exec_resolveDomain_eq_ok {s' : ResolverState} :
    exec (r.resolveDomain env host) s = (.ok record, s') ↔
      ∃ domain z s₁ tldRec s₂, FederateDomain.parse host = .ok domain ∧
        exec (r.root env) s = (.ok z, s₁) ∧ z.lookupTld domain.tld = some tldRec ∧
        tldRec.status.isResolvable = true ∧ tldRec.isExpired (env.clock s₁.ticks) = false ∧
        exec (r.locateRecord env z tldRec domain.fqdn) { s₁ with ticks := s₁.ticks + 1 } =
          (.ok record, s₂) ∧
        record.verify tldRec.operatorPublicKey = .ok () ∧ InForce domain record ∧
        record.isExpired (env.clock s₂.ticks) = false ∧
        s' = { s₂ with ticks := s₂.ticks + 1 } := by
  simp only [resolveDomain, Environment.now, exec_bind_eq_ok, exec_lift, exec_ask, exec_pure,
    Prod.mk.injEq, okOr_eq_ok, rejectIf_eq_ok, exists_unit, Except.ok.injEq, not_or,
    Bool.not_eq_false, Bool.not_eq_true, not_not, ne_eq]
  constructor
  · intro checked
    obtain ⟨domain, s₀, ⟨parses, rfl⟩, z, s₁, rooted, tldRec, s₃, ⟨found, rfl⟩, now, s₄, ⟨rfl, rfl⟩,
      s₅, ⟨⟨resolvable, unexpired⟩, rfl⟩, rec', s₂, located, s₆, ⟨verified, rfl⟩, s₇,
      ⟨tld, rfl⟩, now', s₈, ⟨rfl, rfl⟩, s₉, ⟨⟨active, current⟩, rfl⟩, rfl, rfl⟩ := checked
    exact ⟨domain, z, s₁, tldRec, s₂, parses, rooted, found, resolvable, unexpired, located,
      verified, ⟨tld, active⟩, current, rfl⟩
  · intro checked
    obtain ⟨domain, z, s₁, tldRec, s₂, parses, rooted, found, resolvable, unexpired, located,
      verified, inForce, current, rfl⟩ := checked
    exact ⟨domain, s, ⟨parses, rfl⟩, z, s₁, rooted, tldRec, s₁, ⟨found, rfl⟩, _, _, ⟨rfl, rfl⟩,
      _, ⟨⟨resolvable, unexpired⟩, rfl⟩, record, s₂, located, _, ⟨verified, rfl⟩, _,
      ⟨inForce.tld, rfl⟩, _, _, ⟨rfl, rfl⟩, _, ⟨⟨inForce.resolvable, current⟩, rfl⟩, rfl, rfl⟩

/-- A zone in memory is the root zone. -/
theorem exec_root_held (holds : s.root = some z) : exec (r.root env) s = (.ok z, s) := by
  rw [root, exec_bind_ok (exec_get s)]
  simp only [holds, exec_pure]

/-- A root-managed record is looked up in the zone. -/
theorem exec_locateRecord_managed (managed : tldRec.registryType = .rootManaged) (fqdn : String) :
    exec (r.locateRecord env z tldRec fqdn) s =
      (okOr (z.lookup fqdn) (.domainNotFound fqdn), s) := by
  simp only [locateRecord, managed, exec_lift]

/-- `resolve_domain` finds the routed records that are in force. -/
theorem resolveDomain_eq_ok (parses : FederateDomain.parse host = .ok domain)
    (found : z.lookupTld domain.tld = some tldRec) (managed : tldRec.registryType = .rootManaged)
    (holds : s.root = some z) (clock : ∀ n, env.clock n = now) :
    (exec (r.resolveDomain env host) s).1 = .ok record ↔
      Routed z now domain tldRec record ∧ InForce domain record := by
  constructor
  · intro returned
    have ran : exec (r.resolveDomain env host) s =
        (.ok record, (exec (r.resolveDomain env host) s).2) := by rw [← returned]
    obtain ⟨domain', z', s₁, tldRec', s₂, parses', rooted, found', resolvable, unexpired, located,
      verified, inForce, current, -⟩ := exec_resolveDomain_eq_ok.mp ran
    obtain rfl := Except.ok.inj (parses.symm.trans parses')
    rw [exec_root_held holds, Prod.mk.injEq, Except.ok.injEq] at rooted
    obtain ⟨rfl, rfl⟩ := rooted
    obtain rfl := Option.some.inj (found.symm.trans found')
    rw [exec_locateRecord_managed managed, Prod.mk.injEq, okOr_eq_ok] at located
    rw [clock] at unexpired current
    exact ⟨⟨resolvable, unexpired, located.1, verified, current⟩, inForce⟩
  · intro both
    obtain ⟨routed, inForce⟩ := both
    have located : exec (r.locateRecord env z tldRec domain.fqdn) { s with ticks := s.ticks + 1 } =
        (.ok record, { s with ticks := s.ticks + 1 }) := by
      rw [exec_locateRecord_managed managed, routed.held]
      rfl
    have held : exec (r.root env) s = (.ok z, s) := exec_root_held holds
    have returned := exec_resolveDomain_eq_ok.mpr ⟨domain, z, s, tldRec, _, parses, held, found,
      routed.tldResolvable,
      clock _ ▸ routed.tldCurrent, located, routed.verified, inForce, clock _ ▸ routed.current, rfl⟩
    exact congrArg Prod.fst returned

/-- A located record is served exactly when it is in force and passes the checks. -/
theorem resolveRecord_pastChecks :
    PastChecks (exec (r.resolveRecord env domain path tldRec record) s).1 ↔
      record.verify tldRec.operatorPublicKey = .ok () ∧ InForce domain record ∧
        record.isExpired (env.clock s.ticks) = false := by
  unfold resolveRecord
  simp only
  split
  · rename_i outcome failed
    obtain ⟨reason, rfl⟩ := checkFailure_layer (record.verify_layer _) failed
    rw [exec_pure, pastChecks_ok]
    refine iff_of_false (not_not.mpr (Or.inr rfl)) fun checks => ?_
    rw [checks.1] at failed
    cases failed
  · rename_i passed
    have verified := checkFailure_eq_none (record.verify_failed _) passed
    split
    · rename_i other
      rw [exec_pure, pastChecks_ok]
      exact iff_of_false (not_not.mpr (Or.inr rfl)) fun checks => other checks.2.1.tld
    · rename_i same
      split
      · rename_i unresolvable
        rw [exec_pure, pastChecks_ok]
        refine iff_of_false (not_not.mpr trivial) fun checks => ?_
        rw [checks.2.1.resolvable] at unresolvable
        cases unresolvable
      · rename_i resolvable
        rw [Environment.now, exec_bind, exec_ask]
        simp only
        split
        · rename_i expired
          rw [exec_pure, pastChecks_ok]
          refine iff_of_false (not_not.mpr trivial) fun checks => ?_
          rw [checks.2.2] at expired
          cases expired
        · rename_i current
          exact iff_of_true (pastChecks_serve _ _ _ _)
            ⟨verified, ⟨not_not.mp same, by simpa using resolvable⟩, by simpa using current⟩

/-- A resolution gets past its checks on the routed records that are in force. -/
theorem resolve_pastChecks {key : String} (parses : FederateDomain.parse host = .ok domain)
    (found : z.lookupTld domain.tld = some tldRec) (managed : tldRec.registryType = .rootManaged)
    (holds : s.root = some z) (pinned : s.trustedRootKey = some key)
    (trusted : z.verify key = .ok ()) (clock : ∀ n, env.clock n = now) :
    (z.lookup domain.fqdn = some record ∧ PastChecks (exec (r.resolve env host path) s).1) ↔
      Routed z now domain tldRec record ∧ InForce domain record := by
  have signed : tldRec.verify key = .ok () := (RootZone.verify_eq_ok.mp trusted).2.2 _ _ found
  have below : exec (r.resolve env host path) s =
      exec (r.resolveIn env domain path z) s := by
    rw [resolve, parses]
    simp only
    rw [exec_bind, exec_attempt, exec_root_held holds]
  rw [below]
  unfold resolveIn
  simp only [found]
  rw [exec_bind, exec_get]
  simp only [pinned, Option.getD_some, signed, checkFailure]
  split
  · rename_i unresolvable
    rw [exec_pure, pastChecks_ok]
    refine iff_of_false (fun past => past.2 trivial) fun both => ?_
    rw [both.1.tldResolvable] at unresolvable
    cases unresolvable
  · rename_i resolvable
    rw [Environment.now, exec_bind, exec_ask, clock]
    simp only
    split
    · rename_i expired
      rw [exec_pure, pastChecks_ok]
      refine iff_of_false (fun past => past.2 trivial) fun both => ?_
      rw [both.1.tldCurrent] at expired
      cases expired
    · rename_i unexpired
      rw [exec_bind, exec_attempt, exec_locateRecord_managed managed]
      cases held : z.lookup domain.fqdn with
      | none => exact iff_of_false (by simp) fun both => by simp [both.1.held] at held
      | some record' =>
        simp only [okOr]
        rw [resolveRecord_pastChecks, clock]
        constructor
        · intro past
          obtain ⟨same, verified, inForce, current⟩ := past
          obtain rfl := Option.some.inj same
          exact ⟨⟨by simpa using resolvable, by simpa using unexpired, held, verified, current⟩,
            inForce⟩
        · intro both
          obtain rfl := Option.some.inj (held.symm.trans both.1.held)
          exact ⟨rfl, both.1.verified, both.2, both.1.current⟩

/-- On a name of a root-managed TLD the routers agree exactly when every record that is routed
is in force. -/
theorem routers_agree_iff {key : String} (holds : s.root = some z)
    (pinned : s.trustedRootKey = some key) (trusted : z.verify key = .ok ()) (clock : ∀ n, env.clock n = now)
    (parses : FederateDomain.parse host = .ok domain)
    (found : z.lookupTld domain.tld = some tldRec)
    (managed : tldRec.registryType = .rootManaged) :
    (∀ record,
      (RegistryView.locateDomain ⟨z⟩ host now = .ok (.rootManaged record) ↔
        (exec (r.resolveDomain env host) s).1 = .ok record) ∧
      ((exec (r.resolveDomain env host) s).1 = .ok record ↔
        z.lookup domain.fqdn = some record ∧ PastChecks (exec (r.resolve env host path) s).1)) ↔
      ∀ record, Routed z now domain tldRec record → InForce domain record := by
  constructor
  · intro agree record routed
    have located := (locateDomain_eq_ok parses found managed).mpr routed
    exact ((resolveDomain_eq_ok parses found managed holds clock).mp
      ((agree record).1.mp located)).2
  · intro inForce record
    rw [locateDomain_eq_ok parses found managed,
      resolveDomain_eq_ok parses found managed holds clock,
      resolve_pastChecks parses found managed holds pinned trusted clock]
    refine ⟨⟨fun routed => ⟨routed, inForce record routed⟩, fun both => both.1⟩, Iff.rfl⟩

end Routers

/-! ## The names in an answer -/

/-- Every answer for a host bears the host's name, and its TLD record the TLD's. -/
def AnswersNames (z : RootZone) (host : String) : Prop :=
  ∀ (r : Resolver) (env : Environment) (s s₁ s' : ResolverState) (record : DomainRecord),
    exec (r.root env) s = (.ok z, s₁) → exec (r.resolveDomain env host) s = (.ok record, s') →
      ∃ domain tldRec, FederateDomain.parse host = .ok domain ∧
        z.lookupTld domain.tld = some tldRec ∧ record.domain = domain.fqdn ∧
        tldRec.tld = domain.tld

omit [SerdeDocuments] [ResolverExternals] in
/-- The root-managed records that a zone files for a host bear its names, if there is a time at
which they pass the checks. -/
def FiledUnderNames (z : RootZone) (host : String) : Prop :=
  ∀ domain tldRec record now, FederateDomain.parse host = .ok domain →
    z.lookupTld domain.tld = some tldRec → tldRec.registryType = .rootManaged →
    Routed z now domain tldRec record → InForce domain record →
      record.domain = domain.fqdn ∧ tldRec.tld = domain.tld

/-- A resolver that knows no other node. -/
def Resolver.alone : Resolver := ⟨⟨""⟩, none, none, [], ""⟩

/-- Nothing answers, at a fixed time. -/
def Environment.silent (now : DateTime) : Environment where
  dial _ _ := .error (.network "")
  exchange _ _ _ := .error (.network "")
  httpGet _ _ := .error ""
  file _ := .error ""
  torn _ := none
  clock _ := now

omit [SerdeDocuments] [ResolverExternals] in
/-- What has not passed at a time had not passed before. -/
theorem expiredAt_earlier {expiresAt : Option String} {earlier later : DateTime}
    (order : earlier.nanos ≤ later.nanos) (current : expiredAt expiresAt later = false) :
    expiredAt expiresAt earlier = false := by
  unfold expiredAt at current ⊢
  split at current
  · rfl
  · split at current
    · rename_i parsed
      simp only [decide_eq_false_iff_not] at current ⊢
      omega
    · cases current

omit [SerdeDocuments] [ResolverExternals] in
/-- A record that was current at one reading of the clock, of a TLD current at another, was so
with the TLD at one time. -/
theorem Routed.of_readings {z : RootZone} {domain : FederateDomain} {tldRec : TldRecord}
    {record : DomainRecord} {first second : DateTime}
    (resolvable : tldRec.status.isResolvable = true) (unexpired : tldRec.isExpired first = false)
    (held : z.lookup domain.fqdn = some record)
    (verified : record.verify tldRec.operatorPublicKey = .ok ())
    (current : record.isExpired second = false) : ∃ now, Routed z now domain tldRec record := by
  rcases le_total first.nanos second.nanos with before | after
  · exact ⟨first, resolvable, unexpired, held, verified, expiredAt_earlier before current⟩
  · exact ⟨second, resolvable, expiredAt_earlier after unexpired, held, verified, current⟩

/-- Every answer bears the name it was asked for exactly when the zone files its root-managed
records under their names. -/
theorem answersNames_iff (z : RootZone) (host : String) :
    AnswersNames z host ↔ FiledUnderNames z host := by
  constructor
  · intro answers domain tldRec record now parses found managed routed inForce
    let s : ResolverState := ⟨some z, none, .fresh, 0⟩
    have returned : (exec (Resolver.alone.resolveDomain (.silent now) host) s).1 = .ok record :=
      (resolveDomain_eq_ok parses found managed rfl fun _ => rfl).mpr ⟨routed, inForce⟩
    have ran : exec (Resolver.alone.resolveDomain (.silent now) host) s =
        (.ok record, (exec (Resolver.alone.resolveDomain (.silent now) host) s).2) := by
      rw [← returned]
    obtain ⟨domain', tldRec', parses', found', names⟩ :=
      answers .alone (.silent now) s s _ record (exec_root_held rfl) ran
    obtain rfl := Except.ok.inj (parses.symm.trans parses')
    obtain rfl := Option.some.inj (found.symm.trans found')
    exact names
  · intro filed r env s s₁ s' record rooted returned
    obtain ⟨domain, z', s₁', tldRec, s₂, parses, rooted', found, resolvable, unexpired, located,
      verified, inForce, current, -⟩ := exec_resolveDomain_eq_ok.mp returned
    rw [rooted, Prod.mk.injEq, Except.ok.injEq] at rooted'
    obtain ⟨rfl, rfl⟩ := rooted'
    have source := locateRecord_held env r z tldRec domain.fqdn _ _ _ located
    refine ⟨domain, tldRec, parses, found, ?_⟩
    rcases source with ⟨managed, held⟩ | ⟨-, registry, valid, held⟩
    · obtain ⟨now, routed⟩ := Routed.of_readings resolvable unexpired held verified current
      exact filed domain tldRec record now parses found managed routed inForce
    · -- A registry that verifies files every record under its own name in its own TLD.
      obtain ⟨tld, -, -, entries⟩ := TldRegistry.verify_eq_ok.mp valid
      obtain ⟨recordTld, recordName⟩ := entries _ _ held
      have sameTld := inForce.tld
      exact ⟨recordName, by rw [← tld, ← recordTld, sameTld]⟩

end Federate

namespace Federate.Reference

open Outcome Stateful Resolver

/-- A zone with an official TLD and one domain record, filed under a name. -/
def filedZone (fqdn : String) (record : DomainRecord) : RootZone :=
  RootZone.signedBy { emptyZone authority.root ⟨0⟩ with
    tlds := (∅ : Table _ _).insert "foo" (official "foo")
    domains := (∅ : Table _ _).insert fqdn record } authority.root

section Filed

variable {fqdn : String} {record : DomainRecord}

theorem filedZone_lookupTld : (filedZone fqdn record).lookupTld "foo" = some (official "foo") :=
  Std.ExtTreeMap.getElem?_insert_self

theorem filedZone_lookup : (filedZone fqdn record).lookup fqdn = some record :=
  Std.ExtTreeMap.getElem?_insert_self

/-- The zone verifies, whatever the record and its name. -/
theorem filedZone_verify : (filedZone fqdn record).verify authority.root.nodeId = .ok () := by
  refine RootZone.verify_signedBy signaturesVerify _ _ rfl fun tld r found => ?_
  rw [Std.ExtTreeMap.getElem?_insert] at found
  split at found
  · rw [← Option.some.inj found]
    exact TldRecord.verify_signedBy signaturesVerify _ _
  · exact absurd found (by simp)

/-- It is valid when the record belongs to the TLD. -/
theorem filedZone_validate (member : record.tld = "foo") :
    (filedZone fqdn record).validate = .ok () := by
  have named : networkName ≠ "" := by decide
  refine RootZone.validate_eq_ok.mpr ⟨named, fun k r found => ?_⟩
  have filed : ((∅ : Table String DomainRecord).insert fqdn record)[k]? = some r := found
  rw [Std.ExtTreeMap.getElem?_insert] at filed
  split at filed
  · rw [← Option.some.inj filed, member]
    exact Std.ExtTreeMap.mem_insert_self
  · exact absurd filed (by simp)

end Filed

/-- A resolver that holds a zone signed by the pinned root. -/
def holding (z : RootZone) : ResolverState := ⟨some z, some authority.root.nodeId, .fresh, 0⟩

theorem parse_alice : FederateDomain.parse "alice.foo" = .ok ⟨"alice", "foo"⟩ := by decide +kernel

/-- A record that the operator signed for a name is routed when it is filed under alice.foo. -/
theorem routed_issued (label : String) (status : DomainStatus) :
    Routed (filedZone "alice.foo" (issuedRecord label "foo" status)) ⟨0⟩ ⟨"alice", "foo"⟩
      (official "foo") (issuedRecord label "foo" status) where
  tldResolvable := rfl
  tldCurrent := rfl
  held := filedZone_lookup
  verified := DomainRecord.verify_eq_ok.mpr
    ⟨rfl, _, rfl, verifySignature_sign signaturesVerify authority.officialOperator _⟩
  current := rfl

/-- The routers agree on a name whose record is active. -/
theorem active_agree :
    let z := filedZone "alice.foo" (issuedRecord "alice" "foo" .active)
    (∀ record,
      (RegistryView.locateDomain ⟨z⟩ "alice.foo" ⟨0⟩ = .ok (.rootManaged record) ↔
        (exec (resolver.resolveDomain offline "alice.foo") (holding z)).1 = .ok record) ∧
      ((exec (resolver.resolveDomain offline "alice.foo") (holding z)).1 = .ok record ↔
        z.lookup (FederateDomain.mk "alice" "foo").fqdn = some record ∧
          PastChecks (exec (resolver.resolve offline "alice.foo" "/") (holding z)).1)) ↔
      ∀ record, Routed z ⟨0⟩ ⟨"alice", "foo"⟩ (official "foo") record →
        InForce ⟨"alice", "foo"⟩ record :=
  routers_agree_iff rfl rfl filedZone_verify (fun _ => rfl) parse_alice filedZone_lookupTld rfl

/-- A registry view finds the record of a suspended name, and `resolve_domain` does not. -/
theorem suspended_disagree :
    let record := issuedRecord "alice" "foo" .suspended
    let z := filedZone "alice.foo" record
    z.validate = .ok () ∧ z.verify authority.root.nodeId = .ok () ∧
      RegistryView.locateDomain ⟨z⟩ "alice.foo" ⟨0⟩ = .ok (.rootManaged record) ∧
      (exec (resolver.resolveDomain offline "alice.foo") (holding z)).1 ≠ .ok record := by
  refine ⟨filedZone_validate rfl, filedZone_verify, ?_, fun returned => ?_⟩
  · exact (locateDomain_eq_ok parse_alice filedZone_lookupTld rfl).mpr (routed_issued _ _)
  · have both := (resolveDomain_eq_ok parse_alice filedZone_lookupTld rfl rfl fun _ => rfl).mp
      returned
    have active := both.2.resolvable
    cases active

/-- The record of another name is returned for the name that it is filed under. -/
theorem misfiled_returned :
    let record := issuedRecord "bob" "foo" .active
    let z := filedZone "alice.foo" record
    z.validate = .ok () ∧ z.verify authority.root.nodeId = .ok () ∧
      (exec (resolver.resolveDomain offline "alice.foo") (holding z)).1 = .ok record ∧
      record.domain ≠ (FederateDomain.mk "alice" "foo").fqdn := by
  refine ⟨filedZone_validate rfl, filedZone_verify, ?_, by decide⟩
  exact (resolveDomain_eq_ok parse_alice filedZone_lookupTld rfl rfl fun _ => rfl).mpr
    ⟨routed_issued _ _, rfl, rfl⟩

end Federate.Reference
