import Federate.Verif.Routers

/-!
# How a host is spelled

Hosts that parse to the same domain are resolved alike, since only the parsed name is used. The
list of a site's files is the exception: it compares the manifest's domain with the host as it was
spelled.
-/

namespace Federate

open Outcome Stateful Resolver

variable [Externals] [SerdeDocuments] [ResolverExternals] (r : Resolver) (env : Environment)
  (s : ResolverState)

/-- Two hosts have the same outcomes, and both are the host of a domain. -/
structure SpelledAlike (h₁ h₂ : String) : Prop where
  /-- Their content resolves alike. -/
  content : ∀ path, exec (r.resolve env h₁ path) s = exec (r.resolve env h₂ path) s
  /-- They are never outside the network. -/
  federate : ∀ path host, (exec (r.resolve env h₁ path) s).1 ≠ .ok (.notFederate host) ∧
    (exec (r.resolve env h₂ path) s).1 ≠ .ok (.notFederate host)
  /-- Their records are the same. -/
  record : exec (r.resolveDomain env h₁) s = exec (r.resolveDomain env h₂) s
  /-- Their sites have the same files. -/
  files : exec (r.siteFiles env h₁) s = exec (r.siteFiles env h₂) s

/-- The manifest that the resolver's state and the answers of its providers have for a domain. -/
def ManifestOf (domain : FederateDomain) (m : Manifest) : Prop :=
  ∃ record s₁ s₂, exec (r.resolveDomain env domain.fqdn) s = (.ok record, s₁) ∧
    exec (r.manifest env record.manifestHash) s₁ = (.ok m, s₂)

variable {r env s} {h₁ h₂ host path : String} {domain : FederateDomain}

/-! ## What depends on the domain alone -/

/-- A record is found for the domain of a host, however it is spelled. -/
theorem resolveDomain_spelled (first : FederateDomain.parse h₁ = .ok domain)
    (second : FederateDomain.parse h₂ = .ok domain) :
    r.resolveDomain env h₁ = r.resolveDomain env h₂ := by
  unfold resolveDomain
  rw [first, second]

/-- Content is found for the domain of a host, however it is spelled. -/
theorem resolve_spelled (first : FederateDomain.parse h₁ = .ok domain)
    (second : FederateDomain.parse h₂ = .ok domain) : r.resolve env h₁ path =
      r.resolve env h₂ path := by
  unfold resolve
  rw [first, second]

/-- The outcome is about a name of the network. -/
def Resolved.Inside (res : Resolved) : Prop := ∀ host, res ≠ .notFederate host

omit [Externals] [SerdeDocuments] [ResolverExternals] in
/-- The outcome of a failed check is about a name of the network. -/
theorem checkFailure_inside {fqdn : String} {check : Result Unit} {outcome : Resolved}
    (failed : checkFailure fqdn check = some outcome) : outcome.Inside := by
  intro host same
  rw [same] at failed
  unfold checkFailure at failed
  split at failed
  · cases failed
  · cases failed

omit [Externals] [SerdeDocuments] [ResolverExternals] in
/-- So is the outcome of bytes that cannot be had. -/
theorem unfetched_inside {fqdn layer what : String} {e : FederateError} {res : Resolved}
    (outcome : unfetched fqdn layer what e = .ok res) : res.Inside := by
  intro host same
  rw [same] at outcome
  cases e <;> cases outcome

omit [Externals] [SerdeDocuments] [ResolverExternals] in
/-- So is the outcome of a failed search. -/
theorem unlocated_inside {fqdn : String} {e : FederateError} {res : Resolved}
    (outcome : unlocated fqdn e = .ok res) : res.Inside := by
  intro host same
  rw [same] at outcome
  cases e <;> cases outcome

/-- Serving a record gives an outcome about a name of the network. -/
theorem serve_inside {fqdn : String} {record : DomainRecord} :
    Returns Resolved.Inside (r.serve env fqdn path record) := by
  unfold serve
  refine (returns_any _).bind fun outcome _ => ?_
  cases outcome with
  | error e => exact (returns_lift _).mono fun res same => unfetched_inside same
  | ok m =>
    simp only
    split
    · rename_i outcome failed
      exact returns_pure (checkFailure_inside failed)
    · split
      · exact returns_pure (by simp [Resolved.Inside])
      · refine (returns_any _).bind fun outcome _ => ?_
        cases outcome with
        | error e => exact (returns_lift _).mono fun res same => unfetched_inside same
        | ok bytes => exact returns_pure (by simp [Resolved.Inside])

/-- So does checking a record. -/
theorem resolveRecord_inside {tldRec : TldRecord} {record : DomainRecord} :
    Returns Resolved.Inside (r.resolveRecord env domain path tldRec record) := by
  unfold resolveRecord
  simp only
  split
  · rename_i outcome failed
    exact returns_pure (checkFailure_inside failed)
  · split
    · exact returns_pure (by simp [Resolved.Inside])
    · split
      · exact returns_pure (by simp [Resolved.Inside])
      · refine (returns_any _).bind fun now _ => ?_
        split
        · exact returns_pure (by simp [Resolved.Inside])
        · exact serve_inside

/-- So does resolving a domain below a root zone. -/
theorem resolveIn_inside {root : RootZone} :
    Returns Resolved.Inside (r.resolveIn env domain path root) := by
  unfold resolveIn
  split
  · exact returns_pure (by simp [Resolved.Inside])
  · refine (returns_any _).bind fun state _ => ?_
    simp only
    split
    · rename_i outcome failed
      exact returns_pure (checkFailure_inside failed)
    · split
      · exact returns_pure (by simp [Resolved.Inside])
      · refine (returns_any _).bind fun now _ => ?_
        split
        · exact returns_pure (by simp [Resolved.Inside])
        · refine (returns_any _).bind fun located _ => ?_
          cases located with
          | error e => exact (returns_lift _).mono fun res same => unlocated_inside same
          | ok record => exact resolveRecord_inside

/-- So does resolving the host of a domain. -/
theorem returns_inside (parses : FederateDomain.parse host = .ok domain) :
    Returns Resolved.Inside (r.resolve env host path) := by
  unfold resolve
  rw [parses]
  simp only
  refine (returns_any _).bind fun rooted _ => ?_
  cases rooted with
  | error e =>
    cases e with
    | verificationFailed layer subject reason => exact returns_pure (by simp [Resolved.Inside])
    | _ => exact returns_throw _
  | ok root => exact resolveIn_inside

/-- The host of a domain is never outside the network. -/
theorem resolve_inside (parses : FederateDomain.parse host = .ok domain) (other : String) :
    (exec (r.resolve env host path) s).1 ≠ .ok (.notFederate other) := by
  intro outside
  have ran : exec (r.resolve env host path) s =
      (.ok (.notFederate other), (exec (r.resolve env host path) s).2) := by rw [← outside]
  exact returns_inside parses _ _ _ ran other rfl

/-! ## The files of a site -/

section Manifests

omit [SerdeDocuments] [ResolverExternals]

variable {m : Manifest} {key : String}

/-- The failure of a manifest that is for another domain. -/
def Manifest.otherDomain (m : Manifest) : FederateError :=
  .verificationFailed "manifest" m.domain "manifest domain does not match the requested domain"

/-- A manifest fails as one for another domain exactly when it is. -/
theorem Manifest.verify_otherDomain :
    m.verify host key = .error m.otherDomain ↔ m.domain ≠ host := by
  constructor
  · intro failed same
    have skipped (e : FederateError) : rejectIf (m.domain ≠ host) e = pure () :=
      if_neg (not_not.mpr same)
    have fails : FailsWith (fun e => e ≠ m.otherDomain) (m.verify host key) := by
      unfold Manifest.verify Manifest.otherDomain
      simp only [skipped, pure_bind]
      refine (failsWith_rejectIf (by simp)).bind fun _ => ?_
      refine (failsWith_okOr (by simp)).bind fun signature => ?_
      exact failsWith_rejectIf (by simp)
    exact fails _ failed rfl
  · intro differs
    have rejected (e : FederateError) : rejectIf (m.domain ≠ host) e = .error e := if_pos differs
    unfold Manifest.verify
    simp only [rejected]
    rfl

/-- Verification for two names gives the same result exactly when the names are the same or the
manifest is for neither. -/
theorem Manifest.verify_spelled :
    m.verify h₁ key = m.verify h₂ key ↔ h₁ = h₂ ∨ m.domain ≠ h₁ ∧ m.domain ≠ h₂ := by
  constructor
  · intro same
    by_cases first : m.domain = h₁
    · have second : m.domain = h₂ := by
        by_contra other
        rw [Manifest.verify_otherDomain.mpr other] at same
        exact Manifest.verify_otherDomain.mp same first
      exact .inl (first.symm.trans second)
    · have second : m.domain ≠ h₂ := by
        rw [Manifest.verify_otherDomain.mpr first] at same
        exact Manifest.verify_otherDomain.mp same.symm
      exact .inr ⟨first, second⟩
  · intro alike
    rcases alike with same | ⟨first, second⟩
    · rw [same]
    · rw [Manifest.verify_otherDomain.mpr first, Manifest.verify_otherDomain.mpr second]

end Manifests

/-- The files of a site are listed alike exactly when the hosts are spelled the same or the
manifest is for neither spelling. -/
theorem siteFiles_spelled (first : FederateDomain.parse h₁ = .ok domain)
    (second : FederateDomain.parse h₂ = .ok domain) :
    exec (r.siteFiles env h₁) s = exec (r.siteFiles env h₂) s ↔
      h₁ = h₂ ∨ ∀ m, ManifestOf r env s domain m → m.domain ≠ h₁ ∧ m.domain ≠ h₂ := by
  have canonical : FederateDomain.parse domain.fqdn = .ok domain :=
    FederateDomain.parse_fqdn_of_parse first
  have own : r.resolveDomain env h₁ = r.resolveDomain env domain.fqdn :=
    resolveDomain_spelled first canonical
  have other : r.resolveDomain env h₂ = r.resolveDomain env domain.fqdn :=
    resolveDomain_spelled second canonical
  unfold siteFiles
  rw [own, other]
  rcases located : exec (r.resolveDomain env domain.fqdn) s with ⟨e | record, s₁⟩
  · rw [exec_bind_error located, exec_bind_error located]
    refine iff_of_true rfl (.inr fun m has => ?_)
    obtain ⟨record, s₁', s₂, found, -⟩ := has
    rw [located] at found
    cases found
  rw [exec_bind_ok located, exec_bind_ok located]
  rcases fetched : exec (r.manifest env record.manifestHash) s₁ with ⟨e | m, s₂⟩
  · rw [exec_bind_error fetched, exec_bind_error fetched]
    refine iff_of_true rfl (.inr fun m has => ?_)
    obtain ⟨record', s₁', s₂', found, read⟩ := has
    rw [located, Prod.mk.injEq, Except.ok.injEq] at found
    obtain ⟨rfl, rfl⟩ := found
    rw [fetched] at read
    cases read
  rw [exec_bind_ok fetched, exec_bind_ok fetched]
  have whole : (∀ m, ManifestOf r env s domain m → m.domain ≠ h₁ ∧ m.domain ≠ h₂) ↔
      m.domain ≠ h₁ ∧ m.domain ≠ h₂ := by
    constructor
    · intro all
      exact all m ⟨record, s₁, s₂, located, fetched⟩
    · intro apart m' has
      obtain ⟨record', s₁', s₂', found, read⟩ := has
      rw [located, Prod.mk.injEq, Except.ok.injEq] at found
      obtain ⟨rfl, rfl⟩ := found
      rw [fetched, Prod.mk.injEq, Except.ok.injEq] at read
      rw [← read.1]
      exact apart
  have verified : m.verify h₁ record.ownerPublicKey = m.verify h₂ record.ownerPublicKey ↔
      h₁ = h₂ ∨ m.domain ≠ h₁ ∧ m.domain ≠ h₂ := Manifest.verify_spelled
  rw [whole, ← verified, exec_bind, exec_bind, exec_lift, exec_lift]
  constructor
  · intro same
    cases one : m.verify h₁ record.ownerPublicKey with
    | error e =>
      cases two : m.verify h₂ record.ownerPublicKey with
      | error e' => simpa [one, two] using same
      | ok done => simp [one, two] at same
    | ok done =>
      cases two : m.verify h₂ record.ownerPublicKey with
      | error e' => simp [one, two] at same
      | ok done' => rfl
  · intro same
    rw [same]

/-- Two hosts of one domain have the same outcomes exactly when they are spelled the same or the
manifest is for neither spelling. -/
theorem spelledAlike_iff (first : FederateDomain.parse h₁ = .ok domain)
    (second : FederateDomain.parse h₂ = .ok domain) :
    SpelledAlike r env s h₁ h₂ ↔
      h₁ = h₂ ∨ ∀ m, ManifestOf r env s domain m → m.domain ≠ h₁ ∧ m.domain ≠ h₂ := by
  constructor
  · intro alike
    exact (siteFiles_spelled first second).mp alike.files
  · intro fits
    constructor
    · intro path
      rw [resolve_spelled first second]
    · intro path other
      exact ⟨resolve_inside first other, resolve_inside second other⟩
    · rw [resolveDomain_spelled first second]
    · exact (siteFiles_spelled first second).mpr fits

end Federate

namespace Federate.Reference

open Outcome Stateful Resolver

/-- A resolver that holds the zone of the site, with its files on disk. -/
def siteHeld : ResolverState where
  root := some siteZone
  trustedRootKey := some authority.root.nodeId
  disk := siteDisk
  ticks := 0

theorem parse_upper : FederateDomain.parse "ALICE.foo" = .ok ⟨"alice", "foo"⟩ := by decide +kernel

theorem parse_capital : FederateDomain.parse "Alice.foo" = .ok ⟨"alice", "foo"⟩ := by
  decide +kernel

/-- The record of the site is found. -/
theorem exec_resolveDomain_held : exec (resolver.resolveDomain offline "alice.foo") siteHeld =
    (.ok siteRecord, { siteHeld with ticks := 2 }) := by
  have found : siteZone.lookupTld "foo" = some (official "foo") :=
    Std.ExtTreeMap.getElem?_insert_self
  have signed : siteRecord.verify (official "foo").operatorPublicKey = .ok () :=
    DomainRecord.verify_eq_ok.mpr ⟨rfl, _, rfl, verifySignature_sign signaturesVerify _ _⟩
  have filed : siteZone.lookup "alice.foo" = some siteRecord := Std.ExtTreeMap.getElem?_insert_self
  have managed : (official "foo").registryType = .rootManaged := rfl
  have rooted : exec (resolver.root offline) siteHeld = (.ok siteZone, siteHeld) :=
    exec_root_held rfl
  have name : (FederateDomain.mk "alice" "foo").fqdn = "alice.foo" := by decide
  let located : ResolverState := { siteHeld with ticks := 1 }
  have locates : exec (resolver.locateRecord offline siteZone (official "foo")
      (FederateDomain.mk "alice" "foo").fqdn) located = (.ok siteRecord, located) := by
    rw [exec_locateRecord_managed managed, name, filed]
    rfl
  exact exec_resolveDomain_eq_ok.mpr ⟨_, siteZone, siteHeld, official "foo", located, parse_alice,
    rooted, found, rfl, rfl, locates, signed, ⟨rfl, rfl⟩, rfl, rfl⟩

/-- The manifest that the resolver has for the domain is that of the site. -/
theorem siteHeld_manifest (m : Manifest) :
    ManifestOf resolver offline siteHeld ⟨"alice", "foo"⟩ m ↔ m = siteManifest := by
  have name : (FederateDomain.mk "alice" "foo").fqdn = "alice.foo" := by decide
  have read : exec (resolver.manifest offline siteRecord.manifestHash)
      { siteHeld with ticks := 2 } = (.ok siteManifest, { siteHeld with ticks := 2 }) :=
    exec_manifest_site _ rfl
  rw [ManifestOf, name, exec_resolveDomain_held]
  constructor
  · intro has
    obtain ⟨record, s₁, s₂, found, fetched⟩ := has
    rw [Prod.mk.injEq, Except.ok.injEq] at found
    obtain ⟨rfl, rfl⟩ := found
    rw [read, Prod.mk.injEq, Except.ok.injEq] at fetched
    exact fetched.1.symm
  · intro same
    rw [same]
    exact ⟨siteRecord, _, _, rfl, read⟩

/-- Two spellings that the manifest of the site does not use have the same outcomes. -/
theorem spellings_alike : SpelledAlike resolver offline siteHeld "ALICE.foo" "Alice.foo" := by
  refine (spelledAlike_iff parse_upper parse_capital).mpr (.inr fun m has => ?_)
  have domain : m.domain = "alice.foo" := by
    rw [(siteHeld_manifest m).mp has]
    rfl
  rw [domain]
  decide

/-- Two spellings of a host list different files. -/
theorem upper_differs : ¬SpelledAlike resolver offline siteHeld "alice.foo" "ALICE.foo" := by
  intro alike
  have apart := (siteFiles_spelled parse_alice parse_upper).mp alike.files
  rcases apart with same | apart
  · exact absurd same (by decide)
  · exact (apart siteManifest ((siteHeld_manifest siteManifest).mpr rfl)).1 rfl

end Federate.Reference
