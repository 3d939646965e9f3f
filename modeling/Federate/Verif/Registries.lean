import Federate.Reference.Resolver
import Federate.Verif.Fetch

/-!
# Live registries over a whole run

The registry of a live delegated TLD, asked for again and again with restarts in between, is
verified every time and never older than before, as long as what arrives is read back from the
cache as it was. A provider whose document fails verification ends the call: neither another
provider nor the cache answers in its place.
-/

namespace Federate

open Outcome Stateful Resolver

variable [Externals] [SerdeDocuments] [ResolverExternals]

/-- The stored text of the registry is read back as the registry. -/
def TldRegistry.ReadsBack (registry : TldRegistry) : Prop :=
  SerdeDocuments.tldRegistry (Externals.toVecPretty registry.toJson) = .ok registry

/-- A document that reads as a registry arrives from a provider of the TLD. -/
inductive RegistryArrives (env : Environment) (tldRec : TldRecord) (registry : TldRegistry) : Prop
  | native {n : ℕ} {addr tld : String} {registryJson : Bytes}
      (answered : env.exchange n addr (.getTldRegistry tldRec.tld) =
        .ok (.tldRegistry tld registryJson))
      (reads : SerdeDocuments.tldRegistry registryJson = .ok registry) :
      RegistryArrives env tldRec registry
  | http {n : ℕ} {endpoint : String} {response : HttpResponse} {bytes : Bytes} {value : Json}
      (answered : env.httpGet n
        (Text.trimEndMatches '/' endpoint ++ "/v1/tld-registry/" ++ tldRec.tld) = .ok response)
      (whole : Environment.readCapped response (4 * 1024 * 1024) = .ok bytes)
      (parsed : ResolverExternals.jsonValue bytes = .ok value)
      (reads : ResolverExternals.registryFromValue value = .ok registry) :
      RegistryArrives env tldRec registry

/-- A provider of live registries. -/
inductive RegistrySource where
  | native (addr : String)
  | http (endpoint : String)

/-- The providers of a TLD in the order they are asked. -/
def TldRecord.registrySources (tldRec : TldRecord) : List RegistrySource :=
  tldRec.registryProviders.map .native ++ tldRec.registryEndpoint.toList.map .http

/-- What a provider answers: a document, within the size limit and decoded, or no document. -/
def Resolver.registryAnswer (r : Resolver) (env : Environment) (tld : String) :
    RegistrySource → ResolverM TldRegistry
  | .native addr => r.nativeRegistryDocument env tld addr
  | .http endpoint => registryDocument env endpoint tld

/-- The first provider that answers with a document answers with a forged one. -/
inductive FirstForged (r : Resolver) (env : Environment) (tldRec : TldRecord) :
    ResolverState → List RegistrySource → Prop
  | here {s s' : ResolverState} {source : RegistrySource} {rest : List RegistrySource}
      {registry : TldRegistry} {e : FederateError}
      (answered : exec (r.registryAnswer env tldRec.tld source) s = (.ok registry, s'))
      (forged : registry.verify tldRec.tld tldRec.operatorPublicKey = .error e) :
      FirstForged r env tldRec s (source :: rest)
  | later {s s' : ResolverState} {source : RegistrySource} {rest : List RegistrySource}
      {e : FederateError}
      (silent : exec (r.registryAnswer env tldRec.tld source) s = (.error e, s'))
      (next : FirstForged r env tldRec s' rest) : FirstForged r env tldRec s (source :: rest)

section Fetch

variable (r : Resolver) (env : Environment) (tldRec : TldRecord)

/-- One provider's registry, verified. -/
def Resolver.verifiedAnswer (source : RegistrySource) : ResolverM TldRegistry := do
  let registry ← r.registryAnswer env tldRec.tld source
  liftM (registry.verify tldRec.tld tldRec.operatorPublicKey)
  return registry

/-- A live fetch asks the providers in order. -/
theorem fetchRegistryLive_eq : r.fetchRegistryLive env tldRec =
    tryEach isVerificationFailed (r.verifiedAnswer env tldRec)
      (throw (.delegatedRegistryUnavailable tldRec.tld "no registry provider answered"))
      tldRec.registrySources := by
  rw [TldRecord.registrySources, tryEach_append, tryEach_map, tryEach_map]
  rfl

omit [SerdeDocuments] [ResolverExternals] in
/-- A registry fails verification in one way only. -/
theorem TldRegistry.verify_failed (registry : TldRegistry) (tld key : String) :
    FailsWith (isVerificationFailed · = true) (registry.verify tld key) :=
  (failsWith_rejectIf (by rfl)).bind fun _ => (failsWith_rejectIf (by rfl)).bind fun _ =>
    (failsWith_okOr (by rfl)).bind fun _ => (failsWith_rejectIf (by rfl)).bind fun _ =>
      .forM (fun _ => failsWith_rejectIf (by rfl)) _

variable {r env tldRec}

/-- When the first document is forged, the fetch fails with a signature failure. -/
theorem FirstForged.fetch {fallback : ResolverM TldRegistry} {sources : List RegistrySource}
    {s : ResolverState} (first : FirstForged r env tldRec s sources) :
    ∃ e s', isVerificationFailed e = true ∧
      exec (tryEach isVerificationFailed (r.verifiedAnswer env tldRec) fallback sources) s =
        (.error e, s') := by
  induction first with
  | @here s s' source rest registry e answered forged =>
    have failed : exec (r.verifiedAnswer env tldRec source) s = (.error e, s') := by
      rw [verifiedAnswer, exec_bind_ok answered, exec_bind, exec_lift, forged]
    have signature := registry.verify_failed _ _ e forged
    exact ⟨e, s', signature, by
      rw [tryEach, exec_bind, exec_attempt, failed]
      simp [signature]⟩
  | @later s s' source rest e silent next ih =>
    have failed : exec (r.verifiedAnswer env tldRec source) s = (.error e, s') := by
      rw [verifiedAnswer, exec_bind_error silent]
    cases signature : isVerificationFailed e with
    | true =>
      exact ⟨e, s', signature, by
        rw [tryEach, exec_bind, exec_attempt, failed]
        simp [signature]⟩
    | false =>
      obtain ⟨e', s'', signature', rest⟩ := ih
      exact ⟨e', s'', signature', by
        rw [tryEach, exec_bind, exec_attempt, failed]
        simp [signature, rest]⟩

end Fetch

/-! ## One call -/

/-- The cache file of the TLD holds the registry, verified under the current operator key. -/
def HeldRegistry (tldRec : TldRecord) (d : ResolverDisk) (registry : TldRegistry) : Prop :=
  ∃ path bytes, registryCachePath tldRec.tld = some path ∧ d.registries[path]? = some bytes ∧
    SerdeDocuments.tldRegistry bytes = .ok registry ∧
      registry.verify tldRec.tld tldRec.operatorPublicKey = .ok ()

section Call

variable {r : Resolver} {env : Environment} {tldRec : TldRecord} {s s' : ResolverState}

omit [ResolverExternals] in
/-- Looking into the cache changes nothing and finds what it holds. -/
theorem cachedRegistry_eq {res : Result (Option TldRegistry)}
    (ran : exec (cachedRegistry tldRec) s = (res, s')) :
    s' = s ∧ ∃ found, res = .ok found ∧
      ∀ registry, found = some registry ↔ HeldRegistry tldRec s.disk registry := by
  simp only [cachedRegistry, exec_bind, exec_get, exec_pure] at ran
  obtain ⟨rfl, rfl⟩ := Prod.mk.inj ran
  refine ⟨rfl, _, rfl, fun registry => ?_⟩
  have converted {ε α : Type} (x : Except ε α) (a : α) : x.toOption = some a ↔ x = .ok a := by
    cases x <;> simp [Except.toOption]
  simp only [bind, Option.bind_eq_some_iff, Option.some.injEq, converted, HeldRegistry]
  constructor
  · rintro ⟨path, filed, bytes, stored, found, reads, _, verified, rfl⟩
    exact ⟨path, bytes, filed, stored, reads, verified⟩
  · rintro ⟨path, bytes, filed, stored, reads, verified⟩
    exact ⟨path, filed, bytes, stored, registry, reads, (), verified, rfl⟩

omit [Externals] in
/-- A native provider's document arrived. -/
theorem nativeRegistryDocument_arrives (r : Resolver) (addr : String) :
    Returns (RegistryArrives env tldRec) (r.nativeRegistryDocument env tldRec.tld addr) := by
  refine (returns_any _).bind fun _ _ => (returns_any _).bind fun _ _ =>
    (ask_answered _).bind fun answer answered => ?_
  split
  · obtain ⟨n, answered⟩ := answered
    exact (returns_any _).bind fun _ _ => (returns_lift _).mono fun registry reads =>
      .native answered (mapError_eq_ok.mp reads)
  · exact returns_throw _

omit [Externals] in
/-- An HTTP endpoint's document arrived. -/
theorem registryDocument_arrives (endpoint : String) :
    Returns (RegistryArrives env tldRec) (registryDocument env endpoint tldRec.tld) := by
  refine (registryDocument_answered env endpoint tldRec.tld).mono fun registry arrived => ?_
  obtain ⟨n, response, bytes, value, answered, whole, parsed, reads⟩ := arrived
  exact .http answered whole parsed reads

/-- What a live fetch returns arrived and is verified. -/
theorem fetchRegistryLive_arrives (r : Resolver) (env : Environment) (tldRec : TldRecord) :
    Returns (fun registry => registry.verify tldRec.tld tldRec.operatorPublicKey = .ok () ∧
      RegistryArrives env tldRec registry) (r.fetchRegistryLive env tldRec) := by
  rw [fetchRegistryLive_eq]
  refine .tryEach (fun source => ?_) (returns_throw _) _
  cases source with
  | native addr =>
    exact (nativeRegistryDocument_arrives r addr).bind fun registry arrived =>
      (returns_lift _).bind fun _ verified => returns_pure ⟨verified, arrived⟩
  | http endpoint =>
    exact (registryDocument_arrives endpoint).bind fun registry arrived =>
      (returns_lift _).bind fun _ verified => returns_pure ⟨verified, arrived⟩

omit [SerdeDocuments] [ResolverExternals] in
/-- Storing a registry, when the write succeeds. -/
theorem storeRegistry_eq {registry : TldRegistry} {path : String}
    (writes : ∀ n, env.file n = .ok ()) (filed : registryCachePath registry.tld = some path) :
    exec (storeRegistry env registry) s = (.ok (), { s with
      ticks := s.ticks + 1
      disk := { s.disk with
        registries := s.disk.registries.insert path (Externals.toVecPretty registry.toJson) } }) := by
  unfold storeRegistry
  rw [filed]
  simp only
  rw [exec_bind, exec_attempt, Environment.exec_changeFile (writes _)]
  simp only [exec_pure]

/-- What a live call does, when writes succeed and what arrives is read back: it returns the registry
that the cache holds afterwards, not older than before; a failed call leaves the files alone. -/
theorem liveRegistry_outcome (back : ∀ registry, RegistryArrives env tldRec registry →
      registry.ReadsBack) (writes : ∀ n, env.file n = .ok ()) {path : String}
    (filed : registryCachePath tldRec.tld = some path) {res : Result TldRegistry}
    (ran : exec (r.liveRegistry env tldRec) s = (res, s')) :
    (∃ registry, res = .ok registry ∧ HeldRegistry tldRec s'.disk registry ∧
      ∀ held, HeldRegistry tldRec s.disk held → held.version ≤ registry.version) ∨
    (∃ e, res = .error e) ∧ s'.disk = s.disk := by
  rw [liveRegistry, exec_bind, exec_attempt] at ran
  have keeps := keeps_fetchRegistryLive env r tldRec s
  have gives := fetchRegistryLive_arrives r env tldRec s
  generalize exec (r.fetchRegistryLive env tldRec) s = fetch at ran keeps gives
  obtain ⟨outcome, s₁⟩ := fetch
  obtain ⟨n, later, rfl⟩ := keeps
  cases outcome with
  | ok registry =>
    obtain ⟨verified, arrived⟩ := gives _ registry rfl
    simp only [exec_bind] at ran
    generalize looked : exec (cachedRegistry tldRec) _ = look at ran
    obtain ⟨outcome, s₂⟩ := look
    obtain ⟨rfl, found, rfl, holds⟩ := cachedRegistry_eq looked
    have store (newest : ∀ held, HeldRegistry tldRec s.disk held →
        held.version ≤ registry.version)
        (put : exec (do storeRegistry env registry; return registry : ResolverM TldRegistry)
          { s with ticks := n } = (res, s')) :
        ∃ registry, res = .ok registry ∧ HeldRegistry tldRec s'.disk registry ∧
          ∀ held, HeldRegistry tldRec s.disk held → held.version ≤ registry.version := by
      have sameTld : registry.tld = tldRec.tld := (TldRegistry.verify_eq_ok.mp verified).1
      rw [exec_bind, storeRegistry_eq writes (sameTld ▸ filed)] at put
      obtain ⟨rfl, rfl⟩ := Prod.mk.inj put
      exact ⟨registry, rfl, ⟨path, _, filed, by simp, back registry arrived, verified⟩, newest⟩
    cases found with
    | none => exact .inl (store (fun held holdsIt => absurd ((holds held).mpr holdsIt) nofun) ran)
    | some cached =>
      have only : ∀ held, HeldRegistry tldRec s.disk held → held = cached :=
        fun held holdsIt => (Option.some.inj ((holds held).mpr holdsIt)).symm
      simp only at ran
      split at ran
      · obtain ⟨rfl, rfl⟩ := Prod.mk.inj ran
        exact .inl ⟨cached, rfl, (holds cached).mp rfl, fun held holdsIt =>
          only held holdsIt ▸ UInt64.le_refl _⟩
      · rename_i notOlder
        exact .inl (store (fun held holdsIt => only held holdsIt ▸ UInt64.not_lt.mp notOlder) ran)
  | error e =>
    simp only at ran
    split at ran
    · obtain ⟨rfl, rfl⟩ := Prod.mk.inj ran
      exact .inr ⟨⟨e, rfl⟩, rfl⟩
    · rw [exec_bind] at ran
      generalize looked : exec (cachedRegistry tldRec) _ = look at ran
      obtain ⟨outcome, s₂⟩ := look
      obtain ⟨rfl, found, rfl, holds⟩ := cachedRegistry_eq looked
      cases found with
      | none =>
        obtain ⟨rfl, rfl⟩ := Prod.mk.inj ran
        exact .inr ⟨⟨e, rfl⟩, rfl⟩
      | some cached =>
        obtain ⟨rfl, rfl⟩ := Prod.mk.inj ran
        refine .inl ⟨cached, rfl, (holds cached).mp rfl, fun held holdsIt => ?_⟩
        obtain rfl := Option.some.inj ((holds held).mpr holdsIt)
        exact UInt64.le_refl _

/-- A forged first document ends the call with a signature failure, and the files stay. -/
theorem liveRegistry_forged (forged : FirstForged r env tldRec s tldRec.registrySources) :
    ∃ e s', isVerificationFailed e = true ∧ exec (r.liveRegistry env tldRec) s = (.error e, s') ∧
      s'.disk = s.disk := by
  obtain ⟨e, s₁, signature, failed⟩ := forged.fetch
  rw [← fetchRegistryLive_eq] at failed
  have keeps := keeps_fetchRegistryLive env r tldRec s
  rw [failed] at keeps
  obtain ⟨n, -, rfl⟩ := keeps
  refine ⟨e, { s with ticks := n }, signature, ?_, rfl⟩
  rw [liveRegistry, exec_bind, exec_attempt, failed]
  simp [signature]

end Call

/-! ## Every run -/

/-- A call for the registry of one TLD with writes that succeed, or a restart. -/
def ResolverEvent.AsksFor (tldRec : TldRecord) : ResolverEvent → Prop
  | .call _ env (.tldRegistry asked) => asked = tldRec ∧ ∀ n, env.file n = .ok ()
  | .restart _ => True
  | _ => False

/-- Every document for the registry of the TLD that arrives is read back from the cache as it
was. -/
def ResolverEvent.FaithfulFor (tldRec : TldRecord) : ResolverEvent → Prop
  | .call _ env _ => ∀ registry, RegistryArrives env tldRec registry → registry.ReadsBack
  | _ => True

/-- The version of the registry that a call returns. -/
def ResolverState.registryVersion (s : ResolverState) : ResolverEvent → Option UInt64
  | .call r env (.tldRegistry tldRec) =>
    (exec (r.tldRegistry env tldRec) s).1.toOption.map TldRegistry.version
  | _ => none

/-- What holds of the registry of a TLD after a run that asked for it. -/
structure RegistrySafe (tldRec : TldRecord) (start s : ResolverState)
    (events : List ResolverEvent) : Prop where
  /-- Every registry returned next is verified. -/
  verified : ∀ (r : Resolver) (env : Environment) (registry : TldRegistry) (s' : ResolverState),
    exec (r.tldRegistry env tldRec) s = (.ok registry, s') →
      registry.verify tldRec.tld tldRec.operatorPublicKey = .ok ()
  /-- No returned version is below an earlier one, when what arrived is read back. -/
  versions : (∀ event ∈ events, event.FaithfulFor tldRec) → (Transition.observations
    ResolverState.step ResolverState.registryVersion start events).Pairwise (· ≤ ·)
  /-- A forged first document ends the next call with a signature failure, and the files stay. -/
  forged : ∀ (r : Resolver) (env : Environment), FirstForged r env tldRec s tldRec.registrySources →
    ∃ layer subject reason s', exec (r.tldRegistry env tldRec) s =
      (.error (.verificationFailed layer subject reason), s') ∧ s'.disk = s.disk

end Federate

namespace Federate.Reference

open Json Outcome Stateful Resolver

/-- A registry that arrives is read back from its indented text. -/
theorem registryReadsBack_of_arrives {env : Environment} {tldRec : TldRecord}
    {registry : TldRegistry} (arrives : RegistryArrives env tldRec registry) :
    registry.ReadsBack := by
  cases arrives with
  | native answered reads => exact read_pretty reads
  | http answered whole parsed reads =>
    have json : registry.FromJson := by
      unfold ResolverExternals.registryFromValue at reads
      simp only [instResolverExternals, registryOf] at reads
      split at reads
      · rename_i written
        exact Except.ok.inj reads ▸ written.choose_spec.1
      · exact absurd reads nofun
    have reads : SerdeDocuments.tldRegistry (compact registry.toJson) = .ok registry :=
      read_compact (fun _ => TldRegistry.FromJson.readable)
        (fun _ _ => TldRegistry.toJson_injective) json
    exact read_pretty reads

/-- A TLD whose registry one native provider serves. -/
def liveTld (tld : String) : TldRecord where
  tld
  status := .delegated
  mode := .delegated
  ownerPublicKey := (NodeIdentity.mk (Vector.replicate 32 4)).nodeId
  operatorPublicKey := (NodeIdentity.mk (Vector.replicate 32 4)).nodeId
  operatorName := "operator"
  registryType := .delegatedNative
  registryEndpoint := none
  registryManifestHash := none
  registryProviders := ["192.0.2.1:4040"]
  policyHash := none
  pricing := none
  createdAt := ""
  updatedAt := ""
  expiresAt := none
  notes := none
  signatureAlgorithm := signatureAlgorithm
  signature := none

/-- The registry of a TLD in one version. -/
def liveVersion (tld : String) (version : UInt64) : TldRegistry :=
  signedRegistry ⟨Vector.replicate 32 4⟩ tld version

/-- Ask for the registry of a TLD while the provider serves one version. -/
def askFor (tld : String) (version : UInt64) : ResolverEvent :=
  .call resolver (answering (liveVersion tld version)) (.tldRegistry (liveTld tld))

theorem askFor_asks (tld : String) (version : UInt64) :
    (askFor tld version).AsksFor (liveTld tld) := ⟨rfl, fun _ => rfl⟩

/-- Whatever event it is, what arrives is read back. -/
theorem faithfulFor (event : ResolverEvent) (tldRec : TldRecord) : event.FaithfulFor tldRec := by
  cases event with
  | call r env call => exact fun registry arrives => registryReadsBack_of_arrives arrives
  | restart key => trivial
  | files disk => trivial

/-- The registry of a TLD that has no cache file is the one that the provider serves. -/
theorem exec_askFor {tld : String} (version : UInt64) (uncached : registryCachePath tld = none)
    (short : (compact (liveVersion tld version).toJson).length ≤ maxRegistryBytes)
    (s : ResolverState) :
    exec (resolver.tldRegistry (answering (liveVersion tld version)) (liveTld tld)) s =
      (.ok (liveVersion tld version), { s with ticks := s.ticks + 3 }) := by
  have json : (liveVersion tld version).FromJson := fun k d found =>
    absurd found (by simp [liveVersion, signedRegistry])
  have fetched := exec_nativeRegistryDocument json short (liveTld tld).tld "192.0.2.1:4040" s
  have verified : (liveVersion tld version).verify (liveTld tld).tld
      (liveTld tld).operatorPublicKey = .ok () := signedRegistry_verify ..
  have native : exec (resolver.fetchRegistryNative (answering (liveVersion tld version))
      (liveTld tld).tld (liveTld tld).operatorPublicKey "192.0.2.1:4040") s =
      (.ok (liveVersion tld version), { s with ticks := s.ticks + 3 }) := by
    rw [fetchRegistryNative, exec_bind_ok fetched, exec_bind, exec_lift, verified]
    rfl
  have live : exec (resolver.fetchRegistryLive (answering (liveVersion tld version)) (liveTld tld))
      s = (.ok (liveVersion tld version), { s with ticks := s.ticks + 3 }) := by
    change exec (tryEach _ _ _ ["192.0.2.1:4040"]) s = _
    rw [tryEach, exec_bind, exec_attempt]
    simp only [native]
    rfl
  have absent : ∀ s, exec (cachedRegistry (liveTld tld)) s = (.ok none, s) := by
    intro s
    rw [cachedRegistry, exec_bind, exec_get]
    simp only [show registryCachePath (liveTld tld).tld = none from uncached]
    rfl
  have unstored : ∀ s, exec (storeRegistry (answering (liveVersion tld version))
      (liveVersion tld version)) s = (.ok (), s) := by
    intro s
    have own : registryCachePath (liveVersion tld version).tld = none := uncached
    unfold storeRegistry
    rw [own]
    exact exec_pure () s
  change exec (resolver.liveRegistry _ _) s = _
  rw [liveRegistry, exec_bind, exec_attempt, live]
  simp only
  rw [exec_bind, absent]
  simp only
  rw [exec_bind, unstored]
  rfl

end Federate.Reference
