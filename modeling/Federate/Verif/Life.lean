import Federate.Mutation.Life
import Federate.Verif.Restart

/-!
# A life is a run of calls

The nonces are a part of the database that no call on the store reads or writes. Apart from them, a
life (requests, seeds and restarts, in any order) is a run of calls: what holds in every reachable
store holds throughout the life of a server.
-/

namespace Federate

open Outcome Stateful RegistryStore

/-- The tables with other nonces. -/
def RedbTables.withNonces (t : RedbTables) (nonces : Table String Int64) : RedbTables :=
  { t with nonces }

/-- The store with other nonces. -/
def RegistryStore.withNonces (s : RegistryStore) (nonces : Table String Int64) : RegistryStore :=
  { s with database := s.database.withNonces nonces }

/-- Running a program keeps the nonces, and does not depend on them. -/
def Blind {α : Type} (program : StoreM α) : Prop :=
  ∀ (s : RegistryStore) (nonces : Table String Int64), exec program (s.withNonces nonces) =
    ((exec program s).1, (exec program s).2.withNonces nonces)

/-! ## Programs that are blind to nonces -/

section Blind

theorem blind_pure {α : Type} (value : α) : Blind (pure value) := fun _ _ => rfl

theorem blind_lift {α : Type} (result : Result α) : Blind (liftM result) := fun _ _ => rfl

theorem Blind.bind {α β : Type} {first : StoreM α} {next : α → StoreM β} (blind : Blind first)
    (blind' : ∀ value, Blind (next value)) : Blind (first >>= next) := by
  intro s nonces
  rw [exec_bind, exec_bind, blind s nonces]
  cases exec first s with
  | mk outcome s' =>
    cases outcome with
    | ok value => exact blind' value s' nonces
    | error e => rfl

theorem blind_modify {change : RegistryStore → RegistryStore}
    (commutes : ∀ s nonces, change (s.withNonces nonces) = (change s).withNonces nonces) :
    Blind (modify change) := by
  intro s nonces
  rw [exec_modify, exec_modify, commutes]

/-- What is read of the store does not show the nonces. -/
theorem blind_get {α : Type} {next : RegistryStore → StoreM α}
    (same : ∀ s nonces, next (s.withNonces nonces) = next s) (blind : ∀ s, Blind (next s)) :
    Blind (get >>= next) := by
  intro s nonces
  rw [exec_bind, exec_bind, exec_get, exec_get]
  simp only
  rw [same, blind s s nonces]

theorem blind_writeManifest (hash : String) (bytes : Bytes) (written : Result Unit) :
    Blind (writeManifest hash bytes written) :=
  (blind_lift written).bind fun _ => blind_modify fun _ _ => rfl

variable [Externals]

theorem blind_storeManifest (hash : String) (bytes : Bytes) (written : Result Unit) :
    Blind (storeManifest hash bytes written) :=
  (blind_lift _).bind fun _ => blind_writeManifest hash bytes written

theorem blind_storeBlocks (blocks : List (String × Bytes)) (written : ℕ → Result Unit) :
    Blind (storeBlocks blocks written) := by
  induction blocks generalizing written with
  | nil => exact blind_pure ()
  | cons block rest ih =>
    have put : Blind (putBlock block.1 block.2 (written 0)) :=
      (blind_lift _).bind fun _ => (blind_lift _).bind fun _ => blind_modify fun _ _ => rfl
    exact put.bind fun _ => ih _

theorem blind_storeContent (content : Option (Bytes × List (String × Bytes))) (io : RequestIo) :
    Blind (storeContent content io) := by
  cases content with
  | none => exact blind_pure ()
  | some package => exact (blind_storeBlocks _ _).bind fun _ => blind_storeManifest _ _ _

/-- The tables that a mutation commits keep the nonces. -/
theorem commitMutation_withNonces (t : RedbTables) (nonces : Table String Int64)
    (batch : CommitBatch) : (t.withNonces nonces).commitMutation batch =
      (t.commitMutation batch).map fun t => t.withNonces nonces := by
  simp only [RedbTables.commitMutation, RedbTables.nextAuditSeq, RedbTables.writeZonePointer,
    RedbTables.writeRecordTables, RedbTables.withNonces, bind, Except.bind, pure, Except.pure]
  cases numbered : Rows.nextNumber t.auditEvents with
  | none => rfl
  | some seq => cases batch.delegatedRegistry <;> rfl

variable (s : RegistryStore) (req : MutationRequest) (p : Prepared)
  (nonces : Table String Int64)

theorem adopt_withNonces :
    (s.withNonces nonces).adopt req p = (s.adopt req p).withNonces nonces := by
  unfold adopt adoptRegistry
  cases p.newRegistry <;> rfl

theorem nextTables_withNonces : (s.withNonces nonces).nextTables req p =
    (s.nextTables req p).map fun t => t.withNonces nonces := by
  have batch : ((s.withNonces nonces).adopt req p).commitBatch req p =
      (s.adopt req p).commitBatch req p := by
    rw [adopt_withNonces]
    rfl
  rw [nextTables, batch]
  exact commitMutation_withNonces s.database nonces _

theorem exec_commit_withNonces (io : StorageIo) : exec (commit req p io) (s.withNonces nonces) =
    ((exec (commit req p io) s).1, (exec (commit req p io) s).2.withNonces nonces) := by
  have persisted : exec (persist req p io) ((s.withNonces nonces).adopt req p) =
      ((exec (persist req p io) (s.adopt req p)).1,
        (exec (persist req p io) (s.adopt req p)).2.withNonces nonces) := by
    rw [exec_persist, exec_persist, nextTables_withNonces, adopt_withNonces]
    cases s.nextTables req p with
    | error e => rfl
    | ok tables =>
      cases io.transaction with
      | error e => rfl
      | ok done =>
        cases io.snapshotFile with
        | error e => rfl
        | ok done =>
          cases io.snapshotTransaction with
          | error e => rfl
          | ok done =>
            show (Except.ok p.event, _) = (Except.ok p.event, _)
            rw [stored, adopt_withNonces]
            rfl
  rw [exec_commit, exec_commit, persisted]
  cases p.newRegistry.isSome <;> cases io.manifestFile <;> rfl

theorem blind_apply [SerdeJson] (ctx : MutationContext) (clock : DateTime) (io : StorageIo) :
    Blind (apply req ctx clock io) := by
  refine blind_get (fun _ _ => rfl) fun s => (blind_lift _).bind fun p => ?_
  exact fun s nonces => exec_commit_withNonces s req p nonces io

end Blind

section Live

variable [Externals] [SerdeJson] (a : Authority) (s : RegistryStore)
  (nonces : Table String Int64)

theorem Authority.applyTo_withNonces (call : ApplyCall) :
    a.applyTo call (s.withNonces nonces) =
      ((a.applyTo call s).1, (a.applyTo call s).2.withNonces nonces) :=
  blind_apply call.request (a.context call) call.clock call.io s nonces

/-- A call keeps the nonces, and does not depend on them. -/
theorem Authority.step_withNonces (call : ApplyCall) : a.step (s.withNonces nonces) (.apply call) =
    (a.step s (.apply call)).withNonces nonces := by
  rw [Authority.step, Authority.step, a.applyTo_withNonces]

theorem openDir_withNonces (key : String) : openDir (s.withNonces nonces).dir key =
    (openDir s.dir key).map fun opened => opened.withNonces nonces := by
  have mapped : (openDir s.dir key).map (fun opened => opened.withNonces nonces) =
      (fun opened => opened.withNonces nonces) <$> openDir s.dir key := rfl
  have start : ∀ {α : Type} (d : RedbTables) (e : FederateError) (f : RedbTables → Result α),
      (okOr (some d) e >>= f) = f d := fun _ _ _ => rfl
  have hash : (s.withNonces nonces).database.registryMetadata = s.database.registryMetadata := rfl
  rw [mapped, openDir, openDir, RegistryStore.dir, RegistryStore.dir, start, start, hash]
  cases s.database.registryMetadata["state_hash"]? <;>
    simp only [map_bind, map_pure] <;> rfl

end Live

/-! ## Events -/

section Events

variable [Externals] [SerdeJson] {P : Value → Prop} {a : Authority} {s : RegistryStore}
  (nonces : Table String Int64)

/-- The call stores content, and no mutation. -/
def Op.IsContent : Op → Prop
  | .apply _ => False
  | _ => True

/-- Storing content changes files and manifests only, and no snapshot. -/
theorem Authority.run_content {ops : List Op} (content : ∀ op ∈ ops, op.IsContent) :
    ∃ files manifests, a.run s ops = { s with files, manifests } ∧
      files.snapshots = s.files.snapshots := by
  induction ops generalizing s with
  | nil => exact ⟨s.files, s.manifests, rfl, rfl⟩
  | cons op ops ih =>
    have step : ∃ files manifests, a.step s op = { s with files, manifests } ∧
        files.snapshots = s.files.snapshots := by
      cases op with
      | apply call => exact absurd (content _ List.mem_cons_self) id
      | storeManifest hash bytes written =>
        rcases s.storeManifest_cases hash bytes written with same | ⟨-, filed⟩
        · exact ⟨s.files, s.manifests, same, rfl⟩
        · exact ⟨_, _, filed, rfl⟩
      | storeBlocks blocks written =>
        obtain ⟨stored, frame⟩ := s.storeBlocks_frame blocks written
        exact ⟨_, s.manifests, frame, rfl⟩
    obtain ⟨files, manifests, same, kept⟩ := step
    obtain ⟨files', manifests', later, kept'⟩ := @ih (a.step s op) fun other member =>
      content other (List.mem_cons_of_mem _ member)
    refine ⟨files', manifests', ?_, ?_⟩
    · show a.run (a.step s op) ops = _
      rw [later, same]
    · rw [kept', same]
      exact kept

/-- What is stored of a package is stored by calls for content. -/
theorem Authority.exec_storeContent (a : Authority) (s : RegistryStore)
    (content : Option (Bytes × List (String × Bytes))) (io : RequestIo) :
    ∃ ops : List Op, (∀ op ∈ ops, op.IsContent) ∧
      (exec (storeContent content io) s).2 = a.run s ops := by
  cases content with
  | none => exact ⟨[], by simp, rfl⟩
  | some package =>
    obtain ⟨manifest, blocks⟩ := package
    have first : a.step s (.storeBlocks blocks io.blocks) =
        (exec (storeBlocks blocks io.blocks) s).2 := rfl
    rw [storeContent, exec_bind]
    cases stored : exec (storeBlocks blocks io.blocks) s with
    | mk outcome s' =>
      rw [stored] at first
      cases outcome with
      | error e => exact ⟨[.storeBlocks blocks io.blocks], by simp [Op.IsContent], first.symm⟩
      | ok done =>
        refine ⟨[.storeBlocks blocks io.blocks,
          .storeManifest (hashBytes manifest) manifest io.manifest], by simp [Op.IsContent], ?_⟩
        have whole : a.run s [.storeBlocks blocks io.blocks,
            .storeManifest (hashBytes manifest) manifest io.manifest] =
              a.step (a.step s (.storeBlocks blocks io.blocks))
                (.storeManifest (hashBytes manifest) manifest io.manifest) := rfl
        rw [whole, first]
        rfl

/-- What an event does to the registry, nonces apart: content is stored, and then perhaps a mutation
is accepted. -/
inductive Authority.Effect (P : Value → Prop) (a : Authority) (s : RegistryStore) :
    RegistryStore → Option Acceptance → Prop
  | content (ops : List Op) (content : ∀ op ∈ ops, op.IsContent) : a.Effect P s (a.run s ops) none
  | stored (ops : List Op) (content : ∀ op ∈ ops, op.IsContent) {call : ApplyCall}
      {event : AuditRecord} (values : call.request.Values P)
      (accepted : a.Accepts (a.run s ops) call event) :
      a.Effect P s (a.applyTo call (a.run s ops)).2
        (some ⟨call.request, event, (a.applyTo call (a.run s ops)).2.zone⟩)

/-- There is another number for an audit event. -/
def RegistryStore.Numbered (s : RegistryStore) : Prop := ∃ seq, s.database.nextAuditSeq = .ok seq

/-- The values of a mutation of the event are of the kind, and its audit event finds a number. -/
def RegistryStore.Takes (P : Value → Prop) (s : RegistryStore) : RegistryEvent → Prop
  | .request arrival | .seed arrival => arrival.mutation.Values P ∧ s.Numbered
  | _ => True

omit [Externals] [SerdeJson] in
theorem numbered_withNonces : (s.withNonces nonces).Numbered ↔ s.Numbered := by
  have same : (s.withNonces nonces).database.nextAuditSeq = s.database.nextAuditSeq := rfl
  rw [RegistryStore.Numbered, same, RegistryStore.Numbered]

omit [Externals] [SerdeJson] in
theorem takes_withNonces {event : RegistryEvent} :
    (s.withNonces nonces).Takes P event ↔ s.Takes P event := by
  cases event with
  | request arrival | seed arrival => exact and_congr_right fun _ => numbered_withNonces nonces
  | nonce | restart => exact Iff.rfl

/-- A mutation whose storage succeeds is rejected without a change, or accepted. -/
theorem Authority.applyTo_numbered (numbered : s.Numbered) (r : Arrival) :
    (∃ e, a.applyTo r.call s = (.error e, s)) ∨ ∃ event, a.Accepts s r.call event := by
  rcases a.applyTo_cases s r.call with ⟨e, -, rejected⟩ | ⟨p, prepared, -⟩
  · exact .inl ⟨e, rejected⟩
  · obtain ⟨tables, -, stored⟩ :=
      prepared.settled (.inr ⟨fun _ => rfl, numbered, rfl, rfl, rfl⟩)
    refine .inr ⟨p.event, ?_⟩
    rw [Authority.Accepts, stored]

/-- A request is refused for its nonce, for its content or by `apply`, or it is accepted. -/
theorem Authority.answer_eq (a : Authority) (s : RegistryStore) (r : Arrival) : a.answer s r =
    let opened := s.withNonces (s.database.nonces.erase r.mutation.nonce)
    match (s.database.consumeNonce r.mutation.nonce (Int64.ofInt r.now.timestamp)).1 with
    | false => (.ok (.refused 409 unknownNonce), opened)
    | true =>
      match exec (storeContent r.content .ok) opened with
      | (.error e, s') => (.ok (.refused 400 (toString e)), s')
      | (.ok (), s') =>
        match a.applyTo r.call s' with
        | (.error e, s'') => (.ok (.refused (mutationStatus e) (toString e)), s'')
        | (.ok event, s'') =>
          (.ok (.accepted r.mutation.mutationId s''.zone.rootVersion event), s'') := by
  have consumed : exec (consumeNonce r.mutation.nonce
      (Int64.ofInt (a.context r.call).now.timestamp) RequestIo.ok.nonce) s =
        (.ok (s.database.consumeNonce r.mutation.nonce (Int64.ofInt r.now.timestamp)).1,
          s.withNonces (s.database.nonces.erase r.mutation.nonce)) := rfl
  rw [answer, runMutation, exec_bind, exec_attempt, consumed]
  cases (s.database.consumeNonce r.mutation.nonce (Int64.ofInt r.now.timestamp)).1 with
  | false => rfl
  | true =>
    simp only
    rw [exec_bind, exec_attempt]
    cases exec (storeContent r.content .ok)
        (s.withNonces (s.database.nonces.erase r.mutation.nonce)) with
    | mk outcome s' =>
      cases outcome with
      | error e => rfl
      | ok done =>
        have applied : exec (apply r.mutation (a.context r.call) r.clock RequestIo.ok.apply) s' =
            a.applyTo r.call s' := rfl
        simp only
        rw [exec_bind, exec_attempt, applied]
        cases a.applyTo r.call s' with
        | mk outcome s'' => cases outcome <;> rfl

/-- What a request does: it may be refused for its nonce, and is then applied behind its content. -/
theorem Authority.answer_effect (numbered : s.Numbered) {r : Arrival}
    (values : r.mutation.Values P) :
    ∃ s' nonces', a.Effect P s s' (a.acceptance (s.withNonces nonces) (.request r)) ∧
      (a.answer (s.withNonces nonces) r).2 = s'.withNonces nonces' := by
  obtain ⟨ops, content, stored⟩ := a.exec_storeContent s r.content .ok
  obtain ⟨files, manifests, frame, -⟩ := @Authority.run_content _ _ a s ops content
  have numbered' : (a.run s ops).Numbered := by
    rw [frame]
    exact numbered
  have kept := blind_storeContent r.content .ok s (nonces.erase r.mutation.nonce)
  rw [stored] at kept
  have opened : (s.withNonces nonces).withNonces
      ((s.withNonces nonces).database.nonces.erase r.mutation.nonce) =
        s.withNonces (nonces.erase r.mutation.nonce) := rfl
  rw [acceptance, a.answer_eq, opened]
  simp only
  cases ((s.withNonces nonces).database.consumeNonce r.mutation.nonce
      (Int64.ofInt r.now.timestamp)).1 with
  | false => exact ⟨s, _, .content [] (by simp), rfl⟩
  | true =>
    simp only
    rw [kept]
    cases (exec (storeContent r.content .ok) s).1 with
    | error e => exact ⟨a.run s ops, _, .content ops content, rfl⟩
    | ok done =>
      simp only
      rw [a.applyTo_withNonces]
      rcases Authority.applyTo_numbered numbered' r with ⟨e, rejected⟩ | ⟨event, accepted⟩
      · rw [rejected]
        exact ⟨a.run s ops, _, .content ops content, rfl⟩
      · have outcome : (a.applyTo r.call (a.run s ops)).1 = .ok event := accepted
        simp only [outcome]
        exact ⟨_, _, .stored ops content values accepted, rfl⟩

/-- What an event does. -/
theorem Authority.live_effect {event : RegistryEvent} (takes : s.Takes P event)
    (opens : openDir s.dir a.root.nodeId = .ok s) :
    ∃ s' nonces', a.Effect P s s' (a.acceptance (s.withNonces nonces) event) ∧
      a.live (s.withNonces nonces) event = s'.withNonces nonces' := by
  cases event with
  | nonce nonce now => exact ⟨s, _, .content [] (by simp), rfl⟩
  | request arrival => exact Authority.answer_effect nonces takes.2 takes.1
  | seed arrival =>
    refine ⟨(a.applyTo arrival.call s).2, nonces, ?_, by rw [live, a.applyTo_withNonces]⟩
    rw [acceptance, a.applyTo_withNonces]
    rcases Authority.applyTo_numbered takes.2 arrival with ⟨e, rejected⟩ | ⟨event, accepted⟩
    · rw [rejected]
      exact .content [] (by simp)
    · have outcome : (a.applyTo arrival.call s).1 = .ok event := accepted
      simp only [outcome]
      exact .stored [] (by simp) takes.1 accepted
  | restart =>
    refine ⟨s, nonces, .content [] (by simp), ?_⟩
    rw [live, openDir_withNonces, opens]
    rfl

end Events

/-! ## Lives -/

section Lives

variable [Externals] [SerdeJson] {P : Value → Prop} {a : Authority} {s s₀ : RegistryStore}

/-- Storing content keeps a registry restorable, whatever is stored. -/
theorem Restorable.content (restorable : Restorable P a s) {ops : List Op}
    (content : ∀ op ∈ ops, op.IsContent) : Restorable P a (a.run s ops) := by
  induction ops generalizing s with
  | nil => exact restorable
  | cons op ops ih =>
    have step : Restorable P a (a.step s op) := by
      cases op with
      | apply call => exact absurd (content _ List.mem_cons_self) id
      | storeManifest hash bytes written =>
        rcases s.storeManifest_cases hash bytes written with same | ⟨rfl, filed⟩
        · rwa [Authority.step, same]
        · rw [Authority.step, filed]
          exact { restorable with
            settled := restorable.settled.withContent _ _
            files := congrArg (fun files => files.insert (hashBytes bytes) bytes) restorable.files
            manifests := fun hash content found => by
              rw [Std.ExtTreeMap.getElem?_insert] at found
              split at found
              · rename_i same
                rw [← Option.some.inj found, Std.LawfulEqCmp.eq_of_compare same]
              · exact restorable.manifests hash content found }
      | storeBlocks blocks written =>
        have hashed := storeBlocks_hashed blocks written restorable.blocks
        obtain ⟨stored, frame⟩ := s.storeBlocks_frame blocks written
        rw [frame] at hashed
        rw [Authority.step, frame]
        exact { restorable with
          settled := restorable.settled.withContent _ _
          blocks := hashed }
    exact ih step fun other member => content other (List.mem_cons_of_mem _ member)

/-- What an event does to the registry is done by calls. -/
theorem Authority.Effect.run {s' : RegistryStore} {accepted : Option Acceptance}
    (effect : a.Effect P s s' accepted) : ∃ ops, a.run s ops = s' := by
  cases effect with
  | content ops => exact ⟨ops, rfl⟩
  | @stored ops _ call =>
    refine ⟨ops ++ [.apply call], ?_⟩
    rw [Authority.run, Transition.run_append]
    rfl

/-- What an event does to the registry keeps it restorable. -/
theorem Authority.Effect.restorable (signs : SignaturesVerify)
    (restorable : Restorable P a s) {s' : RegistryStore} {accepted : Option Acceptance}
    (effect : a.Effect P s s' accepted) : Restorable P a s' := by
  cases effect with
  | content ops content => exact restorable.content content
  | stored ops content values accepted =>
    obtain ⟨p, tables, prepared, -, -, committed, -, -, -, stored⟩ := a.accepts_iff _ |>.mp accepted
    rw [stored]
    exact (restorable.content content).stored signs prepared committed values

/-- Nonces apart, a life has come to a store that calls lead to, and that a restart restores. -/
structure Authority.Alive (P : Value → Prop) (a : Authority) (s₀ core : RegistryStore) :
    Prop where
  /-- Calls lead to the store. -/
  run : ∃ ops, a.run s₀ ops = core
  /-- The store is restorable. -/
  restorable : Restorable P a core

/-- An event has its effect, and the registry stays alive. -/
theorem Authority.Alive.step (signs : SignaturesVerify) (reads : ReadsBack P)
    (genesis : a.Genesis s₀) (alive : a.Alive P s₀ s) (nonces : Table String Int64)
    {event : RegistryEvent} (takes : (s.withNonces nonces).Takes P event) :
    ∃ s' nonces', a.Effect P s s' (a.acceptance (s.withNonces nonces) event) ∧
      a.live (s.withNonces nonces) event = s'.withNonces nonces' ∧ a.Alive P s₀ s' := by
  obtain ⟨ops, ran⟩ := alive.run
  have opens := alive.restorable.openDir reads ⟨s₀, ops, genesis, ran⟩
  obtain ⟨s', nonces', effect, same⟩ :=
    Authority.live_effect nonces ((takes_withNonces nonces).mp takes) opens
  refine ⟨s', nonces', effect, same, ?_, effect.restorable signs alive.restorable⟩
  obtain ⟨later, led⟩ := effect.run
  refine ⟨ops ++ later, ?_⟩
  rw [← led, ← ran, Authority.run, Transition.run_append]
  rfl

/-- The registry of a server is alive: it is a store that calls lead to, with some nonces. -/
def Authority.IsAlive (P : Value → Prop) (a : Authority) (s₀ s : RegistryStore) : Prop :=
  ∃ core nonces, s = core.withNonces nonces ∧ a.Alive P s₀ core

theorem Authority.IsAlive.step (signs : SignaturesVerify) (reads : ReadsBack P)
    (genesis : a.Genesis s₀) (alive : a.IsAlive P s₀ s) {event : RegistryEvent}
    (takes : s.Takes P event) : a.IsAlive P s₀ (a.live s event) := by
  obtain ⟨core, nonces, same, alive⟩ := alive
  rw [same] at takes ⊢
  obtain ⟨core', nonces', -, led, alive'⟩ := alive.step signs reads genesis nonces takes
  rw [led]
  exact ⟨core', nonces', rfl, alive'⟩

/-- A new registry is alive. -/
theorem isAlive_initial {path : String} {now : DateTime} {io : StorageIo}
    (returned : initEmptyRegistry (RegistryDir.fresh path) a.root now io = .ok s) :
    a.IsAlive P s s :=
  ⟨s, s.database.nonces, rfl, ⟨[], rfl⟩, restorable_initial returned⟩

/-- A live registry finds itself when it opens its directory. -/
theorem Authority.IsAlive.opens (reads : ReadsBack P) (genesis : a.Genesis s₀)
    (alive : a.IsAlive P s₀ s) : openDir s.dir a.root.nodeId = .ok s := by
  obtain ⟨core, nonces, rfl, ⟨ops, ran⟩, restorable⟩ := alive
  have opens := restorable.openDir reads ⟨s₀, ops, genesis, ran⟩
  rw [openDir_withNonces, opens]
  rfl

/-- A live registry passes its self-check. -/
theorem Authority.IsAlive.verifyAll (reads : ReadsBack P) (genesis : a.Genesis s₀)
    (alive : a.IsAlive P s₀ s) : ∃ report, s.verifyAll a.root.nodeId = .ok report := by
  obtain ⟨core, nonces, rfl, ⟨ops, ran⟩, restorable⟩ := alive
  have verifies := restorable.verifyAll reads ⟨s₀, ops, genesis, ran⟩
  exact verifies

/-- A registry stays alive. -/
theorem isAlive_run (signs : SignaturesVerify) (reads : ReadsBack P) {path : String}
    {now : DateTime} {io : StorageIo}
    (returned : initEmptyRegistry (RegistryDir.fresh path) a.root now io = .ok s)
    {events : List RegistryEvent}
    (lives : Transition.Guarded a.live (RegistryStore.Takes P) s events) :
    a.IsAlive P s (Transition.run a.live s events) := by
  have genesis : a.Genesis s := ⟨_, _, _, returned⟩
  have kept : ∀ s' event, a.IsAlive P s s' → s'.Takes P event → a.IsAlive P s (a.live s' event) :=
    fun s' event alive takes => alive.step signs reads genesis takes
  exact Transition.invariant kept (isAlive_initial returned) lives

/-- Nonces apart, the life of a server is a run of calls on its store; and whenever it restarts, it
finds the store as it was. -/
theorem life_refines_run (signs : SignaturesVerify) (reads : ReadsBack P) {path : String}
    {now : DateTime} {io : StorageIo}
    (returned : initEmptyRegistry (RegistryDir.fresh path) a.root now io = .ok s)
    {events : List RegistryEvent}
    (lives : Transition.Guarded a.live (RegistryStore.Takes P) s events) :
    ∃ ops nonces, Transition.run a.live s events = (a.run s ops).withNonces nonces ∧
      openDir (Transition.run a.live s events).dir a.root.nodeId =
        .ok (Transition.run a.live s events) := by
  have alive := isAlive_run signs reads returned lives
  have opens := alive.opens reads ⟨_, _, _, returned⟩
  obtain ⟨core, nonces, same, ⟨ops, ran⟩, -⟩ := alive
  exact ⟨ops, nonces, by rw [same, ran], opens⟩

end Lives

end Federate

namespace Federate.Reference

open Outcome Stateful RegistryStore

/-- The creation of the TLD `foo`, as it reaches the server. -/
def arrivalFoo : Arrival where
  mutation := createFoo.request
  content := none
  blocklists := createFoo.blocklists
  now := createFoo.now
  clock := createFoo.clock

/-- The new registry takes the creation of `foo`, whatever nonces it has issued. -/
theorem takes_arrivalFoo (nonces : Table String Int64) :
    (start.withNonces nonces).Takes PlainValue (.request arrivalFoo) := by
  have values : createFoo.request.Values PlainValue := by
    intro r requested
    cases requested
  have numbered : start.Numbered := by
    obtain ⟨seq, next⟩ := Rows.exists_nextNumber stage_start.below (by omega)
    exact ⟨seq, show start.database.nextAuditSeq = .ok seq from okOr_eq_ok.mpr next⟩
  exact ⟨values, (numbered_withNonces nonces).mpr numbered⟩

/-- A nonce, the request that consumes it and a restart are a run of calls, and the restart finds
the registry as it was. -/
theorem foo_life : ∃ ops nonces, Transition.run authority.live start
      [.nonce arrivalFoo.mutation.nonce ⟨0⟩, .request arrivalFoo, .restart] =
        (authority.run start ops).withNonces nonces ∧
      openDir (Transition.run authority.live start
        [.nonce arrivalFoo.mutation.nonce ⟨0⟩, .request arrivalFoo, .restart]).dir
          authority.root.nodeId = .ok (Transition.run authority.live start
            [.nonce arrivalFoo.mutation.nonce ⟨0⟩, .request arrivalFoo, .restart]) := by
  have takes := takes_arrivalFoo (start.database.nonces.insert createFoo.request.nonce 300)
  exact life_refines_run signaturesVerify plainReads initialized
    ⟨trivial, takes, trivial, trivial⟩

end Federate.Reference
