import Federate.Mutation.Seed
import Federate.Verif.Restart

/-!
# Seeding

A seed file only adds. Whatever becomes of a run, the TLD records that were there stay as they
were; a run that ends well leaves every name of the file in the zone, each either skipped because
it was there or created by one audited mutation. `SeedRun` is the course of such a run.
-/

namespace Federate

open Outcome Stateful RegistryStore

namespace RegistryStore

/-- Every TLD record of the first store is in the second, unchanged. -/
def TldsKept (s s' : RegistryStore) : Prop :=
  ∀ (name : String) (r : TldRecord), s.zone.tlds[name]? = some r → s'.zone.tlds[name]? = some r

instance : Std.Refl TldsKept := ⟨fun _ _ _ found => found⟩

instance : IsTrans RegistryStore TldsKept :=
  ⟨fun _ _ _ first second name r found => second name r (first name r found)⟩

/-- A kept TLD is still there. -/
theorem TldsKept.mem {s s' : RegistryStore} (kept : TldsKept s s') {name : String}
    (known : name ∈ s.zone.tlds) : name ∈ s'.zone.tlds := by
  obtain ⟨r, found⟩ := Option.isSome_iff_exists.mp
    (Std.ExtTreeMap.mem_iff_isSome_getElem?.mp known)
  exact mem_of_getElem? (kept name r found)

end RegistryStore

variable [Externals]

/-! ## The course of a run -/

/-- The event of a mutation of a TLD, signed by the root. -/
structure TldEvent (root : String) (name : String) (event : AuditRecord) : Prop where
  /-- It is about a TLD. -/
  kind : event.targetType = "tld"
  /-- It is about this TLD. -/
  subject : event.targetId = name
  /-- The root key signed it. -/
  verified : event.verify root = .ok ()

/-- The run of a seed file from one store to another: every name is skipped, because it is there,
or added by one mutation with a new id, whose event is appended to the audit log. -/
inductive SeedRun (root : String) : RegistryStore → List String → List String → List String →
    List AuditRecord → RegistryStore → Prop
  | done (s : RegistryStore) : SeedRun root s [] [] [] [] s
  | skipped {s s' : RegistryStore} {name : String} {names created skipped : List String}
      {events : List AuditRecord} (known : name ∈ s.zone.tlds)
      (rest : SeedRun root s names created skipped events s') :
      SeedRun root s (name :: names) created (name :: skipped) events s'
  | created {s s₁ s' : RegistryStore} {name : String} {names created skipped : List String}
      {events : List AuditRecord} {r : TldRecord} {event : AuditRecord} {m : AppliedMutation}
      (absent : name ∉ s.zone.tlds) (added : s₁.zone.tlds = s.zone.tlds.insert name r)
      (fresh : event.mutationId ∉ s.applied)
      (applied : s₁.applied = s.applied.insert event.mutationId m)
      (audited : s₁.audit = s.audit ++ [event]) (own : TldEvent root name event)
      (rest : SeedRun root s₁ names created skipped events s') :
      SeedRun root s (name :: names) (name :: created) skipped (event :: events) s'

namespace SeedRun

variable {root : String} {s s' : RegistryStore} {names created skipped : List String}
  {events : List AuditRecord}

/-- Every name is a TLD at the end, and so is every TLD of the beginning. -/
theorem present (run : SeedRun root s names created skipped events s') :
    (∀ name ∈ s.zone.tlds, name ∈ s'.zone.tlds) ∧ ∀ name ∈ names, name ∈ s'.zone.tlds := by
  induction run with
  | done => exact ⟨fun _ known => known, fun _ member => absurd member List.not_mem_nil⟩
  | skipped known _ ih =>
    refine ⟨ih.1, fun name member => ?_⟩
    rcases List.mem_cons.mp member with rfl | later
    · exact ih.1 _ known
    · exact ih.2 name later
  | created _ added _ _ _ _ _ ih =>
    have grown : ∀ name, name ∈ _ → name ∈ _ := ih.1
    rw [added] at grown
    refine ⟨fun name known => grown name (Std.ExtTreeMap.mem_insert.mpr (.inr known)),
      fun name member => ?_⟩
    rcases List.mem_cons.mp member with rfl | later
    · exact grown _ Std.ExtTreeMap.mem_insert_self
    · exact ih.2 name later

/-- The created and the skipped names are the names of the file, each in file order. -/
theorem sorted (run : SeedRun root s names created skipped events s') :
    created.Sublist names ∧ skipped.Sublist names ∧ (created ++ skipped).Perm names := by
  induction run with
  | done => exact ⟨.refl [], .refl [], .refl []⟩
  | skipped _ _ ih =>
    obtain ⟨first, second, together⟩ := ih
    exact ⟨first.cons _, second.cons_cons _, List.perm_middle.trans (together.cons _)⟩
  | created _ _ _ _ _ _ _ ih =>
    obtain ⟨first, second, together⟩ := ih
    exact ⟨first.cons_cons _, second.cons _, together.cons _⟩

/-- The created names are distinct, and exactly those of the file that were absent. -/
theorem absent (run : SeedRun root s names created skipped events s') :
    created.Nodup ∧ ∀ name, name ∈ created ↔ name ∈ names ∧ name ∉ s.zone.tlds := by
  induction run with
  | done => simp
  | @skipped s _ head _ _ _ _ known _ ih =>
    refine ⟨ih.1, fun name => ?_⟩
    rw [ih.2, List.mem_cons]
    constructor
    · intro new
      exact ⟨.inr new.1, new.2⟩
    · intro new
      rcases new.1 with rfl | later
      · exact absurd known new.2
      · exact ⟨later, new.2⟩
  | @created s s₁ _ head _ _ _ _ _ _ _ missing added _ _ _ _ _ ih =>
    have grown : ∀ name, name ∈ s₁.zone.tlds ↔ head = name ∨ name ∈ s.zone.tlds := by
      intro name
      rw [added, Std.ExtTreeMap.mem_insert, Std.LawfulEqCmp.compare_eq_iff_eq]
    refine ⟨List.nodup_cons.mpr ⟨fun again => ?_, ih.1⟩, fun name => ?_⟩
    · exact ((ih.2 head).mp again).2 ((grown head).mpr (.inl rfl))
    · rw [List.mem_cons, List.mem_cons, ih.2, grown, not_or]
      constructor
      · intro new
        rcases new with rfl | later
        · exact ⟨.inl rfl, missing⟩
        · exact ⟨.inr later.1, later.2.2⟩
      · intro new
        by_cases here : name = head
        · exact .inl here
        · have later := new.1.resolve_left here
          exact .inr ⟨later, fun same => here same.symm, new.2⟩

/-- The mutations of the beginning are mutations of the end. -/
theorem applied_mono (run : SeedRun root s names created skipped events s') :
    ∀ id ∈ s.applied, id ∈ s'.applied := by
  induction run with
  | done => exact fun _ known => known
  | skipped _ _ ih => exact ih
  | created _ _ _ applied _ _ _ ih =>
    intro id known
    exact ih id (applied ▸ Std.ExtTreeMap.mem_insert.mpr (.inr known))

/-- The audit log grows by one event for each created name, in order, of distinct mutations that
are in the history. -/
theorem audited (run : SeedRun root s names created skipped events s') :
    s'.audit = s.audit ++ events ∧ List.Forall₂ (TldEvent root) created events ∧
      (events.map AuditRecord.mutationId).Nodup ∧
      ∀ event ∈ events, event.mutationId ∉ s.applied ∧ event.mutationId ∈ s'.applied := by
  induction run with
  | done => simp
  | skipped _ _ ih => exact ih
  | @created s s₁ _ _ _ _ _ _ _ event _ _ _ fresh applied audited own rest ih =>
    obtain ⟨log, each, distinct, history⟩ := ih
    have here : event.mutationId ∈ s₁.applied := applied ▸ Std.ExtTreeMap.mem_insert_self
    refine ⟨by rw [log, audited, List.append_assoc, List.singleton_append], each.cons own, ?_, ?_⟩
    · rw [List.map_cons]
      refine List.nodup_cons.mpr ⟨fun again => ?_, distinct⟩
      obtain ⟨later, member, same⟩ := List.mem_map.mp again
      exact (history later member).1 (same ▸ here)
    · intro other member
      rcases List.mem_cons.mp member with rfl | later
      · exact ⟨fresh, rest.applied_mono _ here⟩
      · obtain ⟨new, known⟩ := history other later
        exact ⟨fun old => new (applied ▸ Std.ExtTreeMap.mem_insert.mpr (.inr old)), known⟩

end SeedRun

/-! ## One entry -/

variable [SerdeJson]

section Entry

variable {s : RegistryStore} {ctx : MutationContext} {course : SeedCourse} {entry : SeedTld}
  {name : String} {action : MutationAction}

omit [Externals] [SerdeJson] in
/-- An entry creates, reserves or blocks its TLD. -/
theorem SeedTld.action_cases (made : entry.action name = .ok action) :
    (∃ purpose, action = .createTld name purpose) ∨ (∃ reason, action = .reserveTld name reason) ∨
      ∃ reason, action = .blockTld name reason := by
  unfold SeedTld.action at made
  split at made
  · exact .inl ⟨_, (Except.ok.inj made).symm⟩
  · split at made
    · exact .inr (.inl ⟨_, (Except.ok.inj made).symm⟩)
    · split at made
      · exact .inr (.inr ⟨_, (Except.ok.inj made).symm⟩)
      · cases made

omit [Externals] [SerdeJson] in
/-- The target of the action of an entry is its TLD. -/
theorem SeedTld.action_target (made : entry.action name = .ok action) (normal : IsTldName name) :
    action.target = (.tld, name) := by
  have same : Text.toAsciiLowercase name = name := toAsciiLowercase_label normal.label_chars
  rcases SeedTld.action_cases made with ⟨_, rfl⟩ | ⟨_, rfl⟩ | ⟨_, rfl⟩ <;>
    simp [MutationAction.target, same]

/-- An accepted entry adds the record of its TLD and nothing else to the TLDs of the zone. -/
theorem Grant.seeds {zone : RootZone} {manifests : Table String Bytes} {registries : Registries}
    {actor : String} {clock : DateTime} {effect : ActionEffect}
    (granted : Grant zone manifests registries actor ctx clock action effect)
    (made : entry.action name = .ok action) (normal : IsTldName name) :
    name ∉ zone.tlds ∧ ∃ r, effect.zone.tlds = zone.tlds.insert name r := by
  have own : ∀ {input other : String}, validateTldName input = .ok other → input = name →
      other = name := by
    intro input other valid same
    rw [same, normal.validate] at valid
    exact (Except.ok.inj valid).symm
  cases granted with
  | createTld entitled admitted absent =>
    rcases SeedTld.action_cases made with ⟨_, same⟩ | ⟨_, same⟩ | ⟨_, same⟩
    · cases same
      have here := own (Blocklists.validateNewTld_eq_ok.mp admitted).1 rfl
      subst here
      exact ⟨absent, _, rfl⟩
    · cases same
    · cases same
  | restrictTld requested entitled valid absent =>
    rcases SeedTld.action_cases made with ⟨_, same⟩ | ⟨_, same⟩ | ⟨_, same⟩
    · rcases requested with ⟨equal, -⟩ | ⟨equal, -⟩ <;> cases equal.symm.trans same
    · rcases requested with ⟨equal, -⟩ | ⟨equal, -⟩
      · cases equal.symm.trans same
        have here := own valid rfl
        subst here
        exact ⟨absent, _, rfl⟩
      · cases equal.symm.trans same
    · rcases requested with ⟨equal, -⟩ | ⟨equal, -⟩
      · cases equal.symm.trans same
      · cases equal.symm.trans same
        have here := own valid rfl
        subst here
        exact ⟨absent, _, rfl⟩
  | publish requested =>
    rcases SeedTld.action_cases made with ⟨_, rfl⟩ | ⟨_, rfl⟩ | ⟨_, rfl⟩ <;>
      rcases requested with ⟨equal, -⟩ | ⟨equal, -⟩ <;> cases equal
  | _ => rcases SeedTld.action_cases made with ⟨_, same⟩ | ⟨_, same⟩ | ⟨_, same⟩ <;> cases same

/-- The identities of a context. -/
def MutationContext.authority (ctx : MutationContext) : Authority :=
  ⟨ctx.root, ctx.officialOperator⟩

/-- The call of `apply` for an entry. -/
def seedCall (ctx : MutationContext) (course : SeedCourse) (name : String) (version : UInt64)
    (action : MutationAction) : ApplyCall where
  request := .signed ctx.root s!"seed:{name}" (Externals.toRfc3339 ctx.now) version action
  blocklists := ctx.blocklists
  now := ctx.now
  clock := course.clock
  io := course.io

variable {outcome o : SeedOutcome} {s' : RegistryStore}

/-- An entry that ends well is skipped or created by an accepted mutation. -/
theorem seedEntry_ok (returned : exec (seedEntry ctx course outcome entry) s = (.ok o, s')) :
    ∃ name, validateTldName entry.name = .ok name ∧
      (name ∈ s.zone.tlds ∧ s' = s ∧
          o = { outcome with skippedExisting := outcome.skippedExisting ++ [name] } ∨
        ∃ action version event, entry.action name = .ok action ∧
          ctx.authority.Accepts s (seedCall ctx course name version action) event ∧
          s' = (ctx.authority.applyTo (seedCall ctx course name version action) s).2 ∧
          o = { outcome with created := outcome.created ++ [name] }) := by
  rw [seedEntry, exec_bind_eq_ok] at returned
  obtain ⟨name, s₁, valid, returned⟩ := returned
  rw [exec_lift, Prod.mk.injEq] at valid
  obtain ⟨valid, rfl⟩ := valid
  refine ⟨name, valid, ?_⟩
  simp only [exec_bind, exec_get] at returned
  split at returned
  · rename_i known
    rw [exec_pure, Prod.mk.injEq, Except.ok.injEq] at returned
    exact .inl ⟨known, returned.2.symm, returned.1.symm⟩
  · rw [exec_bind_eq_ok] at returned
    obtain ⟨action, s₁, made, returned⟩ := returned
    rw [exec_lift, Prod.mk.injEq] at made
    obtain ⟨made, rfl⟩ := made
    rw [exec_bind_eq_ok] at returned
    obtain ⟨version, s₁, next, returned⟩ := returned
    rw [exec_lift, Prod.mk.injEq] at next
    obtain ⟨-, rfl⟩ := next
    rw [exec_bind_eq_ok] at returned
    obtain ⟨event, s₁, applied, returned⟩ := returned
    rw [exec_pure, Prod.mk.injEq, Except.ok.injEq] at returned
    have accepted : ctx.authority.applyTo (seedCall ctx course name version action) s =
        (.ok event, s₁) := applied
    refine .inr ⟨action, version, event, made, congrArg Prod.fst accepted, ?_, returned.1.symm⟩
    rw [accepted]
    exact returned.2.symm

/-- An entry whose name is there is skipped. -/
theorem seedEntry_skips (valid : validateTldName entry.name = .ok name)
    (known : name ∈ s.zone.tlds) : exec (seedEntry ctx course outcome entry) s =
      (.ok { outcome with skippedExisting := outcome.skippedExisting ++ [name] }, s) := by
  rw [seedEntry, exec_bind, exec_lift, valid]
  simp only [exec_bind, exec_get]
  rw [if_pos known, exec_pure]

/-- An entry whose name is absent creates it when the mutation of the next version is accepted. -/
theorem seedEntry_creates {event : AuditRecord} (valid : validateTldName entry.name = .ok name)
    (absent : name ∉ s.zone.tlds) (made : entry.action name = .ok action)
    (room : (s.targetVersion action.targetKey).toNat + 1 < 2 ^ 64)
    (accepted : ctx.authority.Accepts s
      (seedCall ctx course name (s.targetVersion action.targetKey + 1) action) event) :
    exec (seedEntry ctx course outcome entry) s =
      (.ok { outcome with created := outcome.created ++ [name] }, (ctx.authority.applyTo
        (seedCall ctx course name (s.targetVersion action.targetKey + 1) action) s).2) := by
  have applied : exec (RegistryStore.apply (.signed ctx.root s!"seed:{name}"
      (Externals.toRfc3339 ctx.now) (s.targetVersion action.targetKey + 1) action) ctx course.clock
      course.io) s = (.ok event, (ctx.authority.applyTo
        (seedCall ctx course name (s.targetVersion action.targetKey + 1) action) s).2) :=
    Prod.ext accepted rfl
  rw [seedEntry, exec_bind, exec_lift, valid]
  simp only [exec_bind, exec_get]
  rw [if_neg absent, exec_bind, exec_lift, made]
  simp only
  rw [exec_bind, exec_lift, if_pos room]
  simp only [okOr]
  rw [exec_bind_ok applied, exec_pure]

/-- Whatever becomes of a call for an entry, it keeps the TLDs. -/
theorem seedCall_keeps {version : UInt64} (made : entry.action name = .ok action)
    (normal : IsTldName name) :
    s.TldsKept (ctx.authority.applyTo (seedCall ctx course name version action) s).2 := by
  rcases ctx.authority.step_zone s (.apply (seedCall ctx course name version action)) with
    same | ⟨call, p, requested, prepared, stored⟩
  · intro other r found
    exact same ▸ found
  · cases requested
    obtain ⟨effect, granted, rfl, -⟩ := prepared.granted
    obtain ⟨absent, r, added⟩ := granted.seeds made normal
    intro other r' found
    have zone : (ctx.authority.applyTo (seedCall ctx course name version action) s).2.zone.tlds =
        s.zone.tlds.insert name r := (congrArg RootZone.tlds stored).trans added
    have differs : compare name other ≠ .eq := by
      intro equal
      rw [Std.LawfulEqCmp.compare_eq_iff_eq] at equal
      exact absent (equal ▸ mem_of_getElem? found)
    rw [zone, Std.ExtTreeMap.getElem?_insert, if_neg differs]
    exact found

/-- Whatever becomes of an entry, it keeps the TLDs. -/
theorem seedEntry_keeps : Keeps TldsKept (seedEntry ctx course outcome entry) := by
  intro s
  rw [seedEntry, exec_bind, exec_lift]
  cases valid : validateTldName entry.name with
  | error e => exact Std.Refl.refl s
  | ok name =>
    have normal : IsTldName name := (validateTldName_eq_ok.mp valid).2
    simp only [exec_bind, exec_get]
    split
    · exact Std.Refl.refl s
    · rw [exec_bind, exec_lift]
      cases made : entry.action name with
      | error e => exact Std.Refl.refl s
      | ok action =>
        simp only
        rw [exec_bind, exec_lift]
        generalize okOr (if (s.targetVersion action.targetKey).toNat + 1 < 2 ^ 64 then
          some (s.targetVersion action.targetKey + 1) else none)
          (FederateError.storage "attempt to add with overflow") = next
        cases next with
        | error e => exact Std.Refl.refl s
        | ok version =>
          simp only
          rw [bind_pure_comp, exec_map]
          exact seedCall_keeps made normal

/-- What an accepted call for an entry adds: the record of its TLD, one mutation with a new id, and
the event of that mutation. -/
theorem seedCall_accepted (signs : SignaturesVerify) {version : UInt64} {event : AuditRecord}
    (made : entry.action name = .ok action) (normal : IsTldName name)
    (accepted : ctx.authority.Accepts s (seedCall ctx course name version action) event)
    (left : s' = (ctx.authority.applyTo (seedCall ctx course name version action) s).2) :
    name ∉ s.zone.tlds ∧ (∃ r, s'.zone.tlds = s.zone.tlds.insert name r) ∧
      event.mutationId ∉ s.applied ∧ (∃ m, s'.applied = s.applied.insert event.mutationId m) ∧
      s'.audit = s.audit ++ [event] ∧ TldEvent ctx.root.nodeId name event := by
  obtain ⟨p, tables, prepared, rfl, -, -, -, -, -, after⟩ :=
    ctx.authority.accepts_iff s |>.mp accepted
  obtain ⟨effect, granted, rfl, -⟩ := prepared.granted
  obtain ⟨-, -, fresh, -⟩ := prepare_eq_ok.mp prepared
  obtain ⟨absent, r, added⟩ := granted.seeds made normal
  have target : action.target = (.tld, name) := SeedTld.action_target made normal
  have own : TldEvent ctx.root.nodeId name (s.prepared (seedCall ctx course name version
      action).request (ctx.authority.context (seedCall ctx course name version action))
      effect).event := by
    refine ⟨?_, ?_, AuditRecord.verify_finalize signs _ ctx.root⟩
    · show action.target.1.asStr = "tld"
      rw [target]
      rfl
    · show action.target.2 = name
      rw [target]
  have zone : ∀ req p tables, (s.stored req p tables).zone = p.zone := fun req p _ =>
    s.adopt_zone req p
  have applied : ∀ req p tables, (s.stored req p tables).applied =
      s.applied.insert req.mutationId (appliedMutation req p) := fun req p _ =>
    s.adopt_applied req p
  have audit : ∀ req p tables, (s.stored req p tables).audit = s.audit ++ [p.event] :=
    fun req p _ => s.adopt_audit req p
  rw [left, after]
  exact ⟨absent, ⟨r, (congrArg RootZone.tlds (zone _ _ _)).trans added⟩, fresh,
    ⟨_, applied _ _ _⟩, audit _ _ _, own⟩

end Entry

/-! ## The whole file -/

section Run

variable {ctx : MutationContext} {s s' : RegistryStore}

/-- Whatever becomes of the loop, it keeps the TLDs. -/
theorem seedEntries_keeps (entries : List SeedTld) (course : ℕ → SeedCourse)
    (outcome : SeedOutcome) : Keeps TldsKept (seedEntries ctx entries course outcome) := by
  induction entries generalizing course outcome with
  | nil => exact keeps_pure outcome
  | cons entry rest ih =>
    rw [seedEntries]
    exact seedEntry_keeps.bind fun outcome => ih _ outcome

/-- Whatever becomes of the call, it keeps the TLDs. -/
theorem applySeed_keeps (seed : SeedFile) (force : Bool) (course : ℕ → SeedCourse) :
    Keeps TldsKept (applySeed seed ctx force course) := by
  rw [applySeed]
  refine keeps_get.bind fun s => ?_
  exact Keeps.afterLift _ fun _ => seedEntries_keeps seed.tlds course _

/-- A loop that ends well is the run of its names, which appends what the run created and skipped
to the outcome. -/
theorem seedEntries_run (signs : SignaturesVerify) {entries : List SeedTld}
    {course : ℕ → SeedCourse} {outcome o : SeedOutcome}
    (returned : exec (seedEntries ctx entries course outcome) s = (.ok o, s')) :
    ∃ names created skipped events,
      List.Forall₂ (fun entry name => validateTldName entry.name = .ok name) entries names ∧
      o = ⟨outcome.created ++ created, outcome.skippedExisting ++ skipped⟩ ∧
      SeedRun ctx.root.nodeId s names created skipped events s' := by
  induction entries generalizing s course outcome with
  | nil =>
    rw [seedEntries, exec_pure, Prod.mk.injEq, Except.ok.injEq] at returned
    obtain ⟨rfl, rfl⟩ := returned
    exact ⟨[], [], [], [], .nil, by simp, .done s⟩
  | cons entry rest ih =>
    rw [seedEntries, exec_bind_eq_ok] at returned
    obtain ⟨middle, s₁, first, later⟩ := returned
    obtain ⟨names, created, skipped, events, valid, rfl, run⟩ := ih later
    obtain ⟨name, normal, skip | create⟩ := seedEntry_ok first
    · obtain ⟨known, rfl, rfl⟩ := skip
      exact ⟨name :: names, created, name :: skipped, events, valid.cons normal, by simp,
        .skipped known run⟩
    · obtain ⟨action, version, event, made, accepted, left, rfl⟩ := create
      obtain ⟨absent, ⟨r, added⟩, fresh, ⟨m, applied⟩, audited, own⟩ :=
        seedCall_accepted signs made (validateTldName_eq_ok.mp normal).2 accepted left
      exact ⟨name :: names, name :: created, skipped, event :: events, valid.cons normal,
        by simp, .created absent added fresh applied audited own run⟩

/-- What a seed file has done when it ended well. -/
structure Seeded (root : String) (s s' : RegistryStore) (names : List String)
    (outcome : SeedOutcome) : Prop where
  /-- Every name is a TLD of the zone. -/
  present : ∀ name ∈ names, name ∈ s'.zone.tlds
  /-- The created names are in file order. -/
  createdOrder : outcome.created.Sublist names
  /-- The skipped names are in file order. -/
  skippedOrder : outcome.skippedExisting.Sublist names
  /-- Together they hold one item for each entry. -/
  together : (outcome.created ++ outcome.skippedExisting).Perm names
  /-- No name is created twice. -/
  distinct : outcome.created.Nodup
  /-- The created names are those that were absent. -/
  absent : ∀ name, name ∈ outcome.created ↔ name ∈ names ∧ name ∉ s.zone.tlds
  /-- Each was added by one mutation of its own, which is in the history, and whose event the root
  signed. -/
  audited : ∃ events, s'.audit = s.audit ++ events ∧
    List.Forall₂ (TldEvent root) outcome.created events ∧
    (events.map AuditRecord.mutationId).Nodup ∧
    ∀ event ∈ events, event.mutationId ∉ s.applied ∧ event.mutationId ∈ s'.applied

/-- A seed file that ended well has seeded its validated names. -/
theorem applySeed_seeded (signs : SignaturesVerify) {seed : SeedFile} {force : Bool}
    {course : ℕ → SeedCourse} {outcome : SeedOutcome}
    (returned : exec (applySeed seed ctx force course) s = (.ok outcome, s')) : ∃ names,
      List.Forall₂ (fun entry name => validateTldName entry.name = .ok name) seed.tlds names ∧
      Seeded ctx.root.nodeId s s' names outcome := by
  rw [applySeed, exec_bind, exec_get] at returned
  simp only at returned
  rw [exec_bind_eq_ok] at returned
  obtain ⟨⟨⟩, s₁, admitted, returned⟩ := returned
  rw [exec_lift, Prod.mk.injEq] at admitted
  obtain ⟨-, rfl⟩ := admitted
  obtain ⟨names, created, skipped, events, valid, rfl, run⟩ := seedEntries_run signs returned
  obtain ⟨createdOrder, skippedOrder, together⟩ := run.sorted
  obtain ⟨distinct, absent⟩ := run.absent
  exact ⟨names, valid, run.present.2, createdOrder, skippedOrder, together, distinct, absent,
    events, run.audited⟩

/-- Without force a store with TLDs is left alone. -/
theorem applySeed_refused (seed : SeedFile) (course : ℕ → SeedCourse)
    (populated : s.zone.tlds.size ≠ 0) :
    (exec (applySeed seed ctx false course) s).2 = s := by
  rw [applySeed, exec_bind, exec_get]
  simp only
  rw [exec_bind, exec_lift]
  simp [rejectIf, populated]

/-- For every store, seed file and course of the storage: every TLD record that was there is there
unchanged after a call of `apply_seed`, however it ends; without force nothing changes when there
is any TLD; and when the call ends well, it has seeded the validated names of the file. -/
theorem applySeed_additive (signs : SignaturesVerify) (s : RegistryStore) (ctx : MutationContext)
    (seed : SeedFile) (force : Bool) (course : ℕ → SeedCourse) :
    s.TldsKept (exec (applySeed seed ctx force course) s).2 ∧
      (force = false → s.zone.tlds ≠ ∅ → (exec (applySeed seed ctx force course) s).2 = s) ∧
      ∀ outcome, (exec (applySeed seed ctx force course) s).1 = .ok outcome → ∃ names,
        List.Forall₂ (fun entry name => validateTldName entry.name = .ok name) seed.tlds names ∧
        Seeded ctx.root.nodeId s (exec (applySeed seed ctx force course) s).2 names outcome := by
  refine ⟨applySeed_keeps seed force course s, ?_, ?_⟩
  · intro unforced populated
    rw [unforced]
    refine applySeed_refused seed course fun empty => populated ?_
    exact Std.ExtTreeMap.eq_empty_iff_size_eq_zero.mpr empty
  · intro outcome returned
    exact applySeed_seeded signs (Prod.ext returned rfl)

/-- A file that lists an absent TLD twice creates it once and skips it once. -/
theorem applySeed_twice (signs : SignaturesVerify) {first second : SeedTld} {name : String}
    {action : MutationAction} {course : ℕ → SeedCourse} {event : AuditRecord}
    (valid : validateTldName first.name = .ok name)
    (again : validateTldName second.name = .ok name) (empty : s.zone.tlds = ∅)
    (made : first.action name = .ok action) (unversioned : s.targetVersion action.targetKey = 0)
    (accepted : ctx.authority.Accepts s (seedCall ctx (course 0) name 1 action) event) :
    (exec (applySeed ⟨[first, second]⟩ ctx false course) s).1 = .ok ⟨[name], [name]⟩ := by
  have absent : name ∉ s.zone.tlds := by
    rw [empty]
    exact Std.ExtTreeMap.not_mem_empty
  have next : s.targetVersion action.targetKey + 1 = 1 := by
    rw [unversioned]
    decide
  have room : (s.targetVersion action.targetKey).toNat + 1 < 2 ^ 64 := by
    rw [unversioned]
    decide
  rw [← next] at accepted
  have normal : IsTldName name := (validateTldName_eq_ok.mp valid).2
  obtain ⟨-, ⟨r, added⟩, -⟩ := seedCall_accepted signs made normal accepted rfl
  have known : name ∈ (ctx.authority.applyTo (seedCall ctx (course 0) name
      (s.targetVersion action.targetKey + 1) action) s).2.zone.tlds := by
    rw [added]
    exact Std.ExtTreeMap.mem_insert_self
  rw [applySeed, exec_bind, exec_get]
  simp only
  rw [exec_bind, exec_lift, empty, Outcome.rejectIf, if_neg (by simp)]
  simp only
  rw [seedEntries, exec_bind_ok (seedEntry_creates valid absent made room accepted), seedEntries,
    exec_bind_ok (seedEntry_skips again known), seedEntries, exec_pure]
  rfl

end Run

end Federate

namespace Federate.Reference

open Stateful RegistryStore

/-- An official TLD, listed twice. -/
def fooTwice : SeedFile :=
  ⟨[⟨"foo", "official", some "sites", none⟩, ⟨" .FOO", "official", none, none⟩]⟩

/-- The context of a seed run at the epoch. -/
def seedContext : MutationContext :=
  ⟨authority.root, authority.officialOperator, ⟨∅, ∅, ∅, ∅⟩, ⟨0⟩⟩

/-- The mutation of the first entry. -/
def seedFoo : ApplyCall :=
  seedCall seedContext ⟨⟨0⟩, .ok⟩ "foo" 1 (.createTld "foo" "sites")

/-- The mutation of the first entry is the call of the root with the nonce of the entry. -/
theorem seedFoo_call :
    seedFoo = call authority.root "seed:foo" 1 (.createTld "foo" "sites") := by
  have time : Externals.toRfc3339 ⟨0⟩ = stamp := by decide +kernel
  have nonce : toString "seed:" ++ toString "foo" = "seed:foo" := by decide
  rw [seedFoo, seedCall, call, seedContext]
  simp only
  rw [time, nonce]

/-- A new registry accepts the mutation of the first entry. -/
theorem seedFoo_accepted : ∃ event, authority.Accepts start seedFoo event := by
  have valid : validateTldName "foo" = .ok "foo" := by decide +kernel
  have absent : "foo" ∉ (∅ : Table String TldRecord) := Std.ExtTreeMap.not_mem_empty
  rw [seedFoo_call]
  exact (stage_start.created valid absent (by decide) List.not_mem_nil (by decide)).1

/-- Seeding a new registry with a TLD that the file lists twice creates it once and skips it
once. -/
theorem fooTwice_run :
    (exec (applySeed fooTwice seedContext false fun _ => ⟨⟨0⟩, .ok⟩) start).1 =
      .ok ⟨["foo"], ["foo"]⟩ := by
  obtain ⟨event, accepted⟩ := seedFoo_accepted
  have first : validateTldName "foo" = .ok "foo" := by decide +kernel
  have second : validateTldName " .FOO" = .ok "foo" := by decide +kernel
  have unversioned : start.targetVersion (MutationAction.createTld "foo" "sites").targetKey = 0 :=
    stage_start.versions _
  have made : SeedTld.action ⟨"foo", "official", some "sites", none⟩ "foo" =
      .ok (.createTld "foo" "sites") := rfl
  exact applySeed_twice signaturesVerify first second stage_start.tlds made unversioned accepted

/-- That run has seeded the validated names of the file. -/
theorem fooTwice_seeded : ∃ names,
    List.Forall₂ (fun entry name => validateTldName (SeedTld.name entry) = .ok name)
      fooTwice.tlds names ∧
    Seeded authority.root.nodeId start
      (exec (applySeed fooTwice seedContext false fun _ => ⟨⟨0⟩, .ok⟩) start).2 names
      ⟨["foo"], ["foo"]⟩ :=
  (applySeed_additive signaturesVerify start seedContext fooTwice false _).2.2 _ fooTwice_run

end Federate.Reference
