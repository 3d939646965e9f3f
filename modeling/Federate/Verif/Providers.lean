import Federate.Directory.Interleaving
import Federate.Verif.DirectoryTable
import Federate.Reference.Registry

/-!
# Who provides a block

The lists of providers name registered nodes, and a node that was pruned is forgotten until it
announces again. Both hold in every order of the calls in which no pruning scrubs the lists while an
announcement of a node that it dropped is between its two locks: that announcement is inserted
afterwards, and nothing removes it.
-/

namespace Federate

open Outcome Transition

namespace DirectoryState

variable [Externals] {d : DirectoryState}

omit [Externals] in
/-- The node is listed for the block. -/
def Provides (d : DirectoryState) (hash id : String) : Prop :=
  ∃ ids, d.providers[hash]? = some ids ∧ id ∈ ids

omit [Externals] in
/-- Listed means among those that are found. -/
theorem provides_iff {hash id : String} :
    d.Provides hash id ↔ id ∈ d.providers[hash]?.getD ∅ := by
  cases found : d.providers[hash]? with
  | none => simp [Provides, found]
  | some ids => simp [Provides, found]

/-- Scrubbing leaves those that did not go. -/
theorem provides_scrub {stale : List String} {written : Bool} {hash id : String} :
    (d.scrub stale written).Provides hash id ↔ d.Provides hash id ∧ id ∉ stale := by
  rw [Provides, scrub, persist_providers]
  simp only [Std.ExtTreeMap.getElem?_filter', Std.ExtTreeMap.getElem?_map]
  cases found : d.providers[hash]? with
  | none => simp [Provides, found]
  | some ids =>
    simp only [Provides, found, Option.map_some, Option.some.injEq, exists_eq_left']
    by_cases gone : ids \ stale.toFinset = ∅
    · have none_left : id ∈ ids → id ∈ stale := by
        intro member
        by_contra stays
        have left : id ∈ ids \ stale.toFinset := by simp [member, stays]
        simp [gone] at left
      simpa [gone, Option.filter] using none_left
    · simp [gone, Option.filter]

omit [Externals] in
/-- An insertion adds the node for its well-formed blocks. -/
theorem provides_insertBlocks {announce : BlockAnnounce} {hash id : String} :
    (d.insertBlocks announce).Provides hash id ↔ d.Provides hash id ∨
      id = announce.nodeId ∧ hash ∈ announce.blocks ∧ isValidHash hash = true := by
  rw [provides_iff, provides_iff, insertBlocks, ← List.mem_filter]
  generalize announce.blocks.filter isValidHash = blocks
  generalize d.providers = providers
  induction blocks generalizing providers with
  | nil => simp
  | cons first rest ih =>
    rw [List.foldl_cons, ih, Std.ExtTreeMap.getElem?_insert, List.mem_cons]
    by_cases same : hash = first
    · simp [same]
      tauto
    · have apart : compare first hash ≠ .eq := fun equal => same (compare_eq_iff_eq.mp equal).symm
      simp [same, apart]

omit [Externals] in
/-- What is returned are the registered nodes that are listed, online and of the role. -/
theorem mem_providersForBlock_iff {hash : String} {role : Option NodeRole} {e : TrackedNode} :
    e ∈ d.providersForBlock hash role ↔ (∃ id, d.Provides hash id ∧ d.nodes[id]? = some e) ∧
      e.status ≠ .offline ∧ role.all (· ∈ e.registration.roles) = true := by
  simp only [providersForBlock, List.mem_mergeSort, List.mem_filter, List.mem_filterMap,
    Finset.mem_sort, provides_iff, Bool.decide_and, Bool.and_eq_true, decide_eq_true_eq]

/-- An accepted registration keeps ids, adds its own and leaves the providers. -/
theorem register_tables {rootPublicKey : Option String} {reg : NodeRegistration} {now : DateTime}
    {written : Bool} {d' : DirectoryState}
    (accepted : d.register rootPublicKey reg now written = .ok d') :
    d'.providers = d.providers ∧ (∀ id ∈ d.nodes, id ∈ d'.nodes) ∧
      (d.Filed → d'.Filed) := by
  simp only [register, bind_eq_ok, rejectIf_eq_ok, exists_unit, exists_const, pure_eq_ok] at accepted
  obtain ⟨-, -, -, rfl⟩ := accepted
  refine ⟨persist_providers _ written, fun id held => ?_, fun filed => ?_⟩
  · rw [persist_nodes]
    exact Std.ExtTreeMap.mem_insert.mpr (.inr held)
  · rw [DirectoryState.Filed, persist_nodes]
    exact Rows.Keyed.insert filed (d.registered reg now)

/-- A node that is dropped is one of the stale ones. -/
theorem mem_dropStale_or (d : DirectoryState) (maxAge : ℕ) (now : DateTime) {id : String}
    (held : id ∈ d.nodes) : id ∈ (d.dropStale maxAge now).nodes ∨ id ∈ d.staleIds maxAge now := by
  obtain ⟨entry, found⟩ := Option.isSome_iff_exists.mp
    (Std.ExtTreeMap.mem_iff_isSome_getElem?.mp held)
  by_cases stale : isStale maxAge now entry = true
  · right
    rw [staleIds, Std.ExtTreeMap.mem_keys, Std.ExtTreeMap.mem_iff_isSome_getElem?]
    simp [found, stale]
  · left
    rw [dropStale, Std.ExtTreeMap.mem_iff_isSome_getElem?]
    simp [found, stale]

/-- Dropping leaves the entries it keeps as they are. -/
theorem Filed.dropStale (filed : d.Filed) (maxAge : ℕ) (now : DateTime) :
    (d.dropStale maxAge now).Filed :=
  Rows.Keyed.filter filed _

end DirectoryState

namespace SharedDirectory

open DirectoryState

variable [Externals] {s : SharedDirectory} {rootPublicKey : Option String}

/-- The announcement lists a well-formed block. -/
def Lists (announce : BlockAnnounce) (hash : String) : Prop :=
  hash ∈ announce.blocks ∧ isValidHash hash = true

/-- A pruning that scrubs the lists dropped no node that has an announcement between its two
locks. -/
def Settled (s : SharedDirectory) : Acquisition → Prop
  | .scrub _ => ∀ stale, s.pruning = some stale →
    ∀ announce ∈ s.announcing, announce.nodeId ∈ stale → ∀ hash, ¬Lists announce hash
  | _ => True

/-- The node is registered, or on its way out of the lists. -/
def Known (s : SharedDirectory) (id : String) : Prop :=
  id ∈ s.directory.nodes ∨ ∃ stale, s.pruning = some stale ∧ id ∈ stale

/-- What holds between any two acquisitions. -/
structure Tracked (s : SharedDirectory) : Prop where
  /-- Entries are filed under their ids. -/
  filed : s.directory.Filed
  /-- Providers are known. -/
  providers : ∀ hash id, s.directory.Provides hash id → s.Known id
  /-- So are those that will be. -/
  announcing : ∀ announce ∈ s.announcing, ∀ hash, Lists announce hash → s.Known announce.nodeId

/-- Every settled step keeps track of the providers. -/
theorem Tracked.step (tracked : Tracked s) {event : Acquisition} (settled : Settled s event) :
    Tracked (s.step rootPublicKey event) := by
  cases event with
  | register reg now written =>
    by_cases busy : s.pruning.isSome = true
    · rw [SharedDirectory.step, if_pos busy]
      exact tracked
    · cases outcome : s.directory.register rootPublicKey reg now written with
      | error e =>
        rw [SharedDirectory.step, if_neg busy, outcome]
        exact tracked
      | ok d =>
        rw [SharedDirectory.step, if_neg busy, outcome]
        obtain ⟨providers, held, filed⟩ := register_tables outcome
        have known (id : String) : s.Known id → Known { s with directory := d } id :=
          Or.imp_left (held id)
        constructor
        · exact filed tracked.filed
        · intro hash id listed
          apply known
          apply tracked.providers hash id
          rw [provides_iff] at listed ⊢
          exact providers ▸ listed
        · intro announce member hash lists
          exact known _ (tracked.announcing announce member hash lists)
  | check announce =>
    by_cases passes : s.pruning.isNone ∧ s.directory.checkAnnounce announce = .ok ()
    · rw [SharedDirectory.step, if_pos passes]
      have held : announce.nodeId ∈ s.directory.nodes := by
        have checked := passes.2
        simp only [checkAnnounce, bind_eq_ok, rejectIf_eq_ok, exists_unit, not_not] at checked
        exact checked.2
      refine ⟨tracked.filed, tracked.providers, fun other member hash lists => ?_⟩
      rcases List.mem_append.mp member with old | new
      · exact tracked.announcing other old hash lists
      · rw [List.mem_singleton.mp new]
        exact .inl held
    · rw [SharedDirectory.step, if_neg passes]
      exact tracked
  | insert i =>
    cases found : s.announcing[i]? with
    | none =>
      simp only [SharedDirectory.step, found]
      exact tracked
    | some announce =>
      simp only [SharedDirectory.step, found]
      refine ⟨tracked.filed, fun hash id listed => ?_, fun other member => ?_⟩
      · rcases provides_insertBlocks.mp listed with old | ⟨rfl, lists⟩
        · exact tracked.providers hash id old
        · exact tracked.announcing announce (List.mem_of_getElem? found) hash lists
      · exact tracked.announcing other (List.mem_of_mem_eraseIdx member)
  | drop maxAge now =>
    by_cases busy : s.pruning.isSome = true
    · rw [SharedDirectory.step, if_pos busy]
      exact tracked
    · rw [SharedDirectory.step, if_neg busy]
      have idle : s.pruning = none := by simpa using busy
      have known (id : String) (before : s.Known id) : Known
          { s with
            directory := s.directory.dropStale maxAge now
            pruning := if s.directory.staleIds maxAge now = [] then none
              else some (s.directory.staleIds maxAge now) } id := by
        rcases before with held | ⟨stale, pruning, -⟩
        · rcases mem_dropStale_or s.directory maxAge now held with stays | goes
          · exact .inl stays
          · right
            refine ⟨s.directory.staleIds maxAge now, ?_, goes⟩
            rw [if_neg (List.ne_nil_of_mem goes)]
        · rw [idle] at pruning
          cases pruning
      exact ⟨tracked.filed.dropStale maxAge now,
        fun hash id listed => known id (tracked.providers hash id listed),
        fun announce member hash lists => known _ (tracked.announcing announce member hash lists)⟩
  | scrub written =>
    cases pruning : s.pruning with
    | none =>
      simp only [SharedDirectory.step, pruning]
      exact tracked
    | some stale =>
      simp only [SharedDirectory.step, pruning]
      have nodes : (s.directory.scrub stale written).nodes = s.directory.nodes :=
        persist_nodes _ written
      have stays {id : String} (known : s.Known id) (kept : id ∉ stale) :
          id ∈ s.directory.nodes := by
        rcases known with held | ⟨stale', pruning', gone⟩
        · exact held
        · rw [pruning] at pruning'
          exact absurd (Option.some.inj pruning' ▸ gone) kept
      constructor
      · intro id e found
        exact tracked.filed id e (nodes ▸ found)
      · intro hash id listed
        obtain ⟨old, kept⟩ := provides_scrub.mp listed
        exact .inl (nodes ▸ stays (tracked.providers hash id old) kept)
      · intro announce member hash lists
        have kept : announce.nodeId ∉ stale :=
          fun gone => settled stale pruning announce member gone hash lists
        exact .inl (nodes ▸ stays (tracked.announcing announce member hash lists) kept)

/-! ## A node that was pruned -/

/-- The node announces the block, and is registered. -/
def Announces (s : SharedDirectory) (event : Acquisition) (hash id : String) : Prop :=
  ∃ announce, event = .check announce ∧ s.pruning = none ∧
    s.directory.checkAnnounce announce = .ok () ∧ announce.nodeId = id ∧ hash ∈ announce.blocks

/-- The node is not listed for the block and will not be. -/
structure Forgotten (s : SharedDirectory) (hash id : String) : Prop where
  /-- It is not. -/
  unlisted : ¬s.directory.Provides hash id
  /-- No announcement between its two locks lists it. -/
  unannounced : ∀ announce ∈ s.announcing, announce.nodeId = id → ¬Lists announce hash

/-- A node stays forgotten until it announces the block. -/
theorem Forgotten.step {hash id : String} (forgotten : Forgotten s hash id) {event : Acquisition}
    (silent : ¬Announces s event hash id) : Forgotten (s.step rootPublicKey event) hash id := by
  cases event with
  | register reg now written =>
    by_cases busy : s.pruning.isSome = true
    · rw [SharedDirectory.step, if_pos busy]
      exact forgotten
    · cases outcome : s.directory.register rootPublicKey reg now written with
      | error e =>
        rw [SharedDirectory.step, if_neg busy, outcome]
        exact forgotten
      | ok d =>
        rw [SharedDirectory.step, if_neg busy, outcome]
        refine ⟨fun listed => forgotten.unlisted ?_, forgotten.unannounced⟩
        rw [provides_iff] at listed ⊢
        exact (register_tables outcome).1 ▸ listed
  | check announce =>
    by_cases passes : s.pruning.isNone ∧ s.directory.checkAnnounce announce = .ok ()
    · rw [SharedDirectory.step, if_pos passes]
      refine ⟨forgotten.unlisted, fun other member named lists => ?_⟩
      rcases List.mem_append.mp member with old | new
      · exact forgotten.unannounced other old named lists
      · have same : other = announce := List.mem_singleton.mp new
        have idle : s.pruning = none := by simpa using passes.1
        exact silent ⟨announce, rfl, idle, passes.2, same ▸ named, same ▸ lists.1⟩
    · rw [SharedDirectory.step, if_neg passes]
      exact forgotten
  | insert i =>
    cases found : s.announcing[i]? with
    | none =>
      simp only [SharedDirectory.step, found]
      exact forgotten
    | some announce =>
      simp only [SharedDirectory.step, found]
      constructor
      · intro listed
        rcases provides_insertBlocks.mp listed with old | ⟨rfl, lists⟩
        · exact forgotten.unlisted old
        · exact forgotten.unannounced announce (List.mem_of_getElem? found) rfl lists
      · intro other member
        exact forgotten.unannounced other (List.mem_of_mem_eraseIdx member)
  | drop maxAge now =>
    by_cases busy : s.pruning.isSome = true
    · rw [SharedDirectory.step, if_pos busy]
      exact forgotten
    · rw [SharedDirectory.step, if_neg busy]
      exact ⟨forgotten.unlisted, forgotten.unannounced⟩
  | scrub written =>
    cases pruning : s.pruning with
    | none =>
      simp only [SharedDirectory.step, pruning]
      exact forgotten
    | some stale =>
      simp only [SharedDirectory.step, pruning]
      refine ⟨fun listed => ?_, forgotten.unannounced⟩
      exact forgotten.unlisted (provides_scrub.mp listed).1

/-- A settled scrubbing forgets the nodes that were dropped. -/
theorem forgotten_scrub {stale : List String} {id : String} (pruning : s.pruning = some stale)
    (dropped : id ∈ stale) {written : Bool} (settled : Settled s (.scrub written)) (hash : String) :
    Forgotten (s.step rootPublicKey (.scrub written)) hash id := by
  simp only [SharedDirectory.step, pruning]
  constructor
  · intro listed
    exact (provides_scrub.mp listed).2 dropped
  · intro announce member named
    exact settled stale pruning announce member (named ▸ dropped) hash

/-- What is promised of the providers after a run of acquisitions. -/
structure ProvidersConsistent (rootPublicKey : Option String) (d : DirectoryState)
    (events : List Acquisition) : Prop where
  /-- When no call is in progress, providers are registered. -/
  registered : (run (step rootPublicKey) (ofDirectory d) events).Quiet → ∀ hash id,
    (run (step rootPublicKey) (ofDirectory d) events).directory.Provides hash id →
      id ∈ (run (step rootPublicKey) (ofDirectory d) events).directory.nodes
  /-- A node that was pruned is not returned unless it has announced the block since. -/
  forgotten : ∀ before written after stale hash id, events = before ++ .scrub written :: after →
    (run (step rootPublicKey) (ofDirectory d) before).pruning = some stale → id ∈ stale →
    Guarded (step rootPublicKey) (fun s event => ¬Announces s event hash id)
      (run (step rootPublicKey) (ofDirectory d) (before ++ [.scrub written])) after →
    ∀ role, ∀ e ∈
        (run (step rootPublicKey) (ofDirectory d) events).directory.providersForBlock hash role,
      e.registration.nodeId ≠ id

/-- A directory that was just opened. -/
def Opened [SerdeDirectory] (d : DirectoryState) : Prop :=
  d = .new ∨ ∃ snapshot, d = .withPersistence snapshot

/-- A directory that was just opened files entries under their ids and lists no providers. -/
theorem Opened.initial [SerdeDirectory] {d : DirectoryState} (opened : Opened d) :
    Tracked (ofDirectory d) := by
  have filed : d.Filed ∧ d.providers = ∅ := by
    rcases opened with rfl | ⟨snapshot, rfl⟩
    · refine ⟨fun id e found => ?_, rfl⟩
      simp [DirectoryState.new] at found
    · exact ⟨filed_withPersistence snapshot, rfl⟩
  refine ⟨filed.1, fun hash id listed => ?_, fun announce member => ?_⟩
  · rw [provides_iff, ofDirectory, filed.2] at listed
    simp at listed
  · simp [ofDirectory] at member

/-- The providers are consistent after every settled run from a directory that was just opened. -/
theorem providersConsistent_of_settled [SerdeDirectory] {d : DirectoryState} (opened : Opened d)
    {events : List Acquisition}
    (settled : Guarded (step rootPublicKey) Settled (ofDirectory d) events) :
    ProvidersConsistent rootPublicKey d events := by
  have tracked : Tracked (run (step rootPublicKey) (ofDirectory d) events) :=
    invariant (fun s event tracked settled => tracked.step settled) opened.initial settled
  constructor
  · intro quiet hash id listed
    rcases tracked.providers hash id listed with held | ⟨stale, pruning, -⟩
    · exact held
    · rw [quiet.2] at pruning
      cases pruning
  · intro before written after stale hash id split pruning dropped silent role e returned named
    subst split
    have now : Settled (run (step rootPublicKey) (ofDirectory d) before) (.scrub written) :=
      ((guarded_append _ before _).mp settled).2.1
    have kept : ∀ (s : SharedDirectory) (event : Acquisition), Forgotten s hash id →
        ¬Announces s event hash id → Forgotten (s.step rootPublicKey event) hash id :=
      fun s event forgotten silent => forgotten.step silent
    have forgotten : Forgotten (run (step rootPublicKey)
        (run (step rootPublicKey) (ofDirectory d) (before ++ [.scrub written])) after) hash id := by
      refine invariant (I := fun s => Forgotten s hash id) kept ?_ silent
      rw [run_append]
      have first : Forgotten ((run (step rootPublicKey) (ofDirectory d) before).step rootPublicKey
          (.scrub written)) hash id := forgotten_scrub pruning dropped now hash
      exact first
    rw [← run_append, List.append_assoc, List.singleton_append] at forgotten
    obtain ⟨⟨id', listed, found⟩, -⟩ := mem_providersForBlock_iff.mp returned
    have same : e.registration.nodeId = id' := tracked.filed id' e found
    exact forgotten.unlisted (named ▸ same ▸ listed)

end SharedDirectory

end Federate

namespace Federate.Reference

open Outcome Transition DirectoryState SharedDirectory

/-- A node. -/
def provider : NodeIdentity := identity 9

/-- Its registration. -/
def providerReg : NodeRegistration := selfSigned provider .cdn

/-- Its entry, as of a time. -/
def providerEntry (nanos : ℤ) : TrackedNode :=
  ⟨providerReg, .online, Externals.toRfc3339 ⟨nanos⟩, none, 0⟩

/-- The table with that entry. -/
def providerTable (nanos : ℤ) : Table String TrackedNode :=
  (∅ : Table String TrackedNode).insert provider.nodeId (providerEntry nanos)

/-- The block that it has. -/
def providedHash : String := hashBytes []

/-- Its announcement. -/
def providerAnnounce : BlockAnnounce := .signed provider [providedHash] ⟨0⟩

/-- An empty table takes the registration. -/
theorem provider_register {d : DirectoryState} (empty : d.nodes = ∅) (nanos : ℤ) :
    d.register none providerReg ⟨nanos⟩ false =
      .ok { d with nodes := providerTable nanos } := by
  have verified : providerReg.verify = .ok () := selfSigned_verify provider .cdn
  have plain : .rootAuthority ∉ providerReg.roles := by simp [providerReg, selfSigned]
  have named : providerReg.nodeId = provider.nodeId := rfl
  simp only [register, bind_eq_ok, rejectIf_eq_ok, exists_unit, exists_const, pure_eq_ok, empty]
  refine ⟨verified, fun both => plain both.1, ?_, ?_⟩
  · simp [maxNodes]
  · rw [named]
    simp [persist, providerEntry, providerTable]

/-- So it is registered when no call is in progress. -/
theorem step_provider_register {d : DirectoryState} (empty : d.nodes = ∅) (nanos : ℤ) :
    SharedDirectory.step none (ofDirectory d) (.register providerReg ⟨nanos⟩ false) =
      ofDirectory { d with nodes := providerTable nanos } := by
  have accepted := provider_register empty nanos
  simp only [SharedDirectory.step, ofDirectory, accepted]
  rfl

/-- The announcement passes where the node is registered. -/
theorem providerAnnounce_checked {d : DirectoryState} (held : provider.nodeId ∈ d.nodes) :
    d.checkAnnounce providerAnnounce = .ok () := by
  have verified : providerAnnounce.verify = .ok () :=
    BlockAnnounce.verify_signed signaturesVerify provider _ _
  have named : providerAnnounce.nodeId = provider.nodeId := rfl
  simp [checkAnnounce, verified, named, held]

/-- The entry is stale after a nanosecond. -/
theorem providerEntry_stale : isStale 0 ⟨1⟩ (providerEntry 0) = true := by
  decide +kernel

/-- The directory that has the node alone. -/
def providerDirectory : DirectoryState := ⟨providerTable 0, ∅, none⟩

/-- The node is registered in it. -/
theorem provider_registered : provider.nodeId ∈ providerDirectory.nodes := by
  simp [providerDirectory, providerTable]

/-- The node is dropped. -/
theorem provider_dropped : providerDirectory.dropStale 0 ⟨1⟩ = .new := by
  have none_left : (providerTable 0).filter (fun _ entry => !isStale 0 ⟨1⟩ entry) = ∅ := by
    apply Std.ExtTreeMap.ext_getElem?
    intro id
    rw [Std.ExtTreeMap.getElem?_filter', providerTable, Std.ExtTreeMap.getElem?_insert]
    by_cases same : compare provider.nodeId id = .eq
    · simp [same, providerEntry_stale]
    · simp [same]
  rw [dropStale, providerDirectory, none_left]
  rfl

/-- It is one of the stale nodes. -/
theorem provider_stale : provider.nodeId ∈ providerDirectory.staleIds 0 ⟨1⟩ := by
  rcases mem_dropStale_or providerDirectory 0 ⟨1⟩ provider_registered with stays | goes
  · rw [provider_dropped] at stays
    simp [DirectoryState.new] at stays
  · exact goes

/-- The node registers and is looked up for its announcement. -/
def lookup : List Acquisition := [.register providerReg ⟨0⟩ false, .check providerAnnounce]

/-- The announcement is between its two locks. -/
theorem run_lookup : run (SharedDirectory.step none) (ofDirectory .new) lookup =
    ⟨providerDirectory, [providerAnnounce], none⟩ := by
  have registered : SharedDirectory.step none (ofDirectory .new) (.register providerReg ⟨0⟩ false) =
      ofDirectory providerDirectory := step_provider_register rfl 0
  have checked := providerAnnounce_checked provider_registered
  rw [lookup, run_cons, registered]
  simp [SharedDirectory.step, ofDirectory, checked]

/-- Pruning drops the node. -/
theorem step_drop (announcing : List BlockAnnounce) :
    SharedDirectory.step none ⟨providerDirectory, announcing, none⟩ (.drop 0 ⟨1⟩) =
      ⟨.new, announcing, some (providerDirectory.staleIds 0 ⟨1⟩)⟩ := by
  have some_stale : providerDirectory.staleIds 0 ⟨1⟩ ≠ [] := List.ne_nil_of_mem provider_stale
  simp [SharedDirectory.step, provider_dropped, some_stale]

/-- Pruning comes between the two locks of the announcement. -/
def overtaken : List Acquisition := lookup ++ [.drop 0 ⟨1⟩, .scrub false, .insert 0]

/-- There are no lists to scrub, and the node is inserted afterwards. -/
theorem run_overtaken : run (SharedDirectory.step none) (ofDirectory .new) overtaken =
    ⟨DirectoryState.new.insertBlocks providerAnnounce, [], none⟩ := by
  have scrubbed (stale : List String) : DirectoryState.new.scrub stale false = .new := by
    have same : (((∅ : Table String (Finset String)).map fun _ ids => ids \ stale.toFinset).filter
        fun _ ids => ids ≠ ∅) = ∅ := by
      apply Std.ExtTreeMap.ext_getElem?
      intro hash
      simp
    rw [scrub, DirectoryState.new, same]
    rfl
  rw [overtaken, run_append, run_lookup, run_cons, step_drop]
  simp [SharedDirectory.step, scrubbed]

/-- The node is listed for the block. -/
theorem provider_listed (nodes : Table String TrackedNode) : Provides
    { DirectoryState.new.insertBlocks providerAnnounce with nodes } providedHash
      provider.nodeId := by
  have listed : DirectoryState.new.insertBlocks providerAnnounce |>.Provides providedHash
      provider.nodeId := by
    refine provides_insertBlocks.mpr (.inr ⟨rfl, ?_, isValidHash_hashBytes []⟩)
    exact List.mem_singleton_self providedHash
  exact listed

/-- An announcement that comes before the pruning is settled. -/
theorem lookup_settled : ProvidersConsistent none .new
    (lookup ++ [.insert 0, .drop 0 ⟨1⟩, .scrub false]) := by
  refine providersConsistent_of_settled (.inl rfl) ((guarded_append _ lookup _).mpr ⟨?_, ?_⟩)
  · exact ⟨trivial, trivial, trivial⟩
  · rw [run_lookup]
    refine ⟨trivial, trivial, fun stale pruning announce member => ?_, trivial⟩
    have none_left (s : SharedDirectory) (quiet : s.announcing = []) :
        (s.step none (.drop 0 ⟨1⟩)).announcing = [] := by
      rw [SharedDirectory.step]
      split
      · exact quiet
      · exact quiet
    have inserted : (SharedDirectory.step none ⟨providerDirectory, [providerAnnounce], none⟩
        (.insert 0)).announcing = [] := rfl
    rw [none_left _ inserted] at member
    exact absurd member List.not_mem_nil

/-- An announcement that pruning overtakes leaves a provider that is not registered, and that is
returned when the node registers again. -/
theorem overtaken_inconsistent : ¬ProvidersConsistent none .new overtaken ∧
    ¬ProvidersConsistent none .new (overtaken ++ [.register providerReg ⟨2⟩ false]) := by
  constructor
  · intro consistent
    have held := consistent.registered
    rw [run_overtaken] at held
    have registered := held ⟨rfl, rfl⟩ providedHash provider.nodeId (provider_listed _)
    simp [insertBlocks, DirectoryState.new] at registered
  · intro consistent
    have pruning : (run (SharedDirectory.step none) (ofDirectory .new)
        (lookup ++ [.drop 0 ⟨1⟩])).pruning = some (providerDirectory.staleIds 0 ⟨1⟩) := by
      rw [run_append, run_lookup, run_cons, step_drop]
      rfl
    have ends : run (SharedDirectory.step none) (ofDirectory .new)
        (overtaken ++ [.register providerReg ⟨2⟩ false]) = ofDirectory
          { DirectoryState.new.insertBlocks providerAnnounce with nodes := providerTable 2 } := by
      rw [run_append, run_overtaken]
      exact step_provider_register rfl 2
    have split : overtaken ++ [.register providerReg ⟨2⟩ false] = (lookup ++ [.drop 0 ⟨1⟩]) ++
        .scrub false :: [.insert 0, .register providerReg ⟨2⟩ false] := by simp [overtaken]
    have silent := consistent.forgotten _ _ _ _ providedHash provider.nodeId split pruning
      provider_stale
    refine silent ⟨?_, ?_, trivial⟩ none (providerEntry 2) ?_ rfl
    · rintro ⟨announce, same, -⟩
      cases same
    · rintro ⟨announce, same, -⟩
      cases same
    · rw [ends]
      refine mem_providersForBlock_iff.mpr ⟨⟨provider.nodeId, provider_listed _, ?_⟩, ?_, rfl⟩
      · exact Std.ExtTreeMap.getElem?_insert_self
      · simp [providerEntry]

end Federate.Reference
