import Federate.Verif.Life

/-!
# Single use of nonces

The nonces of a registry are a table of open challenges with their expiry, pruned whenever another
one is issued. Whatever happens besides, restarts included, a nonce is accepted exactly when it was
issued less than five minutes ago and no request has named it since.
-/

namespace Federate

open Outcome Stateful RegistryStore

/-- The time that an event reads for its nonce. -/
def RegistryEvent.time : RegistryEvent → Option DateTime
  | .nonce _ now => some now
  | .request arrival => some arrival.now
  | _ => none

/-- The event issues the nonce, or is a request with it. -/
def RegistryEvent.Names (nonce : String) : RegistryEvent → Prop
  | .nonce issued _ => issued = nonce
  | .request arrival => arrival.mutation.nonce = nonce
  | _ => False

/-- The nonce was last issued at this time, and no request has named it since. -/
def OpenSince (events : List RegistryEvent) (nonce : String) (issued : DateTime) : Prop :=
  ∃ before after, events = before ++ .nonce nonce issued :: after ∧
    ∀ event ∈ after, ¬event.Names nonce

/-- The seconds of a time are far from the ends of an `i64`, as those of every date are. -/
def DateTime.Dated (t : DateTime) : Prop := -2 ^ 62 ≤ t.timestamp ∧ t.timestamp < 2 ^ 62

/-! ## What is open -/

section Open

variable {events : List RegistryEvent} {nonce : String} {issued : DateTime}

theorem not_openSince_nil : ¬OpenSince [] nonce issued := by
  rintro ⟨before, after, split, -⟩
  have lengths := congrArg List.length split
  rw [List.length_append, List.length_cons, List.length_nil] at lengths
  omega

/-- One more event issues the nonce, or leaves it open if it does not name it. -/
theorem openSince_concat {event : RegistryEvent} :
    OpenSince (events ++ [event]) nonce issued ↔
      event = .nonce nonce issued ∨ ¬event.Names nonce ∧ OpenSince events nonce issued := by
  constructor
  · rintro ⟨before, after, split, unnamed⟩
    rcases List.eq_nil_or_concat after with rfl | ⟨rest, last, rfl⟩
    · have ends := List.append_inj_right' split rfl
      exact .inl (List.singleton_inj.mp ends)
    · have whole : events ++ [event] = (before ++ .nonce nonce issued :: rest) ++ [last] := by
        rw [split]
        simp
      have same : event = last := List.singleton_inj.mp (List.append_inj_right' whole rfl)
      have earlier := List.append_inj_left' whole rfl
      refine .inr ⟨same ▸ unnamed last (by simp), before, rest, earlier, ?_⟩
      exact fun other member => unnamed other (by simp [member])
  · rintro (rfl | ⟨other, before, after, rfl, unnamed⟩)
    · exact ⟨events, [], rfl, by simp⟩
    · refine ⟨before, after ++ [event], by simp, ?_⟩
      intro later member
      rcases List.mem_append.mp member with earlier | last
      · exact unnamed later earlier
      · rw [List.mem_singleton.mp last]
        exact other

end Open

/-! ## The table of nonces -/

section Table

/-- A program that is blind to the nonces keeps them. -/
theorem Blind.nonces {α : Type} {program : StoreM α} (blind : Blind program) (s : RegistryStore) :
    (exec program s).2.database.nonces = s.database.nonces := by
  have ran := blind s s.database.nonces
  have same : s.withNonces s.database.nonces = s := rfl
  rw [same] at ran
  rw [ran]
  rfl

variable [Externals] [SerdeJson] (a : Authority) (s : RegistryStore)

/-- Opening a directory reads its database and does not change it. -/
theorem openDir_database {key : String} {opened : RegistryStore}
    (opens : openDir s.dir key = .ok opened) : opened.database = s.database := by
  simp only [openDir, RegistryStore.dir, bind_eq_ok, okOr_eq_ok, Option.some.injEq,
    exists_eq_left', exists_unit] at opens
  obtain ⟨-, -, ⟨version, bytes⟩, -, zone, -, -, -, -, loads⟩ := opens
  cases stored : s.database.registryMetadata["state_hash"]? with
  | none =>
    simp only [stored, bind_eq_ok, pure_eq_ok] at loads
    obtain ⟨-, -, -, -, -, -, rfl⟩ := loads
    rfl
  | some hash =>
    simp only [stored, bind_eq_ok, pure_eq_ok, exists_unit] at loads
    obtain ⟨-, -, -, -, -, -, -, rfl⟩ := loads
    rfl

/-- A request leaves the nonces without its own. -/
theorem Authority.answer_nonces (r : Arrival) :
    (a.answer s r).2.database.nonces = s.database.nonces.erase r.mutation.nonce := by
  rw [a.answer_eq]
  simp only
  cases (s.database.consumeNonce r.mutation.nonce (Int64.ofInt r.now.timestamp)).1 with
  | false => rfl
  | true =>
    have kept := (blind_storeContent r.content .ok).nonces
      (s.withNonces (s.database.nonces.erase r.mutation.nonce))
    simp only
    cases stored : exec (storeContent r.content .ok)
        (s.withNonces (s.database.nonces.erase r.mutation.nonce)) with
    | mk outcome s' =>
      rw [stored] at kept
      cases outcome with
      | error e => exact kept
      | ok done =>
        have applied : (a.applyTo r.call s').2.database.nonces = s'.database.nonces :=
          (blind_apply r.mutation (a.context r.call) r.clock .ok).nonces s'
        simp only
        cases ran : a.applyTo r.call s' with
        | mk outcome s'' =>
          rw [ran] at applied
          cases outcome <;> exact applied.trans kept

/-- The nonces after an event. -/
theorem Authority.live_nonces (event : RegistryEvent) :
    (a.live s event).database.nonces = match event with
      | .nonce nonce now =>
        (s.database.reserveNonce nonce (Int64.ofInt now.timestamp + nonceTtlSecs)).nonces
      | .request arrival => s.database.nonces.erase arrival.mutation.nonce
      | _ => s.database.nonces := by
  cases event with
  | nonce nonce now => rfl
  | request arrival => exact a.answer_nonces s arrival
  | seed arrival => exact (blind_apply _ _ _ _).nonces s
  | restart =>
    rw [live]
    cases opens : openDir s.dir a.root.nodeId with
    | error e => rfl
    | ok opened => exact congrArg RedbTables.nonces (openDir_database s opens)

end Table

/-! ## Lives -/

section Lives

variable [Externals] [SerdeJson] {a : Authority} {s : RegistryStore}

/-- The expiry of a nonce issued at a time. -/
def expiry (issued : DateTime) : Int64 := Int64.ofInt issued.timestamp + nonceTtlSecs

omit [Externals] [SerdeJson] in
theorem toInt_seconds {t : DateTime} (dated : t.Dated) :
    (Int64.ofInt t.timestamp).toInt = t.timestamp := by
  have low := dated.1
  have high := dated.2
  exact Int64.toInt_ofInt_of_le (by omega) (by omega)

omit [Externals] [SerdeJson] in
theorem toInt_expiry {t : DateTime} (dated : t.Dated) :
    (expiry t).toInt = t.timestamp + 300 := by
  have low := dated.1
  have high := dated.2
  have ttl : nonceTtlSecs = Int64.ofInt 300 := rfl
  rw [expiry, ttl, ← Int64.ofInt_add]
  exact Int64.toInt_ofInt_of_le (by omega) (by omega)

omit [Externals] [SerdeJson] in
theorem toInt_horizon {t : DateTime} (dated : t.Dated) :
    (expiry t - 2 * nonceTtlSecs).toInt = t.timestamp - 300 := by
  have low := dated.1
  have high := dated.2
  have ttl : nonceTtlSecs = Int64.ofInt 300 := rfl
  have twice : 2 * nonceTtlSecs = Int64.ofInt 600 := rfl
  rw [twice, expiry, ttl, ← Int64.ofInt_add, ← Int64.ofInt_sub]
  rw [Int64.toInt_ofInt_of_le (by omega) (by omega)]
  omega

/-- What the table of nonces holds of a nonce after some events: its expiry if it is open, unless it
was pruned long after that. -/
structure Tracks (events : List RegistryEvent) (nonces : Table String Int64) (nonce : String) :
    Prop where
  /-- A nonce of the table is open. -/
  sound : ∀ expires, nonces[nonce]? = some expires →
    ∃ issued, OpenSince events nonce issued ∧ expires = expiry issued
  /-- An open nonce is in the table, or a nonce was issued five minutes after it expired. -/
  complete : ∀ issued, OpenSince events nonce issued → nonces[nonce]? = some (expiry issued) ∨
    ∃ event ∈ events, ∃ later, event.time = some later ∧
      issued.timestamp + 600 < later.timestamp

/-- Every time that the events read is a date. -/
def Dated (events : List RegistryEvent) : Prop :=
  ∀ event ∈ events, ∀ t, event.time = some t → t.Dated

omit [Externals] [SerdeJson] in
/-- An open nonce was issued by an event. -/
theorem OpenSince.member {events : List RegistryEvent} {nonce : String} {issued : DateTime}
    (since : OpenSince events nonce issued) : .nonce nonce issued ∈ events := by
  obtain ⟨before, after, rfl, -⟩ := since
  exact List.mem_append_right _ List.mem_cons_self

omit [Externals] [SerdeJson] in
/-- Issuing another nonce keeps a nonce in the table, or prunes it five minutes after it expired. -/
theorem reserveNonce_other {t : RedbTables} {nonce other : String} {now : DateTime}
    (differ : other ≠ nonce) (dated : now.Dated) :
    (t.reserveNonce other (expiry now)).nonces[nonce]? = t.nonces[nonce]? ∨
      (t.reserveNonce other (expiry now)).nonces[nonce]? = none ∧
        ∀ issued, issued.Dated → t.nonces[nonce]? = some (expiry issued) →
          issued.timestamp + 600 < now.timestamp := by
  have absent : ¬compare other nonce = .eq := by simpa using differ
  have found : (t.reserveNonce other (expiry now)).nonces[nonce]? =
      t.nonces[nonce]?.filter fun expires => !(expires < expiry now - 2 * nonceTtlSecs) := by
    simp only [RedbTables.reserveNonce]
    rw [Std.ExtTreeMap.getElem?_insert, if_neg absent, Std.ExtTreeMap.getElem?_filter']
  rw [found]
  cases held : t.nonces[nonce]? with
  | none => exact .inl rfl
  | some expires =>
    by_cases pruned : expires < expiry now - 2 * nonceTtlSecs
    · refine .inr ⟨by simp [pruned], ?_⟩
      intro issued issuedDated same
      have earlier := Int64.lt_iff_toInt_lt.mp (Option.some.inj same ▸ pruned)
      rw [toInt_horizon dated, toInt_expiry issuedDated] at earlier
      omega
    · exact .inl (by simp [pruned])

omit [Externals] [SerdeJson] in
/-- Another event that leaves the entry of a nonce alone. -/
theorem Tracks.kept {events : List RegistryEvent} {event : RegistryEvent} {nonce : String}
    {nonces nonces' : Table String Int64} (tracks : Tracks events nonces nonce)
    (other : ¬event.Names nonce) (same : nonces'[nonce]? = nonces[nonce]?) :
    Tracks (events ++ [event]) nonces' nonce where
  sound expires found := by
    obtain ⟨issued, since, own⟩ := tracks.sound expires (same ▸ found)
    exact ⟨issued, openSince_concat.mpr (.inr ⟨other, since⟩), own⟩
  complete issued since := by
    rcases openSince_concat.mp since with rfl | ⟨-, earlier⟩
    · exact absurd rfl other
    · rcases tracks.complete issued earlier with held | ⟨late, member, pruned⟩
      · exact .inl (same.trans held)
      · exact .inr ⟨late, List.mem_append_left _ member, pruned⟩

/-- What the table of nonces holds of a nonce, after one more event. -/
theorem Tracks.step {events : List RegistryEvent} {event : RegistryEvent} {nonce : String}
    (tracks : Tracks events s.database.nonces nonce) (dated : Dated (events ++ [event])) :
    Tracks (events ++ [event]) (a.live s event).database.nonces nonce := by
  have kept : ¬event.Names nonce →
      (a.live s event).database.nonces[nonce]? = s.database.nonces[nonce]? →
      Tracks (events ++ [event]) (a.live s event).database.nonces nonce :=
    fun other same => tracks.kept other same
  rw [a.live_nonces] at kept ⊢
  cases event with
  | seed | restart => exact kept id rfl
  | request arrival =>
    by_cases own : arrival.mutation.nonce = nonce
    · refine ⟨fun expires found => ?_, fun issued since => ?_⟩
      · simp [own] at found
      · rcases openSince_concat.mp since with same | ⟨other, -⟩
        · cases same
        · exact absurd own other
    · have absent : ¬compare arrival.mutation.nonce nonce = .eq := by simpa using own
      apply kept own
      rw [Std.ExtTreeMap.getElem?_erase, if_neg absent]
  | nonce other now =>
    have nowDated : now.Dated := dated (.nonce other now) (by simp) now rfl
    by_cases own : other = nonce
    · subst own
      have inserted : (s.database.reserveNonce other (expiry now)).nonces[other]? =
          some (expiry now) := Std.ExtTreeMap.getElem?_insert_self
      refine ⟨fun expires found => ?_, fun issued since => ?_⟩
      · exact ⟨now, openSince_concat.mpr (.inl rfl), Option.some.inj (found.symm.trans inserted)⟩
      · rcases openSince_concat.mp since with same | ⟨unnamed, -⟩
        · cases same
          exact .inl inserted
        · exact absurd rfl unnamed
    · rcases reserveNonce_other (t := s.database) own nowDated with same | ⟨gone, late⟩
      · exact kept own same
      · refine ⟨fun expires found => ?_, fun issued since => ?_⟩
        · cases gone.symm.trans found
        · right
          rcases openSince_concat.mp since with same | ⟨-, earlier⟩
          · cases same
            exact absurd rfl own
          · have listed : .nonce nonce issued ∈ events ++ [.nonce other now] :=
              List.mem_append_left _ earlier.member
            have issuedDated : issued.Dated := dated _ listed issued rfl
            rcases tracks.complete issued earlier with held | ⟨before, member, pruned⟩
            · exact ⟨.nonce other now, by simp, now, rfl, late issued issuedDated held⟩
            · exact ⟨before, List.mem_append_left _ member, pruned⟩

/-- What the table of nonces holds after a life that begins with no nonces. -/
theorem tracks_run (fresh : s.database.nonces = ∅) {events : List RegistryEvent}
    (dated : Dated events) (nonce : String) :
    Tracks events (Transition.run a.live s events).database.nonces nonce := by
  induction events using List.reverseRecOn with
  | nil =>
    refine ⟨fun expires found => ?_, fun issued since => absurd since not_openSince_nil⟩
    rw [Transition.run_nil, fresh] at found
    cases found
  | append_singleton events event ih =>
    have earlier : Dated events := fun event member =>
      dated event (List.mem_append_left _ member)
    rw [Transition.run_append]
    exact (ih earlier).step dated

omit [SerdeJson] in
/-- A new registry has issued no nonces. -/
theorem nonces_initial {dir : RegistryDir} {started : DateTime} {io : StorageIo}
    (returned : initEmptyRegistry dir a.root started io = .ok s) : s.database.nonces = ∅ := by
  obtain ⟨-, -, rfl⟩ := initEmptyRegistry_eq_ok returned
  rfl

omit [Externals] [SerdeJson] in
/-- An open nonce is valid until its expiry. -/
theorem OpenSince.valid_iff {events : List RegistryEvent} {nonce : String} {issued now : DateTime}
    (since : OpenSince events nonce issued) (dated : Dated events) (nowDated : now.Dated) :
    Int64.ofInt now.timestamp < expiry issued ↔ now.timestamp < issued.timestamp + 300 := by
  have issuedDated : issued.Dated := dated _ since.member issued rfl
  rw [Int64.lt_iff_toInt_lt, toInt_seconds nowDated, toInt_expiry issuedDated]

/-- A nonce that is valid is open and has not expired. -/
theorem open_of_consumed (fresh : s.database.nonces = ∅) {events : List RegistryEvent}
    (dated : Dated events) {now : DateTime} (nowDated : now.Dated) {nonce : String}
    (consumed : ((Transition.run a.live s events).database.consumeNonce nonce
      (Int64.ofInt now.timestamp)).1 = true) :
    ∃ issued, OpenSince events nonce issued ∧ now.timestamp < issued.timestamp + 300 := by
  have tracks := tracks_run (a := a) fresh dated nonce
  rw [RedbTables.consumeNonce] at consumed
  cases found : (Transition.run a.live s events).database.nonces[nonce]? with
  | none => simp [found] at consumed
  | some expires =>
    obtain ⟨issued, since, rfl⟩ := tracks.sound expires found
    simp only [found, decide_eq_true_eq] at consumed
    exact ⟨issued, since, (since.valid_iff dated nowDated).mp consumed⟩

/-- Nonces are single-use challenges: throughout the life of a server, whatever restarts it has had,
a nonce is valid exactly when it was issued less than five minutes ago and no request has named it
since. -/
theorem nonce_valid_iff {dir : RegistryDir} {started : DateTime} {io : StorageIo}
    (returned : initEmptyRegistry dir a.root started io = .ok s) {events : List RegistryEvent}
    (dated : Dated events) {now : DateTime} (nowDated : now.Dated)
    (steady : ∀ event ∈ events, ∀ t, event.time = some t → t.timestamp ≤ now.timestamp + 300)
    (nonce : String) :
    ((Transition.run a.live s events).database.consumeNonce nonce
        (Int64.ofInt now.timestamp)).1 = true ↔
      ∃ issued, OpenSince events nonce issued ∧ now.timestamp < issued.timestamp + 300 := by
  have fresh := nonces_initial returned
  have tracks := tracks_run (a := a) fresh dated nonce
  constructor
  · exact open_of_consumed fresh dated nowDated
  · rintro ⟨issued, since, early⟩
    rw [RedbTables.consumeNonce]
    rcases tracks.complete issued since with held | ⟨event, member, later, reads, pruned⟩
    · simp only [held, decide_eq_true_eq]
      exact (since.valid_iff dated nowDated).mpr early
    · have bound := steady event member later reads
      omega

/-- An accepted request has consumed its nonce. -/
theorem Authority.acceptance_consumed {r : Arrival} {entry : Acceptance}
    (accepted : a.acceptance s (.request r) = some entry) :
    (s.database.consumeNonce r.mutation.nonce (Int64.ofInt r.now.timestamp)).1 = true := by
  rw [acceptance, a.answer_eq] at accepted
  cases consumed : (s.database.consumeNonce r.mutation.nonce
      (Int64.ofInt r.now.timestamp)).1 with
  | true => rfl
  | false =>
    simp only [consumed] at accepted
    cases accepted

omit [Externals] [SerdeJson] in
/-- A nonce that is open behind a request that named it was issued behind that request. -/
theorem OpenSince.reissued {before between : List RegistryEvent} {r : Arrival} {issued : DateTime}
    (since : OpenSince (before ++ .request r :: between) r.mutation.nonce issued) :
    .nonce r.mutation.nonce issued ∈ between := by
  obtain ⟨earlier, after, split, unnamed⟩ := since
  rcases List.append_eq_append_iff.mp split with ⟨middle, rfl, rest⟩ | ⟨middle, rfl, rest⟩
  · cases middle with
    | nil => cases (List.cons.inj rest).1
    | cons head middle =>
      rw [List.cons_append] at rest
      rw [(List.cons.inj rest).2]
      exact List.mem_append_right _ List.mem_cons_self
  · cases middle with
    | nil => cases (List.cons.inj rest).1
    | cons head middle =>
      rw [List.cons_append] at rest
      have named : .request r ∈ after := by
        rw [(List.cons.inj rest).2]
        exact List.mem_append_right _ List.mem_cons_self
      exact absurd rfl (unnamed _ named)

/-- Every accepted request of a life answers a challenge of its own: its nonce was issued less than
five minutes before, and behind every earlier request with that nonce. -/
theorem accepted_challenged {dir : RegistryDir} {started : DateTime} {io : StorageIo}
    (returned : initEmptyRegistry dir a.root started io = .ok s) {before : List RegistryEvent}
    {r : Arrival} (dated : Dated (before ++ [.request r])) {entry : Acceptance}
    (accepted : a.acceptance (Transition.run a.live s before) (.request r) = some entry) :
    ∃ issued, .nonce r.mutation.nonce issued ∈ before ∧
      r.now.timestamp < issued.timestamp + 300 ∧
      ∀ first between earlier, before = first ++ .request earlier :: between →
        earlier.mutation.nonce = r.mutation.nonce → .nonce r.mutation.nonce issued ∈ between := by
  have past : Dated before := fun event member => dated event (List.mem_append_left _ member)
  have nowDated : r.now.Dated := dated (.request r) (by simp) r.now rfl
  obtain ⟨issued, since, early⟩ := open_of_consumed (nonces_initial returned) past nowDated
    (Authority.acceptance_consumed accepted)
  refine ⟨issued, since.member, early, ?_⟩
  intro first between earlier split same
  rw [split, ← same] at since
  exact same ▸ since.reissued

end Lives

end Federate

namespace Federate.Reference

open Outcome Stateful RegistryStore

/-- A nonce of the new registry is valid 299 seconds after it was issued, behind a restart. -/
theorem fresh_nonce_valid :
    ((Transition.run authority.live start [.nonce "n" ⟨0⟩, .restart]).database.consumeNonce "n"
        (Int64.ofInt (⟨299 * 10 ^ 9⟩ : DateTime).timestamp)).1 = true ↔
      ∃ issued, OpenSince [.nonce "n" ⟨0⟩, .restart] "n" issued ∧
        (⟨299 * 10 ^ 9⟩ : DateTime).timestamp < issued.timestamp + 300 := by
  have times : ∀ event ∈ [RegistryEvent.nonce "n" ⟨0⟩, .restart], ∀ t, event.time = some t →
      t = ⟨0⟩ := by
    intro event member t reads
    rcases List.mem_cons.mp member with rfl | member
    · exact (Option.some.inj reads).symm
    · rw [List.mem_singleton.mp member] at reads
      cases reads
  refine nonce_valid_iff initialized (fun event member t reads => ?_) ⟨by decide, by decide⟩ ?_ "n"
  · rw [times event member t reads]
    exact ⟨by decide, by decide⟩
  · intro event member t reads
    rw [times event member t reads]
    decide

/-- A request whose nonce is valid is accepted when its content is stored and `apply` accepts it. -/
theorem acceptance_of_accepts {s s' : RegistryStore} {nonces : Table String Int64} {r : Arrival}
    {event : AuditRecord} (stored : exec (storeContent r.content .ok) s = (.ok (), s'))
    (held : ∃ expires, nonces[r.mutation.nonce]? = some expires ∧
      Int64.ofInt r.now.timestamp < expires) (accepted : authority.Accepts s' r.call event) :
    ∃ entry nonces', authority.acceptance (s.withNonces nonces) (.request r) = some entry ∧
      authority.live (s.withNonces nonces) (.request r) =
        (authority.step s' (.apply r.call)).withNonces nonces' := by
  obtain ⟨expires, found, early⟩ := held
  have consumed : ((s.withNonces nonces).database.consumeNonce r.mutation.nonce
      (Int64.ofInt r.now.timestamp)).1 = true := by
    have held : (s.withNonces nonces).database.nonces[r.mutation.nonce]? = some expires := found
    simp only [RedbTables.consumeNonce, held, early, decide_true]
  have opened : (s.withNonces nonces).withNonces
      ((s.withNonces nonces).database.nonces.erase r.mutation.nonce) =
        s.withNonces (nonces.erase r.mutation.nonce) := rfl
  have kept : exec (storeContent r.content .ok) (s.withNonces (nonces.erase r.mutation.nonce)) =
      (.ok (), s'.withNonces (nonces.erase r.mutation.nonce)) := by
    rw [blind_storeContent, stored]
  have outcome : (authority.applyTo r.call s').1 = .ok event := accepted
  rw [Authority.acceptance, Authority.live, authority.answer_eq, consumed, opened]
  simp only [kept, authority.applyTo_withNonces, outcome]
  exact ⟨_, _, rfl, rfl⟩

/-- A nonce that was just issued is in the table. -/
theorem live_nonce (s : RegistryStore) (nonce : String) (now : DateTime) :
    authority.live s (.nonce nonce now) =
      s.withNonces (s.database.reserveNonce nonce (expiry now)).nonces := rfl

/-- The registry that issued a nonce accepts the creation of `foo` with it. -/
theorem arrivalFoo_accepted : ∃ entry, authority.acceptance
    (Transition.run authority.live start [.nonce arrivalFoo.mutation.nonce ⟨0⟩])
      (.request arrivalFoo) = some entry := by
  obtain ⟨event, accepted⟩ := stage_foo.1
  have opened : ∃ expires, (start.database.reserveNonce arrivalFoo.mutation.nonce
      (expiry ⟨0⟩)).nonces[arrivalFoo.mutation.nonce]? = some expires ∧
        Int64.ofInt arrivalFoo.now.timestamp < expires :=
    ⟨expiry ⟨0⟩, Std.ExtTreeMap.getElem?_insert_self, by decide⟩
  have bare : exec (storeContent arrivalFoo.content .ok) start = (.ok (), start) := rfl
  have same : arrivalFoo.call = createFoo := rfl
  rw [← same] at accepted
  obtain ⟨entry, nonces', took, -⟩ := acceptance_of_accepts bare opened accepted
  rw [Transition.run_cons, Transition.run_nil, live_nonce]
  exact ⟨entry, took⟩

/-- The creation of `foo` answers the challenge issued for it. -/
theorem arrivalFoo_challenged :
    ∃ issued, .nonce arrivalFoo.mutation.nonce issued ∈
        [RegistryEvent.nonce arrivalFoo.mutation.nonce ⟨0⟩] ∧
      arrivalFoo.now.timestamp < issued.timestamp + 300 ∧
      ∀ first between earlier, [RegistryEvent.nonce arrivalFoo.mutation.nonce ⟨0⟩] =
          first ++ .request earlier :: between →
        earlier.mutation.nonce = arrivalFoo.mutation.nonce →
          .nonce arrivalFoo.mutation.nonce issued ∈ between := by
  obtain ⟨entry, accepted⟩ := arrivalFoo_accepted
  refine accepted_challenged initialized ?_ accepted
  intro event member t reads
  have zero : t = ⟨0⟩ := by
    rcases List.mem_cons.mp member with rfl | member
    · exact (Option.some.inj reads).symm
    · rw [List.mem_singleton.mp member] at reads
      exact (Option.some.inj reads).symm
  rw [zero]
  exact ⟨by decide, by decide⟩

end Federate.Reference
