import Federate.Verif.Restart

/-!
# The record tables

The cross-check of the record tables compares the number of rows with the number of records, and
of each row the name and the signature. A table that passes mirrors the zone exactly when every
row stands under the key of the record it was compared with, and says about it what the record
says.
-/

namespace Federate

open Outcome Stateful RegistryStore

/-! ## One table -/

section Table

variable {α : Type} (decode : Bytes → Except String α) (name : α → String)
  (signature : α → Option String)

/-- The table holds exactly the records: under every key, the row reads as the record. -/
def HoldsExactly (rows : Table String Bytes) (records : Table String α) : Prop :=
  ∀ k : String, rows[k]?.map decode = records[k]?.map Except.ok

/-- The check of one table: as many rows as records, and for every row a record of its name with
its signature. -/
def RowsMatch (rows : Table String Bytes) (records : Table String α) : Prop :=
  ∃ read, Rows.readAll decode rows = .ok read ∧ read.length = records.size ∧
    ∀ r ∈ read, ∃ z, records[name r]? = some z ∧ signature z = signature r

/-- Every row stands under a key at which there is a record. -/
def RowsFiled (rows : Table String Bytes) (records : Table String α) : Prop :=
  ∀ k : String, k ∈ rows → k ∈ records

/-- A row agrees with the record under its key in all fields but the signature, and in the signature
too where that record is not the one of the row's name, with which the check compares it. -/
def RowsIntact (rows : Table String Bytes) (records : Table String α) : Prop :=
  ∀ (k : String) (row : Bytes) (r z : α), rows[k]? = some row → decode row = .ok r →
    records[k]? = some z → (records[name r]? = some z → signature z = signature r) → r = z

/-- Every row stands under its own name, and agrees with the record of that name in all fields but
the signature. -/
def RowsOwn (rows : Table String Bytes) (records : Table String α) : Prop :=
  ∀ (k : String) (row : Bytes) (r : α), rows[k]? = some row → decode row = .ok r →
    name r = k ∧ ∀ z, records[k]? = some z → signature z = signature r → r = z

variable {decode name signature} {rows : Table String Bytes} {records : Table String α}

/-- The row under a key of an exact table reads as the record under that key. -/
theorem HoldsExactly.record (exact : HoldsExactly decode rows records) {k : String} {row : Bytes}
    {r : α} (held : rows[k]? = some row) (reads : decode row = .ok r) : records[k]? = some r := by
  have here := exact k
  rw [held, Option.map_some, reads] at here
  cases found : records[k]? with
  | none => simp [found] at here
  | some z =>
    rw [found, Option.map_some] at here
    exact congrArg some (Except.ok.inj (Option.some.inj here)).symm

/-- The rows of an exact table are filed. -/
theorem HoldsExactly.filed (exact : HoldsExactly decode rows records) :
    RowsFiled rows records := by
  intro k member
  obtain ⟨row, held⟩ := Option.isSome_iff_exists.mp
    (Std.ExtTreeMap.mem_iff_isSome_getElem?.mp member)
  have here := exact k
  rw [held, Option.map_some] at here
  rw [Std.ExtTreeMap.mem_iff_isSome_getElem?]
  cases found : records[k]? with
  | some z => rfl
  | none => simp [found] at here

/-- The rows of an exact table are intact. -/
theorem HoldsExactly.intact (exact : HoldsExactly decode rows records) :
    RowsIntact decode name signature rows records := by
  intro k row r z held reads found _
  have here := exact.record held reads
  exact Option.some.inj (here.symm.trans found)

/-- A table that passes its check is exact when its rows are filed and intact: what the check
compared is the rest of every row, and there are as many rows as records. -/
theorem RowsMatch.exact (passes : RowsMatch decode name signature rows records)
    (filed : RowsFiled rows records) (intact : RowsIntact decode name signature rows records) :
    HoldsExactly decode rows records := by
  obtain ⟨read, reads, many, signed⟩ := passes
  have own : ∀ (k : String) (row : Bytes), rows[k]? = some row →
      ∃ r, decode row = .ok r ∧ records[k]? = some r := by
    intro k row held
    obtain ⟨r, among, decodes⟩ := Rows.exists_of_readAll reads held
    have member : k ∈ rows := Std.ExtTreeMap.mem_iff_isSome_getElem?.mpr (by simp [held])
    obtain ⟨z, found⟩ := Option.isSome_iff_exists.mp
      (Std.ExtTreeMap.mem_iff_isSome_getElem?.mp (filed k member))
    have compared : records[name r]? = some z → signature z = signature r := by
      intro named
      obtain ⟨z', named', equal⟩ := signed r among
      rw [Option.some.inj (named.symm.trans named'), equal]
    have same : r = z := intact k row r z held decodes found compared
    exact ⟨r, decodes, same ▸ found⟩
  have sizes : rows.size = records.size := (Rows.length_of_readAll reads).symm.trans many
  intro k
  cases held : rows[k]? with
  | some row =>
    obtain ⟨r, decodes, found⟩ := own k row held
    simp [decodes, found]
  | none =>
    cases found : records[k]? with
    | none => rfl
    | some z =>
      have listed : k ∈ records := Std.ExtTreeMap.mem_iff_isSome_getElem?.mpr (by simp [found])
      have member := Rows.mem_of_size_eq filed sizes listed
      simp [Std.ExtTreeMap.mem_iff_isSome_getElem?, held] at member

/-- A table that passes its check is exact if and only if its rows are filed and intact. -/
theorem RowsMatch.exact_iff (passes : RowsMatch decode name signature rows records) :
    HoldsExactly decode rows records ↔ RowsFiled rows records ∧
      RowsIntact decode name signature rows records :=
  ⟨fun exact => ⟨exact.filed, exact.intact⟩, fun sound => passes.exact sound.1 sound.2⟩

/-- Over records that stand under their names, a table that passes its check is exact if and only if
every row stands under its own name and agrees with the record of that name once their signatures
agree. -/
theorem RowsMatch.exact_iff_named (passes : RowsMatch decode name signature rows records)
    (keyed : Rows.Keyed name records) :
    HoldsExactly decode rows records ↔ RowsOwn decode name signature rows records := by
  constructor
  · intro exact k row r held decodes
    have found := exact.record held decodes
    exact ⟨keyed k r found, fun z here _ => Option.some.inj (found.symm.trans here)⟩
  · intro own
    refine passes.exact (fun k member => ?_) fun k row r z held decodes found compared => ?_
    · obtain ⟨read, reads, -, signed⟩ := passes
      obtain ⟨row, held⟩ := Option.isSome_iff_exists.mp
        (Std.ExtTreeMap.mem_iff_isSome_getElem?.mp member)
      obtain ⟨r, among, decodes⟩ := Rows.exists_of_readAll reads held
      obtain ⟨z, found, -⟩ := signed r among
      rw [(own k row r held decodes).1] at found
      exact Std.ExtTreeMap.mem_iff_isSome_getElem?.mpr (by simp [found])
    · obtain ⟨named, agrees⟩ := own k row r held decodes
      exact agrees z found (compared (named.symm ▸ found))

/-- Rows that were written from the records hold exactly the records. -/
theorem holdsExactly_encoded {encode : α → Bytes}
    (inverts : ∀ (k : String) (r : α), records[k]? = some r → decode (encode r) = .ok r) :
    HoldsExactly decode (Rows.encoded encode records) records := by
  intro k
  rw [Rows.encoded_getElem?]
  cases found : records[k]? with
  | none => rfl
  | some r => simp [inverts k r found]

/-- A record looked up under the name of a row, compared with the row by signature. -/
theorem compares_iff {found : Option α} {own : Option String} :
    ¬(found.map fun z => decide (signature z ≠ own)).getD true = true ↔
      ∃ z, found = some z ∧ signature z = own := by
  cases found <;> simp

end Table

/-! ## The tables of a registry -/

variable [Externals] [SerdeJson]

namespace RegistryStore

/-- Both record tables hold exactly the records of the zone. -/
structure TablesExact (s : RegistryStore) : Prop where
  /-- `tld_records`. -/
  tlds : HoldsExactly SerdeJson.tldRecord s.database.tldRecords s.zone.tlds
  /-- `domain_records`. -/
  domains : HoldsExactly SerdeJson.domainRecord s.database.domainRecords s.zone.domains

/-- What the cross-check does not look at: the keys of the rows, and every field of a row beside
its signature. -/
structure TablesSound (s : RegistryStore) : Prop where
  /-- The rows of `tld_records` are filed. -/
  tldsFiled : RowsFiled s.database.tldRecords s.zone.tlds
  /-- The rows of `tld_records` are intact. -/
  tldsIntact : RowsIntact SerdeJson.tldRecord TldRecord.tld TldRecord.signature
    s.database.tldRecords s.zone.tlds
  /-- The rows of `domain_records` are filed. -/
  domainsFiled : RowsFiled s.database.domainRecords s.zone.domains
  /-- The rows of `domain_records` are intact. -/
  domainsIntact : RowsIntact SerdeJson.domainRecord DomainRecord.domain DomainRecord.signature
    s.database.domainRecords s.zone.domains

omit [Externals] in
/-- The cross-check passes exactly when both tables pass their check. -/
theorem verifyTables_eq_ok {s : RegistryStore} : s.verifyTables = .ok () ↔
    RowsMatch SerdeJson.tldRecord TldRecord.tld TldRecord.signature
        s.database.tldRecords s.zone.tlds ∧
      RowsMatch SerdeJson.domainRecord DomainRecord.domain DomainRecord.signature
        s.database.domainRecords s.zone.domains := by
  simp only [verifyTables, bind_eq_ok, rejectIf_eq_ok, exists_const, not_or, List.any_eq_true,
    not_exists, not_and, compares_iff, not_not, ne_eq, RedbTables.listTlds,
    RedbTables.listDomains, serde_eq_ok, RootZone.lookupTld, RootZone.lookup]
  constructor
  · intro h
    obtain ⟨tlds, readsTlds, ⟨tldsMany, tldsSigned⟩, domains, readsDomains, domainsMany,
      domainsSigned⟩ := h
    exact ⟨⟨tlds, readsTlds, tldsMany, tldsSigned⟩, domains, readsDomains, domainsMany,
      domainsSigned⟩
  · intro h
    obtain ⟨⟨tlds, readsTlds, tldsMany, tldsSigned⟩, domains, readsDomains, domainsMany,
      domainsSigned⟩ := h
    exact ⟨tlds, readsTlds, ⟨tldsMany, tldsSigned⟩, domains, readsDomains, domainsMany,
      domainsSigned⟩

omit [Externals] in
/-- For every registry whose tables pass the cross-check, whatever their rows: the tables hold
exactly the records of the zone if and only if every row stands under a key at which the zone has
a record, and agrees with that record in all fields that the cross-check does not compare. -/
theorem tablesExact_iff_sound {s : RegistryStore} (passes : s.verifyTables = .ok ()) :
    s.TablesExact ↔ s.TablesSound := by
  obtain ⟨tlds, domains⟩ := verifyTables_eq_ok.mp passes
  constructor
  · intro exact
    obtain ⟨tldsFiled, tldsIntact⟩ := tlds.exact_iff.mp exact.tlds
    obtain ⟨domainsFiled, domainsIntact⟩ := domains.exact_iff.mp exact.domains
    exact ⟨tldsFiled, tldsIntact, domainsFiled, domainsIntact⟩
  · intro sound
    exact ⟨tlds.exact_iff.mpr ⟨sound.tldsFiled, sound.tldsIntact⟩,
      domains.exact_iff.mpr ⟨sound.domainsFiled, sound.domainsIntact⟩⟩

omit [Externals] in
/-- When the zone's records stand under their names, tables that pass the cross-check are exact if
and only if every row stands under its own name and agrees there with the record in all fields but
the signature. -/
theorem tablesExact_iff_own {s : RegistryStore} (named : ZoneNamed s.zone)
    (passes : s.verifyTables = .ok ()) :
    s.TablesExact ↔
      RowsOwn SerdeJson.tldRecord TldRecord.tld TldRecord.signature s.database.tldRecords
          s.zone.tlds ∧
        RowsOwn SerdeJson.domainRecord DomainRecord.domain DomainRecord.signature
          s.database.domainRecords s.zone.domains := by
  obtain ⟨tlds, domains⟩ := verifyTables_eq_ok.mp passes
  have tldsOwn := tlds.exact_iff_named fun k r found => (named.tlds k r found).1
  have domainsOwn := domains.exact_iff_named fun k r found => (named.domains k r found).1
  constructor
  · intro exact
    exact ⟨tldsOwn.mp exact.tlds, domainsOwn.mp exact.domains⟩
  · intro ⟨ownTlds, ownDomains⟩
    exact ⟨tldsOwn.mpr ownTlds, domainsOwn.mpr ownDomains⟩

end RegistryStore

/-- The tables of a restorable registry hold exactly the records of its zone. -/
theorem Restorable.tablesExact {P : Value → Prop} {a : Authority} {s : RegistryStore}
    (reads : ReadsBack P) (restorable : Restorable P a s) : s.TablesExact where
  tlds := by
    rw [restorable.settled.mirrors.tlds]
    exact holdsExactly_encoded fun k r held =>
      reads.tldRecord r (restorable.zoneValues.tlds k r held)
  domains := by
    rw [restorable.settled.mirrors.domains]
    exact holdsExactly_encoded fun k r held =>
      reads.domainRecord r (restorable.zoneValues.domains k r held)

/-! ## Rows changed on disk -/

/-- The registry, where every row of `tld_records` was given other notes. -/
def RegistryStore.annotated (s : RegistryStore) (notes : String) : RegistryStore :=
  { s with database := { s.database with
      tldRecords := Rows.encoded (fun r : TldRecord => Externals.toVec r.toJson)
        (s.zone.tlds.map fun _ r => { r with notes := some notes }) } }

/-- Changed notes do not show in the cross-check. -/
theorem Restorable.annotated_passes {P : Value → Prop} {a : Authority} {s : RegistryStore}
    (reads : ReadsBack P) (restorable : Restorable P a s) (notes : String) :
    (s.annotated notes).verifyTables = .ok () := by
  obtain ⟨-, domains⟩ := verifyTables_eq_ok.mp (restorable.verifyTables reads)
  have named := restorable.settled.named
  refine verifyTables_eq_ok.mpr ⟨⟨_, Rows.readAll_encoded fun k r held => ?_, ?_, ?_⟩, domains⟩
  · rw [Std.ExtTreeMap.getElem?_map, Option.map_eq_some_iff] at held
    obtain ⟨z, found, rfl⟩ := held
    have values := restorable.zoneValues.tlds k z found
    exact reads.tldRecord _ values
  · show _ = s.zone.tlds.size
    rw [Rows.values, List.length_map, Std.ExtTreeMap.length_toList, Std.ExtTreeMap.size_map]
  · intro r member
    obtain ⟨k, held⟩ := Rows.mem_values.mp member
    rw [Std.ExtTreeMap.getElem?_map, Option.map_eq_some_iff] at held
    obtain ⟨z, found, rfl⟩ := held
    have own : z.tld = k := (named.tlds k z found).1
    exact ⟨z, (own.symm ▸ found : s.zone.tlds[z.tld]? = some z), rfl⟩

/-- A table with changed notes is not exact. -/
theorem annotated_inexact {P : Value → Prop} {a : Authority} {s : RegistryStore}
    (reads : ReadsBack P) (restorable : Restorable P a s) {notes tld : String} {r : TldRecord}
    (found : s.zone.tlds[tld]? = some r) (differs : r.notes ≠ some notes) :
    ¬(s.annotated notes).TablesExact := by
  intro exact
  have values := restorable.zoneValues.tlds tld r found
  have read : SerdeJson.tldRecord (Externals.toVec
      { r with notes := some notes : TldRecord }.toJson) = .ok { r with notes := some notes } :=
    reads.tldRecord _ values
  have row : (s.annotated notes).database.tldRecords[tld]? =
      some (Externals.toVec { r with notes := some notes : TldRecord }.toJson) := by
    rw [RegistryStore.annotated, Rows.encoded_getElem?, Std.ExtTreeMap.getElem?_map, found]
    rfl
  have held : s.zone.tlds[tld]? = some { r with notes := some notes } :=
    exact.tlds.record row read
  have same : r = { r with notes := some notes } := Option.some.inj (found.symm.trans held)
  exact differs (congrArg TldRecord.notes same)

end Federate

namespace Federate.Reference

open Json

/-- The registry with the TLD `foo` came from successful calls. -/
theorem withFoo_restorable :
    Restorable Value.FromJson authority (authority.run start [.apply createFoo]) := by
  have json : createFoo.request.FromJson := by
    intro r requested
    cases requested
  have reads : SerdeJson.mutationRequest (compact createFoo.request.toJson) =
      .ok createFoo.request :=
    read_compact (fun _ => MutationRequest.FromJson.readable)
      (fun _ _ => MutationRequest.toJson_injective) json
  have succeeds : authority.Succeeds start (.apply createFoo) := ⟨⟨_, reads⟩, stage_foo.1⟩
  rw [Authority.run, Transition.run_cons, Transition.run_nil]
  exact (restorable_initial initialized).step signaturesVerify serdeRoundTrips succeeds

/-- The tables of the registry with the TLD `foo` pass the check, and are exact as they are
sound. -/
theorem withFoo_exact :
    (authority.run start [.apply createFoo]).verifyTables = .ok () ∧
      ((authority.run start [.apply createFoo]).TablesExact ↔
        (authority.run start [.apply createFoo]).TablesSound) ∧
      (authority.run start [.apply createFoo]).TablesExact :=
  have passes := withFoo_restorable.verifyTables serdeRoundTrips.toReadsBack
  ⟨passes, RegistryStore.tablesExact_iff_sound passes,
    withFoo_restorable.tablesExact serdeRoundTrips.toReadsBack⟩

/-- The verified zone with the TLD `foo`, and a row for `foo` whose notes were changed: the tables
pass the cross-check and do not hold the zone's record. -/
theorem annotated_unnoticed :
    (authority.run start [.apply createFoo]).zone.verify authority.root.nodeId = .ok () ∧
      ((authority.run start [.apply createFoo]).annotated "changed on disk").verifyTables =
        .ok () ∧
      ¬((authority.run start [.apply createFoo]).annotated "changed on disk").TablesExact := by
  have stage := stage_foo.2
  have restorable := withFoo_restorable
  rw [Authority.run, Transition.run_cons, Transition.run_nil] at restorable ⊢
  have found : (authority.step start (.apply createFoo)).zone.tlds["foo"]? =
      some (official "foo") := by
    rw [stage.tlds]
    exact Std.ExtTreeMap.getElem?_insert_self
  have differs : (official "foo").notes ≠ some "changed on disk" := by
    show some "sites" ≠ some "changed on disk"
    decide
  exact ⟨stage.reachable.verified.2.2, restorable.annotated_passes serdeRoundTrips.toReadsBack _,
    annotated_inexact serdeRoundTrips.toReadsBack restorable found differs⟩

end Federate.Reference
