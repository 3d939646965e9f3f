import Federate.Mutation.Wire
import Federate.Reference.Registry
import Federate.Verif.Content

/-!
# Signed records across the wire

Reading the text of a record gives the record, but for its free-form members that are `null`:
these read as absent. The signed bytes bind the members that are present, so a signed record
survives the wire exactly when it has no such member and its text is not too deep.
-/

namespace Federate

open Json

/-! ## What reading gives -/

/-- What reading a written free-form member gives: nothing for `null`. -/
def rereadValue (value : Option Value) : Option Value :=
  value.bind fun v =>
    match v.tree with
    | .null => none
    | _ => some v

/-- The record without the free-form members that are `null`. -/
def DomainRecord.reread (r : DomainRecord) : DomainRecord :=
  { r with renewal := rereadValue r.renewal, pricing := rereadValue r.pricing }

/-- The record without its pricing, when that is `null`. -/
def TldRecord.reread (r : TldRecord) : TldRecord :=
  { r with pricing := rereadValue r.pricing }

/-- The zone with every record as it is read back. -/
def RootZone.reread (z : RootZone) : RootZone :=
  { z with
    tlds := Rows.encoded TldRecord.reread z.tlds
    domains := Rows.encoded DomainRecord.reread z.domains }

/-- The registry with every record as it is read back. -/
def TldRegistry.reread (r : TldRegistry) : TldRegistry :=
  { r with domains := Rows.encoded DomainRecord.reread r.domains }

/-- The action with the record it carries, if any, as it is read back. -/
def MutationAction.reread : MutationAction → MutationAction
  | .issueDomain r => .issueDomain r.reread
  | action => action

/-- The request with its action as it is read back. -/
def MutationRequest.reread (r : MutationRequest) : MutationRequest :=
  { r with action := r.action.reread }

/-- The value as it is read back. -/
def SignedRecord.reread : SignedRecord → SignedRecord
  | domain r => domain r.reread
  | tld r => tld r.reread
  | zone z => zone z.reread
  | registry r => registry r.reread
  | manifest m => manifest m
  | audit e => audit e
  | request r => request r.reread

/-! ## Reading what was written -/

theorem optionalText_map_str (value : Option String) :
    optionalText (value.map .str) = some value := by
  cases value <;> rfl

theorem optionalText_some_ofOption (value : Option String) :
    optionalText (some (Json.ofOption value)) = some value := by
  cases value <;> rfl

theorem optionalValue_map_tree (value : Option Value) :
    optionalValue (value.map Value.tree) = some (rereadValue value) := by
  cases value with
  | none => rfl
  | some v =>
    show orNull (fun tree => some (.ofJson tree)) v.tree = some (rereadValue (some v))
    have whole : Value.ofJson v.tree = v := v.ofJson_tree
    cases shape : v.tree with
    | null => simp [orNull, rereadValue, shape]
    | _ =>
      rw [shape] at whole
      simp [orNull, rereadValue, shape, whole]

theorem required_domainStatus (status : DomainStatus) :
    required DomainStatus.fromJson (some (.str status.asStr)) = some status :=
  asVariant_str (by cases status <;> simp) fun _ => DomainStatus.asStr_injective

theorem required_targetType (kind : TargetType) :
    required TargetType.fromJson (some (.str kind.asStr)) = some kind :=
  asVariant_str (by cases kind <;> simp) fun _ => TargetType.asStr_injective

theorem required_tldStatus (status : TldStatus) :
    required TldStatus.fromJson (some (.str status.asStr)) = some status :=
  asVariant_str (by cases status <;> simp) fun _ => TldStatus.asStr_injective

theorem required_tldMode (mode : TldMode) :
    required TldMode.fromJson (some (.str mode.asStr)) = some mode :=
  asVariant_str (by cases mode <;> simp) fun _ => TldMode.asStr_injective

theorem required_registryType (kind : RegistryType) :
    required RegistryType.fromJson (some (.str kind.asStr)) = some kind :=
  asVariant_str (by cases kind <;> simp) fun _ => RegistryType.asStr_injective

/-- One step of a reader. -/
theorem reads {α β : Type} {step : Option α} {next : α → Option β} {a : α} {b : β}
    (found : step = some a) (rest : next a = some b) : (step >>= next) = some b := by
  rw [found]
  exact rest

theorem DomainRecord.fromJson_toJson (r : DomainRecord) : fromJson r.toJson = some r.reread := by
  rw [r.toJson_eq]
  exact reads (asRecord_layout r.slots_distinct _) <| reads rfl <| reads rfl <| reads rfl <|
    reads rfl <| reads (required_targetType _) <| reads rfl <| reads (optionalText_map_str _) <|
    reads (optionalText_map_str _) <| reads (required_domainStatus _) <| reads rfl <| reads rfl <|
    reads (optionalText_map_str _) <| reads (optionalValue_map_tree _) <|
    reads (optionalValue_map_tree _) <| reads rfl <| reads (optionalText_some_ofOption _) rfl

/-- A list that is written only when it has items is read back. -/
theorem defaulted_list (values : List String) : defaulted [] (asList asStr)
    (if values = [] then none else some (.arr (values.map .str))) = some values := by
  split_ifs with empty
  · rw [empty]
    rfl
  · have each : ∀ v ∈ values, asStr (.str v) = some v := fun v _ => rfl
    exact asList_map each

theorem TldRecord.fromJson_toJson (r : TldRecord) : fromJson r.toJson = some r.reread := by
  rw [r.toJson_eq]
  exact reads (asRecord_layout r.slots_distinct _) <| reads rfl <|
    reads (required_tldStatus _) <| reads (required_tldMode _) <| reads rfl <| reads rfl <|
    reads rfl <| reads (required_registryType _) <| reads (optionalText_map_str _) <|
    reads (optionalText_map_str _) <| reads (defaulted_list _) <|
    reads (optionalText_map_str _) <| reads (optionalValue_map_tree _) <| reads rfl <|
    reads rfl <| reads (optionalText_map_str _) <| reads (optionalText_map_str _) <| reads rfl <|
    reads (optionalText_some_ofOption _) rfl

theorem AuditEvent.fromJson_toJson (e : AuditEvent) : fromJson e.toJson = some e := by
  have distinct : (e.slots.map Prod.fst).Nodup := by
    simp only [slots, List.map_cons, List.map_nil]
    decide
  rw [e.toJson_eq]
  exact reads (asRecord_layout distinct _) <| reads rfl <| reads rfl <| reads rfl <| reads rfl <|
    reads (optionalText_map_str _) rfl

theorem RootZone.fromJson_toJson (z : RootZone) : fromJson z.toJson = some z.reread := by
  have distinct : ["network", "root_version", "generated_at", "root_public_key", "tlds",
      "domains", "audit", "signature_algorithm", "signature"].Nodup := by decide
  have tlds := asMap_rows (t := z.tlds) fun k r _ => r.fromJson_toJson
  have domains := asMap_rows (t := z.domains) fun k r _ => r.fromJson_toJson
  have audit : asList AuditEvent.fromJson (.arr (z.audit.map AuditEvent.toJson)) = some z.audit :=
    asList_map fun e _ => e.fromJson_toJson
  rw [toJson]
  exact reads (asRecord_fields distinct (by rfl) _) <| reads rfl <| reads rfl <| reads rfl <| reads rfl <|
    reads tlds <| reads domains <| reads audit <| reads rfl <|
    reads (optionalText_some_ofOption _) rfl

theorem TldRegistry.fromJson_toJson (r : TldRegistry) : fromJson r.toJson = some r.reread := by
  have distinct : ["tld", "version", "generated_at", "operator_public_key", "domains",
      "signature_algorithm", "signature"].Nodup := by decide
  have domains := asMap_rows (t := r.domains) fun k d _ => d.fromJson_toJson
  rw [toJson]
  exact reads (asRecord_fields distinct (by rfl) _) <| reads rfl <| reads rfl <| reads rfl <| reads rfl <|
    reads domains <| reads rfl <| reads (optionalText_some_ofOption _) rfl

theorem Manifest.fromJson_toJson (m : Manifest) : fromJson m.toJson = some m := by
  have distinct : ["domain", "version", "entry", "files", "owner_public_key", "created_at",
      "signature_algorithm", "signature"].Nodup := by decide
  have files : asMap asStr (.obj (m.files.toList.map fun p => (p.1, .str p.2))) =
      some m.files := by
    have rows := asMap_rows (t := m.files) fun k hash _ => (rfl : asStr (.str hash) = some hash)
    have whole : Rows.encoded (fun hash => hash) m.files = m.files := Rows.encoded_id m.files
    rwa [whole] at rows
  rw [toJson]
  exact reads (asRecord_fields distinct (by rfl) _) <| reads rfl <| reads rfl <| reads rfl <|
    reads files <| reads rfl <| reads rfl <| reads rfl <|
    reads (optionalText_some_ofOption _) rfl

theorem AuditRecord.fromJson_toJson (e : AuditRecord) : fromJson e.toJson = some e := by
  have distinct : ["event_id", "mutation_id", "actor_public_key", "actor_role", "action",
      "target_type", "target_id", "previous_state_hash", "new_state_hash", "timestamp",
      "signature_algorithm", "signature"].Nodup := by decide
  rw [toJson]
  exact reads (asRecord_fields distinct (by rfl) _) <| reads rfl <| reads rfl <| reads rfl <| reads rfl <|
    reads rfl <| reads rfl <| reads rfl <| reads rfl <| reads rfl <| reads rfl <| reads rfl <|
    reads (optionalText_some_ofOption _) rfl

/-- The tag of a written action is read first, and its members are left. -/
theorem MutationAction.tagged_toJson (a : MutationAction) :
    tagged a.toJson = some (a.tag, .obj (layout a.slots)) := by
  have free : "type" ∉ a.slots.map Prod.fst := by
    cases a <;> simp only [slots, List.map_cons, List.map_nil] <;> decide
  have others : ∀ field ∈ layout a.slots, field.1 ≠ "type" := by
    intro field member same
    have known : field.1 ∈ a.slots.map Prod.fst := List.mem_map_of_mem (mem_layout.mp member)
    exact free (same ▸ known)
  have unnamed : slot "type" a.slots = none := by
    rw [slot, Option.bind_eq_none_iff]
    intro entry found
    have same : entry.1 = "type" := by simpa using List.find?_some found
    have known : entry.1 ∈ a.slots.map Prod.fst :=
      List.mem_map_of_mem (List.mem_of_find?_eq_some found)
    exact absurd (same ▸ known) free
  have tags : members "type" (("type", .str a.tag) :: layout a.slots) = [.str a.tag] := by
    rw [members_cons, if_pos rfl, members_layout a.slots_distinct, unnamed]
    rfl
  have rest : (("type", .str a.tag) :: layout a.slots).filter (fun field => field.1 ≠ "type") =
      layout a.slots := by
    have kept := List.filter_eq_self.mpr fun field member =>
      decide_eq_true (others field member)
    rw [List.filter_cons_of_neg (by simp), kept]
  rw [a.toJson_eq, tagged, tags, rest]

theorem MutationAction.fromJson_toJson (a : MutationAction) :
    fromJson a.toJson = some a.reread := by
  refine reads a.tagged_toJson ?_
  have fields := fun names => asRecord_layout a.slots_distinct names
  cases a with
  | publishSite | updateDomainManifest | createTld | reserveTld | blockTld
  | updateRegistryPointer => exact reads (fields _) <| reads rfl <| reads rfl rfl
  | setDomainStatus =>
    exact reads (fields _) <| reads rfl <| reads (required_domainStatus _) rfl
  | issueDomain r => exact reads (fields _) <| reads r.fromJson_toJson rfl
  | delegateTld =>
    exact reads (fields _) <| reads rfl <| reads rfl <| reads rfl <| reads rfl <|
      reads (required_registryType _) <| reads (optionalText_map_str _) <|
      reads (optionalText_map_str _) rfl
  | updateTld =>
    exact reads (fields _) <| reads rfl <| reads (optionalText_map_str _) <|
      reads (optionalText_map_str _) <| reads (optionalText_map_str _) rfl
  | setTldStatus => exact reads (fields _) <| reads rfl <| reads (required_tldStatus _) rfl

theorem MutationRequest.fromJson_toJson (r : MutationRequest) :
    fromJson r.toJson = some r.reread := by
  have distinct : ["mutation_id", "nonce", "issued_at", "actor_public_key", "target_version",
      "action", "signature_algorithm", "signature"].Nodup := by decide
  rw [toJson]
  exact reads (asRecord_fields distinct (by rfl) _) <| reads rfl <| reads rfl <| reads rfl <| reads rfl <|
    reads rfl <| reads r.action.fromJson_toJson <| reads rfl <|
    reads (optionalText_some_ofOption _) rfl

/-- Reading what was written gives the value without its members that are `null`. -/
theorem SignedRecord.reader_toJson (v : SignedRecord) : v.reader v.toJson = some v.reread := by
  cases v with
  | domain r => exact congrArg (domain <$> ·) r.fromJson_toJson
  | tld r => exact congrArg (tld <$> ·) r.fromJson_toJson
  | zone z => exact congrArg (zone <$> ·) z.fromJson_toJson
  | registry r => exact congrArg (registry <$> ·) r.fromJson_toJson
  | manifest m => exact congrArg (manifest <$> ·) m.fromJson_toJson
  | audit e => exact congrArg (audit <$> ·) e.fromJson_toJson
  | request r => exact congrArg (request <$> ·) r.fromJson_toJson

/-! ## Members that are `null` -/

/-- The free-form member, if any, is not `null`. -/
def NotNull (value : Option Value) : Prop := ∀ v, value = some v → v.tree ≠ .null

/-- No free-form member of the record is `null`. -/
def DomainRecord.NoNulls (r : DomainRecord) : Prop := NotNull r.renewal ∧ NotNull r.pricing

/-- The pricing of the record is not `null`. -/
def TldRecord.NoNulls (r : TldRecord) : Prop := NotNull r.pricing

/-- No free-form member of a record of the zone is `null`. -/
structure RootZone.NoNulls (z : RootZone) : Prop where
  /-- The TLD records. -/
  tlds : ∀ (k : String) (r : TldRecord), z.tlds[k]? = some r → r.NoNulls
  /-- The domain records. -/
  domains : ∀ (k : String) (r : DomainRecord), z.domains[k]? = some r → r.NoNulls

/-- No free-form member of a record of the registry is `null`. -/
def TldRegistry.NoNulls (r : TldRegistry) : Prop :=
  ∀ (k : String) (d : DomainRecord), r.domains[k]? = some d → d.NoNulls

/-- No free-form member of the record that the action carries, if any, is `null`. -/
def MutationAction.NoNulls (a : MutationAction) : Prop := ∀ r, a = .issueDomain r → r.NoNulls

/-- No free-form member inside the value is `null`. -/
def SignedRecord.NoNulls : SignedRecord → Prop
  | domain r => r.NoNulls
  | tld r => r.NoNulls
  | zone z => z.NoNulls
  | registry r => r.NoNulls
  | manifest _ => True
  | audit _ => True
  | request r => r.action.NoNulls

theorem rereadValue_of_notNull {value : Option Value} (present : NotNull value) :
    rereadValue value = value := by
  cases value with
  | none => rfl
  | some v =>
    have solid := present v rfl
    cases shape : v.tree with
    | null => exact absurd shape solid
    | _ => simp [rereadValue, shape]

theorem notNull_of_rereadValue {value : Option Value}
    (kept : ∀ v, value = some v → ∃ w, rereadValue value = some w) : NotNull value := by
  intro v held null
  obtain ⟨w, found⟩ := kept v held
  simp [rereadValue, held, null] at found

theorem DomainRecord.reread_of_noNulls {r : DomainRecord} (solid : r.NoNulls) : r.reread = r := by
  rw [reread, rereadValue_of_notNull solid.1, rereadValue_of_notNull solid.2]

theorem TldRecord.reread_of_noNulls {r : TldRecord} (solid : r.NoNulls) : r.reread = r := by
  rw [reread, rereadValue_of_notNull solid]

/-- A value without such members is read back as it is. -/
theorem SignedRecord.reread_of_noNulls {v : SignedRecord} (solid : v.NoNulls) : v.reread = v := by
  cases v with
  | domain r => exact congrArg domain (DomainRecord.reread_of_noNulls solid)
  | tld r => exact congrArg tld (TldRecord.reread_of_noNulls solid)
  | zone z =>
    have tlds := Rows.encoded_eq_self fun k r found =>
      TldRecord.reread_of_noNulls (solid.tlds k r found)
    have domains := Rows.encoded_eq_self fun k r found =>
      DomainRecord.reread_of_noNulls (solid.domains k r found)
    rw [reread, RootZone.reread, tlds, domains]
  | registry r =>
    have domains := Rows.encoded_eq_self fun k d found =>
      DomainRecord.reread_of_noNulls (solid k d found)
    rw [reread, TldRegistry.reread, domains]
  | manifest | audit => rfl
  | request r =>
    have action : r.action.reread = r.action := by
      cases shape : r.action with
      | issueDomain record =>
        exact congrArg MutationAction.issueDomain
          (DomainRecord.reread_of_noNulls (solid record shape))
      | _ => rfl
    rw [reread, MutationRequest.reread, action]

/-! ## What the signed bytes bind -/

section Bind

variable {N : Number → Number → Prop}

theorem DomainRecord.noNulls_of_same {r : DomainRecord}
    (same : Same N List.Perm r.toJson r.reread.toJson) : r.NoNulls := by
  rw [r.toJson_eq, r.reread.toJson_eq] at same
  have kept : ∀ {name : String} {v : Json}, (name, some v) ∈ r.slots →
      ∃ w, slot name r.reread.slots = some w := by
    intro name v member
    obtain ⟨w, inside, -⟩ := same.exists_member (mem_layout.mpr member)
    exact ⟨w, slot_of_mem r.reread.slots_distinct (mem_layout.mp inside)⟩
  constructor
  · refine notNull_of_rereadValue fun v held => ?_
    have member : ("renewal", some v.tree) ∈ r.slots := by simp [slots, held]
    obtain ⟨w, found⟩ := kept member
    obtain ⟨read, filled, -⟩ := Option.map_eq_some_iff.mp
      (show (rereadValue r.renewal).map Value.tree = some w from found)
    exact ⟨read, filled⟩
  · refine notNull_of_rereadValue fun v held => ?_
    have member : ("pricing", some v.tree) ∈ r.slots := by simp [slots, held]
    obtain ⟨w, found⟩ := kept member
    obtain ⟨read, filled, -⟩ := Option.map_eq_some_iff.mp
      (show (rereadValue r.pricing).map Value.tree = some w from found)
    exact ⟨read, filled⟩

theorem TldRecord.noNulls_of_same {r : TldRecord}
    (same : Same N List.Perm r.toJson r.reread.toJson) : r.NoNulls := by
  rw [r.toJson_eq, r.reread.toJson_eq] at same
  refine notNull_of_rereadValue fun v held => ?_
  have member : ("pricing", some v.tree) ∈ r.slots := by simp [slots, held]
  obtain ⟨w, inside, -⟩ := same.exists_member (mem_layout.mpr member)
  have found := slot_of_mem r.reread.slots_distinct (mem_layout.mp inside)
  obtain ⟨read, filled, -⟩ := Option.map_eq_some_iff.mp
    (show (rereadValue r.pricing).map Value.tree = some w from found)
  exact ⟨read, filled⟩

/-- Written tables that are the same, one of them read back, have the same entries row by row. -/
theorem same_rows {α : Type} {write : α → Json} {back : α → α} {t : Table String α}
    (same : Same N List.Perm (.obj (t.toList.map fun p => (p.1, write p.2)))
      (.obj ((Rows.encoded back t).toList.map fun p => (p.1, write p.2))))
    {k : String} {a : α} (found : t[k]? = some a) : Same N List.Perm (write a) (write (back a)) := by
  have member : (k, write a) ∈ t.toList.map fun p => (p.1, write p.2) :=
    List.mem_map.mpr ⟨(k, a), Std.ExtTreeMap.mem_toList_iff_getElem?_eq_some.mpr found, rfl⟩
  obtain ⟨w, inside, related⟩ := same.exists_member member
  obtain ⟨p, listed, equal⟩ := List.mem_map.mp inside
  obtain ⟨key, value⟩ := Prod.mk.inj equal
  have held := Std.ExtTreeMap.mem_toList_iff_getElem?_eq_some.mp listed
  rw [key, Rows.encoded_getElem?, found, Option.map_some, Option.some.injEq] at held
  rwa [held, value]

/-- Zones that are the same have the same tables of records. -/
theorem RootZone.same_tables {y z : RootZone} (same : Same N List.Perm y.toJson z.toJson) :
    Same N List.Perm (.obj (y.tlds.toList.map fun p => (p.1, p.2.toJson)))
        (.obj (z.tlds.toList.map fun p => (p.1, p.2.toJson))) ∧
      Same N List.Perm (.obj (y.domains.toList.map fun p => (p.1, p.2.toJson)))
        (.obj (z.domains.toList.map fun p => (p.1, p.2.toJson))) := by
  constructor
  · obtain ⟨w, inside, related⟩ := same.exists_member (v := .obj (y.tlds.toList.map
      fun p => (p.1, p.2.toJson))) (List.mem_cons_of_mem _ <| List.mem_cons_of_mem _ <|
      List.mem_cons_of_mem _ <| List.mem_cons_of_mem _ List.mem_cons_self)
    have own : w = .obj (z.tlds.toList.map fun p => (p.1, p.2.toJson)) := by simpa using inside
    exact own ▸ related
  · obtain ⟨w, inside, related⟩ := same.exists_member (v := .obj (y.domains.toList.map
      fun p => (p.1, p.2.toJson))) (List.mem_cons_of_mem _ <| List.mem_cons_of_mem _ <|
      List.mem_cons_of_mem _ <| List.mem_cons_of_mem _ <| List.mem_cons_of_mem _
      List.mem_cons_self)
    have own : w = .obj (z.domains.toList.map fun p => (p.1, p.2.toJson)) := by
      simpa using inside
    exact own ▸ related

/-- Registries that are the same have the same tables of records. -/
theorem TldRegistry.same_domains {r s : TldRegistry}
    (same : Same N List.Perm r.toJson s.toJson) :
    Same N List.Perm (.obj (r.domains.toList.map fun p => (p.1, p.2.toJson)))
      (.obj (s.domains.toList.map fun p => (p.1, p.2.toJson))) := by
  obtain ⟨w, inside, related⟩ := same.exists_member (v := .obj (r.domains.toList.map
    fun p => (p.1, p.2.toJson))) (List.mem_cons_of_mem _ <| List.mem_cons_of_mem _ <|
    List.mem_cons_of_mem _ <| List.mem_cons_of_mem _ List.mem_cons_self)
  have own : w = .obj (s.domains.toList.map fun p => (p.1, p.2.toJson)) := by simpa using inside
  exact own ▸ related

/-- Requests that are the same have the same action. -/
theorem MutationRequest.same_action {r s : MutationRequest}
    (same : Same N List.Perm r.toJson s.toJson) :
    Same N List.Perm r.action.toJson s.action.toJson := by
  obtain ⟨w, inside, related⟩ := same.exists_member (v := r.action.toJson)
    (List.mem_cons_of_mem _ <| List.mem_cons_of_mem _ <| List.mem_cons_of_mem _ <|
      List.mem_cons_of_mem _ <| List.mem_cons_of_mem _ List.mem_cons_self)
  have own : w = s.action.toJson := by simpa using inside
  exact own ▸ related

theorem MutationAction.noNulls_of_same {a : MutationAction}
    (same : Same N List.Perm a.toJson a.reread.toJson) : a.NoNulls := by
  rintro r rfl
  obtain ⟨w, inside, related⟩ := same.exists_member (v := r.toJson)
    (List.mem_cons_of_mem _ List.mem_cons_self)
  have own : w = r.reread.toJson := by simpa using inside
  exact DomainRecord.noNulls_of_same (own ▸ related)

variable [Externals]

/-- A value whose signed bytes stay when it is read back has no free-form member that is
`null`. -/
theorem SignedRecord.noNulls_of_signableBytes (tokens : Tokens Externals.toVec) {v : SignedRecord}
    (equal : v.reread.signableBytes = v.signableBytes) : v.NoNulls := by
  have same {left right : Json} (equal : canonicalBytes right = canonicalBytes left) :
      left.Same (fun _ _ => True) List.Perm right :=
    canonicalBytes_same tokens (fun _ _ _ _ _ => trivial) equal.symm
  cases v with
  | domain r => exact DomainRecord.noNulls_of_same (r := { r with signature := none }) (same equal)
  | tld r => exact TldRecord.noNulls_of_same (r := { r with signature := none }) (same equal)
  | zone z =>
    obtain ⟨tlds, domains⟩ := RootZone.same_tables (y := { z with signature := none })
      (z := { z.reread with signature := none }) (same equal)
    exact ⟨fun k r found => TldRecord.noNulls_of_same (same_rows tlds found),
      fun k r found => DomainRecord.noNulls_of_same (same_rows domains found)⟩
  | registry r =>
    have domains := TldRegistry.same_domains (r := { r with signature := none })
      (s := { r.reread with signature := none }) (same equal)
    exact fun k d found => DomainRecord.noNulls_of_same (same_rows domains found)
  | manifest | audit => trivial
  | request r =>
    exact MutationAction.noNulls_of_same (MutationRequest.same_action
      (r := { r with signature := none }) (s := { r.reread with signature := none }) (same equal))

/-! ## Across the wire -/

/-- What arrives: the value as it is read back, when its text is not too deep. -/
theorem SignedRecord.overWire_eq [JsonParser] (parses : ParsesText) {v : SignedRecord}
    (integral : v.toJson.Integral) :
    v.overWire = if v.toJson.depth ≤ maxDepth then some v.reread else none := by
  rw [overWire, fromSlice, parses v.toJson integral, Option.bind_eq_bind, Option.bind_some,
    v.reader_toJson]

/-- The value arrives with the bytes that were signed, and verifies: its signature under the key of
its signer, and the check of its type whenever that accepted the value that was sent. -/
def SignedRecord.Survives [JsonParser] (v : SignedRecord) (signer : NodeIdentity) : Prop :=
  ∃ w, v.overWire = some w ∧ w.signableBytes = v.signableBytes ∧
    (∃ signature, w.signature = some signature ∧
      verifySignature signer.nodeId w.signableBytes signature = true) ∧
    ∀ subject key, v.verify subject key = .ok () → w.verify subject key = .ok ()

section Survive

variable [JsonParser] {v : SignedRecord} {signer : NodeIdentity}

/-- A value that survives has no free-form member that is `null` and is not too deep. -/
theorem SignedRecord.Survives.solid (parses : ParsesText) (tokens : Tokens Externals.toVec)
    (integral : v.toJson.Integral) (survives : v.Survives signer) :
    v.NoNulls ∧ v.toJson.depth ≤ maxDepth := by
  obtain ⟨w, received, bytes, -, -⟩ := survives
  rw [SignedRecord.overWire_eq parses integral] at received
  split at received
  · rename_i shallow
    obtain rfl := Option.some.inj received
    exact ⟨SignedRecord.noNulls_of_signableBytes tokens bytes, shallow⟩
  · cases received

/-- For every value of the signed types without floating-point numbers and every identity that
signed it: the value survives the wire if and only if no free-form member inside it is `null` and
its text has at most 127 arrays and objects inside one another. -/
theorem signed_survives_iff (parses : ParsesText) (tokens : Tokens Externals.toVec)
    (signs : SignaturesVerify) (integral : v.toJson.Integral)
    (signed : v.signature = some (signer.sign v.signableBytes)) :
    v.Survives signer ↔ v.NoNulls ∧ v.toJson.depth ≤ maxDepth := by
  constructor
  · exact SignedRecord.Survives.solid parses tokens integral
  · rintro ⟨solid, shallow⟩
    have whole := SignedRecord.reread_of_noNulls solid
    have received : v.overWire = some v := by
      rw [SignedRecord.overWire_eq parses integral, if_pos shallow, whole]
    have valid := verifySignature_sign signs signer v.signableBytes
    exact ⟨v, received, rfl, ⟨_, signed, valid⟩, fun subject key accepted => accepted⟩

end Survive

end Bind

end Federate

namespace Federate.Reference

open Json Outcome

open Classical in
/-- The tree that a compact text was written from. -/
noncomputable def parseCompact (bytes : Bytes) : Option Json :=
  if written : ∃ v : Json, v.Readable ∧ compact v = bytes then some written.choose else none

noncomputable scoped instance : JsonParser where
  parse := parseCompact

/-- The reference parser inverts the compact text. -/
theorem parsesText : ParsesText := by
  intro v integral
  show parseCompact (compact v) = some v
  have written : ∃ w : Json, w.Readable ∧ compact w = compact v := ⟨v, integral.readable, rfl⟩
  obtain ⟨readable, text⟩ := written.choose_spec
  unfold parseCompact
  rw [dif_pos written]
  exact congrArg some (compact_injective readable integral.readable text)

/-- A signed domain record is signed over its signable bytes. -/
theorem signedRecord_signature (r : DomainRecord) (signer : NodeIdentity) :
    (SignedRecord.domain (r.signedBy signer)).signature =
      some (signer.sign (SignedRecord.domain (r.signedBy signer)).signableBytes) := rfl

/-- A record signed by the official operator, with a pricing or without. -/
def pricedRecord (pricing : Option Value) : DomainRecord :=
  DomainRecord.signedBy { issuedRecord "alice" "foo" .active with pricing }
    authority.officialOperator

theorem pricedRecord_integral {pricing : Option Value}
    (empty : ∀ v, pricing = some v → v.tree = .null) : (pricedRecord pricing).toJson.Integral := by
  rw [DomainRecord.toJson_eq]
  refine integral_layout fun entry member v held => ?_
  have priced : ∀ v, pricing.map Value.tree = some v → v.Integral := by
    intro v found
    obtain ⟨value, same, rfl⟩ := Option.map_eq_some_iff.mp found
    rw [empty value same]
    exact integral_null
  have texts : ∀ s, some (Json.str s) = some v → v.Integral := fun s same =>
    Option.some.inj same ▸ integral_str s
  simp only [DomainRecord.slots, List.mem_cons, List.not_mem_nil, or_false] at member
  rcases member with rfl | rfl | rfl | rfl | rfl | rfl | rfl | rfl | rfl | rfl | rfl | rfl | rfl |
    rfl | rfl | rfl
  all_goals first
    | exact texts _ held
    | exact priced v held
    | cases held

/-- A record without free-form members survives the wire. -/
theorem unpriced_survives :
    (SignedRecord.domain (pricedRecord none)).Survives authority.officialOperator := by
  have integral : (SignedRecord.domain (pricedRecord none)).toJson.Integral :=
    pricedRecord_integral (by simp)
  refine (signed_survives_iff parsesText compactText.tokens signaturesVerify integral
    (signedRecord_signature _ _)).mpr ⟨⟨?_, ?_⟩, by decide⟩ <;>
  · intro v held
    cases held

/-- A record whose pricing is `null` does not survive the wire. -/
theorem nullPriced_lost :
    (SignedRecord.domain (pricedRecord (some ⟨.null, trivial⟩))).signature =
        some (authority.officialOperator.sign
          (SignedRecord.domain (pricedRecord (some ⟨.null, trivial⟩))).signableBytes) ∧
      (pricedRecord (some ⟨.null, trivial⟩)).toJson.Integral ∧
      ¬(SignedRecord.domain (pricedRecord (some ⟨.null, trivial⟩))).Survives
        authority.officialOperator := by
  have integral : (SignedRecord.domain (pricedRecord (some ⟨.null, trivial⟩))).toJson.Integral :=
    pricedRecord_integral fun v held => by
      cases held
      rfl
  refine ⟨signedRecord_signature _ _, integral, fun survives => ?_⟩
  have solid := (SignedRecord.Survives.solid parsesText compactText.tokens integral survives).1
  exact solid.2 ⟨.null, trivial⟩ rfl rfl

end Federate.Reference
