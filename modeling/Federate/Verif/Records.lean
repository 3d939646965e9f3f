import Federate.Directory.Table
import Federate.Library.JsonText
import Federate.Mutation.Request
import Federate.Protocol

/-!
# Serialized records determine records

Two records with one serialized form are equal, and the form of a record whose free-form members
came from JSON is a tree that reading gives.
-/

namespace Federate

open Json

/-! ## Enumerations -/

theorem DomainStatus.asStr_injective {a b : DomainStatus} (same : a.asStr = b.asStr) : a = b := by
  cases a <;> cases b <;> first | rfl | exact absurd same (by decide)

theorem TargetType.asStr_injective {a b : TargetType} (same : a.asStr = b.asStr) : a = b := by
  cases a <;> cases b <;> first | rfl | exact absurd same (by decide)

theorem TldStatus.asStr_injective {a b : TldStatus} (same : a.asStr = b.asStr) : a = b := by
  cases a <;> cases b <;> first | rfl | exact absurd same (by decide)

theorem TldMode.asStr_injective {a b : TldMode} (same : a.asStr = b.asStr) : a = b := by
  cases a <;> cases b <;> first | rfl | exact absurd same (by decide)

theorem NodeRole.asStr_injective {a b : NodeRole} (same : a.asStr = b.asStr) : a = b := by
  cases a <;> cases b <;> first | rfl | exact absurd same (by decide)

theorem NodeStatus.asStr_injective {a b : NodeStatus} (same : a.asStr = b.asStr) : a = b := by
  cases a <;> cases b <;> first | rfl | exact absurd same (by decide)

theorem RegistryType.asStr_injective {a b : RegistryType} (same : a.asStr = b.asStr) : a = b := by
  cases a <;> cases b <;> first | rfl | exact absurd same (by decide)

theorem Capability.asStr_injective {a b : Capability} (same : a.asStr = b.asStr) : a = b := by
  cases a <;> cases b <;> first | rfl | exact absurd same (by decide)

theorem ErrorCode.asStr_injective {a b : ErrorCode} (same : a.asStr = b.asStr) : a = b := by
  cases a <;> cases b <;> first | rfl | exact absurd same (by decide)

/-! ## Members -/

theorem ofOption_injective {a b : Option String} (same : Json.ofOption a = Json.ofOption b) :
    a = b := by
  cases a <;> cases b <;> simp_all [Json.ofOption]

theorem map_str_injective {a b : Option String} (same : a.map Json.str = b.map Json.str) :
    a = b :=
  Option.map_injective (fun _ _ => Json.str.inj) same

theorem map_tree_injective {a b : Option Value} (same : a.map Value.tree = b.map Value.tree) :
    a = b :=
  Option.map_injective (fun _ _ => Value.ext) same

theorem map_ofUInt64_injective {a b : Option UInt64}
    (same : (a.map Json.ofUInt64).getD .null = (b.map Json.ofUInt64).getD .null) : a = b := by
  cases a <;> cases b <;> simp_all [Json.ofUInt64]

/-! ## Domain records -/

/-- The members of a serialized domain record, absent ones included. -/
def DomainRecord.slots (r : DomainRecord) : List (String × Option Json) :=
  [("domain", some (.str r.domain)), ("tld", some (.str r.tld)), ("label", some (.str r.label)),
    ("owner_public_key", some (.str r.ownerPublicKey)),
    ("target_type", some (.str r.targetType.asStr)),
    ("manifest_hash", some (.str r.manifestHash)), ("service_id", r.serviceId.map .str),
    ("node_id", r.nodeId.map .str), ("status", some (.str r.status.asStr)),
    ("created_at", some (.str r.createdAt)), ("updated_at", some (.str r.updatedAt)),
    ("expires_at", r.expiresAt.map .str), ("renewal", r.renewal.map Value.tree),
    ("pricing", r.pricing.map Value.tree),
    ("signature_algorithm", some (.str r.signatureAlgorithm)),
    ("signature", some (Json.ofOption r.signature))]

theorem DomainRecord.toJson_eq (r : DomainRecord) : r.toJson = .obj (layout r.slots) := by
  simp only [toJson, List.append_assoc]
  rfl

theorem DomainRecord.slots_distinct (r : DomainRecord) : (r.slots.map Prod.fst).Nodup := by
  simp only [slots, List.map_cons, List.map_nil]
  decide

/-- A domain record is determined by its serialized form. -/
theorem DomainRecord.toJson_injective {r s : DomainRecord} (same : r.toJson = s.toJson) :
    r = s := by
  rw [r.toJson_eq, s.toJson_eq] at same
  have slots : r.slots = s.slots := layout_injective rfl r.slots_distinct (Json.obj.inj same)
  simp only [DomainRecord.slots, List.cons.injEq, Prod.mk.injEq, Option.some.injEq,
    Json.str.injEq, true_and, and_true] at slots
  obtain ⟨domain, tld, label, owner, target, manifest, service, node, status, created, updated,
    expires, renewal, pricing, algorithm, signature⟩ := slots
  cases r
  cases s
  simp_all only [DomainRecord.mk.injEq, true_and]
  exact ⟨TargetType.asStr_injective target, map_str_injective service, map_str_injective node,
    DomainStatus.asStr_injective status, map_str_injective expires, map_tree_injective renewal,
    map_tree_injective pricing, ofOption_injective signature⟩

/-- The serialized form of a domain record from JSON is readable. -/
theorem DomainRecord.FromJson.readable {r : DomainRecord} (json : r.FromJson) :
    r.toJson.Readable := by
  rw [r.toJson_eq]
  refine readable_layout ?_
  simp [slots, readableSlot_map_tree json.1, readableSlot_map_tree json.2]

/-! ## TLD records -/

/-- The members of a serialized TLD record, absent ones included. -/
def TldRecord.slots (r : TldRecord) : List (String × Option Json) :=
  [("tld", some (.str r.tld)), ("status", some (.str r.status.asStr)),
    ("mode", some (.str r.mode.asStr)), ("owner_public_key", some (.str r.ownerPublicKey)),
    ("operator_public_key", some (.str r.operatorPublicKey)),
    ("operator_name", some (.str r.operatorName)),
    ("registry_type", some (.str r.registryType.asStr)),
    ("registry_endpoint", r.registryEndpoint.map .str),
    ("registry_manifest_hash", r.registryManifestHash.map .str),
    ("registry_providers",
      if r.registryProviders = [] then none else some (.arr (r.registryProviders.map .str))),
    ("policy_hash", r.policyHash.map .str), ("pricing", r.pricing.map Value.tree),
    ("created_at", some (.str r.createdAt)), ("updated_at", some (.str r.updatedAt)),
    ("expires_at", r.expiresAt.map .str), ("notes", r.notes.map .str),
    ("signature_algorithm", some (.str r.signatureAlgorithm)),
    ("signature", some (Json.ofOption r.signature))]

theorem TldRecord.toJson_eq (r : TldRecord) : r.toJson = .obj (layout r.slots) := by
  simp only [toJson, List.append_assoc]
  rfl

theorem TldRecord.slots_distinct (r : TldRecord) : (r.slots.map Prod.fst).Nodup := by
  simp only [slots, List.map_cons, List.map_nil]
  decide

/-- Lists written only when they have items. -/
theorem written_list_injective {as bs : List String}
    (same : (if as = [] then none else some (Json.arr (as.map .str))) =
      if bs = [] then none else some (Json.arr (bs.map .str))) : as = bs := by
  split_ifs at same with left right right
  · rw [left, right]
  · exact List.map_injective_iff.mpr (fun _ _ => Json.str.inj)
      (Json.arr.inj (Option.some.inj same))

/-- A TLD record is determined by its serialized form. -/
theorem TldRecord.toJson_injective {r s : TldRecord} (same : r.toJson = s.toJson) : r = s := by
  rw [r.toJson_eq, s.toJson_eq] at same
  have slots : r.slots = s.slots := layout_injective rfl r.slots_distinct (Json.obj.inj same)
  simp only [TldRecord.slots, List.cons.injEq, Prod.mk.injEq, Option.some.injEq, Json.str.injEq,
    true_and, and_true] at slots
  obtain ⟨tld, status, mode, owner, operator, name, kind, endpoint, manifest, providers, policy,
    pricing, created, updated, expires, notes, algorithm, signature⟩ := slots
  cases r
  cases s
  simp_all only [TldRecord.mk.injEq, true_and]
  exact ⟨TldStatus.asStr_injective status, TldMode.asStr_injective mode,
    RegistryType.asStr_injective kind, map_str_injective endpoint, map_str_injective manifest,
    written_list_injective providers, map_str_injective policy, map_tree_injective pricing,
    map_str_injective expires, map_str_injective notes, ofOption_injective signature⟩

/-- The serialized form of a TLD record from JSON is readable. -/
theorem TldRecord.FromJson.readable {r : TldRecord} (json : r.FromJson) : r.toJson.Readable := by
  have providers : ReadableSlot (if r.registryProviders = [] then none
      else some (.arr (r.registryProviders.map .str))) := by
    split_ifs
    · simp [ReadableSlot]
    · rw [readableSlot_some]
      exact readableItems_iff.mpr (by simp)
  rw [r.toJson_eq]
  refine readable_layout ?_
  simp [slots, readableSlot_map_tree json, providers]

/-! ## Zones -/

/-- The members of a serialized event, absent ones included. -/
def AuditEvent.slots (e : AuditEvent) : List (String × Option Json) :=
  [("at", some (.str e.at_)), ("actor", some (.str e.actor)), ("action", some (.str e.action)),
    ("subject", some (.str e.subject)), ("detail", e.detail.map .str)]

theorem AuditEvent.toJson_eq (e : AuditEvent) : e.toJson = .obj (layout e.slots) := by
  simp only [toJson, slots, layout, List.flatMap_cons, List.flatMap_nil, List.append_nil]
  rfl

/-- An event is determined by its serialized form. -/
theorem AuditEvent.toJson_injective {e f : AuditEvent} (same : e.toJson = f.toJson) : e = f := by
  have distinct : (e.slots.map Prod.fst).Nodup := by
    simp only [slots, List.map_cons, List.map_nil]
    decide
  rw [e.toJson_eq, f.toJson_eq] at same
  have slots : e.slots = f.slots := layout_injective rfl distinct (Json.obj.inj same)
  simp only [AuditEvent.slots, List.cons.injEq, Prod.mk.injEq, Option.some.injEq, Json.str.injEq,
    true_and, and_true] at slots
  obtain ⟨time, actor, action, subject, detail⟩ := slots
  cases e
  cases f
  simp_all only [AuditEvent.mk.injEq, true_and]
  exact map_str_injective detail

theorem AuditEvent.readable (e : AuditEvent) : e.toJson.Readable := by
  rw [e.toJson_eq]
  refine readable_layout ?_
  simp [slots]

/-- A table is determined by its serialized rows. -/
theorem table_injective {α : Type} {toJson : α → Json}
    (injective : ∀ {a b : α}, toJson a = toJson b → a = b) {s t : Table String α}
    (same : s.toList.map (fun p => (p.1, toJson p.2)) = t.toList.map fun p => (p.1, toJson p.2)) :
    s = t := by
  refine Std.ExtTreeMap.toList_inj.mp (List.map_injective_iff.mpr (fun p q equal => ?_) same)
  obtain ⟨key, value⟩ := Prod.mk.inj equal
  exact Prod.ext key (injective value)

/-- A root zone is determined by its serialized form. -/
theorem RootZone.toJson_injective {y z : RootZone} (same : y.toJson = z.toJson) : y = z := by
  simp only [toJson, Json.obj.injEq, List.cons.injEq, Prod.mk.injEq, Json.str.injEq,
    Json.arr.injEq, Json.ofUInt64, Json.num.injEq, Number.posInt.injEq, true_and, and_true] at same
  obtain ⟨network, version, time, key, tlds, domains, audit, algorithm, signature⟩ := same
  cases y
  cases z
  simp_all only [RootZone.mk.injEq, true_and]
  exact ⟨table_injective TldRecord.toJson_injective tlds,
    table_injective DomainRecord.toJson_injective domains,
    List.map_injective_iff.mpr (fun _ _ => AuditEvent.toJson_injective) audit,
    ofOption_injective signature⟩

/-- The serialized rows of a table are readable when its values are. -/
theorem readable_table {α : Type} {toJson : α → Json} {t : Table String α}
    (each : ∀ (k : String) (a : α), t[k]? = some a → (toJson a).Readable) :
    (Json.obj (t.toList.map fun p => (p.1, toJson p.2))).Readable := by
  refine readableFields_iff.mpr fun field member => ?_
  obtain ⟨p, inside, rfl⟩ := List.mem_map.mp member
  exact each p.1 p.2 (Std.ExtTreeMap.mem_toList_iff_getElem?_eq_some.mp inside)

/-- The serialized form of a zone from JSON is readable. -/
theorem RootZone.FromJson.readable {z : RootZone} (json : z.FromJson) : z.toJson.Readable := by
  have tlds := readable_table fun k r found => TldRecord.FromJson.readable (json.tlds k r found)
  have domains := readable_table fun k r found =>
    DomainRecord.FromJson.readable (json.domains k r found)
  have audit : (Json.arr (z.audit.map AuditEvent.toJson)).Readable := by
    refine readableItems_iff.mpr fun item member => ?_
    obtain ⟨e, -, rfl⟩ := List.mem_map.mp member
    exact e.readable
  refine readableFields_iff.mpr ?_
  simp [tlds, domains, audit]

/-- A registry is determined by its serialized form. -/
theorem TldRegistry.toJson_injective {r s : TldRegistry} (same : r.toJson = s.toJson) : r = s := by
  simp only [toJson, Json.obj.injEq, List.cons.injEq, Prod.mk.injEq, Json.str.injEq,
    Json.ofUInt64, Json.num.injEq, Number.posInt.injEq, true_and, and_true] at same
  obtain ⟨tld, version, time, key, domains, algorithm, signature⟩ := same
  cases r
  cases s
  simp_all only [TldRegistry.mk.injEq, true_and]
  exact ⟨table_injective DomainRecord.toJson_injective domains, ofOption_injective signature⟩

/-- The serialized form of a registry from JSON is readable. -/
theorem TldRegistry.FromJson.readable {r : TldRegistry} (json : r.FromJson) :
    r.toJson.Readable := by
  have domains := readable_table fun k d found => (json k d found).readable
  refine readableFields_iff.mpr ?_
  simp [domains]

/-- A manifest is determined by its serialized form. -/
theorem Manifest.toJson_injective {m n : Manifest} (same : m.toJson = n.toJson) : m = n := by
  simp only [toJson, Json.obj.injEq, List.cons.injEq, Prod.mk.injEq, Json.str.injEq,
    Json.ofUInt64, Json.num.injEq, Number.posInt.injEq, true_and, and_true] at same
  obtain ⟨domain, version, entry, files, owner, time, algorithm, signature⟩ := same
  cases m
  cases n
  simp_all only [Manifest.mk.injEq, true_and]
  exact ⟨table_injective Json.str.inj files, ofOption_injective signature⟩

/-- The serialized form of a manifest is readable. -/
theorem Manifest.readable (m : Manifest) : m.toJson.Readable := by
  have files := readable_table (t := m.files) fun k hash found => readable_str hash
  refine readableFields_iff.mpr ?_
  simp [files]

/-! ## Requests, history and audit -/

/-- The tag that names the type of an action. -/
def MutationAction.tag : MutationAction → String
  | publishSite .. => "publish_site"
  | updateDomainManifest .. => "update_domain_manifest"
  | setDomainStatus .. => "set_domain_status"
  | issueDomain .. => "issue_domain"
  | delegateTld .. => "delegate_tld"
  | updateTld .. => "update_tld"
  | createTld .. => "create_tld"
  | reserveTld .. => "reserve_tld"
  | blockTld .. => "block_tld"
  | setTldStatus .. => "set_tld_status"
  | updateRegistryPointer .. => "update_registry_pointer"

/-- The optional members of an action. -/
def MutationAction.slots : MutationAction → List (String × Option Json)
  | publishSite domain manifestHash | updateDomainManifest domain manifestHash =>
    [("domain", some (.str domain)), ("manifest_hash", some (.str manifestHash))]
  | setDomainStatus domain status =>
    [("domain", some (.str domain)), ("status", some (.str status.asStr))]
  | issueDomain record => [("record", some record.toJson)]
  | delegateTld tld owner operator operatorName registryType endpoint expiresAt =>
    [("tld", some (.str tld)), ("owner_public_key", some (.str owner)),
      ("operator_public_key", some (.str operator)), ("operator_name", some (.str operatorName)),
      ("registry_type", some (.str registryType.asStr)),
      ("registry_endpoint", endpoint.map .str), ("expires_at", expiresAt.map .str)]
  | updateTld tld endpoint expiresAt notes =>
    [("tld", some (.str tld)), ("registry_endpoint", endpoint.map .str),
      ("expires_at", expiresAt.map .str), ("notes", notes.map .str)]
  | createTld tld purpose => [("tld", some (.str tld)), ("purpose", some (.str purpose))]
  | reserveTld tld reason | blockTld tld reason =>
    [("tld", some (.str tld)), ("reason", some (.str reason))]
  | setTldStatus tld status => [("tld", some (.str tld)), ("status", some (.str status.asStr))]
  | updateRegistryPointer tld registryHex =>
    [("tld", some (.str tld)), ("registry_hex", some (.str registryHex))]

theorem MutationAction.toJson_eq (a : MutationAction) :
    a.toJson = .obj (("type", .str a.tag) :: layout a.slots) := by
  cases a
  case delegateTld | updateTld =>
    simp only [toJson, slots, layout, List.flatMap_cons, List.flatMap_nil, List.append_nil,
      List.append_assoc]
    rfl
  all_goals rfl

theorem MutationAction.slots_distinct (a : MutationAction) : (a.slots.map Prod.fst).Nodup := by
  cases a <;> simp only [slots, List.map_cons, List.map_nil] <;> decide

/-- Actions with one tag have the same slots, and are equal when these are filled alike. -/
theorem MutationAction.slots_injective {a b : MutationAction} (tags : a.tag = b.tag) :
    a.slots.map Prod.fst = b.slots.map Prod.fst ∧ (a.slots = b.slots → a = b) := by
  cases a with
  | publishSite | updateDomainManifest | createTld | reserveTld | blockTld | updateRegistryPointer =>
    cases b <;> first
      | (simp [tag] at tags; done)
      | refine ⟨rfl, fun filled => ?_⟩
        simpa [slots] using filled
  | setDomainStatus =>
    cases b <;> first
      | (simp [tag] at tags; done)
      | refine ⟨rfl, fun filled => ?_⟩
        simp only [slots, List.cons.injEq, Prod.mk.injEq, Option.some.injEq, Json.str.injEq,
          true_and, and_true] at filled
        rw [filled.1, DomainStatus.asStr_injective filled.2]
  | issueDomain =>
    cases b <;> first
      | (simp [tag] at tags; done)
      | refine ⟨rfl, fun filled => ?_⟩
        simp only [slots, List.cons.injEq, Prod.mk.injEq, Option.some.injEq, true_and,
          and_true] at filled
        rw [DomainRecord.toJson_injective filled]
  | delegateTld =>
    cases b <;> first
      | (simp [tag] at tags; done)
      | refine ⟨rfl, fun filled => ?_⟩
        simp only [slots, List.cons.injEq, Prod.mk.injEq, Option.some.injEq, Json.str.injEq,
          true_and, and_true] at filled
        obtain ⟨rfl, rfl, rfl, rfl, kind, endpoint, expires⟩ := filled
        rw [RegistryType.asStr_injective kind, map_str_injective endpoint,
          map_str_injective expires]
  | updateTld =>
    cases b <;> first
      | (simp [tag] at tags; done)
      | refine ⟨rfl, fun filled => ?_⟩
        simp only [slots, List.cons.injEq, Prod.mk.injEq, Option.some.injEq, Json.str.injEq,
          true_and, and_true] at filled
        obtain ⟨rfl, endpoint, expires, notes⟩ := filled
        rw [map_str_injective endpoint, map_str_injective expires, map_str_injective notes]
  | setTldStatus =>
    cases b <;> first
      | (simp [tag] at tags; done)
      | refine ⟨rfl, fun filled => ?_⟩
        simp only [slots, List.cons.injEq, Prod.mk.injEq, Option.some.injEq, Json.str.injEq,
          true_and, and_true] at filled
        rw [filled.1, TldStatus.asStr_injective filled.2]

/-- An action is determined by its serialized form. -/
theorem MutationAction.toJson_injective {a b : MutationAction} (same : a.toJson = b.toJson) :
    a = b := by
  rw [a.toJson_eq, b.toJson_eq] at same
  obtain ⟨tag, members⟩ := List.cons.inj (Json.obj.inj same)
  obtain ⟨keys, filled⟩ := slots_injective (Json.str.inj (Prod.mk.inj tag).2)
  exact filled (layout_injective keys a.slots_distinct members)

/-- A request is determined by its serialized form. -/
theorem MutationRequest.toJson_injective {r s : MutationRequest} (same : r.toJson = s.toJson) :
    r = s := by
  simp only [toJson, Json.obj.injEq, List.cons.injEq, Prod.mk.injEq, Json.str.injEq,
    Json.ofUInt64, Json.num.injEq, Number.posInt.injEq, true_and, and_true] at same
  obtain ⟨id, nonce, time, actor, version, action, algorithm, signature⟩ := same
  cases r
  cases s
  simp_all only [MutationRequest.mk.injEq, true_and]
  exact ⟨MutationAction.toJson_injective action, ofOption_injective signature⟩

/-- The serialized form of a request from JSON is readable. -/
theorem MutationRequest.FromJson.readable {r : MutationRequest} (json : r.FromJson) :
    r.toJson.Readable := by
  have action : r.action.toJson.Readable := by
    rw [r.action.toJson_eq]
    refine ⟨readable_str _, readable_layout ?_⟩
    cases shape : r.action with
    | issueDomain record => simp [MutationAction.slots, DomainRecord.FromJson.readable (json record shape)]
    | _ => simp [MutationAction.slots]
  refine readableFields_iff.mpr ?_
  simp [action]

/-- A history entry is determined by its serialized form. -/
theorem AppliedMutation.toJson_injective {m n : AppliedMutation} (same : m.toJson = n.toJson) :
    m = n := by
  simp only [toJson, Json.obj.injEq, List.cons.injEq, Prod.mk.injEq, Json.str.injEq,
    Json.ofUInt64, Json.num.injEq, Number.posInt.injEq, true_and, and_true] at same
  obtain ⟨mutation, event, time, version⟩ := same
  cases m
  cases n
  simp_all only [AppliedMutation.mk.injEq, and_true]
  exact MutationRequest.toJson_injective mutation

/-- The serialized form of a history entry from JSON is readable. -/
theorem AppliedMutation.readable {m : AppliedMutation} (json : m.mutation.FromJson) :
    m.toJson.Readable := by
  refine readableFields_iff.mpr ?_
  simp [json.readable]

/-- An audit event is determined by its serialized form. -/
theorem AuditRecord.toJson_injective {e f : AuditRecord} (same : e.toJson = f.toJson) : e = f := by
  simp only [toJson, Json.obj.injEq, List.cons.injEq, Prod.mk.injEq, Json.str.injEq, true_and,
    and_true] at same
  obtain ⟨event, mutation, actor, role, action, type, target, before, after, time, algorithm,
    signature⟩ := same
  cases e
  cases f
  simp_all only [AuditRecord.mk.injEq, true_and]
  exact ofOption_injective signature

/-- The serialized form of an audit event is readable. -/
theorem AuditRecord.readable (e : AuditRecord) : e.toJson.Readable := by
  refine readableFields_iff.mpr ?_
  simp

/-! ## Nodes -/

/-- The members of a serialized registration, absent ones included. -/
def NodeRegistration.slots (r : NodeRegistration) : List (String × Option Json) :=
  [("node_id", some (.str r.nodeId)), ("public_key", some (.str r.publicKey)),
    ("roles", some (.arr (r.roles.map fun role => .str role.asStr))),
    ("public_ips", some (.arr (r.publicIps.map .str))), ("region", some (.str r.region)),
    ("version", some (.str r.version)), ("capacity", some r.capacity.toJson),
    ("health_endpoint", some (.str r.healthEndpoint)),
    ("native_port", r.nativePort.map fun port => Json.ofUInt64 port.toUInt64),
    ("registered_at", some (.str r.registeredAt)),
    ("signature_algorithm", some (.str r.signatureAlgorithm)),
    ("signature", some (Json.ofOption r.signature))]

theorem NodeRegistration.toJson_eq (r : NodeRegistration) : r.toJson = .obj (layout r.slots) := by
  simp only [toJson, List.append_assoc]
  rfl

/-- The members of a serialized table entry, absent ones included. -/
def TrackedNode.slots (e : TrackedNode) : List (String × Option Json) :=
  e.registration.slots ++
    [("status", some (.str e.status.asStr)), ("last_seen", some (.str e.lastSeen)),
      ("latency_ms", some ((e.latencyMs.map Json.ofUInt64).getD .null)),
      ("consecutive_failures", some (Json.ofUInt64 e.consecutiveFailures.toUInt64))]

theorem TrackedNode.toJson_eq (e : TrackedNode) : e.toJson = .obj (layout e.slots) := by
  simp only [toJson, NodeRegistration.toJson_eq, slots, layout, List.flatMap_append]
  rfl

/-- A table entry is determined by its serialized form. -/
theorem TrackedNode.toJson_injective {e f : TrackedNode} (same : e.toJson = f.toJson) : e = f := by
  have distinct : (e.slots.map Prod.fst).Nodup := by
    simp only [slots, NodeRegistration.slots, List.map_append, List.map_cons, List.map_nil]
    decide
  have keys : e.slots.map Prod.fst = f.slots.map Prod.fst := rfl
  rw [e.toJson_eq, f.toJson_eq] at same
  have slots : e.slots = f.slots := layout_injective keys distinct (Json.obj.inj same)
  simp only [TrackedNode.slots, NodeRegistration.slots, List.cons_append, List.nil_append,
    List.cons.injEq, Prod.mk.injEq, Option.some.injEq, Json.str.injEq, Json.arr.injEq,
    NodeCapacity.toJson, Json.obj.injEq, Json.ofUInt64, Json.num.injEq, Number.posInt.injEq,
    true_and, and_true] at slots
  obtain ⟨node, key, roles, ips, region, version, capacity, endpoint, port, registered, algorithm,
    signature, status, seen, latency, failures⟩ := slots
  have sameRoles := List.map_injective_iff.mpr
    (fun _ _ equal => NodeRole.asStr_injective (Json.str.inj equal)) roles
  have sameIps := List.map_injective_iff.mpr (fun _ _ => Json.str.inj) ips
  have samePort : e.registration.nativePort = f.registration.nativePort :=
    Option.map_injective
      (fun _ _ equal => UInt16.toUInt64_inj.mp (by simpa [Json.ofUInt64] using equal)) port
  have sameLatency := map_ofUInt64_injective latency
  have sameFailures := UInt32.toUInt64_inj.mp failures
  obtain ⟨storage, bandwidth⟩ := capacity
  cases e with
  | mk left status seen latency failures =>
    cases left with
    | mk id key roles ips region version capacity =>
      cases capacity
      cases f with
      | mk right status seen latency failures =>
        cases right with
        | mk id key roles ips region version capacity =>
          cases capacity
          simp_all only [TrackedNode.mk.injEq, NodeRegistration.mk.injEq, true_and, and_true]
          exact ⟨ofOption_injective signature, NodeStatus.asStr_injective status⟩

/-- The serialized form of a table entry is readable. -/
theorem TrackedNode.readable (e : TrackedNode) : e.toJson.Readable := by
  have roles : (Json.arr (e.registration.roles.map fun role => .str role.asStr)).Readable :=
    readableItems_iff.mpr (by simp)
  have ips : (Json.arr (e.registration.publicIps.map .str)).Readable :=
    readableItems_iff.mpr (by simp)
  have capacity : e.registration.capacity.toJson.Readable := readableFields_iff.mpr (by simp)
  have port : ReadableSlot
      (e.registration.nativePort.map fun port => Json.ofUInt64 port.toUInt64) := by
    cases e.registration.nativePort <;> simp [ReadableSlot]
  have latency : ((e.latencyMs.map Json.ofUInt64).getD .null).Readable := by
    cases e.latencyMs <;> trivial
  rw [e.toJson_eq]
  refine readable_layout ?_
  simp [slots, NodeRegistration.slots, roles, ips, capacity, port, latency]

/-- A list of table entries is determined by its serialized form. -/
theorem TrackedNode.list_injective {es fs : List TrackedNode}
    (same : Json.arr (es.map TrackedNode.toJson) = .arr (fs.map TrackedNode.toJson)) : es = fs :=
  List.map_injective_iff.mpr (fun _ _ => TrackedNode.toJson_injective) (Json.arr.inj same)

/-- The serialized form of a list of table entries is readable. -/
theorem TrackedNode.readable_list (es : List TrackedNode) :
    (Json.arr (es.map TrackedNode.toJson)).Readable := by
  refine readableItems_iff.mpr fun item member => ?_
  obtain ⟨e, -, rfl⟩ := List.mem_map.mp member
  exact e.readable

/-! ## Messages -/

/-- The tag of a message. -/
def Message.tag : Message → String
  | hello .. => "hello"
  | welcome .. => "welcome"
  | getRoot => "get-root"
  | root .. => "root"
  | getManifest .. => "get-manifest"
  | manifest .. => "manifest"
  | getBlock .. => "get-block"
  | block .. => "block"
  | getProviders .. => "get-providers"
  | providers .. => "providers"
  | getTldRegistry .. => "get-tld-registry"
  | tldRegistry .. => "tld-registry"
  | getDomainRecord .. => "get-domain-record"
  | domainRecord .. => "domain-record"
  | getStatus => "get-status"
  | status .. => "status"
  | error .. => "error"

theorem Message.toJson_tag (m : Message) :
    ∃ members, m.toJson = .obj (("type", .str m.tag) :: members) := by
  cases m <;> exact ⟨_, rfl⟩

theorem bytesJson_injective {a b : Bytes} (same : bytesJson a = bytesJson b) : a = b := by
  refine List.map_injective_iff.mpr (fun m n equal => ?_) (Json.arr.inj same)
  simpa [← UInt64.toNat_inj, ← UInt8.toNat_inj] using equal

theorem ofUInt16_injective {m n : UInt16}
    (same : Json.num (.posInt m.toUInt64) = .num (.posInt n.toUInt64)) : m = n := by
  simpa [← UInt64.toNat_inj, ← UInt16.toNat_inj] using same

/-- A message is determined by its serialized form. -/
theorem Message.toJson_injective {a b : Message} (same : a.toJson = b.toJson) : a = b := by
  have tags : a.tag = b.tag := by
    obtain ⟨members, left⟩ := a.toJson_tag
    obtain ⟨members', right⟩ := b.toJson_tag
    rw [left, right] at same
    exact Json.str.inj (Prod.mk.inj (List.cons.inj (Json.obj.inj same)).1).2
  cases a with
  | getRoot | getStatus => cases b <;> first | (simp [tag] at tags; done) | rfl
  | getManifest | getBlock | getProviders | getTldRegistry | getDomainRecord =>
    cases b <;> first | (simp [tag] at tags; done) | simpa [toJson] using same
  | root =>
    cases b <;> first
      | (simp [tag] at tags; done)
      | simp only [toJson, Json.obj.injEq, List.cons.injEq, Prod.mk.injEq, true_and,
          and_true] at same
        rw [bytesJson_injective same]
  | manifest | block | providers | tldRegistry | domainRecord =>
    cases b <;> first
      | (simp [tag] at tags; done)
      | simp only [toJson, Json.obj.injEq, List.cons.injEq, Prod.mk.injEq, Json.str.injEq,
          true_and, and_true] at same
        rw [bytesJson_injective same.2, same.1]
  | hello =>
    cases b <;> first
      | (simp [tag] at tags; done)
      | simp only [toJson, Json.obj.injEq, List.cons.injEq, Prod.mk.injEq, Json.str.injEq,
          Json.arr.injEq, true_and, and_true] at same
        obtain ⟨versions, rfl, rfl⟩ := same
        rw [List.map_injective_iff.mpr (fun _ _ => ofUInt16_injective) versions]
  | welcome =>
    cases b <;> first
      | (simp [tag] at tags; done)
      | simp only [toJson, List.cons.injEq, Prod.mk.injEq, true_and, and_true, Json.obj.injEq,
          Json.str.injEq, Json.arr.injEq] at same
        obtain ⟨version, rfl, rfl, capabilities⟩ := same
        have names : ∀ c c' : Capability, Json.str c.asStr = .str c'.asStr → c = c' :=
          fun _ _ equal => Capability.asStr_injective (Json.str.inj equal)
        rw [ofUInt16_injective version, List.map_injective_iff.mpr names capabilities]
  | status =>
    cases b <;> first
      | (simp [tag] at tags; done)
      | simp only [toJson, Json.obj.injEq, List.cons.injEq, Prod.mk.injEq, Json.str.injEq,
          Json.arr.injEq, true_and, and_true] at same
        obtain ⟨rfl, roles, rfl, rfl, root⟩ := same
        rw [List.map_injective_iff.mpr (fun _ _ => Json.str.inj) roles, map_ofUInt64_injective root]
  | error =>
    cases b <;> first
      | (simp [tag] at tags; done)
      | simp only [toJson, Json.obj.injEq, List.cons.injEq, Prod.mk.injEq, Json.str.injEq,
          true_and, and_true] at same
        rw [ErrorCode.asStr_injective same.1, same.2]

/-- The serialized form of a message is readable. -/
theorem Message.readable (m : Message) : m.toJson.Readable := by
  have numbers {α : Type} (f : α → UInt64) (items : List α) :
      (Json.arr (items.map fun a => .num (.posInt (f a)))).Readable := by
    refine readableItems_iff.mpr fun item member => ?_
    obtain ⟨a, -, rfl⟩ := List.mem_map.mp member
    trivial
  have strings {α : Type} (f : α → String) (items : List α) :
      (Json.arr (items.map fun a => .str (f a))).Readable := readableItems_iff.mpr (by simp)
  have bytes (bytes : Bytes) : (bytesJson bytes).Readable := numbers UInt8.toUInt64 bytes
  cases m with
  | status nodeId roles region agent rootVersion =>
    have version : ((rootVersion.map Json.ofUInt64).getD .null).Readable := by
      cases rootVersion <;> trivial
    have names := strings id roles
    refine readableFields_iff.mpr ?_
    simpa [version] using names
  | hello versions nodeId agent =>
    have spoken := numbers UInt16.toUInt64 versions
    refine readableFields_iff.mpr ?_
    simp [spoken]
  | welcome version nodeId agent capabilities =>
    have chosen : (Json.num (.posInt version.toUInt64)).Readable := trivial
    have offered := strings Capability.asStr capabilities
    refine readableFields_iff.mpr ?_
    simp [chosen, offered]
  | _ =>
    refine readableFields_iff.mpr ?_
    simp [bytes]

end Federate
