import Federate.Origin
import Federate.Verif.Availability
import Federate.Verif.Frame
import Federate.Verif.History
import Federate.Verif.Nonces
import Federate.Verif.Sizes
import Federate.Verif.Updates
import Federate.Verif.Versions

/-!
# A visit

From an accepted site package to the screen of a visitor. What Node 1 answers passes every check of
a resolver that has nothing but the root key, so that a page that the registry hosts is resolved to
bytes of its address, whatever the directory and the other providers say; and an accepted package
makes the registry host its pages, for as long as the record points at its manifest.
-/

namespace Federate

open Outcome Stateful Resolver RegistryStore

variable [Externals]

/-- The message fits in a frame. -/
def Sendable (message : Message) : Prop := ∃ frame, encode message = .ok frame

/-- The answer of Node 1 to any message of a session. -/
def Origin.reply (nodeId : String) (s : RegistryStore) : Message → Message
  | .hello versions visitor agentName =>
    ((Origin.service nodeId).answerHello supportedVersions Origin.agent
      (.hello versions visitor agentName)).1
  | request => Origin.handle nodeId s request

/-- Behind the address is Node 1 with this registry: it can be dialed, and its answers arrive when
they fit in a frame. -/
structure Origin.Serves (nodeId : String) (s : RegistryStore) (env : Environment) (addr : String) :
    Prop where
  /-- It can be dialed. -/
  dial : ∀ n, env.dial n addr = .ok ()
  /-- It answers. -/
  answers : ∀ n request, Sendable (Origin.reply nodeId s request) →
    env.exchange n addr request = .ok (Origin.reply nodeId s request)

/-- A page: what leads from a path of a domain to the bytes of a file. -/
structure SitePage where
  /-- The domain. -/
  domain : FederateDomain
  /-- The path. -/
  path : String
  /-- The record of the domain. -/
  record : DomainRecord
  /-- The file that the manifest of the record selects for the path. -/
  file : String
  /-- The address of the file. -/
  hash : String

/-- The registry hosts the page, at every reading of a clock. -/
structure RegistryStore.Hosts [SerdeDocuments] (s : RegistryStore) (clock : ℕ → DateTime)
    (page : SitePage) : Prop where
  /-- The TLD is in force, and its records are in the zone. -/
  tld : ∃ tldRec, s.zone.lookupTld page.domain.tld = some tldRec ∧
    tldRec.registryType = .rootManaged ∧ tldRec.status.isResolvable = true ∧
    ∀ n, tldRec.isExpired (clock n) = false
  /-- So is the record of the domain. -/
  held : s.zone.lookup page.domain.fqdn = some page.record
  /-- It is in force. -/
  inForce : InForce page.domain page.record
  /-- Its lease has not passed. -/
  current : ∀ n, page.record.isExpired (clock n) = false
  /-- The manifest is stored and the owner's, and selects the file for the path. -/
  manifest : ∃ bytes m, s.manifests[page.record.manifestHash]? = some bytes ∧
    SerdeDocuments.manifest bytes = .ok m ∧ m.validate = .ok () ∧
    m.verify page.domain.fqdn page.record.ownerPublicKey = .ok () ∧
    m.resolvePath page.path = some (page.file, page.hash)
  /-- The block is stored. -/
  block : (s.block page.hash).isSome

/-- What Node 1 answers on the way to a page keeps to the limits. -/
structure Origin.Fits (nodeId : String) (s : RegistryStore) (r : Resolver) (page : SitePage) :
    Prop where
  /-- The greeting fits in a frame. -/
  greeting : Sendable (Origin.reply nodeId s (.hello supportedVersions r.nodeId Federate.agent))
  /-- The zone is short enough for a resolver. -/
  zone : (Externals.toVec s.zone.toJson).length ≤ maxRootBytes
  /-- So is the manifest. -/
  manifest : ∀ bytes : Bytes, s.manifests[page.record.manifestHash]? = some bytes →
    bytes.length ≤ maxManifestBytes
  /-- The digits of the block fit in a frame. -/
  block : ∀ bytes, s.block page.hash = some bytes → blockBodyBytes bytes ≤ maxFrameBytes

/-- A visitor whose resolver has the root key and neither a zone nor the manifest of the page, with
Node 1 as its first native provider, and a disk that can be written. -/
structure Visiting (nodeId addr key : String) (s : RegistryStore) (r : Resolver) (env : Environment)
    (page : SitePage) (v : ResolverState) : Prop where
  /-- Node 1 is asked first. -/
  first : r.nativeProviders.head? = some addr
  /-- Node 1 is behind the address. -/
  serves : Origin.Serves nodeId s env addr
  /-- Its answers fit. -/
  fits : Origin.Fits nodeId s r page
  /-- The disk can be written. -/
  writes : ∀ n, env.file n = .ok ()
  /-- The resolver has the root key. -/
  key : v.trustedRootKey = some key
  /-- It holds no zone. -/
  root : v.root = none
  /-- Nor has it stored one. -/
  zone : v.disk.rootZone = none
  /-- Nor the manifest. -/
  manifest : v.disk.manifests[page.record.manifestHash]? = none

/-- The blocks that the registry serves are the files that have their address. -/
theorem block_eq_some {s : RegistryStore} {hash : String} {bytes : Bytes} :
    s.block hash = some bytes ↔ s.files.blocks[hash]? = some bytes ∧ hashBytes bytes = hash := by
  have read : s.getBlock hash = .ok bytes ↔ isValidHash hash = true ∧
      s.files.blocks[hash]? = some bytes ∧ isValidHash hash = true ∧ hashBytes bytes = hash := by
    simp only [getBlock, bind_eq_ok, rejectIf_eq_ok, okOr_eq_ok, verifyHash_eq_ok, pure_eq_ok,
      exists_const, Bool.not_eq_false]
    constructor
    · intro found
      obtain ⟨valid, bytes', held, passes, rfl⟩ := found
      exact ⟨valid, held, passes⟩
    · intro found
      exact ⟨found.1, bytes, found.2.1, found.2.2, rfl⟩
  have served : s.block hash = some bytes ↔ s.getBlock hash = .ok bytes := by
    rw [block]
    cases s.getBlock hash <;> simp [Except.toOption]
  rw [served, read]
  constructor
  · intro found
    exact ⟨found.2.1, found.2.2.2⟩
  · intro found
    have valid : isValidHash hash = true := found.2 ▸ isValidHash_hashBytes bytes
    exact ⟨valid, found.1, valid, found.2⟩

/-! ## Frames -/

section Frames

omit [Externals] in
/-- The array of a byte vector has at most four times its size. -/
theorem length_bytesJson_le (bytes : Bytes) :
    (Json.compact (bytesJson bytes)).length ≤ 4 * bytes.length + 2 := by
  have each : ∀ b : UInt8, digits b ≤ 3 := by
    intro b
    have below : b.toNat < 10 ^ 3 := lt_trans b.toNat_lt (by decide)
    exact (Nat.length_toDigits_le_iff (by decide) (by decide)).mpr below
  have sum : (bytes.map digits).sum ≤ 3 * bytes.length := by
    have bounded := List.sum_le_card_nsmul (bytes.map digits) 3 (by
      intro size member
      obtain ⟨b, -, rfl⟩ := List.mem_map.mp member
      exact each b)
    rw [List.length_map, smul_eq_mul] at bounded
    omega
  have size := length_bytesJson bytes
  omega

/-- A zone that a resolver takes fits in a frame. -/
theorem sendable_root (serializes : MessagesCompact) {zoneJson : Bytes}
    (short : zoneJson.length ≤ maxRootBytes) : Sendable (.root zoneJson) := by
  have kind : (Json.stringText "type" ++ ([0x3A] ++ Json.compact (.str "root"))).length = 13 := by
    decide +kernel
  have key : (Json.stringText "zone_json").length = 11 := by decide +kernel
  have size : (Json.compact (Message.root zoneJson).toJson).length ≤ maxFrameBytes := by
    rw [Message.toJson, Json.compact, List.length_append, List.length_append,
      Encoding.length_intercalate]
    simp only [Json.compactFields, List.map_cons, List.map_nil, List.sum_cons, List.sum_nil, kind,
      List.length_append, List.length_cons, List.length_nil, key]
    have bytes := length_bytesJson_le zoneJson
    have limits : maxRootBytes = 16777216 ∧ maxFrameBytes = 71303168 := by decide
    omega
  exact ⟨_, encode_eq_ok.mpr ⟨serializes _ ▸ size, rfl⟩⟩

/-- The signature makes a zone at most 126 bytes longer. -/
theorem RootZone.length_signedBy (z : RootZone) (root : NodeIdentity) :
    (Json.compact (z.signedBy root).toJson).length ≤
      (Json.compact (RootZone.toJson { z with signature := none })).length + 126 := by
  have text : (Json.compact (Json.ofOption (some (root.sign z.signableBytes)))).length = 130 :=
    length_signatureText root _
  have null : (Json.compact (Json.ofOption none)).length = 4 := by decide +kernel
  rw [RootZone.toJson, RootZone.toJson, RootZone.signedBy, Json.compact, Json.compact]
  simp only [List.length_append, Encoding.length_intercalate, Json.compactFields, List.map_cons,
    List.map_nil, List.sum_cons, List.sum_nil, List.length_cons, List.length_nil, text, null]
  omega

omit [Externals] in
/-- The parts of a zone's text. -/
theorem RootZone.length_parts (z : RootZone) : (Json.compact z.toJson).length ≤
    (Json.compact (RootZone.toJson { z with tlds := ∅, domains := ∅, audit := [] })).length +
      (Json.compact (.obj (z.tlds.toList.map fun p => (p.1, p.2.toJson)))).length +
      (Json.compact (.obj (z.domains.toList.map fun p => (p.1, p.2.toJson)))).length +
      (Json.compact (.arr (z.audit.map AuditEvent.toJson))).length := by
  rw [RootZone.toJson, RootZone.toJson]
  generalize Json.obj (z.tlds.toList.map fun p => (p.1, p.2.toJson)) = tlds
  generalize Json.obj (z.domains.toList.map fun p => (p.1, p.2.toJson)) = domains
  generalize Json.arr (z.audit.map AuditEvent.toJson) = audit
  rw [Json.compact, Json.compact]
  simp only [List.length_append, Encoding.length_intercalate, Json.compactFields, List.map_cons,
    List.map_nil, List.sum_cons, List.sum_nil, List.length_cons, List.length_nil]
  omega

/-- The text of an event that names a mutation. -/
theorem AuditEvent.length_named (e : AuditEvent) {bytes : Bytes}
    (detail : e.detail = some (hashBytes bytes)) : (Json.compact e.toJson).length ≤
      (Json.compact (AuditEvent.toJson { e with detail := none })).length + 80 := by
  have text : (Json.compact (.str (hashBytes bytes))).length = 66 := length_hashText bytes
  have key : (Json.stringText "detail").length = 8 := by decide +kernel
  rw [AuditEvent.toJson, AuditEvent.toJson, detail, Json.compact, Json.compact]
  simp only [List.length_append, Encoding.length_intercalate, Json.compactFields, List.map_cons,
    List.map_nil, List.sum_cons, List.sum_nil, List.length_cons, List.length_nil, Json.optField,
    Option.map_some, Option.map_none, Option.toList_some, Option.toList_none, List.cons_append,
    List.nil_append, List.append_nil, text, key]
  omega

/-- The text of a signed record that names a manifest. -/
theorem DomainRecord.length_signedBy (r : DomainRecord) (operator : NodeIdentity) {bytes : Bytes}
    (manifest : r.manifestHash = hashBytes bytes) :
    (Json.compact (r.signedBy operator).toJson).length ≤
      (Json.compact (DomainRecord.toJson { r with manifestHash := "", signature := none })).length +
        190 := by
  have text : (Json.compact (.str (hashBytes bytes))).length = 66 := length_hashText bytes
  have signed :
      (Json.compact (Json.ofOption (some (operator.sign r.signableBytes)))).length = 130 :=
    length_signatureText operator _
  have null : (Json.compact (Json.ofOption none)).length = 4 := by decide +kernel
  have empty : (Json.compact (.str "")).length = 2 := by decide +kernel
  rw [DomainRecord.toJson, DomainRecord.toJson, DomainRecord.signedBy, Json.compact, Json.compact]
  simp only [Json.compactFields_eq, List.length_append, Encoding.length_intercalate,
    List.map_append, List.sum_append, List.map_cons,
    List.map_nil, List.sum_cons, List.sum_nil, List.length_cons, List.length_nil, List.length_map,
    Json.memberText, manifest, signed, null, text, empty]
  omega

/-- A manifest that a resolver takes fits in a frame. -/
theorem sendable_manifest (serializes : MessagesCompact) {bytes : Bytes}
    (short : bytes.length ≤ maxManifestBytes) : Sendable (.manifest (hashBytes bytes) bytes) := by
  have kind : (Json.stringText "type" ++ ([0x3A] ++ Json.compact (.str "manifest"))).length =
      17 := by decide +kernel
  have hashKey : (Json.stringText "hash").length = 6 := by decide +kernel
  have bytesKey : (Json.stringText "bytes").length = 7 := by decide +kernel
  have hash : (Json.compact (.str (hashBytes bytes))).length = 66 := by
    rw [Json.compact, Json.scalarText, length_hashText]
  have size : (Json.compact (Message.manifest (hashBytes bytes) bytes).toJson).length ≤
      maxFrameBytes := by
    rw [Message.toJson, Json.compact, List.length_append, List.length_append,
      Encoding.length_intercalate]
    simp only [Json.compactFields, List.map_cons, List.map_nil, List.sum_cons, List.sum_nil, kind,
      List.length_append, List.length_cons, List.length_nil, hashKey, bytesKey, hash]
    have array := length_bytesJson_le bytes
    have limits : maxManifestBytes = 4194304 ∧ maxFrameBytes = 71303168 := by decide
    omega
  exact ⟨_, encode_eq_ok.mpr ⟨serializes _ ▸ size, rfl⟩⟩

end Frames

/-! ## The stages of a visit -/

section Stages

variable [ResolverExternals] {nodeId addr key : String} {s : RegistryStore} {r : Resolver}
  {env : Environment} {page : SitePage} {v : ResolverState}

omit [ResolverExternals] in
/-- A request to Node 1 is answered after a handshake. -/
theorem Origin.Serves.answersNative (serves : Origin.Serves nodeId s env addr)
    (greets : Sendable (Origin.reply nodeId s (.hello supportedVersions r.nodeId Federate.agent)))
    {request : Message} (fits : Sendable (Origin.reply nodeId s request)) (start : ℕ) :
    AnswersNative r env start addr request (· = Origin.reply nodeId s request) where
  dial n _ := serves.dial n
  welcome n _ := by
    refine ⟨1, nodeId, Origin.agent, (Origin.service nodeId).capabilities, ?_, by decide⟩
    exact serves.answers n _ greets
  answers n _ := ⟨_, serves.answers n request fits, rfl⟩

omit [Externals] [ResolverExternals] in
/-- The first item that yields ends a search. -/
theorem exec_tryEach_first {ι : Type} {α : Type} {stop : FederateError → Bool}
    {fetch : ι → ResolverM α} {fallback : ResolverM α} {items : List ι} {item : ι}
    {s s' : ResolverState} {value : α} (first : items.head? = some item)
    (found : exec (fetch item) s = (.ok value, s')) :
    exec (tryEach stop fetch fallback items) s = (.ok value, s') := by
  obtain ⟨rest, rfl⟩ := List.head?_eq_some_iff.mp first
  rw [tryEach, exec_bind, exec_attempt, found]
  rfl

variable [SerdeDocuments]

/-- The zone of Node 1 is fetched. -/
theorem exec_fetchRootNetwork_origin (serializes : MessagesCompact)
    (first : r.nativeProviders.head? = some addr) (serves : Origin.Serves nodeId s env addr)
    (greets : Sendable (Origin.reply nodeId s (.hello supportedVersions r.nodeId Federate.agent)))
    (short : (Externals.toVec s.zone.toJson).length ≤ maxRootBytes)
    (reads : SerdeDocuments.rootZone (Externals.toVec s.zone.toJson) = .ok s.zone)
    (valid : s.zone.validate = .ok ()) :
    exec (r.fetchRootNetwork env) v = (.ok s.zone, v.after 3) := by
  have sendable : Sendable (Origin.reply nodeId s .getRoot) := sendable_root serializes short
  have answers := serves.answersNative greets sendable 0
  obtain ⟨version, message, connected, answered, rfl⟩ := answers.exec (Nat.zero_le v.ticks)
  have reply : Origin.reply nodeId s .getRoot = .root (Externals.toVec s.zone.toJson) := rfl
  refine exec_tryEach_first first ?_
  rw [fetchRootNative, exec_bind_ok connected, exec_bind, exec_ask, answered, reply]
  simp only
  rw [exec_bind, exec_lift, rejectIf, if_neg (not_lt.mpr short)]
  simp only
  rw [exec_bind, exec_lift, serde_eq_ok.mpr reads]
  simp only
  rw [exec_bind, exec_lift, valid]
  rfl

/-- The visitor takes the zone of Node 1. -/
theorem exec_root_visiting (serializes : MessagesCompact)
    (visiting : Visiting nodeId addr key s r env page v)
    (reads : SerdeDocuments.rootZone (Externals.toVec s.zone.toJson) = .ok s.zone)
    (valid : s.zone.validate = .ok ()) (trusted : s.zone.verify key = .ok ()) :
    ∃ v', exec (r.root env) v = (.ok s.zone, v') ∧ v'.trustedRootKey = some key ∧
      v'.disk.manifests = v.disk.manifests := by
  have fetched : exec (r.fetchRootNetwork env) v = (.ok s.zone, v.after 3) :=
    exec_fetchRootNetwork_origin serializes visiting.first visiting.serves visiting.fits.greeting
      visiting.fits.zone reads valid
  have pinned : (v.after 3).trustedRootKey = some key := visiting.key
  have looked : exec (lastVerifiedZone env) (v.after 3) = (.ok none, v.after 3) := by
    have unheld : (v.after 3).root = none := visiting.root
    have uncached : (v.after 3).disk.rootZone = none := visiting.zone
    have missing : exec (verifiedCache env) (v.after 3) =
        (.error (.io "No such file or directory (os error 2)"), v.after 3) := by
      simp [verifiedCache, rootCacheLoad, readFile, exec_bind, uncached, okOr]
    rw [lastVerifiedZone, exec_bind_ok (exec_get _)]
    simp only [unheld]
    rw [exec_bind, exec_attempt, missing]
    rfl
  have accepted : exec (acceptRoot env s.zone) (v.after 3) = (.ok s.zone, { v.after 4 with
      root := some s.zone
      disk := { v.disk with rootZone := some (Externals.toVecPretty s.zone.toJson) } }) := by
    rw [acceptRoot, exec_bind_ok looked, rootCacheStore]
    simp only
    rw [exec_bind_ok (Environment.exec_changeFile (visiting.writes _) _)]
    rfl
  have rooted : exec (r.root env) v = exec (acceptRoot env s.zone) (v.after 3) := by
    rw [Resolver.root, exec_bind_ok (exec_get v)]
    simp only [visiting.root]
    rw [refreshRoot, exec_bind, exec_attempt, fetched]
    simp only
    rw [exec_bind, exec_attempt, exec_verifyZone_pinned pinned, trusted]
  exact ⟨_, rooted.trans accepted, visiting.key, rfl⟩

/-- The manifest of Node 1 is fetched. -/
theorem exec_manifest_visiting (serializes : MessagesCompact)
    (visiting : Visiting nodeId addr key s r env page v)
    {bytes : Bytes} {m : Manifest} (stored : s.manifests[page.record.manifestHash]? = some bytes)
    (hashed : hashBytes bytes = page.record.manifestHash)
    (reads : SerdeDocuments.manifest bytes = .ok m) (valid : m.validate = .ok ())
    {v' : ResolverState} (unheld : v'.disk.manifests = v.disk.manifests) :
    ∃ v'', exec (r.manifest env page.record.manifestHash) v' = (.ok m, v'') := by
  have fits := visiting.fits
  have reply : Origin.reply nodeId s (.getManifest page.record.manifestHash) =
      .manifest page.record.manifestHash bytes := by
    show Origin.handle nodeId s (.getManifest page.record.manifestHash) = _
    simp only [Origin.handle, stored]
  have short := fits.manifest bytes stored
  have sendable : Sendable (Origin.reply nodeId s (.getManifest page.record.manifestHash)) := by
    rw [reply, ← hashed]
    exact sendable_manifest serializes short
  have answers := visiting.serves.answersNative fits.greeting sendable 0
  obtain ⟨version, message, connected, answered, rfl⟩ := answers.exec (Nat.zero_le v'.ticks)
  obtain ⟨address, passes⟩ := verifyHash_of_hashBytes hashed
  have fetched : exec (r.fetchManifestNetwork env page.record.manifestHash) v' =
      (.ok bytes, v'.after 3) := by
    refine exec_tryEach_first visiting.first ?_
    rw [fetchManifestNative, exec_bind_ok connected, exec_bind, exec_ask, answered, reply]
    simp only
    rw [exec_bind, exec_lift, rejectIf, if_neg (not_lt.mpr short)]
    simp only
    rw [exec_bind, exec_lift, passes]
    rfl
  have missing : v'.disk.manifests[page.record.manifestHash]? = none := by
    rw [unheld]
    exact visiting.manifest
  have cached : ∃ v'', exec (r.manifestBytes env page.record.manifestHash) v' =
      (.ok bytes, v'') := by
    rw [manifestBytes, exec_bind, exec_lift, rejectIf, if_neg (by simp [address])]
    simp only
    rw [exec_bind_ok (exec_get v')]
    simp only [missing]
    rw [exec_bind_ok fetched, exec_bind_ok (Environment.exec_changeFile (visiting.writes _) _)]
    exact ⟨_, rfl⟩
  obtain ⟨v'', cached⟩ := cached
  exact ⟨v'', exec_manifest_read cached reads valid⟩

/-- A block of Node 1 is found, whatever the directory and the other providers say. -/
theorem exec_blockTraced_visiting (serializes : MessagesCompact)
    (visiting : Visiting nodeId addr key s r env page v)
    (hosts : s.Hosts env.clock page) (v' : ResolverState) :
    ∃ bytes v'', exec (r.blockTraced env page.hash) v' = (.ok bytes, v'') ∧
      hashBytes bytes = page.hash := by
  obtain ⟨bytes, block⟩ := Option.isSome_iff_exists.mp hosts.block
  have hashed : hashBytes bytes = page.hash := (block_eq_some.mp block).2
  have reply : Origin.reply nodeId s (.getBlock page.hash) = .block page.hash bytes := by
    show Origin.handle nodeId s (.getBlock page.hash) = _
    simp only [Origin.handle, block]
  have sendable : Sendable (Origin.reply nodeId s (.getBlock page.hash)) := by
    rw [reply, ← hashed]
    have room : blockBodyBytes bytes ≤ maxFrameBytes := visiting.fits.block bytes block
    exact (block_carried_iff serializes bytes).mpr room
  have answers := visiting.serves.answersNative visiting.fits.greeting sendable v'.ticks
  have serves : ServesBlock r env v'.ticks page.hash addr :=
    ⟨answers.dial, answers.welcome, fun n since => by
      obtain ⟨message, answered, rfl⟩ := answers.answers n since
      exact ⟨_, answered, page.hash, bytes, reply, hashed⟩⟩
  have listed : addr ∈ r.nativeProviders := List.mem_of_head? visiting.first
  exact blockTraced_available visiting.writes (.default addr listed serves)

/-- A hosted page is served, when manifests are filed under their hashes. -/
theorem exec_serve_visiting (serializes : MessagesCompact)
    (visiting : Visiting nodeId addr key s r env page v)
    (hosts : s.Hosts env.clock page)
    (filed : ∀ (hash : String) (bytes : Bytes), s.manifests[hash]? = some bytes →
      hashBytes bytes = hash)
    {v' : ResolverState} (unheld : v'.disk.manifests = v.disk.manifests) :
    ∃ bytes v'', exec (r.serve env page.domain.fqdn page.path page.record) v' =
      (.ok (.content page.domain.fqdn page.path bytes (ResolverExternals.mimeGuess page.file)
        page.hash), v'') ∧ hashBytes bytes = page.hash := by
  obtain ⟨manifestBytes, m, stored, reads, valid, signed, selected⟩ := hosts.manifest
  obtain ⟨v₁, fetched⟩ :=
    exec_manifest_visiting serializes visiting stored (filed _ _ stored) reads valid unheld
  obtain ⟨bytes, v₂, found, same⟩ := exec_blockTraced_visiting serializes visiting hosts v₁
  exact ⟨bytes, v₂, exec_serve_content fetched signed selected found, same⟩

/-- A located record of a hosted page is served. -/
theorem exec_resolveRecord_visiting (serializes : MessagesCompact)
    (visiting : Visiting nodeId addr key s r env page v)
    (hosts : s.Hosts env.clock page)
    (filed : ∀ (hash : String) (bytes : Bytes), s.manifests[hash]? = some bytes →
      hashBytes bytes = hash)
    {tldRec : TldRecord} (signed : page.record.verify tldRec.operatorPublicKey = .ok ())
    {v' : ResolverState} (unheld : v'.disk.manifests = v.disk.manifests) :
    ∃ bytes v'', exec (r.resolveRecord env page.domain page.path tldRec page.record) v' =
      (.ok (.content page.domain.fqdn page.path bytes (ResolverExternals.mimeGuess page.file)
        page.hash), v'') ∧ hashBytes bytes = page.hash := by
  have current := hosts.current v'.ticks
  have resolvable := hosts.inForce.resolvable
  have later : (v'.after 1).disk.manifests = v.disk.manifests := unheld
  obtain ⟨bytes, v'', served, same⟩ := exec_serve_visiting serializes visiting hosts filed later
  refine ⟨bytes, v'', ?_, same⟩
  have located : exec (r.resolveRecord env page.domain page.path tldRec page.record) v' =
      exec (r.serve env page.domain.fqdn page.path page.record) (v'.after 1) :=
    exec_resolveRecord_serve signed hosts.inForce.tld resolvable current
  exact located.trans served

/-- A hosted page is resolved, when the registry is sound. -/
theorem exec_resolve_visiting (serializes : MessagesCompact)
    (visiting : Visiting nodeId addr key s r env page v)
    (hosts : s.Hosts env.clock page) {host : String}
    (parses : FederateDomain.parse host = .ok page.domain)
    (reads : SerdeDocuments.rootZone (Externals.toVec s.zone.toJson) = .ok s.zone)
    (valid : s.zone.validate = .ok ()) (trusted : s.zone.verify key = .ok ())
    (signed : DomainsSigned s.zone)
    (filed : ∀ (hash : String) (bytes : Bytes), s.manifests[hash]? = some bytes →
      hashBytes bytes = hash) :
    ∃ bytes v', exec (r.resolve env host page.path) v =
      (.ok (.content page.domain.fqdn page.path bytes (ResolverExternals.mimeGuess page.file)
        page.hash), v') ∧ hashBytes bytes = page.hash := by
  obtain ⟨v₁, rooted, pinned, unheld⟩ := exec_root_visiting serializes visiting reads valid trusted
  obtain ⟨tldRec, found, managed, resolvable, unexpired⟩ := hosts.tld
  have tldSigned : tldRec.verify key = .ok () := (RootZone.verify_eq_ok.mp trusted).2.2 _ _ found
  have recordSigned : page.record.verify tldRec.operatorPublicKey = .ok () := by
    obtain ⟨t, held, verified⟩ := signed _ _ hosts.held
    rw [hosts.inForce.tld] at held
    obtain rfl := Option.some.inj (found.symm.trans held)
    exact verified
  have later : (v₁.after 1).disk.manifests = v.disk.manifests := unheld
  obtain ⟨bytes, v₂, served, same⟩ :=
    exec_resolveRecord_visiting serializes visiting hosts filed recordSigned later
  refine ⟨bytes, v₂, ?_, same⟩
  have entered : exec (r.resolve env host page.path) v =
      exec (r.resolveIn env page.domain page.path s.zone) v₁ := by
    rw [resolve, parses]
    simp only
    rw [exec_bind, exec_attempt, rooted]
  have located : exec (r.locateRecord env s.zone tldRec page.domain.fqdn) (v₁.after 1) =
      (.ok page.record, v₁.after 1) := by
    rw [exec_locateRecord_managed managed, hosts.held]
    rfl
  have checked : exec (r.resolveIn env page.domain page.path s.zone) v₁ =
      exec (r.resolveRecord env page.domain page.path tldRec page.record) (v₁.after 1) :=
    exec_resolveIn_record pinned found tldSigned resolvable (unexpired _) located
  exact (entered.trans checked).trans served

end Stages

/-! ## What a registry hosts -/

/-- A later store: no manifest and no block is lost. -/
structure RegistryStore.Grows (s s' : RegistryStore) : Prop where
  /-- Manifests stay. -/
  manifests : ∀ hash ∈ s.manifests, hash ∈ s'.manifests
  /-- Block files stay. -/
  blocks : ∀ hash ∈ s.files.blocks, hash ∈ s'.files.blocks

section Growth

variable {s s' s'' : RegistryStore}

omit [Externals] in
theorem RegistryStore.Grows.refl (s : RegistryStore) : s.Grows s :=
  ⟨fun _ member => member, fun _ member => member⟩

omit [Externals] in
theorem RegistryStore.Grows.trans (grows : s.Grows s') (later : s'.Grows s'') : s.Grows s'' :=
  ⟨fun hash member => later.manifests hash (grows.manifests hash member),
    fun hash member => later.blocks hash (grows.blocks hash member)⟩

/-- Storing a block changes nothing, or files it. -/
theorem putBlock_cases (hash : String) (bytes : Bytes) (written : Result Unit) (s : RegistryStore) :
    (∃ e, exec (putBlock hash bytes written) s = (.error e, s)) ∨
      exec (putBlock hash bytes written) s = (.ok (),
        { s with files := { s.files with blocks := s.files.blocks.insert hash bytes } }) := by
  cases valid : verifyHash bytes hash with
  | error e => exact .inl ⟨e, by simp [putBlock, exec_bind, valid]⟩
  | ok done =>
    cases written with
    | error e => exact .inl ⟨e, by simp [putBlock, exec_bind, valid]⟩
    | ok done => exact .inr (by simp [putBlock, exec_bind, valid])

/-- Storing blocks loses nothing, and when it succeeds every block of the list is stored. -/
theorem storeBlocks_grows (blocks : List (String × Bytes)) (written : ℕ → Result Unit)
    (s : RegistryStore) : s.Grows (exec (storeBlocks blocks written) s).2 ∧
      ((exec (storeBlocks blocks written) s).1 = .ok () → ∀ block ∈ blocks,
        block.1 ∈ (exec (storeBlocks blocks written) s).2.files.blocks) := by
  induction blocks generalizing s written with
  | nil => exact ⟨.refl s, by simp⟩
  | cons block rest ih =>
    obtain ⟨hash, bytes⟩ := block
    rcases putBlock_cases hash bytes (written 0) s with ⟨e, failed⟩ | filed
    · rw [storeBlocks, exec_bind_error failed]
      exact ⟨.refl s, by simp⟩
    · rw [storeBlocks, exec_bind_ok filed]
      have first : s.Grows
          { s with files := { s.files with blocks := s.files.blocks.insert hash bytes } } :=
        ⟨fun _ member => member, fun other member => Std.ExtTreeMap.mem_insert.mpr (.inr member)⟩
      obtain ⟨grows, all⟩ := ih (fun index => written (index + 1))
        { s with files := { s.files with blocks := s.files.blocks.insert hash bytes } }
      refine ⟨first.trans grows, fun succeeded block member => ?_⟩
      rcases List.mem_cons.mp member with rfl | later
      · exact grows.blocks _ Std.ExtTreeMap.mem_insert_self
      · exact all succeeded block later

/-- Storing a manifest loses nothing. -/
theorem storeManifest_grows (hash : String) (bytes : Bytes) (written : Result Unit)
    (s : RegistryStore) : s.Grows (exec (storeManifest hash bytes written) s).2 := by
  rcases s.storeManifest_cases hash bytes written with same | ⟨-, filed⟩
  · rw [same]
    exact .refl s
  · rw [filed]
    exact ⟨fun other member => Std.ExtTreeMap.mem_insert.mpr (.inr member), fun _ member => member⟩

/-- Adopting a mutation loses nothing. -/
theorem adopt_grows (req : MutationRequest) (p : Prepared) (s : RegistryStore) :
    s.Grows (s.adopt req p) := by
  unfold adopt adoptRegistry
  cases p.newRegistry with
  | none => exact ⟨fun _ member => member, fun _ member => member⟩
  | some pinned =>
    exact ⟨fun other member => Std.ExtTreeMap.mem_insert.mpr (.inr member), fun _ member => member⟩

variable [SerdeJson] {a : Authority}

/-- A call loses nothing, whatever the storage does. -/
theorem Authority.step_grows (op : Op) : s.Grows (a.step s op) := by
  cases op with
  | apply call =>
    rw [Authority.step]
    rcases a.applyTo_cases s call with ⟨e, -, rejected⟩ | ⟨p, -, outcome⟩
    · rw [rejected]
      exact .refl s
    · generalize a.applyTo call s = result at outcome ⊢
      have adopted := adopt_grows call.request p s
      cases outcome with
      | manifestFailed => exact ⟨fun _ member => member, fun _ member => member⟩
      | _ => exact ⟨adopted.manifests, adopted.blocks⟩
  | storeManifest hash bytes written => exact storeManifest_grows hash bytes written s
  | storeBlocks blocks written => exact (storeBlocks_grows blocks written s).1

/-- A run loses nothing. -/
theorem Authority.run_grows (ops : List Op) : s.Grows (a.run s ops) := by
  have kept : ∀ s' op, s.Grows s' → True → s.Grows (a.step s' op) :=
    fun s' op grown _ => grown.trans (Authority.step_grows op)
  exact Transition.invariant kept (.refl s) (Transition.guarded_true _ _ _)

end Growth

section Lives

variable [SerdeJson] {P : Value → Prop} {a : Authority} {s s₀ : RegistryStore}

/-- An event in the life of a server loses nothing. -/
theorem Authority.IsAlive.grows (signs : SignaturesVerify) (reads : ReadsBack P)
    (genesis : a.Genesis s₀) (alive : a.IsAlive P s₀ s) {event : RegistryEvent}
    (takes : s.Takes P event) : s.Grows (a.live s event) := by
  obtain ⟨core, nonces, rfl, alive⟩ := alive
  obtain ⟨core', nonces', effect, led, -⟩ := alive.step signs reads genesis nonces takes
  obtain ⟨ops, ran⟩ := effect.run
  have grows : core.Grows core' := ran ▸ Authority.run_grows ops
  rw [led]
  exact ⟨grows.manifests, grows.blocks⟩

/-- A life loses nothing. -/
theorem Authority.IsAlive.run_grows (signs : SignaturesVerify) (reads : ReadsBack P)
    (genesis : a.Genesis s₀) (alive : a.IsAlive P s₀ s) {events : List RegistryEvent}
    (lives : Transition.Guarded a.live (RegistryStore.Takes P) s events) :
    s.Grows (Transition.run a.live s events) ∧ a.IsAlive P s₀ (Transition.run a.live s events) := by
  have kept : ∀ s' event, s.Grows s' ∧ a.IsAlive P s₀ s' → s'.Takes P event →
      s.Grows (a.live s' event) ∧ a.IsAlive P s₀ (a.live s' event) := by
    intro s' event both takes
    exact ⟨both.1.trans (both.2.grows signs reads genesis takes),
      both.2.step signs reads genesis takes⟩
  exact Transition.invariant kept ⟨.refl s, alive⟩ lives

/-- A request that is accepted has stored its content, and `apply` accepted it. -/
theorem acceptance_request {arrival : Arrival} {accepted : Acceptance}
    (took : a.acceptance s (.request arrival) = some accepted) : ∃ s' event,
      exec (storeContent arrival.content .ok)
        (s.withNonces (s.database.nonces.erase arrival.mutation.nonce)) = (.ok (), s') ∧
      a.Accepts s' arrival.call event ∧
      a.live s (.request arrival) = (a.applyTo arrival.call s').2 := by
  rw [Authority.acceptance] at took
  rw [Authority.live]
  rw [a.answer_eq] at took ⊢
  simp only at took ⊢
  cases consumed : (s.database.consumeNonce arrival.mutation.nonce
      (Int64.ofInt arrival.now.timestamp)).1 with
  | false => simp [consumed] at took
  | true =>
    simp only [consumed] at took ⊢
    rcases stored : exec (storeContent arrival.content .ok)
        (s.withNonces (s.database.nonces.erase arrival.mutation.nonce)) with ⟨outcome, s'⟩
    rw [stored] at took
    cases outcome with
    | error e => simp at took
    | ok done =>
      simp only at took ⊢
      rcases applied : a.applyTo arrival.call s' with ⟨outcome, s''⟩
      rw [applied] at took
      cases outcome with
      | error e => simp at took
      | ok event =>
        refine ⟨s', event, rfl, ?_, ?_⟩
        · rw [Authority.Accepts, applied]
        · simp only [applied]

omit [SerdeJson] in
/-- The content of a package that is stored. -/
theorem storeContent_stored {manifestBytes : Bytes} {blocks : List (String × Bytes)}
    {s' : RegistryStore}
    (stored : exec (storeContent (some (manifestBytes, blocks)) .ok) s = (.ok (), s')) :
    s'.manifests[hashBytes manifestBytes]? = some manifestBytes ∧
      ∀ block ∈ blocks, block.1 ∈ s'.files.blocks := by
  rw [storeContent, exec_bind_eq_ok] at stored
  obtain ⟨done, s₁, blocksStored, stored⟩ := stored
  have passes := (verifyHash_of_hashBytes (rfl : hashBytes manifestBytes = _)).2
  have all := (storeBlocks_grows blocks RequestIo.ok.blocks s).2
  rw [blocksStored] at all
  rw [storeManifest, exec_bind, exec_lift, passes] at stored
  simp only [exec_writeManifest, RequestIo.ok] at stored
  obtain ⟨-, rfl⟩ := Prod.mk.inj stored
  exact ⟨Std.ExtTreeMap.getElem?_insert_self, all rfl⟩

/-- The manifest of an accepted publication is stored, and the publisher's. -/
theorem Authority.Accepts.manifest {call : ApplyCall} {event : AuditRecord}
    (accepted : a.Accepts s call event) {domain manifestHash : String}
    (requested : call.request.action = .publishSite domain manifestHash ∨
      call.request.action = .updateDomainManifest domain manifestHash)
    {parsed : FederateDomain} (parses : FederateDomain.parse domain = .ok parsed) :
    ∃ bytes m, s.manifests[manifestHash]? = some bytes ∧ SerdeDocuments.manifest bytes = .ok m ∧
      m.validate = .ok () ∧ m.verify parsed.fqdn call.request.actorPublicKey = .ok () := by
  obtain ⟨-, -, -, -, p, prepared, -⟩ := accepted.effects
  obtain ⟨effect, granted, rfl, -⟩ := prepared.granted
  generalize call.request.action = action at requested granted
  cases granted with
  | @publish _ _ asked hash own _ bytes m named parsesOwn _ _ _ _ _ owned _ stored reads valid
      signed =>
    have same : asked = domain ∧ hash = manifestHash := by
      rcases named with ⟨rfl, -⟩ | ⟨rfl, -⟩ <;> simpa using requested
    obtain ⟨rfl, rfl⟩ := same
    obtain rfl : own = parsed := Except.ok.inj (parsesOwn.symm.trans parses)
    exact ⟨bytes, m, stored, reads, valid, signed⟩
  | restrictTld named =>
    rcases named with ⟨rfl, -⟩ | ⟨rfl, -⟩ <;> simp at requested
  | _ => simp at requested

/-- What a visitor needs of the records of a page at the end of a life: TLD and domain are in force,
and the record still points at a manifest of the owner. -/
structure RegistryStore.Points (s : RegistryStore) (clock : ℕ → DateTime) (page : SitePage)
    (owner : String) : Prop where
  /-- The TLD is in force, and its records are in the zone. -/
  tld : ∃ tldRec, s.zone.lookupTld page.domain.tld = some tldRec ∧
    tldRec.registryType = .rootManaged ∧ tldRec.status.isResolvable = true ∧
    ∀ n, tldRec.isExpired (clock n) = false
  /-- So is the record of the domain. -/
  held : s.zone.lookup page.domain.fqdn = some page.record
  /-- It is in force. -/
  inForce : InForce page.domain page.record
  /-- Its lease has not passed. -/
  current : ∀ n, page.record.isExpired (clock n) = false
  /-- It is the owner's. -/
  owned : page.record.ownerPublicKey = owner

/-- The package that arrives carries the page: it asks for the manifest of its record, and the
manifest selects one of its blocks for the path. -/
structure SitePackage.CarriesPage (pkg : SitePackage) (arrival : Arrival) (manifestBytes : Bytes)
    (page : SitePage) : Prop where
  /-- Its mutation arrives. -/
  mutation : arrival.mutation = pkg.mutation
  /-- Its content arrives, with the block. -/
  content : ∃ blocks, pkg.decode = .ok (manifestBytes, blocks) ∧
    arrival.content = some (manifestBytes, blocks) ∧ page.hash ∈ blocks.map Prod.fst
  /-- It asks for the manifest. -/
  requested : ∃ domain, pkg.mutation.action = .publishSite domain page.record.manifestHash ∧
    FederateDomain.parse domain = .ok page.domain
  /-- The manifest selects the block. -/
  selected : ∃ m, SerdeDocuments.manifest manifestBytes = .ok m ∧
    m.resolvePath page.path = some (page.file, page.hash)

/-- After an accepted package and any further life, the registry hosts every page of the package
that the records point at, unless it holds other bytes with the hash of the manifest. -/
theorem hosts_of_package (signs : SignaturesVerify) (reads : ReadsBack P)
    (genesis : a.Genesis s₀) (alive : a.IsAlive P s₀ s) {arrival : Arrival} {pkg : SitePackage}
    {manifestBytes : Bytes} {page : SitePage} (carries : pkg.CarriesPage arrival manifestBytes page)
    {accepted : Acceptance} (took : a.acceptance s (.request arrival) = some accepted)
    {later : List RegistryEvent}
    (lives : Transition.Guarded a.live (RegistryStore.Takes P) s (.request arrival :: later))
    {clock : ℕ → DateTime} {final : RegistryStore}
    (last : Transition.run a.live s (.request arrival :: later) = final)
    (points : final.Points clock page pkg.mutation.actorPublicKey) :
    final.Hosts clock page ∨ ∃ other, final.manifests[page.record.manifestHash]? = some other ∧
      other ≠ manifestBytes ∧ hashBytes other = hashBytes manifestBytes := by
  obtain ⟨blocks, decoded, content, carried⟩ := carries.content
  obtain ⟨domain, requested, parses⟩ := carries.requested
  obtain ⟨m, parsed, selected⟩ := carries.selected
  have pointed := SitePackage.hashBytes_of_decode decoded requested
  rw [← carries.mutation] at requested points
  obtain ⟨s', event, stored, applied, led⟩ := acceptance_request took
  rw [content] at stored
  obtain ⟨filed, allFiled⟩ := storeContent_stored stored
  obtain ⟨bytes, m', stored', parsed', valid, signed⟩ := applied.manifest (.inl requested) parses
  rw [pointed] at filed
  obtain rfl := Option.some.inj (filed.symm.trans stored')
  obtain rfl := Except.ok.inj (parsed.symm.trans parsed')
  have next : s'.Grows (a.live s (.request arrival)) := by
    rw [led]
    exact Authority.step_grows (.apply arrival.call)
  have alive' := alive.step signs reads genesis lives.1
  obtain ⟨grows, alive''⟩ := alive'.run_grows signs reads genesis lives.2
  have all := next.trans grows
  rw [Transition.run_cons] at last
  rw [last] at alive'' all
  obtain ⟨core, nonces, rfl, -, restorable⟩ := alive''
  obtain ⟨block, member, same⟩ := List.mem_map.mp carried
  obtain ⟨other, held⟩ := Option.isSome_iff_exists.mp
    (Std.ExtTreeMap.mem_iff_isSome_getElem?.mp (all.manifests _ (mem_of_getElem? filed)))
  obtain ⟨found, file⟩ := Option.isSome_iff_exists.mp
    (Std.ExtTreeMap.mem_iff_isSome_getElem?.mp (all.blocks _ (allFiled block member)))
  have hashed := restorable.manifests _ _ held
  by_cases kept : other = manifestBytes
  · subst kept
    have owned : m.verify page.domain.fqdn page.record.ownerPublicKey = .ok () := by
      rw [points.owned]
      exact signed
    have served : core.block page.hash = some found := by
      rw [same] at file
      exact block_eq_some.mpr ⟨file, restorable.blocks _ _ file⟩
    exact .inl ⟨points.tld, points.held, points.inForce, points.current,
      ⟨other, m, held, parsed, valid, owned, selected⟩, Option.isSome_of_mem served⟩
  · exact .inr ⟨other, held, kept, hashed.trans pointed.symm⟩

variable [ResolverExternals]

/-- A page that a live registry hosts is resolved by a visitor with the root key. -/
theorem Authority.IsAlive.visited (signs : SignaturesVerify) (reads : ReadsBack P)
    (serializes : MessagesCompact) (genesis : a.Genesis s₀) (alive : a.IsAlive P s₀ s)
    {nodeId addr host : String} {r : Resolver}
    {env : Environment} {page : SitePage} {v : ResolverState}
    (visiting : Visiting nodeId addr a.root.nodeId s r env page v)
    (hosts : s.Hosts env.clock page) (typed : FederateDomain.parse host = .ok page.domain) :
    ∃ bytes v', exec (r.resolve env host page.path) v =
      (.ok (.content page.domain.fqdn page.path bytes (ResolverExternals.mimeGuess page.file)
        page.hash), v') ∧ hashBytes bytes = page.hash := by
  obtain ⟨core, nonces, rfl, ⟨ops, ran⟩, restorable⟩ := alive
  have reachable : a.Reachable core := ⟨s₀, ops, genesis, ran⟩
  have trusted : core.zone.verify a.root.nodeId = .ok () := reachable.verified.2.2
  have zone := reads.rootZone core.zone restorable.zoneValues
  have signed : DomainsSigned core.zone := reachable.domainsSigned signs
  exact exec_resolve_visiting serializes visiting hosts typed zone reachable.valid trusted signed
    restorable.manifests

/-- In every life of a server, once a package is accepted, a visitor with only the root key resolves
each of its pages to bytes of the address that the package gave, for as long as the records point at
it; or else the registry holds two manifests with one hash. -/
theorem package_visited (signs : SignaturesVerify) (reads : ReadsBack P)
    (serializes : MessagesCompact) {path : String} {now : DateTime} {io : StorageIo}
    (returned : initEmptyRegistry (RegistryDir.fresh path) a.root now io = .ok s₀)
    {events later : List RegistryEvent} {arrival : Arrival}
    (lives : Transition.Guarded a.live (RegistryStore.Takes P) s₀
      (events ++ .request arrival :: later)) {accepted : Acceptance}
    (took : a.acceptance (Transition.run a.live s₀ events) (.request arrival) = some accepted)
    (last : Transition.run a.live s₀ (events ++ .request arrival :: later) = s)
    {pkg : SitePackage} {manifestBytes : Bytes} {page : SitePage}
    (carries : pkg.CarriesPage arrival manifestBytes page) {nodeId addr host : String}
    {r : Resolver} {env : Environment} {v : ResolverState}
    (points : s.Points env.clock page pkg.mutation.actorPublicKey)
    (visiting : Visiting nodeId addr a.root.nodeId s r env page v)
    (typed : FederateDomain.parse host = .ok page.domain) :
    (∃ bytes v', exec (r.resolve env host page.path) v =
      (.ok (.content page.domain.fqdn page.path bytes (ResolverExternals.mimeGuess page.file)
        page.hash), v') ∧ hashBytes bytes = page.hash) ∨
      ∃ other, s.manifests[page.record.manifestHash]? = some other ∧ other ≠ manifestBytes ∧
        hashBytes other = hashBytes manifestBytes := by
  have genesis : a.Genesis s₀ := ⟨_, _, _, returned⟩
  obtain ⟨before, after⟩ := (Transition.guarded_append _ _ _).mp lives
  rw [Transition.run_append] at last
  have alive := isAlive_run signs reads returned before
  have alive' := (alive.run_grows signs reads genesis after).2
  rw [last] at alive'
  rcases hosts_of_package signs reads genesis alive carries took after last points with hosts | twin
  · exact .inl (alive'.visited signs reads serializes genesis visiting hosts typed)
  · exact .inr twin

end Lives

end Federate

namespace Federate.Reference

open Json Outcome Stateful Resolver RegistryStore

/-- Node 1 is behind every address, and the disk can be written. -/
def facing (nodeId : String) (s : RegistryStore) : Environment :=
  { offline with
    dial := fun _ _ => .ok ()
    exchange := fun _ _ request => .ok (Origin.reply nodeId s request) }

/-- A resolver that has the root key only. -/
def visitor : ResolverState := .new (some authority.root.nodeId) .fresh 0

/-- The record that the first publication of `alice.foo` writes. -/
def firstAlice : DomainRecord :=
  (publishedRecord none ⟨"alice", "foo"⟩ (identity 3).nodeId siteHash stamp).signedBy
    authority.officialOperator

/-- The front page of `alice.foo`. -/
def alicePage : SitePage := ⟨⟨"alice", "foo"⟩, "/", firstAlice, "index.html", hashBytes site⟩

/-- The package of `alice.foo`. -/
def alicePackage : SitePackage where
  mutation := publishAlice.request
  manifestHex := Hex.encode (compact siteManifest.toJson)
  blocks := [⟨hashBytes site, Hex.encode site⟩]

/-- The package of `alice.foo`, as it reaches the server. -/
def arrivalAlice : Arrival where
  mutation := publishAlice.request
  content := some (compact siteManifest.toJson, [(hashBytes site, site)])
  blocklists := publishAlice.blocklists
  now := publishAlice.now
  clock := publishAlice.clock

/-- A block in hexadecimal is decoded. -/
theorem decodeBlocks_singleton {total : ℕ} {bytes : Bytes}
    (small : total + bytes.length ≤ maxPackageBytes) :
    decodeBlocks total [⟨hashBytes bytes, Hex.encode bytes⟩] = .ok [(hashBytes bytes, bytes)] := by
  have passes : verifyHash bytes (hashBytes bytes) = .ok () := (verifyHash_of_hashBytes rfl).2
  simp only [decodeBlocks, bind_eq_ok, okOr_eq_ok, rejectIf_eq_ok, exists_const, pure_eq_ok, not_lt]
  exact ⟨bytes, Hex.decode_encode _, small, ⟨⟩, passes, [], rfl, rfl⟩

/-- The package carries the front page. -/
theorem alicePackage_carries :
    alicePackage.CarriesPage arrivalAlice (compact siteManifest.toJson) alicePage where
  mutation := rfl
  content := by
    have manifest : verifyHash (compact siteManifest.toJson) siteHash = .ok () :=
      (verifyHash_of_hashBytes rfl).2
    have block : verifyHash site (hashBytes site) = .ok () := (verifyHash_of_hashBytes rfl).2
    have small : (compact siteManifest.toJson).length + site.length ≤ maxPackageBytes := by
      decide +kernel
    have blocks := decodeBlocks_singleton small
    have few : ¬maxPackageBlocks < alicePackage.blocks.length := by decide
    refine ⟨[(hashBytes site, site)], ?_, rfl, List.mem_singleton.mpr rfl⟩
    simp only [SitePackage.decode, bind_eq_ok, rejectIf_eq_ok, exists_const, okOr_eq_ok]
    refine ⟨few, compact siteManifest.toJson, Hex.decode_encode _, _, blocks, ?_⟩
    simp only [alicePackage, publishAlice, call, MutationRequest.signed, manifest]
    rfl
  requested := ⟨"alice.foo", rfl, parse_alice⟩
  selected := by
    have root : siteManifest.candidates "/" = ["index.html"] := by
      have slash : (Text.trimStartMatches '/' "/").toList = [] := by decide
      simp only [Manifest.candidates, slash, reduceIte]
      rfl
    refine ⟨siteManifest, siteManifest_reads, ?_⟩
    show siteManifest.resolvePath "/" = some ("index.html", hashBytes site)
    simp [Manifest.resolvePath, root, siteManifest_selected]

/-- The zone with the TLD `foo`. -/
def zoneFoo : RootZone :=
  (start.zone.putTld "foo" (official "foo")).advance authority.root ⟨0⟩
    (zoneEvent createFoo.request .root (Externals.toRfc3339 ⟨0⟩))

/-- The zone with the domain `alice.foo`. -/
def zoneAlice : RootZone :=
  (zoneFoo.putDomain "alice.foo" firstAlice).advance authority.root ⟨0⟩
    (zoneEvent publishAlice.request .domainOwner (Externals.toRfc3339 ⟨0⟩))

/-- The text of a zone that is signed: the signature is not computed, only its length. -/
theorem signedZone_short (z : RootZone)
    (rest : (Json.compact (RootZone.toJson { z with
      signature := none, tlds := ∅, domains := ∅, audit := [] })).length ≤ 4096)
    (tlds : (Json.compact (.obj (z.tlds.toList.map fun p => (p.1, p.2.toJson)))).length ≤ 4096)
    (domains : (Json.compact (.obj (z.domains.toList.map fun p =>
      (p.1, p.2.toJson)))).length ≤ 4096)
    (audit : (Json.compact (.arr (z.audit.map AuditEvent.toJson))).length ≤ 4096) :
    (Externals.toVec (z.signedBy authority.root).toJson).length ≤ maxRootBytes := by
  have parts := RootZone.length_parts { z with signature := none }
  calc
    _ ≤ _ := z.length_signedBy authority.root
    _ ≤ 4096 + 4096 + 4096 + 4096 + 126 := Nat.add_le_add_right (le_trans parts
      (Nat.add_le_add (Nat.add_le_add (Nat.add_le_add rest tlds) domains) audit)) 126
    _ ≤ maxRootBytes := by decide

/-- The text of the only record of a zone: its signature and the address of its manifest are not
computed, only their lengths. -/
theorem signedRecord_short (r : DomainRecord)
    (manifest : r.manifestHash = hashBytes (compact siteManifest.toJson))
    (rest : (Json.compact (DomainRecord.toJson { r with
      manifestHash := "", signature := none })).length ≤ 2048) :
    (Json.compact (.obj [("alice.foo", (r.signedBy authority.officialOperator).toJson)])).length ≤
      4096 := by
  have signed := DomainRecord.length_signedBy r authority.officialOperator manifest
  have key : (Json.stringText "alice.foo").length = 11 := by decide +kernel
  rw [Json.compact]
  simp only [Json.compactFields, List.intercalate_singleton, List.length_append, List.length_cons,
    List.length_nil, key]
  omega

/-- The text of a short audit trail. -/
theorem audit_short {events : List AuditEvent} (few : events.length ≤ 4)
    (each : ∀ e ∈ events, (Json.compact e.toJson).length ≤ 592) :
    (Json.compact (.arr (events.map AuditEvent.toJson))).length ≤ 4096 := by
  have sum := List.sum_le_card_nsmul (events.map fun e => (Json.compact e.toJson).length) 592 (by
    intro size member
    obtain ⟨e, listed, rfl⟩ := List.mem_map.mp member
    exact each e listed)
  rw [List.length_map, smul_eq_mul] at sum
  simp only [Json.compact, Json.compactItems_eq, List.map_map, Function.comp_def, List.length_map,
    List.length_append, List.length_cons, List.length_nil, Encoding.length_intercalate]
  omega

/-- The text of the event of a mutation, whose id is not computed. -/
theorem zoneEvent_short (req : MutationRequest) (role : ActorRole)
    (rest : (Json.compact (AuditEvent.toJson { zoneEvent req role (Externals.toRfc3339 ⟨0⟩) with
      detail := none })).length ≤ 512) {bytes : Bytes} (id : req.mutationId = hashBytes bytes) :
    (Json.compact (zoneEvent req role (Externals.toRfc3339 ⟨0⟩)).toJson).length ≤ 592 :=
  le_trans (AuditEvent.length_named _ (congrArg some id)) (Nat.add_le_add_right rest 80)

theorem zoneFoo_audit : ∀ e ∈ zoneFoo.audit, (Json.compact e.toJson).length ≤ 592 := by
  have all : zoneFoo.audit = start.zone.audit ++
      [zoneEvent createFoo.request .root (Externals.toRfc3339 ⟨0⟩)] := rfl
  have before : ∀ e ∈ start.zone.audit, (Json.compact e.toJson).length ≤ 592 := by decide +kernel
  have created := zoneEvent_short createFoo.request .root (by decide +kernel) rfl
  rw [all]
  exact List.forall_mem_append.mpr ⟨before, List.forall_mem_singleton.mpr created⟩

theorem zoneAlice_audit : ∀ e ∈ zoneAlice.audit, (Json.compact e.toJson).length ≤ 592 := by
  have all : zoneAlice.audit = zoneFoo.audit ++
      [zoneEvent publishAlice.request .domainOwner (Externals.toRfc3339 ⟨0⟩)] := rfl
  have published := zoneEvent_short publishAlice.request .domainOwner (by decide +kernel) rfl
  rw [all]
  exact List.forall_mem_append.mpr ⟨zoneFoo_audit, List.forall_mem_singleton.mpr published⟩

theorem zoneAlice_tlds : (Json.compact (.obj (zoneAlice.tlds.toList.map fun p =>
    (p.1, p.2.toJson)))).length ≤ 4096 := by
  decide +kernel

theorem zoneAlice_short : (Externals.toVec zoneAlice.toJson).length ≤ maxRootBytes := by
  have domains := signedRecord_short
    (publishedRecord none ⟨"alice", "foo"⟩ (identity 3).nodeId siteHash stamp) rfl
    (by decide +kernel)
  exact signedZone_short _ (by decide +kernel) zoneAlice_tlds domains
    (audit_short (by decide) zoneAlice_audit)

/-- The zone behind the creation of `foo`. -/
theorem createFoo_zone {s : RegistryStore} (rootKey : s.zone.rootPublicKey = authority.root.nodeId)
    (vacant : s.zone.tlds = ∅) {event : AuditRecord}
    (created : authority.Accepts s createFoo event) :
    (authority.step s (.apply createFoo)).zone =
      (s.zone.putTld "foo" (official "foo")).advance authority.root ⟨0⟩
        (zoneEvent createFoo.request .root (Externals.toRfc3339 ⟨0⟩)) := by
  obtain ⟨-, -, -, -, p, prepared, zone⟩ := created.effects
  obtain ⟨-, -, -, -, effect, accepted, -, rfl⟩ := prepare_eq_ok.mp prepared
  have granted : applyAction s.zone s.manifests s.registries authority.root.nodeId
      (authority.context createFoo) createFoo.clock (.createTld "foo" "sites") =
        .ok ⟨s.zone.putTld "foo" (official "foo"), none, .root⟩ := by
    have named : validateTldName "foo" = .ok "foo" := by decide +kernel
    have unlisted : Blocklists.validateNewTld ⟨∅, ∅, ∅, ∅⟩ "foo" true = .ok "foo" :=
      Blocklists.validateNewTld_eq_ok.mpr ⟨named, .inl (by simp [Blocklists.check])⟩
    have absent : "foo" ∉ s.zone.tlds := vacant ▸ Std.ExtTreeMap.not_mem_empty
    simp only [applyAction, createTld, bind_eq_ok, rejectIf_eq_ok, pure_eq_ok, exists_const, ne_eq,
      not_not]
    exact ⟨rootKey.symm, "foo", unlisted, absent, rfl⟩
  have same := Except.ok.inj (accepted.symm.trans granted)
  rw [zone, same]
  rfl

section Content

variable {s : RegistryStore} {tlds : Table String TldRecord} {domains : Table String DomainRecord}
  {ids : List String} {versions : String → UInt64} {count : ℕ}

/-- Storing the content of a package leaves everything that the next call depends on. -/
theorem Stage.storeContent (stage : Stage s tlds domains ids versions count)
    (content : Option (Bytes × List (String × Bytes))) :
    Stage (exec (RegistryStore.storeContent content .ok) s).2 tlds domains ids versions count ∧
      (exec (RegistryStore.storeContent content .ok) s).2.zone = s.zone := by
  obtain ⟨ops, stores, stored⟩ := authority.exec_storeContent s content .ok
  obtain ⟨files, manifests, frame, -⟩ := Authority.run_content (a := authority) (s := s) stores
  have reachable : authority.Reachable (authority.run s ops) := by
    obtain ⟨first, earlier, genesis, rfl⟩ := stage.reachable
    refine ⟨first, earlier ++ ops, genesis, ?_⟩
    rw [Authority.run, Transition.run_append]
    rfl
  rw [stored]
  rw [frame] at reachable ⊢
  exact ⟨⟨reachable, stage.tlds, stage.domains, stage.applied, stage.versions, stage.below⟩, rfl⟩

/-- The first publication of `alice.foo` is granted. -/
theorem publishAlice_granted
    (stage : Stage s ((∅ : Table _ _).insert "foo" (official "foo")) ∅ ids versions count)
    (filed : s.manifests[siteHash]? = some (compact siteManifest.toJson)) :
    applyAction s.zone s.manifests s.registries (identity 3).nodeId
      (authority.context publishAlice) publishAlice.clock (.publishSite "alice.foo" siteHash) =
        .ok ⟨s.zone.putDomain "alice.foo" firstAlice, none, .domainOwner⟩ := by
  have found : s.zone.lookupTld "foo" = some (official "foo") := by
    rw [RootZone.lookupTld, stage.tlds]
    exact Std.ExtTreeMap.getElem?_insert_self
  have name : (FederateDomain.mk "alice" "foo").fqdn = "alice.foo" := by decide
  have vacant : s.zone.domains["alice.foo"]? = none := by
    rw [stage.domains]
    simp
  simp only [applyAction, publish, bind_eq_ok, mapError_eq_ok, okOr_eq_ok, rejectIf_eq_ok,
    exists_const, pure_eq_ok]
  refine ⟨⟨"alice", "foo"⟩, parse_alice, official "foo", found, by decide, by decide +kernel,
    by decide, ⟨⟩, ?_, compact siteManifest.toJson, filed, siteManifest,
    serde_eq_ok.mpr siteManifest_reads, ⟨⟩, siteManifest_validate, ⟨⟩, ?_, ?_⟩
  · rw [name, vacant]
    rfl
  · exact siteManifest_verify
  · rw [name, vacant]
    rfl

/-- What the first publication of `alice.foo` leaves. -/
theorem publishAlice_stored
    (stage : Stage s ((∅ : Table _ _).insert "foo" (official "foo")) ∅
      [createFoo.request.mutationId] (fun key => if "tld:foo" = key then 1 else 0) 1)
    (filed : s.manifests[siteHash]? = some (compact siteManifest.toJson)) :
    (∃ event, authority.Accepts s publishAlice event) ∧
      Stage (authority.step s (.apply publishAlice))
        ((∅ : Table _ _).insert "foo" (official "foo"))
        ((∅ : Table _ _).insert "alice.foo" firstAlice)
        [publishAlice.request.mutationId, createFoo.request.mutationId]
        (fun key => if publishAlice.request.action.targetKey = key then 2
          else if "tld:foo" = key then 1 else 0) 2 ∧
      (authority.step s (.apply publishAlice)).zone = (s.prepared publishAlice.request
        (authority.context publishAlice)
          ⟨s.zone.putDomain "alice.foo" firstAlice, none, .domainOwner⟩).zone ∧
      (authority.step s (.apply publishAlice)).manifests = s.manifests ∧
      (authority.step s (.apply publishAlice)).files.blocks = s.files.blocks := by
  have verified := (RootZone.verify_eq_ok.mp stage.reachable.verified.2.2).2.2
  have fresh : publishAlice.request.mutationId ∉ [createFoo.request.mutationId] := by
    rw [createFoo_id, publishAlice_id]
    decide
  have advances : (if "tld:foo" = (MutationAction.publishSite "alice.foo" siteHash).targetKey then 1
      else 0) < (2 : UInt64) := by
    split <;> decide
  obtain ⟨prepared, accepted, next⟩ := stage.next (c := publishAlice) rfl rfl rfl (by decide) fresh
    advances (publishAlice_granted stage filed) verified
  refine ⟨accepted, ?_, prepared.step_zone, ?_⟩
  · rw [← stage.tlds, ← stage.domains]
    exact next
  · obtain ⟨event, accepted⟩ := accepted
    obtain ⟨p, tables, prepared', -, -, -, -, -, -, stored⟩ := (authority.accepts_iff s).mp accepted
    obtain rfl := Except.ok.inj (prepared'.symm.trans prepared)
    rw [Authority.step, stored]
    exact ⟨rfl, rfl⟩

end Content

/-- The content of the package is stored. -/
theorem exec_storeContent_site (s : RegistryStore) :
    exec (RegistryStore.storeContent arrivalAlice.content .ok) s = (.ok (), { s with
      files := { s.files with
        blocks := s.files.blocks.insert (hashBytes site) site
        manifests := s.files.manifests.insert siteHash (compact siteManifest.toJson) }
      manifests := s.manifests.insert siteHash (compact siteManifest.toJson) }) := by
  have manifest : verifyHash (compact siteManifest.toJson) siteHash = .ok () :=
    (verifyHash_of_hashBytes rfl).2
  have block : verifyHash site (hashBytes site) = .ok () := (verifyHash_of_hashBytes rfl).2
  simp only [arrivalAlice, RegistryStore.storeContent, storeBlocks, putBlock, storeManifest,
    RequestIo.ok, exec_bind, exec_lift, exec_modify, exec_pure, block]
  rw [← siteHash, manifest]
  simp only
  rw [exec_writeManifest]

/-- The store has the zone and the content of `alice.foo`. -/
structure HoldsAlice (s : RegistryStore) : Prop where
  zone : s.zone = zoneAlice
  tlds : s.zone.tlds = (∅ : Table _ _).insert "foo" (official "foo")
  domains : s.zone.domains = (∅ : Table _ _).insert "alice.foo" firstAlice
  manifest : s.manifests[siteHash]? = some (compact siteManifest.toJson)
  block : s.files.blocks[hashBytes site]? = some site
  stage : ∃ core nonces, s = core.withNonces nonces ∧
    Stage core ((∅ : Table _ _).insert "foo" (official "foo"))
      ((∅ : Table _ _).insert "alice.foo" firstAlice)
      [publishAlice.request.mutationId, createFoo.request.mutationId]
      (fun key => if publishAlice.request.action.targetKey = key then 2
        else if "tld:foo" = key then 1 else 0) 2

/-- A store with `alice.foo` has it under any nonces. -/
theorem holdsAlice_withNonces {core : RegistryStore} (nonces : Table String Int64)
    (zone : core.zone = zoneAlice)
    (manifest : core.manifests[siteHash]? = some (compact siteManifest.toJson))
    (block : core.files.blocks[hashBytes site]? = some site)
    (stage : Stage core ((∅ : Table _ _).insert "foo" (official "foo"))
      ((∅ : Table _ _).insert "alice.foo" firstAlice)
      [publishAlice.request.mutationId, createFoo.request.mutationId]
      (fun key => if publishAlice.request.action.targetKey = key then 2
        else if "tld:foo" = key then 1 else 0) 2) : HoldsAlice (core.withNonces nonces) :=
  ⟨zone, stage.tlds, stage.domains, manifest, block, core, nonces, rfl, stage⟩

/-- The package is accepted by a registry with the TLD `foo`, under an open nonce. -/
theorem arrivalAlice_accepted {s : RegistryStore}
    (stage : Stage s ((∅ : Table _ _).insert "foo" (official "foo")) ∅
      [createFoo.request.mutationId] (fun key => if "tld:foo" = key then 1 else 0) 1)
    (zone : s.zone = zoneFoo) {nonces : Table String Int64}
    (opened : ∃ expires, nonces[arrivalAlice.mutation.nonce]? = some expires ∧
      Int64.ofInt arrivalAlice.now.timestamp < expires) :
    (s.withNonces nonces).Takes PlainValue (.request arrivalAlice) ∧
      (∃ accepted,
        authority.acceptance (s.withNonces nonces) (.request arrivalAlice) = some accepted) ∧
      HoldsAlice (authority.live (s.withNonces nonces) (.request arrivalAlice)) := by
  have values : arrivalAlice.mutation.Values PlainValue := by
    intro r requested
    cases requested
  obtain ⟨seq, next⟩ := Rows.exists_nextNumber stage.below (by omega)
  have numbered : s.Numbered :=
    ⟨seq, show s.database.nextAuditSeq = .ok seq from okOr_eq_ok.mpr next⟩
  have stored := exec_storeContent_site s
  obtain ⟨stage', zone'⟩ := stage.storeContent arrivalAlice.content
  have filed : (exec (RegistryStore.storeContent arrivalAlice.content .ok) s).2.manifests[
      siteHash]? = some (compact siteManifest.toJson) := by
    rw [stored]
    exact Std.ExtTreeMap.getElem?_insert_self
  have block : (exec (RegistryStore.storeContent arrivalAlice.content .ok) s).2.files.blocks[
      hashBytes site]? = some site := by
    rw [stored]
    exact Std.ExtTreeMap.getElem?_insert_self
  have succeeded : exec (RegistryStore.storeContent arrivalAlice.content .ok) s =
      (.ok (), (exec (RegistryStore.storeContent arrivalAlice.content .ok) s).2) := by
    rw [stored]
  generalize (exec (RegistryStore.storeContent arrivalAlice.content .ok) s).2 = s'
    at stage' zone' filed block succeeded
  obtain ⟨⟨event, accepted⟩, last, written, manifests, blocks⟩ := publishAlice_stored stage' filed
  have same : arrivalAlice.call = publishAlice := rfl
  rw [← same] at accepted
  obtain ⟨entry, nonces', took, led⟩ :=
    acceptance_of_accepts (r := arrivalAlice) succeeded opened accepted
  refine ⟨⟨values, (numbered_withNonces nonces).mpr numbered⟩, ⟨entry, took⟩, ?_⟩
  rw [zone', zone] at written
  rw [← manifests] at filed
  rw [← blocks] at block
  rw [led, same]
  exact holdsAlice_withNonces nonces' written filed block last

/-- Node 1 greets a resolver in a frame. -/
theorem sendable_facing (s : RegistryStore) : Sendable (Origin.reply "node" s
    (.hello supportedVersions peered.nodeId Federate.agent)) := by
  have reply : Origin.reply "node" s (.hello supportedVersions peered.nodeId Federate.agent) =
      .welcome 1 "node" Origin.agent [.root, .manifests, .blocks, .tldRegistries] := rfl
  have size : (Externals.toVec (Message.welcome 1 "node" Origin.agent
      [.root, .manifests, .blocks, .tldRegistries]).toJson).length ≤ maxFrameBytes := by
    decide +kernel
  rw [reply]
  exact ⟨_, encode_eq_ok.mpr ⟨size, rfl⟩⟩

/-- A store with `alice.foo` is visited. -/
theorem visiting_alice {s : RegistryStore} (holds : HoldsAlice s) :
    Visiting "node" "198.51.100.7:4077" authority.root.nodeId s peered (facing "node" s) alicePage
      visitor where
  first := rfl
  serves := ⟨fun _ => rfl, fun _ _ _ => rfl⟩
  fits := by
    have short : (compact siteManifest.toJson).length ≤ maxManifestBytes := by decide +kernel
    have room : blockBodyBytes site ≤ maxFrameBytes := by decide +kernel
    refine ⟨sendable_facing s, ?_, ?_, ?_⟩
    · rw [holds.zone]
      exact zoneAlice_short
    · intro bytes found
      rw [← Option.some.inj (holds.manifest.symm.trans found)]
      exact short
    · intro bytes found
      have held := (block_eq_some.mp found).1
      rw [← Option.some.inj (holds.block.symm.trans held)]
      exact room
  writes _ := rfl
  key := by
    have named : authority.root.nodeId ≠ "" := by decide +kernel
    show (some authority.root.nodeId).filter (fun key => decide (key ≠ "")) = _
    rw [Option.filter_some, if_pos (decide_eq_true named)]
  root := rfl
  zone := rfl
  manifest := by
    show (∅ : Table String Bytes)[alicePage.record.manifestHash]? = none
    simp

/-- The records of `alice.foo` are in force. -/
theorem points_alice {s : RegistryStore} (holds : HoldsAlice s) :
    s.Points (fun _ => ⟨0⟩) alicePage (identity 3).nodeId where
  tld := by
    refine ⟨official "foo", ?_, rfl, by decide, fun _ => by decide⟩
    show s.zone.tlds["foo"]? = _
    rw [holds.tlds]
    exact Std.ExtTreeMap.getElem?_insert_self
  held := by
    have name : alicePage.domain.fqdn = "alice.foo" := by decide
    rw [RootZone.lookup, name, holds.domains]
    exact Std.ExtTreeMap.getElem?_insert_self
  inForce := ⟨rfl, by decide⟩
  current _ := by decide
  owned := rfl

/-- A store with `alice.foo` hosts its front page. -/
theorem hosts_alice {s : RegistryStore} (holds : HoldsAlice s) :
    s.Hosts (fun _ => ⟨0⟩) alicePage := by
  have points := points_alice holds
  have name : alicePage.domain.fqdn = "alice.foo" := by decide
  have selected := alicePackage_carries.selected
  have served := block_eq_some.mpr ⟨holds.block, rfl⟩
  refine ⟨points.tld, points.held, points.inForce, points.current, ?_, Option.isSome_of_mem served⟩
  obtain ⟨m, reads, selects⟩ := selected
  obtain rfl := Except.ok.inj (siteManifest_reads.symm.trans reads)
  refine ⟨_, siteManifest, holds.manifest, reads, siteManifest_validate, ?_, selects⟩
  rw [name]
  exact siteManifest_verify

/-- A seed is applied as a call. -/
theorem live_seed (s : RegistryStore) (arrival : Arrival) :
    authority.live s (.seed arrival) = authority.step s (.apply arrival.call) := rfl

/-- The life of the registry before the package. -/
def beforeAlice : List RegistryEvent := [.seed arrivalFoo, .nonce "third" ⟨0⟩]

/-- The zone with the TLD `foo` is what its creation leaves. -/
theorem createFoo_zoneFoo : (authority.step start (.apply createFoo)).zone = zoneFoo := by
  obtain ⟨event, created⟩ := stage_foo.1
  rw [zoneFoo]
  exact createFoo_zone stage_start.reachable.verified.1 stage_start.tlds created

/-- The package is accepted behind a nonce of a registry with the TLD `foo`. -/
theorem beforeAlice_accepts {s : RegistryStore}
    (seeded : authority.live start (.seed arrivalFoo) = s)
    (stage : Stage s ((∅ : Table _ _).insert "foo" (official "foo")) ∅
      [createFoo.request.mutationId] (fun key => if "tld:foo" = key then 1 else 0) 1)
    (zone : s.zone = zoneFoo) :
    Transition.Guarded authority.live (RegistryStore.Continues PlainValue) start
        (beforeAlice ++ [.request arrivalAlice]) ∧
      (∃ accepted, authority.acceptance (Transition.run authority.live start beforeAlice)
        (.request arrivalAlice) = some accepted) ∧
      HoldsAlice (Transition.run authority.live start
        (beforeAlice ++ [.request arrivalAlice])) := by
  have takesFoo : start.Takes PlainValue (.seed arrivalFoo) :=
    (takes_withNonces start.database.nonces).mp (takes_arrivalFoo _)
  have opened : ∃ expires, (s.database.reserveNonce arrivalAlice.mutation.nonce
      (expiry ⟨0⟩)).nonces[arrivalAlice.mutation.nonce]? = some expires ∧
        Int64.ofInt arrivalAlice.now.timestamp < expires :=
    ⟨expiry ⟨0⟩, Std.ExtTreeMap.getElem?_insert_self, by decide⟩
  obtain ⟨takes, accepted, holds⟩ := arrivalAlice_accepted stage zone opened
  have first : start.zone.rootVersion.toNat + 1 < 2 ^ 64 := by decide
  have second : s.zone.rootVersion.toNat + 1 < 2 ^ 64 := by
    rw [zone]
    decide
  rw [beforeAlice, List.cons_append, List.cons_append, List.nil_append]
  simp only [Transition.run_cons, Transition.run_nil, Transition.Guarded, seeded, live_nonce]
  exact ⟨⟨⟨takesFoo, first⟩, ⟨trivial, second⟩, ⟨takes, second⟩, trivial⟩, accepted, holds⟩

/-- After the package is accepted, a visitor with the root key resolves the front page. -/
theorem alice_visited :
    let s := Transition.run authority.live start (beforeAlice ++ [.request arrivalAlice])
    (∃ bytes v', exec (peered.resolve (facing "node" s) "alice.foo" "/") visitor =
      (.ok (.content "alice.foo" "/" bytes "text/html" (hashBytes site)), v') ∧
        hashBytes bytes = hashBytes site) ∨
      ∃ other, s.manifests[siteHash]? = some other ∧ other ≠ compact siteManifest.toJson ∧
        hashBytes other = hashBytes (compact siteManifest.toJson) := by
  intro s
  have same : arrivalFoo.call = createFoo := rfl
  have seeded := live_seed start arrivalFoo
  rw [same] at seeded
  obtain ⟨lives, ⟨accepted, took⟩, holds⟩ :=
    beforeAlice_accepts seeded stage_foo.2 createFoo_zoneFoo
  have takes := lives.mono fun _ _ continues => continues.1
  have visited := package_visited signaturesVerify plainReads messagesCompact initialized takes
    took rfl alicePackage_carries (points_alice holds) (visiting_alice holds) parse_alice
  have name : alicePage.domain.fqdn = "alice.foo" := by decide
  have mime : ResolverExternals.mimeGuess alicePage.file = "text/html" := by decide
  have pointed : alicePage.record.manifestHash = siteHash := rfl
  rw [name, mime, pointed] at visited
  exact visited

end Federate.Reference
