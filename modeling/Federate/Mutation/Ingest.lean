import Federate.Mutation.Run

/-!
# Mutations over HTTP

A client asks for a nonce, signs a mutation that embeds it, and submits it, alone or in a package
with the content of a site. The server consumes the nonce, stores the content and applies the
mutation, all under one lock.
-/

namespace Federate

open Outcome Stateful

/-- `MAX_PACKAGE_BYTES`. -/
def maxPackageBytes : ℕ := 32 * 1024 * 1024

/-- `MAX_PACKAGE_BLOCKS`. -/
def maxPackageBlocks : ℕ := 2048

/-- `NONCE_TTL_SECS`. -/
def nonceTtlSecs : Int64 := 300

/-! ## Site packages -/

/-- `PackageBlock`. -/
structure PackageBlock where
  /-- Content address. -/
  hash : String
  /-- The bytes in hexadecimal. -/
  dataHex : String

/-- `SitePackage`. -/
structure SitePackage where
  /-- The request to publish. -/
  mutation : MutationRequest
  /-- The exact manifest bytes in hexadecimal. -/
  manifestHex : String
  /-- The content. -/
  blocks : List PackageBlock

section Package

variable [Externals]

/-- The loop of `SitePackage::decode`, after some bytes. -/
def decodeBlocks (total : ℕ) : List PackageBlock → Result (List (String × Bytes))
  | [] => return []
  | block :: rest => do
    let bytes ← okOr (Hex.decode block.dataHex) (.mutationRejected s!"block {block.hash} is not hex")
    rejectIf (maxPackageBytes < total + bytes.length)
      (.mutationRejected s!"package exceeds {maxPackageBytes} bytes")
    verifyHash bytes block.hash
    let decoded ← decodeBlocks (total + bytes.length) rest
    return (block.hash, bytes) :: decoded

/-- `SitePackage::decode`: the manifest bytes and the blocks. The size is checked at each block. -/
def SitePackage.decode (pkg : SitePackage) : Result (Bytes × List (String × Bytes)) := do
  rejectIf (maxPackageBlocks < pkg.blocks.length) (.mutationRejected
    s!"package has {pkg.blocks.length} blocks (max {maxPackageBlocks})")
  let manifestBytes ← okOr (Hex.decode pkg.manifestHex)
    (.mutationRejected "manifest_hex is not hex")
  let blocks ← decodeBlocks manifestBytes.length pkg.blocks
  match pkg.mutation.action with
  | .publishSite _ manifestHash => do
    verifyHash manifestBytes manifestHash
    return (manifestBytes, blocks)
  | _ => throw (.mutationRejected "package mutation must be a publish_site action")

end Package

/-! ## Nonces -/

/-- `reserve_nonce`: old challenges are pruned first. -/
def RedbTables.reserveNonce (t : RedbTables) (nonce : String) (expiresAt : Int64) : RedbTables :=
  { t with
    nonces := (t.nonces.filter fun _ expires => !(expires < expiresAt - 2 * nonceTtlSecs)).insert
      nonce expiresAt }

/-- `consume_nonce`: whether the challenge was open, which it is no more. -/
def RedbTables.consumeNonce (t : RedbTables) (nonce : String) (now : Int64) : Bool × RedbTables :=
  (match t.nonces[nonce]? with
    | some expires => now < expires
    | none => false,
    { t with nonces := t.nonces.erase nonce })

namespace RegistryStore

/-- `RegistryStore::issue_nonce`, with the random nonce. -/
def issueNonce (nonce : String) (now : Int64) (written : Result Unit) : StoreM (String × Int64) := do
  let expires := now + nonceTtlSecs
  written
  modify fun s => { s with database := s.database.reserveNonce nonce expires }
  return (nonce, expires)

/-- `RegistryStore::consume_nonce`. -/
def consumeNonce (nonce : String) (now : Int64) (written : Result Unit) : StoreM Bool := do
  let (valid, tables) := (← get).database.consumeNonce nonce now
  written
  modify fun s => { s with database := tables }
  return valid

end RegistryStore

/-! ## Requests -/

/-- `mutation_status`. -/
def mutationStatus : FederateError → UInt16
  | .unauthorized _ | .invalidSignature => 403
  | .replay _ => 409
  | .domainNotFound _ | .tldNotFound _ | .manifestNotFound _ => 404
  | _ => 400

/-- What the server answers to a mutation. -/
inductive MutationReply where
  | accepted (mutationId : String) (rootVersion : UInt64) (event : AuditRecord)
  | refused (status : UInt16) (error : String)

/-- The refusal of a nonce. -/
def unknownNonce : String :=
  "unknown, expired, or already-used nonce; request a fresh challenge at " ++
    "POST /v1/mutations/nonce"

/-- What the storage does during a request. -/
structure RequestIo where
  /-- The transaction that consumes the nonce. -/
  nonce : Result Unit
  /-- The files of the blocks. -/
  blocks : ℕ → Result Unit
  /-- The file of the manifest. -/
  manifest : Result Unit
  /-- The mutation. -/
  apply : StorageIo

namespace RegistryStore

variable [Externals] [SerdeJson]

/-- The part of `run_mutation` that stores the content of a package. -/
def storeContent (content : Option (Bytes × List (String × Bytes))) (io : RequestIo) : StoreM Unit :=
  match content with
  | none => pure ()
  | some (manifestBytes, blocks) => do
    storeBlocks blocks io.blocks
    storeManifest (hashBytes manifestBytes) manifestBytes io.manifest

/-- `run_mutation`. -/
def runMutation (req : MutationRequest) (content : Option (Bytes × List (String × Bytes)))
    (ctx : MutationContext) (clock : DateTime) (io : RequestIo) : StoreM MutationReply := do
  match ← attempt (consumeNonce req.nonce (Int64.ofInt ctx.now.timestamp) io.nonce) with
  | .error e => return .refused 500 (toString e)
  | .ok false => return .refused 409 unknownNonce
  | .ok true =>
    match ← attempt (storeContent content io) with
    | .error e => return .refused 400 (toString e)
    | .ok () =>
      match ← attempt (apply req ctx clock io.apply) with
      | .ok event => return .accepted req.mutationId (← get).zone.rootVersion event
      | .error e => return .refused (mutationStatus e) (toString e)

/-- `submit_mutation`. -/
def submitMutation (req : MutationRequest) (ctx : MutationContext) (clock : DateTime)
    (io : RequestIo) : StoreM MutationReply :=
  runMutation req none ctx clock io

/-- `ingest_package`. -/
def ingestPackage (pkg : SitePackage) (ctx : MutationContext) (clock : DateTime) (io : RequestIo) :
    StoreM MutationReply :=
  match pkg.decode with
  | .error e => return .refused 400 (toString e)
  | .ok content => runMutation pkg.mutation (some content) ctx clock io

end RegistryStore

end Federate
