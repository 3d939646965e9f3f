import Federate.Verif.DirectoryTable
import Federate.Reference.Registry

/-!
# One entry for each key

A registration is verified with the key that its id decodes to, and hexadecimal text is read in
both cases, while the table and its limit compare ids as text. A key holder has one entry in the
table as long as it always spells its key alike.
-/

namespace Federate

open Outcome DirectoryState

/-- No two ids in the table are the same key. -/
def OneEntryPerKey (nodes : Table String TrackedNode) : Prop :=
  ∀ (id id' : String) (key : Bytes), id ∈ nodes → id' ∈ nodes →
    Hex.decode id = some key → Hex.decode id' = some key → id = id'

/-- A call of `Directory::register`: the registration, the clock, and whether the snapshot file
could be written. -/
structure RegisterCall where
  /-- The registration. -/
  reg : NodeRegistration
  /-- The clock. -/
  now : DateTime
  /-- Whether the file is written. -/
  written : Bool

variable [Externals]

/-- The directory after calls that it all accepts. -/
def registerAll (rootPublicKey : Option String) (s : DirectoryState) (calls : List RegisterCall) :
    Result DirectoryState :=
  calls.foldlM (fun s call => s.register rootPublicKey call.reg call.now call.written) s

/-- No two of these calls spell one key in two ways. -/
def OneSpelling (calls : List RegisterCall) : Prop :=
  ∀ call ∈ calls, ∀ call' ∈ calls, ∀ key, Hex.decode call.reg.nodeId = some key →
    Hex.decode call'.reg.nodeId = some key → call.reg.nodeId = call'.reg.nodeId

/-- A signature verifies under every spelling of its key. -/
theorem verifySignature_spelling (signs : SignaturesVerify) (i : NodeIdentity) (message : Bytes)
    {spelling : String}
    (decodes : Hex.decode spelling = some (Externals.verifyingKey i.signingKey).toList) :
    verifySignature spelling message (i.sign message) = true := by
  simp [verifySignature, decodes, NodeIdentity.sign, signs i.signingKey message]

section Calls

variable {rootPublicKey : Option String} {s s' : DirectoryState}

/-- An accepted registration files the node under its id and leaves the other ids. -/
theorem mem_register {reg : NodeRegistration} {now : DateTime} {written : Bool}
    (accepted : s.register rootPublicKey reg now written = .ok s') (id : String) :
    id ∈ s'.nodes ↔ id = reg.nodeId ∨ id ∈ s.nodes := by
  simp only [DirectoryState.register, bind_eq_ok, rejectIf_eq_ok, exists_unit, exists_const,
    pure_eq_ok] at accepted
  obtain ⟨-, -, -, rfl⟩ := accepted
  rw [persist_nodes, Std.ExtTreeMap.mem_insert, compare_eq_iff_eq, eq_comm]

/-- The ids in the table are those it had and those of the calls. -/
theorem mem_registerAll {calls : List RegisterCall}
    (accepted : registerAll rootPublicKey s calls = .ok s') (id : String) :
    id ∈ s'.nodes ↔ id ∈ s.nodes ∨ ∃ call ∈ calls, call.reg.nodeId = id := by
  induction calls generalizing s with
  | nil =>
    have same : s = s' := Except.ok.inj accepted
    simp [same]
  | cons call rest ih =>
    simp only [registerAll, List.foldlM_cons, bind_eq_ok] at accepted
    obtain ⟨middle, first, later⟩ := accepted
    rw [ih later, mem_register first, List.exists_mem_cons_iff]
    constructor
    · rintro ((rfl | old) | new)
      · exact .inr (.inl rfl)
      · exact .inl old
      · exact .inr (.inr new)
    · rintro (old | rfl | new)
      · exact .inl (.inr old)
      · exact .inl (.inl rfl)
      · exact .inr new

/-- A directory with room accepts a verified registration without the root-authority role. -/
theorem register_of_verified {reg : NodeRegistration} (verified : reg.verify = .ok ())
    (plain : .rootAuthority ∉ reg.roles) (room : s.nodes.size < maxNodes) (now : DateTime)
    (written : Bool) : ∃ s', s.register rootPublicKey reg now written = .ok s' ∧
      s'.nodes.size ≤ s.nodes.size + 1 := by
  have fits : ¬(maxNodes ≤ s.nodes.size ∧ reg.nodeId ∉ s.nodes) := by omega
  simp only [DirectoryState.register, bind_eq_ok, rejectIf_eq_ok, exists_unit, exists_const,
    pure_eq_ok]
  refine ⟨_, ⟨verified, fun both => plain both.1, fits, rfl⟩, ?_⟩
  rw [persist_nodes]
  exact Std.ExtTreeMap.size_insert_le

/-- A new directory that accepts these calls has one entry for each key exactly when no two of them
spell one key in two ways. -/
theorem oneEntryPerKey_iff {calls : List RegisterCall}
    (accepted : registerAll rootPublicKey .new calls = .ok s') :
    OneEntryPerKey s'.nodes ↔ OneSpelling calls := by
  have filed (id : String) : id ∈ s'.nodes ↔ ∃ call ∈ calls, call.reg.nodeId = id := by
    rw [mem_registerAll accepted]
    simp [DirectoryState.new]
  constructor
  · intro once call member call' member' key decodes decodes'
    exact once _ _ key ((filed _).mpr ⟨call, member, rfl⟩) ((filed _).mpr ⟨call', member', rfl⟩)
      decodes decodes'
  · intro alike id id' key held held' decodes decodes'
    obtain ⟨call, member, rfl⟩ := (filed id).mp held
    obtain ⟨call', member', rfl⟩ := (filed id').mp held'
    exact alike call member call' member' key decodes decodes'

end Calls

end Federate

namespace Federate.Reference

open Outcome DirectoryState

/-- The second node registers under a spelling of its key. -/
def spelledNode (spelling : String) : NodeRegistration :=
  let unsigned : NodeRegistration :=
    { selfSigned (identity 10) .dns with nodeId := spelling, publicKey := spelling, signature := none }
  { unsigned with signature := some ((identity 10).sign unsigned.signableBytes) }

/-- Every spelling of the key verifies. -/
theorem spelledNode_verify {spelling : String} (decodes : Hex.decode spelling =
    some (Externals.verifyingKey (identity 10).signingKey).toList) :
    (spelledNode spelling).verify = .ok () := by
  refine NodeRegistration.verify_eq_ok.mpr ⟨rfl, by simp [spelledNode, selfSigned],
    ⟨_, rfl, ?_⟩, ?_⟩
  · exact verifySignature_spelling signaturesVerify (identity 10) _ decodes
  · exact (NodeRegistration.verify_eq_ok.mp (selfSigned_verify (identity 10) .dns)).2.2.2

/-- Two spellings of the key, one after the other. -/
def spelledCalls (first second : String) : List RegisterCall :=
  [⟨spelledNode first, ⟨0⟩, true⟩, ⟨spelledNode second, ⟨0⟩, true⟩]

/-- A new directory accepts both. -/
theorem spelledCalls_accepted {first second : String}
    (decodes : Hex.decode first = some (Externals.verifyingKey (identity 10).signingKey).toList)
    (decodes' : Hex.decode second =
      some (Externals.verifyingKey (identity 10).signingKey).toList) :
    ∃ s, registerAll none .new (spelledCalls first second) = .ok s := by
  have plain (spelling : String) : .rootAuthority ∉ (spelledNode spelling).roles := by
    simp [spelledNode, selfSigned]
  have empty : DirectoryState.new.nodes.size = 0 := rfl
  have limit : maxNodes = 5000 := rfl
  have start : DirectoryState.new.nodes.size < maxNodes := by omega
  obtain ⟨middle, accepted, size⟩ : ∃ s, DirectoryState.new.register none (spelledNode first) ⟨0⟩
      true = .ok s ∧ s.nodes.size ≤ DirectoryState.new.nodes.size + 1 :=
    register_of_verified (spelledNode_verify decodes) (plain first) start ⟨0⟩ true
  have room : middle.nodes.size < maxNodes := by omega
  obtain ⟨last, accepted', -⟩ : ∃ s, middle.register none (spelledNode second) ⟨0⟩ true = .ok s ∧
      s.nodes.size ≤ middle.nodes.size + 1 :=
    register_of_verified (spelledNode_verify decodes') (plain second) room ⟨0⟩ true
  refine ⟨last, ?_⟩
  simp only [registerAll, spelledCalls, List.foldlM_cons, List.foldlM_nil, bind_eq_ok, pure_eq_ok]
  exact ⟨middle, accepted, last, accepted', rfl⟩

/-- The uppercase key and the node id are one key. -/
theorem uppercaseKey_decodes : Hex.decode uppercaseKey =
    some (Externals.verifyingKey (identity 10).signingKey).toList := by decide +kernel

/-- A node that registers twice under its id has one entry. -/
theorem oneSpelling_once : ∃ s,
    registerAll none .new (spelledCalls (identity 10).nodeId (identity 10).nodeId) = .ok s ∧
      (OneEntryPerKey s.nodes ↔
        OneSpelling (spelledCalls (identity 10).nodeId (identity 10).nodeId)) := by
  obtain ⟨s, accepted⟩ := spelledCalls_accepted (Hex.decode_encode _) (Hex.decode_encode _)
  exact ⟨s, accepted, oneEntryPerKey_iff accepted⟩

/-- A node that registers under its id and under its key in uppercase has two entries. -/
theorem uppercase_twice : ∃ s,
    registerAll none .new (spelledCalls (identity 10).nodeId uppercaseKey) = .ok s ∧
      ¬OneEntryPerKey s.nodes := by
  obtain ⟨s, accepted⟩ := spelledCalls_accepted (Hex.decode_encode _) uppercaseKey_decodes
  refine ⟨s, accepted, fun once => ?_⟩
  have lower : (identity 10).nodeId ∈ s.nodes :=
    (mem_registerAll accepted _).mpr (.inr ⟨_, List.mem_cons_self, rfl⟩)
  have upper : uppercaseKey ∈ s.nodes :=
    (mem_registerAll accepted _).mpr (.inr ⟨_, List.mem_cons_of_mem _ List.mem_cons_self, rfl⟩)
  have differs : (identity 10).nodeId ≠ uppercaseKey := by decide +kernel
  exact differs (once _ _ _ lower upper (Hex.decode_encode _) uppercaseKey_decodes)

end Federate.Reference
