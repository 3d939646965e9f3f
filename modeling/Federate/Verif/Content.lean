import Federate.Mutation.Request
import Federate.Reference.Operations

/-!
# Canonical bytes bind content

The canonical text is a JSON text with sorted members: two values with the same text are the same
up to the order of members, and two values that differ only there have the same text.
-/

namespace Federate

open Json

variable [Externals]

theorem writeItems_eq (items : List Json) : writeItems items = items.map writeCanonical := by
  induction items with
  | nil => rfl
  | cons item rest ih => rw [writeItems, ih, List.map_cons]

theorem writeFields_eq (fields : List (String × Json)) :
    writeFields fields = fields.map fun field => (field.1, writeCanonical field.2) := by
  induction fields with
  | nil => rfl
  | cons field rest ih =>
    obtain ⟨key, value⟩ := field
    rw [writeFields, ih, List.map_cons]

/-- The canonical text is a JSON text with its members in key order. -/
theorem canonical_writes : Writes Externals.toVec sortMembers writeCanonical where
  null := by rw [writeCanonical]
  bool b := by rw [writeCanonical]
  num n := by rw [writeCanonical]
  str s := by rw [writeCanonical]
  arr items := by rw [writeCanonical, writeItems_eq, List.append_assoc]
  obj fields := by
    have rows := List.map_insertionSort (fun a b : String × Json => a.1 ≤ b.1)
      (fun a b : String × Bytes => a.1 ≤ b.1) (fun field => (field.1, writeCanonical field.2))
      fields fun _ _ _ _ => Iff.rfl
    rw [writeCanonical, writeFields_eq, sortMembers, ← rows, List.map_map, List.append_assoc]
    simp only [Function.comp_def, List.append_assoc]
    rfl

/-- Values with the same canonical text are the same, up to the order of members and up to what
the text says of their numbers. -/
theorem canonicalBytes_same (tokens : Tokens Externals.toVec) {N : Number → Number → Prop}
    {v w : Json} (numbers : ∀ m n, Part (.num m) v → Part (.num n) w →
      Externals.toVec (.num m) = Externals.toVec (.num n) → N m n)
    (equal : canonicalBytes v = canonicalBytes w) : v.Same N List.Perm w :=
  (canonical_writes.splits tokens sortMembers_perm
    (fun fields _ member => (sortMembers_perm fields).mem_iff.mpr member) v w numbers).whole equal

/-- Integral values with the same canonical text are the same up to the order of members. -/
theorem canonicalBytes_integral (compact : CompactText) {v w : Json} (left : v.Integral)
    (right : w.Integral) (equal : canonicalBytes v = canonicalBytes w) : v.Same Eq List.Perm w :=
  canonicalBytes_same compact.tokens
    (fun m n inside inside' => compact.integers m n (left m inside) (right n inside')) equal

omit [Externals] in
/-- An integral request stays integral when it is renamed and its signature is removed. -/
theorem MutationRequest.integral_blank {r : MutationRequest} (integral : r.toJson.Integral)
    (mutationId : String) : Json.Integral { r with mutationId, signature := none }.toJson := by
  intro n inside
  cases inside with
  | field member inside =>
    simp only [List.mem_cons, List.not_mem_nil, or_false] at member
    have kept {field : String × Json} (inside : Part (.num n) field.2) (member : field ∈
        [("nonce", .str r.nonce), ("issued_at", .str r.issuedAt),
          ("actor_public_key", .str r.actorPublicKey),
          ("target_version", ofUInt64 r.targetVersion), ("action", r.action.toJson),
          ("signature_algorithm", .str r.signatureAlgorithm)]) : n.Integral :=
      integral n (.field (List.mem_cons_of_mem _ (List.mem_append_left [_] member)) inside)
    rcases member with rfl | rfl | rfl | rfl | rfl | rfl | rfl | rfl
    · exact absurd inside nofun
    on_goal 7 => exact absurd inside nofun
    all_goals exact kept inside (by simp)

/-- Canonical bytes bind content: integral values with distinct keys have the same bytes exactly
when they are the same up to the order of keys, so that what a mutation id or a signature of a
request is computed from determines all that is not blanked. -/
theorem canonicalBytes_binds (compact : CompactText) :
    (∀ v w : Json, v.Keyed → w.Keyed → v.Integral → w.Integral →
      (canonicalBytes v = canonicalBytes w ↔ v.Same Eq List.Perm w)) ∧
    ∀ r s : MutationRequest, r.toJson.Integral → s.toJson.Integral →
      (canonicalBytes { r with mutationId := "", signature := none }.toJson =
          canonicalBytes { s with mutationId := "", signature := none }.toJson →
        Same Eq List.Perm { r with mutationId := "", signature := none }.toJson
          { s with mutationId := "", signature := none }.toJson) ∧
      (r.signableBytes = s.signableBytes →
        Same Eq List.Perm { r with signature := none }.toJson
          { s with signature := none }.toJson) := by
  refine ⟨fun v w keyed keyed' left right => ⟨canonicalBytes_integral compact left right,
    canonical_writes.of_same keyed keyed'⟩, fun r s left right => ⟨?_, ?_⟩⟩
  · exact canonicalBytes_integral compact (MutationRequest.integral_blank left _)
      (MutationRequest.integral_blank right _)
  · exact canonicalBytes_integral compact (MutationRequest.integral_blank left _)
      (MutationRequest.integral_blank right _)

end Federate

namespace Federate.Reference

open Json

/-- Objects of nulls and ones have distinct keys throughout and no other numbers. -/
theorem keyed_integral (fields : List (String × Json))
    (members : ∀ field ∈ fields, field.2 = .null ∨ field.2 = .num (.posInt 1))
    (distinct : (fields.map Prod.fst).Nodup) : Keyed (.obj fields) ∧ Integral (.obj fields) := by
  constructor
  · intro inner inside
    cases inside with
    | whole => exact distinct
    | field member inside =>
      rcases members _ member with null | number
      · exact absurd (null ▸ inside) nofun
      · exact absurd (number ▸ inside) nofun
  · intro n inside
    cases inside with
    | field member inside =>
      rcases members _ member with null | number
      · exact absurd (null ▸ inside) nofun
      · rw [number] at inside
        cases inside
        trivial

/-- Two objects that differ in the order of their members have the same bytes exactly when they
are the same up to that order. -/
theorem reordered_bound :
    canonicalBytes (.obj [("a", .num (.posInt 1)), ("b", .null)]) =
        canonicalBytes (.obj [("b", .null), ("a", .num (.posInt 1))]) ↔
      Same Eq List.Perm (.obj [("a", .num (.posInt 1)), ("b", .null)])
        (.obj [("b", .null), ("a", .num (.posInt 1))]) := by
  have first := keyed_integral [("a", .num (.posInt 1)), ("b", .null)] (by simp) (by simp)
  have second := keyed_integral [("b", .null), ("a", .num (.posInt 1))] (by simp) (by simp)
  exact (canonicalBytes_binds compactText).1 _ _ first.1 second.1 first.2 second.2

end Federate.Reference
