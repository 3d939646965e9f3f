import Federate.Verif.Sizes

/-!
# What a site package carries

Decoding a package checks its number of blocks, every hash and the running size. The size is looked
at where a block is added to it, so a package without blocks is not measured at all.
-/

namespace Federate

open Outcome

variable [Externals]

/-- A block of a package decodes to bytes of the declared hash. -/
structure PackageBlock.Carries (block : PackageBlock) (content : String × Bytes) : Prop where
  /-- The content address is the declared one. -/
  declared : content.1 = block.hash
  /-- The bytes are those in hexadecimal. -/
  decoded : Hex.decode block.dataHex = some content.2
  /-- The bytes have that hash. -/
  hashed : hashBytes content.2 = block.hash

/-- The package carries this manifest and these blocks, within the bounds. -/
structure SitePackage.Carries (pkg : SitePackage) (manifest : Bytes)
    (blocks : List (String × Bytes)) : Prop where
  /-- The size is bounded. -/
  size : manifest.length + (blocks.map fun content => content.2.length).sum ≤ maxPackageBytes
  /-- The number of blocks is bounded. -/
  count : blocks.length ≤ maxPackageBlocks
  /-- The blocks are the decoded ones, in order. -/
  content : List.Forall₂ PackageBlock.Carries pkg.blocks blocks
  /-- The manifest bytes are those in hexadecimal. -/
  decoded : Hex.decode pkg.manifestHex = some manifest
  /-- The request publishes that manifest. -/
  publishes : ∃ domain, pkg.mutation.action = .publishSite domain (hashBytes manifest)

/-- The size of the package is looked at, or else bounded. -/
def SitePackage.Measured (pkg : SitePackage) : Prop :=
  pkg.blocks = [] → ∀ manifest domain, Hex.decode pkg.manifestHex = some manifest →
    pkg.mutation.action = .publishSite domain (hashBytes manifest) →
      manifest.length ≤ maxPackageBytes

/-- A hash is verified exactly when it is that of the bytes. -/
theorem verifyHash_iff {bytes : Bytes} {hash : String} :
    verifyHash bytes hash = .ok () ↔ hashBytes bytes = hash := by
  rw [verifyHash_eq_ok]
  constructor
  · intro passes
    exact passes.2
  · intro same
    exact ⟨same ▸ isValidHash_hashBytes bytes, same⟩

/-- The loop keeps the size bounded once there is a block. -/
theorem decodeBlocks_eq_ok {total : ℕ} {packed : List PackageBlock}
    {blocks : List (String × Bytes)} : decodeBlocks total packed = .ok blocks ↔
      List.Forall₂ PackageBlock.Carries packed blocks ∧ (packed ≠ [] →
        total + (blocks.map fun content => content.2.length).sum ≤ maxPackageBytes) := by
  induction packed generalizing total blocks with
  | nil =>
    rw [decodeBlocks, pure_eq_ok, List.forall₂_nil_left_iff]
    constructor
    · intro none
      exact ⟨none.symm, fun some => absurd rfl some⟩
    · intro none
      exact none.1.symm
  | cons block rest ih =>
    simp only [decodeBlocks, bind_eq_ok, okOr_eq_ok, rejectIf_eq_ok, exists_const, exists_unit,
      verifyHash_iff, pure_eq_ok, ih, ne_eq, reduceCtorEq, not_false_eq_true, true_implies]
    constructor
    · intro decodes
      obtain ⟨bytes, hex, small, hashed, later, ⟨carried, bounded⟩, rfl⟩ := decodes
      have whole : total + bytes.length + (later.map fun content => content.2.length).sum ≤
          maxPackageBytes := by
        by_cases last : rest = []
        · have none : later = [] := by
            rw [last] at carried
            exact List.forall₂_nil_left_iff.mp carried
          rw [none]
          exact Nat.le_of_not_lt small
        · exact bounded last
      refine ⟨.cons ⟨rfl, hex, hashed⟩ carried, ?_⟩
      simp only [List.map_cons, List.sum_cons]
      omega
    · intro carries
      obtain ⟨carried, bounded⟩ := carries
      cases carried with
      | @cons _ content _ later first others =>
        obtain ⟨hash, bytes⟩ := content
        have named : hash = block.hash := first.declared
        simp only [List.map_cons, List.sum_cons] at bounded
        have within : ¬maxPackageBytes < total + bytes.length := by omega
        refine ⟨bytes, first.decoded, within, first.hashed, later, ⟨others, fun _ => ?_⟩, ?_⟩
        · omega
        · rw [named]

/-- What decodes is carried, but for the size when there are no blocks. -/
theorem SitePackage.decode_eq_ok {pkg : SitePackage} {manifest : Bytes}
    {blocks : List (String × Bytes)} : pkg.decode = .ok (manifest, blocks) ↔
      (pkg.blocks ≠ [] →
        manifest.length + (blocks.map fun content => content.2.length).sum ≤ maxPackageBytes) ∧
      blocks.length ≤ maxPackageBlocks ∧
      List.Forall₂ PackageBlock.Carries pkg.blocks blocks ∧
      Hex.decode pkg.manifestHex = some manifest ∧
      ∃ domain, pkg.mutation.action = .publishSite domain (hashBytes manifest) := by
  simp only [SitePackage.decode, bind_eq_ok, rejectIf_eq_ok, exists_const, okOr_eq_ok,
    decodeBlocks_eq_ok]
  constructor
  · intro decodes
    obtain ⟨few, bytes, hex, content, ⟨carried, bounded⟩, rest⟩ := decodes
    cases action : pkg.mutation.action with
    | publishSite domain hash =>
      simp only [action, bind_eq_ok, exists_unit, verifyHash_iff, pure_eq_ok, Prod.mk.injEq]
        at rest
      obtain ⟨hashed, rfl, rfl⟩ := rest
      have same : pkg.blocks.length = content.length := carried.length_eq
      exact ⟨bounded, by omega, carried, hex, domain, by rw [hashed]⟩
    | _ => simp [action] at rest
  · intro carries
    obtain ⟨bounded, count, carried, hex, domain, action⟩ := carries
    have same : pkg.blocks.length = blocks.length := carried.length_eq
    refine ⟨by omega, manifest, hex, blocks, ⟨carried, bounded⟩, ?_⟩
    simp only [action, bind_eq_ok, exists_unit, verifyHash_iff, pure_eq_ok, and_self]

/-- Decoding gives exactly what a package carries when the package is measured. -/
theorem SitePackage.decode_carries_iff (pkg : SitePackage) :
    (∀ manifest blocks, pkg.decode = .ok (manifest, blocks) ↔ pkg.Carries manifest blocks) ↔
      pkg.Measured := by
  constructor
  · intro exact_ empty manifest domain hex action
    have decodes : pkg.decode = .ok (manifest, []) :=
      SitePackage.decode_eq_ok.mpr ⟨fun some => absurd empty some, Nat.zero_le _,
        empty ▸ List.Forall₂.nil, hex, domain, action⟩
    have size := ((exact_ manifest []).mp decodes).size
    simpa using size
  · intro measured manifest blocks
    rw [SitePackage.decode_eq_ok]
    constructor
    · intro decodes
      obtain ⟨bounded, count, carried, hex, domain, action⟩ := decodes
      refine ⟨?_, count, carried, hex, domain, action⟩
      by_cases empty : pkg.blocks = []
      · have none : blocks = [] := by
          rw [empty] at carried
          exact List.forall₂_nil_left_iff.mp carried
        have small := measured empty manifest domain hex action
        simpa [none] using small
      · exact bounded empty
    · intro carries
      exact ⟨fun _ => carries.size, carries.count, carries.content, carries.decoded,
        carries.publishes⟩

end Federate

namespace Federate.Reference

/-- Spaces that follow the manifest of a package without blocks would be bounded. -/
theorem blocklessPackage_size {spaces : ℕ} (bounds : ∀ manifest blocks,
    (sitePackage spaces).decode = .ok (manifest, blocks) ↔
      (sitePackage spaces).Carries manifest blocks) : spaces ≤ maxPackageBytes := by
  have carries := (bounds _ _).mp (sitePackage_decode spaces)
  have size := carries.size
  rw [paddedManifest, List.length_append, List.length_replicate] at size
  omega

/-- A package whose manifest is followed by 33554433 spaces is decoded although it is larger than a
package may be. -/
theorem blocklessPackage_decodes : ¬∀ manifest blocks,
    (sitePackage 33554433).decode = .ok (manifest, blocks) ↔
      (sitePackage 33554433).Carries manifest blocks := by
  intro bounds
  have small := blocklessPackage_size bounds
  have limit : maxPackageBytes = 33554432 := rfl
  omega

end Federate.Reference
