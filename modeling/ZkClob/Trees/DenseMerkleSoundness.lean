import ZkClob.Trees.DenseMerkleMultiproof

/-!
# Soundness of dense multiproofs

A multiproof need not come from the builder.  What the verifier accepts against the
root of a leaf sequence still is the proof that the builder writes for the listed
indices: the number of leaves is hashed into the root, and a walk that ends at the
root of a tree has read the roots of its subtrees.

Main results:

- Theorem {lit}`eq_honestProof`: a proof that is accepted against the root of a
  sequence is the honest one.
- Theorem {lit}`dense_multiproof_sound`: so it shows the leaves of the sequence, and it
  serves for every replacement of them.
-/

namespace ZkClob

open Foundations

namespace DenseMerkle

variable {B256 L : Type} [Sha256 B256] [DomainSha256Hash L]

/-! ## Hashes without collisions -/

section

variable {left left' right right' treeRoot treeRoot' : B256} {leafCount leafCount' : U32}

/-- A node determines its children. -/
theorem join_injective (hfree : CollisionFree B256) :
    Function.Injective2 (join : B256 → B256 → B256) := by
  intro left left' right right' h
  have hbytes : Sha256.bytes left ++ Sha256.bytes right =
      Sha256.bytes left' ++ Sha256.bytes right' := updateHash_eq_of_hash_eq hfree h
  obtain ⟨hleft, hrest⟩ := Sha256.bytes_prefixFree hbytes
  exact ⟨hleft, Sha256.bytes_prefixFree.injective hrest⟩

/-- A root determines the number of leaves and the root of the complete tree. -/
theorem eq_of_hash_root_eq (hfree : CollisionFree B256)
    (h : (hash (Root.mk leafCount treeRoot) : B256) = hash (Root.mk leafCount' treeRoot')) :
    leafCount = leafCount' ∧ treeRoot = treeRoot' := by
  have hbytes : beBytes leafCount ++ Sha256.bytes treeRoot =
      beBytes leafCount' ++ Sha256.bytes treeRoot' := updateHash_eq_of_hash_eq hfree h
  obtain ⟨hcount, hrest⟩ := prefixFree_beBytes (by decide) hbytes
  exact ⟨hcount, Sha256.bytes_prefixFree.injective hrest⟩

end

/-! ## What the verifier checks -/

section

variable {leaves all : List L} {indices : List U32} {leafCount : U32} {root : B256}
  {proof : DenseMerkleMultiproof B256}

/-- Indices that pass the checks are sorted. -/
theorem sorted_of_anyAdjacent (h : anyAdjacent (fun a b => a ≥ b) indices = false) :
    SortedBy BitVec.toNat indices :=
  SortedBy.of_anyAdjacent_ge h

/-- Those that are sorted are below a number when the last one is. -/
theorem lt_of_getLast (hsorted : SortedBy BitVec.toNat indices)
    (hlast : indices.getLast?.any (fun index => index ≥ leafCount) = false) :
    ∀ index ∈ indices, index.toNat < leafCount.toNat := by
  intro index hindex
  obtain ⟨i, hi⟩ := List.getElem?_of_mem hindex
  have hlength : i < indices.length := (List.getElem?_eq_some_iff.mp hi).1
  cases hend : indices.getLast? with
  | none =>
      cases List.getLast?_eq_none_iff.mp hend
      cases hindex
  | some last =>
      have hposition : indices[indices.length - 1]? = some last := by
        rw [← List.getLast?_eq_getElem?, hend]
      have hle := hsorted.key_le_of_le hi hposition (by omega)
      rw [hend, Option.any_some, decide_eq_false_iff_not, ge_iff_le, BitVec.le_def] at hlast
      omega

/-- The checks put the indices into the complete tree. -/
theorem inSubtree_of_checks (hadjacent : anyAdjacent (fun a b => a ≥ b) indices = false)
    (hlast : indices.getLast?.any (fun index => index ≥ leafCount) = false) :
    InSubtree (treeHeight leafCount.toNat) 0 indices := by
  have hsorted := sorted_of_anyAdjacent hadjacent
  constructor
  · exact hsorted
  · intro index hindex
    have := le_two_pow_treeHeight leafCount.toNat
    have := lt_of_getLast hsorted hlast index hindex
    omega

/-- An accepted proof, as a walk over the complete tree. -/
theorem exists_rebuild (hproof : computeRootFromProof leaves proof = .ok root) :
    leaves.length = proof.leafIndices.length ∧ SortedBy BitVec.toNat proof.leafIndices ∧
      (∀ index ∈ proof.leafIndices, index.toNat < proof.leafCount.toNat) ∧
      ∃ treeRoot, root = hash (Root.mk proof.leafCount treeRoot) ∧
        CompleteTree.rebuild join nextNode .InvalidMultiproof (treeHeight proof.leafCount.toNat)
          0 (entries proof.leafIndices leaves) proof.sideNodes = .ok (treeRoot, []) := by
  simp only [computeRootFromProof, Outcome.bind_eq_ok, Outcome.rejectIf_eq_ok, not_or,
    Except.ok.injEq, Bool.not_eq_true, not_not] at hproof
  obtain ⟨_, ⟨hlength, -, hadjacent, hlast⟩, ⟨treeRoot, rest⟩, hwalk, _, hrest, hroot⟩ := hproof
  have hin := inSubtree_of_checks hadjacent hlast
  have hnil : rest = [] := by simpa using hrest
  rw [treeWidth_eq, treeRootFromProof_eq hin hlength, hnil] at hwalk
  exact ⟨hlength, hin.sorted, lt_of_getLast hin.sorted hlast, treeRoot, hroot.symm, hwalk⟩

omit [Sha256 B256] in
/-- Side nodes that are read to the end are the roots that were asked for. -/
theorem eq_of_supplies_nextNode {roots : List (Nat × B256)} {sideNodes : List B256}
    (h : CompleteTree.Supplies nextNode roots sideNodes []) : sideNodes = roots.map Prod.snd := by
  induction roots generalizing sideNodes with
  | nil => exact h
  | cons x roots ih =>
      obtain ⟨mid, hnext, hrest⟩ := h
      cases sideNodes with
      | nil => cases hnext
      | cons node sideNodes =>
          cases hnext
          rw [ih hrest, List.map_cons]

/-- A computed root is hashed over a number of leaves that fits. -/
theorem exists_leafCount (hroot : computeRoot all = .ok root) :
    ∃ leafCount, FixedWidth.ofNat? 32 all.length = some leafCount ∧
      root = rootHash leafCount all := by
  cases hcount : FixedWidth.ofNat? 32 all.length with
  | none =>
      rw [computeRoot, hcount] at hroot
      cases hroot
  | some leafCount =>
      rw [computeRoot_eq_ok hcount] at hroot
      exact ⟨leafCount, rfl, (Except.ok.inj hroot).symm⟩

/-! ## Accepted proofs -/

/-- A walk that ends at the root of the leaf sequence. -/
theorem rebuild_of_accepted (hfree : CollisionFree B256)
    (hcount : FixedWidth.ofNat? 32 all.length = some leafCount)
    (hproof : computeRootFromProof leaves proof = .ok (rootHash leafCount all)) :
    proof.leafCount = leafCount ∧
      CompleteTree.rebuild join nextNode .InvalidMultiproof (treeHeight all.length) 0
        (entries proof.leafIndices leaves) proof.sideNodes =
          .ok (CompleteTree.root join (slot all) (treeHeight all.length) 0, []) := by
  obtain ⟨-, -, -, treeRoot, hhash, hwalk⟩ := exists_rebuild hproof
  obtain ⟨hleafCount, htreeRoot⟩ := eq_of_hash_root_eq hfree hhash
  rw [← hleafCount, FixedWidth.ofNat?_eq_some.mp hcount, ← htreeRoot] at hwalk
  exact ⟨hleafCount.symm, hwalk⟩

/-- A proof that is accepted against the root of a sequence is the honest one. -/
theorem eq_honestProof (hfree : CollisionFree B256)
    (hcount : FixedWidth.ofNat? 32 all.length = some leafCount)
    (hproof : computeRootFromProof leaves proof = .ok (rootHash leafCount all)) :
    proof = honestProof leafCount all proof.leafIndices := by
  obtain ⟨hlength, -⟩ := exists_rebuild hproof
  obtain ⟨rfl, hwalk⟩ := rebuild_of_accepted hfree hcount hproof
  have hsupplies := CompleteTree.rebuild_supplies (join_injective hfree) hwalk
  rw [map_fst_entries hlength] at hsupplies
  have hsides := eq_of_supplies_nextNode hsupplies
  cases proof with | mk leafCount leafIndices sideNodes =>
  rw [honestProof, missingRoots, ← hsides]

/-- It shows at every index the leaf of the sequence. -/
theorem hash_eq_of_accepted (hfree : CollisionFree B256)
    (hcount : FixedWidth.ofNat? 32 all.length = some leafCount)
    (hproof : computeRootFromProof leaves proof = .ok (rootHash leafCount all)) :
    ∀ x ∈ proof.leafIndices.zip leaves, (hash x.2 : B256) = slot all x.1.toNat := by
  obtain ⟨-, hwalk⟩ := rebuild_of_accepted hfree hcount hproof
  intro x hx
  exact CompleteTree.rebuild_sound (join_injective hfree) hwalk (x.1.toNat, hash x.2)
    (List.mem_map_of_mem hx)

/-- Leaves with the hashes of the leaves at some indices are these leaves. -/
theorem map_some_eq (hfree : CollisionFree B256)
    (hvalue : Function.Injective (updateHash : L → Bytes))
    (hlength : leaves.length = indices.length)
    (hlt : ∀ index ∈ indices, index.toNat < all.length)
    (hhash : ∀ x ∈ indices.zip leaves, (hash x.2 : B256) = slot all x.1.toNat) :
    leaves.map some = indices.map fun index => all[index.toNat]? := by
  apply List.ext_getElem
  · simpa using hlength
  · intro i hi hi'
    rw [List.length_map] at hi hi'
    have hindex := hlt indices[i] (List.getElem_mem hi')
    have hzip : i < (indices.zip leaves).length := by
      rw [List.length_zip]
      omega
    have hpair : (indices[i], leaves[i]) ∈ indices.zip leaves :=
      List.mem_iff_getElem.mpr ⟨i, hzip, List.getElem_zip⟩
    have hslot : (hash leaves[i] : B256) = slot all indices[i].toNat := hhash _ hpair
    rw [slot, List.getElem?_map, List.getElem?_eq_getElem hindex, Option.map_some,
      Option.getD_some] at hslot
    rw [List.getElem_map, List.getElem_map, List.getElem?_eq_getElem hindex,
      hvalue (updateHash_eq_of_hash_eq hfree hslot)]

/-- Soundness: a proof, however produced, that takes some leaves to the root of a sequence was
given exactly the leaves of the sequence at the listed indices; if it lists any, it is the proof
that the builder returns for them; and it takes every replacement of them to the root of the
sequence in which they are replaced. -/
theorem dense_multiproof_sound (hfree : CollisionFree B256)
    (hvalue : Function.Injective (updateHash : L → Bytes)) (hroot : computeRoot all = .ok root)
    (hproof : computeRootFromProof leaves proof = .ok root) :
    leaves.map some = proof.leafIndices.map (fun index => all[index.toNat]?) ∧
      (proof.leafIndices ≠ [] → buildMultiproof all proof.leafIndices = .ok proof) ∧
      ∀ replacements, replacements.length = proof.leafIndices.length →
        ∃ root', computeRootFromProof replacements proof = .ok root' ∧
          computeRoot (replace all proof.leafIndices replacements) = .ok root' := by
  obtain ⟨leafCount, hcount, rfl⟩ := exists_leafCount hroot
  obtain ⟨hlength, hsorted, hlt, -⟩ := exists_rebuild hproof
  have hhonest := eq_honestProof hfree hcount hproof
  have hin : ∀ index ∈ proof.leafIndices, index.toNat < all.length := by
    rw [(rebuild_of_accepted hfree hcount hproof).1, FixedWidth.ofNat?_eq_some.mp hcount] at hlt
    exact hlt
  refine ⟨map_some_eq hfree hvalue hlength hin (hash_eq_of_accepted hfree hcount hproof), ?_, ?_⟩
  · intro hne
    rw [buildMultiproof_eq_ok hcount hne hsorted hin, ← hhonest]
  · intro replacements hreplacements
    have hupdated : computeRoot (replace all proof.leafIndices replacements) =
        .ok (rootHash leafCount (replace all proof.leafIndices replacements) : B256) :=
      computeRoot_eq_ok (by rwa [length_replace])
    refine ⟨_, ?_, hupdated⟩
    by_cases hne : proof.leafIndices = []
    · -- nothing is selected, and nothing is replaced
      rw [hne] at hlength hreplacements
      cases List.length_eq_zero_iff.mp hlength
      cases List.length_eq_zero_iff.mp hreplacements
      rw [hproof, hne]
      rfl
    · rw [hhonest]
      exact computeRootFromProof_honestProof hcount hne hsorted hin hreplacements

/-- The proof for two of three accounts. -/
def testProof : DenseMerkleMultiproof IdealDigest :=
  honestProof 3 (testAccounts 0 [1, 2, 3]) [0, 2]

/-- It is accepted with the accounts that are committed. -/
theorem computeRootFromProof_testProof :
    computeRootFromProof (testAccounts 0 [1, 3]) testProof =
      .ok (rootHash 3 (testAccounts 0 [1, 2, 3])) := by
  have hsame : replace (testAccounts 0 [1, 2, 3]) [0, 2] (testAccounts 0 [1, 3]) =
      testAccounts 0 [1, 2, 3] := rfl
  rw [← hsame]
  exact computeRootFromProof_honestProof (by decide) (by decide)
    (List.pairwise_pair.mpr (by decide)) (by simp [testAccounts]) rfl

theorem dense_multiproof_sound_test :
    (testAccounts 0 [1, 3]).map some =
        testProof.leafIndices.map (fun index => (testAccounts 0 [1, 2, 3])[index.toNat]?) ∧
      (testProof.leafIndices ≠ [] →
        buildMultiproof (testAccounts 0 [1, 2, 3]) testProof.leafIndices = .ok testProof) ∧
      ∀ replacements : List Account, replacements.length = testProof.leafIndices.length →
        ∃ root', computeRootFromProof replacements testProof = .ok root' ∧
          computeRoot (replace (testAccounts 0 [1, 2, 3]) testProof.leafIndices replacements) =
            .ok root' :=
  dense_multiproof_sound IdealDigest.collisionFree Account.updateHash_injective
    (computeRoot_eq_ok (by decide)) computeRootFromProof_testProof

end

end DenseMerkle

end ZkClob
