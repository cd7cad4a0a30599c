import ZkClob.Trees.SparseMerkleMultiproof

/-!
# Updates through sparse multiproofs

A verifier that holds nothing but a root checks a multiproof with the old leaves and
computes the next root from the same proof with the new ones.  The proof comes from
somebody else: its bits and side nodes may be chosen freely.  Once it has been
accepted it can only say what the tree says, so the next root is right as well.

Main results:

- Theorem {lit}`rebuild_next_of_accepted`: other leaves with the listed keys are taken to
  the root of the updated tree.
- Theorem {lit}`sparse_multiproof_updates`: which leaves an accepted proof takes to
  which root.
-/

namespace ZkClob

open Foundations

namespace SparseMerkle

open BitKey SparseMerkleLeaf EmptyHashes

variable {B256 K L : Type} [Sha256 B256] [EmptyHashes B256] [SparseMerkleKey K]
  [SparseMerkleLeaf L K]

section

variable {values all new : List L} {proof : SparseMerkleMultiproof B256 K} {root : B256}

/-- Whatever leaves are presented, the walk is over the listed keys. -/
theorem map_fst_entry (values : List L) (keys : List K) :
    ((keys.map (lookup values)).map ProofLeaf.entry : List (Nat × B256)).map Prod.fst =
      keys.map index := by
  simp [ProofLeaf.entry, lookup, Function.comp_def]

/-- Other leaves with the listed keys are taken to the root of the updated tree. -/
theorem rebuild_next_of_accepted {reader : ProofReader B256} (hfree : CollisionFree B256)
    (hall : (all.map key).Nodup) (hkeys : SortedBy id proof.leafKeys)
    (hwalk : CompleteTree.rebuild join (ProofReader.next K) .InvalidMultiproof (BITS K) 0
      ((proof.leafKeys.map (lookup values)).map ProofLeaf.entry) proof.reader =
        .ok (CompleteTree.root join (slot (sortedLeaves all)) (BITS K) 0, reader))
    (hsorted : SortedBy key new) (hnew : ∀ v ∈ new, key v ∈ proof.leafKeys) :
    CompleteTree.rebuild join (ProofReader.next K) .InvalidMultiproof (BITS K) 0
        ((proof.leafKeys.map (lookup new)).map ProofLeaf.entry) proof.reader =
      .ok (CompleteTree.root join (slot (sortedLeaves (update all proof.leafKeys new)))
        (BITS K) 0, reader) := by
  have hin : InSubtree (BITS K) 0 0 (proof.leafKeys.map (lookup new)) :=
    InSubtree.whole (sorted_lookup hkeys)
  have hnumbers : ((proof.leafKeys.map (lookup new)).map ProofLeaf.entry :
        List (Nat × B256)).map Prod.fst =
      ((proof.leafKeys.map (lookup values)).map ProofLeaf.entry :
        List (Nat × B256)).map Prod.fst :=
    (map_fst_entry new proof.leafKeys).trans (map_fst_entry values proof.leafKeys).symm
  have hslot : CompleteTree.override (slot (sortedLeaves all))
        ((proof.leafKeys.map (lookup new)).map ProofLeaf.entry) =
      (slot (sortedLeaves (update all proof.leafKeys new)) : Nat → B256) :=
    override_slot hall hkeys (fun _ => Iff.rfl) hsorted hnew
  rw [← hslot]
  exact CompleteTree.rebuild_update (join_injective hfree) hwalk hnumbers hin.within hin.nodup

/-- A proof, however produced, that takes some leaves to the root of a leaf set takes to another
root exactly the sorted leaves with listed keys that make the set one with that root. -/
theorem sparse_multiproof_updates (hfree : CollisionFree B256) (hbits : BITS K ≤ 160)
    (htable : EmptyHashes.Recurrent B256) (hall : (all.map key).Nodup)
    (hroot : computeRoot all = .ok root) (hproof : computeRootFromProof values proof = .ok root) :
    ∀ (new : List L) (root' : B256), computeRootFromProof new proof = .ok root' ↔
      SortedBy key new ∧ (∀ v ∈ new, key v ∈ proof.leafKeys) ∧
        computeRoot ((all.filter fun v => key v ∉ proof.leafKeys) ++ new) = .ok root' := by
  obtain ⟨⟨hne, hkeys, -, -⟩, reader, hwalk, hfinish⟩ := computeRootFromProof_eq_ok.mp hproof
  cases eq_of_computeRoot htable hall hroot
  intro new root'
  constructor
  · intro hproof'
    obtain ⟨⟨-, -, hsorted, hnew⟩, reader', hwalk', -⟩ := computeRootFromProof_eq_ok.mp hproof'
    rw [rebuild_next_of_accepted hfree hall hkeys hwalk hsorted hnew] at hwalk'
    cases hwalk'
    exact ⟨hsorted, hnew, computeRoot_eq_ok hbits htable (nodup_update hall hsorted hnew)⟩
  · intro h
    obtain ⟨hsorted, hnew, hupdated⟩ := h
    have hcommitted := eq_of_computeRoot htable (nodup_update hall hsorted hnew) hupdated
    have hwalk' := rebuild_next_of_accepted hfree hall hkeys hwalk hsorted hnew
    rw [← hcommitted] at hwalk'
    exact computeRootFromProof_eq_ok.mpr
      ⟨⟨hne, hkeys, hsorted, hnew⟩, reader, hwalk', hfinish⟩

/-- Without leaves the proof leads to the set without the listed keys. -/
theorem sparse_multiproof_updates_test :
    ∃ root' : IdealDigest,
      computeRootFromProof ([] : List TestLeaf) (honestProof testLeaves (sortByKey id testKeys)) =
          .ok root' ∧
        computeRoot ((update testLeaves testKeys [testInserted]).filter (fun v =>
          key v ∉ (honestProof testLeaves (sortByKey id testKeys) :
            SparseMerkleMultiproof IdealDigest (FixedBytes 1)).leafKeys) ++ []) = .ok root' := by
  have hupdated : ((update testLeaves testKeys [testInserted]).map key).Nodup := by decide
  have hroot := computeRoot_eq_ok (by decide) (recurrent_computed : EmptyHashes.Recurrent
    IdealDigest) hupdated
  have haccepted : computeRootFromProof [testInserted]
      (honestProof testLeaves (sortByKey id testKeys)) = .ok _ :=
    computeRootFromProof_honestProof (by decide) (recurrent_computed : EmptyHashes.Recurrent
      IdealDigest) (by decide) (by decide) (by decide) (List.pairwise_singleton _ _) (by decide)
  have hremaining : (((update testLeaves testKeys [testInserted]).filter (fun v =>
      key v ∉ (honestProof testLeaves (sortByKey id testKeys) :
        SparseMerkleMultiproof IdealDigest (FixedBytes 1)).leafKeys) ++ []).map key).Nodup := by
    decide
  have hremoved := computeRoot_eq_ok (by decide) recurrent_computed hremaining
  exact ⟨_, (sparse_multiproof_updates IdealDigest.collisionFree (by decide) recurrent_computed
    hupdated hroot haccepted [] _).mpr ⟨.nil, by simp, hremoved⟩, hremoved⟩

end

end SparseMerkle

end ZkClob
