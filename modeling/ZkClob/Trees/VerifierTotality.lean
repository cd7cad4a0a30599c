import ZkClob.Trees.DenseMerkleSoundness
import ZkClob.Trees.SparseMerkleUpdates

/-!
# Verifiers on any input

Leaves and proofs reach a verifier from outside: lists of any length, keys in any
order, bitmaps and side nodes of any content.  A verifier then answers with a root or
an error.  It indexes slices and subtracts positions without looking, so this rests on
the checks in front: the walk splits leaves and indices at the same place, and the
reader stays within its bitmap.

Main results:

- Theorem {lit}`dense_verifier_never_panics`: the dense verifier answers every proof.
- Theorem {lit}`sparse_verifier_never_panics`: so does the sparse one, for keys that its
  table is made for.
-/

namespace ZkClob

open Foundations

/-! ## The dense tree -/

namespace DenseMerkle

variable {B256 L : Type} [Sha256 B256] [DomainSha256Hash L]

omit [Sha256 B256] in
/-- A missing side node is an error. -/
theorem nextNode_never_panics (h : Nat) (sideNodes : List B256) :
    Outcome.NeverPanics (nextNode h sideNodes) := by
  cases sideNodes with
  | nil => exact Outcome.neverPanics_error _
  | cons node sideNodes => exact Outcome.failsWith_ok _

/-- The walk of the verifier, for indices and leaves that have been checked. -/
theorem treeRootFromProof_never_panics {h : Nat} {indices : List U32} {leaves : List L}
    (hin : InSubtree h 0 indices) (hlength : leaves.length = indices.length)
    (sideNodes : List B256) :
    Outcome.NeverPanics (treeRootFromProof leaves indices 0 (2 ^ h) sideNodes) := by
  rw [treeRootFromProof_eq hin hlength]
  exact CompleteTree.failsWith_rebuild (P := fun _ => True) (fun hpanic => nomatch hpanic)
    (fun k _ p _ => nextNode_never_panics k p) (fun _ _ _ _ _ _ => trivial) trivial

/-- The dense verifier answers every list of leaves and every proof with a root or an error. -/
theorem dense_verifier_never_panics (leaves : List L) (proof : DenseMerkleMultiproof B256) :
    Outcome.NeverPanics (computeRootFromProof leaves proof) := by
  unfold computeRootFromProof
  apply Outcome.neverPanics_rejectIf.bind
  intro _ hchecked
  simp only [Outcome.rejectIf_eq_ok, not_or, not_not, Bool.not_eq_true] at hchecked
  obtain ⟨hlength, -, hadjacent, hlast⟩ := hchecked
  have hin := inSubtree_of_checks hadjacent hlast
  apply (treeRootFromProof_never_panics hin hlength proof.sideNodes).bind
  intro walked _
  apply Outcome.neverPanics_rejectIf.bind
  intro _ _
  exact Outcome.failsWith_ok _

end DenseMerkle

/-! ## The sparse tree -/

namespace SparseMerkle

open BitKey SparseMerkleLeaf EmptyHashes

variable {B256 K L : Type} [Sha256 B256] [EmptyHashes B256] [SparseMerkleKey K]
  [SparseMerkleLeaf L K] {h depth : Nat}

section

variable {reader : ProofReader B256}

/-- A reader that has not passed the end of its bitmap. -/
def ProofReader.WithinBitmap (reader : ProofReader B256) : Prop :=
  reader.bitIndex ≤ reader.bitmap.length * 8

omit [Sha256 B256] [EmptyHashes B256] [SparseMerkleKey K] in
/-- A proof is read from its first bit on. -/
theorem withinBitmap_reader (proof : SparseMerkleMultiproof B256 K) :
    proof.reader.WithinBitmap :=
  Nat.zero_le _

omit [Sha256 B256] [EmptyHashes B256] in
/-- A missing bit or side node is an error. -/
theorem missingSubtree_never_panics (reader : ProofReader B256) (empty : B256) :
    Outcome.NeverPanics (reader.missingSubtree empty) := by
  unfold ProofReader.missingSubtree
  apply Outcome.neverPanics_rejectIf.bind
  intro _ _
  by_cases hbit : BitPacking.readBit reader.bitmap reader.bitIndex = true
  · rw [if_pos hbit]
    cases reader.sideNodes with
    | nil => exact Outcome.neverPanics_error _
    | cons node sideNodes => exact Outcome.failsWith_ok _
  · rw [if_neg hbit]
    exact Outcome.failsWith_ok _

omit [Sha256 B256] [EmptyHashes B256] in
/-- A bit that is read lies in the bitmap. -/
theorem missingSubtree_withinBitmap {reader' : ProofReader B256} {empty root : B256}
    (hread : reader.missingSubtree empty = .ok (root, reader')) : reader'.WithinBitmap := by
  simp only [ProofReader.missingSubtree, Outcome.bind_eq_ok, Outcome.rejectIf_eq_ok, ge_iff_le,
    not_le] at hread
  obtain ⟨_, hbits, hread⟩ := hread
  split at hread
  · cases hnodes : reader.sideNodes with
    | nil =>
        rw [hnodes] at hread
        cases hread
    | cons node sideNodes =>
        rw [hnodes] at hread
        cases hread
        exact hbits
  · cases hread
    exact hbits

omit [Sha256 B256] in
/-- The roots of empty subtrees are in the table. -/
theorem emptyHash_never_panics (hbits : BITS K ≤ 160) (hd : depth ≤ BITS K) :
    Outcome.NeverPanics (emptyHash K depth : Outcome SparseMerkleError B256) := by
  have hheight : BITS K - depth < 161 := by omega
  rw [emptyHash, if_pos hd, Outcome.expect_some, Outcome.ok_bind,
    Vector.getElem?_eq_getElem hheight]
  exact Outcome.failsWith_ok _

omit [Sha256 B256] in
theorem next_never_panics (hbits : BITS K ≤ 160) (reader : ProofReader B256) :
    Outcome.NeverPanics (ProofReader.next K h reader) := by
  apply (emptyHash_never_panics hbits (Nat.sub_le _ _)).bind
  intro empty _
  exact missingSubtree_never_panics reader empty

omit [Sha256 B256] in
theorem next_withinBitmap {reader' : ProofReader B256} {root : B256}
    (hread : ProofReader.next K h reader = .ok (root, reader')) : reader'.WithinBitmap := by
  rw [ProofReader.next, Outcome.bind_eq_ok] at hread
  obtain ⟨empty, -, hread⟩ := hread
  exact missingSubtree_withinBitmap hread

omit [Sha256 B256] [EmptyHashes B256] in
/-- At the end of a proof the last byte that was begun is looked at. -/
theorem finish_never_panics (hwithin : reader.WithinBitmap) :
    Outcome.NeverPanics reader.finish := by
  unfold ProofReader.finish
  by_cases hfull : reader.bitIndex % 8 = 0
  · simp only [if_pos hfull, Outcome.ok_bind]
    exact Outcome.neverPanics_rejectIf
  · have hlast : (reader.bitIndex + 7) / 8 - 1 < reader.bitmap.length := by
      unfold ProofReader.WithinBitmap at hwithin
      omega
    simp only [if_neg hfull, List.getElem?_eq_getElem hlast, Outcome.expect_some, Outcome.ok_bind]
    exact Outcome.neverPanics_rejectIf

end

section

variable {keys : List K} {values : List L}

omit [Sha256 B256] [EmptyHashes B256] in
/-- Keys that pass the checks are sorted. -/
theorem sorted_of_validateKeys {proof : SparseMerkleMultiproof B256 K}
    (hvalid : proof.validateKeys = .ok ()) : SortedBy id proof.leafKeys := by
  rw [SparseMerkleMultiproof.validateKeys, Outcome.rejectIf_eq_ok, not_or, Bool.not_eq_true,
    Bool.not_eq_true] at hvalid
  exact SortedBy.of_anyAdjacent_ge hvalid.2

omit [Sha256 B256] [EmptyHashes B256] in
/-- The merge of sorted keys with sorted leaves finds every leaf, or a leaf too many. -/
theorem selectLeaves_never_panics (hkeys : SortedBy id keys) (hvalues : SortedBy key values) :
    Outcome.NeverPanics (selectLeaves true keys (values.map ProofLeaf.present)) := by
  rw [selectLeaves_eq hkeys hvalues]
  by_cases hextra : true = true ∧ ∃ v ∈ values, key v ∉ keys
  · rw [if_pos hextra]
    exact Outcome.neverPanics_error _
  · rw [if_neg hextra]
    exact Outcome.failsWith_ok _

/-- The sparse verifier answers every list of leaves and every proof with a root or an error. -/
theorem sparse_verifier_never_panics (hbits : BITS K ≤ 160) (values : List L)
    (proof : SparseMerkleMultiproof B256 K) :
    Outcome.NeverPanics (computeRootFromProof values proof) := by
  have hchecked : Outcome.NeverPanics proof.validateKeys := Outcome.neverPanics_rejectIf
  unfold computeRootFromProof
  apply hchecked.bind
  intro _ hvalid
  have hkeys := sorted_of_validateKeys hvalid
  apply Outcome.FailsWith.bind
  · apply Outcome.neverPanics_rejectIf.bind
    intro _ _
    exact Outcome.failsWith_ok _
  · intro supplied hsupplied
    obtain ⟨hvalues, rfl⟩ := orderedLeaves_eq_ok.mp hsupplied
    apply (selectLeaves_never_panics hkeys hvalues).bind
    intro leaves hselect
    rw [selectLeaves_eq hkeys hvalues] at hselect
    split at hselect
    · cases hselect
    · cases hselect
      rw [rootFromProof_eq (InSubtree.whole (sorted_lookup hkeys))]
      apply Outcome.FailsWith.bind
      · exact CompleteTree.failsWith_rebuild (fun hpanic => nomatch hpanic)
          (fun k _ p _ => next_never_panics hbits p)
          (fun _ _ _ _ _ hread => next_withinBitmap hread) (withinBitmap_reader proof)
      · intro walked hwalk
        have hwithin := CompleteTree.rebuild_invariant
          (fun _ _ _ _ _ hread => next_withinBitmap hread) (withinBitmap_reader proof) hwalk
        apply (finish_never_panics hwithin).bind
        intro _ _
        exact Outcome.failsWith_ok _

theorem sparse_verifier_never_panics_test :
    Outcome.NeverPanics (computeRootFromProof testLeaves
      (⟨testKeys, [255], []⟩ : SparseMerkleMultiproof IdealDigest (FixedBytes 1))) :=
  sparse_verifier_never_panics (by decide) _ _

end

end SparseMerkle

end ZkClob
