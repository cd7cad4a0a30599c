import ZkClob.Trees.SparseMerkleTree

/-!
# The parts of a sparse Merkle multiproof

A built proof holds the roots of the missing subtrees: a bit for each of them,
packed into bytes, and a hash for those that are not empty.  The reader gets back
the roots in the order in which they were written, whatever leaves it has.  The
selected keys are merged with the leaves in one pass over both.

Main results:

- Theorem {lit}`Holds.pushAll`: what the builder has written.
- Theorem {lit}`supplies_reader`: a written proof is read back root by root.
- Theorem {lit}`selectLeaves_eq`: the merge finds the leaf of every key, and rejects
  leaves whose key is not selected.
-/

namespace ZkClob

open Foundations

namespace SparseMerkle

open BitKey SparseMerkleLeaf EmptyHashes

/-- A proof that was read to its end is accepted. -/
theorem finish_eq_ok {B256 : Type} {bitmap : List UInt8} {bits : List Bool}
    (hpacks : BitPacking.Packs bitmap bits) :
    (⟨bitmap, bits.length, []⟩ : ProofReader B256).finish = .ok () := by
  have hlength := hpacks.length
  by_cases hfull : bits.length % 8 = 0
  · simp [ProofReader.finish, hfull, hlength]
  · have hlast : (bits.length + 7) / 8 - 1 = bits.length / 8 := by omega
    have hin : bits.length / 8 < bitmap.length := by omega
    have hzero := hpacks.padding hfull
    rw [List.getD_eq_getElem?_getD, List.getElem?_eq_getElem hin, Option.getD_some] at hzero
    simp [ProofReader.finish, hfull, hlast, List.getElem?_eq_getElem hin, hzero, hlength]

variable {B256 K L : Type} [Sha256 B256] [EmptyHashes B256] [SparseMerkleKey K]
  [SparseMerkleLeaf L K]

/-! ## The stream of missing subtrees -/

section

variable [DecidableEq B256] {roots done : List (Nat × B256)} {proof : ProofBuilder B256}
  {bitmap : List UInt8}

/-- One bit for every missing subtree. -/
def nonEmptyBits (roots : List (Nat × B256)) : List Bool :=
  roots.map fun x => x.2 != emptyRoot x.1

/-- The roots of those that are not empty. -/
def nonEmptyRoots (roots : List (Nat × B256)) : List B256 :=
  (roots.filter fun x => x.2 != emptyRoot x.1).map Prod.snd

/-- What a proof under construction holds. -/
structure Holds (proof : ProofBuilder B256) (roots : List (Nat × B256)) : Prop where
  packs : BitPacking.Packs proof.bitmap (nonEmptyBits roots)
  bitCount : proof.bitCount = (nonEmptyBits roots).length
  sideNodes : proof.sideNodes = nonEmptyRoots roots

theorem holds_new : Holds (ProofBuilder.new : ProofBuilder B256) [] where
  packs := BitPacking.Packs.nil
  bitCount := rfl
  sideNodes := rfl

/-- One more root is appended to what was written. -/
theorem Holds.push (h : Holds proof roots) (x : Nat × B256) :
    Holds (proof.pushSide x) (roots ++ [x]) where
  packs := by
    have hpacks := h.packs.push (x.2 != emptyRoot x.1)
    rw [← h.bitCount] at hpacks
    simpa [ProofBuilder.pushSide, nonEmptyBits] using hpacks
  bitCount := by simp [ProofBuilder.pushSide, nonEmptyBits, h.bitCount]
  sideNodes := by
    by_cases hempty : x.2 = emptyRoot x.1
    · simp [ProofBuilder.pushSide, nonEmptyRoots, h.sideNodes, hempty]
    · simp [ProofBuilder.pushSide, nonEmptyRoots, h.sideNodes, hempty]

theorem Holds.pushAll (h : Holds proof done) :
    Holds (roots.foldl ProofBuilder.pushSide proof) (done ++ roots) := by
  induction roots generalizing proof done with
  | nil => simpa using h
  | cons x roots ih =>
      rw [List.foldl_cons, show done ++ x :: roots = done ++ [x] ++ roots by simp]
      exact ih (h.push x)

/-- A written proof is read back root by root. -/
theorem supplies_reader (hbits : BITS K ≤ 160) (htable : EmptyHashes.Recurrent B256)
    (hheights : ∀ x ∈ roots, x.1 ≤ BITS K)
    (hpacks : BitPacking.Packs bitmap (nonEmptyBits (done ++ roots))) :
    CompleteTree.Supplies (ProofReader.next K) roots
      ⟨bitmap, done.length, nonEmptyRoots roots⟩ ⟨bitmap, (done ++ roots).length, []⟩ := by
  induction roots generalizing done with
  | nil => simp [CompleteTree.Supplies, nonEmptyRoots]
  | cons x roots ih =>
      obtain ⟨hx, hrest⟩ := List.forall_mem_cons.mp hheights
      have hread : BitPacking.readBit bitmap done.length = (x.2 != emptyRoot x.1) := by
        have hsplit : nonEmptyBits (done ++ x :: roots) =
            nonEmptyBits done ++ (x.2 != emptyRoot x.1) :: nonEmptyBits roots := by
          simp [nonEmptyBits]
        rw [hsplit] at hpacks
        simpa [nonEmptyBits] using hpacks.readBit_append
      have hroom : done.length < bitmap.length * 8 := by
        have := hpacks.length
        simp only [nonEmptyBits, List.length_map, List.length_append, List.length_cons] at this
        omega
      have hempty : emptyHash K (BITS K - x.1) = .ok (emptyRoot x.1 : B256) :=
        emptyHash_eq htable (by omega) (by omega)
      have hlater : CompleteTree.Supplies (ProofReader.next K) roots
          ⟨bitmap, (done ++ [x]).length, nonEmptyRoots roots⟩
          ⟨bitmap, (done ++ [x] ++ roots).length, []⟩ := ih hrest (by simpa using hpacks)
      refine ⟨⟨bitmap, done.length + 1, nonEmptyRoots roots⟩, ?_, by simpa using hlater⟩
      rw [ProofReader.next, hempty, Outcome.ok_bind, ProofReader.missingSubtree,
        Outcome.rejectIf, if_neg (by simpa using hroom), Outcome.ok_bind, hread]
      by_cases heq : x.2 = emptyRoot x.1
      · simp [heq, nonEmptyRoots]
      · simp [heq, nonEmptyRoots]

end

/-! ## The selected leaves -/

/-- The leaf that is stored at a key, if any. -/
def lookup (values : List L) (k : K) : ProofLeaf K L :=
  ⟨k, values.find? fun v => key v = k⟩

section

variable {reject : Bool} {values : List L} {keys : List K} {rest : List (ProofLeaf K L)} {k : K}
  {v : L}

theorem lookup_cons_of_ne (h : key v ≠ k) : lookup (v :: values) k = lookup values k := by
  rw [lookup, lookup, List.find?_cons_of_neg (by simpa using h)]

theorem lookup_cons_self : lookup (v :: values) (key v) = ProofLeaf.present v := by
  simp [lookup, ProofLeaf.present]

theorem lookup_of_forall_ne (h : ∀ u ∈ values, key u ≠ k) :
    lookup values k = ProofLeaf.absent k := by
  rw [lookup, List.find?_eq_none.mpr fun u hu => by simpa using h u hu]
  rfl

/-- A leaf below the next key is rejected or passed. -/
theorem selectLeaves_below (h : key v < k) :
    selectLeaves reject (k :: keys) (ProofLeaf.present v :: rest) =
      if reject then .error (.error .InvalidMultiproof)
      else selectLeaves reject (k :: keys) rest := by
  have hkey : (ProofLeaf.present v : ProofLeaf K L).key < k := h
  rw [selectLeaves, skipUnselected, if_pos hkey]
  cases reject
  · rw [selectLeaves]
    rfl
  · rfl

/-- A leaf at the next key is taken. -/
theorem selectLeaves_at :
    selectLeaves reject (key v :: keys) (ProofLeaf.present v :: rest) =
      selectLeaves reject keys rest >>= fun selected => .ok (ProofLeaf.present v :: selected) := by
  have hkey : (ProofLeaf.present v : ProofLeaf K L).key = key v := rfl
  rw [selectLeaves, skipUnselected, hkey, if_neg (lt_irrefl _), Outcome.ok_bind]
  simp [ProofLeaf.present]

/-- In front of a later leaf the next key is absent. -/
theorem selectLeaves_above (h : k < key v) :
    selectLeaves reject (k :: keys) (ProofLeaf.present v :: rest) =
      selectLeaves reject keys (ProofLeaf.present v :: rest) >>= fun selected =>
        .ok (ProofLeaf.absent k :: selected) := by
  have hkey : (ProofLeaf.present v : ProofLeaf K L).key = key v := rfl
  rw [selectLeaves, skipUnselected, hkey, if_neg h.not_gt, Outcome.ok_bind]
  simp [hkey, h.ne']

/-- The merge of sorted keys with sorted leaves. -/
theorem selectLeaves_eq (hkeys : SortedBy id keys) (hvalues : SortedBy key values) :
    selectLeaves reject keys (values.map ProofLeaf.present) =
      if reject = true ∧ ∃ v ∈ values, key v ∉ keys then .error (.error .InvalidMultiproof)
      else .ok (keys.map (lookup values)) := by
  induction keys generalizing values with
  | nil =>
      rw [selectLeaves, Outcome.rejectIf]
      cases values with
      | nil => simp
      | cons v values => cases reject <;> simp [bind, Except.bind]
  | cons k keys ih =>
      obtain ⟨hk, hlater⟩ := List.pairwise_cons.mp hkeys
      have hk : ∀ k' ∈ keys, k < k' := hk
      induction values with
      | nil =>
          have hrest : selectLeaves reject keys [] = .ok (keys.map (lookup ([] : List L))) := by
            simpa using ih hlater SortedBy.nil
          rw [List.map_nil, selectLeaves, skipUnselected, Outcome.ok_bind, hrest]
          simp [lookup, ProofLeaf.absent]
      | cons v values ihv =>
          obtain ⟨hv, hvs⟩ := List.pairwise_cons.mp hvalues
          rcases lt_trichotomy (key v) k with hlt | heq | hgt
          · -- no key is that of the leaf
            have hne : ∀ k' ∈ k :: keys, key v ≠ k' := by
              intro k' hk'
              rcases List.mem_cons.mp hk' with rfl | hk'
              · exact hlt.ne
              · exact (hlt.trans (hk k' hk')).ne
            rw [List.map_cons, selectLeaves_below hlt]
            cases reject with
            | true =>
                rw [if_pos rfl, if_pos ⟨rfl, v, by simp, fun hmem => hne _ hmem rfl⟩]
            | false =>
                rw [if_neg (by simp), ihv hvs, if_neg (by simp), if_neg (by simp),
                  List.map_congr_left fun k' hk' => lookup_cons_of_ne (hne k' hk')]
          · subst heq
            have hiff : (∃ u ∈ v :: values, key u ∉ key v :: keys) ↔
                ∃ u ∈ values, key u ∉ keys := by
              rw [List.exists_mem_cons_iff]
              simp only [List.mem_cons, true_or, not_true, false_or, not_or]
              refine exists_congr fun u => and_congr_right fun hu => ?_
              exact and_iff_right (hv u hu).ne'
            rw [List.map_cons, selectLeaves_at, ih hlater hvs, List.map_cons, lookup_cons_self,
              List.map_congr_left fun k' hk' => lookup_cons_of_ne (hk k' hk').ne]
            simp only [hiff]
            split
            · rfl
            · rfl
          · have hne : ∀ u ∈ v :: values, key u ≠ k := by
              intro u hu
              rcases List.mem_cons.mp hu with rfl | hu
              · exact hgt.ne'
              · exact (hgt.trans (hv u hu)).ne'
            have hiff : (∃ u ∈ v :: values, key u ∉ k :: keys) ↔
                ∃ u ∈ v :: values, key u ∉ keys := by
              refine exists_congr fun u => and_congr_right fun hu => ?_
              rw [List.mem_cons, not_or]
              exact and_iff_right (hne u hu)
            have hrest := ih hlater hvalues
            rw [List.map_cons] at hrest
            rw [List.map_cons, selectLeaves_above hgt, hrest, List.map_cons,
              lookup_of_forall_ne hne]
            simp only [hiff]
            split
            · rfl
            · rfl

end

end SparseMerkle

end ZkClob
