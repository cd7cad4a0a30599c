import ZkClob.Foundations.CompleteTree
import ZkClob.Trees.SparseMerkle

/-!
# The sparse Merkle tree as a complete tree

The leaves of the complete tree are numbered by the keys, read as binary numbers.
Where no leaf is stored the tree has the empty leaf, and the table holds the roots
of the trees that have nothing else.  The code splits its sorted leaves where the
next bit changes, which is where the left half of a subtree ends.

Main results:

- Theorem {lit}`split_spec`: a split separates the halves of a subtree.
- Theorem {lit}`subtreeRoot_eq`: a computed root is that of the complete tree.
- Theorem {lit}`rootFromProof_eq`: the reader walks over the complete tree.
- Theorem {lit}`buildProof_eq`: the builder writes the roots of the maximal subtrees
  without selected keys.
-/

namespace ZkClob

open Foundations

namespace SparseMerkle

open BitKey SparseMerkleLeaf EmptyHashes

/-! ## Subtrees -/

section

variable {K L : Type} [SparseMerkleKey K] {h s depth : Nat} {leaves : List (ProofLeaf K L)}

/-- Sorted leaves of the subtree at a depth that begins with leaf `s` and has height `h`. -/
structure InSubtree (h s depth : Nat) (leaves : List (ProofLeaf K L)) : Prop where
  sorted : SortedBy ProofLeaf.key leaves
  range : ∀ leaf ∈ leaves, s ≤ index leaf.key ∧ index leaf.key < s + 2 ^ h
  aligned : 2 ^ h ∣ s
  depth_eq : depth + h = BITS K

namespace InSubtree

/-- All leaves of a tree. -/
theorem whole (hsorted : SortedBy ProofLeaf.key leaves) : InSubtree (BITS K) 0 0 leaves where
  sorted := hsorted
  range leaf _ := ⟨Nat.zero_le _, by simpa using index_lt leaf.key⟩
  aligned := Nat.dvd_zero _
  depth_eq := Nat.zero_add _

/-- The next bit of a leaf tells in which half it is. -/
theorem bit_eq (hin : InSubtree (h + 1) s depth leaves) :
    ∀ leaf ∈ leaves, bit leaf.key depth = decide (s + 2 ^ h ≤ index leaf.key) := by
  intro leaf hleaf
  have hrange := hin.range leaf hleaf
  exact bit_eq_decide hin.depth_eq hin.aligned hrange.1 hrange.2

/-- A split separates the leaves of the two halves of a subtree. -/
theorem split_eq (hin : InSubtree (h + 1) s depth leaves) :
    leaves.take (split leaves depth) = leaves.filter (fun leaf => index leaf.key < s + 2 ^ h) ∧
      leaves.drop (split leaves depth) =
        leaves.filter (fun leaf => s + 2 ^ h ≤ index leaf.key) := by
  have hnumbers : SortedBy (fun leaf : ProofLeaf K L => index leaf.key) leaves :=
    hin.sorted.imp fun hab => index_lt_index.mpr hab
  refine hnumbers.take_drop_partitionPoint fun leaf hleaf => ?_
  rw [hin.bit_eq leaf hleaf, ← decide_not]
  exact decide_eq_decide.mpr not_le

/-- The left half of a subtree. -/
theorem left (hin : InSubtree (h + 1) s depth leaves) :
    InSubtree h s (depth + 1) (leaves.take (split leaves depth)) where
  sorted := hin.sorted.sublist (List.take_sublist _ _)
  range leaf hleaf := by
    rw [hin.split_eq.1, List.mem_filter] at hleaf
    exact ⟨(hin.range leaf hleaf.1).1, of_decide_eq_true hleaf.2⟩
  aligned := (Nat.pow_dvd_pow 2 (Nat.le_succ h)).trans hin.aligned
  depth_eq := by
    have := hin.depth_eq
    omega

/-- Its right half. -/
theorem right (hin : InSubtree (h + 1) s depth leaves) :
    InSubtree h (s + 2 ^ h) (depth + 1) (leaves.drop (split leaves depth)) where
  sorted := hin.sorted.sublist (List.drop_sublist _ _)
  range leaf hleaf := by
    rw [hin.split_eq.2, List.mem_filter] at hleaf
    have hlt := (hin.range leaf hleaf.1).2
    have hpow : 2 ^ (h + 1) = 2 ^ h + 2 ^ h := by ring
    exact ⟨of_decide_eq_true hleaf.2, by omega⟩
  aligned :=
    Nat.dvd_add ((Nat.pow_dvd_pow 2 (Nat.le_succ h)).trans hin.aligned) (Nat.dvd_refl _)
  depth_eq := by
    have := hin.depth_eq
    omega

end InSubtree

end

/-! ## Empty subtrees -/

section

variable (B256 : Type) [EmptyHashes B256]

/-- The hash in place of a leaf that is not stored. -/
def emptyLeaf : B256 :=
  (EMPTY_HASHES_BY_HEIGHT : Vector B256 161)[0]

theorem emptyHash_bits (K : Type) [SparseMerkleKey K] :
    emptyHash K (BITS K) = .ok (emptyLeaf B256) := by
  simp [emptyHash, emptyLeaf]

variable [Sha256 B256]

/-- Every entry of the table joins the one before it with itself. -/
def EmptyHashes.Recurrent : Prop :=
  ∀ h (hh : h + 1 < 161), (EMPTY_HASHES_BY_HEIGHT : Vector B256 161)[h + 1] =
    hash (Node.mk (EMPTY_HASHES_BY_HEIGHT : Vector B256 161)[h]
      (EMPTY_HASHES_BY_HEIGHT : Vector B256 161)[h])

end

variable {B256 K L : Type} [Sha256 B256] [EmptyHashes B256] [SparseMerkleKey K]
  [SparseMerkleLeaf L K] {h s depth : Nat}
  {leaves : List (ProofLeaf K L)}

/-- The hash of a node with the given children. -/
def join (left right : B256) : B256 :=
  hash (Node.mk left right)

/-- The root of an empty subtree. -/
def emptyRoot (h : Nat) : B256 :=
  CompleteTree.uniform join (emptyLeaf B256) h

/-- The table holds the roots of the empty subtrees. -/
theorem emptyHashes_eq (htable : EmptyHashes.Recurrent B256) (hh : h < 161) :
    (EMPTY_HASHES_BY_HEIGHT : Vector B256 161)[h] = emptyRoot h := by
  induction h with
  | zero => rfl
  | succ h ih =>
      rw [htable h hh, ih (by omega)]
      rfl

/-- An empty root that is looked up within the table. -/
theorem emptyHash_eq (htable : EmptyHashes.Recurrent B256) (hd : depth + h = BITS K)
    (hh : h ≤ 160) : emptyHash K depth = .ok (emptyRoot h : B256) := by
  have hheight : BITS K - depth = h := by omega
  rw [emptyHash, if_pos (by omega), Outcome.expect_some, Outcome.ok_bind, hheight,
    Vector.getElem?_eq_getElem (by omega), Outcome.expect_some, emptyHashes_eq htable]

/-- An empty root that is found is right. -/
theorem eq_of_emptyHash (htable : EmptyHashes.Recurrent B256) (hd : depth + h = BITS K)
    {e : B256} (he : emptyHash K depth = .ok e) : e = emptyRoot h := by
  by_cases hh : h ≤ 160
  · rw [emptyHash_eq htable hd hh] at he
    exact (Except.ok.inj he).symm
  · have hheight : BITS K - depth = h := by omega
    rw [emptyHash, if_pos (by omega), Outcome.expect_some, Outcome.ok_bind, hheight,
      Vector.getElem?_eq_none (by omega)] at he
    cases he

/-! ## Leaves by number -/

/-- A leaf of the complete tree: the number of its key and the hash stored there. -/
def ProofLeaf.entry (leaf : ProofLeaf K L) : Nat × B256 :=
  (index leaf.key, leaf.hash (emptyLeaf B256))

/-- The leaves of the complete tree. -/
def slot (leaves : List (ProofLeaf K L)) : Nat → B256 :=
  CompleteTree.override (fun _ => emptyLeaf B256) (leaves.map ProofLeaf.entry)

namespace InSubtree

theorem within (hin : InSubtree h s depth leaves) :
    CompleteTree.Within h s (leaves.map ProofLeaf.entry : List (Nat × B256)) := by
  intro x hx
  obtain ⟨leaf, hleaf, rfl⟩ := List.mem_map.mp hx
  exact hin.range leaf hleaf

theorem nodup (hin : InSubtree h s depth leaves) :
    ((leaves.map ProofLeaf.entry : List (Nat × B256)).map Prod.fst).Nodup := by
  rw [List.map_map, List.Nodup, List.pairwise_map]
  exact hin.sorted.imp fun hab => (index_lt_index.mpr hab).ne

/-- The entries of the two halves. -/
theorem entries_split (hin : InSubtree (h + 1) s depth leaves) :
    ((leaves.take (split leaves depth)).map ProofLeaf.entry : List (Nat × B256)) =
        (leaves.map ProofLeaf.entry).filter (fun x => x.1 < s + 2 ^ h) ∧
      ((leaves.drop (split leaves depth)).map ProofLeaf.entry : List (Nat × B256)) =
        (leaves.map ProofLeaf.entry).filter (fun x => s + 2 ^ h ≤ x.1) := by
  rw [hin.split_eq.1, hin.split_eq.2, List.filter_map, List.filter_map]
  exact ⟨rfl, rfl⟩

end InSubtree

/-- The leaves of the left half of a subtree are those of the subtree. -/
theorem slot_left (hin : InSubtree (h + 1) s depth leaves) {i : Nat} (hi : i < s + 2 ^ h) :
    slot (leaves.take (split leaves depth)) i = (slot leaves i : B256) := by
  rw [slot, slot, hin.entries_split.1]
  exact CompleteTree.override_filter (p := fun i => i < s + 2 ^ h) (decide_eq_true hi)

/-- Those of its right half are, too. -/
theorem slot_right (hin : InSubtree (h + 1) s depth leaves) {i : Nat} (hi : s + 2 ^ h ≤ i) :
    slot (leaves.drop (split leaves depth)) i = (slot leaves i : B256) := by
  rw [slot, slot, hin.entries_split.2]
  exact CompleteTree.override_filter (p := fun i => s + 2 ^ h ≤ i) (decide_eq_true hi)

/-! ## Computed roots -/

/-- A computed root is that of the complete tree. -/
theorem subtreeRoot_eq (htable : EmptyHashes.Recurrent B256)
    (hin : InSubtree h s depth leaves) {root : B256} (hroot : subtreeRoot leaves depth = .ok root) :
    root = CompleteTree.root join (slot leaves) h s := by
  induction h generalizing s depth leaves root with
  | zero =>
      have hd : depth = BITS K := hin.depth_eq
      cases leaves with
      | nil =>
          rw [subtreeRoot] at hroot
          exact eq_of_emptyHash htable hin.depth_eq hroot
      | cons first rest =>
          have hnumber : index first.key = s := by
            have := hin.range first (by simp)
            omega
          rw [subtreeRoot, if_pos hd, hd, emptyHash_bits, Outcome.ok_bind] at hroot
          cases hroot
          simp [CompleteTree.root, slot, CompleteTree.override, ProofLeaf.entry, hnumber]
  | succ h ih =>
      cases leaves with
      | nil =>
          rw [subtreeRoot] at hroot
          rw [eq_of_emptyHash htable hin.depth_eq hroot]
          exact (CompleteTree.root_uniform fun _ _ _ => rfl).symm
      | cons first rest =>
          have hd := hin.depth_eq
          rw [subtreeRoot, if_neg (by omega), if_pos (by omega)] at hroot
          simp only [Outcome.bind_eq_ok, Except.ok.injEq] at hroot
          obtain ⟨left, hleft, right, hright, rfl⟩ := hroot
          rw [CompleteTree.root, ih hin.left hleft, ih hin.right hright,
            CompleteTree.root_congr fun i _ hi => slot_left hin hi,
            CompleteTree.root_congr fun i hi _ => slot_right hin hi]
          rfl

/-- With keys that the table is made for, every root is computed. -/
theorem exists_subtreeRoot (hbits : BITS K ≤ 160) (htable : EmptyHashes.Recurrent B256)
    (hd : depth + h = BITS K) : ∃ root : B256, subtreeRoot leaves depth = .ok root := by
  induction h generalizing depth leaves with
  | zero =>
      cases leaves with
      | nil =>
          rw [subtreeRoot]
          exact ⟨_, emptyHash_eq htable hd (by omega)⟩
      | cons first rest =>
          have hd' : depth = BITS K := hd
          rw [subtreeRoot, if_pos hd', emptyHash_eq htable hd (by omega)]
          exact ⟨_, rfl⟩
  | succ h ih =>
      cases leaves with
      | nil =>
          rw [subtreeRoot]
          exact ⟨_, emptyHash_eq htable hd (by omega)⟩
      | cons first rest =>
          have hd' : depth + 1 + h = BITS K := by omega
          have hleft : ∃ left : B256, subtreeRoot
              ((first :: rest).take (split (first :: rest) depth)) (depth + 1) = .ok left := ih hd'
          have hright : ∃ right : B256, subtreeRoot
              ((first :: rest).drop (split (first :: rest) depth)) (depth + 1) = .ok right := ih hd'
          obtain ⟨left, hleft⟩ := hleft
          obtain ⟨right, hright⟩ := hright
          rw [subtreeRoot, if_neg (by omega), if_pos (by omega)]
          simp only [Outcome.bind_eq_ok]
          exact ⟨_, left, hleft, right, hright, rfl⟩

/-- Then the root of every subtree is that of the complete tree. -/
theorem subtreeRoot_eq_ok (hbits : BITS K ≤ 160) (htable : EmptyHashes.Recurrent B256)
    (hin : InSubtree h s depth leaves) :
    subtreeRoot leaves depth = .ok (CompleteTree.root join (slot leaves) h s : B256) := by
  obtain ⟨root, hroot⟩ : ∃ root : B256, subtreeRoot leaves depth = .ok root :=
    exists_subtreeRoot hbits htable hin.depth_eq
  rw [hroot, subtreeRoot_eq htable hin hroot]

/-! ## The reader -/

/-- The reader looks up the empty root of the height that is missing. -/
def ProofReader.next (K : Type) [SparseMerkleKey K] (h : Nat) (proof : ProofReader B256) :
    Outcome SparseMerkleError (B256 × ProofReader B256) := do
  let emptyRoot ← emptyHash K (BITS K - h)
  proof.missingSubtree emptyRoot

/-- The reader walks over the complete tree. -/
theorem rootFromProof_eq (hin : InSubtree h s depth leaves) (proof : ProofReader B256) :
    rootFromProof leaves depth proof =
      CompleteTree.rebuild join (ProofReader.next K) .InvalidMultiproof h s
        (leaves.map ProofLeaf.entry) proof := by
  induction h generalizing s depth leaves proof with
  | zero =>
      have hd : depth = BITS K := hin.depth_eq
      cases leaves with
      | nil =>
          rw [rootFromProof, hd]
          rfl
      | cons first rest =>
          have hnumber : index first.key = s := by
            have := hin.range first (by simp)
            omega
          rw [rootFromProof, if_pos hd, hd, emptyHash_bits, Outcome.ok_bind, List.map_cons,
            CompleteTree.rebuild]
          cases rest with
          | nil => simp [Outcome.rejectIf, ProofLeaf.entry, hnumber]
          | cons second rest =>
              rw [Outcome.rejectIf, if_pos (by simp), if_neg (by simp)]
              rfl
  | succ h ih =>
      have hd := hin.depth_eq
      cases leaves with
      | nil =>
          rw [rootFromProof, show depth = BITS K - (h + 1) by omega]
          rfl
      | cons first rest =>
          rw [rootFromProof, if_neg (by omega), if_pos (by omega), List.map_cons,
            CompleteTree.rebuild, ← List.map_cons, ← hin.entries_split.1,
            ← hin.entries_split.2]
          simp only [ih hin.left, ih hin.right]
          rfl

/-! ## The builder -/

variable [DecidableEq B256]

/-- The builder writes the root of a missing subtree of some height. -/
def ProofBuilder.pushSide (proof : ProofBuilder B256) (x : Nat × B256) : ProofBuilder B256 :=
  proof.pushSubtree x.2 (emptyRoot x.1)

variable {all selected : List (ProofLeaf K L)}

/-- A subtree without selected keys is written as a whole. -/
theorem buildProof_nil (hbits : BITS K ≤ 160) (htable : EmptyHashes.Recurrent B256)
    (hall : InSubtree h s depth all) (proof : ProofBuilder B256) :
    buildProof all [] depth proof =
      .ok (proof.pushSide (h, CompleteTree.root join (slot all) h s)) := by
  have hd := hall.depth_eq
  rw [buildProof, subtreeRoot_eq_ok hbits htable hall, Outcome.ok_bind,
    emptyHash_eq htable hd (by omega)]
  rfl

/-- The builder writes the roots of the maximal subtrees without selected keys. -/
theorem buildProof_eq (hbits : BITS K ≤ 160) (htable : EmptyHashes.Recurrent B256)
    (hall : InSubtree h s depth all) (hselected : InSubtree h s depth selected)
    (proof : ProofBuilder B256) :
    buildProof all selected depth proof =
      .ok ((CompleteTree.sides join (slot all) h s (selected.map fun leaf => index leaf.key)).foldl
        ProofBuilder.pushSide proof) := by
  induction h generalizing s depth all selected proof with
  | zero =>
      cases selected with
      | nil => exact buildProof_nil hbits htable hall proof
      | cons first rest =>
          have hd : depth = BITS K := hall.depth_eq
          rw [buildProof, if_pos hd]
          rfl
  | succ h ih =>
      cases selected with
      | nil => exact buildProof_nil hbits htable hall proof
      | cons first rest =>
          have hd := hall.depth_eq
          have hnumbers : index first.key :: rest.map (fun leaf => index leaf.key) =
              (first :: rest).map fun leaf => index leaf.key := rfl
          rw [buildProof, if_neg (by omega), if_pos (by omega), List.map_cons, CompleteTree.sides,
            hnumbers, List.filter_map, List.filter_map, List.foldl_append]
          simp only [ih hall.left hselected.left, ih hall.right hselected.right, Outcome.ok_bind]
          rw [hselected.split_eq.1, hselected.split_eq.2,
            CompleteTree.sides_congr fun i _ hi => slot_left hall hi,
            CompleteTree.sides_congr fun i hi _ => slot_right hall hi]
          rfl

end SparseMerkle

end ZkClob
