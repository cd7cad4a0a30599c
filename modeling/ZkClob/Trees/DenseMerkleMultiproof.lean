import ZkClob.Core.Account
import ZkClob.Foundations.CompleteTree
import ZkClob.Trees.DenseMerkle

/-!
# Multiproofs of the dense Merkle tree

The builder addresses the nodes of a complete tree by level and position, the
verifier walks down the same tree with slices of the indices.

Main results:

- Theorem {lit}`levelsFrom_range`: the levels hold the roots of all aligned subtrees.
- Theorem {lit}`buildSideNodes_eq`: the builder writes the roots of the maximal subtrees
  without selected indices.
- Theorem {lit}`treeRootFromProof_eq`: the verifier walks over the complete tree.
- Theorem {lit}`dense_multiproof_complete`: every replacement of the selected leaves is
  reconstructed from an honest proof.
-/

namespace ZkClob

open Foundations

namespace DenseMerkle

variable {B256 L : Type} [Sha256 B256] [DomainSha256Hash L]

/-! ## Widths -/

/-- A power of two has as many trailing zeros as its exponent. -/
theorem trailingZeros_two_pow (h : Nat) : trailingZeros (2 ^ h) = h := by
  induction h with
  | zero =>
      rw [trailingZeros]
      simp
  | succ h ih =>
      have hpos : 2 ^ (h + 1) ≠ 0 := (Nat.two_pow_pos (h + 1)).ne'
      have heven : 2 ^ (h + 1) % 2 = 0 := by
        rw [Nat.pow_succ]
        omega
      have hhalf : 2 ^ (h + 1) / 2 = 2 ^ h := by
        rw [Nat.pow_succ]
        omega
      rw [trailingZeros, if_neg hpos, if_pos heven, hhalf, ih]

/-- The height of a tree. -/
def treeHeight (leafCount : Nat) : Nat :=
  Nat.clog 2 (max leafCount 1)

theorem treeWidth_eq (leafCount : Nat) : treeWidth leafCount = 2 ^ treeHeight leafCount := rfl

/-- All leaves have a position. -/
theorem le_two_pow_treeHeight (leafCount : Nat) : leafCount ≤ 2 ^ treeHeight leafCount :=
  (le_max_left leafCount 1).trans (Nat.le_pow_clog Nat.one_lt_two _)

/-! ## Levels -/

/-- The hash of a node with the given children. -/
def join (left right : B256) : B256 :=
  hash (Node.mk left right)

/-- The leaves of the complete tree. -/
def slot (leaves : List L) (i : Nat) : B256 :=
  (leaves.map hash)[i]?.getD (hash EmptyLeaf.mk)

/-- A resized sequence, position by position. -/
theorem resize_eq {α : Type} (l : List α) (n : Nat) (a : α) :
    resize l n a = (List.range n).map fun i => l[i]?.getD a := by
  apply List.ext_getElem?
  intro i
  rw [resize, List.getElem?_append, List.length_take, List.getElem?_take, List.getElem?_replicate,
    List.getElem?_map]
  by_cases hi : i < n
  · rw [List.getElem?_range hi]
    by_cases hl : i < l.length
    · simp [hi, hl]
    · have hbehind : ¬ i < min n l.length := by omega
      have hfill : i - min n l.length < n - l.length := by omega
      rw [if_neg hbehind, if_pos hfill]
      simp [hl]
  · have hbehind : ¬ i < min n l.length := by omega
    have hfull : ¬ i - min n l.length < n - l.length := by omega
    rw [if_neg hbehind, if_neg hfull, List.getElem?_eq_none (by simpa using hi)]
    rfl

theorem map_range_succ {α : Type} (f : Nat → α) (n : Nat) :
    (List.range (n + 1)).map f = f 0 :: (List.range n).map fun i => f (i + 1) := by
  rw [List.range_succ_eq_map, List.map_cons, List.map_map]
  rfl

/-- The level above the values of a function. -/
theorem joinPairs_range (f : Nat → B256) (n : Nat) :
    joinPairs ((List.range (2 * n)).map f) =
      (List.range n).map fun i => join (f (2 * i)) (f (2 * i + 1)) := by
  induction n generalizing f with
  | zero => simp [joinPairs]
  | succ n ih =>
      have htwo : 2 * (n + 1) = 2 * n + 1 + 1 := by omega
      rw [htwo, map_range_succ, map_range_succ, joinPairs, ih fun i => f (i + 1 + 1),
        map_range_succ]
      rfl

/-- The levels above the leaves hold the roots of all aligned subtrees. -/
theorem levelsFrom_range (f : Nat → B256) (h : Nat) :
    levelsFrom ((List.range (2 ^ h)).map f) =
      (List.range (h + 1)).map fun k =>
        (List.range (2 ^ (h - k))).map fun i => CompleteTree.root join f k (i * 2 ^ k) := by
  induction h generalizing f with
  | zero =>
      rw [levelsFrom]
      simp [CompleteTree.root]
  | succ h ih =>
      have hlong : ((List.range (2 ^ (h + 1))).map f).length > 1 := by
        have := Nat.two_pow_pos h
        simp only [List.length_map, List.length_range, Nat.pow_succ]
        omega
      have hdouble : 2 ^ (h + 1) = 2 * 2 ^ h := Nat.pow_succ'
      rw [levelsFrom, if_pos hlong, hdouble, joinPairs_range, ih, map_range_succ _ (h + 1)]
      congr 1
      · simp [CompleteTree.root, hdouble]
      · refine List.map_congr_left fun k _ => ?_
        rw [Nat.add_sub_add_right]
        refine List.map_congr_left fun i _ => ?_
        have hstart : i * 2 ^ (k + 1) = 2 * (i * 2 ^ k) := by ring
        rw [hstart]
        exact CompleteTree.root_pair

/-- The levels of a leaf sequence. -/
theorem buildLevels_eq (leaves : List L) :
    (buildLevels leaves : List (List B256)) =
      (List.range (treeHeight leaves.length + 1)).map fun k =>
        (List.range (2 ^ (treeHeight leaves.length - k))).map fun i =>
          CompleteTree.root join (slot leaves) k (i * 2 ^ k) := by
  rw [buildLevels, resize_eq, treeWidth_eq]
  exact levelsFrom_range _ _

/-- The root of an aligned subtree is looked up. -/
theorem subtreeRoot_eq_ok {leaves : List L} {h s : Nat} (haligned : 2 ^ h ∣ s)
    (hwithin : s + 2 ^ h ≤ 2 ^ treeHeight leaves.length) :
    subtreeRoot (buildLevels leaves) s (2 ^ h) =
      .ok (CompleteTree.root join (slot leaves) h s : B256) := by
  obtain ⟨i, rfl⟩ := haligned
  have hpos := Nat.two_pow_pos h
  have hheight : h ≤ treeHeight leaves.length :=
    (Nat.pow_le_pow_iff_right Nat.one_lt_two).mp ((Nat.le_add_left _ _).trans hwithin)
  have hposition : i < 2 ^ (treeHeight leaves.length - h) := by
    rw [← pow_mul_pow_sub 2 hheight, ← Nat.mul_succ] at hwithin
    exact Nat.le_of_mul_le_mul_left hwithin hpos
  rw [subtreeRoot, trailingZeros_two_pow, buildLevels_eq, List.getElem?_map,
    List.getElem?_range (by omega), Option.map_some, Outcome.expect_some, Outcome.ok_bind,
    if_neg hpos.ne', Nat.mul_div_cancel_left i hpos, List.getElem?_map,
    List.getElem?_range hposition, Nat.mul_comm (2 ^ h) i]
  rfl

/-- The root of the complete tree, hashed with the number of leaves. -/
def rootHash (leafCount : U32) (leaves : List L) : B256 :=
  hash (Root.mk leafCount
    (CompleteTree.root join (slot leaves) (treeHeight leaves.length) 0 : B256))

/-- The root of a leaf sequence. -/
theorem computeRoot_eq_ok {leaves : List L} {leafCount : U32}
    (hcount : FixedWidth.ofNat? 32 leaves.length = some leafCount) :
    computeRoot leaves = .ok (rootHash leafCount leaves : B256) := by
  rw [computeRoot, hcount, Outcome.expect_some, Outcome.ok_bind, buildLevels_eq,
    List.range_succ, List.map_append]
  simp [rootHash]

/-! ## Subtrees -/

section

variable {h s : Nat} {indices : List U32}

/-- Sorted indices of the subtree of height `h` that begins with position `s`. -/
structure InSubtree (h s : Nat) (indices : List U32) : Prop where
  sorted : SortedBy BitVec.toNat indices
  range : ∀ index ∈ indices, s ≤ index.toNat ∧ index.toNat < s + 2 ^ h

namespace InSubtree

/-- A split at the middle separates the indices of the two halves. -/
theorem split_eq (hin : InSubtree (h + 1) s indices) :
    indices.take (partitionPoint (fun index => index.toNat < s + 2 ^ h) indices) =
        indices.filter (fun index => index.toNat < s + 2 ^ h) ∧
      indices.drop (partitionPoint (fun index => index.toNat < s + 2 ^ h) indices) =
        indices.filter (fun index => s + 2 ^ h ≤ index.toNat) :=
  hin.sorted.take_drop_partitionPoint fun _ _ => rfl

/-- The left half of a subtree. -/
theorem left (hin : InSubtree (h + 1) s indices) : InSubtree h s
    (indices.take (partitionPoint (fun index => index.toNat < s + 2 ^ h) indices)) where
  sorted := hin.sorted.sublist (List.take_sublist _ _)
  range index hindex := by
    rw [hin.split_eq.1, List.mem_filter] at hindex
    exact ⟨(hin.range index hindex.1).1, of_decide_eq_true hindex.2⟩

/-- Its right half. -/
theorem right (hin : InSubtree (h + 1) s indices) : InSubtree h (s + 2 ^ h)
    (indices.drop (partitionPoint (fun index => index.toNat < s + 2 ^ h) indices)) where
  sorted := hin.sorted.sublist (List.drop_sublist _ _)
  range index hindex := by
    rw [hin.split_eq.2, List.mem_filter] at hindex
    have hlt := (hin.range index hindex.1).2
    rw [Nat.pow_succ] at hlt
    exact ⟨of_decide_eq_true hindex.2, by omega⟩

end InSubtree

end

/-! ## The builder -/

/-- The builder writes the roots of the maximal subtrees without selected indices. -/
theorem buildSideNodes_eq {leaves : List L} {h s : Nat} {selected : List U32}
    (haligned : 2 ^ h ∣ s) (hwithin : s + 2 ^ h ≤ 2 ^ treeHeight leaves.length)
    (hin : InSubtree h s selected) (sideNodes : List B256) :
    buildSideNodes (buildLevels leaves) selected s (2 ^ h) sideNodes =
      .ok (sideNodes ++ (CompleteTree.sides join (slot leaves) h s
        (selected.map BitVec.toNat)).map Prod.snd) := by
  induction h generalizing s selected sideNodes with
  | zero =>
      cases selected with
      | nil =>
          rw [buildSideNodes, subtreeRoot_eq_ok haligned hwithin]
          rfl
      | cons first rest =>
          rw [buildSideNodes, if_pos (Nat.pow_zero 2)]
          simp [CompleteTree.sides]
  | succ h ih =>
      cases selected with
      | nil =>
          rw [buildSideNodes, subtreeRoot_eq_ok haligned hwithin]
          rfl
      | cons first rest =>
          have hpos := Nat.two_pow_pos h
          have hdouble : 2 ^ (h + 1) = 2 ^ h + 2 ^ h := by ring
          have hhalf : 2 ^ (h + 1) / 2 = 2 ^ h := by omega
          have hleft : 2 ^ h ∣ s := (Nat.pow_dvd_pow 2 (Nat.le_succ h)).trans haligned
          have hright : 2 ^ h ∣ s + 2 ^ h := Nat.dvd_add hleft (Nat.dvd_refl _)
          have hnumbers : first.toNat :: rest.map BitVec.toNat =
              (first :: rest).map BitVec.toNat := rfl
          rw [buildSideNodes, if_neg (by omega), if_pos (by omega), hhalf, List.map_cons,
            CompleteTree.sides, hnumbers, List.filter_map, List.filter_map, List.map_append]
          simp only [ih hleft (by omega) hin.left, ih hright (by omega) hin.right, Outcome.ok_bind]
          rw [hin.split_eq.1, hin.split_eq.2, List.append_assoc]
          rfl

/-! ## The verifier -/

/-- The verifier takes the next side node, whatever its height. -/
def nextNode (_ : Nat) (sideNodes : List B256) : Outcome DenseMerkleError (B256 × List B256) :=
  match sideNodes with
  | node :: sideNodes => .ok (node, sideNodes)
  | [] => .error (.error .InvalidMultiproof)

omit [Sha256 B256] in
theorem supplies_nextNode (roots : List (Nat × B256)) :
    CompleteTree.Supplies nextNode roots (roots.map Prod.snd) [] := by
  induction roots with
  | nil => rfl
  | cons x roots ih => exact ⟨roots.map Prod.snd, rfl, ih⟩

/-- Leaves with their positions. -/
def entries (indices : List U32) (leaves : List L) : List (Nat × B256) :=
  (indices.zip leaves).map fun x => (x.1.toNat, hash x.2)

/-- The positions of the entries are the indices. -/
theorem exists_index_of_mem_entries {indices : List U32} {leaves : List L} {x : Nat × B256}
    (hx : x ∈ entries indices leaves) : ∃ index ∈ indices, index.toNat = x.1 := by
  obtain ⟨⟨index, leaf⟩, hmem, rfl⟩ := List.mem_map.mp hx
  exact ⟨index, (List.of_mem_zip hmem).1, rfl⟩

theorem InSubtree.within {h s : Nat} {indices : List U32} {leaves : List L}
    (hin : InSubtree h s indices) :
    CompleteTree.Within h s (entries indices leaves : List (Nat × B256)) := by
  intro x hx
  obtain ⟨index, hindex, hx1⟩ := exists_index_of_mem_entries hx
  exact hx1 ▸ hin.range index hindex

/-- The entries of the two halves of a subtree. -/
theorem entries_split {h s : Nat} {indices : List U32} {leaves : List L}
    (hin : InSubtree (h + 1) s indices) (hlength : leaves.length = indices.length) {split : Nat}
    (hsplit : split = partitionPoint (fun index => index.toNat < s + 2 ^ h) indices) :
    (entries (indices.take split) (leaves.take split) : List (Nat × B256)) =
        (entries indices leaves).filter (fun x => x.1 < s + 2 ^ h) ∧
      (entries (indices.drop split) (leaves.drop split) : List (Nat × B256)) =
        (entries indices leaves).filter (fun x => s + 2 ^ h ≤ x.1) := by
  have hzip : (entries indices leaves : List (Nat × B256)) =
      entries (indices.take split) (leaves.take split) ++
        entries (indices.drop split) (leaves.drop split) := by
    have htake : (indices.take split).length = (leaves.take split).length := by
      rw [List.length_take, List.length_take, hlength]
    rw [entries, entries, entries, ← List.map_append, ← List.zip_append htake,
      List.take_append_drop, List.take_append_drop]
  have hbelow : ∀ x ∈ (entries (indices.take split) (leaves.take split) : List (Nat × B256)),
      x.1 < s + 2 ^ h := by
    intro x hx
    obtain ⟨index, hindex, hx1⟩ := exists_index_of_mem_entries hx
    rw [hsplit, hin.split_eq.1, List.mem_filter] at hindex
    exact hx1 ▸ of_decide_eq_true hindex.2
  have habove : ∀ x ∈ (entries (indices.drop split) (leaves.drop split) : List (Nat × B256)),
      s + 2 ^ h ≤ x.1 := by
    intro x hx
    obtain ⟨index, hindex, hx1⟩ := exists_index_of_mem_entries hx
    rw [hsplit, hin.split_eq.2, List.mem_filter] at hindex
    exact hx1 ▸ of_decide_eq_true hindex.2
  rw [hzip]
  constructor
  · refine (filter_append_eq_left (fun x hx => decide_eq_true (hbelow x hx)) fun x hx => ?_).symm
    exact decide_eq_false (habove x hx).not_gt
  · rw [List.filter_append, List.filter_eq_nil_iff.mpr, List.filter_eq_self.mpr, List.nil_append]
    · exact fun x hx => decide_eq_true (habove x hx)
    · simpa using hbelow

/-- The verifier walks over the complete tree. -/
theorem treeRootFromProof_eq {h s : Nat} {indices : List U32} {leaves : List L}
    (hin : InSubtree h s indices) (hlength : leaves.length = indices.length)
    (sideNodes : List B256) :
    treeRootFromProof leaves indices s (2 ^ h) sideNodes =
      CompleteTree.rebuild join nextNode .InvalidMultiproof h s (entries indices leaves)
        sideNodes := by
  induction h generalizing s indices leaves sideNodes with
  | zero =>
      cases indices with
      | nil => cases sideNodes <;> rw [treeRootFromProof] <;> rfl
      | cons first rest =>
          cases leaves with
          | nil => cases hlength
          | cons leaf leaves =>
              have hfirst : first.toNat = s := by
                have := hin.range first (by simp)
                omega
              have hrest : leaves.length = rest.length := Nat.succ.inj hlength
              have hentries : (entries (first :: rest) (leaf :: leaves) : List (Nat × B256)) =
                  (first.toNat, hash leaf) :: entries rest leaves := rfl
              rw [treeRootFromProof, if_pos (Nat.pow_zero 2), hentries, CompleteTree.rebuild]
              cases rest with
              | nil =>
                  cases List.length_eq_zero_iff.mp hrest
                  simp [Outcome.rejectIf, hfirst, entries]
              | cons second rest =>
                  cases leaves with
                  | nil => cases hrest
                  | cons leaf' leaves =>
                      rw [Outcome.rejectIf, if_pos (by simp), if_neg (by simp [entries])]
                      rfl
  | succ h ih =>
      cases indices with
      | nil => cases sideNodes <;> rw [treeRootFromProof] <;> rfl
      | cons first rest =>
          cases leaves with
          | nil => cases hlength
          | cons leaf leaves =>
              have hpos := Nat.two_pow_pos h
              have hdouble : 2 ^ (h + 1) = 2 ^ h + 2 ^ h := by ring
              have hhalf : 2 ^ (h + 1) / 2 = 2 ^ h := by omega
              obtain ⟨split, hsplit⟩ : ∃ split, split =
                  partitionPoint (fun index => index.toNat < s + 2 ^ h) (first :: rest) := ⟨_, rfl⟩
              have hle : split ≤ (leaf :: leaves).length := by
                rw [hsplit, hlength]
                exact partitionPoint_le _ _
              have hhalves : (entries ((first :: rest).take split) ((leaf :: leaves).take split) :
                  List (Nat × B256)) = _ ∧ _ := entries_split hin hlength hsplit
              have hentries : (entries (first :: rest) (leaf :: leaves) : List (Nat × B256)) =
                  (first.toNat, hash leaf) :: entries rest leaves := rfl
              have htake : ((leaf :: leaves).take split).length =
                  ((first :: rest).take split).length := by
                rw [List.length_take, List.length_take, hlength]
              have hdrop : ((leaf :: leaves).drop split).length =
                  ((first :: rest).drop split).length := by
                rw [List.length_drop, List.length_drop, hlength]
              have hleft := hin.left
              have hright := hin.right
              rw [← hsplit] at hleft hright
              rw [treeRootFromProof, if_neg (by omega), if_pos (by omega), hhalf]
              simp only [← hsplit, if_pos hle, Outcome.expect_some, Outcome.ok_bind,
                ih hleft htake, ih hright hdrop]
              rw [hentries, CompleteTree.rebuild, ← hentries, ← hhalves.1, ← hhalves.2]
              rfl

/-! ## Replaced leaves -/

/-- The leaves with those at the given indices replaced. -/
def replace (leaves : List L) (indices : List U32) (replacements : List L) : List L :=
  (indices.zip replacements).foldl (fun leaves x => leaves.set x.1.toNat x.2) leaves

omit [DomainSha256Hash L] in
/-- What is at a position after some updates. -/
theorem getElem?_foldl_set {updates : List (U32 × L)} {leaves : List L}
    (hnodup : (updates.map fun x => x.1.toNat).Nodup)
    (hlt : ∀ x ∈ updates, x.1.toNat < leaves.length) (i : Nat) :
    (updates.foldl (fun leaves x => leaves.set x.1.toNat x.2) leaves)[i]? =
      ((updates.find? fun x => x.1.toNat = i).map Prod.snd).or leaves[i]? := by
  induction updates generalizing leaves with
  | nil => simp
  | cons x updates ih =>
      obtain ⟨hx, hrest⟩ := List.nodup_cons.mp hnodup
      obtain ⟨hxlt, hrestlt⟩ := List.forall_mem_cons.mp hlt
      rw [List.foldl_cons, ih hrest (by simpa using hrestlt)]
      by_cases hi : x.1.toNat = i
      · have hgone : updates.find? (fun y => y.1.toNat = i) = none := by
          rw [List.find?_eq_none]
          intro y hy hyi
          refine hx (List.mem_map.mpr ⟨y, hy, ?_⟩)
          exact (of_decide_eq_true hyi).trans hi.symm
        rw [hgone, List.find?_cons_of_pos (by simpa using hi), ← hi,
          List.getElem?_set_self hxlt]
        rfl
      · rw [List.getElem?_set_ne hi, List.find?_cons_of_neg (by simpa using hi)]

section

variable {leaves replacements : List L} {indices : List U32} {leafCount : U32}

omit [DomainSha256Hash L] in
@[simp]
theorem length_replace : (replace leaves indices replacements).length = leaves.length := by
  rw [replace]
  induction indices.zip replacements generalizing leaves with
  | nil => rfl
  | cons x updates ih => rw [List.foldl_cons, ih, List.length_set]

/-- With one leaf for every index the entries are numbered by the indices. -/
theorem map_fst_entries (hlength : replacements.length = indices.length) :
    (entries indices replacements : List (Nat × B256)).map Prod.fst =
      indices.map BitVec.toNat := by
  have hzip : (indices.zip replacements).map Prod.fst = indices :=
    List.map_fst_zip hlength.ge
  rw [entries, List.map_map, ← congrArg (List.map BitVec.toNat) hzip, List.map_map]
  rfl

/-- Replacing leaves of the complete tree commits to the sequence with the leaves replaced. -/
theorem override_slot (hsorted : SortedBy BitVec.toNat indices)
    (hlt : ∀ index ∈ indices, index.toNat < leaves.length)
    (hlength : replacements.length = indices.length) :
    CompleteTree.override (slot leaves) (entries indices replacements) =
      (slot (replace leaves indices replacements) : Nat → B256) := by
  have hzip : (indices.zip replacements).map Prod.fst = indices :=
    List.map_fst_zip hlength.ge
  have hnodup : ((indices.zip replacements).map fun x => x.1.toNat).Nodup := by
    have hkeys := hsorted.nodup_map
    rwa [← hzip, List.map_map] at hkeys
  have hin : ∀ x ∈ indices.zip replacements, x.1.toNat < leaves.length :=
    fun x hx => hlt x.1 (List.of_mem_zip hx).1
  ext i
  rw [CompleteTree.override, entries, List.find?_map, slot, slot, List.getElem?_map,
    List.getElem?_map, replace, getElem?_foldl_set hnodup hin i]
  simp only [Function.comp_def]
  cases (indices.zip replacements).find? fun x => x.1.toNat = i with
  | none => rfl
  | some x => rfl

/-- Sorted indices below the number of leaves pass the checks. -/
theorem indices_valid (hne : indices ≠ []) (hsorted : SortedBy BitVec.toNat indices)
    (hlt : ∀ index ∈ indices, index.toNat < leafCount.toNat) :
    leafCount ≠ 0 ∧ anyAdjacent (fun a b => a ≥ b) indices = false ∧
      indices.getLast?.any (fun index => index ≥ leafCount) = false := by
  refine ⟨?_, ?_, ?_⟩
  · intro hzero
    obtain ⟨index, hindex⟩ := List.exists_mem_of_ne_nil indices hne
    have := hlt index hindex
    simp [hzero] at this
  · refine anyAdjacent_eq_false (hsorted.imp fun hab => decide_eq_false ?_)
    rw [ge_iff_le, BitVec.le_def]
    exact hab.not_ge
  · cases hlast : indices.getLast? with
    | none => rfl
    | some index =>
        refine decide_eq_false ?_
        rw [ge_iff_le, BitVec.le_def]
        exact (hlt index (List.mem_of_getLast? hlast)).not_ge

omit [DomainSha256Hash L] in
/-- All indices of a sequence. -/
theorem InSubtree.whole (hsorted : SortedBy BitVec.toNat indices)
    (hlt : ∀ index ∈ indices, index.toNat < leaves.length) :
    InSubtree (treeHeight leaves.length) 0 indices where
  sorted := hsorted
  range index hindex := by
    have := le_two_pow_treeHeight leaves.length
    have := hlt index hindex
    omega

end

/-! ## The guarantee -/

section

variable {leaves replacements : List L} {indices : List U32} {leafCount : U32}

/-- The roots of the missing subtrees of a leaf sequence. -/
def missingRoots (leaves : List L) (indices : List U32) : List (Nat × B256) :=
  CompleteTree.sides join (slot leaves) (treeHeight leaves.length) 0 (indices.map BitVec.toNat)

/-- The proof in which they are written. -/
def honestProof (leafCount : U32) (leaves : List L) (indices : List U32) :
    DenseMerkleMultiproof B256 :=
  ⟨leafCount, indices, (missingRoots leaves indices).map Prod.snd⟩

/-- The builder returns an honest proof. -/
theorem buildMultiproof_eq_ok (hcount : FixedWidth.ofNat? 32 leaves.length = some leafCount)
    (hne : indices ≠ []) (hsorted : SortedBy BitVec.toNat indices)
    (hlt : ∀ index ∈ indices, index.toNat < leaves.length) :
    buildMultiproof leaves indices =
      .ok (honestProof leafCount leaves indices : DenseMerkleMultiproof B256) := by
  have hleafCount := FixedWidth.ofNat?_eq_some.mp hcount
  obtain ⟨hpos, hadjacent, hlast⟩ := indices_valid hne hsorted (hleafCount ▸ hlt)
  have hvalid : ¬ (leafCount = 0 ∨ indices.isEmpty ∨ anyAdjacent (fun a b => a ≥ b) indices ∨
      indices.getLast?.any (fun index => index ≥ leafCount)) := by
    simp only [hpos, hadjacent, hlast, List.isEmpty_iff, hne, Bool.false_eq_true, or_self,
      not_false_eq_true]
  have hsides : buildSideNodes (buildLevels leaves) indices 0 (treeWidth leaves.length) [] =
      .ok ((missingRoots leaves indices : List (Nat × B256)).map Prod.snd) :=
    buildSideNodes_eq (Nat.dvd_zero _) (Nat.zero_add _).le (InSubtree.whole hsorted hlt) []
  rw [buildMultiproof, hcount, Outcome.okOr, Outcome.ok_bind, Outcome.rejectIf, if_neg hvalid,
    Outcome.ok_bind]
  simp only [hsides]
  rfl

/-- From the missing roots the verifier computes the root of the replaced leaves. -/
theorem treeRootFromProof_missingRoots (hsorted : SortedBy BitVec.toNat indices)
    (hlt : ∀ index ∈ indices, index.toNat < leaves.length)
    (hlength : replacements.length = indices.length) :
    treeRootFromProof replacements indices 0 (treeWidth leaves.length)
        ((missingRoots leaves indices).map Prod.snd) =
      .ok ((CompleteTree.root join (slot (replace leaves indices replacements))
        (treeHeight leaves.length) 0 : B256), []) := by
  have hin := InSubtree.whole hsorted hlt
  have hnumbers : (entries indices replacements : List (Nat × B256)).map Prod.fst =
      indices.map BitVec.toNat := map_fst_entries hlength
  have hnodup : ((entries indices replacements : List (Nat × B256)).map Prod.fst).Nodup := by
    rw [hnumbers]
    exact hsorted.nodup_map
  rw [treeWidth_eq, treeRootFromProof_eq hin hlength, ← override_slot hsorted hlt hlength]
  refine CompleteTree.rebuild_complete hin.within hnodup ?_
  rw [hnumbers]
  exact supplies_nextNode _

/-- The verifier computes the root of the replaced leaves from an honest proof. -/
theorem computeRootFromProof_honestProof
    (hcount : FixedWidth.ofNat? 32 leaves.length = some leafCount)
    (hne : indices ≠ []) (hsorted : SortedBy BitVec.toNat indices)
    (hlt : ∀ index ∈ indices, index.toNat < leaves.length)
    (hlength : replacements.length = indices.length) :
    computeRootFromProof replacements (honestProof leafCount leaves indices) =
      .ok (rootHash leafCount (replace leaves indices replacements) : B256) := by
  have hleafCount := FixedWidth.ofNat?_eq_some.mp hcount
  obtain ⟨hpos, hadjacent, hlast⟩ := indices_valid hne hsorted (hleafCount ▸ hlt)
  have hvalid : ¬ (replacements.length ≠ indices.length ∨ leafCount = 0 ∨
      anyAdjacent (fun a b => a ≥ b) indices ∨
      indices.getLast?.any (fun index => index ≥ leafCount)) := by
    simp only [hlength, hpos, hadjacent, hlast, Bool.false_eq_true, or_self, ne_eq,
      not_true_eq_false, not_false_eq_true]
  rw [computeRootFromProof, honestProof, Outcome.rejectIf]
  dsimp only
  rw [if_neg hvalid, Outcome.ok_bind, hleafCount,
    treeRootFromProof_missingRoots hsorted hlt hlength]
  simp [Outcome.rejectIf, rootHash]

/-- Completeness: from an honest proof the root is reconstructed after any replacement of the
selected leaves. -/
theorem dense_multiproof_complete (hcount : leaves.length < 2 ^ 32) (hne : indices ≠ [])
    (hsorted : SortedBy BitVec.toNat indices)
    (hlt : ∀ index ∈ indices, index.toNat < leaves.length)
    (hlength : replacements.length = indices.length) :
    ∃ (proof : DenseMerkleMultiproof B256) (root : B256),
      buildMultiproof leaves indices = .ok proof ∧
        computeRootFromProof replacements proof = .ok root ∧
        computeRoot (replace leaves indices replacements) = .ok root := by
  obtain ⟨leafCount, hleafCount⟩ : ∃ leafCount,
      FixedWidth.ofNat? 32 leaves.length = some leafCount := ⟨_, if_pos hcount⟩
  exact ⟨_, _, buildMultiproof_eq_ok hleafCount hne hsorted hlt,
    computeRootFromProof_honestProof hleafCount hne hsorted hlt hlength,
    computeRoot_eq_ok (by rwa [length_replace])⟩

/-- Some accounts without balances. -/
def testAccounts (nonce : U64) (bytes : List UInt8) : List Account :=
  bytes.map fun byte => ⟨FixedBytes.replicate 20 byte, [], nonce⟩

theorem dense_multiproof_complete_test :
    ∃ (proof : DenseMerkleMultiproof IdealDigest) (root : IdealDigest),
      buildMultiproof (testAccounts 0 [1, 2, 3]) [0, 2] = .ok proof ∧
        computeRootFromProof (testAccounts 1 [1, 3]) proof = .ok root ∧
        computeRoot (replace (testAccounts 0 [1, 2, 3]) [0, 2] (testAccounts 1 [1, 3])) =
          .ok root :=
  dense_multiproof_complete (by decide) (by decide) (List.pairwise_pair.mpr (by decide))
    (by simp [testAccounts]) rfl

end

end DenseMerkle

end ZkClob
