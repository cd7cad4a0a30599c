import Mathlib.Data.Nat.Log
import ZkClob.Core.Hashing
import ZkClob.Foundations.FixedWidth
import ZkClob.Foundations.Outcome
import ZkClob.Foundations.SortedSearch

/-!
# The dense Merkle tree

A tree over a sequence of leaves: a complete binary tree that is filled up to a
power of two with empty leaves, whose root is hashed once more together with the
number of leaves.  A multiproof lists the indices of the selected leaves and the
roots of the maximal subtrees that contain none of them.

This module is the tree code: computing a root over precomputed levels, building a
multiproof from the levels, and recomputing a root from a multiproof.  Lengths and
positions are natural numbers: the powers of two up to `2 ^ 32` fit into a
{lit}`usize` of 64 bits.
-/

namespace ZkClob

open Foundations

namespace DenseMerkle

inductive DenseMerkleError where
  | TooManyLeaves
  | InvalidMultiproof
deriving DecidableEq

/-- Selected indices among a number of leaves, and the roots of the subtrees without them. -/
structure DenseMerkleMultiproof (B256 : Type) where
  leafCount : U32
  leafIndices : List U32
  sideNodes : List B256
deriving DecidableEq

/-- What is hashed in place of a missing leaf. -/
structure EmptyLeaf where

instance : DomainSha256Hash EmptyLeaf where
  updateHash _ := []
  domain := ascii "ZKCLOB_DMT_EMPTY_LEAF_V1"

/-- Two subtrees joined, as they are hashed. -/
structure Node (B256 : Type) where
  left : B256
  right : B256

instance {B256 : Type} [Sha256 B256] : DomainSha256Hash (Node B256) where
  updateHash self := Sha256.bytes self.left ++ Sha256.bytes self.right
  domain := ascii "ZKCLOB_DMT_NODE_V1"

/-- The number of leaves with the root of the complete tree, as they are hashed. -/
structure Root (B256 : Type) where
  leafCount : U32
  treeRoot : B256

instance {B256 : Type} [Sha256 B256] : DomainSha256Hash (Root B256) where
  updateHash self := beBytes self.leafCount ++ Sha256.bytes self.treeRoot
  domain := ascii "ZKCLOB_DMT_ROOT_V1"

variable {B256 L : Type} [Sha256 B256] [DomainSha256Hash L]

/-! ## Levels -/

/-- {lit}`usize::next_power_of_two`: the smallest power of two that is not below a number. -/
def nextPowerOfTwo (n : Nat) : Nat :=
  2 ^ Nat.clog 2 n

/-- {lit}`usize::trailing_zeros`. -/
def trailingZeros (n : Nat) : Nat :=
  if n = 0 then 64
  else if n % 2 = 0 then trailingZeros (n / 2) + 1
  else 0

/-- {lit}`Vec::resize`. -/
def resize {α : Type} (l : List α) (length : Nat) (value : α) : List α :=
  l.take length ++ List.replicate (length - l.length) value

/-- The number of positions of a tree. -/
def treeWidth (leafCount : Nat) : Nat :=
  nextPowerOfTwo (max leafCount 1)

/-- {lit}`chunks_exact(2)`, each pair hashed: the level above a level. -/
def joinPairs : List B256 → List B256
  | left :: right :: level => hash (Node.mk left right) :: joinPairs level
  | _ => []

theorem length_joinPairs (level : List B256) : (joinPairs level).length = level.length / 2 := by
  fun_induction joinPairs level with
  | case1 left right level ih =>
      simp only [List.length_cons, ih]
      omega
  | case2 level hshort =>
      cases level with
      | nil => simp
      | cons a level =>
          cases level with
          | nil => simp
          | cons b level => exact (hshort a b level rfl).elim

/-- The loop of {lit}`build_levels`: levels are added until there is one of a single node. -/
def levelsFrom (level : List B256) : List (List B256) :=
  if level.length > 1 then level :: levelsFrom (joinPairs level) else [level]
termination_by level.length
decreasing_by
  rw [length_joinPairs]
  omega

/-- All levels, from the leaves to the root. -/
def buildLevels (leaves : List L) : List (List B256) :=
  levelsFrom (resize (leaves.map hash) (treeWidth leaves.length) (hash EmptyLeaf.mk))

/-- A node of the levels; a position outside of them panics, and so does a division by zero. -/
def subtreeRoot (levels : List (List B256)) (start width : Nat) :
    Outcome DenseMerkleError B256 := do
  let level ← Outcome.expect levels[trailingZeros width]?
  Outcome.expect (if width = 0 then none else level[start / width]?)

/-! ## Building a proof -/

/-- Write the roots of the subtrees without selected indices, from left to right. -/
def buildSideNodes (levels : List (List B256)) (selected : List U32) (start width : Nat)
    (sideNodes : List B256) : Outcome DenseMerkleError (List B256) :=
  match selected with
  | [] => do
      let root ← subtreeRoot levels start width
      .ok (sideNodes ++ [root])
  | first :: rest =>
      if width = 1 then .ok sideNodes
      else if 1 < width then do
        let selected := first :: rest
        let midpoint := start + width / 2
        let split := partitionPoint (fun index => index.toNat < midpoint) selected
        let sideNodes ←
          buildSideNodes levels (selected.take split) start (width / 2) sideNodes
        buildSideNodes levels (selected.drop split) midpoint (width / 2) sideNodes
      else .error .panic
termination_by width

/-! ## Reading a proof -/

/-- The root of a subtree from its selected leaves and the side nodes not yet taken. -/
def treeRootFromProof (leaves : List L) (indices : List U32) (start width : Nat)
    (sideNodes : List B256) : Outcome DenseMerkleError (B256 × List B256) :=
  match indices with
  | [] =>
      match sideNodes with
      | node :: sideNodes => .ok (node, sideNodes)
      | [] => .error (.error .InvalidMultiproof)
  | first :: rest =>
      if width = 1 then do
        Outcome.rejectIf (leaves.length ≠ 1 ∨ (first :: rest).length ≠ 1 ∨ first.toNat ≠ start)
          .InvalidMultiproof
        let leaf ← Outcome.expect leaves[0]?
        .ok (hash leaf, sideNodes)
      else if 1 < width then do
        let indices := first :: rest
        let midpoint := start + width / 2
        let split := partitionPoint (fun index => index.toNat < midpoint) indices
        -- slicing behind the end of the leaves panics
        let (leftLeaves, rightLeaves) ← Outcome.expect
          (if split ≤ leaves.length then some (leaves.take split, leaves.drop split) else none)
        let (left, sideNodes) ←
          treeRootFromProof leftLeaves (indices.take split) start (width / 2) sideNodes
        let (right, sideNodes) ←
          treeRootFromProof rightLeaves (indices.drop split) midpoint (width / 2) sideNodes
        .ok (hash (Node.mk left right), sideNodes)
      else .error .panic
termination_by width

/-! ## The tree -/

/-- {lit}`DenseMerkleTree::compute_root`. -/
def computeRoot (leaves : List L) : Outcome DenseMerkleError B256 := do
  let levels : List (List B256) := buildLevels leaves
  let leafCount ← Outcome.expect (FixedWidth.ofNat? 32 leaves.length)
  let rootLevel ← Outcome.expect levels.getLast?
  let treeRoot ← Outcome.expect rootLevel[0]?
  .ok (hash (Root.mk leafCount treeRoot))

/-- {lit}`DenseMerkleTree::build_multiproof`. -/
def buildMultiproof (leaves : List L) (leafIndices : List U32) :
    Outcome DenseMerkleError (DenseMerkleMultiproof B256) := do
  let leafCount ← Outcome.okOr (FixedWidth.ofNat? 32 leaves.length) .TooManyLeaves
  Outcome.rejectIf
    (leafCount = 0 ∨ leafIndices.isEmpty ∨ anyAdjacent (fun a b => a ≥ b) leafIndices ∨
      leafIndices.getLast?.any (fun index => index ≥ leafCount))
    .InvalidMultiproof
  let levels := buildLevels leaves
  let sideNodes ← buildSideNodes levels leafIndices 0 (treeWidth leaves.length) []
  .ok ⟨leafCount, leafIndices, sideNodes⟩

/-- {lit}`DenseMerkleTree::compute_root_from_proof`. -/
def computeRootFromProof (leaves : List L) (proof : DenseMerkleMultiproof B256) :
    Outcome DenseMerkleError B256 := do
  let indices := proof.leafIndices
  Outcome.rejectIf
    (leaves.length ≠ indices.length ∨ proof.leafCount = 0 ∨
      anyAdjacent (fun a b => a ≥ b) indices ∨
      indices.getLast?.any (fun index => index ≥ proof.leafCount))
    .InvalidMultiproof
  let (treeRoot, sideNodes) ←
    treeRootFromProof leaves indices 0 (treeWidth proof.leafCount.toNat) proof.sideNodes
  Outcome.rejectIf (!sideNodes.isEmpty) .InvalidMultiproof
  .ok (hash (Root.mk proof.leafCount treeRoot))

end DenseMerkle

end ZkClob
