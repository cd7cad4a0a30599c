import ZkClob.Core.Hashing
import ZkClob.Foundations.Outcome
import ZkClob.Foundations.SortedSearch

/-!
# The Patricia Merkle tree

Account state is committed with a path-compressed binary tree.  Every node is
committed to as a root hash together with the smallest and the largest key below
it.  A multiproof lists the selected keys and the commitments of the maximal
subtrees that contain none of them; the verifier rebuilds the root from the
selected leaves and these side nodes.

This module is the tree code: building a tree, extracting the side nodes, and
recomputing a root from a proof.
-/

namespace ZkClob

open Foundations

/-- Keys of the tree: their order is the order of their bits, and they delimit
themselves in hashed messages. -/
class PatriciaKey (K : Type) extends BitKey K, Sha256Hash K where
  /-- The number of bits is a machine word. -/
  bits_lt : BITS < 2 ^ 64
  updateHash_prefixFree : PrefixFree (updateHash : K → Bytes)

/-- Byte arrays are tree keys. -/
instance FixedBytes.patriciaKey (N : Nat) [hN : Fact (8 * N < 2 ^ 64)] :
    PatriciaKey (FixedBytes N) where
  bits_lt := hN.out
  updateHash_prefixFree := FixedBytes.updateHash_prefixFree

instance FixedBytes.width_address : Fact (8 * 20 < 2 ^ 64) := ⟨by norm_num⟩

/-- Leaves of the tree carry a key. -/
class PatriciaLeaf (L : Type) (K : outParam Type) [PatriciaKey K] extends
    DomainSha256Hash L where
  key : L → K

namespace Patricia

inductive PatriciaError where
  | InvalidMultiproof
deriving DecidableEq

/-- Root and key range of one canonical, unexpanded subtree. -/
structure PatriciaSubtree (B256 K : Type) where
  root : B256
  minKey : K
  maxKey : K
deriving DecidableEq

/-- Selected keys and the subtrees that contain no selected key. -/
structure PatriciaMultiproof (B256 K : Type) where
  leafKeys : List K
  sideNodes : List (PatriciaSubtree B256 K)
deriving DecidableEq

/-- What is committed to about a node. -/
structure Commitment (B256 K : Type) where
  root : B256
  min : K
  max : K
deriving DecidableEq

/-- {lit}`Commitment::from`. -/
def PatriciaSubtree.toCommitment {B256 K : Type} (value : PatriciaSubtree B256 K) :
    Commitment B256 K :=
  ⟨value.root, value.minKey, value.maxKey⟩

/-- {lit}`PatriciaSubtree::from`. -/
def Commitment.toSubtree {B256 K : Type} (value : Commitment B256 K) :
    PatriciaSubtree B256 K :=
  ⟨value.root, value.min, value.max⟩

@[simp]
theorem Commitment.toCommitment_toSubtree {B256 K : Type} (value : Commitment B256 K) :
    value.toSubtree.toCommitment = value := rfl

@[simp]
theorem PatriciaSubtree.toSubtree_toCommitment {B256 K : Type}
    (value : PatriciaSubtree B256 K) : value.toCommitment.toSubtree = value := rfl

/-- A node of a built tree. -/
inductive Node (B256 K : Type) where
  | empty
  | leaf (commitment : Commitment B256 K)
  | branch (commitment : Commitment B256 K) (left right : Node B256 K)

/-- {lit}`Node::commitment`. -/
def Node.commitment {B256 K : Type} : Node B256 K → Option (Commitment B256 K)
  | .empty => none
  | .leaf value => some value
  | .branch value _ _ => some value

/-! ## Hashed nodes -/

/-- The empty tree. -/
structure Empty where

/-- A leaf of the tree, as it is hashed; `B256` is the digest of its value. -/
structure Leaf (B256 L : Type) where
  value : L

/-- A branch of the tree, as it is hashed. -/
structure Branch (B256 K : Type) where
  depth : Nat
  left : Commitment B256 K
  right : Commitment B256 K

/-- The outermost commitment, as it is hashed. -/
structure Root (B256 K : Type) where
  commitment : Commitment B256 K

variable {B256 K L : Type} [Sha256 B256] [PatriciaKey K] [PatriciaLeaf L K]

instance : Sha256Hash (Commitment B256 K) where
  updateHash node :=
    Sha256.bytes node.root ++ updateHash node.min ++ updateHash node.max

instance : DomainSha256Hash Empty where
  updateHash _ := []
  domain := ascii "ZKCLOB_PATRICIA_EMPTY_V1"

/-- A leaf hashes its key and the hash of its value. -/
instance : DomainSha256Hash (Leaf B256 L) where
  updateHash self :=
    updateHash (PatriciaLeaf.key self.value) ++ Sha256.bytes (hash self.value : B256)
  domain := ascii "ZKCLOB_PATRICIA_LEAF_V1"

/-- The depth of a branch fits in sixty-four bits, because keys have fewer bits. -/
instance : DomainSha256Hash (Branch B256 K) where
  updateHash self :=
    toBeBytes 8 self.depth ++ updateHash self.left ++ updateHash self.right
  domain := ascii "ZKCLOB_PATRICIA_BRANCH_V1"

instance : DomainSha256Hash (Root B256 K) where
  updateHash self := updateHash self.commitment
  domain := ascii "ZKCLOB_PATRICIA_ROOT_V1"

/-! ## Building a tree -/

open BitKey PatriciaLeaf

/-- The commitment of a leaf. -/
def leaf (value : L) : Commitment B256 K :=
  ⟨hash (Leaf.mk value : Leaf B256 L), key value, key value⟩

/-- Join two commitments, checking that the right one lies after the left one and
that the bit in which they first differ separates their ends. -/
def branch (left right : Commitment B256 K) : Outcome PatriciaError (Commitment B256 K) := do
  Outcome.rejectIf (left.max ≥ right.min) .InvalidMultiproof
  let depth ← Outcome.okOr (differingBit left.max right.min) .InvalidMultiproof
  Outcome.rejectIf
    (bit left.min depth ∨ bit left.max depth ∨ !bit right.min depth ∨ !bit right.max depth)
    .InvalidMultiproof
  .ok ⟨hash (Branch.mk depth left right), left.min, right.max⟩

/-- Build the tree over leaves in key order. -/
def build (values : List L) : Outcome PatriciaError (Node B256 K) :=
  match values with
  | [] => .ok .empty
  | [value] => .ok (.leaf (leaf value))
  | first :: second :: rest => do
      let values := first :: second :: rest
      let depth ← Outcome.okOr
        (differingBit (key first) (key (values.getLast (List.cons_ne_nil _ _))))
        .InvalidMultiproof
      let split := partitionPoint (fun value => !bit (key value) depth) values
      if split = 0 ∨ split = values.length then .error (.error .InvalidMultiproof)
      else do
        let left ← build (values.take split)
        let right ← build (values.drop split)
        let leftCommitment ← Outcome.expect left.commitment
        let rightCommitment ← Outcome.expect right.commitment
        let commitment ← branch leftCommitment rightCommitment
        .ok (.branch commitment left right)
termination_by values.length
decreasing_by
  · rename_i hsplit
    exact length_take_partitionPoint_lt hsplit
  · rename_i hsplit
    exact length_drop_partitionPoint_lt hsplit

/-! ## Proofs -/

/-- Some selected key lies in the range of a node. -/
def selectedIn (keys : List K) (node : Commitment B256 K) : Bool :=
  let index := partitionPoint (fun key => key < node.min) keys
  match keys[index]? with
  | some key => key ≤ node.max
  | none => false

/-- The maximal subtrees into which no selected key falls. -/
def sideNodes (node : Node B256 K) (keys : List K) :
    Outcome PatriciaError (List (PatriciaSubtree B256 K)) :=
  match node with
  | .empty => .ok []
  | .leaf commitment =>
      if selectedIn keys commitment then .ok [] else .ok [commitment.toSubtree]
  | .branch commitment left right => do
      let leftCommitment ← Outcome.expect left.commitment
      let rightCommitment ← Outcome.expect right.commitment
      let depth ← Outcome.expect (differingBit leftCommitment.max rightCommitment.min)
      let affected := selectedIn keys commitment || keys.any fun key =>
        let boundary := if key < commitment.min then commitment.min else commitment.max
        match differingBit key boundary with
        | some difference => difference > depth
        | none => false
      if affected then do
        let leftNodes ← sideNodes left keys
        let rightNodes ← sideNodes right keys
        .ok (leftNodes ++ rightNodes)
      else .ok [commitment.toSubtree]

/-- Rebuild the tree above a sequence of commitments in key order. -/
def combine (nodes : List (Commitment B256 K)) :
    Outcome PatriciaError (Option (Commitment B256 K)) :=
  match nodes with
  | [] => .ok none
  | [node] => .ok (some node)
  | first :: second :: rest => do
      let nodes := first :: second :: rest
      let depth ← Outcome.okOr
        (differingBit first.min (nodes.getLast (List.cons_ne_nil _ _)).max) .InvalidMultiproof
      let split := partitionPoint (fun node => !bit node.max depth) nodes
      if split = 0 ∨ split = nodes.length ∨ (nodes.take split).any (fun node => bit node.min depth)
          ∨ (nodes.drop split).any (fun node => !bit node.min depth) then
        .error (.error .InvalidMultiproof)
      else do
        let left ← Outcome.okOr (← combine (nodes.take split)) .InvalidMultiproof
        let right ← Outcome.okOr (← combine (nodes.drop split)) .InvalidMultiproof
        let node ← branch left right
        .ok (some node)
termination_by nodes.length
decreasing_by
  · rename_i hsplit
    exact length_take_partitionPoint_lt fun h => hsplit (by tauto)
  · rename_i hsplit
    exact length_drop_partitionPoint_lt fun h => hsplit (by tauto)

/-- The committed root: the empty tree and a tree with nodes are hashed apart. -/
def finalize (node : Option (Commitment B256 K)) : B256 :=
  match node with
  | none => hash Empty.mk
  | some node => hash (Root.mk node)

/-- The values in key order; duplicate keys are rejected. -/
def sorted (values : List L) : Outcome PatriciaError (List L) := do
  let values := sortByKey key values
  Outcome.rejectIf (anyAdjacent (fun a b => key a = key b) values) .InvalidMultiproof
  .ok values

/-- {lit}`PatriciaMerkleTree::compute_root`. -/
def computeRoot (values : List L) : Outcome PatriciaError B256 := do
  let values ← sorted values
  let node ← build values
  .ok (finalize node.commitment)

/-- {lit}`PatriciaMerkleTree::build_multiproof`. -/
def buildMultiproof (values : List L) (selectedKeys : List K) :
    Outcome PatriciaError (PatriciaMultiproof B256 K) := do
  Outcome.rejectIf selectedKeys.isEmpty .InvalidMultiproof
  let keys := sortByKey id selectedKeys
  Outcome.rejectIf (anyAdjacent (fun a b => a = b) keys) .InvalidMultiproof
  let values ← sorted values
  let tree ← build values
  let proofNodes ← sideNodes tree keys
  .ok ⟨keys, proofNodes⟩

/-- The leaves and side nodes in key order: a leaf comes first when its key is
below the range of the next side node. -/
def mergeNodes (leaves : List (Commitment B256 K)) (sides : List (PatriciaSubtree B256 K)) :
    List (Commitment B256 K) :=
  match leaves, sides with
  | leaves, [] => leaves
  | [], side :: sides => side.toCommitment :: mergeNodes [] sides
  | leaf :: leaves, side :: sides =>
      if leaf.min < side.minKey then leaf :: mergeNodes leaves (side :: sides)
      else side.toCommitment :: mergeNodes (leaf :: leaves) sides
termination_by leaves.length + sides.length

/-- {lit}`PatriciaMerkleTree::compute_root_from_proof`. -/
def computeRootFromProof (values : List L) (proof : PatriciaMultiproof B256 K) :
    Outcome PatriciaError B256 := do
  Outcome.rejectIf
    (proof.leafKeys.isEmpty ∨ anyAdjacent (fun a b => a ≥ b) proof.leafKeys ∨
      proof.sideNodes.any (fun node => node.minKey > node.maxKey) ∨
      anyAdjacent (fun a b => a.maxKey ≥ b.minKey) proof.sideNodes)
    .InvalidMultiproof
  let values ← sorted values
  Outcome.rejectIf
    (values.any (fun value =>
        match binarySearchByKey id (key value) proof.leafKeys with
        | .ok _ => false
        | .error _ => true) ∨
      proof.sideNodes.any fun node =>
        let index := partitionPoint (fun key => key < node.minKey) proof.leafKeys
        match proof.leafKeys[index]? with
        | some key => key ≤ node.maxKey
        | none => false)
    .InvalidMultiproof
  let leaves := values.map leaf
  let nodes := mergeNodes leaves proof.sideNodes
  Outcome.rejectIf (anyAdjacent (fun a b => a.max ≥ b.min) nodes) .InvalidMultiproof
  let node ← combine nodes
  .ok (finalize node)

end Patricia

end ZkClob
