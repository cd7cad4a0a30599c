import ZkClob.Core.Account
import ZkClob.Foundations.BitPacking
import ZkClob.Foundations.Outcome
import ZkClob.Foundations.SortedSearch

/-!
# The sparse Merkle tree

An alternative account tree: a complete binary tree with one leaf for every key.
The root of a subtree without leaves is taken from a table.  A multiproof lists
the selected keys; for every maximal subtree that contains none of them it has one
bit that says whether the subtree is empty, and the roots of those that are not.
The bits are packed into bytes.

This module is the tree code: computing a root, building a multiproof, and
recomputing a root from a multiproof.
-/

namespace ZkClob

open Foundations

/-- Keys of the tree: their order is the order of their bits. -/
abbrev SparseMerkleKey (K : Type) := BitKey K

/-- Leaves of the tree carry a key. -/
class SparseMerkleLeaf (L : Type) (K : outParam Type) [SparseMerkleKey K] extends
    DomainSha256Hash L where
  key : L → K

instance : SparseMerkleLeaf Account AccountId where
  key := Account.id

namespace SparseMerkle

inductive SparseMerkleError where
  | InvalidMultiproof
deriving DecidableEq

/-- Selected keys, one bit for every subtree without them, and the roots of those that are not
empty. -/
structure SparseMerkleMultiproof (B256 K : Type) where
  leafKeys : List K
  siblingBitmap : List UInt8
  sideNodes : List B256
deriving DecidableEq

/-- Two subtrees joined, as they are hashed. -/
structure Node (B256 : Type) where
  left : B256
  right : B256

instance {B256 : Type} [Sha256 B256] : DomainSha256Hash (Node B256) where
  updateHash self := Sha256.bytes self.left ++ Sha256.bytes self.right
  domain := ascii "ZKCLOB_SMT_NODE_V1"

/-- The table of the roots of empty subtrees of all heights. -/
class EmptyHashes (B256 : Type) where
  EMPTY_HASHES_BY_HEIGHT : Vector B256 161

open BitKey SparseMerkleLeaf EmptyHashes

variable {B256 K L : Type} [Sha256 B256] [EmptyHashes B256] [SparseMerkleKey K]
  [SparseMerkleLeaf L K]

/-- A key with the leaf that is stored there, if any. -/
structure ProofLeaf (K L : Type) where
  key : K
  value : Option L

/-- {lit}`ProofLeaf::present`. -/
def ProofLeaf.present (value : L) : ProofLeaf K L :=
  ⟨SparseMerkleLeaf.key value, some value⟩

/-- {lit}`ProofLeaf::absent`. -/
def ProofLeaf.absent (key : K) : ProofLeaf K L :=
  ⟨key, none⟩

/-- {lit}`ProofLeaf::hash`. -/
def ProofLeaf.hash (self : ProofLeaf K L) (emptyLeaf : B256) : B256 :=
  match self.value with
  | some value => ZkClob.hash value
  | none => emptyLeaf

variable (K) in
/-- The root of an empty subtree; a depth below the leaves or a height outside the table
panics. -/
def emptyHash (depth : Nat) : Outcome SparseMerkleError B256 := do
  let height ← Outcome.expect (if depth ≤ BITS K then some (BITS K - depth) else none)
  Outcome.expect (EMPTY_HASHES_BY_HEIGHT : Vector B256 161)[height]?

/-- Where the leaves on the right side begin. -/
def split (leaves : List (ProofLeaf K L)) (depth : Nat) : Nat :=
  partitionPoint (fun leaf => !bit leaf.key depth) leaves

/-- The root of the subtree at a depth; a bit behind the end of a key panics. -/
def subtreeRoot (leaves : List (ProofLeaf K L)) (depth : Nat) : Outcome SparseMerkleError B256 :=
  match leaves with
  | [] => emptyHash K depth
  | first :: rest =>
      if depth = BITS K then do
        let emptyLeaf ← emptyHash K depth
        .ok (first.hash emptyLeaf)
      else if depth < BITS K then do
        let leaves := first :: rest
        let split := split leaves depth
        let left ← subtreeRoot (leaves.take split) (depth + 1)
        let right ← subtreeRoot (leaves.drop split) (depth + 1)
        .ok (hash (Node.mk left right))
      else .error .panic
termination_by BITS K - depth

/-! ## Building a proof -/

/-- The proof under construction.  The bits fill their bytes up to the last one. -/
structure ProofBuilder (B256 : Type) where
  bitmap : List UInt8
  bitCount : Nat
  sideNodes : List B256
  length_bitmap : bitmap.length = (bitCount + 7) / 8

/-- {lit}`ProofBuilder::new`. -/
def ProofBuilder.new : ProofBuilder B256 :=
  ⟨[], 0, [], rfl⟩

/-- {lit}`ProofBuilder::push_bit`: zero bytes are added as they are needed, and bits are set from
the most significant one on. -/
def ProofBuilder.pushBit (self : ProofBuilder B256) (value : Bool) : ProofBuilder B256 where
  bitmap := BitPacking.pushBit self.bitmap self.bitCount value
  bitCount := self.bitCount + 1
  sideNodes := self.sideNodes
  length_bitmap := BitPacking.length_pushBit self.length_bitmap

/-- {lit}`ProofBuilder::push_subtree`. -/
def ProofBuilder.pushSubtree [DecidableEq B256] (self : ProofBuilder B256)
    (root emptyRoot : B256) : ProofBuilder B256 :=
  let nonEmpty := root != emptyRoot
  let self := self.pushBit nonEmpty
  if nonEmpty then { self with sideNodes := self.sideNodes ++ [root] } else self

section

variable {B256 : Type} [DecidableEq B256] (self : ProofBuilder B256) (root emptyRoot : B256)

@[simp]
theorem ProofBuilder.pushSubtree_bitmap : (self.pushSubtree root emptyRoot).bitmap =
    BitPacking.pushBit self.bitmap self.bitCount (root != emptyRoot) := by
  unfold ProofBuilder.pushSubtree
  by_cases h : root = emptyRoot <;> simp [h, ProofBuilder.pushBit]

@[simp]
theorem ProofBuilder.pushSubtree_bitCount :
    (self.pushSubtree root emptyRoot).bitCount = self.bitCount + 1 := by
  unfold ProofBuilder.pushSubtree
  by_cases h : root = emptyRoot <;> simp [h, ProofBuilder.pushBit]

@[simp]
theorem ProofBuilder.pushSubtree_sideNodes : (self.pushSubtree root emptyRoot).sideNodes =
    if root = emptyRoot then self.sideNodes else self.sideNodes ++ [root] := by
  unfold ProofBuilder.pushSubtree
  by_cases h : root = emptyRoot <;> simp [h, ProofBuilder.pushBit]

end

/-- Write the subtrees without selected keys, from left to right. -/
def buildProof [DecidableEq B256] (all selected : List (ProofLeaf K L)) (depth : Nat)
    (proof : ProofBuilder B256) : Outcome SparseMerkleError (ProofBuilder B256) :=
  match selected with
  | [] => do
      let root ← subtreeRoot all depth
      let emptyRoot ← emptyHash K depth
      .ok (proof.pushSubtree root emptyRoot)
  | first :: rest =>
      if depth = BITS K then .ok proof
      else if depth < BITS K then do
        let selected := first :: rest
        let allSplit := split all depth
        let selectedSplit := split selected depth
        let proof ← buildProof (all.take allSplit) (selected.take selectedSplit) (depth + 1) proof
        buildProof (all.drop allSplit) (selected.drop selectedSplit) (depth + 1) proof
      else .error .panic
termination_by BITS K - depth

/-! ## Reading a proof -/

/-- What is left of a proof: the position in the bitmap and the side nodes not yet taken. -/
structure ProofReader (B256 : Type) where
  bitmap : List UInt8
  bitIndex : Nat
  sideNodes : List B256

/-- {lit}`SparseMerkleMultiproof::reader`. -/
def SparseMerkleMultiproof.reader (self : SparseMerkleMultiproof B256 K) : ProofReader B256 :=
  ⟨self.siblingBitmap, 0, self.sideNodes⟩

/-- {lit}`ProofReader::missing_subtree`. -/
def ProofReader.missingSubtree (self : ProofReader B256) (emptyRoot : B256) :
    Outcome SparseMerkleError (B256 × ProofReader B256) := do
  Outcome.rejectIf (self.bitIndex ≥ self.bitmap.length * 8) .InvalidMultiproof
  let nonEmpty := BitPacking.readBit self.bitmap self.bitIndex
  let self := { self with bitIndex := self.bitIndex + 1 }
  if nonEmpty then
    match self.sideNodes with
    | node :: sideNodes => .ok (node, { self with sideNodes })
    | [] => .error (.error .InvalidMultiproof)
  else .ok (emptyRoot, self)

/-- {lit}`ProofReader::finish`: all bytes and side nodes were read, and the bits behind the last
one are zero. -/
def ProofReader.finish (self : ProofReader B256) : Outcome SparseMerkleError Unit := do
  let expectedBytes := (self.bitIndex + 7) / 8
  let trailingBitsAreZero ←
    if self.bitIndex % 8 = 0 then .ok true
    else do
      let last ← Outcome.expect self.bitmap[expectedBytes - 1]?
      .ok (last &&& (1 <<< UInt8.ofNat (8 - self.bitIndex % 8)) - 1 == 0)
  Outcome.rejectIf
    (expectedBytes ≠ self.bitmap.length ∨ !trailingBitsAreZero ∨ !self.sideNodes.isEmpty)
    .InvalidMultiproof

/-- The root of the subtree at a depth, from the leaves with selected keys and the proof. -/
def rootFromProof (leaves : List (ProofLeaf K L)) (depth : Nat) (proof : ProofReader B256) :
    Outcome SparseMerkleError (B256 × ProofReader B256) :=
  match leaves with
  | [] => do
      let emptyRoot ← emptyHash K depth
      proof.missingSubtree emptyRoot
  | first :: rest =>
      if depth = BITS K then do
        Outcome.rejectIf ((first :: rest).length ≠ 1) .InvalidMultiproof
        let emptyLeaf ← emptyHash K depth
        .ok (first.hash emptyLeaf, proof)
      else if depth < BITS K then do
        let leaves := first :: rest
        let split := split leaves depth
        let (left, proof) ← rootFromProof (leaves.take split) (depth + 1) proof
        let (right, proof) ← rootFromProof (leaves.drop split) (depth + 1) proof
        .ok (hash (Node.mk left right), proof)
      else .error .panic
termination_by BITS K - depth

/-! ## The tree -/

/-- {lit}`SparseMerkleMultiproof::validate_keys`. -/
def SparseMerkleMultiproof.validateKeys (self : SparseMerkleMultiproof B256 K) :
    Outcome SparseMerkleError Unit :=
  Outcome.rejectIf (self.leafKeys.isEmpty ∨ anyAdjacent (fun a b => a ≥ b) self.leafKeys)
    .InvalidMultiproof

/-- The leaves in key order; duplicate keys are rejected. -/
def leaves (values : List L) : Outcome SparseMerkleError (List (ProofLeaf K L)) := do
  let leaves := sortByKey ProofLeaf.key (values.map ProofLeaf.present)
  Outcome.rejectIf (anyAdjacent (fun a b => a.key = b.key) leaves) .InvalidMultiproof
  .ok leaves

/-- The leaves, which must be in key order already. -/
def orderedLeaves (values : List L) : Outcome SparseMerkleError (List (ProofLeaf K L)) := do
  let leaves := values.map ProofLeaf.present
  Outcome.rejectIf (anyAdjacent (fun a b => a.key ≥ b.key) leaves) .InvalidMultiproof
  .ok leaves

/-- The inner loop of {lit}`select_leaves`: pass the leaves below a key. -/
def skipUnselected (rejectUnselected : Bool) (key : K) :
    List (ProofLeaf K L) → Outcome SparseMerkleError (List (ProofLeaf K L))
  | [] => .ok []
  | leaf :: leaves =>
      if leaf.key < key then
        if rejectUnselected then .error (.error .InvalidMultiproof)
        else skipUnselected rejectUnselected key leaves
      else .ok (leaf :: leaves)

/-- {lit}`select_leaves`, from a position in the leaves on. -/
def selectLeaves (rejectUnselected : Bool) :
    List K → List (ProofLeaf K L) → Outcome SparseMerkleError (List (ProofLeaf K L))
  | [], leaves => do
      Outcome.rejectIf (rejectUnselected ∧ leaves ≠ []) .InvalidMultiproof
      .ok []
  | key :: keys, leaves => do
      let leaves ← skipUnselected rejectUnselected key leaves
      match leaves with
      | [] => do
          let selected ← selectLeaves rejectUnselected keys []
          .ok (ProofLeaf.absent key :: selected)
      | leaf :: rest =>
          if leaf.key = key then do
            let value ← Outcome.expect leaf.value
            let selected ← selectLeaves rejectUnselected keys rest
            .ok (ProofLeaf.present value :: selected)
          else do
            let selected ← selectLeaves rejectUnselected keys (leaf :: rest)
            .ok (ProofLeaf.absent key :: selected)

/-- {lit}`SparseMerkleTree::compute_root`. -/
def computeRoot (values : List L) : Outcome SparseMerkleError B256 := do
  let leaves ← leaves values
  subtreeRoot leaves 0

/-- {lit}`SparseMerkleTree::build_multiproof`. -/
def buildMultiproof [DecidableEq B256] (values : List L) (selectedKeys : List K) :
    Outcome SparseMerkleError (SparseMerkleMultiproof B256 K) := do
  let all ← leaves values
  Outcome.rejectIf selectedKeys.isEmpty .InvalidMultiproof
  let leafKeys := sortByKey id selectedKeys
  Outcome.rejectIf (anyAdjacent (fun a b => a = b) leafKeys) .InvalidMultiproof
  let selected ← selectLeaves false leafKeys all
  let proof ← buildProof all selected 0 ProofBuilder.new
  .ok ⟨leafKeys, proof.bitmap, proof.sideNodes⟩

/-- {lit}`SparseMerkleTree::compute_root_from_proof`. -/
def computeRootFromProof (values : List L) (proof : SparseMerkleMultiproof B256 K) :
    Outcome SparseMerkleError B256 := do
  proof.validateKeys
  let supplied ← orderedLeaves values
  let leaves ← selectLeaves true proof.leafKeys supplied
  let (root, reader) ← rootFromProof leaves 0 proof.reader
  reader.finish
  .ok root

end SparseMerkle

end ZkClob
