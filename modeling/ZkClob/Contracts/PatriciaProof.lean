import ZkClob.Foundations.SelectionSort
import ZkClob.Settlement.State

/-!
# The membership check of the contract

The escape hatch verifies a single account against the state root.  Instead of the
general reconstruction it folds the side nodes into the leaf, deepest first.  An
address is a number of 160 bits to the contract; its bytes are those of the account
tree.

Main results:

- Theorem {lit}`PatriciaProof.bit_eq`: the shifted number has the bits of the bytes.
- Theorem {lit}`PatriciaProof.differingBit_eq_ok`: the logarithm finds the first
  differing bit.
- Theorem {lit}`PatriciaProof.combine_eq_ok`: a fold step joins two nodes exactly when
  the account tree does.
- Theorem {lit}`PatriciaProof.sortByDepth_spec`: the depths are sorted, or two of them
  are equal and the proof is rejected.
- Theorem {lit}`PatriciaProof.key_order_agrees`: the order of the keys, their bits and the
  first difference are the same to the tree and to the contract.
-/

namespace ZkClob

open Foundations Patricia

/-- The library that the contract takes its logarithm from; {lit}`Math.log2` rounds down. -/
class MathLibrary where
  log2 : U256 → U256
  toNat_log2 : ∀ x : U256, x ≠ 0 → (log2 x).toNat = Nat.log2 x.toNat

/-- The number of 160 bits that an address is. -/
def uint160 (a : Address) : BitVec 160 :=
  BitVec.ofNat 160 a.beValue

namespace PatriciaProof

/-- {lit}`error InvalidProof()`. -/
inductive ProofError where
  | InvalidProof
deriving DecidableEq

/-- {lit}`struct SideNode`. -/
abbrev SideNode (B256 : Type) := PatriciaSubtree B256 Address

/-- {lit}`_bit`: a checked difference, then a shift. -/
def bit (key : Address) (depth : U256) : Outcome ProofError Bool := do
  let shift ← Outcome.expect (FixedWidth.checkedSub 159 depth)
  .ok (((uint160 key).setWidth 256 >>> shift.toNat) &&& 1 == 1)

section

variable [MathLibrary]

/-- {lit}`_differingBit`. -/
def differingBit (a b : Address) : Outcome ProofError U256 := do
  let diff := (uint160 a ^^^ uint160 b).setWidth 256
  Outcome.rejectIf (diff = 0) .InvalidProof
  Outcome.expect (FixedWidth.checkedSub 159 (MathLibrary.log2 diff))

variable {B256 : Type} [Sha256 B256]

/-- {lit}`_combine`. -/
def combine (left right : Commitment B256 Address) :
    Outcome ProofError (Commitment B256 Address) := do
  Outcome.rejectIf (uint160 left.max ≥ uint160 right.min) .InvalidProof
  let depth ← differingBit left.max right.min
  let leftMin ← bit left.min depth
  let leftMax ← bit left.max depth
  let rightMin ← bit right.min depth
  let rightMax ← bit right.max depth
  Outcome.rejectIf (leftMin ∨ leftMax ∨ !rightMin ∨ !rightMax) .InvalidProof
  let root := Sha256.sha256 (ascii "ZKCLOB_PATRICIA_BRANCH_V1" ++ beBytes (depth.setWidth 64) ++
    Sha256.bytes left.root ++ left.min.toList ++ left.max.toList ++
    Sha256.bytes right.root ++ right.min.toList ++ right.max.toList)
  .ok ⟨root, left.min, right.max⟩

variable (B256) in
/-- {lit}`_accountHash`. -/
def accountHash (id : Address) (nextNonce : U64) (balances : List AssetBalance) : B256 :=
  let encoded := ascii "ZKCLOB_ACCOUNT_V1" ++ id.toList ++ beBytes nextNonce ++
    beBytes (BitVec.ofNat 64 balances.length)
  Sha256.sha256 (balances.foldl
    (fun encoded balance => encoded ++ (balance.asset.toList ++ beBytes balance.available)) encoded)

variable (B256) in
/-- {lit}`_leafHash`. -/
def leafHash (id : Address) (nextNonce : U64) (balances : List AssetBalance) : B256 :=
  Sha256.sha256 (ascii "ZKCLOB_PATRICIA_LEAF_V1" ++ id.toList ++
    Sha256.bytes (accountHash B256 id nextNonce balances))

/-- The first loop of {lit}`verifyAccount`: the side nodes have consecutive ranges, none of
which holds the account. -/
def checkSideNodes (id : Address) (previous : Option (SideNode B256)) :
    List (SideNode B256) → Outcome ProofError Unit
  | [] => .ok ()
  | node :: rest => do
      Outcome.rejectIf (uint160 node.minKey > uint160 node.maxKey) .InvalidProof
      Outcome.rejectIf (uint160 node.minKey ≤ uint160 id ∧ uint160 id ≤ uint160 node.maxKey)
        .InvalidProof
      Outcome.rejectIf (previous.any fun p => uint160 p.maxKey ≥ uint160 node.minKey) .InvalidProof
      checkSideNodes id (some node) rest

/-- The depth at which a side node branches off the path of the account. -/
def sideDepth (id : Address) (node : SideNode B256) :
    Outcome ProofError (U256 × SideNode B256) := do
  let boundary := if uint160 node.maxKey < uint160 id then node.maxKey else node.minKey
  let depth ← differingBit id boundary
  .ok (depth, node)

/-- The selection sort of {lit}`verifyAccount`, from a position on: the nodes in the order of
falling depth.  Equal depths are rejected. -/
def sortByDepth (previous : Option U256) :
    List (U256 × SideNode B256) → Outcome ProofError (List (U256 × SideNode B256))
  | [] => .ok []
  | first :: rest => do
      let round := bringMax (fun entry => entry.1.toNat) first rest
      Outcome.rejectIf (previous = some round.1.1) .InvalidProof
      let sorted ← sortByDepth (some round.1.1) round.2
      .ok (round.1 :: sorted)
termination_by l => l.length
decreasing_by simp

/-- One iteration of the last loop of {lit}`verifyAccount`. -/
def foldNode (current : Commitment B256 Address) (entry : U256 × SideNode B256) :
    Outcome ProofError (Commitment B256 Address) :=
  if uint160 entry.2.maxKey < uint160 current.min then combine entry.2.toCommitment current
  else combine current entry.2.toCommitment

/-- {lit}`verifyAccount`: the state root that an account and its side nodes imply. -/
def verifyAccount (id : Address) (nextNonce : U64) (balances : List AssetBalance)
    (sideNodes : List (SideNode B256)) : Outcome ProofError B256 := do
  checkSideNodes id none sideNodes
  let entries ← sideNodes.mapM (sideDepth id)
  let order ← sortByDepth none entries
  let current ← order.foldlM foldNode ⟨leafHash B256 id nextNonce balances, id, id⟩
  .ok (Sha256.sha256 (ascii "ZKCLOB_PATRICIA_ROOT_V1" ++ Sha256.bytes current.root ++
    current.min.toList ++ current.max.toList))

end

section

/-! ## Addresses as numbers -/

@[simp]
theorem toNat_uint160 (a : Address) : (uint160 a).toNat = a.beValue := by
  have hlt := a.beValue_lt
  rw [uint160, BitVec.toNat_ofNat, Nat.mod_eq_of_lt]
  calc
    a.beValue < 256 ^ 20 := hlt
    _ = 2 ^ 160 := by norm_num

@[simp]
theorem toNat_uint256 (a : Address) : ((uint160 a).setWidth 256).toNat = a.beValue := by
  rw [BitVec.toNat_setWidth, toNat_uint160, Nat.mod_eq_of_lt]
  exact a.beValue_lt.trans (by norm_num)

theorem uint160_lt {a b : Address} : uint160 a < uint160 b ↔ a < b := by
  rw [BitVec.lt_def, toNat_uint160, toNat_uint160, FixedBytes.lt_iff_beValue_lt]

theorem uint160_le {a b : Address} : uint160 a ≤ uint160 b ↔ a ≤ b := by
  rw [← not_lt, ← uint160_lt, BitVec.not_lt]

/-- The shifted number has the bits of the bytes. -/
theorem bit_eq (key : Address) {depth : U256} (h : depth.toNat < 160) :
    bit key depth = .ok (BitKey.bit key depth.toNat) := by
  obtain ⟨shift, hshift, hval⟩ : ∃ shift, FixedWidth.checkedSub (159 : U256) depth = some shift ∧
      shift.toNat = 159 - depth.toNat := by
    have h159 : (159 : U256).toNat = 159 := rfl
    refine ⟨BitVec.ofNat 256 (159 - depth.toNat), ?_, ?_⟩
    · rw [FixedWidth.checkedSub, if_pos (by omega), h159]
    · rw [BitVec.toNat_ofNat, Nat.mod_eq_of_lt (by omega)]
  have hkey : BitKey.bit key depth.toNat = key.beValue.testBit (159 - depth.toNat) :=
    FixedBytes.bit_eq_testBit key (by omega)
  rw [bit, hshift, Outcome.expect_some, Outcome.ok_bind, hkey, hval]
  congr 1
  rw [Nat.testBit_eq_decide_div_mod_eq, Bool.eq_iff_iff, beq_iff_eq, decide_eq_true_eq,
    ← BitVec.toNat_inj, BitVec.toNat_and, BitVec.toNat_ushiftRight, toNat_uint256,
    Nat.shiftRight_eq_div_pow]
  rw [show (1 : BitVec 256).toNat = 1 from rfl, Nat.and_one_is_mod]

/-- Bits that agree and differ, read off the exclusive or. -/
theorem testBit_xor (a b : Address) {i : Nat} (hi : i < 160) :
    (a.beValue ^^^ b.beValue).testBit (159 - i) = true ↔ BitKey.bit a i ≠ BitKey.bit b i := by
  have hbit : ∀ c : Address, BitKey.bit c i = c.beValue.testBit (159 - i) :=
    fun c => FixedBytes.bit_eq_testBit c (by omega)
  rw [Nat.testBit_xor, hbit, hbit, bne_iff_ne]

variable {B256 : Type} [Sha256 B256]

/-- The bytes hashed for a branch are those of the account tree. -/
theorem branch_bytes {left right : Commitment B256 Address} {depth : U256} (h : depth.toNat < 160) :
    Sha256.sha256 (ascii "ZKCLOB_PATRICIA_BRANCH_V1" ++ beBytes (depth.setWidth 64) ++
      Sha256.bytes left.root ++ left.min.toList ++ left.max.toList ++
      Sha256.bytes right.root ++ right.min.toList ++ right.max.toList) =
    (hash (Branch.mk depth.toNat left right) : B256) := by
  have hdepth : beBytes (depth.setWidth 64) = toBeBytes 8 depth.toNat := by
    rw [beBytes, BitVec.toNat_setWidth, Nat.mod_eq_of_lt (by omega)]
  change _ = Sha256.sha256 (ascii "ZKCLOB_PATRICIA_BRANCH_V1" ++ (toBeBytes 8 depth.toNat ++
    (Sha256.bytes left.root ++ left.min.toList ++ left.max.toList) ++
    (Sha256.bytes right.root ++ right.min.toList ++ right.max.toList)))
  rw [hdepth]
  simp only [List.append_assoc]

section

variable [MathLibrary]

/-- The logarithm finds the first differing bit; only equal addresses have none. -/
theorem differingBit_eq_ok {a b : Address} {depth : U256} :
    differingBit a b = .ok depth ↔ BitKey.differingBit a b = some depth.toNat := by
  have hdiff : ((uint160 a ^^^ uint160 b).setWidth 256).toNat = a.beValue ^^^ b.beValue := by
    rw [BitVec.toNat_setWidth, BitVec.toNat_xor, toNat_uint160, toNat_uint160, Nat.mod_eq_of_lt]
    have hpow : ∀ c : Address, c.beValue < 2 ^ 256 := fun c =>
      c.beValue_lt.trans (by norm_num)
    exact Nat.xor_lt_two_pow (hpow a) (hpow b)
  rcases eq_or_ne a b with rfl | hne
  · rw [BitKey.differingBit_self]
    simp [differingBit, Outcome.bind_eq_ok, Outcome.rejectIf_eq_ok]
  · have hvalue : a.beValue ^^^ b.beValue ≠ 0 := fun h0 =>
      hne (FixedBytes.beValue_injective (Nat.xor_eq_zero_iff.mp h0))
    have hzero : ¬ ((uint160 a ^^^ uint160 b).setWidth 256) = 0 := fun h0 => by
      rw [FixedWidth.eq_zero_iff, hdiff] at h0
      exact hvalue h0
    have hlog := MathLibrary.toNat_log2 _ hzero
    rw [hdiff] at hlog
    have hpow : ∀ c : Address, c.beValue < 2 ^ 160 := fun c => by
      have := c.beValue_lt
      rwa [show 256 ^ 20 = 2 ^ 160 by norm_num] at this
    have hbound : (a.beValue ^^^ b.beValue).log2 < 160 :=
      (Nat.log2_lt hvalue).mpr (Nat.xor_lt_two_pow (hpow a) (hpow b))
    have hfirst : BitKey.differingBit a b = some (159 - (a.beValue ^^^ b.beValue).log2) := by
      refine BitKey.differingBit_eq_some.mpr ⟨?_, fun i hi => ?_, ?_⟩
      · change _ < 8 * 20
        omega
      · -- above the highest differing digit the numbers agree
        by_contra hbit
        have htest := (testBit_xor a b (by omega)).mpr hbit
        have hle := Nat.testBit_lt_two_pow (x := a.beValue ^^^ b.beValue) (i := 159 - i)
          (Nat.lt_of_lt_of_le Nat.lt_log2_self (Nat.pow_le_pow_right (by norm_num) (by omega)))
        rw [hle] at htest
        cases htest
      · refine (testBit_xor a b (by omega)).mp ?_
        rw [show 159 - (159 - (a.beValue ^^^ b.beValue).log2) =
          (a.beValue ^^^ b.beValue).log2 by omega]
        exact Nat.testBit_log2 hvalue
    have h159 : (159 : U256).toNat = 159 := rfl
    simp only [differingBit, Outcome.rejectIf, if_neg hzero, Outcome.ok_bind, Outcome.expect_eq_ok,
      FixedWidth.checkedSub_eq_some, hlog, h159, hfirst, Option.some.injEq]
    omega

/-- A fold step joins two nodes exactly when the account tree does. -/
theorem combine_eq_ok {left right c : Commitment B256 Address} :
    combine left right = .ok c ↔ branch left right = .ok c := by
  have hbits : ∀ {depth : U256}, BitKey.differingBit left.max right.min = some depth.toNat →
      depth.toNat < 160 := fun hd => BitKey.differingBit_lt_bits hd
  rw [branch_eq_ok]
  simp only [combine, Outcome.bind_eq_ok, Outcome.rejectIf_eq_ok, differingBit_eq_ok,
    Except.ok.injEq, not_or, Bool.not_eq_true, Bool.not_eq_eq_eq_not, Bool.not_true]
  constructor
  · rintro ⟨_, _, depth, hd, lmin, hlmin, lmax, hlmax, rmin, hrmin, rmax, hrmax, _, hends, rfl⟩
    have hlt := hbits hd
    rw [bit_eq _ hlt, Except.ok.injEq] at hlmin hlmax hrmin hrmax
    refine ⟨depth.toNat, hd, hlmin ▸ hends.1, hlmax ▸ hends.2.1, ?_, ?_, ?_⟩
    · simpa [hrmin] using hends.2.2.1
    · simpa [hrmax] using hends.2.2.2
    · rw [joined, branch_bytes hlt]
  · rintro ⟨d, hd, hlmin, hlmax, hrmin, hrmax, rfl⟩
    have hlt160 : d < 160 := BitKey.differingBit_lt_bits hd
    have hdepth : (BitVec.ofNat 256 d).toNat = d := by
      rw [BitVec.toNat_ofNat, Nat.mod_eq_of_lt (by omega)]
    have hlt : left.max < right.min :=
      BitKey.lt_of_bit (BitKey.differingBit_lt_bits hd)
        (BitKey.agreeBelow_of_differingBit hd) hlmax hrmin
    have hbit : ∀ key : Address, bit key (BitVec.ofNat 256 d) = .ok (BitKey.bit key d) := by
      intro key
      rw [bit_eq key (by omega), hdepth]
    refine ⟨(), ?_, BitVec.ofNat 256 d, by rw [hdepth]; exact hd, _, hbit _, _, hbit _,
      _, hbit _, _,
      hbit _, (), ?_, ?_⟩
    · rw [ge_iff_le, uint160_le, not_le]
      exact hlt
    · simp [hlmin, hlmax, hrmin, hrmax]
    · rw [branch_bytes (by omega), hdepth, joined]

end

/-! ## Hashes -/

/-- The hash of an account is that of the account tree. -/
theorem leafHash_eq (a : Account) :
    leafHash B256 a.id a.nextNonce a.balances = (leaf a : Commitment B256 Address).root := by
  have hfold : ∀ (balances : List AssetBalance) (encoded : Bytes),
      balances.foldl (fun encoded balance =>
        encoded ++ (balance.asset.toList ++ beBytes balance.available)) encoded =
      encoded ++ balances.flatMap updateHash := by
    intro balances
    induction balances with
    | nil => simp
    | cons balance balances ih =>
        intro encoded
        rw [List.foldl_cons, ih, List.flatMap_cons, List.append_assoc]
        rfl
  have haccount : accountHash B256 a.id a.nextNonce a.balances = hash a := by
    change Sha256.sha256 _ = Sha256.sha256 (ascii "ZKCLOB_ACCOUNT_V1" ++ (a.id.toList ++
      beBytes a.nextNonce ++ toBeBytes 8 a.balances.length ++ a.balances.flatMap updateHash))
    rw [hfold, beBytes_ofNat (by norm_num)]
    simp only [List.append_assoc]
  rw [leafHash, haccount, List.append_assoc]
  rfl

/-- The state root is hashed as in the account tree. -/
theorem root_bytes (c : Commitment B256 Address) :
    Sha256.sha256 (ascii "ZKCLOB_PATRICIA_ROOT_V1" ++ Sha256.bytes c.root ++ c.min.toList ++
      c.max.toList) = finalize (some c) := by
  simp only [List.append_assoc]
  change _ = Sha256.sha256 (ascii "ZKCLOB_PATRICIA_ROOT_V1" ++
    (Sha256.bytes c.root ++ c.min.toList ++ c.max.toList))
  simp only [List.append_assoc]

end

/-! ## The order of the side nodes -/

variable {B256 : Type}

/-- What the first loop checks: consecutive ranges that do not hold the account. -/
theorem checkSideNodes_eq_ok {id : Address} {previous : Option (SideNode B256)}
    {sides : List (SideNode B256)} :
    checkSideNodes id previous sides = .ok () ↔
      Ordered (sides.map PatriciaSubtree.toCommitment) ∧
        (∀ n ∈ sides, ¬ (n.minKey ≤ id ∧ id ≤ n.maxKey)) ∧
        ∀ p ∈ previous, ∀ n ∈ sides, p.maxKey < n.minKey := by
  induction sides generalizing previous with
  | nil =>
      simp only [checkSideNodes, List.map_nil, List.not_mem_nil, false_implies, implies_true,
        and_true, true_iff]
      exact ⟨by simp, List.Pairwise.nil⟩
  | cons node rest ih =>
      simp only [checkSideNodes, Outcome.bind_eq_ok, Outcome.rejectIf_eq_ok, ih, uint160_le,
        gt_iff_lt, uint160_lt, ge_iff_le, not_lt, Bool.not_eq_true, Option.any_eq_false,
        decide_eq_false_iff_not, not_le]
      constructor
      · rintro ⟨_, hle, _, hoff, _, hprevious, hrest, hrestoff, hnext⟩
        have hnext : ∀ n ∈ rest, node.maxKey < n.minKey := hnext node rfl
        refine ⟨⟨?_, ?_⟩, ?_, ?_⟩
        · simpa using ⟨hle, fun n hn => hrest.le n.toCommitment (List.mem_map_of_mem hn)⟩
        · refine List.pairwise_cons.mpr ⟨?_, hrest.lt⟩
          simpa [PatriciaSubtree.toCommitment] using hnext
        · simpa only [List.forall_mem_cons] using ⟨hoff, hrestoff⟩
        · intro p hp n hn
          rcases List.mem_cons.mp hn with rfl | hn
          · exact hprevious p hp
          · exact ((hprevious p hp).trans_le hle).trans (hnext n hn)
      · rintro ⟨hordered, hoff, hprevious⟩
        refine ⟨(), hordered.le node.toCommitment (by simp), (), hoff node (by simp), (),
          fun p hp => hprevious p hp node (by simp), hordered.tail,
          fun n hn => hoff n (by simp [hn]), ?_⟩
        intro p hp n hn
        cases hp
        exact (List.pairwise_cons.mp hordered.lt).1 n.toCommitment (List.mem_map_of_mem hn)

/-- The depth at which a node branches off the path of a key. -/
def branchDepth (id : Address) (node : SideNode B256) : Option Nat :=
  BitKey.differingBit id (if node.maxKey < id then node.maxKey else node.minKey)

/-- The depth found for a side node. -/
theorem sideDepth_eq_ok [MathLibrary] {id : Address} {node : SideNode B256}
    {entry : U256 × SideNode B256} :
    sideDepth id node = .ok entry ↔ branchDepth id node = some entry.1.toNat ∧ entry.2 = node := by
  simp only [sideDepth, uint160_lt, Outcome.bind_eq_ok, differingBit_eq_ok, Except.ok.injEq,
    branchDepth]
  constructor
  · rintro ⟨depth, hdepth, rfl⟩
    exact ⟨hdepth, rfl⟩
  · rintro ⟨hdepth, rfl⟩
    exact ⟨entry.1, hdepth, rfl⟩

/-- Entries in the order of falling depth. -/
def Falling (entries : List (U256 × SideNode B256)) : Prop :=
  entries.Pairwise fun a b => b.1.toNat < a.1.toNat

/-- Only one order of the entries is falling. -/
theorem Falling.eq_of_perm {l m : List (U256 × SideNode B256)} (hl : Falling l) (hm : Falling m)
    (h : l.Perm m) : l = m :=
  h.eq_of_pairwise (fun _ _ _ _ hab hba => absurd (hab.trans hba) (lt_irrefl _)) hl hm

/-- One round of the sort. -/
theorem sortByDepth_cons {previous : Option U256} {first : U256 × SideNode B256}
    {rest order : List (U256 × SideNode B256)} :
    sortByDepth previous (first :: rest) = .ok order ↔
      ∃ deepest others sorted, (deepest :: others).Perm (first :: rest) ∧
        bringMax (fun entry => entry.1.toNat) first rest = (deepest, others) ∧
        previous ≠ some deepest.1 ∧ (∀ e ∈ others, e.1.toNat ≤ deepest.1.toNat) ∧
        sortByDepth (some deepest.1) others = .ok sorted ∧ order = deepest :: sorted := by
  have hperm := bringMax_perm (fun entry : U256 × SideNode B256 => entry.1.toNat) first rest
  have hmax := le_bringMax (fun entry : U256 × SideNode B256 => entry.1.toNat) first rest
  rw [sortByDepth]
  generalize bringMax (fun entry : U256 × SideNode B256 => entry.1.toNat) first rest = round at *
  rcases round with ⟨deepest, others⟩
  simp only [Outcome.bind_eq_ok, Outcome.rejectIf_eq_ok, Except.ok.injEq]
  constructor
  · rintro ⟨_, hne, sorted, hsorted, rfl⟩
    exact ⟨deepest, others, sorted, hperm, rfl, hne,
      fun e he => hmax e (hperm.mem_iff.mp (List.mem_cons_of_mem _ he)), hsorted, rfl⟩
  · rintro ⟨_, _, sorted, _, heq, hne, _, hsorted, rfl⟩
    cases heq
    exact ⟨(), hne, sorted, hsorted, rfl⟩

/-- A sort that succeeds gives the falling order. -/
theorem sortByDepth_spec {previous : Option U256} {entries order : List (U256 × SideNode B256)}
    (h : sortByDepth previous entries = .ok order)
    (hprevious : ∀ p ∈ previous, ∀ e ∈ entries, e.1.toNat ≤ p.toNat) :
    order.Perm entries ∧ Falling order ∧ ∀ p ∈ previous, ∀ e ∈ order, e.1.toNat < p.toNat := by
  induction hlen : entries.length generalizing previous entries order with
  | zero =>
      rw [List.length_eq_zero_iff] at hlen
      subst hlen
      rw [sortByDepth] at h
      cases h
      exact ⟨List.Perm.refl _, List.Pairwise.nil, by simp⟩
  | succ n ih =>
      rcases List.exists_cons_of_length_eq_add_one hlen with ⟨first, rest, rfl⟩
      rcases sortByDepth_cons.mp h with ⟨deepest, others, sorted, hperm, _, hne, hmax, hsorted, rfl⟩
      have hlength : others.length = n := by simpa [hlen] using hperm.length_eq
      obtain ⟨hrest, hfalling, hbelow⟩ := ih hsorted
        (fun p hp e he => by cases hp; exact hmax e he) hlength
      have hbelow : ∀ e ∈ sorted, e.1.toNat < deepest.1.toNat := hbelow deepest.1 rfl
      refine ⟨(hrest.cons _).trans hperm, List.pairwise_cons.mpr ⟨hbelow, hfalling⟩, ?_⟩
      intro p hp
      have hlt : deepest.1.toNat < p.toNat := by
        refine lt_of_le_of_ne (hprevious p hp deepest (hperm.mem_iff.mp (by simp))) fun heq => ?_
        cases hp
        exact hne (congrArg some (BitVec.eq_of_toNat_eq heq.symm))
      exact List.forall_mem_cons.mpr ⟨hlt, fun e he => (hbelow e he).trans hlt⟩

/-- Entries of different depths are sorted. -/
theorem exists_sortByDepth {previous : Option U256} {entries : List (U256 × SideNode B256)}
    (hprevious : ∀ p ∈ previous, ∀ e ∈ entries, e.1 ≠ p)
    (hnodup : (entries.map Prod.fst).Nodup) :
    ∃ order, sortByDepth previous entries = .ok order := by
  induction hlen : entries.length generalizing previous entries with
  | zero =>
      rw [List.length_eq_zero_iff] at hlen
      subst hlen
      exact ⟨[], by rw [sortByDepth]⟩
  | succ n ih =>
      rcases List.exists_cons_of_length_eq_add_one hlen with ⟨first, rest, rfl⟩
      have hperm := bringMax_perm (fun entry : U256 × SideNode B256 => entry.1.toNat) first rest
      have hmax := le_bringMax (fun entry : U256 × SideNode B256 => entry.1.toNat) first rest
      cases hround : bringMax (fun entry : U256 × SideNode B256 => entry.1.toNat) first rest with
      | mk deepest others =>
          rw [hround] at hperm hmax
          have hdistinct := (hperm.map Prod.fst).nodup_iff.mpr hnodup
          rcases List.nodup_cons.mp hdistinct with ⟨hout, hothers⟩
          have hnext : ∀ p ∈ some deepest.1, ∀ e ∈ others, e.1 ≠ p := by
            intro p hp e he heq
            cases hp
            exact hout (List.mem_map.mpr ⟨e, he, heq⟩)
          rcases ih hnext hothers (by simpa [hlen] using hperm.length_eq) with ⟨sorted, hsorted⟩
          refine ⟨deepest :: sorted, sortByDepth_cons.mpr ⟨deepest, others, sorted, hperm, hround,
            fun hp => ?_, fun e he => hmax e (hperm.mem_iff.mp (List.mem_cons_of_mem _ he)),
            hsorted, rfl⟩⟩
          exact hprevious deepest.1 hp deepest (hperm.mem_iff.mp (by simp)) rfl

/-! ## Both languages -/

/-- Addresses differ somewhere, and the contract finds the place. -/
theorem exists_differingBit [MathLibrary] {a b : Address} (h : a ≠ b) :
    ∃ depth : U256, differingBit a b = .ok depth ∧
      BitKey.differingBit a b = some depth.toNat := by
  cases hd : BitKey.differingBit a b with
  | none => exact absurd (BitKey.differingBit_eq_none.mp hd) h
  | some d =>
      have hlt : d < 8 * 20 := BitKey.differingBit_lt_bits hd
      have hdepth : (BitVec.ofNat 256 d).toNat = d := by
        rw [BitVec.toNat_ofNat, Nat.mod_eq_of_lt (by omega)]
      refine ⟨BitVec.ofNat 256 d, differingBit_eq_ok.mpr ?_, ?_⟩
      · rw [hdepth, hd]
      · rw [hdepth]

/-- Both languages agree on their keys: the order of the bytes is decided by the bit in which
two keys first differ, the keys between two keys share the bits in front of it, and the contract
compares addresses, reads their bits and finds that bit as the tree does. -/
theorem key_order_agrees [MathLibrary] :
    (∀ (N : Nat) (a b : FixedBytes N),
      (a < b ↔ ∃ d, BitKey.differingBit a b = some d ∧ a.bit d = false ∧ b.bit d = true) ∧
      ∀ d, BitKey.differingBit a b = some d → ∀ x, a ≤ x ∧ x ≤ b ∨ b ≤ x ∧ x ≤ a →
        ∀ i < d, x.bit i = a.bit i ∧ x.bit i = b.bit i) ∧
    ∀ a b : Address, a ≠ b →
      (uint160 a < uint160 b ↔ a < b) ∧
      (∀ depth : U256, depth.toNat < 160 → bit a depth = .ok (a.bit depth.toNat)) ∧
      ∃ depth : U256, differingBit a b = .ok depth ∧
        BitKey.differingBit a b = some depth.toNat := by
  constructor
  · intro N a b
    refine ⟨BitKey.lt_iff_differingBit, fun d hd x hx i hi => ?_⟩
    have hbits := BitKey.differingBit_lt_bits hd
    have hab := BitKey.agreeBelow_of_differingBit hd
    rcases hx with hx | hx
    · have hax := hab.of_between hbits.le hx.1 hx.2
      exact ⟨(hax i hi).symm, (hax i hi).symm.trans (hab i hi)⟩
    · have hbx := hab.symm.of_between hbits.le hx.1 hx.2
      exact ⟨(hbx i hi).symm.trans (hab i hi).symm, (hbx i hi).symm⟩
  · intro a b hne
    exact ⟨uint160_lt, fun depth hdepth => bit_eq a hdepth, exists_differingBit hne⟩

/-- {lit}`Math.log2` as the library computes it. -/
@[reducible]
def testMathLibrary : MathLibrary where
  log2 x := BitVec.ofNat 256 (Nat.log2 x.toNat)
  toNat_log2 x _ := by
    rw [BitVec.toNat_ofNat, Nat.mod_eq_of_lt]
    exact (Nat.log2_le_self _).trans_lt x.isLt

/-- Two addresses that the contract tells apart at their third bit. -/
theorem key_order_agrees_addresses :
    let a : Address := FixedBytes.replicate 20 5
    let b : Address := FixedBytes.replicate 20 60
    (a < b ↔ ∃ d, BitKey.differingBit a b = some d ∧ a.bit d = false ∧ b.bit d = true) ∧
      (uint160 a < uint160 b ↔ a < b) ∧
      ∃ depth : U256, @differingBit testMathLibrary a b = .ok depth ∧
        BitKey.differingBit a b = some depth.toNat ∧ depth.toNat = 2 := by
  intro a b
  have hfirst : BitKey.differingBit a b = some 2 := by decide +kernel
  have h := @key_order_agrees testMathLibrary
  rcases h.2 a b (by decide) with ⟨hnumbers, _, depth, hdepth, hbit⟩
  refine ⟨(h.1 20 a b).1, hnumbers, depth, hdepth, hbit, ?_⟩
  rw [hbit] at hfirst
  exact Option.some.inj hfirst

end PatriciaProof

end ZkClob
