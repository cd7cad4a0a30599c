import ZkClob.Trees.PatriciaCombine
import Mathlib.Data.List.Perm.Basic

/-!
# The committed tree

{lit}`build` computes the canonical trie of its leaves.  This module names the
commitment of a trie, shows that a root is the commitment of the canonical trie
over the sorted leaves, and inverts commitments when hashing has no collisions.

Main results:

- Theorem {lit}`Patricia.build_leaves`: {lit}`build` builds the canonical trie.
- Theorem {lit}`Patricia.computeRoot_eq`: the root commits to the canonical trie of
  the leaves in key order.
- Theorem {lit}`Patricia.joined_eq_commit`: only a branch commits like a branch.
-/

namespace ZkClob

open Foundations

namespace Patricia

open BitKey PatriciaLeaf

variable {B256 K L : Type} [Sha256 B256] [PatriciaKey K] [PatriciaLeaf L K]

/-! ## Commitments of tries -/

variable (B256) in
/-- What is committed to about a trie of leaves. -/
def commit : Trie L → Commitment B256 K
  | .leaf value => leaf value
  | .branch depth left right => joined depth (commit left) (commit right)

@[simp]
theorem commit_min (t : Trie L) : (commit B256 t).min = t.minKey key := by
  induction t with
  | leaf a => rfl
  | branch d left right ihl _ => exact ihl

@[simp]
theorem commit_max (t : Trie L) : (commit B256 t).max = t.maxKey key := by
  induction t with
  | leaf a => rfl
  | branch d left right _ ihr => exact ihr

variable (B256) in
/-- The tree in memory for a trie of leaves. -/
def nodeOf : Trie L → Node B256 K
  | .leaf value => .leaf (leaf value)
  | .branch depth left right =>
      .branch (joined depth (commit B256 left) (commit B256 right)) (nodeOf left) (nodeOf right)

@[simp]
theorem commitment_nodeOf (t : Trie L) : (nodeOf B256 t).commitment = some (commit B256 t) := by
  cases t <;> rfl

/-- The commitments of the sides of a canonical branch are joined at its depth. -/
theorem branch_commit {d : Nat} {left right : Trie L}
    (hcan : (Trie.branch d left right).Canonical key)
    (h : SortedBy key (Trie.branch d left right).leaves) :
    branch (commit B256 left) (commit B256 right) =
      .ok (joined d (commit B256 left) (commit B256 right)) := by
  rcases hcan.children h with ⟨hd, hlmin, hlmax, hrmin, hrmax⟩
  exact branch_eq_ok.mpr ⟨d, by simpa using hd, by simpa using hlmin, by simpa using hlmax,
    by simpa using hrmin, by simpa using hrmax, rfl⟩

/-! ## Building -/

/-- One step of {lit}`build`, in terms of the two parts of its leaves. -/
theorem build_append {xs ys : List L} {a b : L} {d : Nat} (hxs : xs ≠ []) (hys : ys ≠ [])
    (hfirst : (xs ++ ys).head? = some a) (hlast : (xs ++ ys).getLast? = some b)
    (hd : differingBit (key a) (key b) = some d) (hzero : ∀ v ∈ xs, bit (key v) d = false)
    (hone : ∀ v ∈ ys, bit (key v) d = true) :
    (build (xs ++ ys) : Outcome PatriciaError (Node B256 K)) = (do
      let left ← build xs
      let right ← build ys
      let leftCommitment ← Outcome.expect left.commitment
      let rightCommitment ← Outcome.expect right.commitment
      let commitment ← branch leftCommitment rightCommitment
      .ok (.branch commitment left right)) := by
  have hsplit : partitionPoint (fun value : L => !bit (key value) d) (xs ++ ys) = xs.length :=
    partitionPoint_append (fun v hv => by simp [hzero v hv]) (fun v hv => by simp [hone v hv])
  have hxlen := List.length_pos_iff.mpr hxs
  have hylen := List.length_pos_iff.mpr hys
  have hlen : (xs ++ ys).length = xs.length + ys.length := List.length_append
  generalize hvalues : xs ++ ys = values at *
  rcases values with _ | ⟨first, _ | ⟨second, rest⟩⟩
  · simp only [List.length_nil] at hlen
    omega
  · simp only [List.length_singleton] at hlen
    omega
  · cases hfirst
    rw [List.getLast?_eq_some_getLast (List.cons_ne_nil _ _), Option.some.injEq] at hlast
    rw [build]
    simp only [hlast, hd, Outcome.okOr, Outcome.ok_bind, hsplit]
    rw [if_neg (by omega), ← hvalues, List.take_left, List.drop_left]

/-- {lit}`build` builds the canonical trie of its leaves. -/
theorem build_leaves {t : Trie L} (hcan : t.Canonical key) (h : SortedBy key t.leaves) :
    build t.leaves = .ok (nodeOf B256 t) := by
  induction t with
  | leaf a =>
      rw [Trie.leaves, build]
      rfl
  | branch d left right ihl ihr =>
      rcases Trie.sorted_branch h with ⟨hl, hr, _⟩
      rcases (Trie.branch d left right).exists_head key with ⟨a, ha, hakey⟩
      rcases (Trie.branch d left right).exists_getLast key with ⟨b, hb, hbkey⟩
      have hbranch : branch (commit B256 left) (commit B256 right) = _ := branch_commit hcan h
      rcases hcan with ⟨hcanl, hcanr, hd, hzero, hone⟩
      have hab : differingBit (key a) (key b) = some d := by
        rw [hakey, hbkey]
        exact hd
      rw [Trie.leaves, build_append left.leaves_ne_nil right.leaves_ne_nil ha hb hab hzero hone,
        ihl hcanl hl, ihr hcanr hr]
      simp only [Outcome.ok_bind, commitment_nodeOf, Outcome.expect_some, hbranch]
      rfl

/-! ## Sorting -/

/-- Sorting succeeds exactly with the leaves in strict key order. -/
theorem sorted_eq_ok_iff {values l : List L} :
    sorted values = .ok l ↔ l.Perm values ∧ SortedBy key l := by
  have hperm := sortByKey_perm key values
  have hsorted := sortByKey_pairwise key values
  simp only [sorted, Outcome.bind_eq_ok, Outcome.rejectIf_eq_ok, Except.ok.injEq, Bool.not_eq_true]
  generalize sortByKey key values = m at hperm hsorted
  constructor
  · rintro ⟨_, hne, rfl⟩
    exact ⟨hperm, SortedBy.of_anyAdjacent_eq hsorted hne⟩
  · rintro ⟨hlperm, hl⟩
    have hnodup : (m.map key).Nodup := ((hlperm.trans hperm.symm).map key).nodup hl.nodup_map
    have hml : m = l :=
      (SortedBy.of_nodup hsorted hnodup).eq_of_perm hl (hperm.trans hlperm.symm)
    subst hml
    exact ⟨(), anyAdjacent_eq_false (hl.imp fun hab => by simpa using hab.ne), rfl⟩

/-- Leaves with distinct keys can be brought into key order. -/
theorem exists_sorted {values : List L} (h : (values.map key).Nodup) :
    ∃ l, sorted values = .ok l ∧ l.Perm values ∧ SortedBy key l := by
  have hperm := sortByKey_perm key values
  have hsorted := sortByKey_pairwise key values
  have hl := SortedBy.of_nodup hsorted ((hperm.map key).nodup_iff.mpr h)
  exact ⟨_, sorted_eq_ok_iff.mpr ⟨hperm, hl⟩, hperm, hl⟩

/-! ## Roots -/

/-- The root of leaves that are the leaves of a canonical trie. -/
theorem computeRoot_leaves {t : Trie L} (hcan : t.Canonical key) (h : SortedBy key t.leaves)
    {values : List L} (hperm : t.leaves.Perm values) :
    computeRoot values = .ok (finalize (some (commit B256 t))) := by
  have hbuild : build t.leaves = .ok (nodeOf B256 t) := build_leaves hcan h
  simp only [computeRoot, sorted_eq_ok_iff.mpr ⟨hperm, h⟩, Outcome.ok_bind, hbuild,
    commitment_nodeOf]

/-- The root of no leaves. -/
theorem computeRoot_nil :
    computeRoot ([] : List L) = .ok (finalize (none : Option (Commitment B256 K))) := by
  have hsorted : sorted ([] : List L) = .ok [] :=
    sorted_eq_ok_iff.mpr ⟨List.Perm.refl _, SortedBy.nil⟩
  simp only [computeRoot, hsorted, Outcome.ok_bind]
  rw [build]
  rfl

variable (B256) in
/-- A set of leaves with distinct keys is empty or has a canonical trie, and its root
is the commitment of that trie. -/
theorem computeRoot_eq {values : List L} (h : (values.map key).Nodup) :
    (values = [] ∧ computeRoot values = .ok (finalize (none : Option (Commitment B256 K)))) ∨
      ∃ t : Trie L, t.Canonical key ∧ SortedBy key t.leaves ∧ t.leaves.Perm values ∧
        computeRoot values = .ok (finalize (some (commit B256 t))) := by
  rcases exists_sorted h with ⟨l, _, hperm, hl⟩
  rcases eq_or_ne l [] with rfl | hne
  · have hnil : values = [] := hperm.symm.eq_nil
    subst hnil
    exact Or.inl ⟨rfl, computeRoot_nil⟩
  · rcases Trie.exists_canonical hl hne with ⟨t, hcan, rfl⟩
    exact Or.inr ⟨t, hcan, hl, hperm, computeRoot_leaves hcan hl hperm⟩

/-- The root does not depend on the order in which the leaves are given. -/
theorem computeRoot_perm {values values' : List L} (h : (values.map key).Nodup)
    (hperm : values.Perm values') :
    (computeRoot values : Outcome PatriciaError B256) = computeRoot values' := by
  rcases computeRoot_eq B256 h with ⟨rfl, hroot⟩ | ⟨t, hcan, hsorted, htperm, hroot⟩
  · rw [hperm.symm.eq_nil]
  · rw [hroot, computeRoot_leaves hcan hsorted (htperm.trans hperm)]

/-! ## Inverting commitments -/

/-- Different domain tags lead to different hashes. -/
theorem hash_ne_of_domain {α β : Type} [DomainSha256Hash α] [DomainSha256Hash β]
    (hfree : CollisionFree B256) (p q : Bytes) (n : Nat) (hp : DomainSha256Hash.domain α = p)
    (hq : DomainSha256Hash.domain β = q)
    (hpq : n ≤ p.length ∧ n ≤ q.length ∧ p.take n ≠ q.take n) (a : α) (b : β) :
    (hash a : B256) ≠ hash b := by
  subst hp hq
  intro h
  exact append_ne_append_of_take_ne n hpq.1 hpq.2.1 hpq.2.2 _ _ (hashInput_eq_of_hash_eq hfree h)

/-- A commitment delimits itself inside a message. -/
theorem commitment_prefixFree :
    PrefixFree (updateHash : Commitment B256 K → Bytes) := by
  have hkey : PrefixFree (updateHash : K → Bytes) := PatriciaKey.updateHash_prefixFree
  have hroot : PrefixFree (Sha256.bytes : B256 → Bytes) := Sha256.bytes_prefixFree
  have h := hroot.append (hkey.append hkey)
  intro a b s t hab
  have hab' : Sha256.bytes a.root ++ (updateHash a.min ++ updateHash a.max) ++ s =
      Sha256.bytes b.root ++ (updateHash b.min ++ updateHash b.max) ++ t := by
    have : Sha256.bytes a.root ++ updateHash a.min ++ updateHash a.max ++ s =
      Sha256.bytes b.root ++ updateHash b.min ++ updateHash b.max ++ t := hab
    simpa using this
  rcases h (a := (a.root, a.min, a.max)) (b := (b.root, b.min, b.max)) hab' with ⟨hfields, hst⟩
  simp only [Prod.mk.injEq] at hfields
  rcases hfields with ⟨hroot, hmin, hmax⟩
  refine ⟨?_, hst⟩
  cases a
  cases b
  simp_all

/-- The empty root is not the root of a node. -/
theorem finalize_none_ne_some (hfree : CollisionFree B256) (c : Commitment B256 K) :
    finalize (none : Option (Commitment B256 K)) ≠ finalize (some c) :=
  hash_ne_of_domain hfree (ascii "ZKCLOB_PATRICIA_EMPTY_V1") (ascii "ZKCLOB_PATRICIA_ROOT_V1")
    17 rfl rfl (by decide) Empty.mk (Root.mk c)

/-- The root of a node determines its commitment. -/
theorem finalize_injective (hfree : CollisionFree B256) {c c' : Commitment B256 K}
    (h : finalize (some c) = finalize (some c')) : c = c' :=
  commitment_prefixFree.injective
    (updateHash_eq_of_hash_eq hfree (show hash (Root.mk c) = hash (Root.mk c') from h))

/-- The hash of a branch determines its sides. -/
theorem branch_hash_injective (hfree : CollisionFree B256) {d e : Nat}
    {left right left' right' : Commitment B256 K}
    (h : (hash (Branch.mk d left right) : B256) = hash (Branch.mk e left' right')) :
    left = left' ∧ right = right' := by
  have hbytes : toBeBytes 8 d ++ updateHash left ++ updateHash right =
      toBeBytes 8 e ++ updateHash left' ++ updateHash right' :=
    updateHash_eq_of_hash_eq hfree h
  simp only [List.append_assoc] at hbytes
  rcases List.append_inj hbytes (by simp) with ⟨_, hsides⟩
  rcases commitment_prefixFree hsides with ⟨hleft, hright⟩
  exact ⟨hleft, commitment_prefixFree.injective hright⟩

/-- Only a branch commits like a branch, and its sides are committed to. -/
theorem joined_eq_commit (hfree : CollisionFree B256) {d : Nat} {left right : Commitment B256 K}
    {t : Trie L} (h : joined d left right = commit B256 t) :
    ∃ e l r, t = Trie.branch e l r ∧ left = commit B256 l ∧ right = commit B256 r := by
  have hroot := congrArg Commitment.root h
  cases t with
  | leaf a =>
      exact absurd hroot (hash_ne_of_domain hfree (ascii "ZKCLOB_PATRICIA_BRANCH_V1")
        (ascii "ZKCLOB_PATRICIA_LEAF_V1") 17 rfl rfl (by decide) (Branch.mk d left right)
        (Leaf.mk a))
  | branch e l r => exact ⟨e, l, r, rfl, branch_hash_injective hfree hroot⟩

/-- Only a leaf commits like a leaf, with the same key and the same hash of its value. -/
theorem leaf_eq_commit (hfree : CollisionFree B256) {value : L} {t : Trie L}
    (h : leaf value = commit B256 t) :
    ∃ value', t = Trie.leaf value' ∧ key value = key value' ∧
      (hash value : B256) = hash value' := by
  have hroot := congrArg Commitment.root h
  cases t with
  | leaf a =>
      have hbytes : updateHash (key value) ++ Sha256.bytes (hash value : B256) =
          updateHash (key a) ++ Sha256.bytes (hash a : B256) :=
        updateHash_eq_of_hash_eq hfree
          (show hash (Leaf.mk value : Leaf B256 L) = hash (Leaf.mk a : Leaf B256 L) from hroot)
      rcases PatriciaKey.updateHash_prefixFree hbytes with ⟨hkey, hvalue⟩
      exact ⟨a, rfl, hkey, Sha256.bytes_prefixFree.injective hvalue⟩
  | branch e l r =>
      exact absurd hroot (hash_ne_of_domain hfree (ascii "ZKCLOB_PATRICIA_LEAF_V1")
        (ascii "ZKCLOB_PATRICIA_BRANCH_V1") 17 rfl rfl (by decide) (Leaf.mk value : Leaf B256 L)
        (Branch.mk e (commit B256 l) (commit B256 r)))

/-- A commitment determines the leaves below it. -/
theorem leaves_eq_of_commit_eq (hfree : CollisionFree B256)
    (hvalue : Function.Injective (updateHash : L → Bytes)) {s t : Trie L}
    (h : commit B256 s = commit B256 t) : s.leaves = t.leaves := by
  induction s generalizing t with
  | leaf a =>
      rcases leaf_eq_commit hfree h with ⟨b, rfl, _, hhash⟩
      rw [hvalue (updateHash_eq_of_hash_eq hfree hhash)]
  | branch d left right ihl ihr =>
      rcases joined_eq_commit hfree h with ⟨e, l, r, rfl, hl, hr⟩
      rw [Trie.leaves, Trie.leaves, ihl hl, ihr hr]

/-- A root determines the set of leaves it commits to. -/
theorem perm_of_computeRoot_eq (hfree : CollisionFree B256)
    (hvalue : Function.Injective (updateHash : L → Bytes)) {A A' : List L}
    (hA : (A.map key).Nodup) (hA' : (A'.map key).Nodup)
    (h : (computeRoot A : Outcome PatriciaError B256) = computeRoot A') : A.Perm A' := by
  rcases computeRoot_eq B256 hA with ⟨rfl, hroot⟩ | ⟨t, _, _, hperm, hroot⟩
  · rcases computeRoot_eq B256 hA' with ⟨rfl, _⟩ | ⟨t', _, _, _, hroot'⟩
    · exact List.Perm.refl _
    · rw [hroot, hroot', Except.ok.injEq] at h
      exact absurd h (finalize_none_ne_some hfree _)
  · rcases computeRoot_eq B256 hA' with ⟨rfl, hroot'⟩ | ⟨t', _, _, hperm', hroot'⟩
    · rw [hroot, hroot', Except.ok.injEq] at h
      exact absurd h.symm (finalize_none_ne_some hfree _)
    · rw [hroot, hroot', Except.ok.injEq] at h
      have hleaves := leaves_eq_of_commit_eq hfree hvalue (finalize_injective hfree h)
      exact hperm.symm.trans (hleaves ▸ hperm')

end Patricia

end ZkClob
