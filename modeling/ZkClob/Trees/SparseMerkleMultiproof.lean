import ZkClob.Trees.SparseMerkleProof

/-!
# Multiproofs of the sparse Merkle tree

Main results:

- Theorem {lit}`sparse_multiproof_complete`: every update of the selected leaves is
  reconstructed from an honest proof.
- Theorem {lit}`sparse_multiproof_sound`: a proof accepted against the root of a leaf
  set presents exactly the leaves whose keys it lists.
-/

namespace ZkClob

open Foundations

namespace SparseMerkle

open BitKey SparseMerkleLeaf EmptyHashes

variable {B256 K L : Type} [Sha256 B256] [EmptyHashes B256] [SparseMerkleKey K]
  [SparseMerkleLeaf L K]

/-! ## Committed leaves -/

section

variable {values : List L} {keys : List K}

/-- The values in key order, as leaves. -/
def sortedLeaves (values : List L) : List (ProofLeaf K L) :=
  (sortByKey key values).map ProofLeaf.present

theorem sorted_sortByKey (hnodup : (values.map key).Nodup) :
    SortedBy key (sortByKey key values) :=
  SortedBy.of_nodup (sortByKey_pairwise _ _)
    (((sortByKey_perm key values).map key).nodup_iff.mpr hnodup)

theorem sorted_present (hsorted : SortedBy key values) :
    SortedBy ProofLeaf.key (values.map ProofLeaf.present) :=
  List.pairwise_map.mpr hsorted

theorem sorted_lookup (hsorted : SortedBy id keys) :
    SortedBy ProofLeaf.key (keys.map (lookup values)) :=
  List.pairwise_map.mpr hsorted

/-- Values with distinct keys are put in order. -/
theorem leaves_eq_ok (hnodup : (values.map key).Nodup) :
    leaves values = .ok (sortedLeaves values) := by
  have hsort : sortByKey ProofLeaf.key (values.map ProofLeaf.present) =
      (sortedLeaves values : List (ProofLeaf K L)) :=
    (List.map_insertionSort (fun a b : L => key a ≤ key b)
      (fun a b : ProofLeaf K L => a.key ≤ b.key) ProofLeaf.present values
      fun _ _ _ _ => Iff.rfl).symm
  have hadjacent : anyAdjacent (fun a b => a.key = b.key)
      (sortedLeaves values : List (ProofLeaf K L)) = false :=
    anyAdjacent_eq_false ((sorted_present (sorted_sortByKey hnodup)).imp fun hab => by
      simpa using hab.ne)
  rw [leaves, hsort, Outcome.rejectIf, if_neg (by simp [hadjacent])]
  rfl

/-- Values that are in order already are accepted. -/
theorem orderedLeaves_eq_ok {leaves : List (ProofLeaf K L)} :
    orderedLeaves values = .ok leaves ↔
      SortedBy key values ∧ leaves = values.map ProofLeaf.present := by
  have hadjacent : anyAdjacent (fun a b => a.key ≥ b.key)
      (values.map (ProofLeaf.present : L → ProofLeaf K L)) = false ↔ SortedBy key values := by
    rw [anyAdjacent_map]
    exact ⟨SortedBy.of_anyAdjacent_ge, SortedBy.anyAdjacent_ge⟩
  simp only [orderedLeaves, Outcome.bind_eq_ok, Outcome.rejectIf_eq_ok, Bool.not_eq_true, hadjacent,
    Except.ok.injEq]
  constructor
  · intro h
    obtain ⟨_, hsorted, rfl⟩ := h
    exact ⟨hsorted, rfl⟩
  · intro h
    exact ⟨(), h.1, h.2.symm⟩

theorem mem_sortedLeaves {leaf : ProofLeaf K L} :
    leaf ∈ sortedLeaves values ↔ ∃ v ∈ values, ProofLeaf.present v = leaf := by
  simp [sortedLeaves, (sortByKey_perm key values).mem_iff]

/-- The committed leaf of a key. -/
theorem slot_index (hnodup : (values.map key).Nodup) (k : K) :
    slot (sortedLeaves values) (index k) = ((lookup values k).hash (emptyLeaf B256) : B256) := by
  have hin := InSubtree.whole (sorted_present (sorted_sortByKey hnodup))
  cases hfind : values.find? fun v => key v = k with
  | none =>
      have hlookup : lookup values k = ProofLeaf.absent k := by rw [lookup, hfind]; rfl
      rw [hlookup]
      refine CompleteTree.override_of_not_mem fun hmem => ?_
      simp only [List.mem_map, exists_exists_and_eq_and] at hmem
      obtain ⟨leaf, hleaf, hindex⟩ := hmem
      obtain ⟨v, hv, rfl⟩ := mem_sortedLeaves.mp hleaf
      exact List.find?_eq_none.mp hfind v hv (decide_eq_true (index_injective hindex))
  | some v =>
      have hkey : key v = k := by simpa using List.find?_some hfind
      have hleaf : ProofLeaf.present v ∈ (sortedLeaves values : List (ProofLeaf K L)) :=
        mem_sortedLeaves.mpr ⟨v, List.mem_of_find?_eq_some hfind, rfl⟩
      have hlookup : lookup values k = ProofLeaf.present v := by
        rw [lookup, hfind, ProofLeaf.present, hkey]
      rw [hlookup, ← hkey]
      exact CompleteTree.override_of_mem hin.nodup (List.mem_map_of_mem hleaf)

/-- A number that is no key has the empty leaf. -/
theorem slot_of_forall_ne {i : Nat} (hi : ∀ k : K, index k ≠ i) :
    slot (sortedLeaves values) i = emptyLeaf B256 := by
  refine CompleteTree.override_of_not_mem fun hmem => ?_
  simp only [List.mem_map, exists_exists_and_eq_and] at hmem
  obtain ⟨leaf, _, hindex⟩ := hmem
  exact hi leaf.key hindex

end

/-! ## Roots -/

section

variable {values : List L} {proof : SparseMerkleMultiproof B256 K} {root : B256}

/-- The root of a leaf set. -/
theorem computeRoot_eq_ok (hbits : BITS K ≤ 160) (htable : EmptyHashes.Recurrent B256)
    (hnodup : (values.map key).Nodup) :
    computeRoot values =
      .ok (CompleteTree.root join (slot (sortedLeaves values)) (BITS K) 0 : B256) := by
  rw [computeRoot, leaves_eq_ok hnodup, Outcome.ok_bind]
  exact subtreeRoot_eq_ok hbits htable
    (InSubtree.whole (sorted_present (sorted_sortByKey hnodup)))

/-- With keys of any length, a root that is computed is that one. -/
theorem eq_of_computeRoot (htable : EmptyHashes.Recurrent B256) (hnodup : (values.map key).Nodup)
    (hroot : computeRoot values = .ok root) :
    root = CompleteTree.root join (slot (sortedLeaves values)) (BITS K) 0 := by
  rw [computeRoot, leaves_eq_ok hnodup, Outcome.ok_bind] at hroot
  exact subtreeRoot_eq htable
    (InSubtree.whole (sorted_present (sorted_sortByKey hnodup))) hroot

/-- The verifier, as a walk over the complete tree. -/
theorem computeRootFromProof_eq_ok :
    computeRootFromProof values proof = .ok root ↔
      (proof.leafKeys ≠ [] ∧ SortedBy id proof.leafKeys ∧ SortedBy key values ∧
        ∀ v ∈ values, key v ∈ proof.leafKeys) ∧
      ∃ reader, CompleteTree.rebuild join (ProofReader.next K) .InvalidMultiproof (BITS K) 0
          ((proof.leafKeys.map (lookup values)).map ProofLeaf.entry) proof.reader =
            .ok (root, reader) ∧ reader.finish = .ok () := by
  have hvalid : proof.validateKeys = .ok () ↔
      proof.leafKeys ≠ [] ∧ SortedBy id proof.leafKeys := by
    rw [SparseMerkleMultiproof.validateKeys, Outcome.rejectIf_eq_ok, not_or, Bool.not_eq_true,
      Bool.not_eq_true, List.isEmpty_eq_false_iff]
    exact and_congr_right fun _ => ⟨SortedBy.of_anyAdjacent_ge, SortedBy.anyAdjacent_ge⟩
  simp only [computeRootFromProof, Outcome.bind_eq_ok, orderedLeaves_eq_ok, Except.ok.injEq]
  constructor
  · intro h
    obtain ⟨⟨⟩, hkeys, _, ⟨hvalues, rfl⟩, leaves, hselect, ⟨root', reader⟩, hroot, ⟨⟩, hfinish,
      rfl⟩ := h
    obtain ⟨hne, hkeys⟩ := hvalid.mp hkeys
    rw [selectLeaves_eq hkeys hvalues] at hselect
    split at hselect
    · cases hselect
    · rename_i hall
      cases hselect
      rw [rootFromProof_eq (InSubtree.whole (sorted_lookup hkeys))] at hroot
      exact ⟨⟨hne, hkeys, hvalues, by simpa using hall⟩, reader, hroot, hfinish⟩
  · intro h
    obtain ⟨⟨hne, hkeys, hvalues, hall⟩, reader, hroot, hfinish⟩ := h
    rw [← rootFromProof_eq (InSubtree.whole (sorted_lookup hkeys))] at hroot
    refine ⟨(), hvalid.mpr ⟨hne, hkeys⟩, _, ⟨hvalues, rfl⟩, _, ?_, (root, reader), hroot, (),
      hfinish, rfl⟩
    rw [selectLeaves_eq hkeys hvalues, if_neg (by simpa using hall)]

end

/-! ## Updates -/

section

variable {old new : List L} {selected : List K}

/-- A leaf set in which the selected leaves are replaced by new ones. -/
def update (old : List L) (selected : List K) (new : List L) : List L :=
  (old.filter fun v => key v ∉ selected) ++ new

/-- The new leaves are found at the selected keys and the old ones at the others. -/
theorem lookup_update (hnew : ∀ v ∈ new, key v ∈ selected) (k : K) :
    lookup (update old selected new) k =
      if k ∈ selected then lookup new k else lookup old k := by
  rw [lookup, update, List.find?_append]
  by_cases hk : k ∈ selected
  · have hkept : (old.filter fun v => key v ∉ selected).find? (fun v => key v = k) = none := by
      rw [List.find?_eq_none]
      intro v hv hkey
      have hout := of_decide_eq_true (List.mem_filter.mp hv).2
      exact hout (of_decide_eq_true hkey ▸ hk)
    rw [hkept, Option.none_or, if_pos hk, lookup]
  · have hkept : (old.filter fun v => key v ∉ selected).find? (fun v => key v = k) =
        old.find? fun v => key v = k := by
      rw [List.find?_filter]
      congr 1
      ext v
      by_cases hkey : key v = k
      · simp [hkey, hk]
      · simp [hkey]
    have hgone : new.find? (fun v => key v = k) = none := by
      rw [List.find?_eq_none]
      intro v hv hkey
      exact hk (of_decide_eq_true hkey ▸ hnew v hv)
    rw [hkept, hgone, Option.or_none, if_neg hk, lookup]

theorem nodup_update (hold : (old.map key).Nodup) (hsorted : SortedBy key new)
    (hnew : ∀ v ∈ new, key v ∈ selected) : ((update old selected new).map key).Nodup := by
  rw [update, List.map_append, List.nodup_append]
  refine ⟨(List.filter_sublist.map key).nodup hold, hsorted.nodup_map, ?_⟩
  intro k hk k' hk' heq
  obtain ⟨v, hv, rfl⟩ := List.mem_map.mp hk
  obtain ⟨u, hu, rfl⟩ := List.mem_map.mp hk'
  have hout := of_decide_eq_true (List.mem_filter.mp hv).2
  exact hout (heq ▸ hnew u hu)

/-- Replacing the selected leaves of the complete tree commits to the updated leaf set. -/
theorem override_slot {keys : List K} (hold : (old.map key).Nodup) (hkeys : SortedBy id keys)
    (hmem : ∀ k, k ∈ keys ↔ k ∈ selected) (hsorted : SortedBy key new)
    (hnew : ∀ v ∈ new, key v ∈ selected) :
    CompleteTree.override (slot (sortedLeaves old))
        ((keys.map (lookup new)).map ProofLeaf.entry) =
      (slot (sortedLeaves (update old selected new)) : Nat → B256) := by
  have hin : InSubtree (BITS K) 0 0 (keys.map (lookup new)) :=
    InSubtree.whole (sorted_lookup hkeys)
  have hnumbers : ∀ k : K, index k ∈ (((keys.map (lookup new)).map ProofLeaf.entry :
      List (Nat × B256)).map Prod.fst) ↔ k ∈ selected := by
    intro k
    simp [ProofLeaf.entry, lookup, index_injective.eq_iff, hmem]
  ext i
  by_cases hi : ∃ k : K, index k = i
  · obtain ⟨k, rfl⟩ := hi
    rw [slot_index (nodup_update hold hsorted hnew), lookup_update hnew]
    by_cases hk : k ∈ selected
    · have hentry : (lookup new k).entry ∈
          ((keys.map (lookup new)).map ProofLeaf.entry : List (Nat × B256)) :=
        List.mem_map_of_mem (List.mem_map_of_mem ((hmem k).mpr hk))
      rw [if_pos hk]
      exact CompleteTree.override_of_mem hin.nodup hentry
    · rw [if_neg hk, CompleteTree.override_of_not_mem ((hnumbers k).not.mpr hk),
        slot_index hold]
  · have hne : ∀ k : K, index k ≠ i := fun k hk => hi ⟨k, hk⟩
    rw [slot_of_forall_ne hne, CompleteTree.override_of_not_mem, slot_of_forall_ne hne]
    simp [ProofLeaf.entry, lookup, hne]

theorem sorted_sortByKey_id (hnodup : selected.Nodup) : SortedBy id (sortByKey id selected) :=
  SortedBy.of_nodup (sortByKey_pairwise _ _)
    (by simpa using (sortByKey_perm id selected).nodup_iff.mpr hnodup)

variable [DecidableEq B256]

/-- The roots of the missing subtrees of a leaf set. -/
def missingRoots (old : List L) (keys : List K) : List (Nat × B256) :=
  CompleteTree.sides join (slot (sortedLeaves old)) (BITS K) 0 (keys.map index)

/-- The proof in which they are written. -/
def honestProof (old : List L) (keys : List K) : SparseMerkleMultiproof B256 K :=
  let proof := (missingRoots old keys).foldl ProofBuilder.pushSide ProofBuilder.new
  ⟨keys, proof.bitmap, proof.sideNodes⟩

/-- The builder returns an honest proof. -/
theorem buildMultiproof_eq_ok (hbits : BITS K ≤ 160) (htable : EmptyHashes.Recurrent B256)
    (hold : (old.map key).Nodup) (hne : selected ≠ []) (hnodup : selected.Nodup) :
    buildMultiproof old selected =
      .ok (honestProof old (sortByKey id selected) : SparseMerkleMultiproof B256 K) := by
  obtain ⟨keys, hkeysdef⟩ : ∃ keys, keys = sortByKey id selected := ⟨_, rfl⟩
  have hkeys : SortedBy id keys := hkeysdef ▸ sorted_sortByKey_id hnodup
  have hadjacent : anyAdjacent (fun a b => a = b) keys = false :=
    anyAdjacent_eq_false (hkeys.imp fun hab => by simpa using hab.ne)
  have hsorted := sorted_sortByKey hold
  have hall : InSubtree (BITS K) 0 0 (sortedLeaves old) :=
    InSubtree.whole (sorted_present hsorted)
  have hselected : InSubtree (BITS K) 0 0 (keys.map (lookup (sortByKey key old))) :=
    InSubtree.whole (sorted_lookup hkeys)
  have hindices : (keys.map (lookup (sortByKey key old))).map (fun leaf => index leaf.key) =
      keys.map index := by
    simp [lookup]
  have hselect : selectLeaves false keys (sortedLeaves old) =
      .ok (keys.map (lookup (sortByKey key old))) := by
    rw [sortedLeaves, selectLeaves_eq hkeys hsorted, if_neg (by simp)]
  have hbuild : buildProof (sortedLeaves old) (keys.map (lookup (sortByKey key old))) 0
      (ProofBuilder.new : ProofBuilder B256) =
        .ok ((missingRoots old keys).foldl ProofBuilder.pushSide ProofBuilder.new) := by
    rw [buildProof_eq hbits htable hall hselected, hindices]
    rfl
  rw [buildMultiproof, leaves_eq_ok hold, Outcome.ok_bind, ← hkeysdef]
  simp [Outcome.rejectIf, hne, hadjacent, hselect, hbuild, honestProof]

/-- A reader of an honest proof gets back the roots of the missing subtrees, and nothing is
left. -/
theorem supplies_honestProof (hbits : BITS K ≤ 160) (htable : EmptyHashes.Recurrent B256)
    {keys : List K} :
    ∃ reader : ProofReader B256, CompleteTree.Supplies (ProofReader.next K)
        (missingRoots old keys) (honestProof old keys).reader reader ∧
      reader.finish = .ok () := by
  have hholds : Holds ((missingRoots old keys).foldl ProofBuilder.pushSide ProofBuilder.new)
      ([] ++ missingRoots old keys : List (Nat × B256)) := holds_new.pushAll
  have hheights : ∀ x ∈ (missingRoots old keys : List (Nat × B256)), x.1 ≤ BITS K :=
    fun x hx => CompleteTree.height_le_of_mem_sides hx
  have hsupplies := supplies_reader hbits htable hheights hholds.packs
  refine ⟨_, ?_, finish_eq_ok hholds.packs⟩
  rw [SparseMerkleMultiproof.reader, honestProof, hholds.sideNodes]
  simpa [nonEmptyBits] using hsupplies

/-- The verifier computes the root of every update from an honest proof. -/
theorem computeRootFromProof_honestProof (hbits : BITS K ≤ 160)
    (htable : EmptyHashes.Recurrent B256) (hold : (old.map key).Nodup) (hne : selected ≠ [])
    (hnodup : selected.Nodup) (hsorted : SortedBy key new) (hnew : ∀ v ∈ new, key v ∈ selected) :
    computeRootFromProof new (honestProof old (sortByKey id selected)) = .ok
      (CompleteTree.root join (slot (sortedLeaves (update old selected new))) (BITS K) 0 :
        B256) := by
  have hmem : ∀ k, k ∈ sortByKey id selected ↔ k ∈ selected := fun k =>
    (sortByKey_perm id selected).mem_iff
  have hkeys := sorted_sortByKey_id hnodup
  have hne' : sortByKey id selected ≠ [] := by
    intro hnil
    have hperm := sortByKey_perm id selected
    rw [hnil] at hperm
    exact hne hperm.symm.eq_nil
  have hin : InSubtree (BITS K) 0 0 ((sortByKey id selected).map (lookup new)) :=
    InSubtree.whole (sorted_lookup hkeys)
  have hnumbers : (((sortByKey id selected).map (lookup new)).map ProofLeaf.entry :
      List (Nat × B256)).map Prod.fst = (sortByKey id selected).map index := by
    simp [ProofLeaf.entry, lookup, Function.comp_def]
  obtain ⟨reader, hsupplies, hfinish⟩ : ∃ reader : ProofReader B256,
      CompleteTree.Supplies (ProofReader.next K) (missingRoots old (sortByKey id selected))
        (honestProof old (sortByKey id selected)).reader reader ∧ reader.finish = .ok () :=
    supplies_honestProof hbits htable
  rw [missingRoots, ← hnumbers] at hsupplies
  refine computeRootFromProof_eq_ok.mpr ⟨⟨hne', hkeys, hsorted, fun v hv =>
    (hmem _).mpr (hnew v hv)⟩, reader, ?_, hfinish⟩
  rw [← override_slot hold hkeys hmem hsorted hnew]
  exact CompleteTree.rebuild_complete hin.within hin.nodup hsupplies

end

/-! ## Soundness -/

section

variable {values all : List L} {proof : SparseMerkleMultiproof B256 K} {root : B256}

variable (B256) in
/-- The table begins with the digest of its domain tag. -/
def EmptyHashes.Tagged : Prop :=
  emptyLeaf B256 = Sha256.sha256 (ascii "ZKCLOB_SMT_EMPTY_LEAF_V1")

omit [EmptyHashes B256] in
/-- A node determines its children. -/
theorem join_injective (hfree : CollisionFree B256) :
    Function.Injective2 (join : B256 → B256 → B256) := by
  intro left left' right right' h
  have hbytes : Sha256.bytes left ++ Sha256.bytes right =
      Sha256.bytes left' ++ Sha256.bytes right' := updateHash_eq_of_hash_eq hfree h
  obtain ⟨hleft, hrest⟩ := Sha256.bytes_prefixFree hbytes
  exact ⟨hleft, Sha256.bytes_prefixFree.injective hrest⟩

/-- The hash at a position determines what is stored there. -/
theorem eq_of_hash_eq (hfree : CollisionFree B256) (htag : EmptyHashes.Tagged B256)
    (hseparate : ∀ v : L, hashInput v ≠ ascii "ZKCLOB_SMT_EMPTY_LEAF_V1")
    (hvalue : Function.Injective (updateHash : L → Bytes)) {leaf leaf' : ProofLeaf K L}
    (hkey : leaf.key = leaf'.key)
    (hhash : leaf.hash (emptyLeaf B256) = leaf'.hash (emptyLeaf B256)) : leaf = leaf' := by
  have hempty : ∀ v : L, (hash v : B256) ≠ emptyLeaf B256 := by
    intro v h
    exact hseparate v (hfree (h.trans htag))
  cases leaf with | mk k value =>
  cases leaf' with | mk k' value' =>
  cases hkey
  cases value with
  | none =>
      cases value' with
      | none => rfl
      | some v' => exact absurd hhash.symm (hempty v')
  | some v =>
      cases value' with
      | none => exact absurd hhash (hempty v)
      | some v' => rw [hvalue (updateHash_eq_of_hash_eq hfree hhash)]

/-- A stored leaf is found at its key. -/
theorem mem_iff_lookup (hnodup : (values.map key).Nodup) {v : L} :
    v ∈ values ↔ lookup values (key v) = ProofLeaf.present v := by
  constructor
  · intro hv
    rw [lookup, find?_key_eq hnodup hv, ProofLeaf.present]
  · intro h
    exact List.mem_of_find?_eq_some (congrArg ProofLeaf.value h)

/-- An accepted proof shows at every listed key what is stored there. -/
theorem lookup_eq_of_computeRootFromProof (hfree : CollisionFree B256)
    (htable : EmptyHashes.Recurrent B256) (htag : EmptyHashes.Tagged B256)
    (hseparate : ∀ v : L, hashInput v ≠ ascii "ZKCLOB_SMT_EMPTY_LEAF_V1")
    (hvalue : Function.Injective (updateHash : L → Bytes)) (hall : (all.map key).Nodup)
    (hroot : computeRoot all = .ok root) (hproof : computeRootFromProof values proof = .ok root) :
    ∀ k ∈ proof.leafKeys, lookup values k = lookup all k := by
  obtain ⟨_, reader, hrebuild, _⟩ := computeRootFromProof_eq_ok.mp hproof
  cases eq_of_computeRoot htable hall hroot
  intro k hk
  have hshown := CompleteTree.rebuild_sound (join_injective hfree) hrebuild
    (lookup values k).entry (List.mem_map_of_mem (List.mem_map_of_mem hk))
  have hstored : slot (sortedLeaves all) (index k) =
      ((lookup all k).hash (emptyLeaf B256) : B256) := slot_index hall k
  exact eq_of_hash_eq hfree htag hseparate hvalue rfl (hshown.trans hstored)

end

/-! ## A computed table -/

/-- The table, computed as the tree's tests compute it. -/
abbrev EmptyHashes.computed (B256 : Type) [Sha256 B256] : EmptyHashes B256 where
  EMPTY_HASHES_BY_HEIGHT := Vector.ofFn fun h =>
    CompleteTree.uniform join (Sha256.sha256 (ascii "ZKCLOB_SMT_EMPTY_LEAF_V1")) h

instance : EmptyHashes IdealDigest := EmptyHashes.computed IdealDigest

theorem recurrent_computed : EmptyHashes.Recurrent IdealDigest := by
  intro h hh
  simp [EMPTY_HASHES_BY_HEIGHT, CompleteTree.uniform, join]

theorem tagged_computed : EmptyHashes.Tagged IdealDigest := by
  simp [EmptyHashes.Tagged, emptyLeaf, EMPTY_HASHES_BY_HEIGHT, CompleteTree.uniform]

/-- The leaves of the tree's tests: a key of one byte and a value. -/
structure TestLeaf where
  key : FixedBytes 1
  value : U64
deriving DecidableEq

instance : SparseMerkleLeaf TestLeaf (FixedBytes 1) where
  updateHash self := updateHash self.key ++ beBytes self.value
  domain := ascii "ZKCLOB_TEST_LEAF_V1"
  key := TestLeaf.key

theorem TestLeaf.updateHash_injective : Function.Injective (updateHash : TestLeaf → Bytes) := by
  intro a b h
  obtain ⟨hkey, hvalue⟩ :=
    FixedBytes.updateHash_prefixFree
      (show updateHash a.key ++ beBytes a.value = updateHash b.key ++ beBytes b.value from h)
  have hvalue' := prefixFree_u64.injective hvalue
  cases a
  cases b
  cases hkey
  cases hvalue'
  rfl

theorem TestLeaf.hashInput_ne (v : TestLeaf) :
    hashInput v ≠ ascii "ZKCLOB_SMT_EMPTY_LEAF_V1" := by
  intro h
  exact append_ne_append_of_take_ne 8 (by decide) (by decide) (by decide) (updateHash v) []
    (h.trans (List.append_nil _).symm)

/-- The two leaves of the tree's tests. -/
def testLeaves : List TestLeaf :=
  [⟨.replicate 1 1, 10⟩, ⟨.replicate 1 200, 20⟩]

/-- A leaf that is inserted by the tree's tests. -/
def testInserted : TestLeaf := ⟨.replicate 1 2, 20⟩

/-- The keys that the tree's tests select for an insertion. -/
def testKeys : List (FixedBytes 1) := [.replicate 1 1, .replicate 1 2]

/-! ## The two guarantees -/

section

variable {old new values all : List L} {selected : List K}
  {proof : SparseMerkleMultiproof B256 K} {root : B256}

/-- Completeness: from an honest proof for some keys, present or absent, the root is
reconstructed after any change, insertion or removal of leaves with these keys. -/
theorem sparse_multiproof_complete [DecidableEq B256] (hbits : BITS K ≤ 160)
    (htable : EmptyHashes.Recurrent B256) (hold : (old.map key).Nodup) (hne : selected ≠ [])
    (hnodup : selected.Nodup) (hsorted : SortedBy key new) (hnew : ∀ v ∈ new, key v ∈ selected) :
    ∃ (proof : SparseMerkleMultiproof B256 K) (root : B256),
      buildMultiproof old selected = .ok proof ∧ computeRootFromProof new proof = .ok root ∧
        computeRoot ((old.filter fun v => key v ∉ selected) ++ new) = .ok root :=
  ⟨_, _, buildMultiproof_eq_ok hbits htable hold hne hnodup,
    computeRootFromProof_honestProof hbits htable hold hne hnodup hsorted hnew,
    computeRoot_eq_ok hbits htable (nodup_update hold hsorted hnew)⟩

theorem sparse_multiproof_complete_insert :
    ∃ (proof : SparseMerkleMultiproof IdealDigest (FixedBytes 1)) (root : IdealDigest),
      buildMultiproof testLeaves testKeys = .ok proof ∧
        computeRootFromProof [testInserted] proof = .ok root ∧
        computeRoot ((testLeaves.filter fun v => key v ∉ testKeys) ++ [testInserted]) =
          .ok root :=
  sparse_multiproof_complete (by decide) recurrent_computed (by decide) (by decide) (by decide)
    (List.pairwise_singleton _ _) (by decide)

/-- Soundness: a proof, however produced, that takes some leaves to the root of a leaf set was
given exactly the leaves of the set with the listed keys. -/
theorem sparse_multiproof_sound (hfree : CollisionFree B256)
    (htable : EmptyHashes.Recurrent B256) (htag : EmptyHashes.Tagged B256)
    (hseparate : ∀ v : L, hashInput v ≠ ascii "ZKCLOB_SMT_EMPTY_LEAF_V1")
    (hvalue : Function.Injective (updateHash : L → Bytes)) (hall : (all.map key).Nodup)
    (hroot : computeRoot all = .ok root) (hproof : computeRootFromProof values proof = .ok root) :
    values = sortByKey key (all.filter fun v => key v ∈ proof.leafKeys) := by
  obtain ⟨⟨_, _, hvalues, hlisted⟩, _⟩ := computeRootFromProof_eq_ok.mp hproof
  have hlookup := lookup_eq_of_computeRootFromProof hfree htable htag hseparate hvalue hall hroot
    hproof
  have hfilter : ((all.filter fun v => key v ∈ proof.leafKeys).map key).Nodup :=
    (List.filter_sublist.map key).nodup hall
  refine hvalues.eq_of_perm (sorted_sortByKey hfilter) ?_
  refine List.Perm.trans ?_ (sortByKey_perm _ _).symm
  refine (List.perm_ext_iff_of_nodup (List.Nodup.of_map key hvalues.nodup_map)
    (List.Nodup.of_map key hfilter)).mpr fun v => ?_
  rw [List.mem_filter, decide_eq_true_iff]
  constructor
  · intro hv
    have hk := hlisted v hv
    refine ⟨(mem_iff_lookup hall).mpr ?_, hk⟩
    rw [← hlookup _ hk]
    exact (mem_iff_lookup hvalues.nodup_map).mp hv
  · intro hv
    refine (mem_iff_lookup hvalues.nodup_map).mpr ?_
    rw [hlookup _ hv.2]
    exact (mem_iff_lookup hall).mp hv.1


theorem sparse_multiproof_sound_test :
    [testInserted] = sortByKey key ((update testLeaves testKeys [testInserted]).filter fun v =>
      key v ∈ (honestProof testLeaves (sortByKey id testKeys) :
        SparseMerkleMultiproof IdealDigest (FixedBytes 1)).leafKeys) :=
  sparse_multiproof_sound IdealDigest.collisionFree recurrent_computed tagged_computed
    TestLeaf.hashInput_ne TestLeaf.updateHash_injective (by decide)
    (computeRoot_eq_ok (by decide) recurrent_computed (by decide))
    (computeRootFromProof_honestProof (by decide) recurrent_computed (by decide) (by decide)
      (by decide) (List.pairwise_singleton _ _) (by decide))

end

end SparseMerkle

end ZkClob
