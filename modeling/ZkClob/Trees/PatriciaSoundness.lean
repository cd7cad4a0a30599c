import ZkClob.Trees.PatriciaTree

/-!
# Soundness of multiproofs

A multiproof comes from an untrusted host: its side nodes may have any roots and
any ranges.  When it reconstructs the root of a leaf set, the side nodes are
commitments of canonical subtrees of that set, and they hold exactly the leaves
that are not selected.

Main results:

- Theorem {lit}`Patricia.exists_sides`: what an accepted proof against a committed
  root consists of.
- Theorem {lit}`Patricia.membership_sound`: the presented leaves are exactly the
  selected leaves of the committed set.
- Theorem {lit}`Patricia.update_sound`: the same proof with other leaves gives the
  root of the updated set.
-/

namespace ZkClob

open Foundations

namespace Patricia

open BitKey PatriciaLeaf

variable {B256 K L : Type} [PatriciaKey K]

/-! ## What the verifier checks -/

/-- The selected keys in strict order, and side nodes with consecutive key ranges. -/
structure PatriciaMultiproof.WellFormed (proof : PatriciaMultiproof B256 K) : Prop where
  nonempty : proof.leafKeys ≠ []
  sorted : SortedBy id proof.leafKeys
  sides : Ordered (proof.sideNodes.map PatriciaSubtree.toCommitment)
  disjoint : ∀ n ∈ proof.sideNodes, ∀ k ∈ proof.leafKeys, ¬ (n.minKey ≤ k ∧ k ≤ n.maxKey)

/-- Some selected key lies in the range of a node. -/
theorem selectedIn_iff {keys : List K} (h : SortedBy id keys) {node : Commitment B256 K} :
    selectedIn keys node = true ↔ ∃ k ∈ keys, node.min ≤ k ∧ k ≤ node.max := by
  have hrange : _ ↔ ∃ k ∈ keys, node.min ≤ id k ∧ id k ≤ node.max := h.exists_in_range
  simp only [id_eq] at hrange
  rw [← hrange]
  simp only [selectedIn]
  cases keys[partitionPoint (fun key => decide (key < node.min)) keys]? with
  | none => simp
  | some k => simp

/-- Merging keeps the leaves and the side nodes. -/
theorem mergeNodes_perm (leaves : List (Commitment B256 K))
    (sides : List (PatriciaSubtree B256 K)) :
    (mergeNodes leaves sides).Perm (leaves ++ sides.map PatriciaSubtree.toCommitment) := by
  fun_induction mergeNodes leaves sides with
  | case1 leaves => simp
  | case2 side sides ih => simpa using ih
  | case3 leaf leaves side sides hlt ih => simpa using ih
  | case4 leaf leaves side sides hle ih => exact (ih.cons _).trans List.perm_middle.symm

/-- Nodes with inhabited ranges are ordered when no neighbours overlap. -/
theorem ordered_iff_anyAdjacent {nodes : List (Commitment B256 K)}
    (hle : ∀ n ∈ nodes, n.min ≤ n.max) :
    Ordered nodes ↔ anyAdjacent (fun a b => decide (a.max ≥ b.min)) nodes = false := by
  constructor
  · intro h
    exact anyAdjacent_eq_false (h.lt.imp fun hab => by simpa using hab)
  · intro h
    have hpairwise := pairwise_of_anyAdjacent_eq_false
      (fun a b hb c hab hbc => by
        simp only [ge_iff_le, decide_eq_false_iff_not, not_le] at *
        exact (hab.trans_le (hle b hb)).trans hbc) h
    exact ⟨hle, hpairwise.imp fun hab => by simpa using hab⟩

/-- Merged nodes are ordered when every side node lies before or after every leaf. -/
theorem mergeNodes_pairwise {leaves : List (Commitment B256 K)}
    {sides : List (PatriciaSubtree B256 K)} (hleaves : leaves.Pairwise fun a b => a.max < b.min)
    (hsides : Ordered (sides.map PatriciaSubtree.toCommitment))
    (hpoint : ∀ a ∈ leaves, a.min = a.max)
    (hoff : ∀ a ∈ leaves, ∀ n ∈ sides, ¬ (n.minKey ≤ a.min ∧ a.min ≤ n.maxKey)) :
    (mergeNodes leaves sides).Pairwise fun a b => a.max < b.min := by
  fun_induction mergeNodes leaves sides with
  | case1 leaves => exact hleaves
  | case2 side sides ih =>
      rcases List.pairwise_cons.mp hsides.lt with ⟨hside, _⟩
      refine List.pairwise_cons.mpr ⟨?_, ih hleaves hsides.tail hpoint (by simp)⟩
      intro b hb
      exact hside b (by simpa using (mergeNodes_perm [] sides).mem_iff.mp hb)
  | case3 leaf leaves side sides hlt ih =>
      rcases List.pairwise_cons.mp hleaves with ⟨hleaf, hrest⟩
      rcases List.pairwise_cons.mp hsides.lt with ⟨hside, _⟩
      refine List.pairwise_cons.mpr ⟨?_, ih hrest hsides
        (fun a ha => hpoint a (List.mem_cons_of_mem _ ha))
        (fun a ha => hoff a (List.mem_cons_of_mem _ ha))⟩
      intro b hb
      have hstart : leaf.max < side.minKey := hpoint leaf (by simp) ▸ hlt
      rcases List.mem_append.mp
        ((mergeNodes_perm leaves (side :: sides)).mem_iff.mp hb) with hb | hb
      · exact hleaf b hb
      · rcases List.mem_cons.mp hb with rfl | hb
        · exact hstart
        · exact (hstart.trans_le (hsides.le side.toCommitment (by simp))).trans (hside b hb)
  | case4 leaf leaves side sides hle ih =>
      rcases List.pairwise_cons.mp hleaves with ⟨hleaf, _⟩
      rcases List.pairwise_cons.mp hsides.lt with ⟨hside, _⟩
      refine List.pairwise_cons.mpr ⟨?_, ih hleaves hsides.tail hpoint
        (fun a ha n hn => hoff a ha n (List.mem_cons_of_mem _ hn))⟩
      intro b hb
      have hend : side.maxKey < leaf.min := by
        by_contra hnot
        exact hoff leaf (by simp) side (by simp) ⟨not_lt.mp hle, not_lt.mp hnot⟩
      rcases List.mem_append.mp
        ((mergeNodes_perm (leaf :: leaves) sides).mem_iff.mp hb) with hb | hb
      · rcases List.mem_cons.mp hb with rfl | hb
        · exact hend
        · exact hend.trans (hpoint leaf (by simp) ▸ hleaf b hb)
      · exact hside b hb

/-- The checks of the proof object alone. -/
theorem PatriciaMultiproof.wellFormed_iff {proof : PatriciaMultiproof B256 K} :
    proof.WellFormed ↔
      (proof.leafKeys.isEmpty = false ∧
        anyAdjacent (fun a b => decide (a ≥ b)) proof.leafKeys = false ∧
        (proof.sideNodes.any fun node => decide (node.minKey > node.maxKey)) = false ∧
        anyAdjacent (fun a b => decide (a.maxKey ≥ b.minKey)) proof.sideNodes = false) ∧
      (proof.sideNodes.any fun node => selectedIn proof.leafKeys node.toCommitment) = false := by
  have hle : (proof.sideNodes.any fun node => decide (node.minKey > node.maxKey)) = false ↔
      ∀ n ∈ proof.sideNodes.map PatriciaSubtree.toCommitment, n.min ≤ n.max := by
    simp [PatriciaSubtree.toCommitment]
  have hadjacent : anyAdjacent (fun a b => decide (a.maxKey ≥ b.minKey)) proof.sideNodes =
      anyAdjacent (fun a b => decide (a.max ≥ b.min))
        (proof.sideNodes.map PatriciaSubtree.toCommitment) := by
    rw [anyAdjacent_map]
    rfl
  have hsort : anyAdjacent (fun a b => decide (a ≥ b)) proof.leafKeys = false ↔
      SortedBy id proof.leafKeys :=
    ⟨fun h => SortedBy.of_anyAdjacent_ge h, fun h => h.anyAdjacent_ge⟩
  rw [hle, hadjacent, hsort]
  constructor
  · rintro ⟨hne, hsorted, hsides, hdisjoint⟩
    refine ⟨⟨by simpa using hne, hsorted, hsides.le, (ordered_iff_anyAdjacent hsides.le).mp hsides⟩,
      ?_⟩
    rw [List.any_eq_false]
    intro n hn hselected
    rcases (selectedIn_iff hsorted).mp hselected with ⟨k, hk, hrange⟩
    exact hdisjoint n hn k hk hrange
  · rintro ⟨⟨hne, hsorted, hle, hadj⟩, hselected⟩
    refine ⟨by simpa using hne, hsorted, (ordered_iff_anyAdjacent hle).mpr hadj, ?_⟩
    intro n hn k hk hrange
    rw [List.any_eq_false] at hselected
    exact hselected n hn ((selectedIn_iff hsorted).mpr ⟨k, hk, hrange⟩)

variable [PatriciaLeaf L K]

/-- The check that every presented leaf is selected. -/
theorem all_selected_iff {keys : List K} (h : SortedBy id keys) {vs : List L} :
    (vs.any fun value =>
        match binarySearchByKey id (key value) keys with
        | .ok _ => false
        | .error _ => true) = false ↔ ∀ v ∈ vs, key v ∈ keys := by
  rw [List.any_eq_false]
  refine forall₂_congr fun v _ => ?_
  cases hs : binarySearchByKey id (key v) keys with
  | ok i =>
      rcases h.search_ok_iff.mp hs with ⟨a, ha, rfl⟩
      simpa using List.mem_of_getElem? ha
  | error i =>
      have hne := h.search_error_iff.mp ⟨i, hs⟩
      simp only [not_true_eq_false, false_iff]
      exact fun hmem => hne _ hmem rfl

variable [Sha256 B256]

/-- Selected leaves and side nodes have inhabited ranges. -/
theorem le_of_mem_mergeNodes {vs : List L} {proof : PatriciaMultiproof B256 K}
    (h : proof.WellFormed) {n : Commitment B256 K}
    (hn : n ∈ mergeNodes (vs.map leaf) proof.sideNodes) : n.min ≤ n.max := by
  rcases List.mem_append.mp ((mergeNodes_perm _ _).mem_iff.mp hn) with hn | hn
  · rcases List.mem_map.mp hn with ⟨v, _, rfl⟩
    exact le_rfl
  · exact h.sides.le n hn

/-- What the verifier accepts. -/
theorem computeRootFromProof_eq_ok_iff {values : List L} {proof : PatriciaMultiproof B256 K}
    {root : B256} :
    computeRootFromProof values proof = .ok root ↔
      proof.WellFormed ∧ ∃ vs : List L, vs.Perm values ∧ SortedBy key vs ∧
        (∀ v ∈ vs, key v ∈ proof.leafKeys) ∧
        Ordered (mergeNodes (vs.map leaf) proof.sideNodes) ∧
        ∃ o, combine (mergeNodes (vs.map leaf) proof.sideNodes) = .ok o ∧ root = finalize o := by
  simp only [computeRootFromProof, Outcome.bind_eq_ok, Outcome.rejectIf_eq_ok, not_or,
    Bool.not_eq_true, sorted_eq_ok_iff]
  constructor
  · rintro ⟨_, hchecks, vs, ⟨hperm, hvs⟩, _, ⟨hkeys, hselected⟩, _, hnodes, o, ho, hroot⟩
    cases hroot
    have hwf := PatriciaMultiproof.wellFormed_iff.mpr ⟨hchecks, hselected⟩
    exact ⟨hwf, vs, hperm, hvs, (all_selected_iff hwf.sorted).mp hkeys,
      (ordered_iff_anyAdjacent fun n hn => le_of_mem_mergeNodes hwf hn).mpr hnodes, o, ho, rfl⟩
  · rintro ⟨hwf, vs, hperm, hvs, hkeys, hnodes, o, ho, rfl⟩
    rcases PatriciaMultiproof.wellFormed_iff.mp hwf with ⟨hchecks, hselected⟩
    exact ⟨(), hchecks, vs, ⟨hperm, hvs⟩, (), ⟨(all_selected_iff hwf.sorted).mpr hkeys, hselected⟩,
      (), (ordered_iff_anyAdjacent hnodes.le).mp hnodes, o, ho, rfl⟩

/-! ## Inverting a reconstruction -/

/-- A reconstruction that gives the commitment of a canonical trie was given the
commitments of canonical subtrees with the same leaves. -/
theorem Combined.exists_tries (hfree : CollisionFree B256) {nodes : List (Commitment B256 K)}
    {c : Commitment B256 K} (h : Combined nodes c) {t : Trie L} (hc : c = commit B256 t)
    (hcan : t.Canonical key) :
    ∃ ts : List (Trie L), nodes = ts.map (commit B256) ∧ ts.flatMap Trie.leaves = t.leaves ∧
      ∀ s ∈ ts, s.Canonical key := by
  induction h generalizing t with
  | single node => exact ⟨[t], by simp [hc], by simp, by simpa using hcan⟩
  | join _ _ _ _ _ ihl ihr =>
      rcases joined_eq_commit hfree hc with ⟨e, l, r, rfl, hleft, hright⟩
      rcases ihl hleft hcan.1 with ⟨xs, rfl, hxs, hxcan⟩
      rcases ihr hright hcan.2.1 with ⟨ys, rfl, hys, hycan⟩
      refine ⟨xs ++ ys, by simp, by simp [Trie.leaves, hxs, hys], ?_⟩
      intro s hs
      rcases List.mem_append.mp hs with hs | hs
      · exact hxcan s hs
      · exact hycan s hs

/-- A reconstruction above commitments of canonical tries gives the commitment of the
canonical trie over all their leaves. -/
theorem Combined.exists_trie {ts : List (Trie L)} {c : Commitment B256 K}
    (h : Combined (ts.map (commit B256)) c) (hcan : ∀ s ∈ ts, s.Canonical key)
    (hsorted : SortedBy key (ts.flatMap Trie.leaves)) :
    ∃ t : Trie L, t.Canonical key ∧ t.leaves = ts.flatMap Trie.leaves ∧ c = commit B256 t := by
  generalize hnodes : ts.map (commit B256) = nodes at h
  induction h generalizing ts with
  | single node =>
      rcases List.map_eq_singleton_iff.mp hnodes with ⟨t, rfl, rfl⟩
      exact ⟨t, hcan t (by simp), by simp, rfl⟩
  | @join d xs ys left right hleft hright hdepth hzero hone ihl ihr =>
      rcases List.map_eq_append_iff.mp hnodes with ⟨as, bs, rfl, rfl, rfl⟩
      rw [List.flatMap_append] at hsorted
      rcases List.pairwise_append.mp hsorted with ⟨hsa, hsb, _⟩
      rcases ihl (fun s hs => hcan s (List.mem_append_left _ hs)) hsa rfl with
        ⟨tl, hltrie, hlleaves, hl⟩
      rcases ihr (fun s hs => hcan s (List.mem_append_right _ hs)) hsb rfl with
        ⟨tr, hrtrie, hrleaves, hr⟩
      rcases hleft.exists_mem_max with ⟨a, ha, hamax⟩
      rcases hright.exists_mem_min with ⟨b, hb, hbmin⟩
      have ha0 := (hzero a ha).2
      have hb1 := (hone b hb).1
      rw [hamax, hl, commit_max] at ha0
      rw [hbmin, hr, commit_min] at hb1
      rw [hl, hr, commit_min, commit_max] at hdepth
      rw [← hlleaves, ← hrleaves] at hsorted
      refine ⟨Trie.branch d tl tr, hltrie.join hrtrie hsorted hdepth ha0 hb1, ?_, ?_⟩
      · simp [Trie.leaves, hlleaves, hrleaves]
      · rw [hl, hr]
        rfl

/-- A permutation of mapped elements is the map of a permutation. -/
theorem exists_perm_of_perm_map {α β : Type} {f : α → β} {l : List β} {m : List α}
    (h : l.Perm (m.map f)) : ∃ m' : List α, l = m'.map f ∧ m'.Perm m := by
  have hcomp : (Relation.Comp (fun a b => a = List.map f b) List.Perm) l m := by
    rw [List.eq_map_comp_perm]
    exact h
  exact hcomp

/-- Reconstruction above commitments of canonical tries gives the root of all their
leaves. -/
theorem computeRoot_of_combine {ts : List (Trie L)} {o : Option (Commitment B256 K)}
    {values : List L} (hcan : ∀ s ∈ ts, s.Canonical key ∧ SortedBy key s.leaves)
    (hnodes : Ordered (ts.map (commit B256))) (ho : combine (ts.map (commit B256)) = .ok o)
    (hperm : (ts.flatMap Trie.leaves).Perm values) : computeRoot values = .ok (finalize o) := by
  cases o with
  | none =>
      have hnil : ts = [] := by simpa using combine_eq_ok_none.mp ho
      rw [hnil] at hperm
      rw [hperm.symm.eq_nil]
      exact computeRoot_nil
  | some c =>
      have hsorted : SortedBy key (ts.flatMap Trie.leaves) := by
        refine Trie.sortedBy_flatMap_leaves.mpr ⟨fun s hs => (hcan s hs).2, ?_⟩
        have hlt := hnodes.lt
        rw [List.pairwise_map] at hlt
        exact hlt.imp fun hst => by simpa using hst
      rcases ((combine_eq_ok_iff hnodes).mp ho).exists_trie (fun s hs => (hcan s hs).1) hsorted with
        ⟨t, htcan, htleaves, rfl⟩
      rw [← htleaves] at hsorted hperm
      exact computeRoot_leaves htcan hsorted hperm

/-- When the side nodes are commitments of tries, so are the merged nodes. -/
theorem merge_perm_tries (vs : List L) {sides : List (PatriciaSubtree B256 K)} {ss : List (Trie L)}
    (hss : sides.map PatriciaSubtree.toCommitment = ss.map (commit B256)) :
    (mergeNodes (vs.map leaf) sides).Perm ((vs.map Trie.leaf ++ ss).map (commit B256)) := by
  have hmap : vs.map leaf ++ sides.map PatriciaSubtree.toCommitment =
      (vs.map Trie.leaf ++ ss).map (commit B256) := by
    rw [hss, List.map_append, List.map_map]
    rfl
  rw [← hmap]
  exact mergeNodes_perm _ _

omit [Sha256 B256] in
/-- The leaves of the merged tries are the remaining and the presented leaves. -/
theorem leaves_perm_of_merge {vs V rest : List L} {ts ss : List (Trie L)}
    (hperm : ts.Perm (vs.map Trie.leaf ++ ss)) (hvs : vs.Perm V)
    (hrest : (ss.flatMap Trie.leaves).Perm rest) :
    (ts.flatMap Trie.leaves).Perm (rest ++ V) := by
  have hflat : (vs.map Trie.leaf ++ ss).flatMap Trie.leaves = vs ++ ss.flatMap Trie.leaves := by
    simp [List.flatMap_map, Trie.leaves]
  calc
    (ts.flatMap Trie.leaves).Perm (vs ++ ss.flatMap Trie.leaves) :=
      (hperm.flatMap_right Trie.leaves).trans (by rw [hflat])
    _ |>.Perm (V ++ rest) := hvs.append hrest
    _ |>.Perm (rest ++ V) := List.perm_append_comm

/-- Commitments that are commitments of leaves were made from leaves. -/
theorem exists_leaves (hfree : CollisionFree B256) {ts : List (Trie L)} {vs : List L}
    (h : ts.map (commit B256) = vs.map leaf) :
    (ts.flatMap Trie.leaves).map leaf = vs.map (leaf : L → Commitment B256 K) ∧
      (ts.flatMap Trie.leaves).map key = vs.map key := by
  induction ts generalizing vs with
  | nil =>
      have hvs : vs = [] := by simpa using h.symm
      simp [hvs]
  | cons t ts ih =>
      cases vs with
      | nil => simp at h
      | cons v vs =>
          simp only [List.map_cons, List.cons.injEq] at h
          rcases h with ⟨ht, hts⟩
          rcases leaf_eq_commit hfree ht.symm with ⟨a, rfl, hkey, _⟩
          rcases ih hts with ⟨hleaves, hkeys⟩
          constructor
          · simpa [Trie.leaves, hleaves, commit] using ht
          · simp [Trie.leaves, hkeys, hkey]

/-! ## Accepted proofs -/

section

variable {A V V' : List L} {proof : PatriciaMultiproof B256 K} {root : B256}

/-- A proof accepted against the root of a leaf set: the presented leaves commit like
the selected leaves of the set, and the side nodes are canonical subtrees holding
the others. -/
theorem exists_sides (hfree : CollisionFree B256) (hA : (A.map key).Nodup)
    (h : computeRootFromProof V proof = (computeRoot A : Outcome PatriciaError B256)) :
    (V.map leaf).Perm
        ((A.filter fun a => key a ∈ proof.leafKeys).map (leaf : L → Commitment B256 K)) ∧
      ∃ ss : List (Trie L), proof.sideNodes.map PatriciaSubtree.toCommitment =
          ss.map (commit B256) ∧
        (∀ s ∈ ss, s.Canonical key ∧ SortedBy key s.leaves) ∧
        (ss.flatMap Trie.leaves).Perm (A.filter fun a => key a ∉ proof.leafKeys) := by
  rcases computeRoot_eq B256 hA with ⟨rfl, hroot⟩ | ⟨t, hcan, hsorted, hperm, hroot⟩
  · rw [hroot] at h
    rcases computeRootFromProof_eq_ok_iff.mp h with ⟨_, vs, hvs, _, _, hnodes, o, ho, hfinal⟩
    have hnone : o = none := by
      cases o with
      | none => rfl
      | some c => exact absurd hfinal (finalize_none_ne_some hfree c)
    subst hnone
    have hnil := (mergeNodes_perm (vs.map leaf) proof.sideNodes).symm.trans
      (by rw [combine_eq_ok_none.mp ho])
    rcases List.append_eq_nil_iff.mp hnil.eq_nil with ⟨hvs', hsides⟩
    have hV : V = [] := by
      rw [List.map_eq_nil_iff.mp hvs'] at hvs
      exact hvs.symm.eq_nil
    subst hV
    exact ⟨List.Perm.refl _, [], by simpa using hsides, by simp, by simp⟩
  · rw [hroot] at h
    rcases computeRootFromProof_eq_ok_iff.mp h with ⟨hwf, vs, hvs, _, hkeys, hnodes, o, ho, hfinal⟩
    obtain ⟨c, rfl⟩ : ∃ c, o = some c := by
      cases o with
      | none => exact absurd hfinal.symm (finalize_none_ne_some hfree _)
      | some c => exact ⟨c, rfl⟩
    have hc : commit B256 t = c := finalize_injective hfree hfinal
    rcases ((combine_eq_ok_iff hnodes).mp ho).exists_tries hfree hc.symm hcan with
      ⟨ts, hts, hleaves, htscan⟩
    -- the subtrees are those of the leaves and those of the side nodes, interleaved
    have hmerge := (mergeNodes_perm (vs.map leaf) proof.sideNodes).symm
    rw [hts] at hmerge
    rcases exists_perm_of_perm_map hmerge with ⟨us, hus, husts⟩
    rcases List.map_eq_append_iff.mp hus.symm with ⟨ls, ss, rfl, hls, hss⟩
    rcases exists_leaves hfree hls with ⟨hlsleaf, hlskey⟩
    have hall : (ls.flatMap Trie.leaves ++ ss.flatMap Trie.leaves).Perm A := by
      rw [← List.flatMap_append]
      exact ((husts.flatMap_right Trie.leaves).trans (by rw [hleaves])).trans hperm
    have hssmem : ∀ s ∈ ss, s.Canonical key ∧ SortedBy key s.leaves := by
      intro s hs
      have hmem : s ∈ ts := husts.mem_iff.mp (List.mem_append_right _ hs)
      rw [← hleaves] at hsorted
      exact ⟨htscan s hmem, (Trie.sortedBy_flatMap_leaves.mp hsorted).1 s hmem⟩
    have hin : ∀ a ∈ ls.flatMap Trie.leaves, decide (key a ∈ proof.leafKeys) = true := by
      intro a ha
      have hmem : key a ∈ vs.map key := hlskey ▸ List.mem_map_of_mem ha
      rcases List.mem_map.mp hmem with ⟨v, hv, hvkey⟩
      exact decide_eq_true (hvkey ▸ hkeys v hv)
    have hout : ∀ a ∈ ss.flatMap Trie.leaves, decide (key a ∈ proof.leafKeys) = false := by
      intro a ha
      rcases List.mem_flatMap.mp ha with ⟨s, hs, has⟩
      have hmem : commit B256 s ∈ proof.sideNodes.map PatriciaSubtree.toCommitment :=
        hss ▸ List.mem_map_of_mem hs
      rcases List.mem_map.mp hmem with ⟨n, hn, hns⟩
      have hrange := Trie.between (hssmem s hs).2 has
      have hmin : n.minKey = s.minKey key := (congrArg Commitment.min hns).trans (commit_min s)
      have hmax : n.maxKey = s.maxKey key := (congrArg Commitment.max hns).trans (commit_max s)
      rw [← hmin, ← hmax] at hrange
      exact decide_eq_false fun hkey => hwf.disjoint n hn _ hkey hrange
    refine ⟨?_, ss, hss.symm, hssmem, ?_⟩
    · have hfilter := hall.filter fun a => decide (key a ∈ proof.leafKeys)
      rw [filter_append_eq_left hin hout] at hfilter
      exact ((hvs.symm.map leaf).trans (by rw [hlsleaf])).trans (hfilter.map leaf)
    · have hfilter := (List.perm_append_comm.trans hall).filter
        fun a => decide (key a ∉ proof.leafKeys)
      rw [filter_append_eq_left (by simpa using hout) (by simpa using hin)] at hfilter
      exact hfilter

/-- Membership and non-membership: a proof accepted against the root of a leaf set
presents exactly the leaves of the set whose keys it lists. -/
theorem computeRootFromProof_membership (hfree : CollisionFree B256)
    (hvalue : Function.Injective (updateHash : L → Bytes)) (hA : (A.map key).Nodup)
    (h : computeRootFromProof V proof = (computeRoot A : Outcome PatriciaError B256)) :
    V.Perm (A.filter fun a => key a ∈ proof.leafKeys) := by
  have hleaf : Function.Injective (leaf : L → Commitment B256 K) := by
    intro a b hab
    rcases leaf_eq_commit hfree (show leaf a = commit B256 (Trie.leaf b) from hab) with
      ⟨b', hb', _, hhash⟩
    cases hb'
    exact hvalue (updateHash_eq_of_hash_eq hfree hhash)
  exact (List.map_perm_map_iff hleaf).mp (exists_sides hfree hA h).1

/-- Updates: a proof accepted against the root of a leaf set, applied to other leaves,
gives the root of the set in which these replace all selected leaves. -/
theorem computeRootFromProof_update (hfree : CollisionFree B256) (hA : (A.map key).Nodup)
    (h : computeRootFromProof V proof = (computeRoot A : Outcome PatriciaError B256))
    (h' : computeRootFromProof V' proof = .ok root) :
    computeRoot ((A.filter fun a => key a ∉ proof.leafKeys) ++ V') = .ok root := by
  rcases exists_sides hfree hA h with ⟨_, ss, hss, hsscan, hrest⟩
  rcases computeRootFromProof_eq_ok_iff.mp h' with ⟨_, vs, hvs, _, _, hnodes, o, ho, rfl⟩
  rcases exists_perm_of_perm_map (merge_perm_tries vs hss) with ⟨ts, hts, hperm⟩
  have hcan : ∀ s ∈ ts, s.Canonical key ∧ SortedBy key s.leaves := by
    intro s hs
    rcases List.mem_append.mp (hperm.mem_iff.mp hs) with hs | hs
    · rcases List.mem_map.mp hs with ⟨v, _, rfl⟩
      exact ⟨trivial, List.pairwise_singleton _ v⟩
    · exact hsscan s hs
  rw [hts] at ho hnodes
  exact computeRoot_of_combine hcan hnodes ho (leaves_perm_of_merge hperm hvs hrest)

end

/-! ## The two guarantees -/

/-- The leaves of the tree's tests: a key of one byte and a value. -/
structure TestLeaf where
  key : FixedBytes 1
  value : U64
deriving DecidableEq

instance TestLeaf.width_key : Fact (8 * 1 < 2 ^ 64) := ⟨by norm_num⟩

instance : PatriciaLeaf TestLeaf (FixedBytes 1) where
  updateHash self := updateHash self.key ++ beBytes self.value
  domain := ascii "ZKCLOB_PATRICIA_TEST_V1"
  key := TestLeaf.key

theorem TestLeaf.updateHash_injective : Function.Injective (updateHash : TestLeaf → Bytes) := by
  rintro ⟨k, v⟩ ⟨k', v'⟩ h
  obtain ⟨rfl, hvalue⟩ :=
    FixedBytes.updateHash_prefixFree
      (show updateHash k ++ beBytes v = updateHash k' ++ beBytes v' from h)
  rw [prefixFree_u64.injective hvalue]

/-- The three leaves of the tree's tests. -/
def testLeaves : List TestLeaf :=
  [⟨⟨[1], rfl⟩, 10⟩, ⟨⟨[100], rfl⟩, 20⟩, ⟨⟨[200], rfl⟩, 30⟩]

/-- A leaf that is inserted by the tree's tests. -/
def testInserted : TestLeaf := ⟨⟨[50], rfl⟩, 40⟩

/-- The proof of the tree's tests that the key 50 is absent. -/
def testProof : PatriciaMultiproof IdealDigest (FixedBytes 1) :=
  ⟨[⟨[50], rfl⟩], testLeaves.map fun value => (leaf value).toSubtree⟩

section

variable {A V V' : List L} {proof : PatriciaMultiproof B256 K} {root : B256}

/-- Membership soundness: no proof, however produced, presents anything but the
committed leaves with the listed keys, each once. -/
theorem membership_sound (hfree : CollisionFree B256)
    (hvalue : Function.Injective (updateHash : L → Bytes)) (hA : (A.map key).Nodup)
    (h : computeRootFromProof V proof = (computeRoot A : Outcome PatriciaError B256)) :
    V.Nodup ∧ ∀ v, v ∈ V ↔ v ∈ A ∧ key v ∈ proof.leafKeys := by
  have hperm := computeRootFromProof_membership hfree hvalue hA h
  refine ⟨hperm.nodup_iff.mpr ((List.Nodup.of_map key hA).filter _), fun v => ?_⟩
  rw [hperm.mem_iff, List.mem_filter, decide_eq_true_iff]

/-- A proof that lists an absent and a present key. -/
def testMixedProof : PatriciaMultiproof IdealDigest (FixedBytes 1) :=
  ⟨[⟨[50], rfl⟩, ⟨[100], rfl⟩],
    [(leaf (⟨⟨[1], rfl⟩, 10⟩ : TestLeaf)).toSubtree,
      (leaf (⟨⟨[200], rfl⟩, 30⟩ : TestLeaf)).toSubtree]⟩

theorem membership_sound_mixed :
    [(⟨⟨[100], rfl⟩, 20⟩ : TestLeaf)].Nodup ∧ ∀ v, v ∈ [(⟨⟨[100], rfl⟩, 20⟩ : TestLeaf)] ↔
      v ∈ testLeaves ∧ key v ∈ testMixedProof.leafKeys :=
  membership_sound IdealDigest.collisionFree TestLeaf.updateHash_injective (by decide)
    (by decide +kernel)

/-- Update soundness: a proof that reconstructs the root of a leaf set can only take it
to the root of the set in which the new leaves replace all listed ones. -/
theorem update_sound (hfree : CollisionFree B256) (hA : (A.map key).Nodup)
    (h : computeRootFromProof V proof = (computeRoot A : Outcome PatriciaError B256))
    (h' : computeRootFromProof V' proof = .ok root) :
    (.ok root : Outcome PatriciaError B256) =
      computeRoot ((A.filter fun a => key a ∉ proof.leafKeys) ++ V') :=
  (computeRootFromProof_update hfree hA h h').symm

theorem update_sound_insert :
    (.ok (finalize (combine (mergeNodes [leaf testInserted] testProof.sideNodes)).toOption.join) :
        Outcome PatriciaError IdealDigest) =
      computeRoot ((testLeaves.filter fun a => key a ∉ testProof.leafKeys) ++ [testInserted]) :=
  update_sound IdealDigest.collisionFree (by decide)
    (show computeRootFromProof ([] : List TestLeaf) testProof = computeRoot testLeaves by
      decide +kernel)
    (show computeRootFromProof [testInserted] testProof = .ok _ by decide +kernel)

end

end Patricia

end ZkClob
