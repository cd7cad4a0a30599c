import ZkClob.Trees.PatriciaSoundness

/-!
# Completeness of multiproofs

The side nodes of a proof are the maximal subtrees whose prefix no selected key
shares.  They stay subtrees whatever is done to the selected leaves, so one proof
reconstructs the root of every update: changed, inserted and deleted leaves.

Main results:

- Theorem {lit}`Patricia.sideNodes_nodeOf`: the side nodes of a canonical tree.
- Theorem {lit}`Patricia.exists_combined`: subtrees none of which covers a key of
  another are always combined.
- Theorem {lit}`Patricia.multiproof_complete`: every update of the selected leaves is
  reconstructed.
-/

namespace ZkClob

open Foundations

namespace Patricia

open BitKey PatriciaLeaf

variable {B256 K L : Type} [Sha256 B256] [PatriciaKey K] [PatriciaLeaf L K]

/-! ## Side nodes -/

/-- The test by which {lit}`sideNodes` decides to expand a branch: a selected key
shares its prefix. -/
theorem affected_iff {d : Nat} {left right : Trie L} {keys : List K}
    (hcan : (Trie.branch d left right).Canonical key)
    (h : SortedBy key (Trie.branch d left right).leaves) (hkeys : SortedBy id keys)
    {c : Commitment B256 K} (hc : c = commit B256 (Trie.branch d left right)) :
    (selectedIn keys c || keys.any fun key =>
        match differingBit key (if key < c.min then c.min else c.max) with
        | some difference => decide (difference > d)
        | none => false) = true ↔
      ∃ k ∈ keys, (Trie.branch d left right).Covers key k := by
  have hmin : c.min = left.minKey key := by simp [hc, Trie.minKey]
  have hmax : c.max = right.maxKey key := by simp [hc, Trie.maxKey]
  rcases hcan.children h with ⟨_, hlmin, _, _, hrmax⟩
  have hd := hcan.2.2.1
  have hbits := differingBit_lt_bits hd
  have hends := agreeBelow_of_differingBit hd
  rw [Bool.or_eq_true, selectedIn_iff hkeys, List.any_eq_true, hmin, hmax]
  constructor
  · rintro (⟨k, hk, hlo, hhi⟩ | ⟨k, hk, hdiff⟩)
    · exact ⟨k, hk, hcan.covers_of_between hlo hhi⟩
    · refine ⟨k, hk, ?_⟩
      split at hdiff
      · rename_i e he
        have hlt : d < e := by simpa using hdiff
        have hagree := (agreeBelow_of_differingBit he).mono hlt.le
        split at hagree
        · exact hagree.symm
        · exact hends.trans hagree.symm
      · cases hdiff
  · rintro ⟨k, hk, hcovers⟩
    have hcovers : AgreeBelow d (left.minKey key) k := hcovers
    -- a covered key outside the range agrees with the nearer end in the bit `d` as well
    have hbeyond : ∀ x : K, k ≠ x → AgreeBelow d x k → bit x d = bit k d →
        (match differingBit k x with
        | some difference => decide (difference > d)
        | none => false) = true := by
      intro x hne hagree hbit
      cases he : differingBit k x with
      | none => exact absurd (differingBit_eq_none.mp he) hne
      | some e =>
          have hsucc : AgreeBelow (d + 1) k x := by
            intro i hi
            rcases Nat.lt_succ_iff_lt_or_eq.mp hi with hi | rfl
            · exact (hagree i hi).symm
            · exact hbit.symm
          have := (agreeBelow_iff_le he).mp hsucc
          simp only [gt_iff_lt, decide_eq_true_eq]
          omega
    rcases lt_or_ge k (left.minKey key) with hlt | hge
    · refine Or.inr ⟨k, hk, ?_⟩
      rw [if_pos hlt]
      exact hbeyond _ hlt.ne hcovers
        (hlmin.trans (bit_anti hcovers.symm hbits hlt.le hlmin).symm)
    · rcases lt_or_ge (right.maxKey key) k with hgt | hle
      · refine Or.inr ⟨k, hk, ?_⟩
        rw [if_neg (not_lt_of_ge hge)]
        have hagree := hends.symm.trans hcovers
        exact hbeyond _ hgt.ne' hagree
          (hrmax.trans (bit_mono hagree hbits hgt.le hrmax).symm)
      · exact Or.inl ⟨k, hk, hge, hle⟩

/-- A branch that covers a selected key is expanded. -/
theorem sideNodes_branch {d : Nat} {left right : Trie L} {keys : List K}
    (hcan : (Trie.branch d left right).Canonical key)
    (h : SortedBy key (Trie.branch d left right).leaves) (hkeys : SortedBy id keys)
    (hcovers : ∃ k ∈ keys, (Trie.branch d left right).Covers key k) :
    sideNodes (nodeOf B256 (Trie.branch d left right)) keys = (do
      let leftNodes ← sideNodes (nodeOf B256 left) keys
      let rightNodes ← sideNodes (nodeOf B256 right) keys
      .ok (leftNodes ++ rightNodes)) := by
  have hd := (hcan.children h).1
  have haffected := (affected_iff hcan h hkeys
      (rfl : joined d (commit B256 left) _ = _)).mpr hcovers
  simp only [nodeOf, sideNodes, commitment_nodeOf, Outcome.expect_some, Outcome.ok_bind, commit_max,
    commit_min, hd]
  rw [if_pos]
  exact haffected

/-- A tree that covers no selected key is a side node itself. -/
theorem sideNodes_of_not_covers {t : Trie L} {keys : List K} (hcan : t.Canonical key)
    (h : SortedBy key t.leaves) (hkeys : SortedBy id keys)
    (hcovers : ∀ k ∈ keys, ¬ t.Covers key k) :
    sideNodes (nodeOf B256 t) keys = .ok [(commit B256 t).toSubtree] := by
  cases t with
  | leaf a =>
      have hfalse : selectedIn keys (leaf a : Commitment B256 K) = false := by
        rw [← Bool.not_eq_true, selectedIn_iff hkeys]
        rintro ⟨k, hk, hlo, hhi⟩
        exact hcovers k hk (le_antisymm hlo hhi)
      simp [nodeOf, sideNodes, hfalse, commit]
  | branch d left right =>
      have hd := (hcan.children h).1
      have haffected := affected_iff hcan h hkeys (rfl : joined d (commit B256 left) _ = _)
      simp only [nodeOf, sideNodes, commitment_nodeOf, Outcome.expect_some, Outcome.ok_bind,
        commit_max, commit_min, hd]
      rw [if_neg]
      · rfl
      · intro haff
        rcases haffected.mp haff with ⟨k, hk, hc⟩
        exact hcovers k hk hc

variable (B256) in
/-- The side nodes of a canonical tree: canonical subtrees that together hold the
leaves that are not selected; none covers a selected key or a key of another. -/
theorem sideNodes_nodeOf {t : Trie L} {keys : List K} (hcan : t.Canonical key)
    (h : SortedBy key t.leaves) (hkeys : SortedBy id keys) :
    ∃ ss : List (Trie L),
      sideNodes (nodeOf B256 t) keys = .ok (ss.map fun s => (commit B256 s).toSubtree) ∧
        ss.flatMap Trie.leaves = t.leaves.filter (fun a => key a ∉ keys) ∧
        (∀ s ∈ ss, s.Canonical key ∧ ∀ k ∈ keys, ¬ s.Covers key k) ∧
        ss.Pairwise (Trie.Apart key) := by
  by_cases hcovers : ∀ k ∈ keys, ¬ t.Covers key k
  · refine ⟨[t], sideNodes_of_not_covers hcan h hkeys hcovers, ?_, ?_, List.pairwise_singleton _ _⟩
    · rw [List.flatMap_singleton, List.filter_eq_self.mpr]
      intro a ha
      have hrange := Trie.between h ha
      exact decide_eq_true fun hmem =>
        hcovers _ hmem (hcan.covers_of_between hrange.1 hrange.2)
    · intro s hs
      rw [List.mem_singleton.mp hs]
      exact ⟨hcan, hcovers⟩
  · push Not at hcovers
    cases t with
    | leaf a =>
        rcases hcovers with ⟨k, hk, rfl⟩
        have hselected : selectedIn keys (leaf a : Commitment B256 K) = true :=
          (selectedIn_iff hkeys).mpr ⟨key a, hk, le_rfl, le_rfl⟩
        refine ⟨[], ?_, by simp [Trie.leaves, hk], by simp, List.Pairwise.nil⟩
        simp [nodeOf, sideNodes, hselected]
    | branch d left right =>
        rcases Trie.sorted_branch h with ⟨hl, hr, _⟩
        have hbits := differingBit_lt_bits (hcan.children h).1
        rcases sideNodes_nodeOf hcan.1 hl hkeys with ⟨sl, hsl, hslleaves, hslall, hslapart⟩
        rcases sideNodes_nodeOf hcan.2.1 hr hkeys with ⟨sr, hsr, hsrleaves, hsrall, hsrapart⟩
        refine ⟨sl ++ sr, ?_, ?_, ?_, ?_⟩
        · rw [sideNodes_branch hcan h hkeys hcovers]
          simp [hsl, hsr]
        · simp [Trie.leaves, hslleaves, hsrleaves]
        · intro s hs
          rcases List.mem_append.mp hs with hs | hs
          · exact hslall s hs
          · exact hsrall s hs
        · refine List.pairwise_append.mpr ⟨hslapart, hsrapart, ?_⟩
          intro s hs s' hs'
          have hsub : ∀ a ∈ s.leaves, a ∈ left.leaves := fun a ha =>
            List.mem_of_mem_filter (hslleaves ▸ List.mem_flatMap.mpr ⟨s, hs, ha⟩)
          have hsub' : ∀ a ∈ s'.leaves, a ∈ right.leaves := fun a ha =>
            List.mem_of_mem_filter (hsrleaves ▸ List.mem_flatMap.mpr ⟨s', hs', ha⟩)
          have hagree : ∀ a ∈ left.leaves, ∀ b ∈ right.leaves, AgreeBelow d (key a) (key b) :=
            fun a ha b hb => (hcan.agreeBelow h (List.mem_append_left _ ha)).symm.trans
              (hcan.agreeBelow h (List.mem_append_right _ hb))
          rcases hcan with ⟨_, _, _, hzero, hone⟩
          constructor
          · intro b hb
            exact (hslall s hs).1.not_covers_across hbits
              (fun a ha => hagree a (hsub a ha) b (hsub' b hb))
              (fun a ha => hzero a (hsub a ha)) (hone b (hsub' b hb))
          · intro a ha
            exact (hsrall s' hs').1.not_covers_across hbits
              (fun b hb => (hagree a (hsub a ha) b (hsub' b hb)).symm)
              (fun b hb => hone b (hsub' b hb)) (hzero a (hsub a ha))

/-! ## Reconstruction succeeds -/

/-- Nodes that are the commitments of tries, none of which covers a key of another, are
always combined: no node straddles the bit at which the nodes split. -/
theorem exists_combined {ts : List (Trie L)} (hne : ts ≠ [])
    (hcan : ∀ s ∈ ts, s.Canonical key) (hapart : ts.Pairwise (Trie.Apart key))
    (hnodes : Ordered (ts.map (commit B256))) : ∃ c, Combined (ts.map (commit B256)) c := by
  induction hlen : ts.length using Nat.strong_induction_on generalizing ts with
  | _ n ih =>
      subst hlen
      rcases Nat.lt_or_ge (ts.map (commit B256)).length 2 with hlt | hge
      · rcases ts with _ | ⟨t, _ | ⟨t', ts⟩⟩
        · exact absurd rfl hne
        · exact ⟨commit B256 t, Combined.single _⟩
        · simp only [List.map_cons, List.length_cons] at hlt
          omega
      · have hne' : ts.map (commit B256) ≠ [] := by simpa using hne
        have hfirst := List.head?_eq_some_head hne'
        have hlast := List.getLast?_eq_some_getLast hne'
        rcases hnodes.exists_split hge hfirst hlast with ⟨d, xs, ys, hd, hsplit, hxs, hys, hzero⟩
        have hends := bits_of_differingBit hd (hnodes.first_lt_last hge hfirst hlast)
        have hshared : ∀ s ∈ ts,
            AgreeBelow d ((ts.map (commit B256)).head hne').min (s.minKey key) ∧
            AgreeBelow d ((ts.map (commit B256)).head hne').min (s.maxKey key) := fun s hs => by
          simpa using hnodes.agreeBelow hfirst hlast hd (List.mem_map_of_mem hs)
        generalize (ts.map (commit B256)).head hne' = first at *
        generalize (ts.map (commit B256)).getLast hne' = last at *
        rcases List.map_eq_append_iff.mp hsplit with ⟨as, bs, rfl, rfl, rfl⟩
        -- a straddling trie would cover the keys of every other trie
        have hstraddle : ∀ s ∈ as ++ bs, bit (s.maxKey key) d = true →
            bit (s.minKey key) d = true := by
          intro s hs hmax
          by_contra hmin
          have hsd : differingBit (s.minKey key) (s.maxKey key) = some d :=
            differingBit_of_agreeBelow (differingBit_lt_bits hd)
              ((hshared s hs).1.symm.trans (hshared s hs).2) (by simpa using hmin) hmax
          rcases List.append_of_mem hs with ⟨us, vs, husvs⟩
          have hother : ∃ s' ∈ us ++ vs, s'.Apart key s := by
            rw [husvs] at hapart
            rcases List.pairwise_append.mp hapart with ⟨_, hsvs, hcross⟩
            rcases us with _ | ⟨u, us⟩
            · rcases vs with _ | ⟨v, vs⟩
              · rw [List.length_map, husvs] at hge
                simp at hge
              · exact ⟨v, by simp, ((List.pairwise_cons.mp hsvs).1 v (by simp)).symm⟩
            · exact ⟨u, by simp, hcross u (by simp) s (by simp)⟩
          rcases hother with ⟨s', hs', hs'apart⟩
          rcases s'.exists_mem_minKey key with ⟨a, ha, hakey⟩
          have hmem' : s' ∈ as ++ bs := by
            rw [husvs]
            rcases List.mem_append.mp hs' with hs' | hs'
            · exact List.mem_append_left _ hs'
            · exact List.mem_append_right _ (List.mem_cons_of_mem _ hs')
          refine hs'apart.2 a ha ((hcan s hs).covers_of_straddle hsd ?_)
          rw [hakey]
          exact (hshared s hs).1.symm.trans (hshared s' hmem').1
        have hone : ∀ s ∈ bs, bit (s.minKey key) d = true := fun s hs =>
          hstraddle s (List.mem_append_right _ hs)
            (by simpa using hys _ (List.mem_map_of_mem hs))
        have hasne : as ≠ [] := by
          rintro rfl
          rcases List.mem_map.mp (List.mem_of_head? hfirst) with ⟨s, hs, rfl⟩
          have hfirst1 := hone s (by simpa using hs)
          have hfirst0 := hends.1
          rw [commit_min, hfirst1] at hfirst0
          cases hfirst0
        have hbsne : bs ≠ [] := by
          rintro rfl
          rcases List.mem_map.mp (List.mem_of_getLast? hlast) with ⟨s, hs, rfl⟩
          have := hxs _ (List.mem_map_of_mem (by simpa using hs))
          rw [hends.2] at this
          cases this
        have haslen := List.length_pos_iff.mpr hasne
        have hbslen := List.length_pos_iff.mpr hbsne
        rw [List.map_append] at hnodes hfirst hlast
        rcases List.pairwise_append.mp hapart with ⟨hapartl, hapartr, _⟩
        obtain ⟨cl, hcl⟩ := ih _ (by rw [List.length_append]; omega) hasne
          (fun s hs => hcan s (List.mem_append_left _ hs)) hapartl hnodes.left rfl
        obtain ⟨cr, hcr⟩ := ih _ (by rw [List.length_append]; omega) hbsne
          (fun s hs => hcan s (List.mem_append_right _ hs)) hapartr hnodes.right rfl
        rw [List.map_append]
        refine ⟨joined d cl cr, Combined.join hcl hcr ?_ ?_ ?_⟩
        · rcases hcl.exists_head with ⟨f, hf, hfmin⟩
          rcases hcr.exists_getLast with ⟨l, hl, hlmax⟩
          rw [List.head?_append, hf, Option.some_or, Option.some.injEq] at hfirst
          rw [List.getLast?_append, hl, Option.some_or, Option.some.injEq] at hlast
          rw [← hfmin, ← hlmax, hfirst, hlast, hd]
        · exact fun n hn => ⟨hzero n hn, hxs n hn⟩
        · intro n hn
          refine ⟨?_, hys n hn⟩
          rcases List.mem_map.mp hn with ⟨s, hs, rfl⟩
          simpa using hone s hs

/-! ## Honest proofs -/

variable (B256) in
/-- An honest proof lists the selected keys in order, and its side nodes are canonical
subtrees holding the leaves that are not selected, apart from each other and from
the selected keys. -/
theorem buildMultiproof_eq_ok {old : List L} {selected : List K} (hold : (old.map key).Nodup)
    (hne : selected ≠ []) (hnodup : selected.Nodup) :
    ∃ (proof : PatriciaMultiproof B256 K) (ss : List (Trie L)),
      buildMultiproof old selected = .ok proof ∧ proof.leafKeys.Perm selected ∧
        SortedBy id proof.leafKeys ∧
        proof.sideNodes.map PatriciaSubtree.toCommitment = ss.map (commit B256) ∧
        SortedBy key (ss.flatMap Trie.leaves) ∧
        (ss.flatMap Trie.leaves).Perm (old.filter fun a => key a ∉ selected) ∧
        (∀ s ∈ ss, s.Canonical key ∧ ∀ k ∈ selected, ¬ s.Covers key k) ∧
        ss.Pairwise (Trie.Apart key) := by
  have hkeysperm := sortByKey_perm id selected
  have hkeys : SortedBy id (sortByKey id selected) :=
    SortedBy.of_nodup (sortByKey_pairwise id selected)
      (by simpa using hkeysperm.nodup_iff.mpr hnodup)
  rcases exists_sorted hold with ⟨l, hl, hperm, hsorted⟩
  generalize hk : sortByKey id selected = keys at hkeysperm hkeys
  have hadjacent : anyAdjacent (fun a b => decide (a = b)) keys = false :=
    anyAdjacent_eq_false (hkeys.imp fun hab => by simpa using hab.ne)
  have hbuild : ∀ tree : Node B256 K, build l = .ok tree →
      (buildMultiproof old selected : Outcome PatriciaError (PatriciaMultiproof B256 K)) = (do
        let proofNodes ← sideNodes tree keys
        .ok ⟨keys, proofNodes⟩) := by
    intro tree htree
    simp [buildMultiproof, Outcome.rejectIf, hne, hk, hadjacent, hl, htree]
  rcases eq_or_ne l [] with rfl | hlne
  · have hnil : old = [] := hperm.symm.eq_nil
    subst hnil
    refine ⟨⟨keys, []⟩, [], ?_, hkeysperm, hkeys, rfl, SortedBy.nil, by simp, by simp,
      List.Pairwise.nil⟩
    rw [hbuild .empty (by rw [build])]
    rfl
  · rcases Trie.exists_canonical hsorted hlne with ⟨t, hcan, rfl⟩
    rcases sideNodes_nodeOf B256 hcan hsorted hkeys with ⟨ss, hss, hleaves, hall, hapart⟩
    have hfilter : ss.flatMap Trie.leaves = t.leaves.filter fun a => key a ∉ selected := by
      rw [hleaves]
      refine List.filter_congr fun a _ => ?_
      simp only [hkeysperm.mem_iff]
    refine ⟨⟨keys, ss.map fun s => (commit B256 s).toSubtree⟩, ss, ?_, hkeysperm, hkeys, ?_, ?_,
      ?_, ?_, hapart⟩
    · rw [hbuild _ (build_leaves hcan hsorted), hss]
      rfl
    · simp [Function.comp_def]
    · rw [hfilter]
      exact List.Pairwise.filter _ hsorted
    · rw [hfilter]
      exact hperm.filter _
    · exact fun s hs => ⟨(hall s hs).1, fun k hk => (hall s hs).2 k (hkeysperm.mem_iff.mpr hk)⟩

/-- Every update of the selected leaves is reconstructed from an honest proof. -/
theorem computeRootFromProof_complete {old V : List L} {selected : List K}
    {proof : PatriciaMultiproof B256 K} (hold : (old.map key).Nodup) (hne : selected ≠ [])
    (hnodup : selected.Nodup) (hproof : buildMultiproof old selected = .ok proof)
    (hV : (V.map key).Nodup) (hselected : ∀ v ∈ V, key v ∈ selected) :
    ∃ root, computeRootFromProof V proof = .ok root ∧
      computeRoot ((old.filter fun a => key a ∉ selected) ++ V) = .ok root := by
  rcases buildMultiproof_eq_ok B256 hold hne hnodup with
    ⟨proof', ss, hproof', hkeysperm, hkeys, hss, hsssorted, hssperm, hall, hapart⟩
  rw [hproof] at hproof'
  cases hproof'
  rcases Trie.sortedBy_flatMap_leaves.mp hsssorted with ⟨hssall, hsslt⟩
  rcases exists_sorted hV with ⟨vs, _, hvs, hvsorted⟩
  have hsides : Ordered (proof.sideNodes.map PatriciaSubtree.toCommitment) := by
    rw [hss]
    constructor
    · intro n hn
      rcases List.mem_map.mp hn with ⟨s, hs, rfl⟩
      simpa using Trie.minKey_le_maxKey (hssall s hs)
    · rw [List.pairwise_map]
      exact hsslt.imp fun hst => by simpa using hst
  have hoff : ∀ n ∈ proof.sideNodes, ∀ k ∈ selected, ¬ (n.minKey ≤ k ∧ k ≤ n.maxKey) := by
    intro n hn k hk hrange
    have hmem : n.toCommitment ∈ ss.map (commit B256) := hss ▸ List.mem_map_of_mem hn
    rcases List.mem_map.mp hmem with ⟨s, hs, hsn⟩
    have hmin : s.minKey key = n.minKey := (commit_min s).symm.trans (congrArg Commitment.min hsn)
    have hmax : s.maxKey key = n.maxKey := (commit_max s).symm.trans (congrArg Commitment.max hsn)
    rcases hall s hs with ⟨hcan, hcovers⟩
    exact hcovers k hk (hcan.covers_of_between (hmin ▸ hrange.1) (hmax ▸ hrange.2))
  have hwf : proof.WellFormed := by
    refine ⟨?_, hkeys, hsides, fun n hn k hk => hoff n hn k (hkeysperm.mem_iff.mp hk)⟩
    intro hnil
    rw [hnil] at hkeysperm
    exact hne hkeysperm.symm.eq_nil
  have hvskeys : ∀ v ∈ vs, key v ∈ selected := fun v hv => hselected v (hvs.mem_iff.mp hv)
  have hnodes : Ordered (mergeNodes (vs.map leaf) proof.sideNodes) := by
    refine ⟨fun n hn => le_of_mem_mergeNodes hwf hn, mergeNodes_pairwise ?_ hsides ?_ ?_⟩
    · rw [List.pairwise_map]
      exact hvsorted
    · intro a ha
      rcases List.mem_map.mp ha with ⟨v, _, rfl⟩
      rfl
    · intro a ha n hn
      rcases List.mem_map.mp ha with ⟨v, hv, rfl⟩
      exact hoff n hn _ (hvskeys v hv)
  rcases exists_perm_of_perm_map (merge_perm_tries vs hss) with ⟨ts, hts, hperm⟩
  have hcan : ∀ s ∈ ts, s.Canonical key ∧ SortedBy key s.leaves := by
    intro s hs
    rcases List.mem_append.mp (hperm.mem_iff.mp hs) with hs | hs
    · rcases List.mem_map.mp hs with ⟨v, _, rfl⟩
      exact ⟨trivial, List.pairwise_singleton _ v⟩
    · exact ⟨(hall s hs).1, hssall s hs⟩
  have htsapart : ts.Pairwise (Trie.Apart key) := by
    refine (hperm.pairwise_iff fun h => h.symm).mpr (List.pairwise_append.mpr ⟨?_, hapart, ?_⟩)
    · rw [List.pairwise_map]
      refine hvsorted.imp fun {a b} hab => ⟨?_, ?_⟩
      · simpa [Trie.leaves, Trie.Covers] using hab.ne
      · simpa [Trie.leaves, Trie.Covers] using hab.ne'
    · intro t ht s hs
      rcases List.mem_map.mp ht with ⟨v, hv, rfl⟩
      refine ⟨?_, by simpa [Trie.leaves] using (hall s hs).2 _ (hvskeys v hv)⟩
      intro a ha hcovers
      have hout := List.of_mem_filter (hssperm.mem_iff.mp (List.mem_flatMap.mpr ⟨s, hs, ha⟩))
      have hkey : key v = key a := hcovers
      rw [← hkey] at hout
      exact of_decide_eq_true hout (hvskeys v hv)
  rw [hts] at hnodes
  have hok : ∃ o, combine (ts.map (commit B256)) = .ok o := by
    rcases eq_or_ne ts [] with rfl | htsne
    · exact ⟨none, combine_eq_ok_none.mpr rfl⟩
    · rcases exists_combined htsne (fun s hs => (hcan s hs).1) htsapart hnodes with ⟨c, hc⟩
      exact ⟨some c, (combine_eq_ok_iff hnodes).mpr hc⟩
  rcases hok with ⟨o, ho⟩
  refine ⟨finalize o, ?_, ?_⟩
  · refine computeRootFromProof_eq_ok_iff.mpr ⟨hwf, vs, hvs, hvsorted,
      fun v hv => hkeysperm.mem_iff.mpr (hvskeys v hv), ?_, o, ?_, rfl⟩
    · rw [hts]
      exact hnodes
    · rw [hts]
      exact ho
  · exact computeRoot_of_combine hcan hnodes ho (leaves_perm_of_merge hperm hvs hssperm)

/-- Completeness: an honest proof exists, and from it the root after any change,
insertion or deletion of selected leaves is reconstructed; with the selected
leaves unchanged, the old root. -/
theorem multiproof_complete {old : List L} {selected : List K} (hold : (old.map key).Nodup)
    (hne : selected ≠ []) (hnodup : selected.Nodup) :
    ∃ proof : PatriciaMultiproof B256 K, buildMultiproof old selected = .ok proof ∧
      (∀ V : List L, (V.map key).Nodup → (∀ v ∈ V, key v ∈ selected) →
        ∃ root, computeRootFromProof V proof = .ok root ∧
          computeRoot ((old.filter fun a => key a ∉ selected) ++ V) = .ok root) ∧
      ∃ root, computeRootFromProof (old.filter fun a => key a ∈ selected) proof = .ok root ∧
        computeRoot old = .ok root := by
  rcases buildMultiproof_eq_ok B256 hold hne hnodup with ⟨proof, _, hproof, _⟩
  refine ⟨proof, hproof, fun V hV hselected =>
    computeRootFromProof_complete hold hne hnodup hproof hV hselected, ?_⟩
  obtain ⟨root, hroot, hnew⟩ :=
    computeRootFromProof_complete hold hne hnodup hproof
      ((List.filter_sublist.map key).nodup hold)
      (fun v hv => of_decide_eq_true (List.mem_filter.mp hv).2)
  refine ⟨root, hroot, ?_⟩
  rw [← hnew]
  refine computeRoot_perm hold ?_
  have hsplit := List.filter_append_perm (fun a => decide (key a ∈ selected)) old
  refine (List.perm_append_comm.trans ?_).symm
  simpa using hsplit

theorem multiproof_complete_test :
    ∃ proof : PatriciaMultiproof IdealDigest (FixedBytes 1),
      buildMultiproof testLeaves [⟨[50], rfl⟩, ⟨[1], rfl⟩] = .ok proof ∧
        (∀ V : List TestLeaf, (V.map key).Nodup →
          (∀ v ∈ V, key v ∈ [(⟨[50], rfl⟩ : FixedBytes 1), ⟨[1], rfl⟩]) →
          ∃ root, computeRootFromProof V proof = .ok root ∧
            computeRoot ((testLeaves.filter fun a =>
              key a ∉ [(⟨[50], rfl⟩ : FixedBytes 1), ⟨[1], rfl⟩]) ++ V) = .ok root) ∧
        ∃ root, computeRootFromProof (testLeaves.filter fun a =>
            key a ∈ [(⟨[50], rfl⟩ : FixedBytes 1), ⟨[1], rfl⟩]) proof = .ok root ∧
          computeRoot testLeaves = .ok root :=
  multiproof_complete (by decide) (by decide) (by decide)

end Patricia

end ZkClob
