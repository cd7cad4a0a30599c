import ZkClob.Contracts.PatriciaProof
import ZkClob.Trees.PatriciaCompleteness

/-!
# The fold of the contract and the general reconstruction

The account tree rebuilds a root by dividing the nodes at the bits in which their ends
differ.  Above a single leaf the same root is reached by joining the side nodes to it one
at a time, the deepest first, as long as no two of them branch off at the same depth.

Main results:

- Theorem {lit}`PatriciaProof.exists_order`: the order in which side nodes of different
  depths are joined to the leaf, and what the fold gives.
- Theorem {lit}`PatriciaProof.verifyAccount_of_proof`: the fold against an accepted proof.
- Theorem {lit}`PatriciaProof.nodup_depths`: the side nodes of an honest proof branch off
  at different depths.
- Theorem {lit}`PatriciaProof.verifyAccount_refines`: the two verifiers agree.
-/

namespace ZkClob

open Foundations Patricia

namespace PatriciaProof

open BitKey

variable {B256 : Type}

/-! ## Depths -/

section

variable {id : Address} {node : SideNode B256} {d e : Nat}

/-- The end of a node that is nearer to a key outside of its range. -/
theorem boundary_cases (id : Address) (node : SideNode B256) (P : Address → Prop)
    (hmin : P node.minKey) (hmax : P node.maxKey) :
    P (if node.maxKey < id then node.maxKey else node.minKey) := by
  split
  · exact hmax
  · exact hmin

/-- A node on the other side of a bit branches off at that bit. -/
theorem branchDepth_across {β : Bool} (hd : d < BITS Address) (hid : BitKey.bit id d = !β)
    (hmin : AgreeBelow d id node.minKey ∧ BitKey.bit node.minKey d = β)
    (hmax : AgreeBelow d id node.maxKey ∧ BitKey.bit node.maxKey d = β) :
    branchDepth id node = some d := by
  refine boundary_cases id node (fun key => BitKey.differingBit id key = some d) ?_ ?_
  · exact differingBit_eq_some.mpr ⟨hd, hmin.1, by simp [hid, hmin.2]⟩
  · exact differingBit_eq_some.mpr ⟨hd, hmax.1, by simp [hid, hmax.2]⟩

/-- A node on the same side of a bit branches off behind that bit. -/
theorem lt_branchDepth {β : Bool} (he : branchDepth id node = some e) (hid : BitKey.bit id d = β)
    (hmin : AgreeBelow d id node.minKey ∧ BitKey.bit node.minKey d = β)
    (hmax : AgreeBelow d id node.maxKey ∧ BitKey.bit node.maxKey d = β) : d < e := by
  have hagree : ∀ key : Address, AgreeBelow d id key ∧ BitKey.bit key d = β →
      AgreeBelow (d + 1) id key := by
    rintro key ⟨hkey, hbit⟩ i hi
    rcases Nat.lt_succ_iff_lt_or_eq.mp hi with hi | rfl
    · exact hkey i hi
    · exact hid.trans hbit.symm
  have := (agreeBelow_iff_le he).mp
    (boundary_cases id node (AgreeBelow (d + 1) id) (hagree _ hmin) (hagree _ hmax))
  omega

/-- The depths of the side nodes are found. -/
theorem mapM_sideDepth_eq_ok [MathLibrary] {sides : List (SideNode B256)}
    {entries : List (U256 × SideNode B256)} :
    sides.mapM (sideDepth id) = .ok entries ↔
      entries.map Prod.snd = sides ∧ ∀ e ∈ entries, branchDepth id e.2 = some e.1.toNat := by
  rw [Outcome.mapM_eq_ok]
  constructor
  · intro h
    induction h with
    | nil => simp
    | cons hnode _ ih =>
        rcases sideDepth_eq_ok.mp hnode with ⟨hdepth, rfl⟩
        simpa [hdepth] using ih
  · rintro ⟨rfl, hdepths⟩
    induction entries with
    | nil => exact List.Forall₂.nil
    | cons entry entries ih =>
        rcases List.forall_mem_cons.mp hdepths with ⟨hentry, hentries⟩
        exact List.Forall₂.cons (sideDepth_eq_ok.mpr ⟨hentry, rfl⟩) (ih hentries)

/-- Entries whose depths are the depths of their nodes. -/
theorem entries_perm {l m : List (U256 × SideNode B256)}
    (hl : ∀ e ∈ l, branchDepth id e.2 = some e.1.toNat)
    (hm : ∀ e ∈ m, branchDepth id e.2 = some e.1.toNat)
    (h : (l.map Prod.snd).Perm (m.map Prod.snd)) : l.Perm m := by
  have hmap : ∀ k : List (U256 × SideNode B256), (∀ e ∈ k, branchDepth id e.2 = some e.1.toNat) →
      (k.map Prod.snd).map
        (fun node => (BitVec.ofNat 256 ((branchDepth id node).getD 0), node)) = k := by
    intro k hk
    rw [List.map_map]
    conv_rhs => rw [← List.map_id k]
    refine List.map_congr_left fun e he => ?_
    simp [hk e he]
  rw [← hmap l hl, ← hmap m hm]
  exact h.map _

/-- Nodes in the order of falling depth have different depths. -/
theorem Falling.nodup {entries : List (U256 × SideNode B256)} (hfalling : Falling entries)
    (h : ∀ e ∈ entries, branchDepth id e.2 = some e.1.toNat) :
    ((entries.map Prod.snd).map (branchDepth id)).Nodup := by
  have hmap : (entries.map Prod.snd).map (branchDepth id) =
      entries.map fun entry => some entry.1.toNat := by
    rw [List.map_map]
    exact List.map_congr_left h
  rw [hmap, List.Nodup, List.pairwise_map]
  exact hfalling.imp fun hlt heq => absurd (Option.some.inj heq) hlt.ne'

end

/-! ## The order in which the nodes are joined -/

section

variable [MathLibrary] [Sha256 B256]

/-- An order in which side nodes are joined to a start, the deepest first, and the
commitment that this gives. -/
structure JoinOrder (id : Address) (start : Commitment B256 Address)
    (sides : List (Commitment B256 Address)) (c : Commitment B256 Address)
    (order : List (U256 × SideNode B256)) : Prop where
  perm : (order.map Prod.snd).Perm (sides.map Commitment.toSubtree)
  depth : ∀ e ∈ order, branchDepth id e.2 = some e.1.toNat
  falling : Falling order
  fold : order.foldlM foldNode start = .ok c

/-- A node before the current one is joined on its left. -/
theorem foldNode_left {current node : Commitment B256 Address} {depth : U256}
    (h : node.max < current.min) :
      foldNode current (depth, node.toSubtree) = combine node current :=
  if_pos (uint160_lt.mpr h)

/-- Any other node is joined on its right. -/
theorem foldNode_right {current node : Commitment B256 Address} {depth : U256}
    (h : current.min ≤ node.max) :
      foldNode current (depth, node.toSubtree) = combine current node :=
  if_neg fun hlt => absurd (uint160_lt.mp hlt) (not_lt_of_ge h)

/-- A node that branches off above all others is joined last. -/
theorem JoinOrder.snoc {id : Address} {start inner c node : Commitment B256 Address}
    {sides sides' : List (Commitment B256 Address)} {order : List (U256 × SideNode B256)} {d : Nat}
    (h : JoinOrder id start sides inner order) (hd : d < 160)
    (hnode : branchDepth id node.toSubtree = some d)
    (hbelow : ∀ n ∈ sides, ∀ e, branchDepth id n.toSubtree = some e → d < e)
    (hstep : foldNode inner (BitVec.ofNat 256 d, node.toSubtree) = .ok c)
    (hsides : (sides ++ [node]).Perm sides') :
    JoinOrder id start sides' c (order ++ [(BitVec.ofNat 256 d, node.toSubtree)]) := by
  have hdepth : (BitVec.ofNat 256 d).toNat = d := by
    rw [BitVec.toNat_ofNat, Nat.mod_eq_of_lt (by omega)]
  refine ⟨?_, ?_, ?_, ?_⟩
  · have hperm := (h.perm.append_right [node.toSubtree]).trans
      (by simpa using hsides.map Commitment.toSubtree)
    simpa using hperm
  · intro e he
    rcases List.mem_append.mp he with he | he
    · exact h.depth e he
    · rw [List.mem_singleton.mp he, hdepth]
      exact hnode
  · refine List.pairwise_append.mpr ⟨h.falling, List.pairwise_singleton _ _, ?_⟩
    intro e he e' he'
    rw [List.mem_singleton.mp he', hdepth]
    rcases List.mem_map.mp (h.perm.mem_iff.mp (List.mem_map_of_mem he)) with ⟨n, hn, hsubtree⟩
    exact hbelow n hn _ (hsubtree ▸ h.depth e he)
  · rw [List.foldlM_append, h.fold, Outcome.ok_bind, List.foldlM_cons, hstep]
    rfl

omit [MathLibrary] [Sha256 B256] in
/-- Nodes of one depth are a single node when the depths are distinct. -/
theorem exists_singleton {α β : Type} {f : α → β} {b : β} {l : List α} (hne : l ≠ [])
    (hnodup : (l.map f).Nodup) (hconst : ∀ a ∈ l, f a = b) : ∃ a, l = [a] := by
  rcases l with _ | ⟨a, _ | ⟨a', l⟩⟩
  · exact absurd rfl hne
  · exact ⟨a, rfl⟩
  · have heq : f a = f a' := (hconst a (by simp)).trans (hconst a' (by simp)).symm
    simp [heq] at hnodup

omit [MathLibrary] [Sha256 B256] in
/-- Where an element stands in two sequences behind each other. -/
theorem append_eq_append_cons {α : Type} {us vs xs ys : List α} {a : α}
    (h : us ++ vs = xs ++ a :: ys) :
    (∃ as, xs = us ++ as ∧ vs = as ++ a :: ys) ∨ ∃ bs, us = xs ++ a :: bs ∧ ys = bs ++ vs := by
  rcases List.append_eq_append_iff.mp h with ⟨as, hxs, hvs⟩ | ⟨bs, hus, hys⟩
  · exact Or.inl ⟨as, hxs, hvs⟩
  · cases bs with
    | nil => exact Or.inl ⟨[], by simpa using hus.symm, by simpa using hys.symm⟩
    | cons b bs =>
        rw [List.cons_append, List.cons.injEq] at hys
        rcases hys with ⟨rfl, rfl⟩
        exact Or.inr ⟨bs, hus, rfl⟩

/-- Side nodes of different depths are joined to the leaf in the order of falling depth:
at every join the other side is a single node. -/
theorem exists_order {nodes : List (Commitment B256 Address)} {c : Commitment B256 Address}
    (h : Combined nodes c) (hordered : Ordered nodes) {id : Address}
    {start : Commitment B256 Address} (hmin : start.min = id) (hmax : start.max = id)
    {xs ys : List (Commitment B256 Address)} (hsplit : nodes = xs ++ start :: ys)
    (hnodup : ((xs ++ ys).map fun n => branchDepth id n.toSubtree).Nodup) :
    ∃ order, JoinOrder id start (xs ++ ys) c order := by
  induction h generalizing xs ys with
  | single node =>
      have hlen := congrArg List.length hsplit
      simp only [List.length_nil, List.length_append, List.length_cons] at hlen
      obtain rfl : xs = [] := List.eq_nil_of_length_eq_zero (by omega)
      obtain rfl : ys = [] := List.eq_nil_of_length_eq_zero (by omega)
      obtain rfl : node = start := by simpa using hsplit
      exact ⟨[], List.Perm.refl _, by simp, List.Pairwise.nil, rfl⟩
  | @join d us vs left right hleft hright hdepth hzero hone ihl ihr =>
      have hbits : d < 160 := differingBit_lt_bits hdepth
      have hstart : start ∈ us ++ vs := by simp [hsplit]
      have hagree : ∀ n ∈ us ++ vs, AgreeBelow d id n.min ∧ AgreeBelow d id n.max := by
        intro n hn
        have hid := (Combined.agreeBelow hordered hleft hright hdepth hstart).1.symm
        rw [hmin] at hid
        have hnagree := Combined.agreeBelow hordered hleft hright hdepth hn
        exact ⟨hid.trans hnagree.1, hid.trans hnagree.2⟩
      have hjoin := combine_eq_ok.mpr
        (Combined.branch_eq_ok hordered hleft hright hdepth hzero hone)
      rcases List.pairwise_append.mp hordered.lt with ⟨_, _, hcross⟩
      rcases append_eq_append_cons hsplit with ⟨as, rfl, rfl⟩ | ⟨bs, rfl, rfl⟩
      · -- the leaf is on the right, so the left side is a single node
        have hid : BitKey.bit id d = !false := by simpa [hmin] using (hone start (by simp)).1
        have hacross : ∀ n ∈ us, branchDepth id n.toSubtree = some d := fun n hn =>
          branchDepth_across hbits hid
            ⟨(hagree n (List.mem_append_left _ hn)).1, (hzero n hn).1⟩
            ⟨(hagree n (List.mem_append_left _ hn)).2, (hzero n hn).2⟩
        have hinner : ∀ n ∈ as ++ ys, n ∈ as ++ start :: ys := fun n hn => by
          simp only [List.mem_append, List.mem_cons] at hn ⊢
          tauto
        rw [List.append_assoc, List.map_append] at hnodup
        rcases List.nodup_append.mp hnodup with ⟨hus, hrest, _⟩
        rcases exists_singleton hleft.ne_nil hus hacross with ⟨node, rfl⟩
        rcases hleft.eq_of_singleton with rfl
        rcases ihr hordered.right rfl hrest with ⟨order, horder⟩
        rcases hright.exists_mem_min with ⟨b, hb, hbmin⟩
        refine ⟨_, horder.snoc hbits (hacross left (by simp)) ?_ ?_ ?_⟩
        · exact fun n hn e he => lt_branchDepth he hid
            ⟨(hagree n (List.mem_append_right _ (hinner n hn))).1, (hone n (hinner n hn)).1⟩
            ⟨(hagree n (List.mem_append_right _ (hinner n hn))).2, (hone n (hinner n hn)).2⟩
        · have hlt : left.max < right.min := hbmin ▸ hcross left (by simp) b hb
          rw [foldNode_left hlt]
          exact hjoin
        · exact List.perm_append_comm.trans (by simp)
      · -- the leaf is on the left, so the right side is a single node
        have hid : BitKey.bit id d = !true := by simpa [hmin] using (hzero start (by simp)).1
        have hacross : ∀ n ∈ vs, branchDepth id n.toSubtree = some d := fun n hn =>
          branchDepth_across hbits hid
            ⟨(hagree n (List.mem_append_right _ hn)).1, (hone n hn).1⟩
            ⟨(hagree n (List.mem_append_right _ hn)).2, (hone n hn).2⟩
        have hinner : ∀ n ∈ xs ++ bs, n ∈ xs ++ start :: bs := fun n hn => by
          simp only [List.mem_append, List.mem_cons] at hn ⊢
          tauto
        rw [← List.append_assoc, List.map_append] at hnodup
        rcases List.nodup_append.mp hnodup with ⟨hrest, hvs, _⟩
        rcases exists_singleton hright.ne_nil hvs hacross with ⟨node, rfl⟩
        rcases hright.eq_of_singleton with rfl
        rcases ihl hordered.left rfl hrest with ⟨order, horder⟩
        rcases hleft.exists_mem_min with ⟨a, ha, hamin⟩
        refine ⟨_, horder.snoc hbits (hacross right (by simp)) ?_ ?_ ?_⟩
        · exact fun n hn e he => lt_branchDepth he hid
            ⟨(hagree n (List.mem_append_left _ (hinner n hn))).1, (hzero n (hinner n hn)).1⟩
            ⟨(hagree n (List.mem_append_left _ (hinner n hn))).2, (hzero n (hinner n hn)).2⟩
        · have hle : left.min ≤ right.max := by
            have hlt := hcross a ha right (by simp)
            exact hamin ▸ ((hordered.left.le a ha).trans_lt hlt).le.trans
              (hordered.right.le right (by simp))
          rw [foldNode_right hle]
          exact hjoin
        · simp

/-! ## Accounts -/

/-- The contract accepts an account and its side nodes when these can be joined to the
leaf in the order of falling depth. -/
theorem verifyAccount_eq_ok {a : Account} {sides : List (SideNode B256)} {root : B256} :
    verifyAccount a.id a.nextNonce a.balances sides = .ok root ↔
      checkSideNodes a.id none sides = .ok () ∧ ∃ c order,
        JoinOrder a.id (leaf a) (sides.map PatriciaSubtree.toCommitment) c order ∧
          root = finalize (some c) := by
  have hsides : (sides.map PatriciaSubtree.toCommitment).map Commitment.toSubtree = sides := by
    rw [List.map_map]
    exact List.map_id sides
  simp only [verifyAccount, Outcome.bind_eq_ok, root_bytes, mapM_sideDepth_eq_ok, Except.ok.injEq,
    leafHash_eq]
  constructor
  · rintro ⟨_, hcheck, entries, ⟨hnodes, hdepths⟩, order, horder, c, hfold, rfl⟩
    rcases sortByDepth_spec horder (by simp) with ⟨hperm, hfalling, _⟩
    refine ⟨hcheck, c, order, ⟨?_, fun e he => hdepths e (hperm.mem_iff.mp he), hfalling, hfold⟩,
      rfl⟩
    rw [hsides, ← hnodes]
    exact hperm.map _
  · rintro ⟨hcheck, c, order, horder, rfl⟩
    have hperm := horder.perm
    rw [hsides] at hperm
    have hentry : ∀ n ∈ sides,
        branchDepth a.id n = some (BitVec.ofNat 256 ((branchDepth a.id n).getD 0)).toNat := by
      intro n hn
      rcases List.mem_map.mp (hperm.mem_iff.mpr hn) with ⟨e, he, rfl⟩
      simp [horder.depth e he]
    obtain ⟨entries, hnodes, hdepths⟩ : ∃ entries : List (U256 × SideNode B256),
        entries.map Prod.snd = sides ∧ ∀ e ∈ entries, branchDepth a.id e.2 = some e.1.toNat := by
      refine ⟨sides.map fun n => (BitVec.ofNat 256 ((branchDepth a.id n).getD 0), n), ?_, ?_⟩
      · rw [List.map_map]
        exact List.map_id sides
      · intro e he
        obtain ⟨n, hn, rfl⟩ := List.mem_map.mp he
        exact hentry n hn
    have hentries : order.Perm entries := entries_perm horder.depth hdepths (hnodes ▸ hperm)
    have hnodup : (order.map Prod.fst).Nodup := by
      rw [List.Nodup, List.pairwise_map]
      exact horder.falling.imp fun hlt heq => absurd (congrArg BitVec.toNat heq) hlt.ne'
    obtain ⟨order', horder'⟩ : ∃ order', sortByDepth none entries = .ok order' :=
      exists_sortByDepth (by simp) ((hentries.map Prod.fst).nodup_iff.mp hnodup)
    rcases sortByDepth_spec horder' (by simp) with ⟨hperm', hfalling', _⟩
    rcases hfalling'.eq_of_perm horder.falling (hperm'.trans hentries.symm) with rfl
    exact ⟨(), hcheck, entries, ⟨hnodes, hdepths⟩, order', horder', c, horder.fold, rfl⟩

omit [MathLibrary] [Sha256 B256] in
/-- A single leaf among the side nodes. -/
theorem mergeNodes_singleton (l : Commitment B256 Address) (sides : List (SideNode B256)) :
    ∃ xs ys, mergeNodes [l] sides = xs ++ l :: ys ∧
      sides.map PatriciaSubtree.toCommitment = xs ++ ys := by
  induction sides with
  | nil => exact ⟨[], [], by rw [mergeNodes]; rfl, rfl⟩
  | cons side sides ih =>
      rw [mergeNodes]
      split
      · refine ⟨[], (side :: sides).map PatriciaSubtree.toCommitment, ?_, rfl⟩
        have hnil : ∀ rest : List (SideNode B256),
            mergeNodes [] rest = rest.map PatriciaSubtree.toCommitment := fun rest => by
          induction rest with
          | nil => rw [mergeNodes]; rfl
          | cons n rest ih => rw [mergeNodes, ih]; rfl
        rw [hnil]
        rfl
      · rcases ih with ⟨xs, ys, hmerge, hsides⟩
        exact ⟨side.toCommitment :: xs, ys, by rw [hmerge]; rfl, by rw [List.map_cons, hsides]; rfl⟩

/-- Two of the nodes branch off the path of a key at the same depth. -/
def SameDepth (id : Address) (sides : List (SideNode B256)) : Prop :=
  ∃ (i j : Nat) (m n : SideNode B256), i < j ∧ sides[i]? = some m ∧ sides[j]? = some n ∧
    branchDepth id m = branchDepth id n

omit [MathLibrary] [Sha256 B256] in
theorem not_sameDepth_iff {id : Address} {sides : List (SideNode B256)} :
    ¬ SameDepth id sides ↔ (sides.map (branchDepth id)).Nodup := by
  rw [List.Nodup, List.pairwise_map, List.pairwise_iff_getElem]
  constructor
  · intro h i j hi hj hij heq
    exact h ⟨i, j, sides[i], sides[j], hij, List.getElem?_eq_getElem hi,
      List.getElem?_eq_getElem hj, heq⟩
  · rintro h ⟨i, j, m, n, hij, hm, hn, heq⟩
    rcases List.getElem?_eq_some_iff.mp hm with ⟨hi, rfl⟩
    rcases List.getElem?_eq_some_iff.mp hn with ⟨hj, rfl⟩
    exact h i j hi hj hij heq

/-- Where the account tree accepts a proof of one account, the contract computes the same
root when the side nodes have different depths, and otherwise nothing. -/
theorem verifyAccount_of_proof {a : Account} {sides : List (SideNode B256)} {root : B256}
    (h : computeRootFromProof [a] ⟨[a.id], sides⟩ = .ok root) :
    (¬ SameDepth a.id sides → verifyAccount a.id a.nextNonce a.balances sides = .ok root) ∧
      ∀ root', verifyAccount a.id a.nextNonce a.balances sides = .ok root' →
        ¬ SameDepth a.id sides := by
  rcases computeRootFromProof_eq_ok_iff.mp h with ⟨hwf, vs, hvs, _, _, hordered, o, ho, rfl⟩
  rcases List.perm_singleton.mp hvs with rfl
  rcases mergeNodes_singleton (leaf a) sides with ⟨xs, ys, hmerge, hsides⟩
  rw [not_sameDepth_iff]
  constructor
  · intro hnodup
    cases o with
    | none =>
        have hnil := combine_eq_ok_none.mp ho
        rw [List.map_singleton, hmerge] at hnil
        simp at hnil
    | some c =>
        have hcombined := (combine_eq_ok_iff hordered).mp ho
        have hdepths : ((xs ++ ys).map fun n => branchDepth a.id n.toSubtree).Nodup := by
          rw [← hsides, List.map_map]
          exact hnodup
        rcases exists_order hcombined hordered rfl rfl hmerge hdepths with ⟨order, horder⟩
        refine verifyAccount_eq_ok.mpr ⟨?_, c, order, hsides ▸ horder, rfl⟩
        exact checkSideNodes_eq_ok.mpr ⟨hwf.sides,
          fun n hn => hwf.disjoint n hn a.id (by simp), by simp⟩
  · intro root' hroot'
    rcases verifyAccount_eq_ok.mp hroot' with ⟨_, c, order, horder, _⟩
    have hnodup := horder.falling.nodup horder.depth
    have hperm := (horder.perm.map (branchDepth a.id)).nodup_iff.mp hnodup
    simpa [List.map_map, Function.comp_def] using hperm

/-! ## Honest proofs -/

section

variable {a : Account} {d : Nat} {β : Bool} {s : Trie Account}

variable (B256) in
omit [MathLibrary] in
/-- The ends of a subtree are keys of its leaves. -/
theorem commit_ends (s : Trie Account) :
    ∃ x ∈ s.leaves, ∃ y ∈ s.leaves, (commit B256 s).toSubtree.minKey = x.id ∧
      (commit B256 s).toSubtree.maxKey = y.id := by
  rcases s.exists_mem_minKey Account.id with ⟨x, hx, hxkey⟩
  rcases s.exists_mem_maxKey Account.id with ⟨y, hy, hykey⟩
  exact ⟨x, hx, y, hy, (commit_min s).trans hxkey.symm, (commit_max s).trans hykey.symm⟩

variable (B256) in
omit [MathLibrary] in
/-- A subtree on the other side of a branch is a side node, and it branches off there. -/
theorem sideNodes_across (hcan : s.Canonical Account.id) (hs : SortedBy Account.id s.leaves)
    (hd : d < 160) (hside : ∀ x ∈ s.leaves, AgreeBelow d a.id x.id ∧ BitKey.bit x.id d = β)
    (hid : BitKey.bit a.id d = !β) :
    sideNodes (nodeOf B256 s) [a.id] = .ok [(commit B256 s).toSubtree] ∧
      branchDepth a.id (commit B256 s).toSubtree = some d := by
  constructor
  · refine sideNodes_of_not_covers hcan hs (List.pairwise_singleton _ _) fun k hk => ?_
    rw [List.mem_singleton.mp hk]
    exact hcan.not_covers_across hd (fun x hx => (hside x hx).1.symm)
      (fun x hx => (hside x hx).2) hid
  · rcases commit_ends B256 s with ⟨x, hx, y, hy, hmin, hmax⟩
    exact branchDepth_across hd hid (hmin ▸ hside x hx) (hmax ▸ hside y hy)

omit [MathLibrary] [Sha256 B256] in
/-- The nodes on the side of the account do not branch off there. -/
theorem branchDepth_ne {nodes : List (SideNode B256)}
    (hside : ∀ x ∈ s.leaves, AgreeBelow d a.id x.id ∧ BitKey.bit x.id d = β)
    (hid : BitKey.bit a.id d = β)
    (hends : ∀ n ∈ nodes, ∃ x ∈ s.leaves, ∃ y ∈ s.leaves, n.minKey = x.id ∧ n.maxKey = y.id) :
    ∀ n ∈ nodes, branchDepth a.id n ≠ some d := by
  intro n hn hdepth
  rcases hends n hn with ⟨x, hx, y, hy, hmin, hmax⟩
  exact lt_irrefl d (lt_branchDepth hdepth hid (hmin ▸ hside x hx) (hmax ▸ hside y hy))

end

variable (B256) in
omit [MathLibrary] in
/-- The side nodes of an account in a canonical tree branch off at different depths: each
is the whole other side of a branch on its path. -/
theorem nodup_depths {t : Trie Account} {a : Account} (hcan : t.Canonical Account.id)
    (h : SortedBy Account.id t.leaves) (ha : a ∈ t.leaves) :
    ∃ nodes : List (SideNode B256), sideNodes (nodeOf B256 t) [a.id] = .ok nodes ∧
      (nodes.map (branchDepth a.id)).Nodup ∧
      ∀ n ∈ nodes, ∃ x ∈ t.leaves, ∃ y ∈ t.leaves, n.minKey = x.id ∧ n.maxKey = y.id := by
  have hkeys : SortedBy id [a.id] := List.pairwise_singleton _ _
  induction t with
  | leaf b =>
      rcases List.mem_singleton.mp ha with rfl
      refine ⟨[], ?_, List.nodup_nil, by simp⟩
      have hselected : selectedIn [a.id] (leaf a : Commitment B256 Address) = true :=
        (selectedIn_iff hkeys).mpr ⟨a.id, by simp, le_rfl, le_rfl⟩
      rw [nodeOf, sideNodes, if_pos hselected]
  | branch d left right ihl ihr =>
      rcases Trie.sorted_branch h with ⟨hl, hr, _⟩
      have hbits : d < 160 := differingBit_lt_bits (hcan.children h).1
      have hagree : ∀ x ∈ left.leaves ++ right.leaves, AgreeBelow d a.id x.id := fun x hx =>
        (hcan.agreeBelow h ha).symm.trans (hcan.agreeBelow h hx)
      rw [sideNodes_branch hcan h hkeys ⟨a.id, by simp, hcan.agreeBelow h ha⟩]
      rcases hcan with ⟨hcanl, hcanr, _, hzero, hone⟩
      have hleft : ∀ x ∈ left.leaves, AgreeBelow d a.id x.id ∧ BitKey.bit x.id d = false :=
        fun x hx => ⟨hagree x (List.mem_append_left _ hx), hzero x hx⟩
      have hright : ∀ x ∈ right.leaves, AgreeBelow d a.id x.id ∧ BitKey.bit x.id d = true :=
        fun x hx => ⟨hagree x (List.mem_append_right _ hx), hone x hx⟩
      have hends : ∀ n : SideNode B256,
          ((∃ x ∈ left.leaves, ∃ y ∈ left.leaves, n.minKey = x.id ∧ n.maxKey = y.id) ∨
            ∃ x ∈ right.leaves, ∃ y ∈ right.leaves, n.minKey = x.id ∧ n.maxKey = y.id) →
          ∃ x ∈ left.leaves ++ right.leaves, ∃ y ∈ left.leaves ++ right.leaves,
            n.minKey = x.id ∧ n.maxKey = y.id := by
        rintro n (⟨x, hx, y, hy, hn⟩ | ⟨x, hx, y, hy, hn⟩)
        · exact ⟨x, List.mem_append_left _ hx, y, List.mem_append_left _ hy, hn⟩
        · exact ⟨x, List.mem_append_right _ hx, y, List.mem_append_right _ hy, hn⟩
      rcases List.mem_append.mp ha with ha' | ha'
      · rcases ihl hcanl hl ha' with ⟨nodes, hnodes, hnodup, hinner⟩
        rcases sideNodes_across B256 hcanr hr hbits hright (by simpa using hzero a ha') with
          ⟨hother, hdepth⟩
        have hne := branchDepth_ne hleft (hzero a ha') hinner
        refine ⟨nodes ++ [(commit B256 right).toSubtree], by simp [hnodes, hother], ?_, ?_⟩
        · simp only [List.map_append, List.map_singleton, hdepth]
          exact List.nodup_append.mpr ⟨hnodup, List.nodup_singleton _, by simpa using hne⟩
        · intro n hn
          rcases List.mem_append.mp hn with hn | hn
          · exact hends n (Or.inl (hinner n hn))
          · rw [List.mem_singleton.mp hn]
            exact hends _ (Or.inr (commit_ends B256 right))
      · rcases ihr hcanr hr ha' with ⟨nodes, hnodes, hnodup, hinner⟩
        rcases sideNodes_across B256 hcanl hl hbits hleft (by simpa using hone a ha') with
          ⟨hother, hdepth⟩
        have hne := branchDepth_ne hright (hone a ha') hinner
        refine ⟨(commit B256 left).toSubtree :: nodes, by simp [hnodes, hother], ?_, ?_⟩
        · rw [List.map_cons, hdepth]
          exact List.nodup_cons.mpr ⟨by simpa using hne, hnodup⟩
        · intro n hn
          rcases List.mem_cons.mp hn with rfl | hn
          · exact hends _ (Or.inl (commit_ends B256 left))
          · exact hends n (Or.inr (hinner n hn))

omit [MathLibrary] [Sha256 B256] in
/-- An account set is one of its accounts and the others. -/
theorem filter_append_account_perm {A : List Account} {a : Account}
    (hA : (A.map Account.id).Nodup) (ha : a ∈ A) :
    ((A.filter fun x => x.id ∉ [a.id]) ++ [a]).Perm A := by
  have hsingle : (A.filter fun x => x.id ∈ [a.id]).Perm [a] := by
    refine (List.perm_ext_iff_of_nodup (hA.of_map.filter _)
      (List.nodup_singleton a)).mpr fun x => ?_
    simp only [List.mem_filter, List.mem_singleton, decide_eq_true_eq]
    constructor
    · rintro ⟨hx, hid⟩
      exact List.inj_on_of_nodup_map hA hx ha hid
    · rintro rfl
      exact ⟨ha, rfl⟩
  have hsplit := List.filter_append_perm (fun x : Account => decide (x.id ∈ [a.id])) A
  have hnot : (A.filter fun x => x.id ∉ [a.id]) = A.filter fun x => !decide (x.id ∈ [a.id]) := by
    simp
  rw [hnot]
  exact List.perm_append_comm.trans ((hsingle.symm.append_right _).trans hsplit)

/-- The contract accepts the side nodes that the account tree produces for an account. -/
theorem verifyAccount_honest {A : List Account} {a : Account} (hA : (A.map Account.id).Nodup)
    (ha : a ∈ A) :
    ∃ (proof : StateMultiproof B256) (root : B256), buildMultiproof A [a.id] = .ok proof ∧
      computeRoot A = .ok root ∧
      verifyAccount a.id a.nextNonce a.balances proof.sideNodes = .ok root := by
  have hperm := filter_append_account_perm hA ha
  rcases exists_sorted (L := Account) hA with ⟨l, hl, hlperm, hsorted⟩
  rcases Trie.exists_canonical hsorted (List.ne_nil_of_mem (hlperm.mem_iff.mpr ha)) with
    ⟨t, hcan, rfl⟩
  rcases nodup_depths B256 hcan hsorted (hlperm.mem_iff.mpr ha) with ⟨nodes, hnodes, hnodup, _⟩
  have hproof : buildMultiproof A [a.id] = .ok (⟨[a.id], nodes⟩ : StateMultiproof B256) := by
    have hkeys : sortByKey id [a.id] = [a.id] := List.perm_singleton.mp (sortByKey_perm id [a.id])
    have hadjacent : anyAdjacent (fun a b : Address => decide (a = b)) [a.id] = false := rfl
    simp only [buildMultiproof, hkeys, hadjacent, hl, build_leaves hcan hsorted, hnodes,
      Outcome.rejectIf, Outcome.ok_bind, List.isEmpty_cons, Bool.false_eq_true, if_false]
  obtain ⟨root, hrebuilt, hroot⟩ := computeRootFromProof_complete (V := [a]) hA
    (List.cons_ne_nil a.id []) (List.nodup_singleton a.id) hproof (List.nodup_singleton _) (by simp)
  have hroot' : computeRoot A = .ok root := (computeRoot_perm hA hperm.symm).trans hroot
  exact ⟨_, root, hproof, hroot',
    (verifyAccount_of_proof hrebuilt).1 (not_sameDepth_iff.mpr hnodup)⟩

/-- The two verifiers agree: where the account tree reconstructs a root from a proof of one
account, the contract reverts exactly when two side nodes branch off at the same depth and
otherwise returns that root; and it returns the state root on every honest proof. -/
theorem verifyAccount_refines :
    (∀ (a : Account) (s : List (SideNode B256)) (r : B256),
      computeRootFromProof [a] ⟨[a.id], s⟩ = .ok r →
        ((∃ e, verifyAccount a.id a.nextNonce a.balances s = .error e) ↔ SameDepth a.id s) ∧
          (¬ SameDepth a.id s → verifyAccount a.id a.nextNonce a.balances s = .ok r)) ∧
      ∀ A : List Account, (A.map Account.id).Nodup → ∀ a ∈ A,
        ∃ (proof : StateMultiproof B256) (root : B256), buildMultiproof A [a.id] = .ok proof ∧
          computeRoot A = .ok root ∧
          verifyAccount a.id a.nextNonce a.balances proof.sideNodes = .ok root := by
  refine ⟨fun a s r h => ?_, fun A hA a ha => verifyAccount_honest hA ha⟩
  rcases verifyAccount_of_proof h with ⟨hok, hdepths⟩
  refine ⟨⟨?_, ?_⟩, hok⟩
  · rintro ⟨e, he⟩
    by_contra hnot
    rw [hok hnot] at he
    cases he
  · intro hsame
    cases hresult : verifyAccount a.id a.nextNonce a.balances s with
    | error e => exact ⟨e, rfl⟩
    | ok root => exact absurd hsame (hdepths root hresult)

end

/-- The account whose proof is checked. -/
def testAccount : Account :=
  ⟨FixedBytes.replicate 20 2, [⟨FixedBytes.replicate 20 7, 5⟩], 3⟩

/-- A node before the account and one behind it. -/
def testSides : List (SideNode IdealDigest) :=
  [⟨⟨[1]⟩, FixedBytes.replicate 20 0, FixedBytes.replicate 20 1⟩,
    ⟨⟨[2]⟩, FixedBytes.replicate 20 4, FixedBytes.replicate 20 6⟩]

theorem verifyAccount_refines_test :
    (∃ root, computeRootFromProof [testAccount] ⟨[testAccount.id], testSides⟩ = .ok root ∧
      ((∃ e, @verifyAccount testMathLibrary IdealDigest _ testAccount.id testAccount.nextNonce
          testAccount.balances testSides = .error e) ↔ SameDepth testAccount.id testSides) ∧
        (¬ SameDepth testAccount.id testSides →
          @verifyAccount testMathLibrary IdealDigest _ testAccount.id testAccount.nextNonce
            testAccount.balances testSides = .ok root)) ∧
      ∃ (proof : StateMultiproof IdealDigest) (root : IdealDigest),
        buildMultiproof [testAccount] [testAccount.id] = .ok proof ∧
          computeRoot [testAccount] = .ok root ∧
          @verifyAccount testMathLibrary IdealDigest _ testAccount.id testAccount.nextNonce
            testAccount.balances proof.sideNodes = .ok root := by
  have hok : ∃ root, computeRootFromProof [testAccount] ⟨[testAccount.id], testSides⟩ = .ok root :=
    Outcome.exists_of_isOk (by decide +kernel)
  rcases hok with ⟨root, hroot⟩
  exact ⟨⟨root, hroot,
      (@verifyAccount_refines _ testMathLibrary _).1 testAccount testSides root hroot⟩,
    (@verifyAccount_refines _ testMathLibrary _).2 [testAccount] (by decide)
      testAccount (by decide)⟩

end PatriciaProof

end ZkClob
