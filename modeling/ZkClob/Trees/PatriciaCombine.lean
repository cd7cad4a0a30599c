import ZkClob.Foundations.PrefixTrie
import ZkClob.Trees.Patricia

/-!
# What reconstruction accepts

{lit}`combine` rebuilds a tree above a sequence of commitments, none of which it
can look into.  On nodes with consecutive key ranges its successes are described
by an inductive relation: a node alone, or two reconstructions side by side that
a bit separates, in every node and not only at the ends.

Main results:

- Theorem {lit}`Patricia.branch_eq_ok`: when two commitments are joined.
- Theorem {lit}`Patricia.combine_eq_ok_iff`: {lit}`combine` computes exactly the
  relation {lit}`Combined`.
-/

namespace ZkClob

open Foundations

namespace Patricia

open BitKey

variable {B256 K : Type} [PatriciaKey K]

section

variable [Sha256 B256]

/-- The commitment of a branch at a given depth. -/
def joined (depth : Nat) (left right : Commitment B256 K) : Commitment B256 K :=
  ⟨hash (Branch.mk depth left right), left.min, right.max⟩

@[simp]
theorem joined_min (depth : Nat) (left right : Commitment B256 K) :
    (joined depth left right).min = left.min := rfl

@[simp]
theorem joined_max (depth : Nat) (left right : Commitment B256 K) :
    (joined depth left right).max = right.max := rfl

/-- Two commitments are joined at the first differing bit of their inner keys, when
that bit separates their four ends. -/
theorem branch_eq_ok {left right c : Commitment B256 K} :
    branch left right = .ok c ↔
      ∃ d, differingBit left.max right.min = some d ∧ bit left.min d = false ∧
        bit left.max d = false ∧ bit right.min d = true ∧ bit right.max d = true ∧
        c = joined d left right := by
  simp only [branch, Outcome.bind_eq_ok, Outcome.rejectIf_eq_ok, Outcome.okOr_eq_ok, ge_iff_le,
    not_le, not_or, Bool.not_eq_true, Bool.not_eq_true', Bool.not_eq_false]
  constructor
  · rintro ⟨_, hlt, d, hd, _, ⟨hlmin, hlmax, hrmin, hrmax⟩, hc⟩
    cases hc
    exact ⟨d, hd, hlmin, hlmax, hrmin, hrmax, rfl⟩
  · rintro ⟨d, hd, hlmin, hlmax, hrmin, hrmax, rfl⟩
    have hlt : left.max < right.min :=
      lt_of_bit (differingBit_lt_bits hd) (agreeBelow_of_differingBit hd) hlmax hrmin
    exact ⟨(), hlt, d, hd, (), ⟨hlmin, hlmax, hrmin, hrmax⟩, rfl⟩

end

/-! ## Nodes in key order -/

/-- Nodes whose key ranges are inhabited and follow each other. -/
structure Ordered (nodes : List (Commitment B256 K)) : Prop where
  le : ∀ n ∈ nodes, n.min ≤ n.max
  lt : nodes.Pairwise fun a b => a.max < b.min

namespace Ordered

variable {nodes xs ys : List (Commitment B256 K)} {first last n : Commitment B256 K} {d : Nat}

theorem left (h : Ordered (xs ++ ys)) : Ordered xs :=
  ⟨fun n hn => h.le n (List.mem_append_left _ hn), (List.pairwise_append.mp h.lt).1⟩

theorem right (h : Ordered (xs ++ ys)) : Ordered ys :=
  ⟨fun n hn => h.le n (List.mem_append_right _ hn), (List.pairwise_append.mp h.lt).2.1⟩

theorem tail (h : Ordered (n :: nodes)) : Ordered nodes :=
  ⟨fun m hm => h.le m (List.mem_cons_of_mem _ hm), (List.pairwise_cons.mp h.lt).2⟩

/-- The ends of a node lie between the outermost keys. -/
theorem between (h : Ordered nodes) (hfirst : nodes.head? = some first)
    (hlast : nodes.getLast? = some last) (hn : n ∈ nodes) :
    first.min ≤ n.min ∧ n.max ≤ last.max := by
  constructor
  · cases nodes with
    | nil => cases hn
    | cons a nodes =>
        cases hfirst
        rcases List.mem_cons.mp hn with rfl | hn
        · exact le_rfl
        · exact (h.le first (by simp)).trans ((List.pairwise_cons.mp h.lt).1 n hn).le
  · rcases List.getLast?_eq_some_iff.mp hlast with ⟨m, rfl⟩
    rcases List.mem_append.mp hn with hn | hn
    · exact ((List.pairwise_append.mp h.lt).2.2 n hn last (by simp)).le.trans
        (h.le last (by simp))
    · rw [List.mem_singleton.mp hn]

/-- The ends of every node share the prefix of the outermost keys. -/
theorem agreeBelow (h : Ordered nodes) (hfirst : nodes.head? = some first)
    (hlast : nodes.getLast? = some last) (hd : differingBit first.min last.max = some d)
    (hn : n ∈ nodes) : AgreeBelow d first.min n.min ∧ AgreeBelow d first.min n.max := by
  rcases h.between hfirst hlast hn with ⟨hmin, hmax⟩
  have hle := h.le n hn
  have hshared := agreeBelow_of_differingBit hd
  have hbits := (differingBit_lt_bits hd).le
  exact ⟨hshared.of_between hbits hmin (hle.trans hmax),
    hshared.of_between hbits (hmin.trans hle) hmax⟩

/-- Two or more nodes have different outermost keys. -/
theorem first_lt_last (h : Ordered nodes) (hlen : 2 ≤ nodes.length)
    (hfirst : nodes.head? = some first) (hlast : nodes.getLast? = some last) :
    first.min < last.max := by
  rcases nodes with _ | ⟨a, _ | ⟨b, l⟩⟩
  · simp at hlen
  · simp at hlen
  · cases hfirst
    have hmem : last ∈ b :: l := by
      rw [List.getLast?_cons_cons] at hlast
      exact List.mem_of_getLast? hlast
    exact ((h.le first (by simp)).trans_lt ((List.pairwise_cons.mp h.lt).1 last hmem)).trans_le
      (h.le last (by simp [List.mem_cons.mp hmem]))

/-- The nodes split at the first differing bit of the outermost keys, by that bit of
their largest keys. -/
theorem exists_split (h : Ordered nodes) (hlen : 2 ≤ nodes.length)
    (hfirst : nodes.head? = some first) (hlast : nodes.getLast? = some last) :
    ∃ d xs ys, differingBit first.min last.max = some d ∧ nodes = xs ++ ys ∧
      (∀ n ∈ xs, bit n.max d = false) ∧ (∀ n ∈ ys, bit n.max d = true) ∧
      ∀ n ∈ xs, bit n.min d = false := by
  rcases exists_differingBit_of_lt (h.first_lt_last hlen hfirst hlast) with ⟨d, hd, _, _⟩
  have hbits := differingBit_lt_bits hd
  have hmono : nodes.Pairwise fun a b => (!bit a.max d) = false → (!bit b.max d) = false := by
    refine h.lt.imp_of_mem fun {a b} ha hb hab hbit => ?_
    simp only [Bool.not_eq_false'] at hbit ⊢
    have hashared := (h.agreeBelow hfirst hlast hd ha).2
    have hbshared := (h.agreeBelow hfirst hlast hd hb).2
    exact bit_mono (hashared.symm.trans hbshared) hbits (hab.le.trans (h.le b hb)) hbit
  rcases exists_partition hmono with ⟨xs, ys, rfl, hxs, hys⟩
  refine ⟨d, xs, ys, hd, rfl, fun n hn => by simpa using hxs n hn,
    fun n hn => by simpa using hys n hn, ?_⟩
  intro n hn
  rcases h.agreeBelow hfirst hlast hd (List.mem_append_left _ hn) with ⟨hmin, hmax⟩
  exact bit_anti (hmin.symm.trans hmax) hbits (h.le n (List.mem_append_left _ hn))
    (by simpa using hxs n hn)

end Ordered

/-! ## The relation computed by reconstruction -/

variable [Sha256 B256]

/-- A commitment reconstructed above a sequence of nodes. -/
inductive Combined : List (Commitment B256 K) → Commitment B256 K → Prop where
  | single (node : Commitment B256 K) : Combined [node] node
  | join {d : Nat} {xs ys : List (Commitment B256 K)} {left right : Commitment B256 K}
      (hleft : Combined xs left) (hright : Combined ys right)
      (hdepth : differingBit left.min right.max = some d)
      (hzero : ∀ n ∈ xs, bit n.min d = false ∧ bit n.max d = false)
      (hone : ∀ n ∈ ys, bit n.min d = true ∧ bit n.max d = true) :
      Combined (xs ++ ys) (joined d left right)

namespace Combined

variable {nodes : List (Commitment B256 K)} {c : Commitment B256 K}

theorem ne_nil (h : Combined nodes c) : nodes ≠ [] := by
  induction h with
  | single node => simp
  | join _ _ _ _ _ ihl _ => simp [ihl]

/-- The range of a reconstruction begins where its first node begins. -/
theorem exists_head (h : Combined nodes c) : ∃ n, nodes.head? = some n ∧ n.min = c.min := by
  induction h with
  | single node => exact ⟨node, rfl, rfl⟩
  | join _ _ _ _ _ ihl _ =>
      rcases ihl with ⟨n, hn, hmin⟩
      exact ⟨n, by simp [List.head?_append, hn], hmin⟩

/-- The range of a reconstruction ends where its last node ends. -/
theorem exists_getLast (h : Combined nodes c) :
    ∃ n, nodes.getLast? = some n ∧ n.max = c.max := by
  induction h with
  | single node => exact ⟨node, rfl, rfl⟩
  | join _ _ _ _ _ _ ihr =>
      rcases ihr with ⟨n, hn, hmax⟩
      exact ⟨n, by simp [List.getLast?_append, hn], hmax⟩

theorem exists_mem_min (h : Combined nodes c) : ∃ n ∈ nodes, n.min = c.min := by
  rcases h.exists_head with ⟨n, hn, hmin⟩
  exact ⟨n, List.mem_of_head? hn, hmin⟩

theorem exists_mem_max (h : Combined nodes c) : ∃ n ∈ nodes, n.max = c.max := by
  rcases h.exists_getLast with ⟨n, hn, hmax⟩
  exact ⟨n, List.mem_of_getLast? hn, hmax⟩

section

variable {d : Nat} {xs ys : List (Commitment B256 K)} {left right : Commitment B256 K}

/-- The nodes below a join share the bits before its depth. -/
theorem agreeBelow (hordered : Ordered (xs ++ ys)) (hleft : Combined xs left)
    (hright : Combined ys right) (hdepth : differingBit left.min right.max = some d)
    {n : Commitment B256 K} (hn : n ∈ xs ++ ys) :
    AgreeBelow d left.min n.min ∧ AgreeBelow d left.min n.max := by
  rcases hleft.exists_head with ⟨first, hfirst, hfmin⟩
  rcases hright.exists_getLast with ⟨last, hlast, hlmax⟩
  have hfirst' : (xs ++ ys).head? = some first := by simp [List.head?_append, hfirst]
  have hlast' : (xs ++ ys).getLast? = some last := by simp [List.getLast?_append, hlast]
  rw [← hfmin, ← hlmax] at hdepth
  rw [← hfmin]
  exact hordered.agreeBelow hfirst' hlast' hdepth hn

/-- Where the parts of a reconstruction meet, their inner keys first differ at the
depth of the branch, which separates all four ends. -/
theorem branch_eq_ok (hordered : Ordered (xs ++ ys)) (hleft : Combined xs left)
    (hright : Combined ys right) (hdepth : differingBit left.min right.max = some d)
    (hzero : ∀ n ∈ xs, bit n.min d = false ∧ bit n.max d = false)
    (hone : ∀ n ∈ ys, bit n.min d = true ∧ bit n.max d = true) :
    branch left right = .ok (joined d left right) := by
  rcases hleft.exists_head with ⟨first, hfirst, hfmin⟩
  rcases hright.exists_getLast with ⟨last, hlast, hlmax⟩
  rcases hleft.exists_mem_max with ⟨a, ha, hamax⟩
  rcases hright.exists_mem_min with ⟨b, hb, hbmin⟩
  have hashared := agreeBelow hordered hleft hright hdepth (List.mem_append_left _ ha)
  have hbshared := agreeBelow hordered hleft hright hdepth (List.mem_append_right _ hb)
  have hfirst0 := (hzero first (List.mem_of_head? hfirst)).1
  have hlast1 := (hone last (List.mem_of_getLast? hlast)).2
  have ha0 := (hzero a ha).2
  have hb1 := (hone b hb).1
  rw [hfmin] at hfirst0
  rw [hlmax] at hlast1
  rw [hamax] at ha0 hashared
  rw [hbmin] at hb1 hbshared
  refine Patricia.branch_eq_ok.mpr ⟨d, ?_, hfirst0, ha0, hb1, hlast1, rfl⟩
  exact differingBit_of_agreeBelow (differingBit_lt_bits hdepth)
    (hashared.2.symm.trans hbshared.1) ha0 hb1

end

end Combined

/-! ## Reconstruction computes the relation -/

/-- One step of {lit}`combine`, in terms of the parts into which the nodes split. -/
theorem combine_append {xs ys : List (Commitment B256 K)} {first last : Commitment B256 K}
    {d : Nat} (hlen : 2 ≤ (xs ++ ys).length) (hfirst : (xs ++ ys).head? = some first)
    (hlast : (xs ++ ys).getLast? = some last) (hd : differingBit first.min last.max = some d)
    (hxs : ∀ n ∈ xs, bit n.max d = false) (hys : ∀ n ∈ ys, bit n.max d = true) :
    combine (xs ++ ys) =
      if xs = [] ∨ ys = [] ∨ (xs.any fun node => bit node.min d) ∨
          ys.any (fun node => !bit node.min d) then
        .error (.error .InvalidMultiproof)
      else (do
        let left ← Outcome.okOr (← combine xs) .InvalidMultiproof
        let right ← Outcome.okOr (← combine ys) .InvalidMultiproof
        let node ← branch left right
        .ok (some node)) := by
  have hsplit : partitionPoint (fun node : Commitment B256 K => !bit node.max d) (xs ++ ys) =
      xs.length :=
    partitionPoint_append (fun n hn => by simp [hxs n hn]) (fun n hn => by simp [hys n hn])
  generalize hnodes : xs ++ ys = nodes at *
  rcases nodes with _ | ⟨a, _ | ⟨b, l⟩⟩
  · simp at hlen
  · simp at hlen
  · cases hfirst
    rw [List.getLast?_eq_some_getLast (List.cons_ne_nil _ _), Option.some.injEq] at hlast
    rw [combine]
    simp only [hlast, hd, Outcome.okOr, Outcome.ok_bind, hsplit]
    rw [← hnodes, List.take_left, List.drop_left]
    simp only [List.length_append, List.length_eq_zero_iff, Nat.left_eq_add]

/-- {lit}`combine` succeeds on ordered nodes exactly with the commitments the
relation gives. -/
theorem combine_eq_ok_iff {nodes : List (Commitment B256 K)} (h : Ordered nodes)
    {c : Commitment B256 K} : combine nodes = .ok (some c) ↔ Combined nodes c := by
  constructor
  · induction hlen : nodes.length using Nat.strong_induction_on generalizing nodes c with
    | _ n ih =>
        subst hlen
        intro hc
        rcases Nat.lt_or_ge nodes.length 2 with hlt | hge
        · rcases nodes with _ | ⟨a, _ | ⟨b, l⟩⟩
          · rw [combine] at hc
            cases hc
          · rw [combine] at hc
            cases hc
            exact Combined.single _
          · simp only [List.length_cons] at hlt
            omega
        · have hne : nodes ≠ [] := by
            rintro rfl
            simp at hge
          have hfirst := List.head?_eq_some_head hne
          have hlast := List.getLast?_eq_some_getLast hne
          rcases h.exists_split hge hfirst hlast with ⟨d, xs, ys, hd, rfl, hxs, hys, hzero⟩
          rw [combine_append hge hfirst hlast hd hxs hys] at hc
          split at hc
          · cases hc
          · rename_i hcond
            simp only [not_or, List.any_eq_true, not_exists, not_and, Bool.not_eq_true,
              Bool.not_eq_false'] at hcond
            rcases hcond with ⟨hxne, hyne, _, hone⟩
            have hxlen := List.length_pos_iff.mpr hxne
            have hylen := List.length_pos_iff.mpr hyne
            simp only [Outcome.bind_eq_ok, Outcome.okOr_eq_ok] at hc
            rcases hc with ⟨_, hleft, left, rfl, _, hright, right, rfl, node, hbranch, hc⟩
            cases hc
            have hcleft := ih _ (by rw [List.length_append]; omega) h.left rfl hleft
            have hcright := ih _ (by rw [List.length_append]; omega) h.right rfl hright
            have hdepth : differingBit left.min right.max = some d := by
              rcases hcleft.exists_head with ⟨f, hf, hfmin⟩
              rcases hcright.exists_getLast with ⟨l, hl, hlmax⟩
              rw [← hfmin, ← hlmax, ← hd]
              have hf' : (xs ++ ys).head? = some f := by simp [List.head?_append, hf]
              have hl' : (xs ++ ys).getLast? = some l := by simp [List.getLast?_append, hl]
              rw [hfirst, Option.some.injEq] at hf'
              rw [hlast, Option.some.injEq] at hl'
              rw [hf', hl']
            have hjoin := Combined.branch_eq_ok h hcleft hcright hdepth
              (fun n hn => ⟨hzero n hn, hxs n hn⟩) (fun n hn => ⟨hone n hn, hys n hn⟩)
            rw [hbranch] at hjoin
            cases hjoin
            exact Combined.join hcleft hcright hdepth (fun n hn => ⟨hzero n hn, hxs n hn⟩)
              (fun n hn => ⟨hone n hn, hys n hn⟩)
  · intro hc
    induction hc with
    | single node => rw [combine]
    | @join d xs ys left right hleft hright hdepth hzero hone ihl ihr =>
        have hxlen := List.length_pos_iff.mpr hleft.ne_nil
        have hylen := List.length_pos_iff.mpr hright.ne_nil
        rcases hleft.exists_head with ⟨first, hfirst, hfmin⟩
        rcases hright.exists_getLast with ⟨last, hlast, hlmax⟩
        have hd : differingBit first.min last.max = some d := by rw [hfmin, hlmax, hdepth]
        rw [combine_append (by rw [List.length_append]; omega)
          (by simp [List.head?_append, hfirst]) (by simp [List.getLast?_append, hlast]) hd
          (fun n hn => (hzero n hn).2) (fun n hn => (hone n hn).2), if_neg]
        · simp only [ihl h.left, ihr h.right, Outcome.ok_bind, Outcome.okOr,
            Combined.branch_eq_ok h hleft hright hdepth hzero hone]
        · simp only [not_or, List.any_eq_true, not_exists, not_and, Bool.not_eq_true,
            Bool.not_eq_false']
          exact ⟨hleft.ne_nil, hright.ne_nil, fun n hn => (hzero n hn).1,
            fun n hn => (hone n hn).1⟩

/-- A single node is its own reconstruction. -/
theorem Combined.eq_of_singleton {node c : Commitment B256 K} (h : Combined [node] c) :
    c = node := by
  generalize hnodes : [node] = nodes at h
  cases h with
  | single node => simpa using hnodes.symm
  | join hleft hright _ _ _ =>
      have hlen := congrArg List.length hnodes
      have hl := List.length_pos_iff.mpr hleft.ne_nil
      have hr := List.length_pos_iff.mpr hright.ne_nil
      simp only [List.length_singleton, List.length_append] at hlen
      omega

/-- {lit}`combine` gives no commitment only when there are no nodes. -/
theorem combine_eq_ok_none {nodes : List (Commitment B256 K)} :
    combine nodes = .ok none ↔ nodes = [] := by
  constructor
  · intro h
    rcases nodes with _ | ⟨a, _ | ⟨b, l⟩⟩
    · rfl
    · rw [combine] at h
      cases h
    · rw [combine] at h
      simp only [Outcome.bind_eq_ok] at h
      rcases h with ⟨d, _, h⟩
      split at h
      · cases h
      · simp only [Outcome.bind_eq_ok] at h
        rcases h with ⟨_, _, _, _, _, _, _, _, _, _, h⟩
        cases h
  · rintro rfl
    rw [combine]

end Patricia

end ZkClob
