import ZkClob.Foundations.BitOrder
import ZkClob.Foundations.SortedSearch

/-!
# Path-compressed binary tries

A path-compressed trie branches only where its keys differ.  Its shape is
therefore a function of its key set: a branch sits at the first bit in which the
smallest and the largest key differ, and that bit separates its two sides.

Main results:

- Theorem {lit}`exists_split`: a sorted sequence splits at the first differing bit
  of its ends.
- Theorem {lit}`Trie.Canonical.children`: what a canonical branch says about the
  order and the common prefix of its leaves.
- Theorems {lit}`Trie.exists_canonical` and {lit}`Trie.Canonical.unique`: a sorted
  sequence has exactly one canonical trie.
- Theorems {lit}`Trie.Canonical.covers_of_straddle` and
  {lit}`Trie.Canonical.not_covers_across`: the keys under the prefix of a trie.
-/

namespace Foundations

open BitKey

variable {α K : Type} [BitKey K]

/-! ## Splitting a sorted sequence -/

/-- All keys of a sorted sequence lie between those of its ends. -/
theorem SortedBy.between {key : α → K} {l : List α} {a b x : α} (h : SortedBy key l)
    (hfirst : l.head? = some a) (hlast : l.getLast? = some b) (hx : x ∈ l) :
    key a ≤ key x ∧ key x ≤ key b := by
  constructor
  · cases l with
    | nil => cases hx
    | cons c l =>
        cases hfirst
        rcases List.mem_cons.mp hx with rfl | hx
        · exact le_rfl
        · exact ((List.pairwise_cons.mp h).1 x hx).le
  · rcases List.getLast?_eq_some_iff.mp hlast with ⟨m, rfl⟩
    rcases List.mem_append.mp hx with hx | hx
    · exact ((List.pairwise_append.mp h).2.2 x hx b (by simp)).le
    · rw [List.mem_singleton.mp hx]

/-- A sorted sequence whose ends differ first at bit `d` splits into the keys with
a zero there and the keys with a one there, and both parts are inhabited. -/
theorem exists_split {key : α → K} {l : List α} {a b : α} {d : Nat} (h : SortedBy key l)
    (hfirst : l.head? = some a) (hlast : l.getLast? = some b)
    (hd : differingBit (key a) (key b) = some d) :
    ∃ xs ys, l = xs ++ ys ∧ xs ≠ [] ∧ ys ≠ [] ∧
      (∀ x ∈ xs, bit (key x) d = false) ∧ ∀ y ∈ ys, bit (key y) d = true := by
  rcases differingBit_eq_some.mp hd with ⟨hbits, hagree, hne⟩
  have hb_mem : b ∈ l := List.mem_of_getLast? hlast
  have ha_mem : a ∈ l := List.mem_of_head? hfirst
  have hab : key a < key b := by
    refine lt_of_le_of_ne (h.between hfirst hlast hb_mem).1 ?_
    intro heq
    rw [heq] at hne
    exact hne rfl
  rcases bits_of_differingBit hd hab with ⟨ha0, hb1⟩
  have hshared : ∀ x ∈ l, AgreeBelow d (key a) (key x) := fun x hx =>
    hagree.of_between hbits.le (h.between hfirst hlast hx).1 (h.between hfirst hlast hx).2
  have hmono : l.Pairwise fun x y =>
      (!bit (key x) d) = false → (!bit (key y) d) = false := by
    refine List.Pairwise.imp_of_mem ?_ h
    intro x y hx hy hxy hbit
    simp only [Bool.not_eq_false'] at hbit ⊢
    exact bit_mono ((hshared x hx).symm.trans (hshared y hy)) hbits hxy.le hbit
  rcases exists_partition hmono with ⟨xs, ys, rfl, hxs, hys⟩
  refine ⟨xs, ys, rfl, ?_, ?_, fun x hx => by simpa using hxs x hx,
    fun y hy => by simpa using hys y hy⟩
  · rintro rfl
    have := hys a ha_mem
    simp [ha0] at this
  · rintro rfl
    have := hxs b (by simpa using hb_mem)
    simp [hb1] at this

/-! ## Tries -/

/-- A binary trie with its branch depths; every branch has two sides. -/
inductive Trie (α : Type) where
  | leaf (a : α)
  | branch (depth : Nat) (left right : Trie α)

namespace Trie

/-- The leaves from left to right. -/
def leaves : Trie α → List α
  | leaf a => [a]
  | branch _ left right => left.leaves ++ right.leaves

/-- The key of the leftmost leaf. -/
def minKey (key : α → K) : Trie α → K
  | leaf a => key a
  | branch _ left _ => left.minKey key

/-- The key of the rightmost leaf. -/
def maxKey (key : α → K) : Trie α → K
  | leaf a => key a
  | branch _ _ right => right.maxKey key

/-- Every branch sits at the first bit in which its outermost keys differ, and that
bit separates its sides. -/
def Canonical (key : α → K) : Trie α → Prop
  | leaf _ => True
  | branch depth left right =>
      left.Canonical key ∧ right.Canonical key ∧
        differingBit (left.minKey key) (right.maxKey key) = some depth ∧
        (∀ a ∈ left.leaves, bit (key a) depth = false) ∧
        ∀ a ∈ right.leaves, bit (key a) depth = true

variable {key : α → K} {t left right : Trie α} {d : Nat}

theorem leaves_ne_nil (t : Trie α) : t.leaves ≠ [] := by
  induction t with
  | leaf a => simp [leaves]
  | branch d left right ihl _ => simp [leaves, ihl]

omit [BitKey K] in
/-- The leftmost leaf carries the smallest key. -/
theorem exists_head (key : α → K) (t : Trie α) :
    ∃ a, t.leaves.head? = some a ∧ key a = t.minKey key := by
  induction t with
  | leaf a => exact ⟨a, rfl, rfl⟩
  | branch d left right ihl _ =>
      rcases ihl with ⟨a, ha, hkey⟩
      exact ⟨a, by simp [leaves, List.head?_append, ha], hkey⟩

omit [BitKey K] in
/-- The rightmost leaf carries the largest key. -/
theorem exists_getLast (key : α → K) (t : Trie α) :
    ∃ a, t.leaves.getLast? = some a ∧ key a = t.maxKey key := by
  induction t with
  | leaf a => exact ⟨a, rfl, rfl⟩
  | branch d left right _ ihr =>
      rcases ihr with ⟨a, ha, hkey⟩
      exact ⟨a, by simp [leaves, List.getLast?_append, ha], hkey⟩

omit [BitKey K] in
theorem exists_mem_minKey (key : α → K) (t : Trie α) : ∃ a ∈ t.leaves, key a = t.minKey key := by
  rcases t.exists_head key with ⟨a, ha, hkey⟩
  exact ⟨a, List.mem_of_head? ha, hkey⟩

omit [BitKey K] in
theorem exists_mem_maxKey (key : α → K) (t : Trie α) : ∃ a ∈ t.leaves, key a = t.maxKey key := by
  rcases t.exists_getLast key with ⟨a, ha, hkey⟩
  exact ⟨a, List.mem_of_getLast? ha, hkey⟩

/-- All keys lie between the outermost ones. -/
theorem between (h : SortedBy key t.leaves) {a : α} (ha : a ∈ t.leaves) :
    t.minKey key ≤ key a ∧ key a ≤ t.maxKey key := by
  rcases t.exists_head key with ⟨x, hx, hxkey⟩
  rcases t.exists_getLast key with ⟨y, hy, hykey⟩
  have := h.between hx hy ha
  rwa [hxkey, hykey] at this

theorem minKey_le_maxKey (h : SortedBy key t.leaves) : t.minKey key ≤ t.maxKey key := by
  rcases t.exists_mem_minKey key with ⟨a, ha, _⟩
  exact (between h ha).1.trans (between h ha).2

/-- The sides of a sorted branch are sorted, and every key on the left is smaller
than every key on the right. -/
theorem sorted_branch (h : SortedBy key (branch d left right).leaves) :
    SortedBy key left.leaves ∧ SortedBy key right.leaves ∧
      left.maxKey key < right.minKey key := by
  rcases List.pairwise_append.mp h with ⟨hleft, hright, hcross⟩
  refine ⟨hleft, hright, ?_⟩
  rcases left.exists_mem_maxKey key with ⟨a, ha, hakey⟩
  rcases right.exists_mem_minKey key with ⟨b, hb, hbkey⟩
  rw [← hakey, ← hbkey]
  exact hcross a ha b hb

namespace Canonical

/-- The leaves below a canonical branch share the bits before its depth. -/
theorem agreeBelow (hcan : (branch d left right).Canonical key)
    (h : SortedBy key (branch d left right).leaves) {a : α}
    (ha : a ∈ (branch d left right).leaves) :
    AgreeBelow d (left.minKey key) (key a) := by
  rcases hcan with ⟨_, _, hd, _, _⟩
  rcases between h ha with ⟨hmin, hmax⟩
  exact (agreeBelow_of_differingBit hd).of_between (differingBit_lt_bits hd).le hmin hmax

/-- At a canonical branch the inner keys of the two sides first differ at its depth,
with a zero in all keys on the left and a one in all keys on the right. -/
theorem children (hcan : (branch d left right).Canonical key)
    (h : SortedBy key (branch d left right).leaves) :
    differingBit (left.maxKey key) (right.minKey key) = some d ∧
      bit (left.minKey key) d = false ∧ bit (left.maxKey key) d = false ∧
      bit (right.minKey key) d = true ∧ bit (right.maxKey key) d = true := by
  rcases left.exists_mem_minKey key with ⟨a, ha, hakey⟩
  rcases left.exists_mem_maxKey key with ⟨b, hb, hbkey⟩
  rcases right.exists_mem_minKey key with ⟨x, hx, hxkey⟩
  rcases right.exists_mem_maxKey key with ⟨y, hy, hykey⟩
  have hbd := hcan.agreeBelow h (List.mem_append_left _ hb)
  have hxd := hcan.agreeBelow h (List.mem_append_right _ hx)
  rcases hcan with ⟨_, _, hd, hzero, hone⟩
  rw [← hakey, ← hbkey, ← hxkey, ← hykey]
  rw [hbkey] at hbd
  rw [hxkey] at hxd
  refine ⟨?_, hzero a ha, hzero b hb, hone x hx, hone y hy⟩
  rw [hbkey, hxkey]
  exact differingBit_of_agreeBelow (differingBit_lt_bits hd) (hbd.symm.trans hxd)
    (hbkey ▸ hzero b hb) (hxkey ▸ hone x hx)

/-- Two canonical sides that a bit separates form a canonical branch. -/
theorem join (hleft : left.Canonical key) (hright : right.Canonical key)
    (h : SortedBy key (left.leaves ++ right.leaves))
    (hd : differingBit (left.minKey key) (right.maxKey key) = some d)
    (hzero : bit (left.maxKey key) d = false) (hone : bit (right.minKey key) d = true) :
    (branch d left right).Canonical key := by
  have hsorted : SortedBy key (branch d left right).leaves := h
  rcases sorted_branch hsorted with ⟨hl, hr, _⟩
  have hbits := differingBit_lt_bits hd
  have hshared : ∀ k, left.minKey key ≤ k → k ≤ right.maxKey key →
      AgreeBelow d (left.minKey key) k := fun k hmin hmax =>
    (agreeBelow_of_differingBit hd).of_between hbits.le hmin hmax
  refine ⟨hleft, hright, hd, ?_, ?_⟩
  · intro a ha
    rcases left.exists_mem_maxKey key with ⟨b, hb, hbkey⟩
    have hakey := between hsorted (List.mem_append_left _ ha)
    have hbkey' := between hsorted (List.mem_append_left _ hb)
    rw [hbkey] at hbkey'
    exact bit_anti ((hshared _ hakey.1 hakey.2).symm.trans (hshared _ hbkey'.1 hbkey'.2))
      hbits (between hl ha).2 hzero
  · intro a ha
    rcases right.exists_mem_minKey key with ⟨b, hb, hbkey⟩
    have hakey := between hsorted (List.mem_append_right _ ha)
    have hbkey' := between hsorted (List.mem_append_right _ hb)
    rw [hbkey] at hbkey'
    exact bit_mono ((hshared _ hbkey'.1 hbkey'.2).symm.trans (hshared _ hakey.1 hakey.2))
      hbits (between hr ha).1 hone

/-- The canonical trie over a sorted sequence is unique. -/
theorem unique {s t : Trie α} (hs : s.Canonical key) (ht : t.Canonical key)
    (hsorted : SortedBy key s.leaves) (h : s.leaves = t.leaves) : s = t := by
  induction s generalizing t with
  | leaf a =>
      cases t with
      | leaf b =>
          simp only [leaves, List.cons.injEq, and_true] at h
          rw [h]
      | branch e tl tr =>
          have hlen := congrArg List.length h
          have hl := List.length_pos_iff.mpr tl.leaves_ne_nil
          have hr := List.length_pos_iff.mpr tr.leaves_ne_nil
          simp only [leaves, List.length_singleton, List.length_append] at hlen
          omega
  | branch d sl sr ihl ihr =>
      cases t with
      | leaf b =>
          have hlen := congrArg List.length h
          have hl := List.length_pos_iff.mpr sl.leaves_ne_nil
          have hr := List.length_pos_iff.mpr sr.leaves_ne_nil
          simp only [leaves, List.length_singleton, List.length_append] at hlen
          omega
      | branch e tl tr =>
          -- both depths are where the ends of the same sequence first differ
          have hde : d = e := by
            have hmin : sl.minKey key = tl.minKey key := by
              rcases (branch d sl sr).exists_head key with ⟨a, ha, hakey⟩
              rcases (branch e tl tr).exists_head key with ⟨b, hb, hbkey⟩
              rw [h, hb, Option.some.injEq] at ha
              exact (hakey.symm.trans (ha ▸ rfl)).trans hbkey
            have hmax : sr.maxKey key = tr.maxKey key := by
              rcases (branch d sl sr).exists_getLast key with ⟨a, ha, hakey⟩
              rcases (branch e tl tr).exists_getLast key with ⟨b, hb, hbkey⟩
              rw [h, hb, Option.some.injEq] at ha
              exact (hakey.symm.trans (ha ▸ rfl)).trans hbkey
            have hsd := hs.2.2.1
            have htd := ht.2.2.1
            rw [hmin, hmax, htd, Option.some.injEq] at hsd
            exact hsd.symm
          subst hde
          rcases hs with ⟨hsl, hsr, _, hs0, hs1⟩
          rcases ht with ⟨htl, htr, _, ht0, ht1⟩
          have hleft : sl.leaves = tl.leaves := by
            have hfilter := congrArg (List.filter fun a => !bit (key a) d) h
            simp only [leaves] at hfilter
            rwa [filter_append_eq_left (by simpa using hs0) (by simpa using hs1),
              filter_append_eq_left (by simpa using ht0) (by simpa using ht1)] at hfilter
          have hright : sr.leaves = tr.leaves := by
            have happend : sl.leaves ++ sr.leaves = tl.leaves ++ tr.leaves := h
            rw [hleft] at happend
            exact List.append_cancel_left happend
          rcases sorted_branch hsorted with ⟨hsortl, hsortr, _⟩
          rw [ihl hsl htl hsortl hleft, ihr hsr htr hsortr hright]

end Canonical

/-- A sorted sequence with elements has a canonical trie. -/
theorem exists_canonical {l : List α} (h : SortedBy key l) (hne : l ≠ []) :
    ∃ t : Trie α, t.Canonical key ∧ t.leaves = l := by
  induction hlen : l.length using Nat.strong_induction_on generalizing l with
  | _ n ih =>
      subst hlen
      have hfirst := List.head?_eq_some_head hne
      have hlast := List.getLast?_eq_some_getLast hne
      cases hd : differingBit (key (l.head hne)) (key (l.getLast hne)) with
      | none =>
          -- equal ends: the sequence has one element
          have heq := h.eq_of_key_eq (List.head_mem hne) (List.getLast_mem hne)
            (differingBit_eq_none.mp hd)
          rcases l with _ | ⟨a, _ | ⟨b, l⟩⟩
          · exact absurd rfl hne
          · exact ⟨leaf a, trivial, rfl⟩
          · have hmem : (a :: b :: l).getLast hne ∈ b :: l := by
              rw [List.getLast_cons (List.cons_ne_nil b l)]
              exact List.getLast_mem _
            have hlt := (List.pairwise_cons.mp h).1 _ hmem
            rw [← heq] at hlt
            exact absurd hlt (lt_irrefl _)
      | some d =>
          rcases exists_split h hfirst hlast hd with ⟨xs, ys, rfl, hxs, hys, hzero, hone⟩
          have hxlen := List.length_pos_iff.mpr hxs
          have hylen := List.length_pos_iff.mpr hys
          rcases List.pairwise_append.mp h with ⟨hsx, hsy, _⟩
          obtain ⟨tl, htl, rfl⟩ := ih _ (by rw [List.length_append]; omega) hsx hxs rfl
          obtain ⟨tr, htr, rfl⟩ := ih _ (by rw [List.length_append]; omega) hsy hys rfl
          refine ⟨branch d tl tr, htl.join htr h ?_ ?_ ?_, rfl⟩
          · rcases (branch d tl tr).exists_head key with ⟨a, ha, hakey⟩
            rcases (branch d tl tr).exists_getLast key with ⟨b, hb, hbkey⟩
            simp only [leaves, hfirst, hlast, Option.some.injEq] at ha hb
            simp only [minKey, maxKey] at hakey hbkey
            rw [← hakey, ← hbkey, ← ha, ← hb]
            exact hd
          · rcases tl.exists_mem_maxKey key with ⟨a, ha, hakey⟩
            exact hakey ▸ hzero a ha
          · rcases tr.exists_mem_minKey key with ⟨a, ha, hakey⟩
            exact hakey ▸ hone a ha

/-! ## Sequences of tries -/

/-- The leaves of a sequence of tries are sorted when those of each trie are and the
key ranges of the tries follow each other. -/
theorem sortedBy_flatMap_leaves {ts : List (Trie α)} :
    SortedBy key (ts.flatMap leaves) ↔
      (∀ t ∈ ts, SortedBy key t.leaves) ∧
        ts.Pairwise fun s t => s.maxKey key < t.minKey key := by
  rw [SortedBy, List.pairwise_flatMap]
  constructor
  · rintro ⟨hts, hcross⟩
    refine ⟨hts, hcross.imp fun {s t} hst => ?_⟩
    rcases s.exists_mem_maxKey key with ⟨a, ha, hakey⟩
    rcases t.exists_mem_minKey key with ⟨b, hb, hbkey⟩
    rw [← hakey, ← hbkey]
    exact hst a ha b hb
  · rintro ⟨hts, hcross⟩
    refine ⟨hts, hcross.imp_of_mem fun {s t} hs ht hst a ha b hb => ?_⟩
    exact ((between (hts s hs) ha).2.trans_lt hst).trans_le (between (hts t ht) hb).1

/-- The keys that share the prefix of a trie. -/
def Covers (key : α → K) : Trie α → K → Prop
  | leaf a, k => key a = k
  | branch d left _, k => AgreeBelow d (left.minKey key) k

/-- Neither of two tries covers a key of the other. -/
def Apart (key : α → K) (s t : Trie α) : Prop :=
  (∀ a ∈ t.leaves, ¬ s.Covers key (key a)) ∧ ∀ a ∈ s.leaves, ¬ t.Covers key (key a)

theorem Apart.symm {s : Trie α} (h : Apart key s t) : Apart key t s :=
  ⟨h.2, h.1⟩

namespace Canonical

/-- A trie covers the keys between its ends. -/
theorem covers_of_between {k : K} (ht : t.Canonical key) (hmin : t.minKey key ≤ k)
    (hmax : k ≤ t.maxKey key) : t.Covers key k := by
  cases t with
  | leaf a => exact le_antisymm hmin hmax
  | branch d left right =>
      rcases ht with ⟨_, _, hd, _, _⟩
      exact (agreeBelow_of_differingBit hd).of_between (differingBit_lt_bits hd).le hmin hmax

/-- A trie whose ends first differ at bit `d` covers all keys with the same bits
before it. -/
theorem covers_of_straddle {k : K} (ht : t.Canonical key)
    (hd : differingBit (t.minKey key) (t.maxKey key) = some d)
    (hk : AgreeBelow d (t.minKey key) k) : t.Covers key k := by
  cases t with
  | leaf a =>
      simp only [minKey, maxKey, differingBit_self] at hd
      cases hd
  | branch e left right =>
      rcases ht with ⟨_, _, he, _, _⟩
      have hde : e = d := by
        rw [minKey, maxKey, he, Option.some.injEq] at hd
        exact hd
      subst hde
      exact hk

/-- A trie on one side of a bit covers no key on the other side of it. -/
theorem not_covers_across {k : K} {β : Bool} (ht : t.Canonical key) (hd : d < BITS K)
    (hshared : ∀ a ∈ t.leaves, AgreeBelow d (key a) k) (hside : ∀ a ∈ t.leaves, bit (key a) d = β)
    (hk : bit k d = !β) : ¬ t.Covers key k := by
  intro hcovers
  cases t with
  | leaf a =>
      have ha := hside a (by simp [leaves])
      rw [show key a = k from hcovers, hk] at ha
      cases β <;> cases ha
  | branch e left right =>
      rcases ht with ⟨_, _, he, _, _⟩
      rcases (branch e left right).exists_mem_minKey key with ⟨a, ha, hakey⟩
      rcases (branch e left right).exists_mem_maxKey key with ⟨b, hb, hbkey⟩
      rcases differingBit_eq_some.mp he with ⟨_, _, hne⟩
      have hmin : AgreeBelow d (left.minKey key) k := hakey ▸ hshared a ha
      have hmax : AgreeBelow d (right.maxKey key) k := hbkey ▸ hshared b hb
      have hamin : bit (left.minKey key) d = β := hakey ▸ hside a ha
      have hbmax : bit (right.maxKey key) d = β := hbkey ▸ hside b hb
      have hkd : differingBit (left.minKey key) k = some d :=
        differingBit_eq_some.mpr ⟨hd, hmin, by simp [hamin, hk]⟩
      rcases Nat.lt_or_eq_of_le ((agreeBelow_iff_le hkd).mp hcovers) with hlt | rfl
      · exact hne ((hmin.trans hmax.symm) e hlt)
      · exact hne (hamin.trans hbmax.symm)

end Canonical

end Trie

end Foundations
