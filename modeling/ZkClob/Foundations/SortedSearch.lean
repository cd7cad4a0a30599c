import Mathlib.Data.List.Basic
import Mathlib.Data.List.Sort
import Mathlib.Data.Prod.Lex
import Mathlib.Order.Compare

/-!
# Binary search and strictly sorted sequences

The slice operations {lit}`binary_search_by` and {lit}`partition_point` are
modelled with the loop that halves the remaining range, so they have a value on
unsorted input as well.  On input whose comparison results are ordered the
answer is characterised by the two parts of the sequence around it.

Main results:

- Theorem {lit}`binarySearchBy_ok`: a hit is an element that compares equal.
- Theorem {lit}`binarySearchBy_error`: a miss splits the sequence into smaller
  and larger elements.
- Theorem {lit}`partitionPoint_append`: the partition point of a partitioned
  sequence is the length of its first part.
- Theorems {lit}`SortedBy.search_ok_iff` and {lit}`SortedBy.search_error`: the
  same facts for sequences strictly sorted by a key.
-/

namespace Foundations

variable {α κ : Type}

/-! ## The search loop -/

/-- The loop of {lit}`binary_search_by`: halve the range of `size` elements that
starts at `base` until one element is left. -/
def binarySearchLoop (cmp : α → Ordering) (l : List α) (base size : Nat) : Nat :=
  if 1 < size then
    let half := size / 2
    let mid := base + half
    let next :=
      match l[mid]? with
      | some a => if cmp a = .gt then base else mid
      | none => base
    binarySearchLoop cmp l next (size - half)
  else base
termination_by size

/-- {lit}`slice::binary_search_by`: the index of a hit, or the index at which a
missing element would be inserted. -/
def binarySearchBy (cmp : α → Ordering) (l : List α) : Except Nat Nat :=
  let base := binarySearchLoop cmp l 0 l.length
  match l[base]? with
  | none => .error 0
  | some a =>
      match cmp a with
      | .eq => .ok base
      | .lt => .error (base + 1)
      | .gt => .error base

/-- {lit}`slice::binary_search_by_key`. -/
def binarySearchByKey [Ord κ] (key : α → κ) (k : κ) (l : List α) : Except Nat Nat :=
  binarySearchBy (fun a => compare (key a) k) l

/-- {lit}`slice::partition_point`. -/
def partitionPoint (p : α → Bool) (l : List α) : Nat :=
  match binarySearchBy (fun a => if p a then .lt else .gt) l with
  | .ok i => i
  | .error i => i

/-- The comparison results of a sequence are ordered: no element that compares
greater stands before one that does not. -/
def OrderedBy (cmp : α → Ordering) (l : List α) : Prop :=
  l.Pairwise fun a b => (cmp a = .gt → cmp b = .gt) ∧ (cmp b = .lt → cmp a = .lt)

/-- What the search loop establishes about the index it stops at. -/
theorem binarySearchLoop_spec {cmp : α → Ordering} {l : List α} (hl : OrderedBy cmp l)
    {base size : Nat} (hsize : 0 < size) (hrange : base + size ≤ l.length)
    (hbase : base = 0 ∨ ∀ a, l[base]? = some a → cmp a ≠ .gt)
    (habove : ∀ i a, base + size ≤ i → l[i]? = some a → cmp a = .gt) :
    binarySearchLoop cmp l base size < l.length ∧
      (binarySearchLoop cmp l base size = 0 ∨
        ∀ a, l[binarySearchLoop cmp l base size]? = some a → cmp a ≠ .gt) ∧
      ∀ i a, binarySearchLoop cmp l base size < i → l[i]? = some a → cmp a = .gt := by
  fun_induction binarySearchLoop cmp l base size with
  | case1 base size hlt half mid next ih =>
      have hhalf : 0 < half ∧ half < size := by
        simp only [half]
        omega
      have hmid : mid < l.length := by
        simp only [mid]
        omega
      have hget : l[mid]? = some l[mid] := List.getElem?_eq_getElem hmid
      by_cases hgt : cmp l[mid] = .gt
      · have hnext : next = base := by simp [next, hget, hgt]
        rw [hnext] at ih ⊢
        refine ih (by omega) (by omega) hbase ?_
        intro i a hi ha
        rcases Nat.lt_or_ge mid i with hmi | hmi
        · -- everything after a greater element is greater
          rcases List.getElem?_eq_some_iff.mp ha with ⟨hlen, rfl⟩
          exact (List.pairwise_iff_getElem.mp hl mid i hmid hlen hmi).1 hgt
        · have hi' : base + size ≤ i ∨ i = mid := by
            simp only [mid, half] at *
            omega
          rcases hi' with hi' | rfl
          · exact habove i a hi' ha
          · rw [hget, Option.some.injEq] at ha
            exact ha ▸ hgt
      · have hnext : next = mid := by simp [next, hget, hgt]
        rw [hnext] at ih ⊢
        refine ih (by omega) ?_ (Or.inr ?_) ?_
        · simp only [mid]
          omega
        · intro a ha
          rw [hget, Option.some.injEq] at ha
          exact ha ▸ hgt
        · intro i a hi ha
          refine habove i a ?_ ha
          simp only [mid] at hi
          omega
  | case2 base size hle =>
      refine ⟨by omega, hbase, ?_⟩
      intro i a hi ha
      exact habove i a (by omega) ha

/-! ## Hits and misses -/

/-- A hit names an element that compares equal, on any input. -/
theorem binarySearchBy_ok {cmp : α → Ordering} {l : List α} {i : Nat}
    (h : binarySearchBy cmp l = .ok i) : ∃ a, l[i]? = some a ∧ cmp a = .eq := by
  simp only [binarySearchBy] at h
  split at h
  · cases h
  · rename_i a ha
    split at h <;> cases h
    rename_i heq
    exact ⟨a, ha, heq⟩

/-- A miss in an ordered sequence separates the smaller from the larger elements. -/
theorem binarySearchBy_error {cmp : α → Ordering} {l : List α} {i : Nat}
    (hl : OrderedBy cmp l) (h : binarySearchBy cmp l = .error i) :
    i ≤ l.length ∧ (∀ a ∈ l.take i, cmp a = .lt) ∧ ∀ a ∈ l.drop i, cmp a = .gt := by
  rcases Nat.eq_zero_or_pos l.length with hzero | hpos
  · have hnil : l = [] := List.eq_nil_of_length_eq_zero hzero
    subst hnil
    cases h
    simp
  · obtain ⟨hlt, hleft, hright⟩ :=
      binarySearchLoop_spec hl hpos (by omega) (Or.inl rfl)
        (fun i a hi ha => by
          have := (List.getElem?_eq_some_iff.mp ha).1
          omega)
    simp only [binarySearchBy] at h
    generalize binarySearchLoop cmp l 0 l.length = base at h hlt hleft hright
    simp only [List.getElem?_eq_getElem hlt] at h hleft
    have hdrop : ∀ a ∈ l.drop (base + 1), cmp a = .gt := by
      intro a ha
      rcases List.mem_iff_getElem?.mp ha with ⟨j, hj⟩
      rw [List.getElem?_drop] at hj
      exact hright _ a (by omega) hj
    split at h <;> cases h
    · rename_i hcmp
      refine ⟨by omega, ?_, hdrop⟩
      intro a ha
      rcases List.mem_iff_getElem.mp ha with ⟨j, hj, rfl⟩
      rw [List.length_take] at hj
      rw [List.getElem_take]
      rcases Nat.lt_or_ge j base with hjb | hjb
      · exact (List.pairwise_iff_getElem.mp hl j base (by omega) hlt hjb).2 hcmp
      · have : j = base := by omega
        subst this
        exact hcmp
    · rename_i hcmp
      have hzero : i = 0 := by
        rcases hleft with hleft | hleft
        · exact hleft
        · exact absurd hcmp (hleft _ rfl)
      subst hzero
      refine ⟨by omega, by simp, ?_⟩
      intro a ha
      rw [List.drop_eq_getElem_cons hlt, List.mem_cons] at ha
      rcases ha with rfl | ha
      · exact hcmp
      · exact hdrop a ha

/-- A sequence that ends the smaller elements before the larger ones begin has
its partition point there. -/
theorem partitionPoint_append {p : α → Bool} {xs ys : List α}
    (hxs : ∀ a ∈ xs, p a = true) (hys : ∀ a ∈ ys, p a = false) :
    partitionPoint p (xs ++ ys) = xs.length := by
  have hord : OrderedBy (fun a => if p a then Ordering.lt else .gt) (xs ++ ys) := by
    refine List.pairwise_append.mpr ⟨?_, ?_, ?_⟩
    · exact List.pairwise_of_forall_mem_list fun a ha b hb => by simp [hxs a ha, hxs b hb]
    · exact List.pairwise_of_forall_mem_list fun a ha b hb => by simp [hys a ha, hys b hb]
    · intro a ha b hb
      simp [hxs a ha, hys b hb]
  unfold partitionPoint
  split <;> rename_i i hi
  · rcases binarySearchBy_ok hi with ⟨a, _, ha⟩
    split at ha <;> cases ha
  · rcases binarySearchBy_error hord hi with ⟨hle, htake, hdrop⟩
    rcases Nat.lt_trichotomy i xs.length with hlt | heq | hgt
    · -- an element of the first part cannot lie behind the partition point
      have hmem : xs[i] ∈ (xs ++ ys).drop i := by
        rw [List.drop_append_of_le_length (Nat.le_of_lt hlt), List.drop_eq_getElem_cons hlt]
        exact List.mem_append_left _ (List.mem_cons_self)
      have := hdrop _ hmem
      simp [hxs _ (List.getElem_mem hlt)] at this
    · exact heq
    · rw [List.length_append] at hle
      have hj : xs.length < (xs ++ ys).length := by simp; omega
      have hmem : (xs ++ ys)[xs.length] ∈ (xs ++ ys).take i := by
        rw [List.mem_take_iff_getElem]
        exact ⟨xs.length, by omega, rfl⟩
      have := htake _ hmem
      rw [List.getElem_append_right (Nat.le_refl _)] at this
      simp [hys _ (List.getElem_mem _)] at this

/-- A reported position is within the sequence or at its end, on any input. -/
theorem binarySearchBy_error_le {cmp : α → Ordering} {l : List α} {i : Nat}
    (h : binarySearchBy cmp l = .error i) : i ≤ l.length := by
  simp only [binarySearchBy] at h
  split at h
  · cases h
    omega
  · rename_i a ha
    have := (List.getElem?_eq_some_iff.mp ha).1
    split at h <;> cases h <;> omega

/-- The partition point never exceeds the length. -/
theorem partitionPoint_le (p : α → Bool) (l : List α) : partitionPoint p l ≤ l.length := by
  unfold partitionPoint
  split <;> rename_i i hi
  · rcases binarySearchBy_ok hi with ⟨a, ha, _⟩
    exact (List.getElem?_eq_some_iff.mp ha).1.le
  · exact binarySearchBy_error_le hi

/-- A proper partition point leaves out elements on its left. -/
theorem length_take_partitionPoint_lt {p : α → Bool} {l : List α}
    (h : ¬ (partitionPoint p l = 0 ∨ partitionPoint p l = l.length)) :
    (l.take (partitionPoint p l)).length < l.length := by
  have hle := partitionPoint_le p l
  rw [List.length_take]
  omega

/-- A proper partition point leaves out elements on its right. -/
theorem length_drop_partitionPoint_lt {p : α → Bool} {l : List α}
    (h : ¬ (partitionPoint p l = 0 ∨ partitionPoint p l = l.length)) :
    (l.drop (partitionPoint p l)).length < l.length := by
  have hle := partitionPoint_le p l
  rw [List.length_drop]
  omega

/-! ## Partitioned sequences -/

/-- A predicate that never comes back after it has failed splits a sequence. -/
theorem exists_partition {p : α → Bool} {l : List α}
    (hmono : l.Pairwise fun a b => p a = false → p b = false) :
    ∃ xs ys, l = xs ++ ys ∧ (∀ a ∈ xs, p a = true) ∧ ∀ a ∈ ys, p a = false := by
  induction l with
  | nil => exact ⟨[], [], rfl, by simp, by simp⟩
  | cons b l ih =>
      rcases List.pairwise_cons.mp hmono with ⟨hb, hl⟩
      cases hpb : p b with
      | true =>
          rcases ih hl with ⟨xs, ys, rfl, hxs, hys⟩
          exact ⟨b :: xs, ys, rfl, by simpa [hpb] using hxs, hys⟩
      | false =>
          refine ⟨[], b :: l, rfl, by simp, ?_⟩
          intro a ha
          rcases List.mem_cons.mp ha with rfl | ha
          · exact hpb
          · exact hb a ha hpb

/-- Filtering a split sequence by its predicate gives back the first part. -/
theorem filter_append_eq_left {p : α → Bool} {xs ys : List α} (hxs : ∀ a ∈ xs, p a = true)
    (hys : ∀ a ∈ ys, p a = false) : (xs ++ ys).filter p = xs := by
  rw [List.filter_append, List.filter_eq_self.mpr hxs,
    List.filter_eq_nil_iff.mpr fun a ha => by simp [hys a ha], List.append_nil]

/-- The partition point of a partitioned sequence separates what passes from what fails. -/
theorem take_drop_partitionPoint {p : α → Bool} {l : List α}
    (hmono : l.Pairwise fun a b => p a = false → p b = false) :
    l.take (partitionPoint p l) = l.filter p ∧
      l.drop (partitionPoint p l) = l.filter fun a => !p a := by
  obtain ⟨xs, ys, rfl, hxs, hys⟩ := exists_partition hmono
  rw [partitionPoint_append hxs hys, List.take_left, List.drop_left]
  refine ⟨(filter_append_eq_left hxs hys).symm, ?_⟩
  rw [List.filter_append, List.filter_eq_nil_iff.mpr fun a ha => by simp [hxs a ha],
    List.filter_eq_self.mpr fun a ha => by simp [hys a ha], List.nil_append]

/-! ## Updates at a position -/

/-- A sequence around one of its positions. -/
theorem eq_take_append_cons_drop {l : List α} {i : Nat} {a : α} (h : l[i]? = some a) :
    l = l.take i ++ a :: l.drop (i + 1) := by
  rcases List.getElem?_eq_some_iff.mp h with ⟨hlt, rfl⟩
  rw [← List.drop_eq_getElem_cons hlt, List.take_append_drop]

/-- Filtering keeps the position of an entry exactly when nothing in front of it goes. -/
theorem getElem?_filter_eq_iff {p : α → Bool} {l : List α} (hl : l.Nodup) {i : Nat} {a : α}
    (hi : l[i]? = some a) (ha : p a = true) :
    (l.filter p)[i]? = some a ↔ ∀ b ∈ l.take i, p b = true := by
  rcases List.getElem?_eq_some_iff.mp hi with ⟨hlt, rfl⟩
  have hsplit := eq_take_append_cons_drop hi
  have hfilter : l.filter p = (l.take i).filter p ++ l[i] :: (l.drop (i + 1)).filter p := by
    conv_lhs => rw [hsplit, List.filter_append, List.filter_cons_of_pos ha]
  have hat : (l.filter p)[((l.take i).filter p).length]? = some l[i] := by
    rw [hfilter, List.getElem?_append_right (Nat.le_refl _), Nat.sub_self, List.getElem?_cons_zero]
  have hlength : (l.take i).length = i := List.length_take_of_le hlt.le
  rw [← List.length_filter_eq_length_iff, hlength]
  constructor
  · intro h
    have hnodup : (l.filter p).Nodup := hl.filter p
    exact (List.getElem?_inj (List.getElem?_eq_some_iff.mp hat).1 hnodup).mp (hat.trans h.symm)
  · intro h
    rw [h] at hat
    exact hat

/-- {lit}`Vec::insert` puts the new element between the two parts of the sequence. -/
theorem insertIdx_eq_take_append_cons_drop {l : List α} {i : Nat} (h : i ≤ l.length) (a : α) :
    l.insertIdx i a = l.take i ++ a :: l.drop i := by
  induction l generalizing i with
  | nil =>
      have : i = 0 := by simpa using h
      subst this
      rfl
  | cons b l ih =>
      cases i with
      | zero => rfl
      | succ i => simp [ih (by simpa using h)]

/-- With distinct keys an element is found by its key. -/
theorem find?_key_eq [DecidableEq κ] {key : α → κ} {l : List α} (hl : (l.map key).Nodup) {a : α}
    (ha : a ∈ l) : l.find? (fun b => key b = key a) = some a := by
  induction l with
  | nil => cases ha
  | cons b l ih =>
      obtain ⟨hb, hrest⟩ := List.nodup_cons.mp hl
      rcases List.mem_cons.mp ha with rfl | ha
      · simp
      · have hne : key b ≠ key a := fun heq => hb (heq ▸ List.mem_map_of_mem ha)
        rw [List.find?_cons_of_neg (by simpa using hne)]
        exact ih hrest ha

/-! ## Adjacent elements -/

/-- {lit}`windows(2).any`: some two neighbours satisfy the test. -/
def anyAdjacent (p : α → α → Bool) : List α → Bool
  | a :: b :: l => p a b || anyAdjacent p (b :: l)
  | _ => false

/-- When no neighbours satisfy a test whose failure is transitive along the
sequence, no two elements in order do. -/
theorem pairwise_of_anyAdjacent_eq_false {p : α → α → Bool} {l : List α}
    (htrans : ∀ a, ∀ b ∈ l, ∀ c, p a b = false → p b c = false → p a c = false)
    (h : anyAdjacent p l = false) : l.Pairwise fun a b => p a b = false := by
  fun_induction anyAdjacent p l with
  | case1 a b l ih =>
      simp only [Bool.or_eq_false_iff] at h
      have hrest := ih (fun x y hy => htrans x y (List.mem_cons_of_mem _ hy)) h.2
      refine List.pairwise_cons.mpr ⟨?_, hrest⟩
      intro c hc
      rcases List.mem_cons.mp hc with rfl | hc
      · exact h.1
      · exact htrans a b (by simp) c h.1 ((List.pairwise_cons.mp hrest).1 c hc)
  | case2 l hl =>
      rcases l with _ | ⟨a, _ | ⟨b, l⟩⟩
      · exact List.Pairwise.nil
      · exact List.pairwise_singleton _ a
      · exact absurd rfl (hl a b l)

/-- A sequence in which no two elements in order satisfy the test passes it. -/
theorem anyAdjacent_eq_false {p : α → α → Bool} {l : List α}
    (h : l.Pairwise fun a b => p a b = false) : anyAdjacent p l = false := by
  fun_induction anyAdjacent p l with
  | case1 a b l ih =>
      rcases List.pairwise_cons.mp h with ⟨ha, hrest⟩
      rw [ha b (by simp), ih hrest]
      rfl
  | case2 l hl => rfl

/-- Neighbours of a mapped sequence. -/
theorem anyAdjacent_map {β : Type} (p : β → β → Bool) (f : α → β) (l : List α) :
    anyAdjacent p (l.map f) = anyAdjacent (fun a b => p (f a) (f b)) l := by
  fun_induction anyAdjacent (fun a b => p (f a) (f b)) l with
  | case1 a b l ih =>
      simp only [List.map_cons, anyAdjacent] at ih ⊢
      rw [ih]
  | case2 l hl =>
      rcases l with _ | ⟨a, _ | ⟨b, l⟩⟩
      · rfl
      · rfl
      · exact absurd rfl (hl a b l)

/-! ## Runs -/

/-- {lit}`slice::chunk_by`: the maximal runs in which neighbours are related. -/
def chunkBy (r : α → α → Bool) : List α → List (List α)
  | [] => []
  | a :: l =>
      match chunkBy r l with
      | (b :: c) :: cs => if r a b then (a :: b :: c) :: cs else [a] :: (b :: c) :: cs
      | cs => [a] :: cs

/-- The first run starts with the first element. -/
theorem chunkBy_cons (r : α → α → Bool) (a : α) (l : List α) :
    ∃ c cs, chunkBy r (a :: l) = (a :: c) :: cs := by
  unfold chunkBy
  split
  · split
    · exact ⟨_, _, rfl⟩
    · exact ⟨_, _, rfl⟩
  · exact ⟨_, _, rfl⟩

/-- An element that is related to the next one joins its run. -/
theorem chunkBy_cons_of_rel {r : α → α → Bool} {a b : α} {l c : List α} {cs : List (List α)}
    (h : chunkBy r (b :: l) = (b :: c) :: cs) (hr : r a b = true) :
    chunkBy r (a :: b :: l) = (a :: b :: c) :: cs := by
  rw [chunkBy, h]
  exact if_pos hr

/-- An element that is not related to the next one is a run by itself. -/
theorem chunkBy_cons_of_not_rel {r : α → α → Bool} {a b : α} {l c : List α} {cs : List (List α)}
    (h : chunkBy r (b :: l) = (b :: c) :: cs) (hr : r a b = false) :
    chunkBy r (a :: b :: l) = [a] :: (b :: c) :: cs := by
  rw [chunkBy, h]
  exact if_neg (Bool.not_eq_true _ ▸ hr)

/-- In a sequence in increasing key order, the runs are the elements with one key, key after key. -/
theorem chunkBy_eq_map_filter [LinearOrder κ] {key : α → κ} {l : List α}
    (h : l.Pairwise fun a b => key a ≤ key b) :
    ∃ ks : List κ, ks.Pairwise (· < ·) ∧ (∀ k, k ∈ ks ↔ ∃ a ∈ l, key a = k) ∧
      chunkBy (fun a b => decide (key a = key b)) l =
        ks.map fun k => l.filter fun a => key a = k := by
  induction l with
  | nil => exact ⟨[], List.Pairwise.nil, by simp, rfl⟩
  | cons a l ih =>
      rcases List.pairwise_cons.mp h with ⟨ha, hl⟩
      rcases ih hl with ⟨ks, hks, hmem, hchunks⟩
      cases l with
      | nil =>
          refine ⟨[key a], List.pairwise_singleton _ _, by simp [eq_comm], ?_⟩
          simp [chunkBy]
      | cons b l =>
          rcases chunkBy_cons (fun a b => decide (key a = key b)) b l with ⟨c, cs, hfirst⟩
          have hab : key a ≤ key b := ha b (by simp)
          -- the smallest key is that of the first element
          rcases ks with _ | ⟨k, ks⟩
          · rw [hfirst] at hchunks
            cases hchunks
          rcases List.pairwise_cons.mp hks with ⟨hk, _⟩
          have hfirstRun := hchunks
          rw [hfirst, List.map_cons, List.cons.injEq] at hfirstRun
          have hkb : key b = k := by
            have hbmem : b ∈ (b :: l).filter fun a => key a = k :=
              hfirstRun.1 ▸ List.mem_cons_self
            exact of_decide_eq_true (List.mem_filter.mp hbmem).2
          have hskip : ∀ k', key a < k' → (a :: b :: l).filter (fun x => decide (key x = k')) =
              (b :: l).filter fun x => decide (key x = k') := by
            intro k' hlt
            rw [List.filter_cons_of_neg (by simpa using hlt.ne)]
          have hlater :
              ks.map (fun k' => (a :: b :: l).filter fun x => decide (key x = k')) = cs := by
            rw [hfirstRun.2]
            apply List.map_congr_left
            intro k' hk'
            exact hskip k' (hab.trans_lt (hkb ▸ hk k' hk'))
          have hkeys : ∀ k', (∃ x ∈ a :: b :: l, key x = k') ↔
              key a = k' ∨ ∃ x ∈ b :: l, key x = k' :=
            fun _ => List.exists_mem_cons_iff _ a (b :: l)
          by_cases heq : key a = key b
          · refine ⟨k :: ks, hks, ?_, ?_⟩
            · intro k'
              rw [hkeys, hmem, heq]
              exact (or_iff_right_of_imp fun hkey => ⟨b, List.mem_cons_self, hkey⟩).symm
            · rw [chunkBy_cons_of_rel hfirst (decide_eq_true heq), List.map_cons, hlater,
                List.filter_cons_of_pos (by simpa using heq.trans hkb), ← hfirstRun.1]
          · have hlt : key a < key b := lt_of_le_of_ne hab heq
            refine ⟨key a :: k :: ks, ?_, ?_, ?_⟩
            · apply List.pairwise_cons.mpr
              refine ⟨?_, hks⟩
              intro k' hk'
              rcases List.mem_cons.mp hk' with rfl | hk'
              · exact hkb ▸ hlt
              · exact hlt.trans (hkb ▸ hk k' hk')
            · intro k'
              rw [hkeys, List.mem_cons, hmem, eq_comm]
            · have halone : (a :: b :: l).filter (fun x => decide (key x = key a)) = [a] := by
                rw [List.filter_cons_of_pos (by simp), List.filter_eq_nil_iff.mpr]
                intro x hx
                have hle : key b ≤ key x := by
                  rcases List.mem_cons.mp hx with rfl | hx
                  · exact le_rfl
                  · exact (List.pairwise_cons.mp hl).1 x hx
                simpa using (hlt.trans_le hle).ne'
              rw [chunkBy_cons_of_not_rel hfirst (decide_eq_false heq), List.map_cons,
                List.map_cons, halone, hskip k (hkb ▸ hlt), ← hfirstRun.1, hlater]

/-- In a sequence in increasing key order, the elements with one key form a run. -/
theorem filter_mem_chunkBy [LinearOrder κ] {key : α → κ} {l : List α}
    (h : l.Pairwise fun a b => key a ≤ key b) {k : κ} (hk : l.filter (fun a => key a = k) ≠ []) :
    l.filter (fun a => key a = k) ∈ chunkBy (fun a b => key a = key b) l := by
  rcases chunkBy_eq_map_filter h with ⟨ks, _, hmem, hchunks⟩
  rcases List.exists_mem_of_ne_nil _ hk with ⟨a, ha⟩
  rcases List.mem_filter.mp ha with ⟨ha, hkey⟩
  rw [hchunks]
  exact List.mem_map.mpr ⟨k, (hmem k).mpr ⟨a, ha, of_decide_eq_true hkey⟩, rfl⟩

/-! ## Sequences strictly sorted by a key -/

/-- The keys of a sequence are strictly increasing. -/
def SortedBy [LT κ] (key : α → κ) (l : List α) : Prop :=
  l.Pairwise fun a b => key a < key b

/-! ## Sorting by a key -/

section

variable [LinearOrder κ]

/-- {lit}`slice::sort_unstable_by_key`.  The order of elements with equal keys is
unspecified there; here it is the original one. -/
def sortByKey (key : α → κ) (l : List α) : List α :=
  l.insertionSort fun a b => key a ≤ key b

theorem sortByKey_perm (key : α → κ) (l : List α) : (sortByKey key l).Perm l :=
  List.perm_insertionSort _ l

/-- Sorting puts a sequence in increasing key order. -/
theorem sortByKey_pairwise (key : α → κ) (l : List α) :
    (sortByKey key l).Pairwise fun a b => key a ≤ key b := by
  have htotal : Std.Total fun a b : α => key a ≤ key b := ⟨fun a b => le_total (key a) (key b)⟩
  have htrans : IsTrans α fun a b => key a ≤ key b := ⟨fun _ _ _ hab hbc => le_trans hab hbc⟩
  exact List.pairwise_insertionSort _ l

variable {κ' : Type} [LinearOrder κ']

/-- Sorting by two keys sorts by the first of them. -/
theorem sortByKey_lex_pairwise (first : α → κ) (second : α → κ') (l : List α) :
    (sortByKey (fun a => toLex (first a, second a)) l).Pairwise fun a b => first a ≤ first b := by
  apply (sortByKey_pairwise (fun a => toLex (first a, second a)) l).imp
  intro a b hab
  rcases Prod.Lex.le_iff.mp hab with hlt | ⟨heq, _⟩
  · exact hlt.le
  · exact heq.le

/-- Sorting by two keys sorts the elements with one first key by the second. -/
theorem sortByKey_lex_filter (first : α → κ) (second : α → κ') (l : List α) (k : κ) :
    ((sortByKey (fun a => toLex (first a, second a)) l).filter fun a => first a = k).Pairwise
      fun a b => second a ≤ second b := by
  apply ((sortByKey_pairwise (fun a => toLex (first a, second a)) l).filter _).imp_of_mem
  intro a b ha hb hab
  have hsame : first a = first b :=
    (of_decide_eq_true (List.mem_filter.mp ha).2).trans
      (of_decide_eq_true (List.mem_filter.mp hb).2).symm
  rcases Prod.Lex.le_iff.mp hab with hlt | ⟨_, hle⟩
  · exact absurd hsame hlt.ne
  · exact hle

end

namespace SortedBy

variable [LinearOrder κ] {key : α → κ} {k : κ} {l : List α}

theorem orderedBy (h : SortedBy key l) (k : κ) :
    OrderedBy (fun a => compare (key a) k) l := by
  refine List.Pairwise.imp ?_ h
  intro a b hab
  simp only [compare_gt_iff_gt, compare_lt_iff_lt]
  exact ⟨fun hk => hk.trans hab, fun hk => hab.trans hk⟩

theorem nil : SortedBy key ([] : List α) := List.Pairwise.nil

/-- A greater element at the end keeps a sequence sorted. -/
theorem concat (h : SortedBy key l) {a : α} (hlast : ∀ b, l.getLast? = some b → key b < key a) :
    SortedBy key (l ++ [a]) := by
  apply List.pairwise_append.mpr
  refine ⟨h, List.pairwise_singleton _ _, fun b hb c hc => ?_⟩
  rw [List.mem_singleton.mp hc]
  rcases List.eq_nil_or_concat' l with rfl | ⟨m, d, rfl⟩
  · cases hb
  · have hd := hlast d (by simp)
    rcases List.mem_append.mp hb with hb | hb
    · have hlt : key b < key d := (List.pairwise_append.mp h).2.2 b hb d (by simp)
      exact hlt.trans hd
    · rw [List.mem_singleton.mp hb]
      exact hd

/-- Elements of a strictly sorted sequence are determined by their keys. -/
theorem eq_of_key_eq (h : SortedBy key l) {a b : α} (ha : a ∈ l) (hb : b ∈ l)
    (hkey : key a = key b) : a = b := by
  induction l with
  | nil => cases ha
  | cons c l ih =>
      rcases List.pairwise_cons.mp h with ⟨hc, hl⟩
      rcases List.mem_cons.mp ha with hac | hal <;> rcases List.mem_cons.mp hb with hbc | hbl
      · exact hac.trans hbc.symm
      · exact absurd hkey (hac ▸ (hc b hbl).ne)
      · exact absurd hkey (hbc ▸ (hc a hal).ne')
      · exact ih hl hal hbl

/-- A relation between earlier and later elements holds of elements with increasing keys. -/
theorem rel_of_key_lt (h : SortedBy key l) {r : α → α → Prop} (hr : l.Pairwise r) {a b : α}
    (ha : a ∈ l) (hb : b ∈ l) (hlt : key a < key b) : r a b := by
  induction l with
  | nil => cases ha
  | cons c l ih =>
      rcases List.pairwise_cons.mp h with ⟨hc, hl⟩
      rcases List.pairwise_cons.mp hr with ⟨hrc, hrl⟩
      rcases List.mem_cons.mp ha with hac | hal <;> rcases List.mem_cons.mp hb with hbc | hbl
      · exact absurd hlt (hac ▸ hbc ▸ lt_irrefl _)
      · exact hac ▸ hrc b hbl
      · exact absurd (hlt.trans (hbc ▸ hc a hal)) (lt_irrefl _)
      · exact ih hl hrl hal hbl

/-- Keys grow with the position. -/
theorem key_le_of_le (h : SortedBy key l) {i j : Nat} {a b : α} (ha : l[i]? = some a)
    (hb : l[j]? = some b) (hij : i ≤ j) : key a ≤ key b := by
  rcases List.getElem?_eq_some_iff.mp ha with ⟨hi, rfl⟩
  rcases List.getElem?_eq_some_iff.mp hb with ⟨hj, rfl⟩
  rcases Nat.lt_or_eq_of_le hij with hlt | rfl
  · exact (List.pairwise_iff_getElem.mp h i j hi hj hlt).le
  · exact le_rfl

/-- A key that lies between two neighbours splits a sorted sequence there. -/
theorem split_at (h : SortedBy key l) {i : Nat} (hlow : i = 0 ∨ ∃ a, l[i - 1]? = some a ∧ key a < k)
    (hhigh : ∀ a, l[i]? = some a → k < key a) :
    i ≤ l.length ∧ (∀ a ∈ l.take i, key a < k) ∧ ∀ a ∈ l.drop i, k < key a := by
  refine ⟨?_, ?_, ?_⟩
  · rcases hlow with rfl | ⟨a, ha, _⟩
    · exact Nat.zero_le _
    · have := (List.getElem?_eq_some_iff.mp ha).1
      omega
  · intro b hb
    rcases List.mem_iff_getElem?.mp hb with ⟨j, hj⟩
    have hji : j < i := by
      have := (List.getElem?_eq_some_iff.mp hj).1
      rw [List.length_take] at this
      omega
    rw [List.getElem?_take_of_lt hji] at hj
    rcases hlow with rfl | ⟨a, ha, hak⟩
    · omega
    · exact (h.key_le_of_le hj ha (by omega)).trans_lt hak
  · intro b hb
    rcases List.mem_iff_getElem?.mp hb with ⟨j, hj⟩
    rw [List.getElem?_drop] at hj
    have hlen := (List.getElem?_eq_some_iff.mp hj).1
    have hi : l[i]? = some l[i] := List.getElem?_eq_getElem (by omega)
    exact (hhigh _ hi).trans_le (h.key_le_of_le hi hj (by omega))

/-- A predicate that holds below a key has its partition point where the larger keys begin. -/
theorem take_drop_partitionPoint (h : SortedBy key l) {p : α → Bool}
    (hp : ∀ a ∈ l, p a = decide (key a < k)) :
    l.take (partitionPoint p l) = l.filter (fun a => key a < k) ∧
      l.drop (partitionPoint p l) = l.filter fun a => k ≤ key a := by
  have hmono : l.Pairwise fun a b => p a = false → p b = false := by
    refine h.imp_of_mem fun {a b} ha hb hab hpa => ?_
    simp only [hp a ha, hp b hb, decide_eq_false_iff_not, not_lt] at hpa ⊢
    exact hpa.trans hab.le
  obtain ⟨htake, hdrop⟩ := Foundations.take_drop_partitionPoint hmono
  refine ⟨htake.trans (List.filter_congr hp), hdrop.trans (List.filter_congr fun a ha => ?_)⟩
  rw [hp a ha, ← decide_not]
  exact decide_eq_decide.mpr not_lt

/-- The keys of a strictly sorted sequence are distinct. -/
theorem nodup_map (h : SortedBy key l) : (l.map key).Nodup := by
  rw [List.Nodup, List.pairwise_map]
  exact h.imp fun hab => hab.ne

/-- Order is a matter of the keys alone. -/
theorem of_map_eq {m : List α} (h : SortedBy key l) (hkeys : m.map key = l.map key) :
    SortedBy key m := by
  rw [SortedBy, ← List.pairwise_map (f := key) (R := (· < ·))] at h ⊢
  rw [hkeys]
  exact h

/-- A sequence in increasing key order without equal neighbours is strictly sorted. -/
theorem of_anyAdjacent_eq (hle : l.Pairwise fun a b => key a ≤ key b)
    (h : anyAdjacent (fun a b => key a = key b) l = false) : SortedBy key l := by
  fun_induction anyAdjacent (fun a b => decide (key a = key b)) l with
  | case1 a b l ih =>
      simp only [Bool.or_eq_false_iff, decide_eq_false_iff_not] at h
      rcases List.pairwise_cons.mp hle with ⟨ha, hrest⟩
      have hsorted := ih hrest h.2
      have hab : key a < key b := lt_of_le_of_ne (ha b (by simp)) h.1
      refine List.pairwise_cons.mpr ⟨?_, hsorted⟩
      intro c hc
      rcases List.mem_cons.mp hc with rfl | hc
      · exact hab
      · exact hab.trans ((List.pairwise_cons.mp hsorted).1 c hc)
  | case2 l hl =>
      rcases l with _ | ⟨a, _ | ⟨b, l⟩⟩
      · exact nil
      · exact List.pairwise_singleton _ a
      · exact absurd rfl (hl a b l)

/-- A sequence in which every neighbour has a larger key is strictly sorted. -/
theorem of_anyAdjacent_ge (h : anyAdjacent (fun a b => key a ≥ key b) l = false) :
    SortedBy key l := by
  have hpairwise := pairwise_of_anyAdjacent_eq_false
    (fun a b _ c hab hbc => by
      simp only [ge_iff_le, decide_eq_false_iff_not, not_le] at *
      exact hab.trans hbc) h
  exact hpairwise.imp fun hab => by simpa using hab

theorem anyAdjacent_ge (h : SortedBy key l) :
    anyAdjacent (fun a b => key a ≥ key b) l = false :=
  anyAdjacent_eq_false (h.imp fun hab => by simpa using hab)

/-- A sequence in increasing key order with distinct keys is strictly sorted. -/
theorem of_nodup (hle : l.Pairwise fun a b => key a ≤ key b) (h : (l.map key).Nodup) :
    SortedBy key l := by
  rw [List.Nodup, List.pairwise_map] at h
  exact hle.imp₂ (fun _ _ hab hne => lt_of_le_of_ne hab hne) h

/-- Strictly sorted sequences with the same elements are equal. -/
theorem eq_of_perm {m : List α} (hl : SortedBy key l) (hm : SortedBy key m)
    (h : l.Perm m) : l = m := by
  refine h.eq_of_pairwise (fun a b _ _ hab hba => ?_) hl hm
  exact absurd (lt_trans hab hba) (lt_irrefl _)

/-- A binary search by key hits exactly the position of that key. -/
theorem search_ok_iff (h : SortedBy key l) {i : Nat} :
    binarySearchByKey key k l = .ok i ↔ ∃ a, l[i]? = some a ∧ key a = k := by
  constructor
  · intro hi
    rcases binarySearchBy_ok hi with ⟨a, ha, heq⟩
    exact ⟨a, ha, compare_eq_iff_eq.mp heq⟩
  · rintro ⟨a, ha, rfl⟩
    rcases List.getElem?_eq_some_iff.mp ha with ⟨hlt, rfl⟩
    cases hs : binarySearchByKey key (key l[i]) l with
    | ok j =>
        rcases binarySearchBy_ok hs with ⟨b, hb, heq⟩
        rcases List.getElem?_eq_some_iff.mp hb with ⟨hj, rfl⟩
        have hkey := compare_eq_iff_eq.mp heq
        have hnodup := h.nodup_map
        have hij : j = i := by
          have hj' : j < (l.map key).length := by simpa using hj
          have hi' : i < (l.map key).length := by simpa using hlt
          have hget : (l.map key)[j] = (l.map key)[i] := by simpa using hkey
          exact (List.Nodup.getElem_inj_iff hnodup).mp hget
        rw [hij]
    | error j =>
        rcases binarySearchBy_error (h.orderedBy _) hs with ⟨_, htake, hdrop⟩
        have hmem : l[i] ∈ l.take j ++ l.drop j := by
          rw [List.take_append_drop]
          exact List.getElem_mem hlt
        rcases List.mem_append.mp hmem with hmem | hmem
        · simpa using htake _ hmem
        · simpa using hdrop _ hmem

/-- A miss splits the sequence at the searched key. -/
theorem search_error (h : SortedBy key l) {i : Nat}
    (hi : binarySearchByKey key k l = .error i) :
    i ≤ l.length ∧ (∀ a ∈ l.take i, key a < k) ∧ ∀ a ∈ l.drop i, k < key a := by
  rcases binarySearchBy_error (h.orderedBy k) hi with ⟨hle, htake, hdrop⟩
  exact ⟨hle, fun a ha => compare_lt_iff_lt.mp (htake a ha),
    fun a ha => compare_gt_iff_gt.mp (hdrop a ha)⟩

/-- A search misses exactly the keys that do not occur. -/
theorem search_error_iff (h : SortedBy key l) :
    (∃ i, binarySearchByKey key k l = .error i) ↔ ∀ a ∈ l, key a ≠ k := by
  constructor
  · rintro ⟨i, hi⟩ a ha hkey
    rcases List.mem_iff_getElem?.mp ha with ⟨j, hj⟩
    have hok := (h.search_ok_iff (k := k)).mpr ⟨a, hj, hkey⟩
    rw [hi] at hok
    cases hok
  · intro hne
    cases hs : binarySearchByKey key k l with
    | ok i =>
        rcases h.search_ok_iff.mp hs with ⟨a, ha, hkey⟩
        exact absurd hkey (hne a (List.mem_of_getElem? ha))
    | error i => exact ⟨i, rfl⟩

/-- Two places that split a sequence at a key are in order only if they are one. -/
theorem le_of_split {i j : Nat} (hj : j ≤ l.length) (hhigh : ∀ a ∈ l.drop i, k < key a)
    (hlow : ∀ a ∈ l.take j, key a < k) : j ≤ i := by
  by_contra hlt
  have hi : i < l.length := by omega
  have hdrop : l[i] ∈ l.drop i := by
    rw [List.drop_eq_getElem_cons hi]
    exact List.mem_cons_self
  have htake : l[i] ∈ l.take j := List.mem_take_iff_getElem.mpr ⟨i, by omega, rfl⟩
  exact lt_asymm (hhigh _ hdrop) (hlow _ htake)

/-- A search misses at the one place that splits the sequence at the key. -/
theorem search_eq_error (h : SortedBy key l) {i : Nat} (hle : i ≤ l.length)
    (hlow : ∀ a ∈ l.take i, key a < k) (hhigh : ∀ a ∈ l.drop i, k < key a) :
    binarySearchByKey key k l = .error i := by
  have hmiss : ∀ a ∈ l, key a ≠ k := by
    intro a ha
    rw [← List.take_append_drop i l, List.mem_append] at ha
    rcases ha with ha | ha
    · exact (hlow a ha).ne
    · exact (hhigh a ha).ne'
  rcases h.search_error_iff.mpr hmiss with ⟨j, hj⟩
  rcases h.search_error hj with ⟨hjle, hjlow, hjhigh⟩
  rw [hj, Nat.le_antisymm (le_of_split hjle hhigh hjlow) (le_of_split hle hjhigh hlow)]

/-- The first key from `lo` on tells whether some key lies between two bounds. -/
theorem exists_in_range (h : SortedBy key l) {lo hi : κ} :
    (∃ a, l[partitionPoint (fun a => key a < lo) l]? = some a ∧ key a ≤ hi) ↔
      ∃ a ∈ l, lo ≤ key a ∧ key a ≤ hi := by
  have hmono : l.Pairwise fun a b => decide (key a < lo) = false → decide (key b < lo) = false :=
    h.imp fun {a b} hab ha => by
      simp only [decide_eq_false_iff_not, not_lt] at ha ⊢
      exact ha.trans hab.le
  rcases exists_partition hmono with ⟨xs, ys, rfl, hxs, hys⟩
  rw [partitionPoint_append hxs hys]
  simp only [decide_eq_true_eq, decide_eq_false_iff_not, not_lt] at hxs hys
  rw [List.getElem?_append_right (Nat.le_refl _), Nat.sub_self]
  constructor
  · rintro ⟨a, ha, hhi⟩
    have hmem : a ∈ ys := List.mem_of_getElem? ha
    exact ⟨a, List.mem_append_right _ hmem, hys a hmem, hhi⟩
  · rintro ⟨a, ha, hlo, hhi⟩
    have hmem : a ∈ ys := by
      rcases List.mem_append.mp ha with ha | ha
      · exact absurd hlo (not_le_of_gt (hxs a ha))
      · exact ha
    cases ys with
    | nil => cases hmem
    | cons b ys =>
        refine ⟨b, rfl, ?_⟩
        rcases List.mem_cons.mp hmem with rfl | hmem
        · exact hhi
        · have hb := (List.pairwise_cons.mp (List.pairwise_append.mp h).2.1).1 a hmem
          exact hb.le.trans hhi

end SortedBy

end Foundations
