import Mathlib.Algebra.BigOperators.Group.Finset.Piecewise
import Mathlib.Algebra.GroupWithZero.Nat
import Mathlib.Data.Fintype.BigOperators

/-!
# Tallies

A tally adds up the amounts of those entries of a sequence that satisfy a test.
Ledgers are compared by tallies: what an account received, what it spent.

Main results:

- Theorems {lit}`tally_cons` and {lit}`tally_append`: tallies are additive.
- Theorem {lit}`tally_congr`: a tally depends on the tested entries alone.
- Theorem {lit}`tally_eq_find`: at most one entry satisfies the test.
- Theorem {lit}`tally_split`: a second test splits a tally.
- Theorems {lit}`sum_tally` and {lit}`sum_map_tally`: tallies of each key add up to the tally of
  all keys.
-/

namespace Foundations

variable {α β : Type} {p q : α → Bool} {f g : α → Nat}

/-- The sum of the amounts of the entries that satisfy a test. -/
def tally (p : α → Bool) (f : α → Nat) (l : List α) : Nat :=
  (l.map fun a => if p a then f a else 0).sum

@[simp]
theorem tally_nil : tally p f [] = 0 := rfl

@[simp]
theorem tally_cons (a : α) (l : List α) :
    tally p f (a :: l) = (if p a then f a else 0) + tally p f l := rfl

@[simp]
theorem tally_append (l m : List α) : tally p f (l ++ m) = tally p f l + tally p f m := by
  simp [tally]

theorem tally_map (h : β → α) (l : List β) :
    tally p f (l.map h) = tally (fun b => p (h b)) (fun b => f (h b)) l := by
  simp [tally, Function.comp_def]

theorem tally_congr {l : List α} (hp : ∀ a ∈ l, p a = q a)
    (hf : ∀ a ∈ l, p a = true → f a = g a) : tally p f l = tally q g l := by
  unfold tally
  congr 1
  refine List.map_congr_left fun a ha => ?_
  rw [← hp a ha]
  split <;> rename_i h
  · exact hf a ha h
  · rfl

/-- Tallies of a sequence of sequences. -/
theorem sum_map_tally_flatMap (p : β → Bool) (f : β → Nat) (g : α → List β)
    (l : List α) : (l.map fun a => tally p f (g a)).sum = tally p f (l.flatMap g) := by
  induction l with
  | nil => rfl
  | cons a l ih => rw [List.map_cons, List.sum_cons, ih, List.flatMap_cons, tally_append]

/-- Reordering the entries does not change a tally. -/
theorem tally_perm {l m : List α} (h : l.Perm m) : tally p f l = tally p f m :=
  (h.map _).sum_eq

/-- No entry satisfies the test. -/
theorem tally_eq_zero {l : List α} (h : ∀ a ∈ l, p a = false) : tally p f l = 0 := by
  refine List.sum_eq_zero fun n hn => ?_
  rcases List.mem_map.mp hn with ⟨a, ha, rfl⟩
  simp [h a ha]

/-- One entry contributes at most the whole tally. -/
theorem le_tally {l : List α} {a : α} (ha : a ∈ l) (hp : p a = true) : f a ≤ tally p f l := by
  induction l with
  | nil => cases ha
  | cons b l ih =>
      rcases List.mem_cons.mp ha with rfl | ha
      · simp [hp]
      · have := ih ha
        simp only [tally_cons]
        omega

/-- When entries that satisfy the test are equal, the tally is the amount of the first
one, if there is one. -/
theorem tally_eq_find {κ : Type} [DecidableEq κ] {key : α → κ} {k : κ} {l : List α}
    (h : (l.map key).Nodup) :
    tally (fun a => key a = k) f l =
      match l.find? fun a => key a = k with
      | some a => f a
      | none => 0 := by
  induction l with
  | nil => rfl
  | cons b l ih =>
      simp only [List.map_cons, List.nodup_cons] at h
      by_cases hb : key b = k
      · have hzero : tally (fun a => decide (key a = k)) f l = 0 := by
          refine tally_eq_zero fun a ha => decide_eq_false ?_
          rintro hak
          exact h.1 (hb.trans hak.symm ▸ List.mem_map_of_mem ha)
        simp [hb, hzero]
      · simp [hb, ih h.2]

/-- Amounts in two parts are tallied part by part. -/
theorem tally_add (p : α → Bool) (f g : α → Nat) (l : List α) :
    tally p (fun a => f a + g a) l = tally p f l + tally p g l := by
  induction l with
  | nil => rfl
  | cons a l ih =>
      simp only [tally_cons, ih]
      by_cases hp : p a = true
      · simp only [hp, if_true]
        omega
      · simp [hp]

/-- The tally of the tested entries is a sum over them. -/
theorem sum_map_filter (p : α → Bool) (f : α → Nat) (l : List α) :
    ((l.filter p).map f).sum = tally p f l := by
  induction l with
  | nil => rfl
  | cons a l ih =>
      by_cases hp : p a = true
      · simp [hp, ih]
      · simp [hp, ih]

/-- A tally of the entries that pass another test. -/
theorem tally_filter (p q : α → Bool) (f : α → Nat) (l : List α) :
    tally q f (l.filter p) = tally (fun a => p a && q a) f l := by
  induction l with
  | nil => rfl
  | cons a l ih =>
      by_cases hp : p a = true
      · rw [List.filter_cons_of_pos hp, tally_cons, tally_cons, ih]
        simp [hp]
      · rw [List.filter_cons_of_neg hp, tally_cons, ih]
        simp [hp]

/-- A second test splits a tally. -/
theorem tally_split (p q : α → Bool) (f : α → Nat) (l : List α) :
    tally p f l = tally (fun a => p a && q a) f l + tally (fun a => p a && !q a) f l := by
  induction l with
  | nil => rfl
  | cons a l ih =>
      simp only [tally_cons, ih]
      by_cases hq : q a = true
      · simp [hq]
        omega
      · simp [hq]
        omega

/-- Tallies of each key add up to the tally of all keys. -/
theorem sum_tally {κ : Type} [Fintype κ] [DecidableEq κ] (key : α → κ) (p : α → Prop)
    [DecidablePred p] (f : α → Nat) (l : List α) :
    ∑ k, tally (fun a => key a = k ∧ p a) f l = tally (fun a => p a) f l := by
  induction l with
  | nil => simp
  | cons a l ih =>
      simp only [tally_cons, decide_eq_true_eq, Finset.sum_add_distrib, ih]
      congr 1
      by_cases hp : p a
      · simp [hp]
      · simp [hp]

/-- One of several different keys contributes. -/
theorem sum_map_ite_eq {κ : Type} [DecidableEq κ] {keys : List κ} (hkeys : keys.Nodup) {k : κ}
    (hk : k ∈ keys) (n : Nat) : (keys.map fun k' => if k = k' then n else 0).sum = n := by
  induction keys with
  | nil => cases hk
  | cons k' keys ih =>
      rcases List.nodup_cons.mp hkeys with ⟨hnew, hrest⟩
      rcases List.mem_cons.mp hk with rfl | hk
      · have hzero : (keys.map fun k' => if k = k' then n else 0).sum = 0 := by
          refine List.sum_eq_zero fun m hm => ?_
          rcases List.mem_map.mp hm with ⟨k', hk', rfl⟩
          refine if_neg ?_
          rintro rfl
          exact hnew hk'
        simp [hzero]
      · have hne : k ≠ k' := fun heq => hnew (heq ▸ hk)
        simp [hne, ih hrest hk]

/-- Tallies of each of several different keys add up to the whole sum, when every entry has one
of the keys. -/
theorem sum_map_tally {κ : Type} [DecidableEq κ] {keys : List κ} (hkeys : keys.Nodup)
    {key : α → κ} {l : List α} (h : ∀ a ∈ l, key a ∈ keys) :
    (keys.map fun k => tally (fun a => key a = k) f l).sum = (l.map f).sum := by
  induction l with
  | nil =>
      refine List.sum_eq_zero fun n hn => ?_
      rcases List.mem_map.mp hn with ⟨k, _, rfl⟩
      rfl
  | cons a l ih =>
      simp only [tally_cons, decide_eq_true_eq, List.sum_map_add, List.map_cons, List.sum_cons]
      rw [sum_map_ite_eq hkeys (h a List.mem_cons_self),
        ih fun b hb => h b (List.mem_cons_of_mem _ hb)]

/-- The same for the entries that satisfy a further test. -/
theorem sum_map_tally_and {κ : Type} [DecidableEq κ] {keys : List κ} (hkeys : keys.Nodup)
    {key : α → κ} {p : α → Prop} [DecidablePred p] {l : List α} (h : ∀ a ∈ l, key a ∈ keys) :
    (keys.map fun k => tally (fun a => key a = k ∧ p a) f l).sum = tally (fun a => p a) f l := by
  have hone : ∀ k, tally (fun a => key a = k ∧ p a) f l =
      tally (fun a => key a = k) (fun a => if p a then f a else 0) l := by
    intro k
    unfold tally
    congr 1
    apply List.map_congr_left
    intro a _
    by_cases hkey : key a = k <;> simp [hkey]
  simp only [hone]
  rw [sum_map_tally hkeys h, tally]
  simp only [decide_eq_true_eq]

end Foundations
