import Mathlib.Data.List.Basic
import Mathlib.Order.Lattice

/-!
# The step of a selection sort

One round of a selection sort scans a sequence for its greatest entry and exchanges it
with the first entry.  The entries behind the front stay in their places.

Main results:

- Theorem {lit}`bringMax_perm`: a round keeps the entries.
- Theorem {lit}`le_bringMax`: the entry in front is the greatest.
-/

namespace Foundations

variable {α κ : Type} [LinearOrder κ]

/-- Scan for a greater entry than the best one so far; the first of the greatest wins. -/
def scanMax (key : α → κ) (best : α) (bestIndex index : Nat) : List α → α × Nat
  | [] => (best, bestIndex)
  | a :: rest =>
      if key a > key best then scanMax key a index (index + 1) rest
      else scanMax key best bestIndex (index + 1) rest

/-- One round: the greatest entry, and the others after it has been exchanged with the first
one. -/
def bringMax (key : α → κ) (first : α) (rest : List α) : α × List α :=
  match scanMax key first 0 1 rest with
  | (_, 0) => (first, rest)
  | (best, index + 1) => (best, rest.set index first)

variable (key : α → κ)

/-- The scan ends with the best entry so far, or with one that it has passed. -/
theorem scanMax_index (best : α) (bestIndex index : Nat) (l : List α) :
    scanMax key best bestIndex index l = (best, bestIndex) ∨
      ∃ i, l[i]? = some (scanMax key best bestIndex index l).1 ∧
        (scanMax key best bestIndex index l).2 = index + i := by
  induction l generalizing best bestIndex index with
  | nil => exact Or.inl rfl
  | cons a l ih =>
      simp only [scanMax]
      split
      · refine Or.inr ?_
        rcases ih a index (index + 1) with heq | ⟨i, hi, hindex⟩
        · exact ⟨0, by rw [heq]; rfl, by rw [heq]; rfl⟩
        · exact ⟨i + 1, hi, by rw [hindex]; omega⟩
      · rcases ih best bestIndex (index + 1) with heq | ⟨i, hi, hindex⟩
        · exact Or.inl heq
        · exact Or.inr ⟨i + 1, hi, by rw [hindex]; omega⟩

/-- The scan ends with a greatest entry. -/
theorem le_scanMax (best : α) (bestIndex index : Nat) (l : List α) :
    key best ≤ key (scanMax key best bestIndex index l).1 ∧
      ∀ a ∈ l, key a ≤ key (scanMax key best bestIndex index l).1 := by
  induction l generalizing best bestIndex index with
  | nil => exact ⟨le_rfl, by simp⟩
  | cons a l ih =>
      simp only [scanMax]
      split
      · rename_i hgt
        rcases ih a index (index + 1) with ⟨ha, hl⟩
        exact ⟨hgt.le.trans ha, by simpa using ⟨ha, hl⟩⟩
      · rename_i hle
        rcases ih best bestIndex (index + 1) with ⟨hbest, hl⟩
        exact ⟨hbest, by simpa using ⟨(le_of_not_gt hle).trans hbest, hl⟩⟩

/-- Exchanging an entry with one from outside. -/
theorem cons_set_perm {l : List α} {i : Nat} {a : α} (h : l[i]? = some a) (b : α) :
    (a :: l.set i b).Perm (b :: l) := by
  rcases List.getElem?_eq_some_iff.mp h with ⟨hi, rfl⟩
  have hsplit : l = l.take i ++ l[i] :: l.drop (i + 1) := by
    rw [← List.drop_eq_getElem_cons hi, List.take_append_drop]
  rw [List.set_eq_take_append_cons_drop, if_pos hi]
  have hperm : (l[i] :: (l.take i ++ b :: l.drop (i + 1))).Perm
      (b :: (l.take i ++ l[i] :: l.drop (i + 1))) :=
    (List.perm_middle.cons _).trans ((List.Perm.swap _ _ _).trans (List.perm_middle.symm.cons _))
  rwa [← hsplit] at hperm

/-- A round keeps the entries. -/
theorem bringMax_perm (first : α) (rest : List α) :
    ((bringMax key first rest).1 :: (bringMax key first rest).2).Perm (first :: rest) := by
  unfold bringMax
  split
  · exact List.Perm.refl _
  · rename_i best index heq
    rcases scanMax_index key first 0 1 rest with h | ⟨i, hi, hindex⟩
    · rw [heq] at h
      cases h
    · rw [heq] at hi hindex
      obtain rfl : index = i := by
        simp only at hindex
        omega
      exact cons_set_perm hi first

/-- The entry in front is the greatest. -/
theorem le_bringMax (first : α) (rest : List α) :
    ∀ a ∈ first :: rest, key a ≤ key (bringMax key first rest).1 := by
  have hmax := le_scanMax key first 0 1 rest
  intro a ha
  have hle : key a ≤ key (scanMax key first 0 1 rest).1 := by
    rcases List.mem_cons.mp ha with rfl | ha
    · exact hmax.1
    · exact hmax.2 a ha
  unfold bringMax
  split
  · rename_i best heq
    rcases scanMax_index key first 0 1 rest with h | ⟨i, _, hindex⟩
    · rw [h] at hle
      exact hle
    · rw [heq] at hindex
      simp only at hindex
      omega
  · rename_i best index heq
    rw [heq] at hle
    exact hle

@[simp]
theorem length_bringMax (first : α) (rest : List α) :
    (bringMax key first rest).2.length = rest.length := by
  simpa using (bringMax_perm key first rest).length_eq

end Foundations
