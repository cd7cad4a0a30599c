import Mathlib.Algebra.BigOperators.Group.List.Basic
import Mathlib.Algebra.BigOperators.Ring.List
import Mathlib.Algebra.Order.BigOperators.Group.List
import Mathlib.Algebra.Order.Ring.Nat

/-!
# Sums of rounded quotients

An amount that is paid in parts is rounded in every part.  Rounding down part by part never
gives more than rounding down the whole, and it gives away less than one unit for each part.

Main results:

- Theorem {lit}`sum_div_le`: quotients rounded one by one are at most the rounded quotient of
  the sum.
- Theorem {lit}`sum_lt_mul_sum_div`: each rounded quotient loses less than one.
- Theorems {lit}`sum_mul_le` and {lit}`mul_le_sum_mul`: parts at different rates, against one
  rate that bounds them.
-/

namespace Foundations

variable {α : Type}

/-- Quotients rounded one by one are at most the rounded quotient of the sum. -/
theorem sum_div_le (f : α → Nat) (n : Nat) (l : List α) :
    (l.map fun a => f a / n).sum ≤ (l.map f).sum / n := by
  induction l with
  | nil => simp
  | cons a l ih =>
      simp only [List.map_cons, List.sum_cons]
      calc f a / n + (l.map fun a => f a / n).sum
          ≤ f a / n + (l.map f).sum / n := Nat.add_le_add_left ih _
        _ ≤ (f a + (l.map f).sum) / n := Nat.div_add_div_le_add_div

/-- A sum is its rounded quotients and the remainders. -/
theorem sum_eq_sum_div_add_sum_mod (f : α → Nat) (n : Nat) (l : List α) :
    (l.map f).sum = n * (l.map fun a => f a / n).sum + (l.map fun a => f a % n).sum := by
  induction l with
  | nil => simp
  | cons a l ih =>
      simp only [List.map_cons, List.sum_cons, Nat.mul_add]
      have := Nat.div_add_mod (f a) n
      omega

/-- Remainders of some parts add up to less than one divisor for each. -/
theorem sum_mod_lt (f : α → Nat) {n : Nat} (hn : 0 < n) {l : List α} (hl : l ≠ []) :
    (l.map fun a => f a % n).sum < n * l.length := by
  induction l with
  | nil => contradiction
  | cons a l ih =>
      have hhead := Nat.mod_lt (f a) hn
      simp only [List.map_cons, List.sum_cons, List.length_cons, Nat.mul_add, Nat.mul_one]
      rcases eq_or_ne l [] with rfl | hne
      · simpa using hhead
      · have := ih hne
        omega

/-- Each rounded quotient loses less than one. -/
theorem sum_lt_mul_sum_div (f : α → Nat) {n : Nat} (hn : 0 < n) {l : List α} (hl : l ≠ []) :
    (l.map f).sum < n * ((l.map fun a => f a / n).sum + l.length) := by
  have hsum := sum_eq_sum_div_add_sum_mod f n l
  have hmod := sum_mod_lt f hn hl
  rw [Nat.mul_add]
  omega

/-- Parts at rates that one rate bounds from above. -/
theorem sum_mul_le {f g : α → Nat} {k : Nat} {l : List α} (h : ∀ a ∈ l, g a ≤ k) :
    (l.map fun a => f a * g a).sum ≤ (l.map f).sum * k := by
  rw [← List.sum_map_mul_right l f k]
  exact List.sum_le_sum fun a ha => Nat.mul_le_mul_left _ (h a ha)

/-- Parts at rates that one rate bounds from below. -/
theorem mul_le_sum_mul {f g : α → Nat} {k : Nat} {l : List α} (h : ∀ a ∈ l, k ≤ g a) :
    (l.map f).sum * k ≤ (l.map fun a => f a * g a).sum := by
  rw [← List.sum_map_mul_right l f k]
  exact List.sum_le_sum fun a ha => Nat.mul_le_mul_left _ (h a ha)

end Foundations
