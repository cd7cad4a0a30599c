import Mathlib.Data.List.Forall2

/-!
# Histories of runs

A machine takes one action after the other, and each action is seen to do something.  The
history of a run is the list of all that was seen.  An invariant may speak about the state
and about the history that led to it.

Main results:

- Theorem {lit}`run_invariant`: what a step preserves, a run preserves.
- Theorem {lit}`history_invariant`: the same for a state with its history.
-/

namespace Foundations

variable {σ α β : Type} {step : σ → α → σ} {observe : σ → α → List β}

/-- All that is seen of the actions of a run. -/
def history (step : σ → α → σ) (observe : σ → α → List β) (s : σ) : List α → List β
  | [] => []
  | a :: actions => observe s a ++ history step observe (step s a) actions

/-- What holds of a state with its history and is preserved by every action, is preserved by
every run. -/
theorem history_invariant_from {P : σ → List β → Prop}
    (hstep : ∀ s seen a, P s seen → P (step s a) (seen ++ observe s a)) {s : σ} {seen : List β}
    (hs : P s seen) (actions : List α) :
    P (actions.foldl step s) (seen ++ history step observe s actions) := by
  induction actions generalizing s seen with
  | nil =>
      rw [history, List.append_nil]
      exact hs
  | cons a actions ih =>
      rw [List.foldl_cons, history, ← List.append_assoc]
      exact ih (hstep s seen a hs)

/-- The same from the start of the history. -/
theorem history_invariant (step : σ → α → σ) (observe : σ → α → List β) {P : σ → List β → Prop}
    (hstep : ∀ s seen a, P s seen → P (step s a) (seen ++ observe s a)) {s : σ} (hs : P s [])
    (actions : List α) : P (actions.foldl step s) (history step observe s actions) :=
  history_invariant_from hstep hs actions

/-- What holds of a state and is preserved by every action, holds after every run. -/
theorem run_invariant {P : σ → Prop} (hstep : ∀ s a, P s → P (step s a)) {s : σ} (hs : P s)
    (actions : List α) : P (actions.foldl step s) := by
  induction actions generalizing s with
  | nil => exact hs
  | cons a actions ih => exact ih (hstep s a hs)

/-- What explains a history in two parts explains each part. -/
theorem exists_of_forall₂_append {R : α → β → Prop} {l₁ l₂ : List α} {m : List β}
    (h : List.Forall₂ R (l₁ ++ l₂) m) :
    ∃ m₁ m₂, m = m₁ ++ m₂ ∧ List.Forall₂ R l₁ m₁ ∧ List.Forall₂ R l₂ m₂ := by
  induction l₁ generalizing m with
  | nil => exact ⟨[], m, rfl, .nil, h⟩
  | cons a l₁ ih =>
      cases h with
      | @cons _ b _ m hab hrest =>
          rcases ih hrest with ⟨m₁, m₂, rfl, hm₁, hm₂⟩
          exact ⟨b :: m₁, m₂, rfl, .cons hab hm₁, hm₂⟩

/-- What every entry of a second sequence is explained by. -/
theorem exists_of_mem_forall₂ {R : α → β → Prop} {l : List α} {m : List β}
    (h : List.Forall₂ R l m) {b : β} (hb : b ∈ m) : ∃ a ∈ l, R a b := by
  induction h with
  | nil => cases hb
  | cons hab _ ih =>
      rcases List.mem_cons.mp hb with rfl | hb
      · exact ⟨_, List.mem_cons_self, hab⟩
      · rcases ih hb with ⟨a, ha, hr⟩
        exact ⟨a, List.mem_cons_of_mem _ ha, hr⟩

/-- Related sequences have related entries in the same places. -/
theorem exists_getElem?_of_forall₂ {R : α → β → Prop} {l : List α} {m : List β}
    (h : List.Forall₂ R l m) {n : Nat} {a : α} (ha : l[n]? = some a) :
    ∃ b, m[n]? = some b ∧ R a b := by
  induction h generalizing n with
  | nil => cases ha
  | cons hab _ ih =>
      cases n with
      | zero =>
          cases ha
          exact ⟨_, rfl, hab⟩
      | succ n => exact ih ha

end Foundations
