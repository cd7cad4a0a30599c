import Mathlib.Data.List.Forall2
import ZkClob.Foundations.Outcome

/-!
# Simulations between computations

One computation simulates another when it succeeds wherever the other does, with a related
result.  The rules follow the structure of the two computations, so that a relation between
their states is carried through sequences and loops step by step.

Main results:

- Theorem {lit}`Simulates.bind`: sequences simulate each other when their parts do.
- Theorem {lit}`Simulates.foldlM`: loops over related elements do when their steps do.
- Theorem {lit}`forall₂_of_map_eq`: lists with the same keys have related elements.
-/

namespace Foundations

namespace Outcome

variable {ε ε' α α' β β' σ σ' : Type} {R : α → α' → Prop} {x : Outcome ε α} {y : Outcome ε' α'}

/-- Where the first computation succeeds, the second one does, with a related result. -/
def Simulates (R : α → α' → Prop) (x : Outcome ε α) (y : Outcome ε' α') : Prop :=
  ∀ a, x = .ok a → ∃ a', y = .ok a' ∧ R a a'

theorem simulates_ok {a : α} {a' : α'} (h : R a a') :
    Simulates R (.ok a : Outcome ε α) (.ok a' : Outcome ε' α') := by
  intro b hb
  cases hb
  exact ⟨a', rfl, h⟩

/-- Every computation simulates itself. -/
theorem simulates_refl (x : Outcome ε α) : Simulates (fun a a' => a = a') x x :=
  fun a h => ⟨a, h, rfl⟩

/-- Sequences simulate each other when their first parts do and, from related results on, their
second parts. -/
theorem Simulates.bind {S : β → β' → Prop} {f : α → Outcome ε β} {g : α' → Outcome ε' β'}
    (h : Simulates R x y) (hfg : ∀ a a', R a a' → Simulates S (f a) (g a')) :
    Simulates S (x >>= f) (y >>= g) := by
  intro b hb
  obtain ⟨a, ha, hfa⟩ := bind_eq_ok.mp hb
  obtain ⟨a', ha', hrel⟩ := h a ha
  obtain ⟨b', hga, hrel'⟩ := hfg a a' hrel b hfa
  exact ⟨b', bind_eq_ok.mpr ⟨a', ha', hga⟩, hrel'⟩

/-- Loops over related elements simulate each other when their steps keep the states related. -/
theorem Simulates.foldlM {R : σ → σ' → Prop} {P : α → α' → Prop} {f : σ → α → Outcome ε σ}
    {g : σ' → α' → Outcome ε' σ'} {l : List α} {l' : List α'} (hl : List.Forall₂ P l l')
    (hstep : ∀ s s' a a', R s s' → P a a' → Simulates R (f s a) (g s' a')) {s : σ} {s' : σ'}
    (hs : R s s') : Simulates R (l.foldlM f s) (l'.foldlM g s') := by
  induction hl generalizing s s' with
  | nil => exact simulates_ok hs
  | cons hhead _ ih =>
      rw [List.foldlM_cons, List.foldlM_cons]
      exact (hstep s s' _ _ hs hhead).bind fun t t' ht => ih ht

end Outcome

/-- Lists with the same keys pair up, and what holds of all elements holds in every pair. -/
theorem forall₂_of_map_eq {α γ : Type} {key : α → γ} {P Q : α → Prop} {l l' : List α}
    (h : l.map key = l'.map key) (hl : ∀ a ∈ l, P a) (hl' : ∀ a ∈ l', Q a) :
    List.Forall₂ (fun a a' => key a = key a' ∧ P a ∧ Q a') l l' := by
  induction l generalizing l' with
  | nil =>
      rw [List.map_eq_nil_iff.mp h.symm]
      exact List.Forall₂.nil
  | cons a l ih =>
      cases l' with
      | nil => cases h
      | cons a' l' =>
          obtain ⟨hhead, hrest⟩ := List.cons.inj h
          exact List.Forall₂.cons ⟨hhead, hl a List.mem_cons_self, hl' a' List.mem_cons_self⟩
            (ih hrest (fun b hb => hl b (List.mem_cons_of_mem _ hb))
              fun b hb => hl' b (List.mem_cons_of_mem _ hb))

end Foundations
