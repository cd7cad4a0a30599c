import Mathlib.Data.List.Basic

/-!
# Journals

A machine writes down what it does, and a reader follows the journal with a guarded step
function of its own: an entry is refused when it does not fit the reader's state.  When the
machine only writes entries that the reader accepts, the journal alone tells the reader what
the machine has become.

Main results:

- Theorem {lit}`Follows.snoc`: one more entry.
- Theorem {lit}`Follows.invariant`: what every accepted entry preserves holds after the journal.
-/

namespace Foundations

variable {σ ε : Type} {record : σ → ε → Option σ} {start state state' : σ} {entries : List ε}

/-- A reader that accepts every entry of a journal and ends in a state. -/
def Follows (record : σ → ε → Option σ) (start : σ) (entries : List ε) (state : σ) : Prop :=
  entries.foldlM record start = some state

theorem Follows.nil (record : σ → ε → Option σ) (start : σ) : Follows record start [] start := rfl

/-- One more entry that the reader accepts. -/
theorem Follows.snoc {entry : ε} (h : Follows record start entries state)
    (hentry : record state entry = some state') :
    Follows record start (entries ++ [entry]) state' := by
  rw [Follows] at h
  simp [Follows, h, hentry]

/-- What every accepted entry preserves holds after the journal. -/
theorem Follows.invariant {P : σ → Prop} (h : Follows record start entries state) (hstart : P start)
    (hrecord : ∀ s entry s', P s → record s entry = some s' → P s') : P state := by
  induction entries generalizing start with
  | nil =>
      cases h
      exact hstart
  | cons entry entries ih =>
      rw [Follows, List.foldlM_cons, Option.bind_eq_bind, Option.bind_eq_some_iff] at h
      rcases h with ⟨next, hnext, hrest⟩
      exact ih hrest (hrecord start entry next hstart hnext)

end Foundations
