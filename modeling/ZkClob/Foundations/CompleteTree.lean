import Mathlib.Tactic.Ring
import ZkClob.Foundations.Outcome
import ZkClob.Foundations.SortedSearch

/-!
# Complete binary trees of hashes

A complete tree of height `h` has `2 ^ h` numbered leaves, and every inner node
joins the hashes of its two children.  A multiproof for some of the leaves
consists of the roots of the maximal subtrees that contain none of them, from
left to right; a verifier walks down with the leaves it was given, takes the next
root wherever it has no leaf, and joins the rest.  How the roots are stored is
left to a function that reads the next one.

Main results:

- Theorem {lit}`root_congr`: a root depends on the leaves below it.
- Theorem {lit}`root_pair`: joining neighbours first gives the same tree.
- Theorem {lit}`rebuild_complete`: from the roots of a tree the verifier computes
  the root of the tree with its own leaves in their places.
- Theorem {lit}`rebuild_sound`: a walk that ends at the root of a tree was given
  leaves of the tree, wherever the other roots come from.
- Theorem {lit}`rebuild_supplies`: it also read the roots of the tree.
- Theorem {lit}`rebuild_update`: the same roots then serve for other leaves in the
  places of the given ones.
- Theorem {lit}`failsWith_rebuild`: how a walk can fail.
-/

namespace Foundations

namespace CompleteTree

variable {H σ ε : Type}

/-! ## Roots -/

section

variable (node : H → H → H)

/-- The root of the subtree of height `h` whose first leaf has the number `s`. -/
def root (leaf : Nat → H) : Nat → Nat → H
  | 0, s => leaf s
  | h + 1, s => node (root leaf h s) (root leaf h (s + 2 ^ h))

/-- The root of a tree of height `h` with only one kind of leaf. -/
def uniform (leaf : H) : Nat → H
  | 0 => leaf
  | h + 1 => node (uniform leaf h) (uniform leaf h)

variable {node} {f g : Nat → H} {h s : Nat}

/-- A root depends on the leaves below it. -/
theorem root_congr (hfg : ∀ i, s ≤ i → i < s + 2 ^ h → f i = g i) :
    root node f h s = root node g h s := by
  induction h generalizing s with
  | zero => exact hfg s le_rfl (by simp)
  | succ h ih =>
      have hpow : 2 ^ (h + 1) = 2 ^ h + 2 ^ h := by ring
      have hleft := ih (s := s) fun i hi hlt => hfg i hi (by omega)
      have hright := ih (s := s + 2 ^ h) fun i hi hlt => hfg i (by omega) (by omega)
      rw [root, root, hleft, hright]

/-- A tree whose leaves are all alike. -/
theorem root_uniform {e : H} (hf : ∀ i, s ≤ i → i < s + 2 ^ h → f i = e) :
    root node f h s = uniform node e h := by
  rw [root_congr (g := fun _ => e) hf]
  clear hf
  induction h generalizing s with
  | zero => rfl
  | succ h ih => rw [root, uniform, ih, ih]

/-- Joining neighbouring leaves first gives the same tree. -/
theorem root_pair :
    root node (fun i => node (f (2 * i)) (f (2 * i + 1))) h s = root node f (h + 1) (2 * s) := by
  induction h generalizing s with
  | zero => rfl
  | succ h ih =>
      have hmid : 2 * (s + 2 ^ h) = 2 * s + 2 ^ (h + 1) := by ring
      rw [root, ih, ih, hmid]
      rfl

end

/-! ## Multiproofs -/

section

variable (node : H → H → H)

/-- The roots of the maximal subtrees without a selected leaf, with their heights, from left
to right. -/
def sides (leaf : Nat → H) : Nat → Nat → List Nat → List (Nat × H)
  | h, s, [] => [(h, root node leaf h s)]
  | 0, _, _ :: _ => []
  | h + 1, s, i :: selected =>
      sides leaf h s ((i :: selected).filter fun i => i < s + 2 ^ h) ++
        sides leaf h (s + 2 ^ h) ((i :: selected).filter fun i => s + 2 ^ h ≤ i)

/-- The root above numbered leaves; `next` reads the root of a missing subtree of some height. -/
def rebuild (next : Nat → σ → Outcome ε (H × σ)) (fault : ε) :
    Nat → Nat → List (Nat × H) → σ → Outcome ε (H × σ)
  | h, _, [], proof => next h proof
  | 0, s, x :: leaves, proof =>
      if leaves = [] ∧ x.1 = s then .ok (x.2, proof) else .error (.error fault)
  | h + 1, s, x :: leaves, proof => do
      let left ← rebuild next fault h s ((x :: leaves).filter fun x => x.1 < s + 2 ^ h) proof
      let right ← rebuild next fault h (s + 2 ^ h)
        ((x :: leaves).filter fun x => s + 2 ^ h ≤ x.1) left.2
      .ok (node left.1 right.1, right.2)

end

/-- Reading root after root yields the given ones. -/
def Supplies (next : Nat → σ → Outcome ε (H × σ)) : List (Nat × H) → σ → σ → Prop
  | [], proof, rest => proof = rest
  | x :: roots, proof, rest =>
      ∃ mid, next x.1 proof = .ok (x.2, mid) ∧ Supplies next roots mid rest

/-- A tree with some of its leaves replaced. -/
def override (leaf : Nat → H) (leaves : List (Nat × H)) (i : Nat) : H :=
  ((leaves.find? fun x => x.1 = i).map Prod.snd).getD (leaf i)

/-- The numbers of the leaves are those of a subtree. -/
def Within (h s : Nat) (leaves : List (Nat × H)) : Prop :=
  ∀ x ∈ leaves, s ≤ x.1 ∧ x.1 < s + 2 ^ h

variable {node : H → H → H} {next : Nat → σ → Outcome ε (H × σ)} {fault : ε} {f : Nat → H}
  {h s : Nat} {leaves : List (Nat × H)} {proof rest : σ}

theorem supplies_append {roots roots' : List (Nat × H)} :
    Supplies next (roots ++ roots') proof rest ↔
      ∃ mid, Supplies next roots proof mid ∧ Supplies next roots' mid rest := by
  induction roots generalizing proof with
  | nil => simp [Supplies]
  | cons x roots ih =>
      simp only [List.cons_append, Supplies, ih]
      constructor
      · rintro ⟨mid, hnext, mid', hroots, hroots'⟩
        exact ⟨mid', ⟨mid, hnext, hroots⟩, hroots'⟩
      · rintro ⟨mid', ⟨mid, hnext, hroots⟩, hroots'⟩
        exact ⟨mid, hnext, mid', hroots, hroots'⟩

namespace Within

/-- The leaves in the left half of a subtree. -/
theorem left (hin : Within (h + 1) s leaves) :
    Within h s (leaves.filter fun x => x.1 < s + 2 ^ h) := by
  intro x hx
  obtain ⟨hmem, hlt⟩ := List.mem_filter.mp hx
  exact ⟨(hin x hmem).1, of_decide_eq_true hlt⟩

/-- The leaves in its right half. -/
theorem right (hin : Within (h + 1) s leaves) :
    Within h (s + 2 ^ h) (leaves.filter fun x => s + 2 ^ h ≤ x.1) := by
  intro x hx
  obtain ⟨hmem, hle⟩ := List.mem_filter.mp hx
  have hpow : 2 ^ (h + 1) = 2 ^ h + 2 ^ h := by ring
  have hlt := (hin x hmem).2
  exact ⟨of_decide_eq_true hle, by omega⟩

/-- A single leaf is all that there is of distinct leaves of height zero. -/
theorem eq_singleton {x : Nat × H} (hin : Within 0 s (x :: leaves))
    (hnodup : ((x :: leaves).map Prod.fst).Nodup) : leaves = [] ∧ x.1 = s := by
  have hx : x.1 = s := by
    have := hin x (by simp)
    omega
  refine ⟨List.eq_nil_iff_forall_not_mem.mpr fun y hy => ?_, hx⟩
  have hlt := hin y (List.mem_cons_of_mem _ hy)
  have hne : x.1 ≠ y.1 := fun heq =>
    (List.nodup_cons.mp hnodup).1 (heq ▸ List.mem_map_of_mem hy)
  omega

end Within

/-- Replacing leaves elsewhere changes nothing. -/
theorem override_filter {p : Nat → Bool} {i : Nat} (hi : p i = true) :
    override f (leaves.filter fun x => p x.1) i = override f leaves i := by
  rw [override, override, List.find?_filter]
  congr 3
  funext x
  by_cases hx : x.1 = i
  · simp [hx, hi]
  · simp [hx]

/-- A replaced leaf. -/
theorem override_of_mem {x : Nat × H} (hnodup : (leaves.map Prod.fst).Nodup) (hx : x ∈ leaves) :
    override f leaves x.1 = x.2 := by
  rw [override, find?_key_eq hnodup hx]
  rfl

/-- A leaf that is not replaced. -/
theorem override_of_not_mem {i : Nat} (hi : i ∉ leaves.map Prod.fst) :
    override f leaves i = f i := by
  have hfind : leaves.find? (fun x => x.1 = i) = none := by
    rw [List.find?_eq_none]
    intro x hx heq
    exact hi (List.mem_map.mpr ⟨x, hx, of_decide_eq_true heq⟩)
  rw [override, hfind]
  rfl

/-- The roots beside some leaves depend on the leaves of the tree alone. -/
theorem sides_congr {g : Nat → H} {numbers : List Nat}
    (hfg : ∀ i, s ≤ i → i < s + 2 ^ h → f i = g i) :
    sides node f h s numbers = sides node g h s numbers := by
  induction h generalizing s numbers with
  | zero =>
      cases numbers with
      | nil => rw [sides, sides, root_congr hfg]
      | cons i numbers => rfl
  | succ h ih =>
      cases numbers with
      | nil => rw [sides, sides, root_congr hfg]
      | cons i numbers =>
          have hpow : 2 ^ (h + 1) = 2 ^ h + 2 ^ h := by ring
          rw [sides, sides, ih fun i hi hlt => hfg i hi (by omega),
            ih fun i hi hlt => hfg i (by omega) (by omega)]

/-- No subtree is higher than the tree. -/
theorem height_le_of_mem_sides {numbers : List Nat} {x : Nat × H}
    (hx : x ∈ sides node f h s numbers) : x.1 ≤ h := by
  induction h generalizing s numbers with
  | zero =>
      cases numbers with
      | nil =>
          cases List.mem_singleton.mp hx
          exact le_rfl
      | cons i numbers => cases hx
  | succ h ih =>
      cases numbers with
      | nil =>
          cases List.mem_singleton.mp hx
          exact le_rfl
      | cons i numbers =>
          rw [sides] at hx
          rcases List.mem_append.mp hx with hx | hx
          · exact (ih hx).trans (Nat.le_succ h)
          · exact (ih hx).trans (Nat.le_succ h)

/-- Completeness: from the roots of a tree the verifier computes the root of the tree in which
its own leaves are in their places. -/
theorem rebuild_complete (hin : Within h s leaves) (hnodup : (leaves.map Prod.fst).Nodup)
    (hsupplies : Supplies next (sides node f h s (leaves.map Prod.fst)) proof rest) :
    rebuild node next fault h s leaves proof =
      .ok (root node (override f leaves) h s, rest) := by
  induction h generalizing s leaves proof rest with
  | zero =>
      cases leaves with
      | nil =>
          obtain ⟨mid, hnext, rfl⟩ := hsupplies
          exact hnext
      | cons x leaves =>
          obtain ⟨rfl, rfl⟩ := hin.eq_singleton hnodup
          cases hsupplies
          simp [rebuild, root, override]
  | succ h ih =>
      cases leaves with
      | nil =>
          obtain ⟨mid, hnext, rfl⟩ := hsupplies
          exact hnext
      | cons x leaves =>
          rw [List.map_cons, sides, ← List.map_cons, List.filter_map, List.filter_map,
            supplies_append] at hsupplies
          obtain ⟨mid, hsupplied, hsupplied'⟩ := hsupplies
          have hleft := ih hin.left ((List.filter_sublist.map _).nodup hnodup) hsupplied
          have hright := ih hin.right ((List.filter_sublist.map _).nodup hnodup) hsupplied'
          rw [rebuild, hleft, Outcome.ok_bind, hright, Outcome.ok_bind, root,
            root_congr fun i _ hi =>
              override_filter (p := fun i => i < s + 2 ^ h) (by simpa using hi),
            root_congr fun i hi _ =>
              override_filter (p := fun i => s + 2 ^ h ≤ i) (by simpa using hi)]

/-- Soundness: when joining is injective, a walk that ends at the root of a tree was given
leaves of that tree. -/
theorem rebuild_sound (hnode : Function.Injective2 node)
    (hroot : rebuild node next fault h s leaves proof = .ok (root node f h s, rest)) :
    ∀ x ∈ leaves, x.2 = f x.1 := by
  induction h generalizing s leaves proof rest with
  | zero =>
      cases leaves with
      | nil => simp
      | cons x leaves =>
          rw [rebuild] at hroot
          split at hroot
          · rename_i hx
            cases hx.1
            simp only [root, Except.ok.injEq, Prod.mk.injEq] at hroot
            simp [hroot.1, hx.2]
          · cases hroot
  | succ h ih =>
      cases leaves with
      | nil => simp
      | cons x leaves =>
          rw [rebuild] at hroot
          simp only [Outcome.bind_eq_ok, Except.ok.injEq, Prod.mk.injEq, root] at hroot
          obtain ⟨⟨left, mid⟩, hleft, ⟨right, rest'⟩, hright, hjoined, _⟩ := hroot
          obtain ⟨rfl, rfl⟩ := hnode hjoined
          intro y hy
          by_cases hlt : y.1 < s + 2 ^ h
          · exact ih hleft y (List.mem_filter.mpr ⟨hy, by simpa using hlt⟩)
          · exact ih hright y (List.mem_filter.mpr ⟨hy, by simpa using hlt⟩)

/-- A walk that ends at the root of a tree read the roots of the tree's missing subtrees. -/
theorem rebuild_supplies (hnode : Function.Injective2 node)
    (hroot : rebuild node next fault h s leaves proof = .ok (root node f h s, rest)) :
    Supplies next (sides node f h s (leaves.map Prod.fst)) proof rest := by
  induction h generalizing s leaves proof rest with
  | zero =>
      cases leaves with
      | nil => exact ⟨rest, hroot, rfl⟩
      | cons x leaves =>
          rw [rebuild] at hroot
          split at hroot
          · simp only [Except.ok.injEq, Prod.mk.injEq] at hroot
            exact hroot.2
          · cases hroot
  | succ h ih =>
      cases leaves with
      | nil => exact ⟨rest, hroot, rfl⟩
      | cons x leaves =>
          rw [rebuild] at hroot
          simp only [Outcome.bind_eq_ok, Except.ok.injEq, Prod.mk.injEq, root] at hroot
          obtain ⟨⟨left, mid⟩, hleft, ⟨right, rest'⟩, hright, hjoined, rfl⟩ := hroot
          obtain ⟨rfl, rfl⟩ := hnode hjoined
          rw [List.map_cons, sides, ← List.map_cons, List.filter_map, List.filter_map,
            supplies_append]
          exact ⟨mid, ih hleft, ih hright⟩

/-- A proof that takes some leaves to the root of a tree takes any leaves in their places to the
root of the tree in which they are replaced. -/
theorem rebuild_update {leaves' : List (Nat × H)} (hnode : Function.Injective2 node)
    (hroot : rebuild node next fault h s leaves proof = .ok (root node f h s, rest))
    (hnumbers : leaves'.map Prod.fst = leaves.map Prod.fst) (hin : Within h s leaves')
    (hnodup : (leaves'.map Prod.fst).Nodup) :
    rebuild node next fault h s leaves' proof =
      .ok (root node (override f leaves') h s, rest) := by
  have hsupplies := rebuild_supplies hnode hroot
  rw [← hnumbers] at hsupplies
  exact rebuild_complete hin hnodup hsupplies

/-- What reading keeps is kept by a walk. -/
theorem rebuild_invariant {P : σ → Prop} {x : H}
    (hkeep : ∀ k p y q, P p → next k p = .ok (y, q) → P q) (hproof : P proof)
    (hwalk : rebuild node next fault h s leaves proof = .ok (x, rest)) : P rest := by
  induction h generalizing s leaves proof rest x with
  | zero =>
      cases leaves with
      | nil => exact hkeep _ _ _ _ hproof hwalk
      | cons y leaves =>
          rw [rebuild] at hwalk
          split at hwalk
          · cases hwalk
            exact hproof
          · cases hwalk
  | succ h ih =>
      cases leaves with
      | nil => exact hkeep _ _ _ _ hproof hwalk
      | cons y leaves =>
          rw [rebuild] at hwalk
          simp only [Outcome.bind_eq_ok, Except.ok.injEq, Prod.mk.injEq] at hwalk
          obtain ⟨⟨left, mid⟩, hleft, ⟨right, rest'⟩, hright, -, rfl⟩ := hwalk
          exact ih (ih hproof hleft) hright

/-- A walk fails as reading does, or because leaves are not where they should be. -/
theorem failsWith_rebuild {P : σ → Prop} {allowed : Fault ε → Prop}
    (hfault : allowed (.error fault)) (hnext : ∀ k ≤ h, ∀ p, P p →
      Outcome.FailsWith allowed (next k p))
    (hkeep : ∀ k p y q, P p → next k p = .ok (y, q) → P q) (hproof : P proof) :
    Outcome.FailsWith allowed (rebuild node next fault h s leaves proof) := by
  induction h generalizing s leaves proof with
  | zero =>
      cases leaves with
      | nil => exact hnext 0 le_rfl proof hproof
      | cons y leaves =>
          rw [rebuild]
          split
          · exact Outcome.failsWith_ok _
          · intro fault' h
            cases h
            exact hfault
  | succ h ih =>
      cases leaves with
      | nil => exact hnext (h + 1) le_rfl proof hproof
      | cons y leaves =>
          have hbelow : ∀ k ≤ h, ∀ p, P p → Outcome.FailsWith allowed (next k p) :=
            fun k hk => hnext k (hk.trans (Nat.le_succ h))
          rw [rebuild]
          apply (ih hbelow hproof).bind
          intro left hleft
          apply (ih hbelow (rebuild_invariant hkeep hproof hleft)).bind
          intro right _
          exact Outcome.failsWith_ok _

end CompleteTree

end Foundations
