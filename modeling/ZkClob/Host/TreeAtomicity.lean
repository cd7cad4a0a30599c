import ZkClob.Host.BuilderIndices

/-!
# Updates of the account tree are atomic

An update replaces accounts before it knows whether the insertions succeed, and it clears the index
before it knows whether all positions fit.  In a tree whose index is exact the later errors cannot
occur, so that an update either takes over all accounts of its list or leaves the tree alone.

Main results:

- Theorem {lit}`AccountTree.Coherent.get_indices`: the index of a coherent tree names the position
  of each account and nothing else.
- Theorem {lit}`AccountTree.apply_atomic`: in every run whose accounts fit the index, the accounts
  are in order, the index is exact, and updates are atomic.
-/

namespace ZkClob

open Foundations

namespace AccountTree

variable {tree : AccountTree} {updated : List Account}

/-- The index of a coherent tree names the position of each account and nothing else. -/
theorem Coherent.get_indices (h : tree.Coherent) (id : AccountId) (index : U32) :
    tree.indices.get id = some index ↔ (tree.state.account index).map Account.id = some id := by
  rw [h.indexed id index, List.getElem?_map, State.account]
  constructor
  · rintro ⟨_, hat⟩
    exact hat
  · intro hat
    rcases Option.map_eq_some_iff.mp hat with ⟨account, haccount, _⟩
    exact ⟨(List.getElem?_eq_some_iff.mp haccount).1, hat⟩

/-- An update after which all accounts fit the index succeeds, or it leaves the tree as it was. -/
theorem Coherent.apply_failed (h : tree.Coherent) (hfailed : (tree.apply updated).1 ≠ .ok ())
    (hbounded : (tree.apply updated).2.state.accounts.length ≤ 2 ^ 32) :
    (tree.apply updated).2 = tree := by
  by_cases hupdated : (updated.map Account.id).Nodup
  · rw [(h.apply_accounts hupdated).2.length_eq] at hbounded
    exact absurd ((h.apply_ok_iff hupdated).1.mpr hbounded) hfailed
  · exact apply_of_not_nodup tree hupdated

/-- In every run whose accounts fit the index, the accounts are in order, the index names their
positions and nothing else, a successful update changes exactly the accounts of its list, and a
failing one changes neither the accounts nor the index. -/
theorem apply_atomic (h : tree.Reachable) (hbounded : tree.state.accounts.length ≤ 2 ^ 32) :
    StateSorted tree.state ∧
      (∀ id index, tree.indices.get id = some index ↔
        (tree.state.account index).map Account.id = some id) ∧
      ∀ updated, (tree.apply updated).2.state.accounts.length ≤ 2 ^ 32 →
        ((tree.apply updated).1 = .ok () →
          (∀ a ∈ updated, (tree.apply updated).2.account a.id = some a) ∧
            ∀ id, id ∉ updated.map Account.id →
              (tree.apply updated).2.account id = tree.account id) ∧
          ((tree.apply updated).1 ≠ .ok () → (tree.apply updated).2 = tree) := by
  have hcoherent := h.coherent hbounded
  refine ⟨hcoherent.sorted, hcoherent.get_indices, ?_⟩
  intro updated hfits
  exact ⟨hcoherent.account_apply, fun hfailed => hcoherent.apply_failed hfailed hfits⟩

/-- The tree of the small exchange is within the bound. -/
theorem apply_atomic_testTree :
    StateSorted testTree.state ∧
      (∀ id index, testTree.indices.get id = some index ↔
        (testTree.state.account index).map Account.id = some id) ∧
      ∀ updated, (testTree.apply updated).2.state.accounts.length ≤ 2 ^ 32 →
        ((testTree.apply updated).1 = .ok () →
          (∀ a ∈ updated, (testTree.apply updated).2.account a.id = some a) ∧
            ∀ id, id ∉ updated.map Account.id →
              (testTree.apply updated).2.account id = testTree.account id) ∧
          ((testTree.apply updated).1 ≠ .ok () → (testTree.apply updated).2 = testTree) :=
  apply_atomic testTree_reachable (by decide +kernel)

end AccountTree

end ZkClob
