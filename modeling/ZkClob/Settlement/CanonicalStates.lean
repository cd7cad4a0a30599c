import ZkClob.Settlement.NonceChain
import ZkClob.Settlement.ForcedQueue

/-!
# Canonical account sets stay canonical

A batch is only accepted when the accounts of its witness are in strict id order, each with its
balances in strict asset order and no zero balance.  The accounts of the output are in that form
again, so that no accepted batch stands in the way of a later one.

Main results:

- Definition {lit}`Reaches`: the account sets that chains of accepted batches lead to.
- Theorem {lit}`Reaches.canonical`: from a canonical set only canonical sets are reached.
- Theorem {lit}`canonical_preserved`: the accounts of an output, every set reached from a canonical
  one, and every set that a final root commits, are canonical and pass the checks of the accounts.
-/

namespace ZkClob

open Foundations Patricia

/-- Accounts that are left out do not disturb the others. -/
theorem AccountsCanonical.sublist {accounts accounts' : List Account}
    (h : AccountsCanonical accounts) (hsub : accounts'.Sublist accounts) :
    AccountsCanonical accounts' :=
  ⟨h.sorted.sublist hsub, fun account haccount => h.canonical account (hsub.subset haccount)⟩

variable {B256 : Type} [Sha256 B256] [Secp256k1 B256]

section

variable {input : BatchInput B256} {output : BatchOutput B256} {A : List Account}

namespace Settlement

/-- The accounts after a batch are distinct: those of the output are listed in the proof. -/
theorem nextState_nodup (s : Settlement input output) (hA : (A.map Account.id).Nodup) :
    ((nextState A input output).map Account.id).Nodup := by
  rw [nextState, List.map_append, List.nodup_append]
  refine ⟨(List.filter_sublist.map Account.id).nodup hA, s.updated_canonical.sorted.nodup_map, ?_⟩
  intro id hid id' hid' heq
  rcases List.mem_map.mp hid with ⟨account, haccount, rfl⟩
  have hunlisted := of_decide_eq_true (List.mem_filter.mp haccount).2
  rw [heq] at hunlisted
  exact hunlisted (s.mem_leafKeys hid')

/-- A batch takes a canonical account set to a canonical one. -/
theorem nextState_canonical (s : Settlement input output) (hA : AccountsCanonical A) :
    AccountsCanonical (State.new (nextState A input output)).accounts := by
  apply State.new_canonical (s.nextState_nodup hA.sorted.nodup_map)
  intro account haccount
  rcases List.mem_append.mp haccount with hkept | hupdated
  · exact hA.canonical account (List.mem_filter.mp hkept).1
  · exact s.updated_canonical.canonical account hupdated

/-- The fee recipient is among the accounts of the output. -/
theorem recipient_mem (s : Settlement input output) :
    input.config.fees.recipient ∈ output.updatedAccounts.map Account.id :=
  (s.mem_updated_ids _).mpr (Or.inl s.config.recipient)

end Settlement

end

variable [DecidableEq B256]

/-- The account sets that chains of accepted batches lead to: each batch starts at the root of the
set at hand, and its output takes the place of the accounts that its proof lists. -/
inductive Reaches :
    List Account → List (BatchInput B256 × BatchOutput B256) → List Account → Prop
  | nil (A : List Account) : Reaches A [] A
  | cons {A A' : List Account} {input : BatchInput B256} {output : BatchOutput B256}
      {batches : List (BatchInput B256 × BatchOutput B256)}
      (oldRoot : computeRoot A = .ok input.expectedOldStateRoot)
      (accepted : settleBatch input = .ok output)
      (rest : Reaches (State.new (nextState A input output)).accounts batches A') :
      Reaches A ((input, output) :: batches) A'

variable {A A' : List Account} {batches : List (BatchInput B256 × BatchOutput B256)}

/-- From a canonical set only canonical sets are reached. -/
theorem Reaches.canonical (h : Reaches A batches A') (hA : AccountsCanonical A) :
    AccountsCanonical A' := by
  induction h with
  | nil A => exact hA
  | cons _ accepted _ ih =>
      rcases exists_settlement accepted with ⟨s⟩
      exact ih (s.nextState_canonical hA)

/-- Without collisions, a chain from the root of an account set reaches a set with the final
root. -/
theorem Chain.exists_reaches (hfree : CollisionFree B256) {root root' : B256}
    (h : Chain root batches root') (hA : Commits A root) :
    ∃ A', Reaches A batches A' ∧ Commits A' root' := by
  induction h generalizing A with
  | nil root => exact ⟨A, Reaches.nil A, hA⟩
  | @cons input output batches root accepted rest ih =>
      rcases exists_settlement accepted with ⟨s⟩
      have hnext := s.nextState_root hfree hA
      have hperm := sortByKey_perm Account.id (nextState A input output)
      have hroot : computeRoot (State.new (nextState A input output)).accounts =
          .ok output.publicOutput.newStateRoot :=
        (computeRoot_perm hnext.nodup hperm.symm).symm.trans hnext.root_eq
      rcases ih (Commits.of_computeRoot hroot) with ⟨A', hreaches, hA'⟩
      exact ⟨A', Reaches.cons hA.root_eq accepted hreaches, hA'⟩

variable (B256) in
/-- Canonical form is preserved: the accounts of every output are in strict id order, with those of
the witness, those of the deposits and the fee recipient among them, and their balances are in
strict asset order without zeros; from a canonical set, every chain of accepted batches leads to
canonical sets only, and so does the final root of the chain.  Any selection of such accounts
passes the checks of a later batch. -/
theorem canonical_preserved :
    (∀ (input : BatchInput B256) (output : BatchOutput B256), settleBatch input = .ok output →
      (output.updatedAccounts.map Account.id).Pairwise (· < ·) ∧
        (∀ account ∈ input.state.accounts, account.id ∈ output.updatedAccounts.map Account.id) ∧
        (∀ deposit ∈ input.deposits, deposit.account ∈ output.updatedAccounts.map Account.id) ∧
        input.config.fees.recipient ∈ output.updatedAccounts.map Account.id ∧
        (∀ account ∈ output.updatedAccounts,
          (account.balances.map AssetBalance.asset).Pairwise (· < ·) ∧
            ∀ balance ∈ account.balances, balance.available ≠ 0) ∧
        ∀ accounts, accounts.Sublist output.updatedAccounts → validateAccounts accounts = .ok ()) ∧
    (∀ (A A' : List Account) (batches : List (BatchInput B256 × BatchOutput B256)),
      AccountsCanonical A → Reaches A batches A' →
      AccountsCanonical A' ∧ ∀ accounts, accounts.Sublist A' → validateAccounts accounts = .ok ()) ∧
    (CollisionFree B256 → ∀ (A A' : List Account) (root root' : B256)
      (batches : List (BatchInput B256 × BatchOutput B256)),
      AccountsCanonical A → computeRoot A = .ok root → Chain root batches root' →
      SortedBy Account.id A' → computeRoot A' = .ok root' → AccountsCanonical A') := by
  refine ⟨?_, ?_, ?_⟩
  · intro input output h
    rcases exists_settlement h with ⟨s⟩
    have hcanonical := s.updated_canonical
    refine ⟨List.pairwise_map.mpr hcanonical.sorted, ?_, ?_, s.recipient_mem, ?_, ?_⟩
    · exact fun account haccount =>
        (s.mem_updated_ids _).mpr (Or.inl (List.mem_map_of_mem haccount))
    · exact fun deposit hdeposit =>
        (s.mem_updated_ids _).mpr (Or.inr (List.mem_map_of_mem hdeposit))
    · intro account haccount
      have hbalances := hcanonical.canonical account haccount
      exact ⟨List.pairwise_map.mpr hbalances.sorted, hbalances.nonzero⟩
    · exact fun accounts hsub => validateAccounts_of_canonical (hcanonical.sublist hsub)
  · intro A A' batches hA hreaches
    have hcanonical := hreaches.canonical hA
    exact ⟨hcanonical, fun accounts hsub => validateAccounts_of_canonical (hcanonical.sublist hsub)⟩
  · intro hfree A A' root root' batches hA hroot hchain hsorted hroot'
    rcases hchain.exists_reaches hfree (Commits.of_computeRoot hroot) with ⟨B, hreaches, hB⟩
    have hperm := (Commits.of_computeRoot hroot').perm hfree hB
    exact ⟨hsorted, fun account haccount =>
      (hreaches.canonical hA).canonical account (hperm.mem_iff.mp haccount)⟩

/-- The batch of the small exchange keeps its accounts canonical. -/
theorem canonical_preserved_testBatch :
    ∃ output, settleBatch (testBatch (some 1)) = .ok output ∧
      validateAccounts output.updatedAccounts = .ok () ∧
      AccountsCanonical
        (State.new (nextState testAccounts (testBatch (some 1)) output)).accounts := by
  rcases exists_testOutput with ⟨output, h⟩
  have hroot : computeRoot testAccounts = .ok testRoot := by decide +kernel
  have hcan : AccountsCanonical testAccounts :=
    validateAccounts_spec (show validateAccounts testAccounts = .ok () by decide +kernel)
  rcases canonical_preserved IdealDigest with ⟨hbatch, hchain, _⟩
  exact ⟨output, h, (hbatch _ _ h).2.2.2.2.2 _ (List.Sublist.refl _),
    (hchain _ _ _ hcan (Reaches.cons hroot h (Reaches.nil _))).1⟩

end ZkClob
