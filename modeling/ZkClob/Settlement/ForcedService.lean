import ZkClob.Settlement.LedgerEquation
import Mathlib.Data.List.Dedup

/-!
# Forced withdrawals against the committed accounts

A forced withdrawal is meant to be served from what its account holds in the
committed state.  The guest looks for the account only at the index that the host
attached to the request, and takes a miss for an empty account.

Main results:

- Theorem {lit}`forced_withdrawals_served_iff`: the requests of an accepted batch are
  served exactly when each index names the position of its account among the
  accounts of the batch, or there is nothing to drain.
- Theorem {lit}`forced_withdrawals_not_served`: without an index a request is consumed
  for nothing.
-/

namespace ZkClob

open Foundations Patricia

/-- The ids of the accounts of a batch in increasing order: those of the witness, and those
that receive a deposit. -/
def participants {B256 : Type} (input : BatchInput B256) : List AccountId :=
  sortByKey id (input.state.accounts.map Account.id ++ input.deposits.map Deposit.account).dedup

/-- The ledger of an account set after a sequence of deposits. -/
def afterDeposits (A : List Account) (deposits : List Deposit) (id : AccountId) (asset : AssetId) :
    Nat :=
  balanceOf A id asset +
    tally (fun d => d.account = id ∧ d.asset = asset) (fun d => d.amount.toNat) deposits

/-- Every request drains what it asks for, up to what its account holds after the deposits and
the earlier requests. -/
def Served {B256 : Type} (A : List Account) (input : BatchInput B256) (output : BatchOutput B256) :
    Prop :=
  (output.forcedWithdrawals.map fun e => e.amount.toNat) =
    drains (afterDeposits A input.deposits) input.forcedWithdrawals

section

variable {B256 : Type} [Sha256 B256] [Secp256k1 B256] {input : BatchInput B256}
  {output : BatchOutput B256} {A : List Account}

namespace Settlement

/-- The accounts after the deposits are the participants, in their order. -/
theorem deposited_ids (s : Settlement input output) :
    s.deposited.map Account.id = participants input := by
  unfold participants
  have hsorted : SortedBy id (s.deposited.map Account.id) :=
    List.pairwise_map.mpr s.deposits.accountsCanonical.sorted
  have hdedup := List.nodup_dedup
    (input.state.accounts.map Account.id ++ input.deposits.map Deposit.account)
  have hperm := sortByKey_perm id
    (input.state.accounts.map Account.id ++ input.deposits.map Deposit.account).dedup
  refine hsorted.eq_of_perm (SortedBy.of_nodup (sortByKey_pairwise _ _) ?_) ?_
  · simpa using hperm.nodup_iff.mpr hdedup
  · refine List.Perm.trans ?_ hperm.symm
    refine (List.perm_ext_iff_of_nodup s.deposits.accountsCanonical.sorted.nodup_map hdedup).mpr ?_
    intro id
    rw [s.deposits.mem_ids, List.mem_dedup, List.mem_append]

/-- What an account of the batch holds after the deposits, in terms of the committed set. -/
theorem holding_deposited (hfree : CollisionFree B256) (s : Settlement input output)
    (hA : Commits A input.expectedOldStateRoot) {id : AccountId}
    (hid : id ∈ s.deposited.map Account.id) (asset : AssetId) :
    afterDeposits A input.deposits id asset = holding s.deposited id asset := by
  have hlisted : id ∈ input.state.multiproof.leafKeys := by
    apply s.mem_leafKeys
    rw [s.updated_ids, s.drained_same.ids]
    exact hid
  rw [afterDeposits, s.deposits.holding, balanceOf_eq_tally hA.nodup,
    s.tally_witness hfree hA hlisted, ← balanceOf_eq_tally s.canonical.sorted.nodup_map,
    balanceOf_eq_holding s.canonical]

end Settlement

/-- The requests of an accepted batch are served exactly when, at its turn, every request has
the index of its account among the participants, or its account holds nothing. -/
theorem forced_withdrawals_served_iff [DecidableEq B256] (hfree : CollisionFree B256)
    (hA : computeRoot A = .ok input.expectedOldStateRoot) (h : settleBatch input = .ok output) :
    Served A input output ↔
      Reached (participants input) (afterDeposits A input.deposits) input.forcedWithdrawals := by
  rcases exists_settlement h with ⟨s⟩
  have hcommits := Commits.of_computeRoot hA
  rw [← s.deposited_ids]
  exact applyForcedWithdrawals_iff s.deposits.accountsCanonical
    (fun id hid asset => s.holding_deposited hfree hcommits hid asset) s.forcedPositive s.forced

end

/-- The index of the host decides: named, the request is served. -/
theorem forced_withdrawals_served_testBatch :
    ∃ output, settleBatch (testBatch (some 1)) = .ok output ∧
      (Served testAccounts (testBatch (some 1)) output ↔
        Reached (participants (testBatch (some 1)))
          (afterDeposits testAccounts (testBatch (some 1)).deposits)
          (testBatch (some 1)).forcedWithdrawals) := by
  rcases exists_testOutput with ⟨output, h⟩
  have hroot : computeRoot testAccounts = .ok testRoot := by decide +kernel
  exact ⟨output, h, forced_withdrawals_served_iff IdealDigest.collisionFree hroot h⟩

/-- Without an index, the request is consumed for nothing although its account holds enough. -/
theorem forced_withdrawals_not_served :
    ¬ ∀ (input : BatchInput IdealDigest) (output : BatchOutput IdealDigest) (A : List Account),
      computeRoot A = .ok input.expectedOldStateRoot → settleBatch input = .ok output →
      Served A input output := by
  intro hserved
  have hdrained : (settleBatch (testBatch none)).map
      (fun output => output.forcedWithdrawals.map fun e => e.amount.toNat) = .ok [0] := by
    decide +kernel
  have hideal : drains (afterDeposits testAccounts (testBatch none).deposits)
      (testBatch none).forcedWithdrawals = [3] := by
    decide +kernel
  cases h : settleBatch (testBatch none) with
  | error e =>
      rw [h] at hdrained
      cases hdrained
  | ok output =>
      rw [h] at hdrained
      have hroot : computeRoot testAccounts = .ok testRoot := by decide +kernel
      have hserve := hserved _ output testAccounts hroot h
      rw [Served, hideal] at hserve
      injection hdrained with hdrained
      cases hserve.symm.trans hdrained

end ZkClob
