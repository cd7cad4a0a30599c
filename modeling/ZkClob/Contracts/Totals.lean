import ZkClob.Contracts.Accounting
import ZkClob.Settlement.Conservation

/-!
# Totals of the books

The books of the contract have an entry for every address.  There are finitely many
addresses, so that entries add up to totals, and what is said about every party says what
happens to an asset as a whole.

Main results:

- Theorem {lit}`Contract.Paid.total_eq`: a payout keeps the total of what was paid out and
  of the credits, up to what is owed.
- Theorem {lit}`Contract.transferredTotal_eq_sum`: transfers to or from all parties.
-/

namespace ZkClob

open Foundations

namespace Contract

variable {B256 : Type} {world world' : World B256}

/-- The credits in one asset. -/
noncomputable def pendingTotal (storage : Storage B256) (asset : Address) : Nat :=
  ∑ account, (storage.pendingWithdrawals account asset).toNat

/-- Transfers to or from all parties. -/
theorem transferredTotal_eq_sum (world : World B256) (kind : TransferKind) (asset : Address) :
    transferredTotal world kind asset = ∑ party, transferred world kind party asset := by
  have hsum := sum_tally Transfer.party (fun t => t.kind = kind ∧ t.asset = asset)
    (fun t => t.amount.toNat) world.transfers
  rw [transferredTotal, ← hsum]
  apply Finset.sum_congr rfl
  intro party _
  apply tally_congr
  · intro t _
    simp only [decide_eq_decide]
    tauto
  · intro t _ _
    rfl

/-- What is owed to all recipients of withdrawals. -/
theorem sum_withdrawalsTo (withdrawals : List Withdrawal) (asset : Address) :
    ∑ recipient, withdrawalsTo withdrawals recipient asset =
      tally (fun w => w.asset = asset) (fun w => w.amount.toNat) withdrawals :=
  sum_tally ExecutedWithdrawal.recipient (fun w => w.asset = asset) (fun w => w.amount.toNat)
    withdrawals

/-- What is owed to all accounts that are drained. -/
theorem sum_forcedWithdrawalsTo (forcedWithdrawals : List ForcedWithdrawal) (asset : Address) :
    ∑ account, forcedWithdrawalsTo forcedWithdrawals account asset =
      tally (fun w => w.asset = asset) (fun w => w.amount.toNat) forcedWithdrawals :=
  sum_tally ForcedWithdrawal.account (fun w => w.asset = asset) (fun w => w.amount.toNat)
    forcedWithdrawals

/-- The balances of an account that escapes reach the account alone. -/
theorem sum_escapedBalances (id : Address) (balances : List AssetBalance) (asset : Address) :
    ∑ party, escapedBalances id balances party asset =
      tally (fun b => b.asset = asset) (fun b => b.available.toNat) balances := by
  simp [escapedBalances]

variable {owed escaped : Address → Address → Nat}

/-- Payouts keep the total of what was paid out and of the credits, up to what is owed. -/
theorem Paid.total_eq (h : Paid world world' owed escaped) (asset : Address) :
    transferredTotal world' .payout asset + pendingTotal world'.storage asset =
      transferredTotal world .payout asset + pendingTotal world.storage asset +
        ∑ recipient, owed recipient asset := by
  simp only [transferredTotal_eq_sum, pendingTotal, ← Finset.sum_add_distrib]
  exact Finset.sum_congr rfl fun recipient _ => h.payouts recipient asset

/-- Escapes add what escapes to the total of what escaped. -/
theorem Paid.escapedTotal_eq (h : Paid world world' owed escaped) (asset : Address) :
    transferredTotal world' .escape asset =
      transferredTotal world .escape asset + ∑ party, escaped party asset := by
  simp only [transferredTotal_eq_sum, ← Finset.sum_add_distrib]
  exact Finset.sum_congr rfl fun party _ => h.escapes party asset

end Contract

end ZkClob
