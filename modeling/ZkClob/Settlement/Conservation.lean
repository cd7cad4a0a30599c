import ZkClob.Settlement.Assets
import ZkClob.Settlement.Deposits
import ZkClob.Settlement.ForcedWithdrawals
import ZkClob.Settlement.Matching
import ZkClob.Settlement.Withdrawals

/-!
# Conservation by each stage

What a stage does to the ledger it does to the supply, because the supply is the sum of
the ledger entries.  Deposits add to the supply and withdrawals take from it; trades move
assets between accounts, with rounding and fees on both sides of the same trade.

Main results:

- Theorem {lit}`supply_eq_sum_holding`: the supply is the sum of the ledger entries.
- Theorem {lit}`TradesSettled.supply_eq`: trades keep the supply of every asset.
-/

namespace ZkClob

open Foundations

/-- There are finitely many strings of bytes of one length. -/
noncomputable instance fintypeFixedBytes {N : Nat} : Fintype (FixedBytes N) :=
  Fintype.ofInjective (fun key : FixedBytes N => (⟨key.beValue, key.beValue_lt⟩ : Fin (256 ^ N)))
    fun _ _ h => FixedBytes.beValue_injective (congrArg Fin.val h)

variable {accounts accounts' : List Account}

/-- The supply is the sum of the ledger entries. -/
theorem supply_eq_sum_holding (accounts : List Account) (asset : AssetId) :
    supply accounts asset = ∑ id, holding accounts id asset := by
  have hsum := sum_tally Account.id (fun _ => True) (fun account => account.total asset) accounts
  simp only [and_true] at hsum
  rw [supply]
  simp only [holding, hsum]
  simp [tally]

theorem supply_append (accounts accounts' : List Account) (asset : AssetId) :
    supply (accounts ++ accounts') asset = supply accounts asset + supply accounts' asset := by
  simp [supply]

/-- The supply does not depend on the order of the accounts. -/
theorem supply_perm (h : accounts.Perm accounts') (asset : AssetId) :
    supply accounts asset = supply accounts' asset :=
  (h.map _).sum_eq

/-! ## Stages -/

/-- Deposits add to the supply. -/
theorem Deposited.supply_eq {deposits : List Deposit} (h : Deposited accounts accounts' deposits)
    (asset : AssetId) :
    supply accounts' asset =
      supply accounts asset + tally (fun d => d.asset = asset)
        (fun d => d.amount.toNat) deposits := by
  have hsum := sum_tally Deposit.account (fun d => d.asset = asset)
      (fun d => d.amount.toNat) deposits
  rw [supply_eq_sum_holding, supply_eq_sum_holding, ← hsum, ← Finset.sum_add_distrib]
  exact Finset.sum_congr rfl fun id _ => h.holding id asset

/-- Drained amounts leave the supply. -/
theorem supply_eq_of_drained {executed : List ForcedWithdrawal} {asset : AssetId}
    (h : ∀ id, holding accounts id asset = holding accounts' id asset +
      tally (fun e => e.account = id ∧ e.asset = asset) (fun e => e.amount.toNat) executed) :
    supply accounts asset =
      supply accounts' asset + tally (fun e => e.asset = asset)
        (fun e => e.amount.toNat) executed := by
  have hsum := sum_tally ForcedWithdrawal.account (fun e => e.asset = asset)
      (fun e => e.amount.toNat)
    executed
  rw [supply_eq_sum_holding, supply_eq_sum_holding, ← hsum, ← Finset.sum_add_distrib]
  exact Finset.sum_congr rfl fun id _ => h id

/-- Withdrawn amounts leave the supply. -/
theorem supply_eq_of_withdrawn {withdrawals : List SignedWithdrawal} {asset : AssetId}
    (h : ∀ id, holding accounts id asset = holding accounts' id asset +
      tally (fun w => w.account = id ∧ w.asset = asset) (fun w => w.amount.toNat) withdrawals) :
    supply accounts asset =
      supply accounts' asset +
        tally (fun w => w.asset = asset) (fun w => w.amount.toNat) withdrawals := by
  have hsum := sum_tally (fun w : SignedWithdrawal => w.account) (fun w => w.asset = asset)
    (fun w => w.amount.toNat) withdrawals
  rw [supply_eq_sum_holding, supply_eq_sum_holding, ← hsum, ← Finset.sum_add_distrib]
  exact Finset.sum_congr rfl fun id _ => h id

/-- Advancing nonces keeps the supply. -/
theorem NoncesConsumed.supply_eq {orders : List SequencedOrder}
    {withdrawals : List SignedWithdrawal}
    (h : NoncesConsumed accounts accounts' orders withdrawals) (asset : AssetId) :
    supply accounts' asset = supply accounts asset := by
  rw [supply_eq_sum_holding, supply_eq_sum_holding]
  exact Finset.sum_congr rfl fun id _ => h.holding_eq id asset

/-- Trades keep the supply of every asset: what the buyers pay is what the sellers and the fee
recipient receive. -/
theorem TradesSettled.supply_eq {config : ExchangeConfig} {trades : List Trade}
    (h : TradesSettled config accounts accounts' trades) (asset : AssetId) :
    supply accounts' asset = supply accounts asset := by
  have hbought : ∑ id, boughtBase config trades id asset = _ :=
    sum_tally Trade.buyer (fun t => config.baseAssetOf t.marketId = some asset)
      (fun t => t.quantity.toNat) trades
  have hsold : ∑ id, soldBase config trades id asset = _ :=
    sum_tally Trade.seller (fun t => config.baseAssetOf t.marketId = some asset)
      (fun t => t.quantity.toNat) trades
  have hpaid : ∑ id, paidQuote config trades id asset = _ :=
    sum_tally Trade.buyer (fun t => config.quoteAssetOf t.marketId = some asset)
      (fun t => t.quoteAmount.toNat + t.quoteFee.toNat) trades
  have hreceived : ∑ id, receivedQuote config trades id asset = _ :=
    sum_tally Trade.seller (fun t => config.quoteAssetOf t.marketId = some asset)
      (fun t => t.quoteAmount.toNat) trades
  have hfees : ∑ id, receivedFees config trades id asset = _ :=
    sum_tally (fun _ : Trade => config.fees.recipient)
      (fun t => config.quoteAssetOf t.marketId = some asset) (fun t => t.quoteFee.toNat) trades
  have hsum := Finset.sum_congr (rfl : (Finset.univ : Finset AccountId) = Finset.univ)
    fun id _ => h.holding id asset
  simp only [Finset.sum_add_distrib] at hsum
  rw [hbought, hsold, hpaid, hreceived, hfees, tally_add] at hsum
  rw [supply_eq_sum_holding, supply_eq_sum_holding]
  omega

end ZkClob
