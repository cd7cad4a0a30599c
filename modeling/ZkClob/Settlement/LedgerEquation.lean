import ZkClob.Settlement.Transition

/-!
# The ledger equation

What an accepted batch does to every account and asset, in terms of the data of the
batch alone, and who agreed to it.

Main results:

- Theorem {lit}`ledger_equation`: every balance of the output is that of the witness plus
  what the account received minus what it spent, and every trade and withdrawal
  is backed by a signed operation of its accounts.
-/

namespace ZkClob

open Foundations Patricia

/-! ## A small exchange -/

/-- A signature library whose public keys are made of the first half of the signature, so that
every account can sign. -/
instance testSecp256k1 : Secp256k1 IdealDigest where
  fromCompact _ _ _ := true
  isNormalized _ _ := true
  recoverEcdsa _ r s _ := some ⟨4 :: (r.toList ++ s.toList), by simp [r.length_eq, s.length_eq]⟩
  keccak256 key :=
    if h : (key.take 32).length = 32 then ⟨key.take 32, h⟩ else FixedBytes.replicate 32 0

/-- One asset, no market, and a fee recipient. -/
def testConfig : ExchangeConfig where
  assets := [⟨FixedBytes.replicate 20 7, 1⟩]
  markets := []
  fees := ⟨FixedBytes.replicate 20 1, 0⟩

/-- The fee recipient and a user. -/
def testAccounts : List Account :=
  [⟨FixedBytes.replicate 20 1, [], 0⟩,
    ⟨FixedBytes.replicate 20 2, [⟨FixedBytes.replicate 20 7, 5⟩], 3⟩]

/-- The root of the accounts of the small exchange. -/
def testRoot : IdealDigest :=
  (computeRoot testAccounts).toOption.getD ⟨[]⟩

/-- A batch that deposits for a third account and drains the user, whose index is given by
the host. -/
def testBatch (accountIndex : Option U32) : BatchInput IdealDigest where
  domain := ⟨1, 1, FixedBytes.replicate 20 9⟩
  batchId := 0
  expectedOldStateRoot := testRoot
  state := ⟨testAccounts, ⟨[FixedBytes.replicate 20 1, FixedBytes.replicate 20 2,
    FixedBytes.replicate 20 3], []⟩⟩
  oldDepositCursor := 0
  deposits := [⟨0, FixedBytes.replicate 20 3, FixedBytes.replicate 20 7, 4, some 2⟩]
  oldForcedWithdrawalCursor := 0
  forcedWithdrawals := [⟨0, FixedBytes.replicate 20 2, FixedBytes.replicate 20 7, 3, accountIndex⟩]
  orders := []
  withdrawals := []
  orderBooks := []
  config := testConfig

/-- The small exchange accepts the batch. -/
theorem exists_testOutput : ∃ output, settleBatch (testBatch (some 1)) = .ok output :=
  Outcome.exists_of_isOk (by decide +kernel)

/-! ## A small market -/

/-- Two assets with one market, and a fee recipient. -/
def marketConfig : ExchangeConfig where
  assets := [⟨FixedBytes.replicate 20 7, 1⟩, ⟨FixedBytes.replicate 20 8, 1⟩]
  markets := [⟨FixedBytes.replicate 32 5, FixedBytes.replicate 20 7, FixedBytes.replicate 20 8⟩]
  fees := ⟨FixedBytes.replicate 20 1, 0⟩

/-- The fee recipient, a seller and a buyer. -/
def marketAccounts : List Account :=
  [⟨FixedBytes.replicate 20 1, [], 0⟩,
    ⟨FixedBytes.replicate 20 2, [⟨FixedBytes.replicate 20 7, 5⟩], 3⟩,
    ⟨FixedBytes.replicate 20 3, [⟨FixedBytes.replicate 20 8, 9⟩], 0⟩]

/-- An order for one unit of the market, signed by its account. -/
def marketOrder (side : Side) (price : U128) (nonce : U64) (account : UInt8) (accountIndex : U32)
    (sequence : U64) : SequencedOrder where
  signedOrder := {
    operation := ⟨FixedBytes.replicate 32 5, side, price, 1, nonce⟩
    signer := FixedBytes.replicate 20 account
    signature := ⟨FixedBytes.replicate 32 account, FixedBytes.replicate 32 0, 0⟩
    accountIndex := some accountIndex }
  sequence

/-- A sell order and a buy order that match. -/
def marketOrders : List SequencedOrder :=
  [marketOrder .Sell 2 3 2 1 0, marketOrder .Buy 3 0 3 2 1]

/-- A batch with a matching pair of orders. -/
def marketBatch : BatchInput IdealDigest where
  domain := ⟨1, 1, FixedBytes.replicate 20 9⟩
  batchId := 0
  expectedOldStateRoot := (Patricia.computeRoot marketAccounts).toOption.getD ⟨[]⟩
  state := ⟨marketAccounts, ⟨marketAccounts.map Account.id, []⟩⟩
  oldDepositCursor := 0
  deposits := []
  oldForcedWithdrawalCursor := 0
  forcedWithdrawals := []
  orders := marketOrders
  withdrawals := []
  orderBooks := [⟨FixedBytes.replicate 32 5, [1], [0]⟩]
  config := marketConfig

/-- A withdrawal of one unit to its own account, signed by it. -/
def marketWithdrawal (asset account : UInt8) (nonce : U64) (accountIndex : U32) :
    SignedWithdrawal where
  operation := ⟨FixedBytes.replicate 20 asset, 1, FixedBytes.replicate 20 account, nonce⟩
  signer := FixedBytes.replicate 20 account
  signature := ⟨FixedBytes.replicate 32 account, FixedBytes.replicate 32 0, 0⟩
  accountIndex := some accountIndex

/-- A batch with items of every kind: a fourth account deposits, the buyer is drained, and the
seller withdraws after its trade with the buyer. -/
def openingBatch : BatchInput IdealDigest where
  domain := ⟨1, 1, FixedBytes.replicate 20 9⟩
  batchId := 0
  expectedOldStateRoot := (computeRoot marketAccounts).toOption.getD ⟨[]⟩
  state := ⟨marketAccounts, ⟨marketAccounts.map Account.id ++ [FixedBytes.replicate 20 4], []⟩⟩
  oldDepositCursor := 0
  deposits := [⟨0, FixedBytes.replicate 20 4, FixedBytes.replicate 20 7, 4, some 3⟩]
  oldForcedWithdrawalCursor := 0
  forcedWithdrawals := [⟨0, FixedBytes.replicate 20 3, FixedBytes.replicate 20 8, 2, some 2⟩]
  orders := marketOrders
  withdrawals := [marketWithdrawal 7 2 4 1]
  orderBooks := [⟨FixedBytes.replicate 32 5, [1], [0]⟩]
  config := marketConfig

/-- The accounts that this batch leaves behind. -/
def openedAccounts : List Account :=
  [⟨FixedBytes.replicate 20 1, [], 0⟩,
    ⟨FixedBytes.replicate 20 2,
      [⟨FixedBytes.replicate 20 7, 3⟩, ⟨FixedBytes.replicate 20 8, 2⟩], 5⟩,
    ⟨FixedBytes.replicate 20 3,
      [⟨FixedBytes.replicate 20 7, 1⟩, ⟨FixedBytes.replicate 20 8, 5⟩], 1⟩,
    ⟨FixedBytes.replicate 20 4, [⟨FixedBytes.replicate 20 7, 4⟩], 0⟩]

/-- The next batch: seller and buyer trade again, and the seller withdraws what it has earned. -/
def closingBatch : BatchInput IdealDigest where
  domain := ⟨1, 1, FixedBytes.replicate 20 9⟩
  batchId := 1
  expectedOldStateRoot := (computeRoot openedAccounts).toOption.getD ⟨[]⟩
  state := ⟨openedAccounts, ⟨openedAccounts.map Account.id, []⟩⟩
  oldDepositCursor := 1
  deposits := []
  oldForcedWithdrawalCursor := 1
  forcedWithdrawals := []
  orders := [marketOrder .Sell 2 6 2 1 0, marketOrder .Buy 3 1 3 2 1]
  withdrawals := [marketWithdrawal 8 2 5 1]
  orderBooks := [⟨FixedBytes.replicate 32 5, [1], [0]⟩]
  config := marketConfig

/-- The small market accepts the first batch, which ends where the next one starts. -/
theorem exists_openingOutput : ∃ output, settleBatch openingBatch = .ok output ∧
    output.publicOutput.newStateRoot = closingBatch.expectedOldStateRoot ∧
    output.trades.length = 1 := by
  have hended : (settleBatch openingBatch).toOption.map
      (fun output => (output.publicOutput.newStateRoot, output.trades.length)) =
      some (closingBatch.expectedOldStateRoot, 1) := by
    decide +kernel
  rcases Outcome.exists_of_isOk (show (settleBatch openingBatch).isOk = true by
    decide +kernel) with ⟨output, h⟩
  rw [h] at hended
  exact ⟨output, h, (Prod.mk.inj (Option.some.inj hended)).1,
    (Prod.mk.inj (Option.some.inj hended)).2⟩

/-- The small market accepts the next batch. -/
theorem exists_closingOutput : ∃ output, settleBatch closingBatch = .ok output :=
  Outcome.exists_of_isOk (by decide +kernel)

/-! ## The equation -/

section

variable {B256 : Type} [Sha256 B256] [Secp256k1 B256] [DecidableEq B256]
  {input : BatchInput B256} {output : BatchOutput B256}

/-- The ledger equation of a batch for one account and asset: the final balance and all
that was spent, against the initial balance and all that was received. -/
def LedgerEquation (input : BatchInput B256) (output : BatchOutput B256) (id : AccountId)
    (asset : AssetId) : Prop :=
  balanceOf output.updatedAccounts id asset +
      tally (fun w => w.account = id ∧ w.asset = asset) (fun w => w.amount.toNat)
        output.forcedWithdrawals +
      tally (fun w => w.account = id ∧ w.asset = asset) (fun w => w.amount.toNat)
        output.withdrawals +
      paidQuote input.config output.trades id asset +
      soldBase input.config output.trades id asset =
    balanceOf input.state.accounts id asset +
      tally (fun d => d.account = id ∧ d.asset = asset) (fun d => d.amount.toNat) input.deposits +
      boughtBase input.config output.trades id asset +
      receivedQuote input.config output.trades id asset +
      receivedFees input.config output.trades id asset

/-- A side of a trade is backed by a signed order of its account, market and side. -/
def SignedSide (input : BatchInput B256) (marketId : MarketId) (side : Side)
    (id : AccountId) : Prop :=
  ∃ o ∈ input.orders, o.trader = id ∧ o.marketId = marketId ∧ o.side = side ∧
    o.signedOrder.hasValidSignature (hash input.domain : B256) = true

/-- Every balance changes by exactly what the account received and spent; every side of a
trade has a signed order, and every executed withdrawal a signed withdrawal. -/
theorem ledger_equation (h : settleBatch input = .ok output) :
    (∀ id asset, LedgerEquation input output id asset) ∧
      (∀ t ∈ output.trades, SignedSide input t.marketId .Buy t.buyer ∧
        SignedSide input t.marketId .Sell t.seller) ∧
      ∀ w ∈ output.withdrawals, ∃ signed ∈ input.withdrawals, w = ExecutedWithdrawal.from signed ∧
        signed.account = w.account ∧
        signed.hasValidSignature (hash input.domain : B256) = true := by
  rcases exists_settlement h with ⟨s⟩
  have hwithdrawals : output.withdrawals = input.withdrawals.map ExecutedWithdrawal.from := by
    rw [s.output_eq]
    rfl
  refine ⟨fun id asset => ?_, fun t ht => ?_, fun w hw => ?_⟩
  · have hledger := s.holding_eq id asset
    rw [LedgerEquation, balanceOf_eq_holding s.updated_canonical, balanceOf_eq_holding s.canonical,
      hwithdrawals, tally_map]
    exact hledger
  · rcases s.sides t ht with ⟨⟨b, hb, hbt, hbm, hbs⟩, ⟨a, ha, hat, ham, has⟩⟩
    exact ⟨⟨b, hb, hbt, hbm, hbs, (s.validOrders b hb).signature⟩,
      ⟨a, ha, hat, ham, has, (s.validOrders a ha).signature⟩⟩
  · rw [hwithdrawals] at hw
    rcases List.mem_map.mp hw with ⟨signed, hsigned, rfl⟩
    exact ⟨signed, hsigned, rfl, rfl, (s.validWithdrawals signed hsigned).signature⟩

end

/-- A batch with a trade, a deposit, a withdrawal and a forced withdrawal. -/
theorem ledger_equation_openingBatch :
    ∃ output, settleBatch openingBatch = .ok output ∧ output.trades.length = 1 ∧
      (∀ id asset, LedgerEquation openingBatch output id asset) ∧
      (∀ t ∈ output.trades, SignedSide openingBatch t.marketId .Buy t.buyer ∧
        SignedSide openingBatch t.marketId .Sell t.seller) ∧
      ∀ w ∈ output.withdrawals, ∃ signed ∈ openingBatch.withdrawals,
        w = ExecutedWithdrawal.from signed ∧ signed.account = w.account ∧
        signed.hasValidSignature (hash openingBatch.domain : IdealDigest) = true := by
  rcases exists_openingOutput with ⟨output, h, _, htrades⟩
  exact ⟨output, h, htrades, ledger_equation h⟩

end ZkClob
