import ZkClob.Settlement.Assets
import ZkClob.Settlement.Deposits
import ZkClob.Settlement.ForcedWithdrawals
import ZkClob.Settlement.Matching
import ZkClob.Settlement.Withdrawals

/-!
# Settlement of a batch

The guest program: validate the untrusted input, apply deposits, forced
withdrawals, withdrawals and trades to the witnessed accounts, check that no asset
was created or lost, and commit to the result.

Main results:

- Theorem {lit}`exists_settlement`: an accepted batch went through every stage, with
  the intermediate accounts and what each stage did to them.
- Theorem {lit}`Settlement.holding_eq`: the ledger after the batch against the ledger
  before it.
-/

namespace ZkClob

open Foundations

variable {B256 : Type} [Sha256 B256] [Secp256k1 B256]

/-- {lit}`build_output`. -/
def buildOutput (domain : SigningDomain) (batchId : U64) (configHash batchHash : B256)
    (oldStateRoot newStateRoot : B256) (accounts : List Account) (trades : List Trade)
    (oldDepositCursor newDepositCursor : U64) (deposits : List Deposit)
    (withdrawals : List SignedWithdrawal) (oldForcedWithdrawalCursor : U64)
    (consumedForcedWithdrawalsHash : B256) (executedForcedWithdrawals : List ForcedWithdrawal) :
    BatchOutput B256 :=
  let executedWithdrawals := withdrawals.map ExecutedWithdrawal.from
  { publicOutput :=
      { domain
        batchId
        oldStateRoot
        newStateRoot
        configHash
        batchHash
        tradesHash := hash trades
        oldDepositCursor
        newDepositCursor
        consumedDepositsHash := hash deposits
        oldForcedWithdrawalCursor
        consumedForcedWithdrawalsHash
        withdrawalsHash := hash executedWithdrawals
        forcedWithdrawalsHash := hash executedForcedWithdrawals }
    updatedAccounts := accounts
    trades
    withdrawals := executedWithdrawals
    forcedWithdrawals := executedForcedWithdrawals }

/-- The batch commitment of an input. -/
def BatchInput.batchHash (input : BatchInput B256) (oldStateRoot : B256) : B256 :=
  hash ((hash input.domain : B256), input.batchId, oldStateRoot, (hash input.config : B256),
    input.orders)

/-- {lit}`settle_batch`. -/
def settleBatch [DecidableEq B256] (input : BatchInput B256) :
    Outcome SettlementError (BatchOutput B256) := do
  validateLimits input
  let accounts := input.state.accounts
  validateConfig input.config accounts
  validateAccounts accounts
  let newDepositCursor ← validateDeposits input.deposits input.oldDepositCursor input.config
  let oldStateRoot ← input.state.root
  Outcome.rejectIf (oldStateRoot ≠ input.expectedOldStateRoot) .OldStateRootMismatch
  let configHash : B256 := hash input.config
  let domainHash : B256 := hash input.domain
  let batchHash := input.batchHash oldStateRoot
  let consumedForcedWithdrawalsHash : B256 := hash input.forcedWithdrawals
  let assetTracker ← AssetTracker.default.addAccounts accounts
  let assetTracker ← assetTracker.addDeposits input.deposits
  let assetTracker ← assetTracker.subtractWithdrawals input.withdrawals
  let accounts ← applyDeposits accounts input.deposits
  validateForcedWithdrawals input.forcedWithdrawals input.oldForcedWithdrawalCursor
  let (accounts, forcedWithdrawals) ← applyForcedWithdrawals accounts input.forcedWithdrawals
  let assetTracker ← assetTracker.subtractForcedWithdrawals forcedWithdrawals
  validateWithdrawals input.withdrawals accounts input.config domainHash
  validateOrders input.orders accounts input.config domainHash
  validateNonces input.orders input.withdrawals accounts
  let accounts ← applyWithdrawals accounts input.withdrawals
  let accounts ← consumeNonces accounts input.orders input.withdrawals
  let books ← buildValidatedBooks input.orders input.orderBooks input.config
  let (accounts, trades) ← matchAndSettle accounts books input.config
  let assetTracker ← assetTracker.subtractAccounts accounts
  Outcome.rejectIf (¬ assetTracker.isEmpty) .AssetConservationViolation
  let newStateRoot ← (⟨accounts, input.state.multiproof⟩ : StateWitness B256).root
  .ok (buildOutput input.domain input.batchId configHash batchHash oldStateRoot newStateRoot
    accounts trades input.oldDepositCursor newDepositCursor input.deposits input.withdrawals
    input.oldForcedWithdrawalCursor consumedForcedWithdrawalsHash forcedWithdrawals)

/-! ## The stages of an accepted batch -/

/-- The intermediate accounts of an accepted batch, and what each stage did to them. -/
structure Settlement (input : BatchInput B256) (output : BatchOutput B256) where
  /-- The accounts after the deposits. -/
  deposited : List Account
  /-- The accounts after the forced withdrawals. -/
  drained : List Account
  /-- The accounts after the withdrawals. -/
  withdrawn : List Account
  /-- The accounts with their nonces advanced. -/
  consumed : List Account
  config : ValidConfig input.config input.state.accounts
  canonical : AccountsCanonical input.state.accounts
  depositIds : input.deposits.map (fun d => d.id.toNat) =
    List.range' input.oldDepositCursor.toNat input.deposits.length
  newDepositCursor : output.publicOutput.newDepositCursor.toNat =
    input.oldDepositCursor.toNat + input.deposits.length
  oldRoot : input.state.root = .ok input.expectedOldStateRoot
  deposits : Deposited input.state.accounts deposited input.deposits
  forcedIds : input.forcedWithdrawals.map (fun r => r.id.toNat) =
    List.range' input.oldForcedWithdrawalCursor.toNat input.forcedWithdrawals.length
  forcedCursor : input.oldForcedWithdrawalCursor.toNat + input.forcedWithdrawals.length < 2 ^ 64
  forcedPositive : ∀ r ∈ input.forcedWithdrawals, r.amount ≠ 0
  forced : applyForcedWithdrawals deposited input.forcedWithdrawals =
    .ok (drained, output.forcedWithdrawals)
  validWithdrawals : ∀ w ∈ input.withdrawals,
    ValidWithdrawal drained input.config (hash input.domain : B256) w
  validOrders : ∀ o ∈ input.orders, ValidOrder drained input.config (hash input.domain : B256) o
  nonces : ∀ id, (noncesOf input.orders input.withdrawals id).Perm
    (List.range' (nonceOf drained id) (noncesOf input.orders input.withdrawals id).length)
  withdrawals : SameAccounts drained withdrawn ∧ ∀ id asset, holding drained id asset =
    holding withdrawn id asset +
      tally (fun w => w.account = id ∧ w.asset = asset) (fun w => w.amount.toNat) input.withdrawals
  advanced : NoncesConsumed withdrawn consumed input.orders input.withdrawals
  trades : TradesSettled input.config consumed output.updatedAccounts output.trades
  sides : ∀ t ∈ output.trades, TradeSides input.orders t
  conservation : ∀ x, supply input.state.accounts x +
      tally (fun d => d.asset = x) (fun d => d.amount.toNat) input.deposits =
    supply output.updatedAccounts x +
      tally (fun w => w.asset = x) (fun w => w.amount.toNat) input.withdrawals +
      tally (fun w => w.asset = x) (fun w => w.amount.toNat) output.forcedWithdrawals
  newRoot : (⟨output.updatedAccounts, input.state.multiproof⟩ : StateWitness B256).root =
    .ok output.publicOutput.newStateRoot
  output_eq : output = buildOutput input.domain input.batchId (hash input.config)
    (input.batchHash input.expectedOldStateRoot) input.expectedOldStateRoot
    output.publicOutput.newStateRoot output.updatedAccounts output.trades input.oldDepositCursor
    output.publicOutput.newDepositCursor input.deposits input.withdrawals
    input.oldForcedWithdrawalCursor (hash input.forcedWithdrawals) output.forcedWithdrawals

variable {input : BatchInput B256} {output : BatchOutput B256}

/-- An accepted batch went through every stage. -/
theorem exists_settlement [DecidableEq B256] (h : settleBatch input = .ok output) :
    Nonempty (Settlement input output) := by
  simp only [settleBatch, Outcome.bind_eq_ok, Outcome.rejectIf_eq_ok, Prod.exists, not_not,
    Except.ok.injEq] at h
  rcases h with
    ⟨_, hlimits, _, hconfig, _, haccounts, newDepositCursor, hdeposits, oldRoot, hroot, _, rfl, t₁,
      h₁, t₂, h₂, t₃, h₃, deposited, hdeposited, _, hforced, drained, executed, hdrained, t₄, h₄, _,
      hwithdrawals, _, horders, _, hnonces, withdrawn, hwithdrawn, consumed, hconsumed, books,
      hbooks, final, trades, htrades, t₅, h₅, _, hempty, newRoot, hnewRoot, rfl⟩
  have hcanonical := validateAccounts_spec haccounts
  rcases validateDeposits_spec hdeposits with ⟨hdepositIds, hcursor, _⟩
  have hdep := applyDeposits_spec hcanonical hdeposited
  rcases validateForcedWithdrawals_spec hforced with ⟨hforcedIds, hforcedCursor, hforcedPositive⟩
  rcases applyForcedWithdrawals_spec hdep.accountsCanonical hdrained with ⟨hsame, _, _⟩
  have hdrainedCanonical := hsame.accountsCanonical hdep.accountsCanonical
  have hvalidWithdrawals := validateWithdrawals_spec hwithdrawals
  rcases validateOrders_spec horders with ⟨hvalidOrders, _⟩
  have horderIndexed := fun o ho => (hvalidOrders o ho).indexed
  have hwithdrawalIndexed := fun w hw => (hvalidWithdrawals w hw).indexed
  have hwith := applyWithdrawals_spec hwithdrawalIndexed hwithdrawn
  have hwithdrawnIds := hwith.1.ids
  have hwithdrawnCanonical := hwith.1.accountsCanonical hdrainedCanonical
  have hadvanced := consumeNonces_spec hwithdrawnCanonical.sorted.nodup_map
    (fun o ho => hwithdrawnIds ▸ horderIndexed o ho)
    (fun w hw => hwithdrawnIds ▸ hwithdrawalIndexed w hw) hconsumed
  obtain ⟨hsettled, hsides⟩ := matchAndSettle_spec
    (hadvanced.accountsCanonical hwithdrawnCanonical).sorted
    (buildValidatedBooks_spec hbooks)
    (fun o ho => hadvanced.ids ▸ hwithdrawnIds ▸ horderIndexed o ho) htrades
  exact ⟨{
    deposited, drained, withdrawn, consumed
    config := validateConfig_spec hconfig
    canonical := hcanonical
    depositIds := hdepositIds
    newDepositCursor := hcursor
    oldRoot := hroot
    deposits := hdep
    forcedIds := hforcedIds
    forcedCursor := hforcedCursor
    forcedPositive := hforcedPositive
    forced := hdrained
    validWithdrawals := hvalidWithdrawals
    validOrders := hvalidOrders
    nonces := validateNonces_spec hdrainedCanonical.sorted.nodup_map horderIndexed
      hwithdrawalIndexed hnonces
    withdrawals := hwith
    advanced := hadvanced
    trades := hsettled
    sides := hsides
    conservation := AssetTracker.conservation h₁ h₂ h₃ h₄ h₅ hempty
    newRoot := hnewRoot
    output_eq := rfl }⟩

namespace Settlement

theorem drained_same (s : Settlement input output) : SameAccounts s.deposited s.drained :=
  (applyForcedWithdrawals_spec s.deposits.accountsCanonical s.forced).1

/-- The records of the forced withdrawals repeat the requests, with the drained amounts. -/
theorem forced_records (s : Settlement input output) : List.Forall₂
    (fun r e => e = r.setAmount e.amount ∧ e.amount.toNat ≤ r.amount.toNat)
    input.forcedWithdrawals output.forcedWithdrawals :=
  (applyForcedWithdrawals_spec s.deposits.accountsCanonical s.forced).2.2

theorem drained_canonical (s : Settlement input output) : AccountsCanonical s.drained :=
  s.drained_same.accountsCanonical s.deposits.accountsCanonical

theorem withdrawn_canonical (s : Settlement input output) : AccountsCanonical s.withdrawn :=
  s.withdrawals.1.accountsCanonical s.drained_canonical

theorem consumed_canonical (s : Settlement input output) : AccountsCanonical s.consumed :=
  s.advanced.accountsCanonical s.withdrawn_canonical

/-- The accounts of the output are canonical. -/
theorem updated_canonical (s : Settlement input output) :
    AccountsCanonical output.updatedAccounts :=
  s.trades.same.accountsCanonical s.consumed_canonical

/-- After the forced withdrawals the ids no longer change. -/
theorem updated_ids (s : Settlement input output) :
    output.updatedAccounts.map Account.id = s.drained.map Account.id := by
  rw [s.trades.same.ids, s.advanced.ids, s.withdrawals.1.ids]

/-- The accounts of the output are those of the witness and of the deposits. -/
theorem mem_updated_ids (s : Settlement input output) (id : AccountId) :
    id ∈ output.updatedAccounts.map Account.id ↔
      id ∈ input.state.accounts.map Account.id ∨ id ∈ input.deposits.map Deposit.account := by
  rw [s.updated_ids, s.drained_same.ids, s.deposits.mem_ids]

/-- The ledger after the batch against the ledger before it. -/
theorem holding_eq (s : Settlement input output) (id : AccountId)
    (asset : AssetId) :
    holding output.updatedAccounts id asset +
        tally (fun w => w.account = id ∧ w.asset = asset) (fun w => w.amount.toNat)
          output.forcedWithdrawals +
        tally (fun w => w.account = id ∧ w.asset = asset) (fun w => w.amount.toNat)
          input.withdrawals +
        paidQuote input.config output.trades id asset +
          soldBase input.config output.trades id asset =
      holding input.state.accounts id asset +
        tally (fun d => d.account = id ∧ d.asset = asset) (fun d => d.amount.toNat) input.deposits +
        boughtBase input.config output.trades id asset +
        receivedQuote input.config output.trades id asset +
        receivedFees input.config output.trades id asset := by
  have hdeposits := s.deposits.holding id asset
  have hforced := (applyForcedWithdrawals_spec s.deposits.accountsCanonical s.forced).2.1 id asset
  have hwithdrawals := s.withdrawals.2 id asset
  have hconsumed := s.advanced.holding_eq id asset
  have htrades := s.trades.holding id asset
  omega

/-- The next nonces after the batch: one more for every operation. -/
theorem nonceOf_eq (s : Settlement input output) (id : AccountId) :
    nonceOf output.updatedAccounts id = nonceOf input.state.accounts id +
      (noncesOf input.orders input.withdrawals id).length := by
  rw [s.trades.same.nonceOf_eq, s.advanced.nonces, s.withdrawals.1.nonceOf_eq,
    s.drained_same.nonceOf_eq, s.deposits.nonces]

/-- The operations of a batch use exactly the nonces from the next nonce of the witness on. -/
theorem nonces_perm (s : Settlement input output) (id : AccountId) :
    (noncesOf input.orders input.withdrawals id).Perm
      (List.range' (nonceOf input.state.accounts id)
        (noncesOf input.orders input.withdrawals id).length) := by
  have h := s.nonces id
  rwa [s.drained_same.nonceOf_eq, s.deposits.nonces] at h

end Settlement

end ZkClob
