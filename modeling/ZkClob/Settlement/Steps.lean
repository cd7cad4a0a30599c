import ZkClob.Settlement.Settle

/-!
# The steps of a batch

The guest program read as a list of steps, with the values that each of them hands on to the
next.  Results about a batch that succeeds, or about two of them, start from here.

Main results:

- Theorem {lit}`exists_steps`: the steps of an accepted batch, and what the output takes
  from them.
-/

namespace ZkClob

open Foundations

/-- The intermediate values of a batch. -/
structure Stages where
  /-- The accounts after the deposits. -/
  deposited : List Account
  /-- The accounts after the forced withdrawals. -/
  drained : List Account
  /-- The forced withdrawals with the drained amounts. -/
  executed : List ForcedWithdrawal
  /-- The accounts after the withdrawals. -/
  withdrawn : List Account
  /-- The accounts with their nonces advanced. -/
  consumed : List Account
  /-- The validated order books. -/
  books : List ValidatedMarketBook
  /-- The accounts after the trades. -/
  settled : List Account
  /-- The trades. -/
  trades : List Trade

variable {B256 : Type} [Sha256 B256] [Secp256k1 B256] {input : BatchInput B256} {stages : Stages}

/-- Every step of {lit}`settle_batch` up to the trades succeeds, the tracker left out. -/
structure StepsSucceed (input : BatchInput B256) (stages : Stages) : Prop where
  limits : validateLimits input = .ok ()
  config : validateConfig input.config input.state.accounts = .ok ()
  accounts : validateAccounts input.state.accounts = .ok ()
  deposits : ∃ newDepositCursor,
    validateDeposits input.deposits input.oldDepositCursor input.config = .ok newDepositCursor
  oldRoot : input.state.root = .ok input.expectedOldStateRoot
  applyDeposits : applyDeposits input.state.accounts input.deposits = .ok stages.deposited
  forcedWithdrawals :
    validateForcedWithdrawals input.forcedWithdrawals input.oldForcedWithdrawalCursor = .ok ()
  applyForcedWithdrawals : applyForcedWithdrawals stages.deposited input.forcedWithdrawals =
    .ok (stages.drained, stages.executed)
  withdrawals : validateWithdrawals input.withdrawals stages.drained input.config
    (hash input.domain : B256) = .ok ()
  orders : validateOrders input.orders stages.drained input.config
    (hash input.domain : B256) = .ok ()
  nonces : validateNonces input.orders input.withdrawals stages.drained = .ok ()
  applyWithdrawals : applyWithdrawals stages.drained input.withdrawals = .ok stages.withdrawn
  consumeNonces : consumeNonces stages.withdrawn input.orders input.withdrawals =
    .ok stages.consumed
  books : buildValidatedBooks input.orders input.orderBooks input.config = .ok stages.books
  matchAndSettle : matchAndSettle stages.consumed stages.books input.config =
    .ok (stages.settled, stages.trades)

namespace StepsSucceed

/-- The accounts of the witness are canonical. -/
theorem canonical (h : StepsSucceed input stages) : AccountsCanonical input.state.accounts :=
  validateAccounts_spec h.accounts

theorem deposited (h : StepsSucceed input stages) :
    Deposited input.state.accounts stages.deposited input.deposits :=
  applyDeposits_spec h.canonical h.applyDeposits

theorem drained_canonical (h : StepsSucceed input stages) : AccountsCanonical stages.drained :=
  (applyForcedWithdrawals_spec h.deposited.accountsCanonical
    h.applyForcedWithdrawals).1.accountsCanonical h.deposited.accountsCanonical

theorem order_indexed (h : StepsSucceed input stages) :
    ∀ o ∈ input.orders, IndexedIn (stages.drained.map Account.id) o.accountIndex o.trader :=
  fun o ho => ((validateOrders_spec h.orders).1 o ho).indexed

theorem withdrawal_indexed (h : StepsSucceed input stages) :
    ∀ w ∈ input.withdrawals, IndexedIn (stages.drained.map Account.id) w.accountIndex w.account :=
  fun w hw => (validateWithdrawals_spec h.withdrawals w hw).indexed

theorem withdrawn_same (h : StepsSucceed input stages) :
    SameAccounts stages.drained stages.withdrawn :=
  (applyWithdrawals_spec h.withdrawal_indexed h.applyWithdrawals).1

/-- The operations of the batch advance the nonces. -/
theorem noncesConsumed (h : StepsSucceed input stages) :
    (stages.withdrawn.map Account.id).Nodup ∧
      NoncesConsumed stages.withdrawn stages.consumed input.orders input.withdrawals := by
  have hids := h.withdrawn_same.ids
  have hnodup := (h.withdrawn_same.accountsCanonical h.drained_canonical).sorted.nodup_map
  exact ⟨hnodup, consumeNonces_spec hnodup (fun o ho => hids ▸ h.order_indexed o ho)
    (fun w hw => hids ▸ h.withdrawal_indexed w hw) h.consumeNonces⟩

theorem consumed_canonical (h : StepsSucceed input stages) : AccountsCanonical stages.consumed :=
  h.noncesConsumed.2.accountsCanonical (h.withdrawn_same.accountsCanonical h.drained_canonical)

/-- The trades of the batch are settled. -/
theorem tradesSettled (h : StepsSucceed input stages) :
    TradesSettled input.config stages.consumed stages.settled stages.trades := by
  have hids := h.withdrawn_same.ids
  have hids' := h.noncesConsumed.2.ids
  exact (matchAndSettle_spec h.consumed_canonical.sorted (buildValidatedBooks_spec h.books)
    (fun o ho => hids' ▸ hids ▸ h.order_indexed o ho) h.matchAndSettle).1

end StepsSucceed

/-- The steps of an accepted batch, and what the output takes from them. -/
theorem exists_steps [DecidableEq B256] {output : BatchOutput B256}
    (h : settleBatch input = .ok output) :
    ∃ stages, StepsSucceed input stages ∧ output.trades = stages.trades ∧
      output.updatedAccounts = stages.settled ∧ output.forcedWithdrawals = stages.executed ∧
      (⟨stages.settled, input.state.multiproof⟩ : StateWitness B256).root =
        .ok output.publicOutput.newStateRoot := by
  simp only [settleBatch, Outcome.bind_eq_ok, Outcome.rejectIf_eq_ok, Prod.exists, not_not,
    Except.ok.injEq] at h
  rcases h with ⟨_, hlimits, _, hconfig, _, haccounts, newDepositCursor, hdeposits, oldRoot, hroot,
    _, rfl, t₁, h₁, t₂, h₂, t₃, h₃, deposited, hdeposited, _, hforced, drained, executed, hdrained,
    t₄, h₄, _, hwithdrawals, _, horders, _, hnonces, withdrawn, hwithdrawn, consumed, hconsumed,
    books, hbooks, settled, trades, htrades, t₅, h₅, _, hempty, newRoot, hnewRoot, rfl⟩
  refine ⟨⟨deposited, drained, executed, withdrawn, consumed, books, settled, trades⟩, ?_, rfl, rfl,
    rfl, hnewRoot⟩
  exact {
    limits := hlimits
    config := hconfig
    accounts := haccounts
    deposits := ⟨newDepositCursor, hdeposits⟩
    oldRoot := hroot
    applyDeposits := hdeposited
    forcedWithdrawals := hforced
    applyForcedWithdrawals := hdrained
    withdrawals := hwithdrawals
    orders := horders
    nonces := hnonces
    applyWithdrawals := hwithdrawn
    consumeNonces := hconsumed
    books := hbooks
    matchAndSettle := htrades }

end ZkClob
