import ZkClob.Host.AccountTree
import ZkClob.Settlement.Validation
import Mathlib.Data.List.Sort

/-!
# The batch builder of the host

The builder collects deposits, forced withdrawals, orders and withdrawals one by
one, rejects what the guest would reject, and finally attaches to every item the
position that its account will have in the guest.  A rejected call leaves the
builder unchanged.
-/

namespace ZkClob

open Foundations

/-- {lit}`BatchBuilder`.  Sets of sequences and nonces hold the numbers. -/
structure BatchBuilder where
  state : AccountTree
  config : ExchangeConfig
  domain : SigningDomain
  batchId : U64
  oldDepositCursor : U64
  deposits : List Deposit
  oldForcedWithdrawalCursor : U64
  forcedWithdrawals : List ForcedWithdrawal
  orders : List SequencedOrder
  withdrawals : List SignedWithdrawal
  touchedAccounts : OrderedSet AccountId
  sequences : OrderedSet Nat
  nonces : OrderedMap AccountId (OrderedSet Nat)
  books : OrderedMap MarketId (List U32 × List U32)

namespace Deposit

/-- {lit}`Deposit::with_account_index`. -/
def withAccountIndex (self : Deposit) (accountIndex : U32) : Deposit :=
  { self with accountIndex := some accountIndex }

end Deposit

/-- {lit}`ForcedWithdrawal::with_account_index`. -/
def ForcedWithdrawal.withAccountIndex (self : ForcedWithdrawal) (accountIndex : U32) :
    ForcedWithdrawal :=
  { self with accountIndex := some accountIndex }

/-- {lit}`SignedOperation::with_account_index`. -/
def SignedOperation.withAccountIndex {O : Type} (self : SignedOperation O) (accountIndex : U32) :
    SignedOperation O :=
  { self with accountIndex := some accountIndex }

/-- {lit}`SequencedOrder::with_account_index`. -/
def SequencedOrder.withAccountIndex (self : SequencedOrder) (accountIndex : U32) : SequencedOrder :=
  { self with signedOrder := self.signedOrder.withAccountIndex accountIndex }

namespace BatchBuilder

/-- {lit}`BatchBuilder::new`: the fee recipient is touched by every batch. -/
def new (state : AccountTree) (config : ExchangeConfig) (domain : SigningDomain) (batchId : U64)
    (oldDepositCursor oldForcedWithdrawalCursor : U64) : BatchBuilder where
  state
  config
  domain
  batchId
  oldDepositCursor
  deposits := []
  oldForcedWithdrawalCursor
  forcedWithdrawals := []
  orders := []
  withdrawals := []
  touchedAccounts := OrderedSet.add .empty config.fees.recipient
  sequences := .empty
  nonces := .empty
  books := .empty

/-- The check on the number of touched accounts that every call makes. -/
def checkTouched (self : BatchBuilder) (account : AccountId) : Outcome BatchBuildError Unit :=
  Outcome.rejectIf (¬ self.touchedAccounts.contains account ∧
    self.touchedAccounts.len ≥ MAX_TOUCHED_ACCOUNTS_PER_BATCH) .TooManyAccounts

/-- {lit}`BatchBuilder::deposit`. -/
def deposit (self : BatchBuilder) (deposit : Deposit) : Outcome BatchBuildError BatchBuilder := do
  Outcome.rejectIf (self.deposits.length ≥ MAX_DEPOSITS_PER_BATCH) .TooManyDeposits
  let expected ← Outcome.okOr
    (FixedWidth.checkedAdd self.oldDepositCursor (BitVec.ofNat 64 self.deposits.length))
    .DepositCursorOverflow
  Outcome.rejectIf (deposit.id ≠ expected) (.InvalidDepositCursor expected deposit.id)
  Outcome.rejectIf (deposit.amount = 0) .ZeroDepositAmount
  Outcome.rejectIf (self.config.asset deposit.asset).isNone (.UnknownAsset deposit.asset)
  self.checkTouched deposit.account
  .ok { self with
    touchedAccounts := self.touchedAccounts.add deposit.account
    deposits := self.deposits ++ [deposit] }

/-- {lit}`BatchBuilder::forced_withdraw`: unknown accounts and assets are accepted. -/
def forcedWithdraw (self : BatchBuilder) (request : ForcedWithdrawal) :
    Outcome BatchBuildError BatchBuilder := do
  Outcome.rejectIf (self.forcedWithdrawals.length ≥ MAX_FORCED_WITHDRAWALS_PER_BATCH)
    .TooManyForcedWithdrawals
  let expected ← Outcome.okOr
    (FixedWidth.checkedAdd self.oldForcedWithdrawalCursor
      (BitVec.ofNat 64 self.forcedWithdrawals.length))
    .ForcedWithdrawalCursorOverflow
  Outcome.rejectIf (request.id ≠ expected) (.InvalidForcedWithdrawalCursor expected request.id)
  Outcome.rejectIf (request.amount = 0) .ZeroForcedWithdrawalAmount
  self.checkTouched request.account
  .ok { self with
    touchedAccounts := self.touchedAccounts.add request.account
    forcedWithdrawals := self.forcedWithdrawals ++ [request] }

/-- The next nonce of an account, zero when the tree does not hold it. -/
def nextNonce (self : BatchBuilder) (account : AccountId) : U64 :=
  match self.state.account account with
  | some account => account.nextNonce
  | none => 0

/-- The nonces that the accepted operations of an account use. -/
def usedNonces (self : BatchBuilder) (account : AccountId) : OrderedSet Nat :=
  (self.nonces.get account).getD .empty

/-- {lit}`BatchBuilder::order`. -/
def order (self : BatchBuilder) (order : SequencedOrder) :
    Outcome BatchBuildError BatchBuilder := do
  Outcome.rejectIf (self.orders.length ≥ MAX_ORDERS_PER_BATCH) .TooManyOrders
  Outcome.rejectIf (order.price = 0) .ZeroPrice
  Outcome.rejectIf (order.quantity = 0) .ZeroQuantity
  Outcome.rejectIf ((self.state.account order.trader).isNone ∧
    ¬ self.deposits.any fun deposit => deposit.account = order.trader)
      (.UnknownAccount order.trader)
  Outcome.rejectIf (self.config.markets.all fun market => market.id ≠ order.marketId)
    (.UnknownMarket order.marketId)
  Outcome.rejectIf (self.sequences.contains order.sequence.toNat)
    (.DuplicateSequence order.sequence)
  Outcome.rejectIf (order.nonce < self.nextNonce order.trader) (.InvalidNonce order.trader)
  Outcome.rejectIf ((self.usedNonces order.trader).contains order.nonce.toNat)
    (.DuplicateNonce order.trader order.nonce)
  self.checkTouched order.trader
  let index ← Outcome.okOr (FixedWidth.ofNat? 32 self.orders.length) .OrderIndexOverflow
  let (buys, sells) := (self.books.get order.marketId).getD ([], [])
  let book := match order.side with
    | .Buy => (buys ++ [index], sells)
    | .Sell => (buys, sells ++ [index])
  .ok { self with
    sequences := self.sequences.add order.sequence.toNat
    nonces := self.nonces.insert order.trader ((self.usedNonces order.trader).add order.nonce.toNat)
    touchedAccounts := self.touchedAccounts.add order.trader
    books := self.books.insert order.marketId book
    orders := self.orders ++ [order] }

/-- What the accepted withdrawals take of an asset out of an account. -/
def alreadyWithdrawing (self : BatchBuilder) (account : AccountId) (asset : AssetId) :
    Outcome BatchBuildError U128 :=
  (self.withdrawals.filter fun existing =>
      existing.account = account ∧ existing.asset = asset).foldlM
    (fun total existing => Outcome.okOr
    (FixedWidth.checkedAdd total existing.amount) .ArithmeticOverflow)
    0

/-- {lit}`BatchBuilder::withdraw`. -/
def withdraw (self : BatchBuilder) (withdrawal : SignedWithdrawal) :
    Outcome BatchBuildError BatchBuilder := do
  Outcome.rejectIf (self.withdrawals.length ≥ MAX_WITHDRAWALS_PER_BATCH) .TooManyWithdrawals
  Outcome.rejectIf (withdrawal.amount = 0) .ZeroWithdrawalAmount
  Outcome.rejectIf (self.config.asset withdrawal.asset).isNone (.UnknownAsset withdrawal.asset)
  let account ← Outcome.okOr (self.state.account withdrawal.account)
      (.UnknownAccount withdrawal.account)
  let alreadyWithdrawing ← self.alreadyWithdrawing withdrawal.account withdrawal.asset
  let required ← Outcome.okOr (FixedWidth.checkedAdd alreadyWithdrawing withdrawal.amount)
    .ArithmeticOverflow
  let available := account.balance withdrawal.asset
  Outcome.rejectIf (available < required)
    (.InsufficientBalance withdrawal.account withdrawal.asset available required)
  Outcome.rejectIf (withdrawal.nonce < account.nextNonce) (.InvalidNonce withdrawal.account)
  Outcome.rejectIf ((self.usedNonces withdrawal.account).contains withdrawal.nonce.toNat)
    (.DuplicateNonce withdrawal.account withdrawal.nonce)
  self.checkTouched withdrawal.account
  .ok { self with
    nonces := self.nonces.insert withdrawal.account
      ((self.usedNonces withdrawal.account).add withdrawal.nonce.toNat)
    touchedAccounts := self.touchedAccounts.add withdrawal.account
    withdrawals := self.withdrawals ++ [withdrawal] }

/-! ## Building -/

/-- The check that an account uses consecutive nonces from its next nonce on. -/
def checkNonces (self : BatchBuilder) (account : AccountId) (nonces : OrderedSet Nat) :
    Outcome BatchBuildError U64 :=
  nonces.keys.foldlM (fun expected nonce => do
    Outcome.rejectIf (nonce ≠ expected.toNat) (.InvalidNonce account)
    Outcome.okOr (FixedWidth.checkedAdd expected 1) (.InvalidNonce account))
    (self.nextNonce account)

/-- The closure {lit}`account_index` of {lit}`BatchBuilder::build`: the rank of an account
among the touched ones. -/
def accountIndex (sortedAccounts : List AccountId) (account : AccountId) :
    Outcome BatchBuildError U32 :=
  match binarySearchByKey (fun a => a) account sortedAccounts with
  | .ok index => .ok (BitVec.ofNat 32 index)
  | .error _ => .error .panic

/-- Sort the indices of one side of a book by the priority of their orders. -/
def sortBook (side : Side) (orders : List SequencedOrder) (indices : List U32) :
    Outcome BatchBuildError (List U32) := do
  let entries ← indices.mapM fun index => do
    let order ← Outcome.expect orders[index.toNat]?
    .ok (index, order)
  let entries := entries.insertionSort fun left right => (side.comparePriority left.2 right.2).isLE
  .ok (entries.map Prod.fst)

/-- {lit}`BatchBuilder::build`. -/
def build {B256 : Type} [Sha256 B256] (self : BatchBuilder) :
    Outcome BatchBuildError (BatchInput B256) := do
  forM self.nonces.entries fun (account, nonces) => do
    let _ ← self.checkNonces account nonces
    .ok ()
  let stateWitness ← self.state.witness self.touchedAccounts
  let sortedAccounts := self.touchedAccounts.keys
  let deposits ← self.deposits.mapM fun deposit => do
    let index ← accountIndex sortedAccounts deposit.account
    .ok (deposit.withAccountIndex index)
  let forcedWithdrawals ← self.forcedWithdrawals.mapM fun request => do
    let index ← accountIndex sortedAccounts request.account
    .ok (request.withAccountIndex index)
  let orders ← self.orders.mapM fun order => do
    let index ← accountIndex sortedAccounts order.trader
    .ok (order.withAccountIndex index)
  let withdrawals ← self.withdrawals.mapM fun withdrawal => do
    let index ← accountIndex sortedAccounts withdrawal.account
    .ok (withdrawal.withAccountIndex index)
  let orderBooks ← self.books.entries.mapM fun (marketId, (buys, sells)) => do
    let buys ← sortBook .Buy orders buys
    let sells ← sortBook .Sell orders sells
    .ok ⟨marketId, buys, sells⟩
  let root ← self.state.root
  .ok {
    domain := self.domain
    batchId := self.batchId
    expectedOldStateRoot := root
    state := stateWitness
    oldDepositCursor := self.oldDepositCursor
    deposits
    oldForcedWithdrawalCursor := self.oldForcedWithdrawalCursor
    forcedWithdrawals
    orders
    withdrawals
    orderBooks
    config := self.config }

/-! ## Runs -/

/-- A call of the builder. -/
inductive Call where
  | deposit (deposit : Deposit)
  | forcedWithdraw (request : ForcedWithdrawal)
  | order (order : SequencedOrder)
  | withdraw (withdrawal : SignedWithdrawal)

/-- One call. -/
def call (self : BatchBuilder) : Call → Outcome BatchBuildError BatchBuilder
  | .deposit deposit => self.deposit deposit
  | .forcedWithdraw request => self.forcedWithdraw request
  | .order order => self.order order
  | .withdraw withdrawal => self.withdraw withdrawal

/-- The builder after a call, accepted or rejected. -/
def step (self : BatchBuilder) (c : Call) : BatchBuilder :=
  match self.call c with
  | .ok next => next
  | .error _ => self

/-- The builder after a sequence of calls. -/
def run (self : BatchBuilder) (calls : List Call) : BatchBuilder :=
  calls.foldl step self

end BatchBuilder

end ZkClob
