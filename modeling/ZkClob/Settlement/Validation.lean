import ZkClob.Settlement.Batch
import ZkClob.Settlement.Ledger
import Mathlib.Data.Prod.Lex

/-!
# Validation

Everything in a batch input comes from the untrusted host and is checked before
it is used.  Each check has one lemma that says what an accepted input satisfies.

Main results:

- Theorem {lit}`validateAccounts_spec`: the witnessed accounts are canonical.
- Theorems {lit}`validateOrders_spec` and {lit}`validateWithdrawals_spec`: signatures
  are valid, and indices name the accounts of their operations.
- Theorem {lit}`validateNonces_spec`: the nonces used for an account index are the
  consecutive numbers from its next nonce on.
- Theorem {lit}`buildValidatedBooks_spec`: a validated book holds orders of its market,
  buys on one side and sells on the other.
-/

namespace ZkClob

open Foundations

/-- Maximum number of configured assets and markets. -/
def MAX_ASSETS : Nat := 1000
def MAX_MARKETS : Nat := 1000

/-- The fee rate at which the whole quote amount is charged. -/
def MAX_FEE_BPS : U16 := 10000

section

variable {B256 : Type}

/-- {lit}`validate_limits`. -/
def validateLimits (input : BatchInput B256) : Outcome SettlementError Unit := do
  Outcome.rejectIf (input.state.accounts.length > MAX_TOUCHED_ACCOUNTS_PER_BATCH) .TooManyAccounts
  Outcome.rejectIf (input.orders.length > MAX_ORDERS_PER_BATCH) .TooManyOrders
  Outcome.rejectIf (input.deposits.length > MAX_DEPOSITS_PER_BATCH) .TooManyDeposits
  Outcome.rejectIf (input.withdrawals.length > MAX_WITHDRAWALS_PER_BATCH) .TooManyWithdrawals
  Outcome.rejectIf (input.forcedWithdrawals.length > MAX_FORCED_WITHDRAWALS_PER_BATCH)
    .TooManyForcedWithdrawals
  Outcome.rejectIf (input.config.assets.length > MAX_ASSETS) .TooManyAssets
  Outcome.rejectIf (input.config.markets.length > MAX_MARKETS) .TooManyMarkets
  Outcome.rejectIf (input.orderBooks.length > MAX_MARKETS) .TooManyMarkets

end

/-! ## Queues -/

/-- One iteration of {lit}`validate_deposits`. -/
def validateDeposit (config : ExchangeConfig) (expected : U64) (deposit : Deposit) :
    Outcome SettlementError U64 := do
  Outcome.rejectIf (deposit.id ≠ expected) .InvalidDepositCursor
  Outcome.rejectIf (deposit.amount = 0) .ZeroDepositAmount
  Outcome.rejectIf (config.asset deposit.asset).isNone .UnknownAsset
  Outcome.okOr (FixedWidth.checkedAdd expected 1) .DepositCursorOverflow

/-- {lit}`validate_deposits`: the cursor behind the deposits. -/
def validateDeposits (deposits : List Deposit) (oldCursor : U64) (config : ExchangeConfig) :
    Outcome SettlementError U64 :=
  deposits.foldlM (validateDeposit config) oldCursor

/-- One iteration of {lit}`validate_forced_withdrawals`. -/
def validateForcedWithdrawal (expected : U64) (request : ForcedWithdrawal) :
    Outcome SettlementError U64 := do
  Outcome.rejectIf (request.id ≠ expected) .InvalidForcedWithdrawalCursor
  Outcome.rejectIf (request.amount = 0) .ZeroForcedWithdrawalAmount
  Outcome.okOr (FixedWidth.checkedAdd expected 1) .ForcedWithdrawalCursorOverflow

/-- {lit}`validate_forced_withdrawals`. -/
def validateForcedWithdrawals (requests : List ForcedWithdrawal) (oldCursor : U64) :
    Outcome SettlementError Unit := do
  let _ ← requests.foldlM validateForcedWithdrawal oldCursor
  .ok ()

/-! ## Configuration and accounts -/

/-- The check of an id against the previous one in a strictly increasing sequence. -/
def rejectUnsorted {κ : Type} [LinearOrder κ] (previous : Option κ) (id : κ)
    (duplicate unsorted : SettlementError) : Outcome SettlementError Unit := do
  Outcome.rejectIf (previous.any fun previous => previous = id) duplicate
  Outcome.rejectIf (previous.any fun previous => previous > id) unsorted

/-- One iteration over the assets in {lit}`validate_config`. -/
def validateAsset (previous : Option AssetId) (asset : AssetConfig) :
    Outcome SettlementError (Option AssetId) := do
  Outcome.rejectIf (asset.scale = 0) .ZeroAssetScale
  rejectUnsorted previous asset.id .DuplicateAsset .UnsortedAssets
  .ok (some asset.id)

/-- One iteration over the markets in {lit}`validate_config`. -/
def validateMarket (config : ExchangeConfig) (previous : Option MarketId) (market : MarketConfig) :
    Outcome SettlementError (Option MarketId) := do
  rejectUnsorted previous market.id .DuplicateMarket .UnsortedMarkets
  Outcome.rejectIf (market.baseAsset = market.quoteAsset) .IdenticalMarketAssets
  Outcome.rejectIf
    ((config.asset market.baseAsset).isNone ∨ (config.asset market.quoteAsset).isNone) .UnknownAsset
  .ok (some market.id)

/-- {lit}`validate_config`. -/
def validateConfig (config : ExchangeConfig) (accounts : List Account) :
    Outcome SettlementError Unit := do
  let _ ← config.assets.foldlM validateAsset none
  let _ ← config.markets.foldlM (validateMarket config) none
  Outcome.rejectIf (config.fees.buyerFeeBps > MAX_FEE_BPS) .InvalidFee
  Outcome.rejectIf (¬ accounts.any fun account => account.id = config.fees.recipient)
    .MissingFeeRecipient

/-- The check of one account in {lit}`validate_accounts`. -/
def validateAccount (account : Account) : Outcome SettlementError Unit := do
  Outcome.rejectIf (account.balances.any fun balance => balance.available = 0) .ZeroBalance
  if anyAdjacent (fun a b => a.asset ≥ b.asset) account.balances then do
    Outcome.rejectIf (¬ (account.balances.map AssetBalance.asset).Nodup) .DuplicateBalance
    .error (.error .UnsortedBalances)
  else .ok ()

/-- {lit}`validate_accounts`. -/
def validateAccounts (accounts : List Account) : Outcome SettlementError Unit :=
  if anyAdjacent (fun a b => a.id ≥ b.id) accounts then do
    Outcome.rejectIf (¬ (accounts.map Account.id).Nodup) .DuplicateAccount
    .error (.error .UnsortedAccounts)
  else forM accounts validateAccount

/-! ## Signed operations -/

/-- {lit}`validate_account_index`. -/
def validateAccountIndex (accountIndex : Option U32) (accounts : List Account)
    (accountId : AccountId) : Outcome SettlementError Unit := do
  let accountIndex ← Outcome.expect accountIndex
  Outcome.rejectIf
    (¬ (accounts[accountIndex.toNat]?).any fun account => account.id = accountId) .UnknownAccount

section

variable {B256 : Type} [Sha256 B256] [Secp256k1 B256]

/-- The checks of one order in {lit}`validate_orders`. -/
def validateOrder (accounts : List Account) (config : ExchangeConfig) (domainHash : B256)
    (order : SequencedOrder) : Outcome SettlementError Unit := do
  Outcome.rejectIf (order.price = 0) .ZeroPrice
  Outcome.rejectIf (order.quantity = 0) .ZeroQuantity
  Outcome.rejectIf (¬ order.signedOrder.hasValidSignature domainHash) .InvalidOrderSignature
  validateAccountIndex order.accountIndex accounts order.trader
  Outcome.rejectIf (config.market order.marketId).isNone .UnknownMarket

/-- {lit}`validate_orders`. -/
def validateOrders (orders : List SequencedOrder) (accounts : List Account)
    (config : ExchangeConfig) (domainHash : B256) : Outcome SettlementError Unit := do
  forM orders (validateOrder accounts config domainHash)
  let sequences := sortByKey BitVec.toNat (orders.map SequencedOrder.sequence)
  Outcome.rejectIf (anyAdjacent (fun a b => a = b) sequences) .DuplicateSequence

/-- The checks of one withdrawal in {lit}`validate_withdrawals`. -/
def validateWithdrawal (accounts : List Account) (config : ExchangeConfig) (domainHash : B256)
    (withdrawal : SignedWithdrawal) : Outcome SettlementError Unit := do
  Outcome.rejectIf (withdrawal.amount = 0) .ZeroWithdrawalAmount
  Outcome.rejectIf (¬ withdrawal.hasValidSignature domainHash) .InvalidWithdrawalSignature
  validateAccountIndex withdrawal.accountIndex accounts withdrawal.account
  Outcome.rejectIf (config.asset withdrawal.asset).isNone .UnknownAsset

/-- {lit}`validate_withdrawals`. -/
def validateWithdrawals (withdrawals : List SignedWithdrawal) (accounts : List Account)
    (config : ExchangeConfig) (domainHash : B256) : Outcome SettlementError Unit :=
  forM withdrawals (validateWithdrawal accounts config domainHash)

end

/-- The account index and the nonce of every operation, orders first. -/
def operationNonces (orders : List SequencedOrder) (withdrawals : List SignedWithdrawal) :
    Outcome SettlementError (List (Nat × U64)) := do
  let orderNonces ← orders.mapM fun order => do
    let accountIndex ← Outcome.expect order.accountIndex
    .ok (accountIndex.toNat, order.nonce)
  let withdrawalNonces ← withdrawals.mapM fun withdrawal => do
    let accountIndex ← Outcome.expect withdrawal.accountIndex
    .ok (accountIndex.toNat, withdrawal.nonce)
  .ok (orderNonces ++ withdrawalNonces)

/-- One iteration over the nonces of an account in {lit}`validate_nonces`. -/
def validateNonce (expected : U64) (nonce : Nat × U64) : Outcome SettlementError U64 := do
  Outcome.rejectIf (nonce.2 ≠ expected) .InvalidNonce
  Outcome.okOr (FixedWidth.checkedAdd expected 1) .NonceOverflow

/-- The nonces of one account in {lit}`validate_nonces`. -/
def validateAccountNonces (accounts : List Account) (accountNonces : List (Nat × U64)) :
    Outcome SettlementError Unit := do
  let first ← Outcome.expect accountNonces.head?
  let account ← Outcome.expect accounts[first.1]?
  let _ ← accountNonces.foldlM validateNonce account.nextNonce
  .ok ()

/-- {lit}`validate_nonces`. -/
def validateNonces (orders : List SequencedOrder) (withdrawals : List SignedWithdrawal)
    (accounts : List Account) : Outcome SettlementError Unit := do
  let nonces ← operationNonces orders withdrawals
  let nonces := sortByKey (fun nonce => toLex (nonce.1, nonce.2.toNat)) nonces
  forM (chunkBy (fun left right => left.1 = right.1) nonces) (validateAccountNonces accounts)

/-! ## Order books -/

/-- An order book that refers to validated orders of one configured market. -/
structure ValidatedMarketBook where
  market : MarketConfig
  baseAsset : AssetConfig
  buys : List SequencedOrder
  sells : List SequencedOrder
deriving DecidableEq

/-- One iteration of {lit}`validate_book_orders`, over the seen indices and the orders
so far. -/
def validateBookOrder (marketId : MarketId) (side : Side) (orders : List SequencedOrder)
    (state : List Bool × List SequencedOrder) (index : U32) :
    Outcome SettlementError (List Bool × List SequencedOrder) := do
  let (seenIndices, validatedOrders) := state
  let order ← Outcome.okOr orders[index.toNat]? .InvalidOrderIndex
  let seen ← Outcome.expect seenIndices[index.toNat]?
  Outcome.rejectIf seen .DuplicateOrderIndex
  let seenIndices := seenIndices.set index.toNat true
  Outcome.rejectIf (order.marketId ≠ marketId) .OrderBookMarketMismatch
  Outcome.rejectIf (order.side ≠ side) .OrderBookSideMismatch
  Outcome.rejectIf
    (validatedOrders.getLast?.any fun previous => side.comparePriority previous order ≠ .lt)
    .UnsortedOrderBook
  .ok (seenIndices, validatedOrders ++ [order])

/-- {lit}`validate_book_orders`: the seen indices and the orders of one side. -/
def validateBookOrders (marketId : MarketId) (indices : List U32) (side : Side)
    (orders : List SequencedOrder) (seenIndices : List Bool) :
    Outcome SettlementError (List Bool × List SequencedOrder) :=
  indices.foldlM (validateBookOrder marketId side orders) (seenIndices, [])

/-- The state of the loop over the order books. -/
structure BooksState where
  books : List ValidatedMarketBook
  previousMarket : Option MarketId
  seenIndices : List Bool

/-- One iteration of {lit}`build_validated_books`. -/
def validateBook (orders : List SequencedOrder) (config : ExchangeConfig) (state : BooksState)
    (book : MarketOrderBook) : Outcome SettlementError BooksState := do
  Outcome.rejectIf (book.buyIndices.isEmpty ∧ book.sellIndices.isEmpty) .EmptyOrderBook
  rejectUnsorted state.previousMarket book.marketId .DuplicateMarketOrderBook
    .UnsortedMarketOrderBooks
  let market ← Outcome.okOr (config.market book.marketId) .UnknownMarket
  let baseAsset ← Outcome.okOr (config.asset market.baseAsset) .UnknownAsset
  let (seenIndices, buys) ←
    validateBookOrders book.marketId book.buyIndices .Buy orders state.seenIndices
  let (seenIndices, sells) ←
    validateBookOrders book.marketId book.sellIndices .Sell orders seenIndices
  .ok ⟨state.books ++ [⟨market, baseAsset, buys, sells⟩], some book.marketId, seenIndices⟩

/-- {lit}`build_validated_books`. -/
def buildValidatedBooks (orders : List SequencedOrder) (orderBooks : List MarketOrderBook)
    (config : ExchangeConfig) : Outcome SettlementError (List ValidatedMarketBook) := do
  let state ← orderBooks.foldlM (validateBook orders config)
    ⟨[], none, List.replicate orders.length false⟩
  Outcome.rejectIf (state.seenIndices.any fun seen => !seen) .MissingOrderIndex
  .ok state.books

/-! ## What accepted inputs satisfy -/

variable {accounts : List Account} {config : ExchangeConfig}

/-- Accepted deposits have consecutive ids from the old cursor on and positive amounts, and
the new cursor is behind them. -/
theorem validateDeposits_spec {deposits : List Deposit} {oldCursor newCursor : U64}
    (h : validateDeposits deposits oldCursor config = .ok newCursor) :
    deposits.map (fun d => d.id.toNat) = List.range' oldCursor.toNat deposits.length ∧
      newCursor.toNat = oldCursor.toNat + deposits.length ∧ ∀ d ∈ deposits, d.amount ≠ 0 := by
  induction deposits generalizing oldCursor with
  | nil =>
      simp only [validateDeposits, List.foldlM_nil, Outcome.pure_eq_ok] at h
      subst h
      simp
  | cons d deposits ih =>
      simp only [validateDeposits, List.foldlM_cons, Outcome.bind_eq_ok, validateDeposit,
        Outcome.rejectIf_eq_ok, Outcome.okOr_eq_ok, FixedWidth.checkedAdd_eq_some, not_not] at h
      rcases h with ⟨next, ⟨_, hid, _, hamount, _, _, hnext⟩, hrest⟩
      rcases ih hrest with ⟨hids, hcursor, hamounts⟩
      have hnext' : next.toNat = oldCursor.toNat + 1 := by simpa using hnext
      refine ⟨?_, ?_, ?_⟩
      · rw [List.map_cons, hids, hnext', hid, List.length_cons, List.range'_succ]
      · rw [hcursor, hnext', List.length_cons]
        omega
      · simpa using ⟨hamount, hamounts⟩

/-- Accepted requests have consecutive ids from the old cursor on and positive amounts. -/
theorem validateForcedWithdrawals_spec {requests : List ForcedWithdrawal} {oldCursor : U64}
    {u : Unit} (h : validateForcedWithdrawals requests oldCursor = .ok u) :
    requests.map (fun r => r.id.toNat) = List.range' oldCursor.toNat requests.length ∧
      oldCursor.toNat + requests.length < 2 ^ 64 ∧ ∀ r ∈ requests, r.amount ≠ 0 := by
  simp only [validateForcedWithdrawals, Outcome.bind_eq_ok] at h
  rcases h with ⟨newCursor, h, _⟩
  suffices hspec : requests.map (fun r => r.id.toNat) =
      List.range' oldCursor.toNat requests.length ∧
      newCursor.toNat = oldCursor.toNat + requests.length ∧ ∀ r ∈ requests, r.amount ≠ 0 by
    rcases hspec with ⟨hids, hcursor, hamounts⟩
    exact ⟨hids, hcursor ▸ newCursor.isLt, hamounts⟩
  induction requests generalizing oldCursor with
  | nil =>
      simp only [List.foldlM_nil, Outcome.pure_eq_ok] at h
      subst h
      simp
  | cons r requests ih =>
      simp only [List.foldlM_cons, Outcome.bind_eq_ok, validateForcedWithdrawal,
        Outcome.rejectIf_eq_ok, Outcome.okOr_eq_ok, FixedWidth.checkedAdd_eq_some, not_not] at h
      rcases h with ⟨next, ⟨_, hid, _, hamount, hnext⟩, hrest⟩
      rcases ih hrest with ⟨hids, hcursor, hamounts⟩
      have hnext' : next.toNat = oldCursor.toNat + 1 := by simpa using hnext
      refine ⟨?_, ?_, ?_⟩
      · rw [List.map_cons, hids, hnext', hid, List.length_cons, List.range'_succ]
      · rw [hcursor, hnext', List.length_cons]
        omega
      · simpa using ⟨hamount, hamounts⟩

theorem rejectUnsorted_eq_ok {κ : Type} [LinearOrder κ] {previous : Option κ} {id : κ}
    {duplicate unsorted : SettlementError} {u : Unit} :
    rejectUnsorted previous id duplicate unsorted = .ok u ↔ ∀ p, previous = some p → p < id := by
  simp only [rejectUnsorted, Outcome.bind_eq_ok, Outcome.rejectIf_eq_ok]
  cases previous with
  | none => simp
  | some p =>
      simp only [Option.any_some, decide_eq_true_eq, gt_iff_lt, not_lt, Option.some.injEq,
        forall_eq']
      constructor
      · rintro ⟨_, hne, hle⟩
        exact lt_of_le_of_ne hle hne
      · intro hlt
        exact ⟨(), hlt.ne, hlt.le⟩

/-- A loop that compares each id with the previous one accepts strictly sorted sequences. -/
theorem sortedBy_of_foldlM {α κ : Type} [LinearOrder κ] {key : α → κ}
    {f : Option κ → α → Outcome SettlementError (Option κ)}
    (hstep : ∀ previous a next, f previous a = .ok next →
      next = some (key a) ∧ ∀ p, previous = some p → p < key a)
    {l : List α} {previous next : Option κ} (h : l.foldlM f previous = .ok next) :
    SortedBy key l ∧ ∀ p, previous = some p → ∀ a ∈ l, p < key a := by
  induction l generalizing previous with
  | nil => exact ⟨SortedBy.nil, by simp⟩
  | cons a l ih =>
      rw [List.foldlM_cons, Outcome.bind_eq_ok] at h
      rcases h with ⟨mid, hmid, hrest⟩
      rcases hstep _ _ _ hmid with ⟨rfl, hlt⟩
      rcases ih hrest with ⟨hsorted, hall⟩
      refine ⟨List.pairwise_cons.mpr ⟨fun b hb => hall _ rfl b hb, hsorted⟩, fun p hp b hb => ?_⟩
      rcases List.mem_cons.mp hb with rfl | hb
      · exact hlt p hp
      · exact (hlt p hp).trans (hall _ rfl b hb)

/-- An accepted configuration: sorted assets and markets, positive scales, different known
assets in each market, a fee rate of at most one, and a witnessed fee recipient. -/
structure ValidConfig (config : ExchangeConfig) (accounts : List Account) : Prop where
  assets : SortedBy AssetConfig.id config.assets
  scales : ∀ asset ∈ config.assets, asset.scale ≠ 0
  markets : SortedBy MarketConfig.id config.markets
  distinct : ∀ market ∈ config.markets, market.baseAsset ≠ market.quoteAsset
  known : ∀ market ∈ config.markets,
    (config.asset market.baseAsset).isSome ∧ (config.asset market.quoteAsset).isSome
  fee : config.fees.buyerFeeBps.toNat ≤ 10000
  recipient : config.fees.recipient ∈ accounts.map Account.id

theorem validateConfig_spec {u : Unit} (h : validateConfig config accounts = .ok u) :
    ValidConfig config accounts := by
  simp only [validateConfig, Outcome.bind_eq_ok, Outcome.rejectIf_eq_ok] at h
  rcases h with ⟨_, hassets, _, hmarkets, _, hfee, hrecipient⟩
  have hasset : ∀ previous a next, validateAsset previous a = .ok next →
      next = some a.id ∧ (∀ p, previous = some p → p < a.id) ∧ a.scale ≠ 0 := by
    intro previous a next ha
    simp only [validateAsset, Outcome.bind_eq_ok, Outcome.rejectIf_eq_ok, rejectUnsorted_eq_ok,
      Except.ok.injEq] at ha
    rcases ha with ⟨_, hscale, _, hlt, rfl⟩
    exact ⟨rfl, hlt, hscale⟩
  have hmarket : ∀ previous m next, validateMarket config previous m = .ok next →
      next = some m.id ∧ (∀ p, previous = some p → p < m.id) ∧ m.baseAsset ≠ m.quoteAsset ∧
        (config.asset m.baseAsset).isSome ∧ (config.asset m.quoteAsset).isSome := by
    intro previous m next hm
    simp only [validateMarket, Outcome.bind_eq_ok, Outcome.rejectIf_eq_ok, rejectUnsorted_eq_ok,
      Except.ok.injEq] at hm
    rcases hm with ⟨_, hlt, _, hne, _, hknown, rfl⟩
    simp only [not_or, Option.isNone_iff_eq_none, ← Option.isSome_iff_ne_none] at hknown
    exact ⟨rfl, hlt, hne, hknown⟩
  refine ⟨?_, ?_, ?_, ?_, ?_, ?_, ?_⟩
  · exact (sortedBy_of_foldlM
      (fun p a n ha => ⟨(hasset p a n ha).1, (hasset p a n ha).2.1⟩) hassets).1
  · exact Outcome.foldlM_forall (fun p a n ha => (hasset p a n ha).2.2) hassets
  · exact (sortedBy_of_foldlM
      (fun p m n hm => ⟨(hmarket p m n hm).1, (hmarket p m n hm).2.1⟩) hmarkets).1
  · exact Outcome.foldlM_forall (fun p m n hm => (hmarket p m n hm).2.2.1) hmarkets
  · exact Outcome.foldlM_forall (fun p m n hm => (hmarket p m n hm).2.2.2) hmarkets
  · simpa [MAX_FEE_BPS, BitVec.lt_def] using hfee
  · simp only [List.any_eq_true, decide_eq_true_eq, not_not] at hrecipient
    rcases hrecipient with ⟨account, haccount, hid⟩
    exact hid ▸ List.mem_map_of_mem haccount

/-- Accepted accounts are canonical. -/
theorem validateAccounts_spec {u : Unit} (h : validateAccounts accounts = .ok u) :
    AccountsCanonical accounts := by
  unfold validateAccounts at h
  split at h
  · simp only [Outcome.bind_eq_ok] at h
    rcases h with ⟨_, _, h⟩
    cases h
  · rename_i hsorted
    refine ⟨SortedBy.of_anyAdjacent_ge (by simpa using hsorted), fun account haccount => ?_⟩
    have haccount := Outcome.forM_eq_ok.mp h account haccount
    simp only [validateAccount, Outcome.bind_eq_ok, Outcome.rejectIf_eq_ok] at haccount
    rcases haccount with ⟨_, hnonzero, hbalances⟩
    split at hbalances
    · simp only [Outcome.bind_eq_ok] at hbalances
      rcases hbalances with ⟨_, _, hbalances⟩
      cases hbalances
    · rename_i hassets
      exact ⟨SortedBy.of_anyAdjacent_ge (by simpa using hassets), by simpa using hnonzero⟩

/-- An accepted index names the account. -/
theorem validateAccountIndex_spec {accountIndex : Option U32} {accountId : AccountId} {u : Unit}
    (h : validateAccountIndex accountIndex accounts accountId = .ok u) :
    IndexedIn (accounts.map Account.id) accountIndex accountId := by
  simp only [validateAccountIndex, Outcome.bind_eq_ok, Outcome.expect_eq_ok, Outcome.rejectIf_eq_ok,
    not_not] at h
  rcases h with ⟨index, hindex, hany⟩
  rcases (Option.any_eq_true _ _).mp hany with ⟨a, ha, hid⟩
  exact ⟨index, hindex, by rw [List.getElem?_map, ha, Option.map_some, of_decide_eq_true hid]⟩

section

variable {B256 : Type} [Sha256 B256] [Secp256k1 B256] {domainHash : B256}

/-- An accepted order: positive price and quantity, signed by its trader, in a configured
market, and with an index that names the trader's account. -/
structure ValidOrder (accounts : List Account) (config : ExchangeConfig) (domainHash : B256)
    (order : SequencedOrder) : Prop where
  price : order.price ≠ 0
  quantity : order.quantity ≠ 0
  signature : order.signedOrder.hasValidSignature domainHash = true
  indexed : IndexedIn (accounts.map Account.id) order.accountIndex order.trader
  market : (config.market order.marketId).isSome

theorem validateOrders_spec {orders : List SequencedOrder} {u : Unit}
    (h : validateOrders orders accounts config domainHash = .ok u) :
    (∀ order ∈ orders, ValidOrder accounts config domainHash order) ∧
      (orders.map SequencedOrder.sequence).Nodup := by
  simp only [validateOrders, Outcome.bind_eq_ok, Outcome.forM_eq_ok, Outcome.rejectIf_eq_ok] at h
  rcases h with ⟨_, horders, hsequences⟩
  refine ⟨fun order horder => ?_, ?_⟩
  · have horder := horders order horder
    simp only [validateOrder, Outcome.bind_eq_ok, Outcome.rejectIf_eq_ok, not_not] at horder
    rcases horder with ⟨_, hprice, _, hquantity, _, hsignature, _, hindex, hmarket⟩
    refine ⟨hprice, hquantity, hsignature, validateAccountIndex_spec hindex, ?_⟩
    rw [Option.isNone_iff_eq_none, ← ne_eq, ← Option.isSome_iff_ne_none] at hmarket
    exact hmarket
  · have hsorted : SortedBy BitVec.toNat
        (sortByKey BitVec.toNat (orders.map SequencedOrder.sequence)) := by
      refine SortedBy.of_anyAdjacent_eq (sortByKey_pairwise _ _) ?_
      simpa only [Bool.not_eq_true, BitVec.toNat_inj] using hsequences
    have hnodup := hsorted.nodup_map.of_map
    exact (sortByKey_perm _ _).nodup_iff.mp hnodup

/-- An accepted withdrawal: a positive amount of a configured asset, signed by its account,
and with an index that names the account. -/
structure ValidWithdrawal (accounts : List Account) (config : ExchangeConfig) (domainHash : B256)
    (withdrawal : SignedWithdrawal) : Prop where
  amount : withdrawal.amount ≠ 0
  signature : withdrawal.hasValidSignature domainHash = true
  indexed : IndexedIn (accounts.map Account.id) withdrawal.accountIndex withdrawal.account
  asset : (config.asset withdrawal.asset).isSome

theorem validateWithdrawals_spec {withdrawals : List SignedWithdrawal} {u : Unit}
    (h : validateWithdrawals withdrawals accounts config domainHash = .ok u) :
    ∀ withdrawal ∈ withdrawals, ValidWithdrawal accounts config domainHash withdrawal := by
  intro w hw
  have hw := Outcome.forM_eq_ok.mp h w hw
  simp only [validateWithdrawal, Outcome.bind_eq_ok, Outcome.rejectIf_eq_ok, not_not] at hw
  rcases hw with ⟨_, hamount, _, hsignature, _, hindex, hasset⟩
  refine ⟨hamount, hsignature, validateAccountIndex_spec hindex, ?_⟩
  rw [Option.isNone_iff_eq_none, ← ne_eq, ← Option.isSome_iff_ne_none] at hasset
  exact hasset

end

/-! ## Nonces -/

/-- The nonces that the operations of an account use. -/
def noncesOf (orders : List SequencedOrder) (withdrawals : List SignedWithdrawal)
    (id : AccountId) : List Nat :=
  ((orders.filter fun order => order.trader = id).map fun order => order.nonce.toNat) ++
    ((withdrawals.filter fun withdrawal => withdrawal.account = id).map
      fun withdrawal => withdrawal.nonce.toNat)

/-- A loop over nonces accepts exactly the consecutive ones. -/
theorem validateNonce_foldlM {nonces : List (Nat × U64)} {expected next : U64}
    (h : nonces.foldlM validateNonce expected = .ok next) :
    nonces.map (fun nonce => nonce.2.toNat) = List.range' expected.toNat nonces.length := by
  induction nonces generalizing expected with
  | nil => rfl
  | cons n nonces ih =>
      simp only [List.foldlM_cons, Outcome.bind_eq_ok, validateNonce, Outcome.rejectIf_eq_ok,
        Outcome.okOr_eq_ok, FixedWidth.checkedAdd_eq_some, not_not] at h
      rcases h with ⟨mid, ⟨_, hn, hmid⟩, hrest⟩
      have hmid' : mid.toNat = expected.toNat + 1 := by simpa using hmid
      rw [List.map_cons, ih hrest, hmid', hn, List.length_cons, List.range'_succ]

/-- Among operations whose indices name their accounts, those of one index are those of
one account. -/
theorem filter_index_eq {α : Type} {ids : List AccountId} (hids : ids.Nodup)
    {accountIndex : α → Option U32} {id : α → AccountId} {nonce : α → U64} {l : List α}
    {m : List (Nat × U64)} (hindexed : ∀ a ∈ l, IndexedIn ids (accountIndex a) (id a))
    (h : l.mapM (fun a => do
      let index ← Outcome.expect (accountIndex a)
      .ok (index.toNat, nonce a)) = (.ok m : Outcome SettlementError _))
    {index : Nat} {account : AccountId} (hindex : ids[index]? = some account) :
    (m.filter fun p => p.1 = index).map (fun p => p.2.toNat) =
      (l.filter fun a => id a = account).map fun a => (nonce a).toNat := by
  rw [Outcome.mapM_eq_ok] at h
  induction h with
  | nil => rfl
  | @cons a p l m hap _ ih =>
      simp only [Outcome.bind_eq_ok, Outcome.expect_eq_ok, Except.ok.injEq] at hap
      rcases hap with ⟨i, hi, rfl⟩
      rcases hindexed a (by simp) with ⟨i', hi', hat⟩
      rw [hi, Option.some.injEq] at hi'
      subst hi'
      have ih := ih fun a ha => hindexed a (List.mem_cons_of_mem _ ha)
      have hiff : i.toNat = index ↔ id a = account := by
        constructor
        · rintro rfl
          rw [hat, Option.some.injEq] at hindex
          exact hindex
        · intro heq
          rw [heq] at hat
          exact (List.getElem?_inj (List.getElem?_eq_some_iff.mp hat).1 hids).mp
            (hat.trans hindex.symm)
      by_cases heq : i.toNat = index
      · simp [heq, hiff.mp heq, ih]
      · simp [heq, mt hiff.mpr heq, ih]

/-- Operations of an id without an account do not occur. -/
theorem noncesOf_eq_nil {ids : List AccountId} {id : AccountId} {orders : List SequencedOrder}
    {withdrawals : List SignedWithdrawal} (hid : id ∉ ids)
    (horders : ∀ o ∈ orders, IndexedIn ids o.accountIndex o.trader)
    (hwithdrawals : ∀ w ∈ withdrawals, IndexedIn ids w.accountIndex w.account) :
    noncesOf orders withdrawals id = [] := by
  rw [noncesOf, List.filter_eq_nil_iff.mpr, List.filter_eq_nil_iff.mpr]
  · rfl
  · intro w hw heq
    exact hid (of_decide_eq_true heq ▸ (hwithdrawals w hw).mem)
  · intro o ho heq
    exact hid (of_decide_eq_true heq ▸ (horders o ho).mem)

/-- The nonces under the index of an account are those of its operations. -/
theorem filter_operationNonces {ids : List AccountId} {id : AccountId}
    {orders : List SequencedOrder} {withdrawals : List SignedWithdrawal}
    {nonces : List (Nat × U64)} {index : Nat} (hids : ids.Nodup)
    (horders : ∀ o ∈ orders, IndexedIn ids o.accountIndex o.trader)
    (hwithdrawals : ∀ w ∈ withdrawals, IndexedIn ids w.accountIndex w.account)
    (h : operationNonces orders withdrawals = .ok nonces) (hindex : ids[index]? = some id) :
    (nonces.filter fun p => p.1 = index).map (fun p => p.2.toNat) =
      noncesOf orders withdrawals id := by
  simp only [operationNonces, Outcome.bind_eq_ok, Except.ok.injEq] at h
  rcases h with ⟨orderNonces, hon, withdrawalNonces, hwn, rfl⟩
  rw [List.filter_append, List.map_append, filter_index_eq hids horders hon hindex,
    filter_index_eq hids hwithdrawals hwn hindex]
  rfl

/-- The operations of an account use exactly the consecutive nonces from its next nonce
on, in some order. -/
theorem validateNonces_spec {orders : List SequencedOrder} {withdrawals : List SignedWithdrawal}
    {u : Unit} (hids : (accounts.map Account.id).Nodup)
    (horders : ∀ o ∈ orders, IndexedIn (accounts.map Account.id) o.accountIndex o.trader)
    (hwithdrawals : ∀ w ∈ withdrawals, IndexedIn (accounts.map Account.id) w.accountIndex w.account)
    (h : validateNonces orders withdrawals accounts = .ok u) (id : AccountId) :
    (noncesOf orders withdrawals id).Perm
      (List.range' (nonceOf accounts id) (noncesOf orders withdrawals id).length) := by
  simp only [validateNonces, Outcome.bind_eq_ok, Outcome.forM_eq_ok] at h
  rcases h with ⟨nonces, hcollected, hchunks⟩
  by_cases hmem : id ∈ accounts.map Account.id
  · rcases List.mem_iff_getElem?.mp hmem with ⟨index, hindex⟩
    have hperm := sortByKey_perm (fun n : Nat × U64 => toLex (n.1, n.2.toNat)) nonces
    have hsorted := sortByKey_lex_pairwise Prod.fst (fun n : Nat × U64 => n.2.toNat) nonces
    generalize sortByKey (fun n : Nat × U64 => toLex (n.1, n.2.toNat)) nonces = sorted
      at hperm hsorted hchunks
    -- the run of this account among the sorted nonces
    have hrun := (hperm.filter fun p => decide (p.1 = index)).map fun p => p.2.toNat
    rw [filter_operationNonces hids horders hwithdrawals hcollected hindex] at hrun
    rcases eq_or_ne (sorted.filter fun p => decide (p.1 = index)) [] with hnil | hne
    · rw [hnil] at hrun
      rw [hrun.symm.eq_nil]
      exact List.Perm.refl _
    · have hchunk := hchunks _ (filter_mem_chunkBy hsorted hne)
      simp only [validateAccountNonces, Outcome.bind_eq_ok, Outcome.expect_eq_ok] at hchunk
      rcases hchunk with ⟨first, hfirst, account, haccount, next, hfold, _⟩
      have hfirst1 : first.1 = index := by
        simpa using List.of_mem_filter (List.mem_of_head? hfirst)
      rw [hfirst1] at haccount
      have hid : account.id = id := by
        rw [List.getElem?_map, haccount, Option.map_some, Option.some.injEq] at hindex
        exact hindex
      have hnext : nonceOf accounts id = account.nextNonce.toNat := by
        rw [← hid]
        exact nonceOf_eq_nextNonce hids (List.mem_of_getElem? haccount)
      have hrange := validateNonce_foldlM hfold
      rw [hrange] at hrun
      have hlength := hrun.length_eq
      rw [List.length_range'] at hlength
      rw [← hlength, hnext]
      exact hrun.symm
  · rw [noncesOf_eq_nil hmem horders hwithdrawals]
    exact List.Perm.refl _

/-! ## Validated books -/

/-- A validated book: a configured market with its base asset, buy orders and sell orders
of that market. -/
structure ValidBook (orders : List SequencedOrder) (config : ExchangeConfig)
    (book : ValidatedMarketBook) : Prop where
  market : config.market book.market.id = some book.market
  baseAsset : config.asset book.market.baseAsset = some book.baseAsset
  buys : ∀ o ∈ book.buys, o ∈ orders ∧ o.marketId = book.market.id ∧ o.side = .Buy
  sells : ∀ o ∈ book.sells, o ∈ orders ∧ o.marketId = book.market.id ∧ o.side = .Sell

/-- One side of a validated book. -/
theorem validateBookOrders_spec {marketId : MarketId} {indices : List U32} {side : Side}
    {orders validated : List SequencedOrder} {seen seen' : List Bool}
    (h : validateBookOrders marketId indices side orders seen = .ok (seen', validated)) :
    ∀ o ∈ validated, o ∈ orders ∧ o.marketId = marketId ∧ o.side = side := by
  refine Outcome.foldlM_invariant (P := fun state : List Bool × List SequencedOrder =>
    ∀ o ∈ state.2, o ∈ orders ∧ o.marketId = marketId ∧ o.side = side) ?_ (by simp) h
  rintro ⟨seen, validated⟩ index ⟨seen', validated'⟩ _ hvalid hstep
  simp only [validateBookOrder, Outcome.bind_eq_ok, Outcome.okOr_eq_ok, Outcome.expect_eq_ok,
    Outcome.rejectIf_eq_ok, Except.ok.injEq, Prod.mk.injEq, not_not] at hstep
  rcases hstep with ⟨order, horder, _, _, _, _, _, hmarket, _, hside, _, _, _, rfl⟩
  intro o ho
  rcases List.mem_append.mp ho with ho | ho
  · exact hvalid o ho
  · rw [List.mem_singleton.mp ho]
    exact ⟨List.mem_of_getElem? horder, hmarket, hside⟩

theorem buildValidatedBooks_spec {orders : List SequencedOrder} {orderBooks : List MarketOrderBook}
    {books : List ValidatedMarketBook}
    (h : buildValidatedBooks orders orderBooks config = .ok books) :
    ∀ book ∈ books, ValidBook orders config book := by
  simp only [buildValidatedBooks, Outcome.bind_eq_ok, Except.ok.injEq] at h
  rcases h with ⟨state, hstate, _, _, rfl⟩
  refine Outcome.foldlM_invariant (P := fun state : BooksState =>
    ∀ book ∈ state.books, ValidBook orders config book) ?_ (by simp) hstate
  intro state book state' _ hvalid hstep
  simp only [validateBook, Outcome.bind_eq_ok, Outcome.okOr_eq_ok, Except.ok.injEq,
    Prod.exists] at hstep
  rcases hstep with
    ⟨_, _, _, _, market, hmarket, baseAsset, hbase, _, buys, hbuys, _, sells, hsells, rfl⟩
  have hid := (ExchangeConfig.market_eq_some hmarket).2
  intro b hb
  rcases List.mem_append.mp hb with hb | hb
  · exact hvalid b hb
  · rw [List.mem_singleton.mp hb]
    exact ⟨by rw [hid, hmarket], hbase, by rw [hid]; exact validateBookOrders_spec hbuys,
      by rw [hid]; exact validateBookOrders_spec hsells⟩

end ZkClob
