import Mathlib.Algebra.Order.BigOperators.Group.Finset
import Mathlib.Algebra.Order.BigOperators.Group.List
import ZkClob.Settlement.BookUniqueness
import ZkClob.Settlement.Conservation
import ZkClob.Settlement.TrackerRedundancy
import ZkClob.Settlement.WellFormed

/-!
# Credits fit

Before anything is applied, the tracker adds up every balance and every deposit of an asset in
128 bits.  From then on the supply of an asset never grows beyond that baseline, and a credit
only returns to one account what another one holds or has just paid; so no credit overflows.
In a trade the buyer is credited with the base asset before the seller is debited, which is safe
when the seller holds it.

Main results:

- Theorem {lit}`failsWith_applyDeposits_of_fits`: deposits within the baseline do not overflow.
- Theorem {lit}`updateTraders_ne_overflow`: nor do the three credits of a trade whose seller holds
  what is sold, while the supply of every asset fits.
- Theorem {lit}`Matching.matchCall`: the supply fits at every trade that a run makes.
- Theorem {lit}`credits_fit`: both for every batch whose baseline fits.
-/

namespace ZkClob

open Foundations

/-- Every fault but an arithmetic overflow. -/
def NotOverflow (fault : Fault SettlementError) : Prop :=
  fault ≠ .error .ArithmeticOverflow

variable {accounts accounts' : List Account}

/-! ## One credit -/

/-- An entry holds at most the total of its asset. -/
theorem available_le_total {account : Account} {balance : AssetBalance}
    (h : balance ∈ account.balances) : balance.available.toNat ≤ account.total balance.asset := by
  rw [← AssetTracker.tally_balances]
  exact le_tally (f := fun b : AssetBalance => b.available.toNat) h (by simp)

/-- A credit does not overflow when the total of the asset stays within 128 bits. -/
theorem failsWith_credit_of_fits {account : Account} {asset : AssetId} {amount : U128}
    (h : account.total asset + amount.toNat < 2 ^ 128) :
    Outcome.FailsWith NotOverflow (account.credit asset amount) := by
  unfold Account.credit
  split
  · exact Outcome.failsWith_ok _
  · split
    · rename_i index hindex
      rcases binarySearchBy_ok hindex with ⟨balance, hbalance, hkey⟩
      have hasset : balance.asset = asset := compare_eq_iff_eq.mp hkey
      have hle := available_le_total (List.mem_of_getElem? hbalance)
      rw [hasset] at hle
      rw [hbalance, Outcome.expect_some, Outcome.ok_bind]
      have hsum : FixedWidth.checkedAdd balance.available amount =
          some (BitVec.ofNat 128 (balance.available.toNat + amount.toNat)) := by
        rw [FixedWidth.checkedAdd_eq_some, BitVec.toNat_ofNat, Nat.mod_eq_of_lt (by omega)]
      simp only [hsum]
      exact Outcome.failsWith_ok _
    · rename_i index hindex
      refine Outcome.FailsWith.bind
        (Outcome.failsWith_insertAt (binarySearchBy_error_le hindex)) ?_
      intro balances _
      exact Outcome.failsWith_ok _

/-- The same for a credit in place. -/
theorem failsWith_modifyAt_credit_of_fits {index : Nat} {asset : AssetId} {amount : U128}
    (h : ∀ account, accounts[index]? = some account →
      account.total asset + amount.toNat < 2 ^ 128) :
    Outcome.FailsWith NotOverflow
      (Outcome.modifyAt accounts index (·.credit asset amount)) := by
  unfold Outcome.modifyAt
  refine Outcome.FailsWith.bind (Outcome.failsWith_expect fun hpanic => nomatch hpanic) ?_
  intro account haccount
  apply (failsWith_credit_of_fits (h account (Outcome.expect_eq_ok.mp haccount))).bind
  intro account' _
  exact Outcome.failsWith_ok _

/-! ## The supply -/

/-- Each account holds part of the supply. -/
theorem total_le_supply {account : Account} (h : account ∈ accounts) (asset : AssetId) :
    account.total asset ≤ supply accounts asset :=
  List.single_le_sum (fun _ _ => Nat.zero_le _) _ (List.mem_map.mpr ⟨account, h, rfl⟩)

/-- Two different ids hold parts of the supply. -/
theorem holding_add_le_supply {id id' : AccountId} (hne : id ≠ id') (asset : AssetId) :
    holding accounts id asset + holding accounts id' asset ≤ supply accounts asset := by
  rw [supply_eq_sum_holding, ← Finset.sum_pair (f := fun i => holding accounts i asset) hne]
  exact Finset.sum_le_sum_of_subset (Finset.subset_univ _)

/-- A debit in place takes its amount out of the supply. -/
theorem modifyAt_debit_supply {index : Nat} {asset : AssetId} {amount : U128}
    (h : Outcome.modifyAt accounts index (·.debit asset amount) = .ok accounts') (x : AssetId) :
    supply accounts x = supply accounts' x + if x = asset then amount.toNat else 0 := by
  rcases Outcome.modifyAt_eq_ok.mp h with ⟨xs, account, ys, account', rfl, _, hdebit, rfl⟩
  have := Account.debit_total hdebit x
  simp only [supply, List.map_append, List.map_cons, List.sum_append, List.sum_cons]
  omega

/-- A credit in place adds its amount to the supply. -/
theorem modifyAt_credit_supply {index : Nat} {asset : AssetId} {amount : U128}
    (h : Outcome.modifyAt accounts index (·.credit asset amount) = .ok accounts') (x : AssetId) :
    supply accounts' x = supply accounts x + if x = asset then amount.toNat else 0 := by
  rcases Outcome.modifyAt_eq_ok.mp h with ⟨xs, account, ys, account', rfl, _, hcredit, rfl⟩
  have := Account.credit_total hcredit x
  simp only [supply, List.map_append, List.map_cons, List.sum_append, List.sum_cons]
  omega

/-- The supply of every asset fits in 128 bits. -/
def SupplyFits (accounts : List Account) : Prop :=
  ∀ asset, supply accounts asset < 2 ^ 128

/-! ## Deposits -/

/-- A deposit that keeps the supply of its asset within 128 bits does not overflow. -/
theorem failsWith_applyDeposit_of_fits {deposit : Deposit}
    (h : supply accounts deposit.asset + deposit.amount.toNat < 2 ^ 128) :
    Outcome.FailsWith NotOverflow (applyDeposit accounts deposit) := by
  have hlocate : Outcome.FailsWith NotOverflow (locateDepositAccount accounts deposit) := by
    unfold locateDepositAccount
    refine Outcome.FailsWith.bind (Outcome.failsWith_expect fun hpanic => nomatch hpanic) ?_
    intro hint _
    dsimp only
    split
    · exact Outcome.failsWith_ok _
    · split <;> exact Outcome.failsWith_ok _
  have hcredit : ∀ (held : List Account) (index : Nat),
      supply held deposit.asset = supply accounts deposit.asset →
      Outcome.FailsWith NotOverflow
        (Outcome.modifyAt held index (·.credit deposit.asset deposit.amount)) := by
    intro held index hheld
    refine failsWith_modifyAt_credit_of_fits fun account haccount => ?_
    have := total_le_supply (List.mem_of_getElem? haccount) deposit.asset
    omega
  unfold applyDeposit
  apply hlocate.bind
  intro place _
  cases place with
  | ok index => exact hcredit accounts index rfl
  | error index =>
      refine Outcome.FailsWith.bind
        (Outcome.failsWith_rejectIf fun hoverflow => nomatch hoverflow) ?_
      intro _ _
      refine Outcome.FailsWith.bind ?_ fun held hheld => hcredit held index ?_
      · unfold Outcome.insertAt
        split
        · exact Outcome.failsWith_ok _
        · intro fault hfault
          cases hfault
          exact fun hpanic => nomatch hpanic
      · unfold Outcome.insertAt at hheld
        split at hheld
        · rename_i hle
          cases hheld
          rw [supply_perm (insertIdx_perm _ hle)]
          simp [supply, Account.total]
        · cases hheld

/-- Deposits that keep the supply of every asset within 128 bits do not overflow. -/
theorem failsWith_applyDeposits_of_fits {deposits : List Deposit}
    (hcan : AccountsCanonical accounts)
    (h : ∀ x, supply accounts x + tally (fun d => d.asset = x) (fun d => d.amount.toNat) deposits <
      2 ^ 128) :
    Outcome.FailsWith NotOverflow (applyDeposits accounts deposits) := by
  induction deposits generalizing accounts with
  | nil => exact Outcome.failsWith_ok _
  | cons deposit deposits ih =>
      unfold applyDeposits
      rw [List.foldlM_cons]
      have hfirst := h deposit.asset
      simp only [tally_cons, decide_true, if_true] at hfirst
      refine Outcome.FailsWith.bind (failsWith_applyDeposit_of_fits (by omega)) ?_
      intro mid hmid
      have hspec := applyDeposit_spec hcan hmid
      refine ih hspec.accountsCanonical fun x => ?_
      have hx := h x
      have hsupply := hspec.supply_eq x
      simp only [tally_cons, tally_nil] at hx hsupply
      omega

/-! ## One trade -/

/-- The amounts of a trade: the indices of buyer and seller, the quote amount, the fee, and what
the buyer pays. -/
structure TradeAmounts where
  buyerIndex : U32
  sellerIndex : U32
  quoteAmount : U128
  quoteFee : U128
  buyerDebit : U128

/-- {lit}`settle_trade` up to the point where it updates the accounts. -/
def tradeAmounts (baseAsset : AssetConfig) (feeConfig : FeeConfig) (buy sell : SequencedOrder)
    (quantity price : U128) : Outcome SettlementError TradeAmounts := do
  Outcome.rejectIf (buy.trader = sell.trader) .SelfTrade
  let buyerIndex ← Outcome.expect buy.accountIndex
  let sellerIndex ← Outcome.expect sell.accountIndex
  let product ← Outcome.okOr (FixedWidth.checkedMul quantity price) .ArithmeticOverflow
  let quoteAmount ← Outcome.expect (FixedWidth.checkedDiv product baseAsset.scale)
  Outcome.rejectIf (quoteAmount = 0) .TradeValueRoundsToZero
  let charged ← Outcome.okOr
    (FixedWidth.checkedMul quoteAmount (feeConfig.buyerFeeBps.setWidth 128)) .ArithmeticOverflow
  let quoteFee ← Outcome.expect (FixedWidth.checkedDiv charged BPS_DENOMINATOR)
  let buyerDebit ← Outcome.okOr (FixedWidth.checkedAdd quoteAmount quoteFee) .ArithmeticOverflow
  .ok ⟨buyerIndex, sellerIndex, quoteAmount, quoteFee, buyerDebit⟩

/-- The updates of {lit}`settle_trade`.  Its debits can only fail for lack of balance, so an
arithmetic overflow here is the overflow of one of the three credits. -/
def updateTraders (accounts : List Account) (market : MarketConfig) (feeRecipientIndex : Nat)
    (quantity : U128) (amounts : TradeAmounts) : Outcome SettlementError (List Account) := do
  let accounts ← Outcome.modifyAt accounts amounts.buyerIndex.toNat
      (·.debit market.quoteAsset amounts.buyerDebit)
  let accounts ← Outcome.modifyAt accounts amounts.buyerIndex.toNat
      (·.credit market.baseAsset quantity)
  let accounts ← Outcome.modifyAt accounts amounts.sellerIndex.toNat
      (·.debit market.baseAsset quantity)
  let accounts ← Outcome.modifyAt accounts amounts.sellerIndex.toNat
      (·.credit market.quoteAsset amounts.quoteAmount)
  Outcome.modifyAt accounts feeRecipientIndex (·.credit market.quoteAsset amounts.quoteFee)

variable {market : MarketConfig} {baseAsset : AssetConfig} {feeConfig : FeeConfig}
  {feeRecipientIndex : Nat} {buy sell : SequencedOrder} {quantity price : U128}

/-- A trade is settled by computing its amounts and updating the accounts. -/
theorem settleTrade_eq : settleTrade accounts market baseAsset feeConfig feeRecipientIndex buy sell
    quantity price = (do
      let amounts ← tradeAmounts baseAsset feeConfig buy sell quantity price
      let accounts ← updateTraders accounts market feeRecipientIndex quantity amounts
      .ok (accounts, ⟨market.id, buy.trader, sell.trader, price, quantity, amounts.quoteAmount,
        amounts.quoteFee⟩)) := by
  simp only [settleTrade, tradeAmounts, updateTraders, bind_assoc, Outcome.ok_bind]

/-- What the amounts of a trade satisfy. -/
theorem tradeAmounts_eq_ok {amounts : TradeAmounts}
    (h : tradeAmounts baseAsset feeConfig buy sell quantity price = .ok amounts) :
    buy.trader ≠ sell.trader ∧ buy.accountIndex = some amounts.buyerIndex ∧
      sell.accountIndex = some amounts.sellerIndex ∧
      amounts.buyerDebit.toNat = amounts.quoteAmount.toNat + amounts.quoteFee.toNat := by
  simp only [tradeAmounts, Outcome.bind_eq_ok, Outcome.expect_eq_ok, Outcome.okOr_eq_ok,
    Outcome.rejectIf_eq_ok, FixedWidth.checkedAdd_eq_some, Except.ok.injEq] at h
  rcases h with ⟨_, hself, _, hbuyer, _, hseller, _, _, _, _, _, _, _, _, _, _, _, hdebit, rfl⟩
  exact ⟨hself, hbuyer, hseller, hdebit⟩

/-- A trade keeps the supply of every asset. -/
theorem updateTraders_supply {amounts : TradeAmounts}
    (hdebit : amounts.buyerDebit.toNat = amounts.quoteAmount.toNat + amounts.quoteFee.toNat)
    (h : updateTraders accounts market feeRecipientIndex quantity amounts = .ok accounts')
    (x : AssetId) : supply accounts' x = supply accounts x := by
  simp only [updateTraders, Outcome.bind_eq_ok] at h
  rcases h with ⟨a₁, h₁, a₂, h₂, a₃, h₃, a₄, h₄, h₅⟩
  have e₁ := modifyAt_debit_supply h₁ x
  have e₂ := modifyAt_credit_supply h₂ x
  have e₃ := modifyAt_debit_supply h₃ x
  have e₄ := modifyAt_credit_supply h₄ x
  have e₅ := modifyAt_credit_supply h₅ x
  rw [hdebit] at e₁
  split_ifs at e₁ e₂ e₃ e₄ e₅ <;> omega

/-- The three credits of a trade do not overflow when the seller holds what is sold. -/
theorem updateTraders_ne_overflow {amounts : TradeAmounts} {buyer seller : AccountId}
    (hfits : SupplyFits accounts) (hne : buyer ≠ seller)
    (hbuyer : (accounts.map Account.id)[amounts.buyerIndex.toNat]? = some buyer)
    (hdebit : amounts.buyerDebit.toNat = amounts.quoteAmount.toNat + amounts.quoteFee.toNat)
    (hholds : quantity.toNat ≤ holding accounts seller market.baseAsset) :
    Outcome.FailsWith NotOverflow
      (updateTraders accounts market feeRecipientIndex quantity amounts) := by
  have hdebits : ∀ (held : List Account) (index : Nat) (asset : AssetId) (amount : U128),
      Outcome.FailsWith NotOverflow (Outcome.modifyAt held index (·.debit asset amount)) :=
    fun held index asset amount =>
      Outcome.failsWith_modifyAt (fun hpanic => nomatch hpanic) fun _ =>
        failsWith_debit fun _ hoverflow => nomatch hoverflow
  unfold updateTraders
  apply (hdebits _ _ _ _).bind
  intro a₁ h₁
  rcases modifyAt_debit h₁ hbuyer with ⟨s₁, e₁⟩
  have u₁ := modifyAt_debit_supply h₁
  -- what the buyer gets fits beside what the seller still holds
  refine Outcome.FailsWith.bind (failsWith_modifyAt_credit_of_fits fun account haccount => ?_) ?_
  · have hid : account.id = buyer := by
      have hmap := s₁.ids ▸ hbuyer
      rw [List.getElem?_map, haccount] at hmap
      simpa using hmap
    have htotal : account.total market.baseAsset ≤ holding a₁ buyer market.baseAsset :=
      le_tally (f := fun a : Account => a.total market.baseAsset)
        (List.mem_of_getElem? haccount) (by simp [hid])
    have hless := e₁ buyer market.baseAsset
    have hboth : holding accounts buyer market.baseAsset +
        holding accounts seller market.baseAsset ≤ supply accounts market.baseAsset :=
      holding_add_le_supply hne market.baseAsset
    have := hfits market.baseAsset
    omega
  intro a₂ h₂
  have u₂ := modifyAt_credit_supply h₂
  apply (hdebits _ _ _ _).bind
  intro a₃ h₃
  have u₃ := modifyAt_debit_supply h₃
  have hquote : supply a₃ market.quoteAsset + amounts.quoteAmount.toNat +
      amounts.quoteFee.toNat = supply accounts market.quoteAsset := by
    have e₁ := u₁ market.quoteAsset
    have e₂ := u₂ market.quoteAsset
    have e₃ := u₃ market.quoteAsset
    rw [if_pos rfl, hdebit] at e₁
    split_ifs at e₂ e₃ <;> omega
  have hfit := hfits market.quoteAsset
  -- quote amount and fee fit because the buyer has just paid them
  refine Outcome.FailsWith.bind (failsWith_modifyAt_credit_of_fits fun account haccount => ?_) ?_
  · have := total_le_supply (List.mem_of_getElem? haccount) market.quoteAsset
    omega
  intro a₄ h₄
  have e₄ := modifyAt_credit_supply h₄ market.quoteAsset
  rw [if_pos rfl] at e₄
  refine failsWith_modifyAt_credit_of_fits fun account haccount => ?_
  have := total_le_supply (List.mem_of_getElem? haccount) market.quoteAsset
  omega

/-! ## The trades of a run -/

/-- A call of {lit}`settle_trade`: the accounts at that point and the arguments. -/
structure TradeCall where
  accounts : List Account
  market : MarketConfig
  baseAsset : AssetConfig
  buy : SequencedOrder
  sell : SequencedOrder
  quantity : U128
  price : U128

/-- The call itself. -/
def TradeCall.run (call : TradeCall) (feeConfig : FeeConfig) (feeRecipientIndex : Nat) :
    Outcome SettlementError (List Account × Trade) :=
  settleTrade call.accounts call.market call.baseAsset feeConfig feeRecipientIndex call.buy
    call.sell call.quantity call.price

/-- The seller of a call holds what is to be sold. -/
def TradeCall.SellerHolds (call : TradeCall) : Prop :=
  call.quantity.toNat ≤ balanceOf call.accounts call.sell.trader call.market.baseAsset

/-- No credit that a call makes overflows. -/
def TradeCall.CreditsFit (call : TradeCall) (feeConfig : FeeConfig) (feeRecipientIndex : Nat) :
    Prop :=
  ∀ amounts, tradeAmounts call.baseAsset feeConfig call.buy call.sell call.quantity call.price =
      .ok amounts →
    updateTraders call.accounts call.market feeRecipientIndex call.quantity amounts ≠
      .error (.error .ArithmeticOverflow)

/-- The calls of {lit}`settle_trade` in the loop of {lit}`match_market`. -/
inductive LoopCall (market : MarketConfig) (baseAsset : AssetConfig) (feeConfig : FeeConfig)
    (feeRecipientIndex : Nat) :
    List Account → List SequencedOrder → List SequencedOrder → U128 → U128 → TradeCall → Prop where
  | here {accounts : List Account} {buy sell : SequencedOrder} {buys sells : List SequencedOrder}
      {buyRemaining sellRemaining : U128} (hcross : ¬ buy.price < sell.price) :
      LoopCall market baseAsset feeConfig feeRecipientIndex accounts (buy :: buys) (sell :: sells)
        buyRemaining sellRemaining
        ⟨accounts, market, baseAsset, buy, sell,
          FixedWidth.min (remainingOf buyRemaining buy) (remainingOf sellRemaining sell),
          matchPrice buy sell⟩
  | later {accounts accounts' : List Account} {buy sell : SequencedOrder}
      {buys sells : List SequencedOrder} {buyRemaining sellRemaining buyLeft sellLeft : U128}
      {trade : Trade} {call : TradeCall} (hcross : ¬ buy.price < sell.price)
      (htrade : settleTrade accounts market baseAsset feeConfig feeRecipientIndex buy sell
        (FixedWidth.min (remainingOf buyRemaining buy) (remainingOf sellRemaining sell))
        (matchPrice buy sell) = .ok (accounts', trade))
      (hbuy : buyLeft = remainingOf buyRemaining buy -
        FixedWidth.min (remainingOf buyRemaining buy) (remainingOf sellRemaining sell))
      (hsell : sellLeft = remainingOf sellRemaining sell -
        FixedWidth.min (remainingOf buyRemaining buy) (remainingOf sellRemaining sell))
      (hcall : LoopCall market baseAsset feeConfig feeRecipientIndex accounts'
        (advance buyLeft buy buys) (advance sellLeft sell sells) buyLeft sellLeft call) :
      LoopCall market baseAsset feeConfig feeRecipientIndex accounts (buy :: buys) (sell :: sells)
        buyRemaining sellRemaining call

/-- The calls of {lit}`settle_trade` over all books of {lit}`match_and_settle`. -/
inductive MatchCall (feeConfig : FeeConfig) (feeRecipientIndex : Nat) :
    List Account → List ValidatedMarketBook → TradeCall → Prop where
  | here {accounts : List Account} {book : ValidatedMarketBook} {books : List ValidatedMarketBook}
      {call : TradeCall}
      (hcall : LoopCall book.market book.baseAsset feeConfig feeRecipientIndex accounts book.buys
        book.sells 0 0 call) :
      MatchCall feeConfig feeRecipientIndex accounts (book :: books) call
  | later {accounts accounts' : List Account} {book : ValidatedMarketBook}
      {books : List ValidatedMarketBook} {trades : List Trade} {call : TradeCall}
      (hbook : matchMarket accounts book.market book.baseAsset feeConfig feeRecipientIndex
        book.buys book.sells = .ok (accounts', trades))
      (hcall : MatchCall feeConfig feeRecipientIndex accounts' books call) :
      MatchCall feeConfig feeRecipientIndex accounts (book :: books) call

/-! ## What a run keeps -/

/-- What matching keeps: the ids of the accounts, their canonical form, and a supply that fits. -/
structure Matching (ids : List AccountId) (accounts : List Account) : Prop where
  ids : accounts.map Account.id = ids
  canonical : AccountsCanonical accounts
  fits : SupplyFits accounts

variable {ids : List AccountId}

/-- Updates in place keep the accounts what they are. -/
theorem updateTraders_same {amounts : TradeAmounts}
    (h : updateTraders accounts market feeRecipientIndex quantity amounts = .ok accounts') :
    SameAccounts accounts accounts' := by
  simp only [updateTraders, Outcome.bind_eq_ok] at h
  rcases h with ⟨a₁, h₁, a₂, h₂, a₃, h₃, a₄, h₄, h₅⟩
  have s₁ := modifyAt_same h₁ fun _ _ h => Account.debit_spec h
  have s₂ := modifyAt_same h₂ fun _ _ h => Account.credit_spec h
  have s₃ := modifyAt_same h₃ fun _ _ h => Account.debit_spec h
  have s₄ := modifyAt_same h₄ fun _ _ h => Account.credit_spec h
  have s₅ := modifyAt_same h₅ fun _ _ h => Account.credit_spec h
  exact s₁.trans (s₂.trans (s₃.trans (s₄.trans s₅)))

namespace Matching

/-- A settled trade keeps it. -/
theorem settleTrade {trade : Trade} (hkept : Matching ids accounts)
    (h : settleTrade accounts market baseAsset feeConfig feeRecipientIndex buy sell quantity price =
      .ok (accounts', trade)) : Matching ids accounts' := by
  rw [settleTrade_eq] at h
  simp only [Outcome.bind_eq_ok, Except.ok.injEq, Prod.mk.injEq] at h
  rcases h with ⟨amounts, hamounts, _, hupdate, rfl, _⟩
  have hsame := updateTraders_same hupdate
  refine ⟨hsame.ids.trans hkept.ids, hsame.accountsCanonical hkept.canonical, fun asset => ?_⟩
  rw [updateTraders_supply (tradeAmounts_eq_ok hamounts).2.2.2 hupdate]
  exact hkept.fits asset

/-- A settled side of the loop keeps it. -/
theorem matchLoop {buys sells : List SequencedOrder} {buyRemaining sellRemaining : U128}
    {trades : List Trade} (hkept : Matching ids accounts)
    (h : matchLoop market baseAsset feeConfig feeRecipientIndex accounts buys sells buyRemaining
      sellRemaining = .ok (accounts', trades)) : Matching ids accounts' := by
  induction accounts, buys, sells, buyRemaining, sellRemaining using matchLoop.induct
    generalizing accounts' trades with
  | case1 accounts _ _ buy buys sell sells hprice =>
      rw [ZkClob.matchLoop, if_pos hprice] at h
      cases h
      exact hkept
  | case2 accounts _ _ buy buys sell sells _ _ hprice =>
      rename_i ih
      rw [ZkClob.matchLoop, if_neg hprice] at h
      simp only [Outcome.bind_eq_ok, Prod.exists, Except.ok.injEq, Prod.mk.injEq] at h
      rcases h with ⟨mid, trade, htrade, _, rest, hrest, rfl, _⟩
      exact ih mid (hkept.settleTrade htrade) hrest
  | case3 accounts buys sells _ _ hdone =>
      rw [ZkClob.matchLoop] at h
      · cases h
        exact hkept
      · exact hdone

/-- Every call of the loop starts from accounts that keep it, between orders of the two sides. -/
theorem loopCall {buys sells : List SequencedOrder} {buyRemaining sellRemaining : U128}
    {call : TradeCall} (hkept : Matching ids accounts)
    (hcall : LoopCall market baseAsset feeConfig feeRecipientIndex accounts buys sells buyRemaining
      sellRemaining call) :
    Matching ids call.accounts ∧ call.buy ∈ buys ∧ call.sell ∈ sells := by
  induction hcall with
  | here hcross => exact ⟨hkept, List.mem_cons_self, List.mem_cons_self⟩
  | later hcross htrade hbuy hsell hcall ih =>
      rcases ih (hkept.settleTrade htrade) with ⟨hkept', hbuyMem, hsellMem⟩
      exact ⟨hkept', mem_of_mem_advance hbuyMem, mem_of_mem_advance hsellMem⟩

/-- Every call of the matching starts from accounts that keep it, between orders of the books. -/
theorem matchCall {books : List ValidatedMarketBook} {call : TradeCall}
    (hkept : Matching ids accounts)
    (hcall : MatchCall feeConfig feeRecipientIndex accounts books call) :
    Matching ids call.accounts ∧
      ∃ book ∈ books, call.buy ∈ book.buys ∧ call.sell ∈ book.sells := by
  induction hcall with
  | here hcall =>
      rcases hkept.loopCall hcall with ⟨hkept', hbuy, hsell⟩
      exact ⟨hkept', _, List.mem_cons_self, hbuy, hsell⟩
  | later hbook hcall ih =>
      rcases ih (hkept.matchLoop hbook) with ⟨hkept', book, hmem, hsides⟩
      exact ⟨hkept', book, List.mem_cons_of_mem _ hmem, hsides⟩

/-- The credits of a call fit, when its buyer is indexed and its seller holds what is sold. -/
theorem creditsFit {call : TradeCall} (hkept : Matching ids call.accounts)
    (hbuy : IndexedIn ids call.buy.accountIndex call.buy.trader) (hholds : call.SellerHolds) :
    call.CreditsFit feeConfig feeRecipientIndex := by
  intro amounts hamounts
  rcases tradeAmounts_eq_ok hamounts with ⟨hne, hindex, _, hdebit⟩
  rcases hbuy with ⟨index, hindex', hbuyer⟩
  rw [hindex, Option.some.injEq] at hindex'
  subst hindex'
  have hbuyer' : (call.accounts.map Account.id)[amounts.buyerIndex.toNat]? =
      some call.buy.trader := hkept.ids ▸ hbuyer
  have hseller : call.quantity.toNat ≤
      holding call.accounts call.sell.trader call.market.baseAsset := by
    rw [← balanceOf_eq_holding hkept.canonical]
    exact hholds
  intro hoverflow
  exact updateTraders_ne_overflow hkept.fits hne hbuyer' hdebit hseller _ hoverflow rfl

end Matching

/-! ## Whole batches -/

section

variable {B256 : Type} [Sha256 B256] [Secp256k1 B256]

/-- A run of {lit}`settle_batch` comes to the matching with these accounts. -/
structure ReachesMatching (input : BatchInput B256) (deposited drained withdrawn : List Account)
    (executed : List ForcedWithdrawal) (accounts : List Account) : Prop where
  applyDeposits : applyDeposits input.state.accounts input.deposits = .ok deposited
  applyForcedWithdrawals : applyForcedWithdrawals deposited input.forcedWithdrawals =
    .ok (drained, executed)
  withdrawals : validateWithdrawals input.withdrawals drained input.config
    (hash input.domain : B256) = .ok ()
  orders : validateOrders input.orders drained input.config (hash input.domain : B256) = .ok ()
  applyWithdrawals : applyWithdrawals drained input.withdrawals = .ok withdrawn
  consumeNonces : consumeNonces withdrawn input.orders input.withdrawals = .ok accounts

/-- The baseline of the tracker bounds the supply with the deposits. -/
theorem supply_add_deposits_lt {deposits : List Deposit} {t₁ t₂ : AssetTracker}
    (h₁ : AssetTracker.default.addAccounts accounts = .ok t₁)
    (h₂ : t₁.addDeposits deposits = .ok t₂) (x : AssetId) :
    supply accounts x + tally (fun d => d.asset = x) (fun d => d.amount.toNat) deposits <
      2 ^ 128 := by
  have haccounts := AssetTracker.addAccounts_total h₁ x
  have hdeposits := AssetTracker.foldlM_add_total h₂ x
  rw [AssetTracker.total_default] at haccounts
  have hlt : t₂.total x < 2 ^ 128 := BitVec.isLt _
  omega

/-- Accounts that reach the matching keep what it needs. -/
theorem ReachesMatching.matching {input : BatchInput B256}
    {deposited drained withdrawn : List Account} {executed : List ForcedWithdrawal}
    (h : ReachesMatching input deposited drained withdrawn executed accounts)
    (hcan : AccountsCanonical input.state.accounts) {t₁ t₂ : AssetTracker}
    (h₁ : AssetTracker.default.addAccounts input.state.accounts = .ok t₁)
    (h₂ : t₁.addDeposits input.deposits = .ok t₂) :
    Matching (drained.map Account.id) accounts := by
  have hdeposited := applyDeposits_spec hcan h.applyDeposits
  rcases applyForcedWithdrawals_spec hdeposited.accountsCanonical h.applyForcedWithdrawals with
    ⟨hdrainedSame, hdrained, _⟩
  have hdrainedCan := hdrainedSame.accountsCanonical hdeposited.accountsCanonical
  have hindexed : ∀ w ∈ input.withdrawals,
      IndexedIn (drained.map Account.id) w.accountIndex w.account :=
    fun w hw => (validateWithdrawals_spec h.withdrawals w hw).indexed
  have horders : ∀ o ∈ input.orders, IndexedIn (drained.map Account.id) o.accountIndex o.trader :=
    fun o ho => ((validateOrders_spec h.orders).1 o ho).indexed
  rcases applyWithdrawals_spec hindexed h.applyWithdrawals with ⟨hsame, hwithdrawn⟩
  have hwithdrawnCan := hsame.accountsCanonical hdrainedCan
  have hconsumed := consumeNonces_spec hwithdrawnCan.sorted.nodup_map
    (fun o ho => hsame.ids ▸ horders o ho) (fun w hw => hsame.ids ▸ hindexed w hw) h.consumeNonces
  refine ⟨hconsumed.ids.trans hsame.ids, hconsumed.accountsCanonical hwithdrawnCan, fun x => ?_⟩
  have hbaseline := supply_add_deposits_lt h₁ h₂ x
  have e₁ := hdeposited.supply_eq x
  have e₂ := supply_eq_of_drained fun id => hdrained id x
  have e₃ := supply_eq_of_withdrawn fun id => hwithdrawn id x
  have e₄ := hconsumed.supply_eq x
  omega

/-- Once accounts and deposits have been added to the tracker, no credit of the deposits
overflows, and no credit of a trade whose seller holds what is sold, at any point of any run of
the matching over books of the orders of the batch. -/
theorem credits_fit {input : BatchInput B256} {t₁ t₂ : AssetTracker}
    (haccounts : validateAccounts input.state.accounts = .ok ())
    (h₁ : AssetTracker.default.addAccounts input.state.accounts = .ok t₁)
    (h₂ : t₁.addDeposits input.deposits = .ok t₂) :
    applyDeposits input.state.accounts input.deposits ≠ .error (.error .ArithmeticOverflow) ∧
      ∀ deposited drained withdrawn executed accounts,
        ReachesMatching input deposited drained withdrawn executed accounts →
        ∀ books : List ValidatedMarketBook,
          (∀ book ∈ books, ∀ o ∈ book.buys ++ book.sells, o ∈ input.orders) →
          ∀ feeConfig feeRecipientIndex call,
            MatchCall feeConfig feeRecipientIndex accounts books call → call.SellerHolds →
            call.CreditsFit feeConfig feeRecipientIndex := by
  have hcan := validateAccounts_spec haccounts
  constructor
  · intro hoverflow
    exact failsWith_applyDeposits_of_fits hcan (supply_add_deposits_lt h₁ h₂) _ hoverflow rfl
  · intro deposited drained withdrawn executed accounts hreached books hbooks feeConfig
      feeRecipientIndex call hcall hholds
    rcases (hreached.matching hcan h₁ h₂).matchCall hcall with
      ⟨hkept, book, hbook, hbuy, _⟩
    have horder := hbooks book hbook call.buy (List.mem_append_left _ hbuy)
    exact hkept.creditsFit ((validateOrders_spec hreached.orders).1 _ horder).indexed hholds

end

/-! ## The small market -/

/-- The accounts of the small market with the nonces of its two orders consumed. -/
def marketConsumed : List Account :=
  [⟨FixedBytes.replicate 20 1, [], 0⟩,
    ⟨FixedBytes.replicate 20 2, [⟨FixedBytes.replicate 20 7, 5⟩], 4⟩,
    ⟨FixedBytes.replicate 20 3, [⟨FixedBytes.replicate 20 8, 9⟩], 1⟩]

/-- The one trade of the small market. -/
def marketCall : TradeCall where
  accounts := marketConsumed
  market := marketBook.market
  baseAsset := marketBook.baseAsset
  buy := marketOrder .Buy 3 0 3 2 1
  sell := marketOrder .Sell 2 3 2 1 0
  quantity := 1
  price := 2

theorem reachesMatching_marketBatch :
    @ReachesMatching IdealDigest _ testSecp256k1 marketBatch marketAccounts marketAccounts
      marketAccounts [] marketConsumed := by
  apply @ReachesMatching.mk IdealDigest _ testSecp256k1
  all_goals decide +kernel

/-- The credits of the one trade of the small market fit. -/
theorem credits_fit_marketBatch :
    ∃ t₁ t₂, AssetTracker.default.addAccounts marketBatch.state.accounts = .ok t₁ ∧
      t₁.addDeposits marketBatch.deposits = .ok t₂ ∧
      applyDeposits marketBatch.state.accounts marketBatch.deposits ≠
        .error (.error .ArithmeticOverflow) ∧
      MatchCall marketConfig.fees 0 marketConsumed [marketBook] marketCall ∧
      marketCall.CreditsFit marketConfig.fees 0 := by
  have hcall : MatchCall marketConfig.fees 0 marketConsumed [marketBook] marketCall :=
    .here (.here (by decide))
  rcases Outcome.exists_of_isOk (show (AssetTracker.default.addAccounts
    marketBatch.state.accounts).isOk = true by decide +kernel) with ⟨t₁, h₁⟩
  rcases @credits_fit IdealDigest _ testSecp256k1 marketBatch t₁ t₁ (by decide +kernel) h₁ rfl with
    ⟨hdeposits, hcredits⟩
  refine ⟨t₁, t₁, h₁, rfl, hdeposits, hcall, ?_⟩
  exact hcredits _ _ _ _ _ reachesMatching_marketBatch [marketBook] (by decide) _ _ _ hcall
    (by unfold TradeCall.SellerHolds; decide +kernel)

end ZkClob
