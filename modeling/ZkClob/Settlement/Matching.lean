import ZkClob.Settlement.Validation

/-!
# Matching and settlement of trades

A validated book is matched head against head; every match is settled at once.
Both sides keep the unfilled part of their head order, and since a match fills at
least one of the two heads, the loop ends.

Main results:

- Theorem {lit}`settleTrade_spec`: a trade moves quote and fee out of the buyer, base
  into the buyer, base out of the seller, quote into the seller, and the fee into
  the recipient.
- Theorem {lit}`matchMarket_spec`: the same for all trades of a book, each between a buy
  and a sell order of the book.
- Theorem {lit}`matchAndSettle_spec`: the ledger after all books.
-/

namespace ZkClob

open Foundations

/-- {lit}`settle_trade`: the accounts and the trade. -/
def settleTrade (accounts : List Account) (market : MarketConfig) (baseAsset : AssetConfig)
    (feeConfig : FeeConfig) (feeRecipientIndex : Nat) (buy sell : SequencedOrder)
    (quantity price : U128) : Outcome SettlementError (List Account × Trade) := do
  Outcome.rejectIf (buy.trader = sell.trader) .SelfTrade
  let buyerIndex ← Outcome.expect buy.accountIndex
  let sellerIndex ← Outcome.expect sell.accountIndex
  let product ← Outcome.okOr (FixedWidth.checkedMul quantity price) .ArithmeticOverflow
  let quoteAmount ← Outcome.expect (FixedWidth.checkedDiv product baseAsset.scale)
  Outcome.rejectIf (quoteAmount = 0) .TradeValueRoundsToZero
  let charged ← Outcome.okOr
    (FixedWidth.checkedMul quoteAmount (feeConfig.buyerFeeBps.setWidth 128)) .ArithmeticOverflow
  let quoteFee ← Outcome.expect (FixedWidth.checkedDiv charged BPS_DENOMINATOR)
  let buyerDebit ← Outcome.okOr (FixedWidth.checkedAdd quoteAmount quoteFee) .ArithmeticOverflow
  let accounts ← Outcome.modifyAt accounts buyerIndex.toNat (·.debit market.quoteAsset buyerDebit)
  let accounts ← Outcome.modifyAt accounts buyerIndex.toNat (·.credit market.baseAsset quantity)
  let accounts ← Outcome.modifyAt accounts sellerIndex.toNat (·.debit market.baseAsset quantity)
  let accounts ← Outcome.modifyAt accounts sellerIndex.toNat
      (·.credit market.quoteAsset quoteAmount)
  let accounts ← Outcome.modifyAt accounts feeRecipientIndex (·.credit market.quoteAsset quoteFee)
  .ok (accounts, ⟨market.id, buy.trader, sell.trader, price, quantity, quoteAmount, quoteFee⟩)

/-- The quantity of the head match: a remaining quantity of zero stands for a head that
has not been touched yet. -/
def remainingOf (remaining : U128) (order : SequencedOrder) : U128 :=
  if remaining = 0 then order.quantity else remaining

/-- The price of a match is that of the earlier order. -/
def matchPrice (buy sell : SequencedOrder) : U128 :=
  if buy.sequence < sell.sequence then buy.price else sell.price

/-- The orders left on a side: the head leaves when it is filled. -/
def advance (remaining : U128) (order : SequencedOrder) (rest : List SequencedOrder) :
    List SequencedOrder :=
  if remaining = 0 then rest else order :: rest

theorem length_advance_le (remaining : U128) (order : SequencedOrder) (rest : List SequencedOrder) :
    (advance remaining order rest).length ≤ rest.length + 1 := by
  unfold advance
  split <;> simp

/-- The smaller of two remaining quantities leaves one of them empty. -/
theorem sub_min_eq_zero (a b : U128) :
    a - FixedWidth.min a b = 0 ∨ b - FixedWidth.min a b = 0 := by
  unfold FixedWidth.min
  split
  · exact Or.inl (by simp)
  · exact Or.inr (by simp)

/-- A match fills at least one head. -/
theorem length_advance_lt (a b : U128) (buy sell : SequencedOrder)
    (buys sells : List SequencedOrder) :
    (advance (a - FixedWidth.min a b) buy buys).length +
        (advance (b - FixedWidth.min a b) sell sells).length <
      (buy :: buys).length + (sell :: sells).length := by
  have hbuy := length_advance_le (a - FixedWidth.min a b) buy buys
  have hsell := length_advance_le (b - FixedWidth.min a b) sell sells
  simp only [List.length_cons]
  rcases sub_min_eq_zero a b with h | h
  · have : (advance (a - FixedWidth.min a b) buy buys).length = buys.length := by
      rw [h, advance, if_pos rfl]
    omega
  · have : (advance (b - FixedWidth.min a b) sell sells).length = sells.length := by
      rw [h, advance, if_pos rfl]
    omega

/-- The loop of {lit}`match_market` from the current heads and their remaining
quantities on. -/
def matchLoop (market : MarketConfig) (baseAsset : AssetConfig) (feeConfig : FeeConfig)
    (feeRecipientIndex : Nat) (accounts : List Account) (buys sells : List SequencedOrder)
    (buyRemaining sellRemaining : U128) : Outcome SettlementError (List Account × List Trade) :=
  match buys, sells with
  | buy :: buys, sell :: sells =>
      let buyRemaining := remainingOf buyRemaining buy
      let sellRemaining := remainingOf sellRemaining sell
      if buy.price < sell.price then .ok (accounts, [])
      else do
        let quantity := FixedWidth.min buyRemaining sellRemaining
        let price := matchPrice buy sell
        let (accounts, trade) ←
          settleTrade accounts market baseAsset feeConfig feeRecipientIndex buy sell quantity price
        let (accounts, trades) ←
          matchLoop market baseAsset feeConfig feeRecipientIndex accounts
            (advance (buyRemaining - quantity) buy buys)
            (advance (sellRemaining - quantity) sell sells)
            (buyRemaining - quantity) (sellRemaining - quantity)
        .ok (accounts, trade :: trades)
  | _, _ => .ok (accounts, [])
termination_by buys.length + sells.length
decreasing_by exact length_advance_lt _ _ _ _ _ _

/-- {lit}`match_market`: the accounts and the trades of one book. -/
def matchMarket (accounts : List Account) (market : MarketConfig) (baseAsset : AssetConfig)
    (feeConfig : FeeConfig) (feeRecipientIndex : Nat) (buys sells : List SequencedOrder) :
    Outcome SettlementError (List Account × List Trade) :=
  matchLoop market baseAsset feeConfig feeRecipientIndex accounts buys sells 0 0

/-- The books of {lit}`match_and_settle`, one after the other. -/
def matchBooks (feeConfig : FeeConfig) (feeRecipientIndex : Nat) (accounts : List Account) :
    List ValidatedMarketBook → Outcome SettlementError (List Account × List Trade)
  | [] => .ok (accounts, [])
  | book :: books => do
      let (accounts, trades) ← matchMarket accounts book.market book.baseAsset feeConfig
        feeRecipientIndex book.buys book.sells
      let (accounts, rest) ← matchBooks feeConfig feeRecipientIndex accounts books
      .ok (accounts, trades ++ rest)

/-- {lit}`match_and_settle`. -/
def matchAndSettle (accounts : List Account) (books : List ValidatedMarketBook)
    (config : ExchangeConfig) : Outcome SettlementError (List Account × List Trade) :=
  match binarySearchByKey Account.id config.fees.recipient accounts with
  | .error _ => .error (.error .MissingFeeRecipient)
  | .ok feeRecipientIndex => matchBooks config.fees feeRecipientIndex accounts books

/-! ## What trades move -/

/-- The base asset of a configured market. -/
def ExchangeConfig.baseAssetOf (config : ExchangeConfig) (id : MarketId) : Option AssetId :=
  (config.market id).map MarketConfig.baseAsset

/-- The quote asset of a configured market. -/
def ExchangeConfig.quoteAssetOf (config : ExchangeConfig) (id : MarketId) : Option AssetId :=
  (config.market id).map MarketConfig.quoteAsset

/-- Base quantities of the trades in which an id buys an asset. -/
def boughtBase (config : ExchangeConfig) (trades : List Trade) (id : AccountId)
    (asset : AssetId) : Nat :=
  tally (fun t => t.buyer = id ∧ config.baseAssetOf t.marketId = some asset)
    (fun t => t.quantity.toNat) trades

/-- Quote amounts with fees of the trades in which an id pays in an asset. -/
def paidQuote (config : ExchangeConfig) (trades : List Trade) (id : AccountId)
    (asset : AssetId) : Nat :=
  tally (fun t => t.buyer = id ∧ config.quoteAssetOf t.marketId = some asset)
    (fun t => t.quoteAmount.toNat + t.quoteFee.toNat) trades

/-- Base quantities of the trades in which an id sells an asset. -/
def soldBase (config : ExchangeConfig) (trades : List Trade) (id : AccountId)
    (asset : AssetId) : Nat :=
  tally (fun t => t.seller = id ∧ config.baseAssetOf t.marketId = some asset)
    (fun t => t.quantity.toNat) trades

/-- Quote amounts of the trades in which an id is paid in an asset. -/
def receivedQuote (config : ExchangeConfig) (trades : List Trade) (id : AccountId)
    (asset : AssetId) :
    Nat :=
  tally (fun t => t.seller = id ∧ config.quoteAssetOf t.marketId = some asset)
    (fun t => t.quoteAmount.toNat) trades

/-- Fees of the trades in an asset, when the id is the fee recipient. -/
def receivedFees (config : ExchangeConfig) (trades : List Trade) (id : AccountId)
    (asset : AssetId) :
    Nat :=
  tally (fun t => config.fees.recipient = id ∧ config.quoteAssetOf t.marketId = some asset)
    (fun t => t.quoteFee.toNat) trades

/-- A trade between a buy and a sell order of its market among the given orders. -/
structure TradeOf (buys sells : List SequencedOrder) (trade : Trade) : Prop where
  buy : ∃ o ∈ buys, o.trader = trade.buyer
  sell : ∃ o ∈ sells, o.trader = trade.seller

/-- What settling a sequence of trades does to the accounts. -/
structure TradesSettled (config : ExchangeConfig) (accounts accounts' : List Account)
    (trades : List Trade) : Prop where
  same : SameAccounts accounts accounts'
  holding : ∀ id asset,
    holding accounts' id asset + paidQuote config trades id asset +
      soldBase config trades id asset =
      holding accounts id asset + boughtBase config trades id asset +
        receivedQuote config trades id asset + receivedFees config trades id asset

namespace TradesSettled

variable {config : ExchangeConfig} {accounts accounts' accounts'' : List Account}
  {trades trades' : List Trade}

theorem nil : TradesSettled config accounts accounts [] :=
  ⟨SameAccounts.refl _, fun _ _ => rfl⟩

theorem append (h : TradesSettled config accounts accounts' trades)
    (h' : TradesSettled config accounts' accounts'' trades') :
    TradesSettled config accounts accounts'' (trades ++ trades') := by
  refine ⟨h.same.trans h'.same, fun id asset => ?_⟩
  have hfirst := h.holding id asset
  have hsecond := h'.holding id asset
  simp only [boughtBase, paidQuote, soldBase, receivedQuote, receivedFees, tally_append] at *
  omega

end TradesSettled

variable {config : ExchangeConfig} {market : MarketConfig} {baseAsset : AssetConfig}
  {accounts accounts' : List Account} {feeRecipientIndex : Nat} {buy sell : SequencedOrder}
  {quantity price : U128} {trade : Trade} {buys sells : List SequencedOrder} {trades : List Trade}

/-- A trade moves its amounts between the buyer, the seller and the fee recipient. -/
theorem settleTrade_spec (hmarket : config.market market.id = some market)
    (hbuy : IndexedIn (accounts.map Account.id) buy.accountIndex buy.trader)
    (hsell : IndexedIn (accounts.map Account.id) sell.accountIndex sell.trader)
    (hfee : (accounts.map Account.id)[feeRecipientIndex]? = some config.fees.recipient)
    (h : settleTrade accounts market baseAsset config.fees feeRecipientIndex buy sell quantity
      price = .ok (accounts', trade)) :
    TradesSettled config accounts accounts' [trade] ∧ trade.marketId = market.id ∧
      trade.buyer = buy.trader ∧ trade.seller = sell.trader := by
  simp only [settleTrade, Outcome.bind_eq_ok, Outcome.expect_eq_ok, Outcome.okOr_eq_ok,
    FixedWidth.checkedAdd_eq_some, Except.ok.injEq, Prod.mk.injEq] at h
  rcases h with
    ⟨_, _, buyerIndex, hbuyerIndex, sellerIndex, hsellerIndex, _, _, quoteAmount, _, _, _, _, _,
      quoteFee, _, buyerDebit, hdebit, a₁, h₁, a₂, h₂, a₃, h₃, a₄, h₄, a₅, h₅, rfl, rfl⟩
  rcases hbuy with ⟨i, hi, hbuyer⟩
  rcases hsell with ⟨j, hj, hseller⟩
  rw [hbuyerIndex, Option.some.injEq] at hi
  rw [hsellerIndex, Option.some.injEq] at hj
  subst hi hj
  -- the five updates in place, each at the index of its account
  rcases modifyAt_debit h₁ hbuyer with ⟨s₁, e₁⟩
  rcases modifyAt_credit h₂ (s₁.ids ▸ hbuyer) with ⟨s₂, e₂⟩
  have t₂ := s₁.trans s₂
  rcases modifyAt_debit h₃ (t₂.ids ▸ hseller) with ⟨s₃, e₃⟩
  have t₃ := t₂.trans s₃
  rcases modifyAt_credit h₄ (t₃.ids ▸ hseller) with ⟨s₄, e₄⟩
  have t₄ := t₃.trans s₄
  rcases modifyAt_credit h₅ (t₄.ids ▸ hfee) with ⟨s₅, e₅⟩
  refine ⟨⟨t₄.trans s₅, fun id asset => ?_⟩, rfl, rfl, rfl⟩
  specialize e₁ id asset
  rw [hdebit] at e₁
  specialize e₂ id asset
  specialize e₃ id asset
  specialize e₄ id asset
  specialize e₅ id asset
  simp only [boughtBase, paidQuote, soldBase, receivedQuote, receivedFees, tally_cons, tally_nil,
    ExchangeConfig.baseAssetOf, ExchangeConfig.quoteAssetOf, hmarket, Option.map_some,
    Option.some.injEq, decide_eq_true_eq, Nat.add_zero]
  omega

theorem mem_of_mem_advance {remaining : U128} {order o : SequencedOrder}
    {rest : List SequencedOrder}
    (h : o ∈ advance remaining order rest) : o ∈ order :: rest := by
  unfold advance at h
  split at h
  · exact List.mem_cons_of_mem _ h
  · exact h

/-- All trades of a book, each between a buy and a sell order of the book. -/
theorem matchLoop_spec {buyRemaining sellRemaining : U128}
    (hmarket : config.market market.id = some market)
    (hbuys : ∀ o ∈ buys, IndexedIn (accounts.map Account.id) o.accountIndex o.trader)
    (hsells : ∀ o ∈ sells, IndexedIn (accounts.map Account.id) o.accountIndex o.trader)
    (hfee : (accounts.map Account.id)[feeRecipientIndex]? = some config.fees.recipient)
    (h : matchLoop market baseAsset config.fees feeRecipientIndex accounts buys sells buyRemaining
      sellRemaining = .ok (accounts', trades)) :
    TradesSettled config accounts accounts' trades ∧
      ∀ t ∈ trades, t.marketId = market.id ∧ TradeOf buys sells t := by
  induction accounts, buys, sells, buyRemaining, sellRemaining using matchLoop.induct
    generalizing accounts' trades with
  | case1 accounts _ _ buy buys sell sells hprice =>
      rw [matchLoop, if_pos hprice] at h
      cases h
      exact ⟨TradesSettled.nil, by simp⟩
  | case2 accounts _ _ buy buys sell sells _ _ hprice =>
      rename_i ih
      rw [matchLoop, if_neg hprice] at h
      simp only [Outcome.bind_eq_ok, Prod.exists, Except.ok.injEq, Prod.mk.injEq] at h
      rcases h with ⟨mid, trade, htrade, _, rest, hrest, rfl, rfl⟩
      rcases settleTrade_spec hmarket (hbuys buy (by simp)) (hsells sell (by simp)) hfee htrade with
        ⟨hsettled, hmarketId, hbuyer, hseller⟩
      have hids := hsettled.same.ids
      obtain ⟨hsettled', hsides⟩ := ih mid
        (fun o ho => hids ▸ hbuys o (mem_of_mem_advance ho))
        (fun o ho => hids ▸ hsells o (mem_of_mem_advance ho)) (hids ▸ hfee) hrest
      refine ⟨hsettled.append hsettled', ?_⟩
      intro t ht
      rcases List.mem_cons.mp ht with rfl | ht
      · exact ⟨hmarketId, ⟨buy, by simp, hbuyer.symm⟩, ⟨sell, by simp, hseller.symm⟩⟩
      · rcases hsides t ht with ⟨hid, ⟨b, hb, hbt⟩, ⟨s, hs, hst⟩⟩
        exact ⟨hid, ⟨b, mem_of_mem_advance hb, hbt⟩, ⟨s, mem_of_mem_advance hs, hst⟩⟩
  | case3 accounts buys sells _ _ hdone =>
      rw [matchLoop] at h
      · cases h
        exact ⟨TradesSettled.nil, by simp⟩
      · exact hdone

variable {orders : List SequencedOrder} {books : List ValidatedMarketBook}

/-- A trade between a buy and a sell order of its market. -/
structure TradeSides (orders : List SequencedOrder) (trade : Trade) : Prop where
  buy : ∃ o ∈ orders, o.trader = trade.buyer ∧ o.marketId = trade.marketId ∧ o.side = .Buy
  sell : ∃ o ∈ orders, o.trader = trade.seller ∧ o.marketId = trade.marketId ∧ o.side = .Sell

/-- The trades of all books. -/
theorem matchBooks_spec (hbooks : ∀ book ∈ books, ValidBook orders config book)
    (horders : ∀ o ∈ orders, IndexedIn (accounts.map Account.id) o.accountIndex o.trader)
    (hfee : (accounts.map Account.id)[feeRecipientIndex]? = some config.fees.recipient)
    (h : matchBooks config.fees feeRecipientIndex accounts books = .ok (accounts', trades)) :
    TradesSettled config accounts accounts' trades ∧ ∀ t ∈ trades, TradeSides orders t := by
  induction books generalizing accounts trades with
  | nil =>
      rw [matchBooks] at h
      cases h
      exact ⟨TradesSettled.nil, by simp⟩
  | cons book books ih =>
      simp only [matchBooks, Outcome.bind_eq_ok, Prod.exists, Except.ok.injEq, Prod.mk.injEq] at h
      rcases h with ⟨mid, first, hfirst, _, rest, hrest, rfl, rfl⟩
      have hbook := hbooks book (by simp)
      obtain ⟨hsettled, hsides⟩ := matchLoop_spec hbook.market
        (fun o ho => horders o (hbook.buys o ho).1) (fun o ho => horders o (hbook.sells o ho).1)
        hfee hfirst
      have hids := hsettled.same.ids
      obtain ⟨hsettled', hsides'⟩ := ih (fun b hb => hbooks b (List.mem_cons_of_mem _ hb))
        (fun o ho => hids ▸ horders o ho) (hids ▸ hfee) hrest
      refine ⟨hsettled.append hsettled', fun t ht => ?_⟩
      rcases List.mem_append.mp ht with ht | ht
      · rcases hsides t ht with ⟨hid, ⟨b, hb, hbt⟩, ⟨s, hs, hst⟩⟩
        rcases hbook.buys b hb with ⟨hbmem, hbmarket, hbside⟩
        rcases hbook.sells s hs with ⟨hsmem, hsmarket, hsside⟩
        exact ⟨⟨b, hbmem, hbt, hbmarket.trans hid.symm, hbside⟩,
          ⟨s, hsmem, hst, hsmarket.trans hid.symm, hsside⟩⟩
      · exact hsides' t ht

/-- The ledger after all books, and the two orders behind every trade. -/
theorem matchAndSettle_spec (hsorted : SortedBy Account.id accounts)
    (hbooks : ∀ book ∈ books, ValidBook orders config book)
    (horders : ∀ o ∈ orders, IndexedIn (accounts.map Account.id) o.accountIndex o.trader)
    (h : matchAndSettle accounts books config = .ok (accounts', trades)) :
    TradesSettled config accounts accounts' trades ∧ ∀ t ∈ trades, TradeSides orders t := by
  unfold matchAndSettle at h
  split at h
  · cases h
  · rename_i index hindex
    rcases hsorted.search_ok_iff.mp hindex with ⟨a, ha, hid⟩
    have hfee : (accounts.map Account.id)[index]? = some config.fees.recipient := by
      rw [List.getElem?_map, ha, Option.map_some, hid]
    exact matchBooks_spec hbooks horders hfee h

end ZkClob
