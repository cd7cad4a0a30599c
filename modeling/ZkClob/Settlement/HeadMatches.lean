import ZkClob.Settlement.Matching

/-!
# The matches of a book

The accounts decide whether the trades of a book can be settled, but not which trades there
are.  The heads that the matching loop compares and the quantities that it subtracts depend
on the two sides alone, and every trade records one match of two heads.

Main results:

- Theorem {lit}`headMatches_heads`: a match is made between two crossing orders of its sides.
- Theorem {lit}`matchLoop_trades`: the trades of a run are the matches of its sides, in order.
- Theorem {lit}`matchBooks_trades`: the same for all books of a batch.
-/

namespace ZkClob

open Foundations

/-- The match of two head orders in one pass of the loop. -/
structure HeadMatch where
  buy : SequencedOrder
  sell : SequencedOrder
  quantity : U128
deriving DecidableEq

/-- The matches of the loop of {lit}`match_market` from the current heads and their remaining
quantities on. -/
def headMatches (buys sells : List SequencedOrder) (buyRemaining sellRemaining : U128) :
    List HeadMatch :=
  match buys, sells with
  | buy :: buys, sell :: sells =>
      let buyRemaining := remainingOf buyRemaining buy
      let sellRemaining := remainingOf sellRemaining sell
      if buy.price < sell.price then []
      else
        let quantity := FixedWidth.min buyRemaining sellRemaining
        ⟨buy, sell, quantity⟩ ::
          headMatches
            (advance (buyRemaining - quantity) buy buys)
            (advance (sellRemaining - quantity) sell sells)
            (buyRemaining - quantity) (sellRemaining - quantity)
  | _, _ => []
termination_by buys.length + sells.length
decreasing_by exact length_advance_lt _ _ _ _ _ _

/-- A match is made between two crossing orders of its sides. -/
theorem headMatches_heads {buys sells : List SequencedOrder} {buyRemaining sellRemaining : U128}
    {m : HeadMatch} (hm : m ∈ headMatches buys sells buyRemaining sellRemaining) :
    m.buy ∈ buys ∧ m.sell ∈ sells ∧ m.sell.price ≤ m.buy.price := by
  induction buys, sells, buyRemaining, sellRemaining using headMatches.induct with
  | case1 _ _ buy buys sell sells hprice =>
      rw [headMatches, if_pos hprice] at hm
      cases hm
  | case2 _ _ buy buys sell sells _ _ hprice _ ih =>
      rw [headMatches, if_neg hprice] at hm
      rcases List.mem_cons.mp hm with rfl | hm
      · exact ⟨List.mem_cons_self, List.mem_cons_self, BitVec.not_lt.mp hprice⟩
      · rcases ih hm with ⟨hbuy, hsell, hcross⟩
        exact ⟨mem_of_mem_advance hbuy, mem_of_mem_advance hsell, hcross⟩
  | case3 buys sells _ _ hdone =>
      rw [headMatches] at hm
      · cases hm
      · exact hdone

namespace HeadMatch

variable (self : HeadMatch)

/-- The order of a match on one side. -/
def onSide : Side → SequencedOrder
  | .Buy => self.buy
  | .Sell => self.sell

/-- The price of a match. -/
def price : U128 :=
  matchPrice self.buy self.sell

/-- The quote amount of a match, rounded down. -/
def quoteAmount (baseAsset : AssetConfig) : U128 :=
  BitVec.ofNat 128 (self.quantity.toNat * self.price.toNat / baseAsset.scale.toNat)

/-- The fee of a match, rounded down. -/
def quoteFee (baseAsset : AssetConfig) (feeConfig : FeeConfig) : U128 :=
  BitVec.ofNat 128
    ((self.quoteAmount baseAsset).toNat * feeConfig.buyerFeeBps.toNat / BPS_DENOMINATOR.toNat)

/-- The trade that records a match. -/
def trade (market : MarketConfig) (baseAsset : AssetConfig) (feeConfig : FeeConfig) : Trade where
  marketId := market.id
  buyer := self.buy.trader
  seller := self.sell.trader
  price := self.price
  quantity := self.quantity
  quoteAmount := self.quoteAmount baseAsset
  quoteFee := self.quoteFee baseAsset feeConfig

end HeadMatch

/-- The amounts of a match fit, so that its trade records them exactly. -/
structure HeadMatch.Exact (m : HeadMatch) (baseAsset : AssetConfig) (feeConfig : FeeConfig) :
    Prop where
  quoteAmount : (m.quoteAmount baseAsset).toNat =
    m.quantity.toNat * m.price.toNat / baseAsset.scale.toNat
  quoteFee : (m.quoteFee baseAsset feeConfig).toNat =
    (m.quoteAmount baseAsset).toNat * feeConfig.buyerFeeBps.toNat / BPS_DENOMINATOR.toNat

variable {market : MarketConfig} {baseAsset : AssetConfig} {feeConfig : FeeConfig}
  {feeRecipientIndex : Nat} {accounts accounts' : List Account} {trades : List Trade}

/-- What a settled trade records: its quote amount and its fee are exact quotients, rounded
down. -/
theorem settleTrade_trade {buy sell : SequencedOrder} {quantity price : U128} {trade : Trade}
    (h : settleTrade accounts market baseAsset feeConfig feeRecipientIndex buy sell quantity
      price = .ok (accounts', trade)) :
    trade.marketId = market.id ∧ trade.buyer = buy.trader ∧ trade.seller = sell.trader ∧
      trade.price = price ∧ trade.quantity = quantity ∧
      trade.quoteAmount.toNat = quantity.toNat * price.toNat / baseAsset.scale.toNat ∧
      trade.quoteFee.toNat =
        trade.quoteAmount.toNat * feeConfig.buyerFeeBps.toNat / BPS_DENOMINATOR.toNat := by
  simp only [settleTrade, Outcome.bind_eq_ok, Outcome.expect_eq_ok, Outcome.okOr_eq_ok,
    FixedWidth.checkedAdd_eq_some, FixedWidth.checkedMul_eq_some, FixedWidth.checkedDiv_eq_some,
    Except.ok.injEq, Prod.mk.injEq] at h
  rcases h with
    ⟨_, _, _, _, _, _, product, hproduct, quoteAmount, ⟨_, hquote⟩, _, _, charged, hcharged,
      quoteFee, ⟨_, hfee⟩, _, _, _, _, _, _, _, _, _, _, _, _, _, rfl⟩
  have hbps : (feeConfig.buyerFeeBps.setWidth 128).toNat = feeConfig.buyerFeeBps.toNat := by
    rw [BitVec.toNat_setWidth, Nat.mod_eq_of_lt]
    exact Nat.lt_of_lt_of_le feeConfig.buyerFeeBps.isLt (by norm_num)
  refine ⟨rfl, rfl, rfl, rfl, rfl, ?_, ?_⟩
  · rw [hquote, hproduct]
  · rw [hfee, hcharged, hbps]

/-- A settled match is recorded by its trade, with exact amounts. -/
theorem settleTrade_eq_trade {buy sell : SequencedOrder} {quantity : U128} {trade : Trade}
    (h : settleTrade accounts market baseAsset feeConfig feeRecipientIndex buy sell quantity
      (matchPrice buy sell) = .ok (accounts', trade)) :
    trade = HeadMatch.trade ⟨buy, sell, quantity⟩ market baseAsset feeConfig ∧
      HeadMatch.Exact ⟨buy, sell, quantity⟩ baseAsset feeConfig := by
  rcases trade with ⟨marketId, buyer, seller, price, quantity', quote, fee⟩
  rcases settleTrade_trade h with ⟨rfl, rfl, rfl, rfl, rfl, hquote, hfee⟩
  have hquote' : quote = HeadMatch.quoteAmount ⟨buy, sell, quantity'⟩ baseAsset := by
    rw [HeadMatch.quoteAmount, HeadMatch.price, ← hquote, BitVec.ofNat_toNat, BitVec.setWidth_eq]
  subst hquote'
  have hfee' : fee = HeadMatch.quoteFee ⟨buy, sell, quantity'⟩ baseAsset feeConfig := by
    rw [HeadMatch.quoteFee, ← hfee, BitVec.ofNat_toNat, BitVec.setWidth_eq]
  subst hfee'
  exact ⟨rfl, hquote, hfee⟩

/-- The trades of a run are the matches of its sides, with exact amounts. -/
theorem matchLoop_trades {buys sells : List SequencedOrder} {buyRemaining sellRemaining : U128}
    (h : matchLoop market baseAsset feeConfig feeRecipientIndex accounts buys sells buyRemaining
      sellRemaining = .ok (accounts', trades)) :
    trades = (headMatches buys sells buyRemaining sellRemaining).map
        (fun m => m.trade market baseAsset feeConfig) ∧
      ∀ m ∈ headMatches buys sells buyRemaining sellRemaining, m.Exact baseAsset feeConfig := by
  induction accounts, buys, sells, buyRemaining, sellRemaining using matchLoop.induct
    generalizing accounts' trades with
  | case1 accounts _ _ buy buys sell sells hprice =>
      rw [matchLoop, if_pos hprice] at h
      cases h
      rw [headMatches, if_pos hprice]
      exact ⟨rfl, by simp⟩
  | case2 accounts _ _ buy buys sell sells _ _ hprice =>
      rename_i ih
      rw [matchLoop, if_neg hprice] at h
      simp only [Outcome.bind_eq_ok, Prod.exists, Except.ok.injEq, Prod.mk.injEq] at h
      rcases h with ⟨mid, trade, htrade, _, rest, hrest, rfl, rfl⟩
      rcases settleTrade_eq_trade htrade with ⟨rfl, hexact⟩
      rcases ih mid hrest with ⟨rfl, hexact'⟩
      rw [headMatches, if_neg hprice]
      exact ⟨rfl, List.forall_mem_cons.mpr ⟨hexact, hexact'⟩⟩
  | case3 accounts buys sells _ _ hdone =>
      rw [matchLoop] at h
      · cases h
        rw [headMatches]
        · exact ⟨rfl, by simp⟩
        · exact hdone
      · exact hdone

/-- The matches of all books, each with the trade that records it. -/
def settledMatches (feeConfig : FeeConfig) (books : List ValidatedMarketBook) :
    List (HeadMatch × Trade) :=
  books.flatMap fun book => (headMatches book.buys book.sells 0 0).map fun m =>
    (m, m.trade book.market book.baseAsset feeConfig)

theorem mem_settledMatches {books : List ValidatedMarketBook} {x : HeadMatch × Trade} :
    x ∈ settledMatches feeConfig books ↔ ∃ book ∈ books,
      x.1 ∈ headMatches book.buys book.sells 0 0 ∧
        x.2 = x.1.trade book.market book.baseAsset feeConfig := by
  simp only [settledMatches, List.mem_flatMap, List.mem_map]
  constructor
  · rintro ⟨book, hbook, m, hm, rfl⟩
    exact ⟨book, hbook, hm, rfl⟩
  · rintro ⟨book, hbook, hm, htrade⟩
    exact ⟨book, hbook, x.1, hm, Prod.ext rfl htrade.symm⟩

/-- The trades of all books are the matches of their sides, with exact amounts. -/
theorem matchBooks_trades {books : List ValidatedMarketBook}
    (h : matchBooks feeConfig feeRecipientIndex accounts books = .ok (accounts', trades)) :
    trades = (settledMatches feeConfig books).map Prod.snd ∧
      ∀ book ∈ books, ∀ m ∈ headMatches book.buys book.sells 0 0,
        m.Exact book.baseAsset feeConfig := by
  induction books generalizing accounts trades with
  | nil =>
      rw [matchBooks] at h
      cases h
      exact ⟨rfl, by simp⟩
  | cons book books ih =>
      simp only [matchBooks, Outcome.bind_eq_ok, Prod.exists, Except.ok.injEq, Prod.mk.injEq] at h
      rcases h with ⟨mid, first, hfirst, _, rest, hrest, rfl, rfl⟩
      rcases matchLoop_trades hfirst with ⟨rfl, hexact⟩
      rcases ih hrest with ⟨rfl, hexact'⟩
      refine ⟨?_, List.forall_mem_cons.mpr ⟨hexact, hexact'⟩⟩
      simp [settledMatches, Function.comp_def]

/-- The trades of {lit}`match_and_settle`. -/
theorem matchAndSettle_trades {books : List ValidatedMarketBook} {config : ExchangeConfig}
    (h : matchAndSettle accounts books config = .ok (accounts', trades)) :
    trades = (settledMatches config.fees books).map Prod.snd ∧
      ∀ book ∈ books, ∀ m ∈ headMatches book.buys book.sells 0 0,
        m.Exact book.baseAsset config.fees := by
  unfold matchAndSettle at h
  split at h
  · cases h
  · exact matchBooks_trades h

end ZkClob
