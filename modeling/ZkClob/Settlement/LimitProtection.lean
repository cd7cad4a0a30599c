import Mathlib.Data.Rat.Cast.Order
import Mathlib.Tactic.FieldSimp
import Mathlib.Tactic.Linarith
import ZkClob.Foundations.RoundedSums
import ZkClob.Settlement.PriceTimePriority
import ZkClob.Settlement.Steps

/-!
# Limits under rounding

The price of a trade is the limit of the older of its two orders, and the two limits enclose
it.  An order that is filled in parts pays or receives amounts that are rounded part by part,
at prices that change from part to part; in total a buyer still pays no more than its limit
for the whole quantity, with the fee on that, and a seller loses less than one unit of the
quote asset for each part.

Main results:

- Theorems {lit}`buyer_pays_at_most` and {lit}`seller_receives_at_least`: the bounds for any
  list of exact trades on one side of a limit.
- Theorem {lit}`limits_protected`: both bounds and the price rule for every accepted batch.
-/

namespace ZkClob

open Foundations

/-! ## Exact trades -/

/-- The sum of an amount over some trades. -/
def totalOf (amount : Trade → U128) (trades : List Trade) : Nat :=
  (trades.map fun t => (amount t).toNat).sum

/-- A trade whose amounts are rounded down exactly. -/
structure ExactTrade (scale bps : Nat) (trade : Trade) : Prop where
  quoteAmount : trade.quoteAmount.toNat = trade.quantity.toNat * trade.price.toNat / scale
  quoteFee : trade.quoteFee.toNat = trade.quoteAmount.toNat * bps / BPS_DENOMINATOR.toNat

variable {scale bps limit : Nat} {trades : List Trade}

/-- The quote amounts of exact trades are rounded quotients. -/
theorem totalOf_quoteAmount (h : ∀ t ∈ trades, ExactTrade scale bps t) :
    totalOf Trade.quoteAmount trades =
      (trades.map fun t => t.quantity.toNat * t.price.toNat / scale).sum := by
  unfold totalOf
  congr 1
  exact List.map_congr_left fun t ht => (h t ht).quoteAmount

/-- A buyer pays at most its limit for the whole quantity, and the fee on what it pays. -/
theorem buyer_pays_at_most (h : ∀ t ∈ trades, ExactTrade scale bps t)
    (hlimit : ∀ t ∈ trades, t.price.toNat ≤ limit) :
    totalOf Trade.quoteAmount trades ≤ totalOf Trade.quantity trades * limit / scale ∧
      totalOf Trade.quoteFee trades ≤
        totalOf Trade.quoteAmount trades * bps / BPS_DENOMINATOR.toNat := by
  constructor
  · calc totalOf Trade.quoteAmount trades
        = (trades.map fun t => t.quantity.toNat * t.price.toNat / scale).sum :=
          totalOf_quoteAmount h
      _ ≤ (trades.map fun t => t.quantity.toNat * t.price.toNat).sum / scale :=
          sum_div_le (fun t : Trade => t.quantity.toNat * t.price.toNat) scale trades
      _ ≤ totalOf Trade.quantity trades * limit / scale :=
          Nat.div_le_div_right (sum_mul_le hlimit)
  · calc totalOf Trade.quoteFee trades
        = (trades.map fun t => t.quoteAmount.toNat * bps / BPS_DENOMINATOR.toNat).sum := by
          unfold totalOf
          congr 1
          exact List.map_congr_left fun t ht => (h t ht).quoteFee
      _ ≤ (trades.map fun t => t.quoteAmount.toNat * bps).sum / BPS_DENOMINATOR.toNat :=
          sum_div_le (fun t : Trade => t.quoteAmount.toNat * bps) _ trades
      _ ≤ totalOf Trade.quoteAmount trades * bps / BPS_DENOMINATOR.toNat :=
          Nat.div_le_div_right (sum_mul_le fun _ _ => le_rfl)

/-- A seller receives its limit for the whole quantity, less than one unit short for each
trade. -/
theorem seller_receives_at_least (h : ∀ t ∈ trades, ExactTrade scale bps t)
    (hlimit : ∀ t ∈ trades, limit ≤ t.price.toNat) (hscale : 0 < scale) (hne : trades ≠ []) :
    (totalOf Trade.quantity trades : ℚ) * limit / scale - trades.length <
      totalOf Trade.quoteAmount trades := by
  have hlt : totalOf Trade.quantity trades * limit <
      scale * (totalOf Trade.quoteAmount trades + trades.length) := by
    calc totalOf Trade.quantity trades * limit
        ≤ (trades.map fun t => t.quantity.toNat * t.price.toNat).sum := mul_le_sum_mul hlimit
      _ < scale * ((trades.map fun t => t.quantity.toNat * t.price.toNat / scale).sum +
            trades.length) :=
          sum_lt_mul_sum_div (fun t : Trade => t.quantity.toNat * t.price.toNat) hscale hne
      _ = scale * (totalOf Trade.quoteAmount trades + trades.length) := by
          rw [totalOf_quoteAmount h]
  have hrat : (totalOf Trade.quantity trades : ℚ) * limit <
      scale * (totalOf Trade.quoteAmount trades + trades.length) := by
    exact_mod_cast hlt
  have hpos : (0 : ℚ) < scale := by exact_mod_cast hscale
  rw [sub_lt_iff_lt_add, div_lt_iff₀ hpos]
  linarith

/-! ## The trades of a batch -/

/-- The trades that were made for an order: those whose match has it on its side. -/
def tradesFor (settled : List (HeadMatch × Trade)) (order : SequencedOrder) : List Trade :=
  (settled.filter fun x => x.1.onSide order.side = order).map Prod.snd

theorem mem_tradesFor {settled : List (HeadMatch × Trade)} {order : SequencedOrder}
    {trade : Trade} : trade ∈ tradesFor settled order ↔
      ∃ m, (m, trade) ∈ settled ∧ m.onSide order.side = order := by
  simp [tradesFor]

/-- The price of a trade is the limit of the older of its two orders, between both limits. -/
structure PriceRule (m : HeadMatch) (trade : Trade) : Prop where
  older : (m.buy.sequence < m.sell.sequence ∧ trade.price = m.buy.price) ∨
    (m.sell.sequence < m.buy.sequence ∧ trade.price = m.sell.price)
  lower : m.sell.price ≤ trade.price
  upper : trade.price ≤ m.buy.price

/-- Two crossing orders with different sequences match by the price rule. -/
theorem HeadMatch.priceRule {m : HeadMatch} {market : MarketConfig} {baseAsset : AssetConfig}
    {feeConfig : FeeConfig} (hcross : m.sell.price ≤ m.buy.price)
    (hsequence : m.buy.sequence ≠ m.sell.sequence) :
    PriceRule m (m.trade market baseAsset feeConfig) := by
  have hprice : (m.trade market baseAsset feeConfig).price =
      if m.buy.sequence < m.sell.sequence then m.buy.price else m.sell.price := rfl
  by_cases hlt : m.buy.sequence < m.sell.sequence
  · rw [if_pos hlt] at hprice
    exact ⟨Or.inl ⟨hlt, hprice⟩, hprice ▸ hcross, hprice ▸ BitVec.le_refl _⟩
  · rw [if_neg hlt] at hprice
    have hgt : m.sell.sequence < m.buy.sequence :=
      BitVec.lt_of_le_ne (BitVec.not_lt.mp hlt) hsequence.symm
    exact ⟨Or.inr ⟨hgt, hprice⟩, hprice ▸ BitVec.le_refl _, hprice ▸ hcross⟩

/-- The price of a trade is no worse for an order than its limit. -/
def WithinLimit (order : SequencedOrder) (trade : Trade) : Prop :=
  match order.side with
  | .Buy => trade.price ≤ order.price
  | .Sell => order.price ≤ trade.price

/-- What limits promise to an order about the trades made for it. -/
def LimitKept (order : SequencedOrder) (scale bps : Nat) (trades : List Trade) : Prop :=
  match order.side with
  | .Buy =>
      totalOf Trade.quoteAmount trades ≤
          totalOf Trade.quantity trades * order.price.toNat / scale ∧
        totalOf Trade.quoteFee trades ≤
          totalOf Trade.quoteAmount trades * bps / BPS_DENOMINATOR.toNat
  | .Sell =>
      (totalOf Trade.quantity trades : ℚ) * order.price.toNat / scale - trades.length <
        totalOf Trade.quoteAmount trades

/-- Trades on the right side of a limit keep it. -/
theorem limitKept_of_exact {order : SequencedOrder} (h : ∀ t ∈ trades, ExactTrade scale bps t)
    (hlimit : ∀ t ∈ trades, WithinLimit order t)
    (hscale : 0 < scale) (hne : trades ≠ []) : LimitKept order scale bps trades := by
  unfold WithinLimit at hlimit
  unfold LimitKept
  cases hside : order.side with
  | Buy =>
      simp only [hside, BitVec.le_def] at hlimit
      exact buyer_pays_at_most h hlimit
  | Sell =>
      simp only [hside, BitVec.le_def] at hlimit
      exact seller_receives_at_least h hlimit hscale hne

section

variable {orders : List SequencedOrder} {config : ExchangeConfig}
  {books : List ValidatedMarketBook} {m : HeadMatch} {trade : Trade}

/-- A match of accepted books is made between two orders of the batch in one book. -/
theorem PinnedBooks.of_settled (h : PinnedBooks orders config books)
    (hm : (m, trade) ∈ settledMatches config.fees books) :
    ∃ book ∈ books, m ∈ headMatches book.buys book.sells 0 0 ∧
      trade = m.trade book.market book.baseAsset config.fees ∧
      (∀ side, m.onSide side ∈ book.onSide side) ∧ ∀ side, m.onSide side ∈ orders := by
  rcases mem_settledMatches.mp hm with ⟨book, hbook, hmatch, htrade⟩
  rcases headMatches_heads hmatch with ⟨hbuy, hsell, _⟩
  have hsides : ∀ side, m.onSide side ∈ book.onSide side := by
    intro side
    cases side with
    | Buy => exact hbuy
    | Sell => exact hsell
  refine ⟨book, hbook, hmatch, htrade, hsides, fun side => ?_⟩
  exact (List.mem_filter.mp ((h.onSide_perm hbook side).subset (hsides side))).1

/-- The two orders of a match have different sequences. -/
theorem PinnedBooks.sequence_ne (h : PinnedBooks orders config books)
    (hsequences : (orders.map SequencedOrder.sequence).Nodup)
    (hm : (m, trade) ∈ settledMatches config.fees books) :
    m.buy.sequence ≠ m.sell.sequence := by
  rcases h.of_settled hm with ⟨book, hbook, _, _, hsides, horders⟩
  intro heq
  have hsame : m.buy = m.sell :=
    List.inj_on_of_nodup_map hsequences (horders .Buy) (horders .Sell) heq
  have hbuy : m.buy.side = .Buy := ((h.book book hbook).buys.members _ (hsides .Buy)).2
  have hsell : m.sell.side = .Sell := ((h.book book hbook).sells.members _ (hsides .Sell)).2
  rw [hsame, hsell] at hbuy
  cases hbuy

/-- The trades made for an order are exact, at the scale of the base asset of its market, and on
the right side of its limit. -/
theorem PinnedBooks.tradesFor_spec (h : PinnedBooks orders config books)
    (hexact : ∀ book ∈ books, ∀ m ∈ headMatches book.buys book.sells 0 0,
      m.Exact book.baseAsset config.fees)
    (hrule : ∀ m trade, (m, trade) ∈ settledMatches config.fees books → PriceRule m trade)
    {order : SequencedOrder} {market : MarketConfig} {baseAsset : AssetConfig}
    (hmarket : config.market order.marketId = some market)
    (hbase : config.asset market.baseAsset = some baseAsset)
    (ht : trade ∈ tradesFor (settledMatches config.fees books) order) :
    ExactTrade baseAsset.scale.toNat config.fees.buyerFeeBps.toNat trade ∧
      WithinLimit order trade := by
  rcases mem_tradesFor.mp ht with ⟨m, hm, horder⟩
  rcases h.of_settled hm with ⟨book, hbook, hmatch, htrade, hsides, _⟩
  have hpinned := h.book book hbook
  have hid : order.marketId = book.market.id := by
    rw [← horder]
    exact ((hpinned.onSide _).members _ (hsides _)).1
  rw [hid, hpinned.market, Option.some.injEq] at hmarket
  subst hmarket
  rw [hpinned.baseAsset, Option.some.injEq] at hbase
  subst hbase
  have hamounts := hexact book hbook m hmatch
  constructor
  · subst htrade
    exact ⟨hamounts.quoteAmount, hamounts.quoteFee⟩
  · have hprice := hrule m trade hm
    unfold WithinLimit
    cases hside : order.side with
    | Buy =>
        rw [hside] at horder
        rw [← horder]
        exact hprice.upper
    | Sell =>
        rw [hside] at horder
        rw [← horder]
        exact hprice.lower

end

section

variable {B256 : Type} [Sha256 B256] [Secp256k1 B256] [DecidableEq B256]

/-- In an accepted batch every trade has the price of its older order, between the limits of
both, and for every order the trades made for it keep its limit. -/
theorem limits_protected {input : BatchInput B256} {output : BatchOutput B256}
    (h : settleBatch input = .ok output) :
    ∃ books, buildValidatedBooks input.orders input.orderBooks input.config = .ok books ∧
      output.trades = (settledMatches input.config.fees books).map Prod.snd ∧
      (∀ m trade, (m, trade) ∈ settledMatches input.config.fees books → PriceRule m trade) ∧
      ∀ order ∈ input.orders, ∀ market baseAsset,
        input.config.market order.marketId = some market →
        input.config.asset market.baseAsset = some baseAsset →
        tradesFor (settledMatches input.config.fees books) order ≠ [] →
        LimitKept order baseAsset.scale.toNat input.config.fees.buyerFeeBps.toNat
          (tradesFor (settledMatches input.config.fees books) order) := by
  rcases exists_steps h with ⟨stages, hsteps, htrades, _⟩
  rcases matchAndSettle_trades hsteps.matchAndSettle with ⟨hsettled, hexact⟩
  have hpinned := buildValidatedBooks_pinned hsteps.books
  have hrule : ∀ m trade, (m, trade) ∈ settledMatches input.config.fees stages.books →
      PriceRule m trade := by
    intro m trade hm
    rcases hpinned.of_settled hm with ⟨book, hbook, hmatch, rfl, _⟩
    exact HeadMatch.priceRule (headMatches_heads hmatch).2.2
      (hpinned.sequence_ne (validateOrders_spec hsteps.orders).2 hm)
  refine ⟨stages.books, hsteps.books, htrades.trans hsettled, hrule, ?_⟩
  intro order _ market baseAsset hmarket hbase hne
  have hspec : ∀ trade ∈ tradesFor (settledMatches input.config.fees stages.books) order, _ :=
    fun trade ht => hpinned.tradesFor_spec hexact hrule hmarket hbase ht
  have hscale : baseAsset.scale ≠ 0 :=
    (validateConfig_spec hsteps.config).scales _ (ExchangeConfig.asset_eq_some hbase).1
  refine limitKept_of_exact (fun t ht => (hspec t ht).1) (fun t ht => (hspec t ht).2) ?_ hne
  exact Nat.pos_of_ne_zero fun hzero => hscale (FixedWidth.eq_zero_iff.mpr hzero)

/-- The one trade of the small market is made by the price rule. -/
theorem limits_protected_marketBatch :
    ∃ output books, @settleBatch IdealDigest _ testSecp256k1 _ marketBatch = .ok output ∧
      output.trades.length = 1 ∧
      output.trades = (settledMatches marketConfig.fees books).map Prod.snd ∧
      ∀ m trade, (m, trade) ∈ settledMatches marketConfig.fees books → PriceRule m trade := by
  have hmatched : (@settleBatch IdealDigest _ testSecp256k1 _ marketBatch).toOption.map
      (fun output => output.trades.length) = some 1 := by
    decide +kernel
  rcases Outcome.exists_of_isOk (show (@settleBatch IdealDigest _ testSecp256k1 _
    marketBatch).isOk = true by decide +kernel) with ⟨output, h⟩
  rw [h] at hmatched
  rcases @limits_protected IdealDigest _ testSecp256k1 _ marketBatch output h with
    ⟨books, _, htrades, hrule, _⟩
  exact ⟨output, books, h, Option.some.inj hmatched, htrades, hrule⟩

end

end ZkClob
