import ZkClob.Foundations.CallAuction
import ZkClob.Settlement.PriceTimePriority

/-!
# The volume of a book

The orders of a batch meet in a book before anything is matched, so a market of a
batch is a call auction.  The loop matches head against head and gives every match the
price of its older order.  The price of a match may differ from the next one, but the
quantity that changes hands is that of an auction: the most that any one price could
clear.

Main results:

- Theorem {lit}`headMatches_crossed`: every bid that is matched crosses every ask that is.
- Theorem {lit}`PriceTimePriority.cleared`: the matches of a book clear it.
- Theorem {lit}`auction_volume`: in every market of an accepted batch the quantity traded is
  the greatest that a single price clears.
-/

namespace ZkClob

open Foundations CallAuction

/-! ## Matches cross -/

/-- Every buy order that is matched pays what every sell order that is matched asks for. -/
theorem headMatches_crossed {buys sells : List SequencedOrder} {buyRemaining sellRemaining : U128}
    (hbuys : SortedBy (priorityKey .Buy) buys) (hsells : SortedBy (priorityKey .Sell) sells) :
    ∀ m ∈ headMatches buys sells buyRemaining sellRemaining,
      ∀ m' ∈ headMatches buys sells buyRemaining sellRemaining, m'.sell.price ≤ m.buy.price := by
  induction buys, sells, buyRemaining, sellRemaining using headMatches.induct with
  | case1 _ _ buy buys sell sells hprice =>
      rw [headMatches, if_pos hprice]
      intro m hm
      cases hm
  | case2 _ _ buy buys sell sells buyLeft sellLeft hprice quantity ih =>
      -- what is matched later is no better for either side
      have hlater : ∀ m ∈ headMatches (advance (buyLeft - quantity) buy buys)
          (advance (sellLeft - quantity) sell sells) (buyLeft - quantity) (sellLeft - quantity),
          m.buy.price ≤ buy.price ∧ sell.price ≤ m.sell.price ∧ m.sell.price ≤ m.buy.price := by
        intro m hm
        obtain ⟨hbuy, hsell, hcross⟩ := headMatches_heads hm
        exact ⟨price_ge_of_buyKey_le (key_head_le hbuys (mem_of_mem_advance hbuy)),
          price_le_of_sellKey_le (key_head_le hsells (mem_of_mem_advance hsell)), hcross⟩
      have hrest := ih (sortedBy_advance hbuys _) (sortedBy_advance hsells _)
      rw [headMatches, if_neg hprice]
      intro m hm m' hm'
      rcases List.mem_cons.mp hm with rfl | hm
      · rcases List.mem_cons.mp hm' with rfl | hm'
        · exact BitVec.not_lt.mp hprice
        · obtain ⟨hbuy, _, hcross⟩ := hlater m' hm'
          exact BitVec.le_trans hcross hbuy
      · rcases List.mem_cons.mp hm' with rfl | hm'
        · obtain ⟨_, hsell, hcross⟩ := hlater m hm
          exact BitVec.le_trans hsell hcross
        · exact hrest m hm m' hm'
  | case3 buys sells _ _ hdone =>
      rw [headMatches]
      · intro m hm
        cases hm
      · exact hdone

/-- An order that is filled was matched. -/
theorem exists_match_of_filled {side : Side} {ms : List HeadMatch} {order : SequencedOrder}
    (h : 0 < filled side ms order) : ∃ m ∈ ms, m.onSide side = order := by
  by_contra hnone
  have hzero : filled side ms order = 0 := by
    apply tally_eq_zero
    intro m hm
    exact decide_eq_false fun heq => hnone ⟨m, hm, heq⟩
  omega

/-! ## A book as an auction -/

/-- The orders of a side, with what a list of matches fills of them. -/
def offers (side : Side) (ms : List HeadMatch) (orders : List SequencedOrder) :
    List (Offer Nat) :=
  orders.map fun order => ⟨order.price.toNat, order.quantity.toNat, filled side ms order⟩

section

variable {buys sells : List SequencedOrder} {ms : List HeadMatch}

/-- What is filled of a side is what is matched. -/
theorem volume_offers (side : Side) {orders : List SequencedOrder} (hnodup : orders.Nodup)
    (h : ∀ m ∈ ms, m.onSide side ∈ orders) :
    volume (offers side ms orders) = (ms.map fun m => m.quantity.toNat).sum := by
  rw [volume, offers, List.map_map]
  exact sum_filled side hnodup h

/-- Matches in price-time priority, all of which cross, clear a book. -/
theorem PriceTimePriority.cleared (h : PriceTimePriority buys sells ms)
    (hcross : ∀ m ∈ ms, ∀ m' ∈ ms, m'.sell.price ≤ m.buy.price) :
    Cleared (offers .Buy ms buys) (offers .Sell ms sells) where
  bidsLe := List.forall_mem_map.mpr h.buysLe
  asksLe := List.forall_mem_map.mpr h.sellsLe
  balanced := by
    rw [volume, volume, offers, offers, List.map_map, List.map_map]
    exact h.totals
  uncrossed := by
    intro bid hbid ask hask hb hs
    obtain ⟨buy, hbuy, rfl⟩ := List.mem_map.mp hbid
    obtain ⟨sell, hsell, rfl⟩ := List.mem_map.mp hask
    exact BitVec.lt_def.mp (BitVec.not_le.mp (h.uncrossed buy hbuy sell hsell hb hs))
  crossed := by
    intro bid hbid ask hask hb hs
    obtain ⟨buy, _, rfl⟩ := List.mem_map.mp hbid
    obtain ⟨sell, _, rfl⟩ := List.mem_map.mp hask
    obtain ⟨m, hm, rfl⟩ := exists_match_of_filled hb
    obtain ⟨m', hm', rfl⟩ := exists_match_of_filled hs
    exact BitVec.le_def.mp (hcross m hm m' hm')

end

/-! ## The markets of a batch -/

/-- What the buy orders of a market want at a price. -/
def marketDemand (orders : List SequencedOrder) (marketId : MarketId) (price : Nat) : Nat :=
  tally (fun o => o.marketId = marketId ∧ o.side = .Buy ∧ price ≤ o.price.toNat)
    (fun o => o.quantity.toNat) orders

/-- What the sell orders of a market offer at a price. -/
def marketSupply (orders : List SequencedOrder) (marketId : MarketId) (price : Nat) : Nat :=
  tally (fun o => o.marketId = marketId ∧ o.side = .Sell ∧ o.price.toNat ≤ price)
    (fun o => o.quantity.toNat) orders

/-- The base quantity that changes hands in a market. -/
def tradedIn (trades : List Trade) (marketId : MarketId) : Nat :=
  tally (fun t => t.marketId = marketId) (fun t => t.quantity.toNat) trades

section

variable {orders : List SequencedOrder} {config : ExchangeConfig} {feeConfig : FeeConfig}
  {books : List ValidatedMarketBook} {book : ValidatedMarketBook} {marketId : MarketId}

namespace PinnedBooks

/-- The buy side of a book is all the demand in its market. -/
theorem demand_eq (h : PinnedBooks orders config books) (hmem : book ∈ books)
    (ms : List HeadMatch) (price : Nat) :
    demand (offers .Buy ms book.buys) price = marketDemand orders book.market.id price := by
  have hside : book.buys.Perm
      (orders.filter fun o => o.marketId = book.market.id ∧ o.side = .Buy) :=
    h.onSide_perm hmem .Buy
  rw [demand, offers, tally_map, tally_perm hside, tally_filter, marketDemand]
  apply tally_congr
  · intro o _
    simp only [Bool.decide_and, Bool.and_assoc]
  · intro o _ _
    rfl

/-- Its sell side is all the supply. -/
theorem supply_eq (h : PinnedBooks orders config books) (hmem : book ∈ books)
    (ms : List HeadMatch) (price : Nat) :
    CallAuction.supply (offers .Sell ms book.sells) price =
      marketSupply orders book.market.id price := by
  have hside : book.sells.Perm
      (orders.filter fun o => o.marketId = book.market.id ∧ o.side = .Sell) :=
    h.onSide_perm hmem .Sell
  rw [CallAuction.supply, offers, tally_map, tally_perm hside, tally_filter, marketSupply]
  apply tally_congr
  · intro o _
    simp only [Bool.decide_and, Bool.and_assoc]
  · intro o _ _
    rfl

/-- Every order is in the book of its market. -/
theorem exists_book (h : PinnedBooks orders config books) {o : SequencedOrder} (ho : o ∈ orders) :
    ∃ book ∈ books, book.market.id = o.marketId := by
  obtain ⟨book, hbook, hmem⟩ := List.mem_flatMap.mp (h.perm.mem_iff.mp ho)
  refine ⟨book, hbook, ?_⟩
  rcases List.mem_append.mp hmem with hmem | hmem
  · exact ((h.book book hbook).buys.members o hmem).1.symm
  · exact ((h.book book hbook).sells.members o hmem).1.symm

end PinnedBooks

/-- The trades of a book are all in its market. -/
theorem tradedIn_matches (ms : List HeadMatch) (marketId : MarketId) :
    tradedIn (ms.map fun m => m.trade book.market book.baseAsset feeConfig) marketId =
      if book.market.id = marketId then (ms.map fun m => m.quantity.toNat).sum else 0 := by
  by_cases hid : book.market.id = marketId
  · rw [if_pos hid, tradedIn, tally_map, tally]
    simp [HeadMatch.trade, hid]
  · rw [if_neg hid]
    apply tally_eq_zero
    intro t ht
    obtain ⟨m, _, rfl⟩ := List.mem_map.mp ht
    exact decide_eq_false hid

/-- Where a market has no book nothing is traded in it. -/
theorem tradedIn_of_forall_ne (h : ∀ book ∈ books, book.market.id ≠ marketId) :
    tradedIn ((settledMatches feeConfig books).map Prod.snd) marketId = 0 := by
  apply tally_eq_zero
  intro t ht
  obtain ⟨x, hx, rfl⟩ := List.mem_map.mp ht
  obtain ⟨book, hbook, _, htrade⟩ := mem_settledMatches.mp hx
  rw [htrade]
  exact decide_eq_false (h book hbook)

/-- Otherwise what is traded in it is what its book matches. -/
theorem tradedIn_of_mem (hsorted : SortedBy (fun b : ValidatedMarketBook => b.market.id) books)
    (hmem : book ∈ books) :
    tradedIn ((settledMatches feeConfig books).map Prod.snd) book.market.id =
      ((headMatches book.buys book.sells 0 0).map fun m => m.quantity.toNat).sum := by
  induction books with
  | nil => cases hmem
  | cons b books ih =>
      obtain ⟨hlt, hrest⟩ := List.pairwise_cons.mp hsorted
      have hsplit : (settledMatches feeConfig (b :: books)).map Prod.snd =
          (headMatches b.buys b.sells 0 0).map (fun m => m.trade b.market b.baseAsset feeConfig) ++
            (settledMatches feeConfig books).map Prod.snd := by
        simp [settledMatches, Function.comp_def]
      have happend : ∀ trades trades' : List Trade, tradedIn (trades ++ trades') book.market.id =
          tradedIn trades book.market.id + tradedIn trades' book.market.id := tally_append
      rw [hsplit, happend, tradedIn_matches]
      rcases List.mem_cons.mp hmem with rfl | hmem
      · rw [if_pos rfl, tradedIn_of_forall_ne fun c hc => (hlt c hc).ne']
        exact Nat.add_zero _
      · rw [if_neg (hlt book hmem).ne, ih hrest hmem]
        exact Nat.zero_add _

/-- In every market the matches of the books trade what a call auction trades. -/
theorem PinnedBooks.tradedIn_isGreatest (h : PinnedBooks orders config books)
    (hpos : ∀ o ∈ orders, o.quantity ≠ 0) (marketId : MarketId) :
    IsGreatest
      (Set.range fun price =>
        min (marketDemand orders marketId price) (marketSupply orders marketId price))
      (tradedIn ((settledMatches feeConfig books).map Prod.snd) marketId) := by
  by_cases hbook : ∃ book ∈ books, book.market.id = marketId
  · obtain ⟨book, hmem, rfl⟩ := hbook
    have hpinned := h.book book hmem
    have hbuys := hpinned.buys.sorted
    have hsells := hpinned.sells.sorted
    have hbuysPos : ∀ o ∈ book.buys, o.quantity ≠ 0 := fun o ho =>
      hpos o (List.mem_filter.mp ((h.onSide_perm hmem .Buy).subset ho)).1
    have hsellsPos : ∀ o ∈ book.sells, o.quantity ≠ 0 := fun o ho =>
      hpos o (List.mem_filter.mp ((h.onSide_perm hmem .Sell).subset ho)).1
    have hheads : ∀ m ∈ headMatches book.buys book.sells 0 0,
        m.buy ∈ book.buys ∧ m.sell ∈ book.sells := by
      intro m hm
      obtain ⟨hbuy, hsell, _⟩ := headMatches_heads hm
      exact ⟨hbuy, hsell⟩
    have hpriority := (headMatches_run hbuys hsells hbuysPos hsellsPos).priceTimePriority hbuys
      hsells hheads
    have hgreatest := (hpriority.cleared (headMatches_crossed hbuys hsells)).isGreatest
    simp only [h.demand_eq hmem, h.supply_eq hmem] at hgreatest
    rw [volume_offers .Buy (nodup_of_sortedBy_priorityKey hbuys) fun m hm => (hheads m hm).1]
      at hgreatest
    rw [tradedIn_of_mem h.sorted hmem]
    exact hgreatest
  · have hnone : ∀ o ∈ orders, o.marketId ≠ marketId := by
      intro o ho hid
      obtain ⟨book, hmem, hsame⟩ := h.exists_book ho
      exact hbook ⟨book, hmem, hsame.trans hid⟩
    have hdemand : ∀ price, marketDemand orders marketId price = 0 := fun price =>
      tally_eq_zero fun o ho => decide_eq_false fun hall => hnone o ho hall.1
    rw [tradedIn_of_forall_ne fun book hmem hid => hbook ⟨book, hmem, hid⟩]
    simp only [hdemand, Nat.zero_min, Set.range_const]
    exact isGreatest_singleton

end

/-! ## The guarantee -/

section

variable {B256 : Type} [Sha256 B256] [Secp256k1 B256] [DecidableEq B256]

/-- In every market of an accepted batch the quantity that is traded is that of a call auction of
all orders of the batch: some price clears as much, with the smaller of demand and supply, and no
price clears more. -/
theorem auction_volume {input : BatchInput B256} {output : BatchOutput B256}
    (h : settleBatch input = .ok output) (marketId : MarketId) :
    IsGreatest
      (Set.range fun price =>
        min (marketDemand input.orders marketId price) (marketSupply input.orders marketId price))
      (tradedIn output.trades marketId) := by
  obtain ⟨stages, hsteps, htrades, _⟩ := exists_steps h
  rw [htrades, (matchAndSettle_trades hsteps.matchAndSettle).1]
  exact (buildValidatedBooks_pinned hsteps.books).tradedIn_isGreatest
    (fun o ho => ((validateOrders_spec hsteps.orders).1 o ho).quantity) marketId

/-- The volume of the small market. -/
theorem auction_volume_marketBatch :
    ∃ output, @settleBatch IdealDigest _ testSecp256k1 _ marketBatch = .ok output ∧
      IsGreatest
        (Set.range fun price =>
          min (marketDemand marketBatch.orders (FixedBytes.replicate 32 5) price)
            (marketSupply marketBatch.orders (FixedBytes.replicate 32 5) price))
        (tradedIn output.trades (FixedBytes.replicate 32 5)) := by
  obtain ⟨output, h⟩ := Outcome.exists_of_isOk (show (@settleBatch IdealDigest _ testSecp256k1 _
    marketBatch).isOk = true by decide +kernel)
  exact ⟨output, h, @auction_volume IdealDigest _ testSecp256k1 _ marketBatch output h _⟩

end

end ZkClob
