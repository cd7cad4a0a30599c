import ZkClob.Settlement.BookUniqueness
import ZkClob.Settlement.HeadMatches

/-!
# Price-time priority

Matching fills each side from its best order on.  The invariant of the loop speaks of what
is still open: the head of a side with its remaining quantity and every later order in full.
Whatever a run fills comes out of that, an order is touched only when the orders ahead of it
are used up, and the run ends when two open orders on opposite sides no longer cross.

Main results:

- Theorem {lit}`openQuantity_step`: one match takes its quantity out of the two heads.
- Theorem {lit}`headMatches_run`: the invariant of the loop, from any two heads on.
- Theorem {lit}`matchMarket_price_time_priority`: the trades of a book allocate the quantities
  of its orders in price-time priority.
-/

namespace ZkClob

open Foundations

/-! ## Open quantities -/

/-- The quantity that a list of matches fills of an order. -/
def filled (side : Side) (ms : List HeadMatch) (order : SequencedOrder) : Nat :=
  tally (fun m => m.onSide side = order) (fun m => m.quantity.toNat) ms

@[simp]
theorem filled_nil (side : Side) (order : SequencedOrder) : filled side [] order = 0 := rfl

theorem filled_cons (side : Side) (m : HeadMatch) (ms : List HeadMatch) (order : SequencedOrder) :
    filled side (m :: ms) order =
      (if m.onSide side = order then m.quantity.toNat else 0) + filled side ms order := by
  simp [filled]

/-- The quantity of an order that the loop can still fill. -/
def openQuantity (remaining : U128) : List SequencedOrder → SequencedOrder → Nat
  | [], _ => 0
  | head :: rest, order =>
      if head = order then (remainingOf remaining head).toNat
      else if order ∈ rest then order.quantity.toNat
      else 0

/-- Before its head is touched a side is open in full. -/
theorem openQuantity_zero (orders : List SequencedOrder) (order : SequencedOrder) :
    openQuantity 0 orders order = if order ∈ orders then order.quantity.toNat else 0 := by
  cases orders with
  | nil => rfl
  | cons head rest =>
      by_cases h : head = order
      · simp [openQuantity, remainingOf, h]
      · simp [openQuantity, h, Ne.symm h]

/-- Only the orders of a side are open. -/
theorem mem_of_openQuantity_pos {remaining : U128} {orders : List SequencedOrder}
    {order : SequencedOrder} (h : 0 < openQuantity remaining orders order) : order ∈ orders := by
  cases orders with
  | nil => cases h
  | cons head rest =>
      by_cases hhead : head = order
      · exact hhead ▸ List.mem_cons_self
      · rw [openQuantity, if_neg hhead] at h
        by_cases hmem : order ∈ rest
        · exact List.mem_cons_of_mem _ hmem
        · rw [if_neg hmem] at h
          cases h

/-- A match takes its quantity out of the head of a side. -/
theorem openQuantity_step {remaining quantity : U128} {head : SequencedOrder}
    {rest : List SequencedOrder} (hnew : head ∉ rest)
    (hle : quantity.toNat ≤ (remainingOf remaining head).toNat) (order : SequencedOrder) :
    openQuantity remaining (head :: rest) order =
      (if head = order then quantity.toNat else 0) +
        openQuantity (remainingOf remaining head - quantity)
          (advance (remainingOf remaining head - quantity) head rest) order := by
  have hsub : (remainingOf remaining head - quantity).toNat =
      (remainingOf remaining head).toNat - quantity.toNat := BitVec.toNat_sub_of_le hle
  by_cases hzero : remainingOf remaining head - quantity = 0
  · -- the head is filled and leaves
    have hnat := FixedWidth.eq_zero_iff.mp hzero
    rw [advance, if_pos hzero, hzero, openQuantity_zero, openQuantity]
    by_cases h : head = order
    · subst h
      simp only [if_true, hnew, if_false]
      omega
    · simp [h]
  · -- the head stays with what is left of it
    rw [advance, if_neg hzero, openQuantity, openQuantity]
    by_cases h : head = order
    · rw [if_pos h, if_pos h, if_pos h]
      have hleft : remainingOf (remainingOf remaining head - quantity) head =
          remainingOf remaining head - quantity := if_neg hzero
      rw [hleft]
      omega
    · simp [h]

/-! ## One side -/

/-- A list of matches fills a side in order: no order gets more than what is open of it, and
an order gets something only after the orders ahead of it got all. -/
structure FilledInOrder (side : Side) (ms : List HeadMatch) (remaining : U128)
    (orders : List SequencedOrder) : Prop where
  le : ∀ order, filled side ms order ≤ openQuantity remaining orders order
  ahead : orders.Pairwise fun ahead order =>
    0 < filled side ms order → filled side ms ahead = openQuantity remaining orders ahead

namespace FilledInOrder

variable {side : Side} {ms : List HeadMatch} {remaining : U128} {orders : List SequencedOrder}

theorem nil (side : Side) (remaining : U128) (orders : List SequencedOrder) :
    FilledInOrder side [] remaining orders := by
  constructor
  · intro order
    exact Nat.zero_le _
  · exact List.pairwise_of_forall fun _ _ h => absurd h (lt_irrefl 0)

/-- A match of the head, followed by matches of what is left of the side. -/
theorem step {head : SequencedOrder} {rest : List SequencedOrder} {m : HeadMatch}
    (hnodup : (head :: rest).Nodup) (hhead : m.onSide side = head)
    (hle : m.quantity.toNat ≤ (remainingOf remaining head).toNat)
    (h : FilledInOrder side ms (remainingOf remaining head - m.quantity)
      (advance (remainingOf remaining head - m.quantity) head rest)) :
    FilledInOrder side (m :: ms) remaining (head :: rest) := by
  rcases List.nodup_cons.mp hnodup with ⟨hnew, _⟩
  have hopen := openQuantity_step hnew hle
  have hsame : ∀ order ∈ rest, filled side (m :: ms) order = filled side ms order := by
    intro order horder
    have hne : head ≠ order := fun heq => hnew (heq ▸ horder)
    rw [filled_cons, hhead, if_neg hne, Nat.zero_add]
  -- an order that the matches after this one use up is used up altogether
  have hused : ∀ ahead, filled side ms ahead =
      openQuantity (remainingOf remaining head - m.quantity)
        (advance (remainingOf remaining head - m.quantity) head rest) ahead →
      filled side (m :: ms) ahead = openQuantity remaining (head :: rest) ahead := by
    intro ahead hahead
    rw [filled_cons, hhead, hopen, hahead]
  constructor
  · intro order
    rw [filled_cons, hhead, hopen]
    exact Nat.add_le_add_left (h.le order) _
  · -- the matches after this one leave the head alone once it is used up
    have hafter : (head :: rest).Pairwise fun ahead order => 0 < filled side ms order →
        filled side ms ahead = openQuantity (remainingOf remaining head - m.quantity)
          (advance (remainingOf remaining head - m.quantity) head rest) ahead := by
      have hall := h.ahead
      by_cases hzero : remainingOf remaining head - m.quantity = 0
      · have hgone : openQuantity (remainingOf remaining head - m.quantity)
            (advance (remainingOf remaining head - m.quantity) head rest) head = 0 := by
          rw [advance, if_pos hzero, hzero, openQuantity_zero, if_neg hnew]
        have hle' := h.le head
        rw [advance, if_pos hzero] at hall hgone hle' ⊢
        exact List.pairwise_cons.mpr ⟨fun _ _ _ => by omega, hall⟩
      · rw [advance, if_neg hzero] at hall ⊢
        exact hall
    rcases List.pairwise_cons.mp hafter with ⟨hfirst, hrest⟩
    refine List.pairwise_cons.mpr ⟨fun order horder hpos => ?_, ?_⟩
    · exact hused head (hfirst order horder (hsame order horder ▸ hpos))
    · exact hrest.imp_of_mem fun _ horder himp hpos => hused _ (himp (hsame _ horder ▸ hpos))

end FilledInOrder

/-! ## Both sides -/

/-- A buy order that comes earlier pays at least as much. -/
theorem price_ge_of_buyKey_le {ahead order : SequencedOrder}
    (h : priorityKey .Buy ahead ≤ priorityKey .Buy order) : order.price ≤ ahead.price := by
  simp only [priorityKey, Prod.Lex.toLex_le_toLex] at h
  rw [BitVec.le_def]
  omega

/-- A sell order that comes earlier asks for at most as much. -/
theorem price_le_of_sellKey_le {ahead order : SequencedOrder}
    (h : priorityKey .Sell ahead ≤ priorityKey .Sell order) : ahead.price ≤ order.price := by
  simp only [priorityKey, Prod.Lex.toLex_le_toLex] at h
  rw [BitVec.le_def]
  omega

/-- No order of a sorted side comes before the head. -/
theorem key_head_le {side : Side} {head order : SequencedOrder} {rest : List SequencedOrder}
    (hsorted : SortedBy (priorityKey side) (head :: rest)) (horder : order ∈ head :: rest) :
    priorityKey side head ≤ priorityKey side order := by
  rcases List.mem_cons.mp horder with rfl | horder
  · exact le_rfl
  · exact ((List.pairwise_cons.mp hsorted).1 order horder).le

/-- What is left of a side is sorted like the side. -/
theorem sortedBy_advance {side : Side} {head : SequencedOrder} {rest : List SequencedOrder}
    (hsorted : SortedBy (priorityKey side) (head :: rest)) (remaining : U128) :
    SortedBy (priorityKey side) (advance remaining head rest) := by
  unfold advance
  split
  · exact (List.pairwise_cons.mp hsorted).2
  · exact hsorted

/-- The invariant of the matching loop: what the matches from two heads on do to the open
quantities of the two sides. -/
structure MatchRun (buys sells : List SequencedOrder) (buyRemaining sellRemaining : U128)
    (ms : List HeadMatch) : Prop where
  buysFilled : FilledInOrder .Buy ms buyRemaining buys
  sellsFilled : FilledInOrder .Sell ms sellRemaining sells
  positive : ∀ m ∈ ms, m.quantity ≠ 0
  uncrossed : ∀ buy sell, filled .Buy ms buy < openQuantity buyRemaining buys buy →
    filled .Sell ms sell < openQuantity sellRemaining sells sell → buy.price < sell.price
  count : ms ≠ [] → ms.length + 1 ≤ buys.length + sells.length

namespace MatchRun

variable {buys sells : List SequencedOrder} {buyRemaining sellRemaining : U128}
  {ms : List HeadMatch}

/-- The loop ends when no two open orders cross. -/
theorem done (h : ∀ buy ∈ buys, ∀ sell ∈ sells, buy.price < sell.price) :
    MatchRun buys sells buyRemaining sellRemaining [] where
  buysFilled := .nil _ _ _
  sellsFilled := .nil _ _ _
  positive := by simp
  uncrossed buy sell hbuy hsell :=
    h buy (mem_of_openQuantity_pos (Nat.zero_lt_of_lt hbuy)) sell
      (mem_of_openQuantity_pos (Nat.zero_lt_of_lt hsell))
  count := by simp

/-- One pass of the loop: the match of two crossing heads, and the matches of what is left. -/
theorem step {buy sell : SequencedOrder} {buyLeft sellLeft quantity : U128}
    (hbuys : (buy :: buys).Nodup) (hsells : (sell :: sells).Nodup)
    (hbuyLeft : buyLeft = remainingOf buyRemaining buy)
    (hsellLeft : sellLeft = remainingOf sellRemaining sell)
    (hquantity : quantity = FixedWidth.min buyLeft sellLeft) (hpos : quantity ≠ 0)
    (h : MatchRun (advance (buyLeft - quantity) buy buys) (advance (sellLeft - quantity) sell sells)
      (buyLeft - quantity) (sellLeft - quantity) ms) :
    MatchRun (buy :: buys) (sell :: sells) buyRemaining sellRemaining
      (⟨buy, sell, quantity⟩ :: ms) := by
  have hbuyLe : quantity.toNat ≤ buyLeft.toNat := by
    rw [hquantity, FixedWidth.toNat_min]
    exact Nat.min_le_left _ _
  have hsellLe : quantity.toNat ≤ sellLeft.toNat := by
    rw [hquantity, FixedWidth.toNat_min]
    exact Nat.min_le_right _ _
  have hlength := length_advance_lt buyLeft sellLeft buy sell buys sells
  rw [← hquantity] at hlength
  subst hbuyLeft hsellLeft
  constructor
  · exact h.buysFilled.step hbuys rfl hbuyLe
  · exact h.sellsFilled.step hsells rfl hsellLe
  · intro m hm
    rcases List.mem_cons.mp hm with rfl | hm
    · exact hpos
    · exact h.positive m hm
  · intro b s hb hs
    rw [filled_cons, openQuantity_step (List.nodup_cons.mp hbuys).1 hbuyLe] at hb
    rw [filled_cons, openQuantity_step (List.nodup_cons.mp hsells).1 hsellLe] at hs
    exact h.uncrossed b s (Nat.lt_of_add_lt_add_left hb) (Nat.lt_of_add_lt_add_left hs)
  · intro _
    rcases eq_or_ne ms [] with rfl | hne
    · simp only [List.length_cons, List.length_nil]
      omega
    · have := h.count hne
      simp only [List.length_cons] at hlength ⊢
      omega

end MatchRun

/-- A match of two loaded heads is not empty. -/
theorem min_remainingOf_ne_zero {buyRemaining sellRemaining : U128} {buy sell : SequencedOrder}
    (hbuy : buy.quantity ≠ 0) (hsell : sell.quantity ≠ 0) :
    FixedWidth.min (remainingOf buyRemaining buy) (remainingOf sellRemaining sell) ≠ 0 := by
  have hloaded : ∀ (remaining : U128) (order : SequencedOrder), order.quantity ≠ 0 →
      remainingOf remaining order ≠ 0 := by
    intro remaining order horder
    unfold remainingOf
    split <;> assumption
  unfold FixedWidth.min
  split
  · exact hloaded _ _ hbuy
  · exact hloaded _ _ hsell

/-- A sorted side has no order twice. -/
theorem nodup_of_sortedBy_priorityKey {side : Side} {orders : List SequencedOrder}
    (h : SortedBy (priorityKey side) orders) : orders.Nodup :=
  h.nodup_map.of_map

/-- The matches of two sorted sides keep the invariant. -/
theorem headMatches_run {buys sells : List SequencedOrder} {buyRemaining sellRemaining : U128}
    (hbuys : SortedBy (priorityKey .Buy) buys) (hsells : SortedBy (priorityKey .Sell) sells)
    (hbuysPos : ∀ order ∈ buys, order.quantity ≠ 0)
    (hsellsPos : ∀ order ∈ sells, order.quantity ≠ 0) :
    MatchRun buys sells buyRemaining sellRemaining
      (headMatches buys sells buyRemaining sellRemaining) := by
  induction buys, sells, buyRemaining, sellRemaining using headMatches.induct with
  | case1 _ _ buy buys sell sells hprice =>
      rw [headMatches, if_pos hprice]
      refine MatchRun.done fun b hb s hs => ?_
      have hbuy := price_ge_of_buyKey_le (key_head_le hbuys hb)
      have hsell := price_le_of_sellKey_le (key_head_le hsells hs)
      rw [BitVec.le_def] at hbuy hsell
      rw [BitVec.lt_def] at hprice ⊢
      omega
  | case2 _ _ buy buys sell sells buyLeft sellLeft hprice quantity ih =>
      rw [headMatches, if_neg hprice]
      refine MatchRun.step (nodup_of_sortedBy_priorityKey hbuys)
        (nodup_of_sortedBy_priorityKey hsells) rfl rfl rfl
        (min_remainingOf_ne_zero (hbuysPos buy List.mem_cons_self)
          (hsellsPos sell List.mem_cons_self)) ?_
      exact ih (sortedBy_advance hbuys _) (sortedBy_advance hsells _)
        (fun o ho => hbuysPos o (mem_of_mem_advance ho))
        (fun o ho => hsellsPos o (mem_of_mem_advance ho))
  | case3 buys sells _ _ hdone =>
      rw [headMatches]
      · refine MatchRun.done fun b hb s hs => ?_
        rcases List.exists_cons_of_ne_nil (List.ne_nil_of_mem hb) with ⟨buy, rest, rfl⟩
        rcases List.exists_cons_of_ne_nil (List.ne_nil_of_mem hs) with ⟨sell, rest', rfl⟩
        exact (hdone buy rest sell rest' rfl rfl).elim
      · exact hdone

/-! ## The trades of a book -/

/-- The orders behind a list of matches get their quantities in price-time priority. -/
structure PriceTimePriority (buys sells : List SequencedOrder) (ms : List HeadMatch) : Prop where
  heads : ∀ m ∈ ms, m.buy ∈ buys ∧ m.sell ∈ sells
  positive : ∀ m ∈ ms, m.quantity ≠ 0
  buysLe : ∀ order ∈ buys, filled .Buy ms order ≤ order.quantity.toNat
  sellsLe : ∀ order ∈ sells, filled .Sell ms order ≤ order.quantity.toNat
  totals : (buys.map (filled .Buy ms)).sum = (sells.map (filled .Sell ms)).sum
  buysAhead : ∀ ahead ∈ buys, ∀ order ∈ buys, Side.Buy.comparePriority ahead order = .lt →
    0 < filled .Buy ms order → filled .Buy ms ahead = ahead.quantity.toNat
  sellsAhead : ∀ ahead ∈ sells, ∀ order ∈ sells, Side.Sell.comparePriority ahead order = .lt →
    0 < filled .Sell ms order → filled .Sell ms ahead = ahead.quantity.toNat
  uncrossed : ∀ buy ∈ buys, ∀ sell ∈ sells, filled .Buy ms buy < buy.quantity.toNat →
    filled .Sell ms sell < sell.quantity.toNat → ¬ buy.price ≥ sell.price
  count : ms ≠ [] → ms.length ≤ buys.length + sells.length - 1

/-- An untouched side is open in full. -/
theorem openQuantity_zero_of_mem {orders : List SequencedOrder} {order : SequencedOrder}
    (h : order ∈ orders) : openQuantity 0 orders order = order.quantity.toNat := by
  rw [openQuantity_zero, if_pos h]

/-- What the orders of a side get adds up to what is matched. -/
theorem sum_filled (side : Side) {orders : List SequencedOrder} {ms : List HeadMatch}
    (hnodup : orders.Nodup) (h : ∀ m ∈ ms, m.onSide side ∈ orders) :
    (orders.map (filled side ms)).sum = (ms.map fun m => m.quantity.toNat).sum :=
  sum_map_tally hnodup h

/-- On an untouched side filling in order is priority. -/
theorem FilledInOrder.priority {side : Side} {ms : List HeadMatch} {orders : List SequencedOrder}
    (h : FilledInOrder side ms 0 orders) (hsorted : SortedBy (priorityKey side) orders)
    {ahead order : SequencedOrder} (hahead : ahead ∈ orders) (horder : order ∈ orders)
    (hlt : side.comparePriority ahead order = .lt) (hpos : 0 < filled side ms order) :
    filled side ms ahead = ahead.quantity.toNat := by
  have hkey := comparePriority_eq_lt.mp hlt
  rw [hsorted.rel_of_key_lt h.ahead hahead horder hkey hpos, openQuantity_zero_of_mem hahead]

/-- The matches of two untouched sides keep price-time priority. -/
theorem MatchRun.priceTimePriority {buys sells : List SequencedOrder} {ms : List HeadMatch}
    (h : MatchRun buys sells 0 0 ms) (hbuys : SortedBy (priorityKey .Buy) buys)
    (hsells : SortedBy (priorityKey .Sell) sells)
    (hheads : ∀ m ∈ ms, m.buy ∈ buys ∧ m.sell ∈ sells) : PriceTimePriority buys sells ms where
  heads := hheads
  positive := h.positive
  buysLe order horder := openQuantity_zero_of_mem horder ▸ h.buysFilled.le order
  sellsLe order horder := openQuantity_zero_of_mem horder ▸ h.sellsFilled.le order
  totals := by
    rw [sum_filled .Buy (nodup_of_sortedBy_priorityKey hbuys) fun m hm => (hheads m hm).1,
      sum_filled .Sell (nodup_of_sortedBy_priorityKey hsells) fun m hm => (hheads m hm).2]
  buysAhead _ hahead _ horder hlt hpos := h.buysFilled.priority hbuys hahead horder hlt hpos
  sellsAhead _ hahead _ horder hlt hpos := h.sellsFilled.priority hsells hahead horder hlt hpos
  uncrossed buy hbuy sell hsell hb hs := by
    rw [← openQuantity_zero_of_mem hbuy] at hb
    rw [← openQuantity_zero_of_mem hsell] at hs
    exact BitVec.not_le.mpr (h.uncrossed buy sell hb hs)
  count hne := by
    have := h.count hne
    omega

/-- Whenever a book of sorted sides with positive quantities can be settled, its trades record
the matches of its orders in turn, and these keep price-time priority. -/
theorem matchMarket_price_time_priority {accounts accounts' : List Account}
    {market : MarketConfig} {baseAsset : AssetConfig} {feeConfig : FeeConfig}
    {feeRecipientIndex : Nat} {buys sells : List SequencedOrder} {trades : List Trade}
    (hbuys : buys.Pairwise fun left right => Side.Buy.comparePriority left right = .lt)
    (hsells : sells.Pairwise fun left right => Side.Sell.comparePriority left right = .lt)
    (hbuysPos : ∀ order ∈ buys, order.quantity ≠ 0)
    (hsellsPos : ∀ order ∈ sells, order.quantity ≠ 0)
    (h : matchMarket accounts market baseAsset feeConfig feeRecipientIndex buys sells =
      .ok (accounts', trades)) :
    trades = (headMatches buys sells 0 0).map (fun m => m.trade market baseAsset feeConfig) ∧
      PriceTimePriority buys sells (headMatches buys sells 0 0) := by
  have hbuysSorted : SortedBy (priorityKey .Buy) buys :=
    hbuys.imp fun hlt => comparePriority_eq_lt.mp hlt
  have hsellsSorted : SortedBy (priorityKey .Sell) sells :=
    hsells.imp fun hlt => comparePriority_eq_lt.mp hlt
  have hrun : MatchRun buys sells 0 0 (headMatches buys sells 0 0) :=
    headMatches_run hbuysSorted hsellsSorted hbuysPos hsellsPos
  refine ⟨(matchLoop_trades h).1, hrun.priceTimePriority hbuysSorted hsellsSorted ?_⟩
  intro m hm
  rcases headMatches_heads hm with ⟨hbuy, hsell, _⟩
  exact ⟨hbuy, hsell⟩

/-- An order of the small market for several units. -/
def sizedOrder (quantity : U128) (order : SequencedOrder) : SequencedOrder :=
  { order with
    signedOrder := { order.signedOrder with operation := { order.order with quantity } } }

/-- Two buy orders of the small market, best price first. -/
def pricedBuys : List SequencedOrder :=
  [sizedOrder 4 (marketOrder .Buy 5 0 3 2 1), sizedOrder 3 (marketOrder .Buy 4 1 3 2 0)]

/-- Two sell orders of the small market, best price first. -/
def pricedSells : List SequencedOrder :=
  [sizedOrder 2 (marketOrder .Sell 3 3 2 1 2), sizedOrder 3 (marketOrder .Sell 4 4 2 1 3)]

/-- The accounts of the small market, with enough to trade. -/
def pricedAccounts : List Account :=
  [⟨FixedBytes.replicate 20 1, [], 0⟩,
    ⟨FixedBytes.replicate 20 2, [⟨FixedBytes.replicate 20 7, 5⟩], 5⟩,
    ⟨FixedBytes.replicate 20 3, [⟨FixedBytes.replicate 20 8, 99⟩], 2⟩]

/-- Settling the two sides of the small market. -/
def pricedRun : Outcome SettlementError (List Account × List Trade) :=
  matchMarket pricedAccounts
    ⟨FixedBytes.replicate 32 5, FixedBytes.replicate 20 7, FixedBytes.replicate 20 8⟩
    ⟨FixedBytes.replicate 20 7, 1⟩ marketConfig.fees 0 pricedBuys pricedSells

/-- Three partial fills: the second buy order only gets what the first one leaves. -/
theorem matchMarket_price_time_priority_pricedRun :
    ∃ accounts' trades, pricedRun = .ok (accounts', trades) ∧
      trades.map (fun t => (t.price, t.quantity)) = [(5, 2), (5, 2), (4, 1)] ∧
      PriceTimePriority pricedBuys pricedSells (headMatches pricedBuys pricedSells 0 0) := by
  have htrades : pricedRun.toOption.map
      (fun result => result.2.map fun t => (t.price, t.quantity)) =
      some [(5, 2), (5, 2), (4, 1)] := by
    decide +kernel
  rcases Outcome.exists_of_isOk (show pricedRun.isOk = true by decide +kernel) with
    ⟨⟨accounts', trades⟩, h⟩
  rw [h] at htrades
  exact ⟨accounts', trades, h, Option.some.inj htrades,
    (matchMarket_price_time_priority (by decide) (by decide) (by decide) (by decide) h).2⟩

end ZkClob
