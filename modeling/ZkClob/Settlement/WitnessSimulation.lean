import ZkClob.Foundations.Simulation
import ZkClob.Settlement.PublicStatement
import ZkClob.Settlement.QueueBatches

/-!
# Two witnesses of one batch

Two private inputs of one batch may list different accounts, at other positions, and arrange the
books on their own.  Wherever both list an account it holds the same, and every step of the batch
keeps it so.  What succeeds with one witness therefore succeeds with the other.

Main results:

- Theorems {lit}`Agree.debit` and {lit}`Agree.credit`: an update of one account in both.
- Theorem {lit}`Agree.settleTrade`: a trade.
- Theorem {lit}`Agree.matchAndSettle`: the trades of all books.
-/

namespace ZkClob

open Foundations Outcome

/-! ## One account -/

namespace Account

variable {self self' next : Account} {asset : AssetId} {amount : U128}

/-- What an account holds of an asset can be debited, nothing included. -/
theorem exists_debit (hcan : self.Canonical) (hholds : self.total asset ≠ 0)
    (hle : amount.toNat ≤ self.total asset) : ∃ self', self.debit asset amount = .ok self' := by
  by_cases hzero : amount = 0
  · -- a debit of one unit finds the entry from which nothing is taken here
    have hone : (1 : U128).toNat ≤ self.total asset := Nat.one_le_iff_ne_zero.mpr hholds
    obtain ⟨debited, hdebited⟩ := debit_ok_of_le_total hcan (by decide) hone
    unfold debit at hdebited ⊢
    cases hsearch : binarySearchByKey AssetBalance.asset asset self.balances with
    | error index =>
        rw [hsearch] at hdebited
        cases hdebited
    | ok index =>
        rw [hsearch] at hdebited
        cases hentry : self.balances[index]? with
        | none =>
            simp only [hentry] at hdebited
            cases hdebited
        | some balance =>
            have hall : FixedWidth.checkedSub balance.available amount =
                some balance.available := by
              rw [FixedWidth.checkedSub_eq_some, hzero]
              exact (Nat.zero_add _).symm
            simp only [hentry, expect_some, ok_bind, hall, okOr]
            by_cases hnone : balance.available = 0
            · exact ⟨_, by rw [if_pos hnone]⟩
            · exact ⟨_, by rw [if_neg hnone]⟩
  · exact debit_ok_of_le_total hcan hzero hle

/-- An account that holds the same can be debited, too. -/
theorem exists_debit_of_same (hcan : self.Canonical) (hcan' : self'.Canonical)
    (htotal : self.total asset = self'.total asset) (h : self.debit asset amount = .ok next) :
    ∃ next', self'.debit asset amount = .ok next' := by
  obtain ⟨xs, balance, ys, remaining, hbalances, hasset, hamount, -⟩ := debit_eq_ok h
  have hmem : balance ∈ self.balances := by
    rw [hbalances]
    exact List.mem_append_right _ List.mem_cons_self
  have hnonzero : balance.available.toNat ≠ 0 := fun hzero =>
    hcan.nonzero balance hmem (FixedWidth.eq_zero_iff.mpr hzero)
  have hle := available_le_total hmem
  rw [hasset, htotal] at hle
  exact exists_debit hcan' (by omega) (by omega)

/-- An account that holds the same can be credited, too. -/
theorem exists_credit_of_same (hcan : self.Canonical)
    (htotal : self.total asset = self'.total asset) (h : self.credit asset amount = .ok next) :
    ∃ next', self'.credit asset amount = .ok next' := by
  have hsum := credit_total h asset
  rw [if_pos rfl] at hsum
  have hfits := ((credit_spec h).2.2 hcan).balance_eq_total asset
  have hlt := (next.balance asset).isLt
  exact exists_credit (by omega)

end Account

/-! ## Accounts that agree -/

/-- Canonical accounts under two lists of ids that hold the same wherever both have an account. -/
structure Agree (ids ids' : List AccountId) (accounts accounts' : List Account) : Prop where
  mapId : accounts.map Account.id = ids
  mapId' : accounts'.map Account.id = ids'
  canonical : AccountsCanonical accounts
  canonical' : AccountsCanonical accounts'
  holding : ∀ id ∈ ids, id ∈ ids' → ∀ asset,
    holding accounts id asset = holding accounts' id asset

namespace Agree

variable {ids ids' : List AccountId} {accounts accounts' : List Account} {index index' : Nat}
  {id : AccountId} {asset : AssetId} {amount : U128}

/-- The account at a position of both holds the same. -/
theorem exists_accounts (h : Agree ids ids' accounts accounts') (hid : ids[index]? = some id)
    (hid' : ids'[index']? = some id) :
    ∃ account account', accounts[index]? = some account ∧ accounts'[index']? = some account' ∧
      account.Canonical ∧ account'.Canonical ∧
      ∀ asset, account.total asset = account'.total asset := by
  have hat := hid
  have hat' := hid'
  rw [← h.mapId, List.getElem?_map, Option.map_eq_some_iff] at hat
  rw [← h.mapId', List.getElem?_map, Option.map_eq_some_iff] at hat'
  obtain ⟨account, haccount, rfl⟩ := hat
  obtain ⟨account', haccount', hsame⟩ := hat'
  have hmem := List.mem_of_getElem? haccount
  have hmem' := List.mem_of_getElem? haccount'
  refine ⟨account, account', haccount, haccount', h.canonical.canonical account hmem,
    h.canonical'.canonical account' hmem', fun asset => ?_⟩
  rw [← holding_eq_total h.canonical.sorted.nodup_map hmem,
    ← holding_eq_total h.canonical'.sorted.nodup_map hmem', hsame]
  exact h.holding _ (List.mem_of_getElem? hid) (List.mem_of_getElem? hid') asset

/-- A debit of one account in both. -/
theorem debit (h : Agree ids ids' accounts accounts') (hid : ids[index]? = some id)
    (hid' : ids'[index']? = some id) :
    Simulates (Agree ids ids') (modifyAt accounts index (·.debit asset amount))
      (modifyAt accounts' index' (·.debit asset amount)) := by
  intro next hnext
  obtain ⟨account, account', haccount, haccount', hcan, hcan', htotal⟩ := h.exists_accounts hid hid'
  have hdebited : ∃ debited, account.debit asset amount = .ok debited := by
    rw [modifyAt, haccount, expect_some, ok_bind, bind_eq_ok] at hnext
    obtain ⟨debited, hdebited, -⟩ := hnext
    exact ⟨debited, hdebited⟩
  obtain ⟨debited, hdebited⟩ := hdebited
  obtain ⟨debited', hdebited'⟩ := Account.exists_debit_of_same hcan hcan' (htotal asset) hdebited
  have hnext' : modifyAt accounts' index' (·.debit asset amount) =
      .ok (accounts'.set index' debited') := by
    rw [modifyAt, haccount', expect_some, ok_bind, hdebited']
    rfl
  obtain ⟨hsame, hholding⟩ := modifyAt_debit hnext (h.mapId ▸ hid)
  obtain ⟨hsame', hholding'⟩ := modifyAt_debit hnext' (h.mapId' ▸ hid')
  refine ⟨_, hnext', hsame.ids.trans h.mapId, hsame'.ids.trans h.mapId',
    hsame.accountsCanonical h.canonical, hsame'.accountsCanonical h.canonical', ?_⟩
  intro i hi hi' x
  have hbefore := h.holding i hi hi' x
  rw [hholding, hholding'] at hbefore
  exact Nat.add_right_cancel hbefore

/-- A credit of one account in both. -/
theorem credit (h : Agree ids ids' accounts accounts') (hid : ids[index]? = some id)
    (hid' : ids'[index']? = some id) :
    Simulates (Agree ids ids') (modifyAt accounts index (·.credit asset amount))
      (modifyAt accounts' index' (·.credit asset amount)) := by
  intro next hnext
  obtain ⟨account, account', haccount, haccount', hcan, -, htotal⟩ := h.exists_accounts hid hid'
  have hcredited : ∃ credited, account.credit asset amount = .ok credited := by
    rw [modifyAt, haccount, expect_some, ok_bind, bind_eq_ok] at hnext
    obtain ⟨credited, hcredited, -⟩ := hnext
    exact ⟨credited, hcredited⟩
  obtain ⟨credited, hcredited⟩ := hcredited
  obtain ⟨credited', hcredited'⟩ := Account.exists_credit_of_same hcan (htotal asset) hcredited
  have hnext' : modifyAt accounts' index' (·.credit asset amount) =
      .ok (accounts'.set index' credited') := by
    rw [modifyAt, haccount', expect_some, ok_bind, hcredited']
    rfl
  obtain ⟨hsame, hholding⟩ := modifyAt_credit hnext (h.mapId ▸ hid)
  obtain ⟨hsame', hholding'⟩ := modifyAt_credit hnext' (h.mapId' ▸ hid')
  refine ⟨_, hnext', hsame.ids.trans h.mapId, hsame'.ids.trans h.mapId',
    hsame.accountsCanonical h.canonical, hsame'.accountsCanonical h.canonical', ?_⟩
  intro i hi hi' x
  rw [hholding, hholding', h.holding i hi hi' x]

end Agree

/-! ## Orders and books that differ in hints and signatures -/

/-- An order and its copy under another witness: the same hashed fields, and both with the index of
the trader. -/
structure SameOrder (ids ids' : List AccountId) (order order' : SequencedOrder) : Prop where
  fields : order.fields = order'.fields
  indexed : IndexedIn ids order.accountIndex order.trader
  indexed' : IndexedIn ids' order'.accountIndex order'.trader

/-- A book and its copy under another witness. -/
structure SameBook (ids ids' : List AccountId) (book book' : ValidatedMarketBook) : Prop where
  market : book.market = book'.market
  baseAsset : book.baseAsset = book'.baseAsset
  buys : List.Forall₂ (SameOrder ids ids') book.buys book'.buys
  sells : List.Forall₂ (SameOrder ids ids') book.sells book'.sells

section

variable {ids ids' : List AccountId} {buy buy' sell sell' : SequencedOrder}

namespace SameOrder

theorem operation_eq (h : SameOrder ids ids' buy buy') :
    buy.signedOrder.operation = buy'.signedOrder.operation :=
  congrArg Prod.fst h.fields

theorem trader_eq (h : SameOrder ids ids' buy buy') : buy.trader = buy'.trader :=
  congrArg (fun f : OrderFields => f.2.1) h.fields

theorem price_eq (h : SameOrder ids ids' buy buy') : buy.price = buy'.price :=
  congrArg Order.price h.operation_eq

theorem remainingOf_eq (h : SameOrder ids ids' buy buy') (remaining : U128) :
    remainingOf remaining buy = remainingOf remaining buy' := by
  have hquantity : buy.quantity = buy'.quantity := congrArg Order.quantity h.operation_eq
  rw [remainingOf, remainingOf, hquantity]

theorem matchPrice_eq (h : SameOrder ids ids' buy buy') (h' : SameOrder ids ids' sell sell') :
    matchPrice buy sell = matchPrice buy' sell' := by
  have hsequence : buy.sequence = buy'.sequence :=
    congrArg (fun f : OrderFields => f.2.2) h.fields
  have hsequence' : sell.sequence = sell'.sequence :=
    congrArg (fun f : OrderFields => f.2.2) h'.fields
  rw [matchPrice, matchPrice, hsequence, hsequence', h.price_eq, h'.price_eq]

theorem advance {buys buys' : List SequencedOrder} (h : SameOrder ids ids' buy buy')
    (hbuys : List.Forall₂ (SameOrder ids ids') buys buys') (remaining : U128) :
    List.Forall₂ (SameOrder ids ids') (advance remaining buy buys)
      (ZkClob.advance remaining buy' buys') := by
  unfold ZkClob.advance
  by_cases hzero : remaining = 0
  · rw [if_pos hzero, if_pos hzero]
    exact hbuys
  · rw [if_neg hzero, if_neg hzero]
    exact List.Forall₂.cons h hbuys

/-- Orders that are equal without hints and signatures pair up. -/
theorem of_bare {orders orders' : List SequencedOrder}
    (hbare : orders.map SequencedOrder.bare = orders'.map SequencedOrder.bare)
    (hindexed : ∀ o ∈ orders, IndexedIn ids o.accountIndex o.trader)
    (hindexed' : ∀ o ∈ orders', IndexedIn ids' o.accountIndex o.trader) :
    List.Forall₂ (SameOrder ids ids') orders orders' := by
  apply (forall₂_of_map_eq hbare hindexed hindexed').imp
  intro order order' hpair
  obtain ⟨hsame, hat, hat'⟩ := hpair
  have hfields : order.bare.fields = order'.bare.fields := congrArg _ hsame
  exact ⟨hfields, hat, hat'⟩

end SameOrder

/-- Books without hints and signatures that are equal pair up. -/
theorem SameBook.of_bare {books books' : List ValidatedMarketBook}
    (hbare : books.map ValidatedMarketBook.bare = books'.map ValidatedMarketBook.bare)
    (hindexed : ∀ book ∈ books, ∀ o ∈ book.buys ++ book.sells,
      IndexedIn ids o.accountIndex o.trader)
    (hindexed' : ∀ book ∈ books', ∀ o ∈ book.buys ++ book.sells,
      IndexedIn ids' o.accountIndex o.trader) :
    List.Forall₂ (SameBook ids ids') books books' := by
  apply (forall₂_of_map_eq hbare hindexed hindexed').imp
  intro book book' hpair
  obtain ⟨hsame, hat, hat'⟩ := hpair
  have hmarket : book.bare.market = book'.bare.market := congrArg _ hsame
  have hbaseAsset : book.bare.baseAsset = book'.bare.baseAsset := congrArg _ hsame
  exact {
    market := hmarket
    baseAsset := hbaseAsset
    buys := SameOrder.of_bare (congrArg ValidatedMarketBook.buys hsame)
      (fun o ho => hat o (List.mem_append_left _ ho))
      fun o ho => hat' o (List.mem_append_left _ ho)
    sells := SameOrder.of_bare (congrArg ValidatedMarketBook.sells hsame)
      (fun o ho => hat o (List.mem_append_right _ ho))
      fun o ho => hat' o (List.mem_append_right _ ho) }

end

/-! ## Trades -/

/-- Amounts of one trade under two witnesses: equal amounts, and the indices of the same traders. -/
structure SameAmounts (ids ids' : List AccountId) (buyer seller : AccountId)
    (amounts amounts' : TradeAmounts) : Prop where
  buyerAt : ids[amounts.buyerIndex.toNat]? = some buyer
  buyerAt' : ids'[amounts'.buyerIndex.toNat]? = some buyer
  sellerAt : ids[amounts.sellerIndex.toNat]? = some seller
  sellerAt' : ids'[amounts'.sellerIndex.toNat]? = some seller
  quoteAmount : amounts.quoteAmount = amounts'.quoteAmount
  quoteFee : amounts.quoteFee = amounts'.quoteFee
  buyerDebit : amounts.buyerDebit = amounts'.buyerDebit

section

variable {ids ids' : List AccountId} {accounts accounts' : List Account}
  {buy buy' sell sell' : SequencedOrder} {recipient : AccountId}
  {feeRecipientIndex feeRecipientIndex' : Nat}

/-- The amounts of a trade do not depend on the witness. -/
theorem simulates_tradeAmounts (hbuy : SameOrder ids ids' buy buy')
    (hsell : SameOrder ids ids' sell sell') (baseAsset : AssetConfig) (feeConfig : FeeConfig)
    (quantity price : U128) :
    Simulates (SameAmounts ids ids' buy.trader sell.trader)
      (tradeAmounts baseAsset feeConfig buy sell quantity price)
      (tradeAmounts baseAsset feeConfig buy' sell' quantity price) := by
  obtain ⟨i, hi, hbuyer⟩ := hbuy.indexed
  obtain ⟨i', hi', hbuyer'⟩ := hbuy.indexed'
  obtain ⟨j, hj, hseller⟩ := hsell.indexed
  obtain ⟨j', hj', hseller'⟩ := hsell.indexed'
  rw [← hbuy.trader_eq] at hbuyer'
  rw [← hsell.trader_eq] at hseller'
  unfold tradeAmounts
  simp only [hi, hi', hj, hj', expect_some, ok_bind, ← hbuy.trader_eq, ← hsell.trader_eq]
  refine (simulates_refl _).bind fun _ _ _ => ?_
  refine (simulates_refl _).bind fun product _ hproduct => ?_
  subst hproduct
  refine (simulates_refl _).bind fun quoteAmount _ hquote => ?_
  subst hquote
  refine (simulates_refl _).bind fun _ _ _ => ?_
  refine (simulates_refl _).bind fun charged _ hcharged => ?_
  subst hcharged
  refine (simulates_refl _).bind fun quoteFee _ hfee => ?_
  subst hfee
  refine (simulates_refl _).bind fun buyerDebit _ hdebit => ?_
  subst hdebit
  exact simulates_ok ⟨hbuyer, hbuyer', hseller, hseller', rfl, rfl, rfl⟩

namespace Agree

/-- The five updates of a trade. -/
theorem updateTraders (h : Agree ids ids' accounts accounts') {buyer seller : AccountId}
    {amounts amounts' : TradeAmounts}
    (hamounts : SameAmounts ids ids' buyer seller amounts amounts')
    (hfee : ids[feeRecipientIndex]? = some recipient)
    (hfee' : ids'[feeRecipientIndex']? = some recipient) (market : MarketConfig)
    (quantity : U128) :
    Simulates (Agree ids ids') (updateTraders accounts market feeRecipientIndex quantity amounts)
      (ZkClob.updateTraders accounts' market feeRecipientIndex' quantity amounts') := by
  unfold ZkClob.updateTraders
  rw [← hamounts.buyerDebit, ← hamounts.quoteAmount, ← hamounts.quoteFee]
  refine (h.debit hamounts.buyerAt hamounts.buyerAt').bind fun _ _ h₁ => ?_
  refine (h₁.credit hamounts.buyerAt hamounts.buyerAt').bind fun _ _ h₂ => ?_
  refine (h₂.debit hamounts.sellerAt hamounts.sellerAt').bind fun _ _ h₃ => ?_
  refine (h₃.credit hamounts.sellerAt hamounts.sellerAt').bind fun _ _ h₄ => ?_
  exact h₄.credit hfee hfee'

/-- Accounts that agree beside equal trades. -/
def WithTrades {τ : Type} (ids ids' : List AccountId) (p p' : List Account × τ) : Prop :=
  Agree ids ids' p.1 p'.1 ∧ p.2 = p'.2

/-- One trade. -/
theorem settleTrade (h : Agree ids ids' accounts accounts') (hbuy : SameOrder ids ids' buy buy')
    (hsell : SameOrder ids ids' sell sell') (hfee : ids[feeRecipientIndex]? = some recipient)
    (hfee' : ids'[feeRecipientIndex']? = some recipient) (market : MarketConfig)
    (baseAsset : AssetConfig) (feeConfig : FeeConfig) (quantity price : U128) :
    Simulates (WithTrades ids ids')
      (settleTrade accounts market baseAsset feeConfig feeRecipientIndex buy sell quantity price)
      (ZkClob.settleTrade accounts' market baseAsset feeConfig feeRecipientIndex' buy' sell'
        quantity price) := by
  rw [settleTrade_eq, settleTrade_eq, ← hbuy.trader_eq, ← hsell.trader_eq]
  refine (simulates_tradeAmounts hbuy hsell baseAsset feeConfig quantity price).bind
    fun amounts amounts' hamounts => ?_
  refine (h.updateTraders hamounts hfee hfee' market quantity).bind fun _ _ hnext => ?_
  rw [hamounts.quoteAmount, hamounts.quoteFee]
  exact simulates_ok ⟨hnext, rfl⟩

/-- The loop over the two sides of a book. -/
theorem matchLoop (h : Agree ids ids' accounts accounts')
    {buys buys' sells sells' : List SequencedOrder} {buyRemaining sellRemaining : U128}
    (hbuys : List.Forall₂ (SameOrder ids ids') buys buys')
    (hsells : List.Forall₂ (SameOrder ids ids') sells sells')
    (hfee : ids[feeRecipientIndex]? = some recipient)
    (hfee' : ids'[feeRecipientIndex']? = some recipient) (market : MarketConfig)
    (baseAsset : AssetConfig) (feeConfig : FeeConfig) :
    Simulates (WithTrades ids ids')
      (matchLoop market baseAsset feeConfig feeRecipientIndex accounts buys sells buyRemaining
        sellRemaining)
      (ZkClob.matchLoop market baseAsset feeConfig feeRecipientIndex' accounts' buys' sells'
        buyRemaining sellRemaining) := by
  induction accounts, buys, sells, buyRemaining, sellRemaining using matchLoop.induct
    generalizing accounts' buys' sells' with
  | case1 accounts _ _ buy buys sell sells hprice =>
      cases hbuys with
      | @cons _ buy' _ buys' hbuy hbuys =>
          cases hsells with
          | @cons _ sell' _ sells' hsell hsells =>
              have hprice' : buy'.price < sell'.price := by
                rw [← hbuy.price_eq, ← hsell.price_eq]
                exact hprice
              rw [ZkClob.matchLoop, ZkClob.matchLoop, if_pos hprice, if_pos hprice']
              exact simulates_ok ⟨h, rfl⟩
  | case2 accounts buyRemaining sellRemaining buy buys sell sells _ _ hprice =>
      rename_i ih
      cases hbuys with
      | @cons _ buy' _ buys' hbuy hbuys =>
          cases hsells with
          | @cons _ sell' _ sells' hsell hsells =>
              have hprice' : ¬ buy'.price < sell'.price := by
                rw [← hbuy.price_eq, ← hsell.price_eq]
                exact hprice
              rw [ZkClob.matchLoop, ZkClob.matchLoop, if_neg hprice, if_neg hprice',
                ← hbuy.remainingOf_eq, ← hsell.remainingOf_eq, ← hbuy.matchPrice_eq hsell]
              refine (h.settleTrade hbuy hsell hfee hfee' market baseAsset feeConfig _ _).bind
                fun first first' hfirst => ?_
              obtain ⟨hmid, htrade⟩ := hfirst
              refine (ih first.1 hmid (hbuy.advance hbuys _) (hsell.advance hsells _)).bind
                fun rest rest' hrest => ?_
              obtain ⟨final, trades⟩ := rest
              obtain ⟨final', trades'⟩ := rest'
              obtain ⟨hfinal, htrades⟩ := hrest
              exact simulates_ok ⟨hfinal, congrArg₂ List.cons htrade htrades⟩
  | case3 accounts buys sells _ _ hdone =>
      cases hbuys with
      | nil =>
          rw [ZkClob.matchLoop, ZkClob.matchLoop]
          · exact simulates_ok ⟨h, rfl⟩
          · intro buy buys sell sells hnil
            cases hnil
          · exact hdone
      | cons hbuy hbuys =>
          cases hsells with
          | nil =>
              rw [ZkClob.matchLoop, ZkClob.matchLoop]
              · exact simulates_ok ⟨h, rfl⟩
              · intro buy buys sell sells _ hnil
                cases hnil
              · exact hdone
          | cons hsell hsells => exact (hdone _ _ _ _ rfl rfl).elim

/-- All books, one after the other. -/
theorem matchBooks (h : Agree ids ids' accounts accounts') {books books' : List ValidatedMarketBook}
    (hbooks : List.Forall₂ (SameBook ids ids') books books')
    (hfee : ids[feeRecipientIndex]? = some recipient)
    (hfee' : ids'[feeRecipientIndex']? = some recipient) (feeConfig : FeeConfig) :
    Simulates (WithTrades ids ids') (matchBooks feeConfig feeRecipientIndex accounts books)
      (ZkClob.matchBooks feeConfig feeRecipientIndex' accounts' books') := by
  induction hbooks generalizing accounts accounts' with
  | nil => exact simulates_ok ⟨h, rfl⟩
  | cons hbook _ ih =>
      rw [ZkClob.matchBooks, ZkClob.matchBooks, ← hbook.market, ← hbook.baseAsset]
      refine (h.matchLoop hbook.buys hbook.sells hfee hfee' _ _ feeConfig).bind
        fun first first' hfirst => ?_
      refine (ih hfirst.1).bind fun rest rest' hrest => ?_
      obtain ⟨final, trades⟩ := rest
      obtain ⟨final', trades'⟩ := rest'
      obtain ⟨hfinal, htrades⟩ := hrest
      exact simulates_ok ⟨hfinal, congrArg₂ (· ++ ·) hfirst.2 htrades⟩

/-- An account among canonical ones is found at its position. -/
theorem exists_search {accounts : List Account} (hsorted : SortedBy Account.id accounts)
    (hids : accounts.map Account.id = ids) (hmem : recipient ∈ ids) :
    ∃ index, binarySearchByKey Account.id recipient accounts = .ok index ∧
      ids[index]? = some recipient := by
  rw [← hids] at hmem
  obtain ⟨account, haccount, hid⟩ := List.mem_map.mp hmem
  obtain ⟨index, hindex⟩ := List.mem_iff_getElem?.mp haccount
  refine ⟨index, hsorted.search_ok_iff.mpr ⟨account, hindex, hid⟩, ?_⟩
  rw [← hids, List.getElem?_map, hindex, Option.map_some, hid]

/-- The trades of all books, when both witnesses have the fee recipient. -/
theorem matchAndSettle (h : Agree ids ids' accounts accounts')
    {books books' : List ValidatedMarketBook} {config : ExchangeConfig}
    (hbooks : List.Forall₂ (SameBook ids ids') books books') (hmem : config.fees.recipient ∈ ids)
    (hmem' : config.fees.recipient ∈ ids') :
    Simulates (WithTrades ids ids') (matchAndSettle accounts books config)
      (ZkClob.matchAndSettle accounts' books' config) := by
  obtain ⟨index, hindex, hfee⟩ := exists_search h.canonical.sorted h.mapId hmem
  obtain ⟨index', hindex', hfee'⟩ := exists_search h.canonical'.sorted h.mapId' hmem'
  rw [ZkClob.matchAndSettle, ZkClob.matchAndSettle, hindex, hindex']
  exact h.matchBooks hbooks hfee hfee' config.fees

end Agree

end

end ZkClob
