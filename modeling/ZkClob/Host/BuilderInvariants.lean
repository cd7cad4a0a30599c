import ZkClob.Host.BuilderIndices
import ZkClob.Host.TreeUpdates

/-!
# What the builder has accepted

Every call of the builder checks one item against the items before it.  After any sequence of
calls, accepted or rejected, the accepted items satisfy together what the guest will ask of a
batch: consecutive queue ids, positive amounts, configured assets and markets, distinct sequences
and nonces, and books that point at every order once.

Main results:

- Theorem {lit}`BatchBuilder.call_accepted`: an accepted call keeps the description.
- Theorem {lit}`BatchBuilder.run_accepted`: the description holds after every sequence of calls.
-/

namespace ZkClob

open Foundations

/-! ## Positions of a market -/

/-- The positions of the orders of one market and side. -/
def positionsOf (orders : List SequencedOrder) (marketId : MarketId) (side : Side) : List Nat :=
  (List.range orders.length).filter fun position =>
    orders[position]?.any fun order => order.marketId = marketId ∧ order.side = side

theorem mem_positionsOf {orders : List SequencedOrder} {marketId : MarketId} {side : Side}
    {position : Nat} : position ∈ positionsOf orders marketId side ↔
      ∃ order, orders[position]? = some order ∧ order.marketId = marketId ∧ order.side = side := by
  simp only [positionsOf, List.mem_filter, List.mem_range, Option.any_eq_true, decide_eq_true_eq]
  constructor
  · rintro ⟨_, h⟩
    exact h
  · rintro ⟨order, horder, hkey⟩
    exact ⟨(List.getElem?_eq_some_iff.mp horder).1, order, horder, hkey⟩

/-- Both sides together are the positions of the orders of the market. -/
theorem mem_positionsOf_sides {orders : List SequencedOrder} {marketId : MarketId}
    {position : Nat} :
    position ∈ positionsOf orders marketId .Buy ++ positionsOf orders marketId .Sell ↔
      ∃ order, orders[position]? = some order ∧ order.marketId = marketId := by
  rw [List.mem_append, mem_positionsOf, mem_positionsOf]
  constructor
  · rintro (⟨order, horder, hmarket, _⟩ | ⟨order, horder, hmarket, _⟩)
    · exact ⟨order, horder, hmarket⟩
    · exact ⟨order, horder, hmarket⟩
  · rintro ⟨order, horder, hmarket⟩
    cases hside : order.side with
    | Buy => exact Or.inl ⟨order, horder, hmarket, hside⟩
    | Sell => exact Or.inr ⟨order, horder, hmarket, hside⟩

theorem positionsOf_sides_nodup (orders : List SequencedOrder) (marketId : MarketId) :
    (positionsOf orders marketId .Buy ++ positionsOf orders marketId .Sell).Nodup := by
  apply List.nodup_append.mpr
  refine ⟨List.nodup_range.filter _, List.nodup_range.filter _, ?_⟩
  intro position hbuy position' hsell heq
  subst heq
  rcases mem_positionsOf.mp hbuy with ⟨order, horder, _, hside⟩
  rcases mem_positionsOf.mp hsell with ⟨order', horder', _, hside'⟩
  rw [horder, Option.some.injEq] at horder'
  rw [← horder', hside] at hside'
  cases hside'

/-- One more order adds the last position to its market and side. -/
theorem positionsOf_append (orders : List SequencedOrder) (order : SequencedOrder)
    (marketId : MarketId) (side : Side) :
    positionsOf (orders ++ [order]) marketId side = positionsOf orders marketId side ++
      if order.marketId = marketId ∧ order.side = side then [orders.length] else [] := by
  have hbefore : (List.range orders.length).filter (fun position =>
      (orders ++ [order])[position]?.any fun o => o.marketId = marketId ∧ o.side = side) =
      positionsOf orders marketId side := by
    apply List.filter_congr
    intro position hposition
    rw [List.getElem?_append_left (List.mem_range.mp hposition)]
  unfold positionsOf at hbefore ⊢
  rw [List.length_append, List.length_singleton, List.range_succ, List.filter_append, hbefore]
  by_cases hkey : order.marketId = marketId ∧ order.side = side
  · simp [hkey]
  · simp [hkey]

/-! ## Nonces of an account -/

theorem noncesOf_append_order (orders : List SequencedOrder) (withdrawals : List SignedWithdrawal)
    (order : SequencedOrder) (id : AccountId) :
    (noncesOf (orders ++ [order]) withdrawals id).Perm
      (if id = order.trader then order.nonce.toNat :: noncesOf orders withdrawals id
        else noncesOf orders withdrawals id) := by
  by_cases hid : id = order.trader
  · subst hid
    simp only [noncesOf, List.filter_append, List.map_append, decide_true, List.filter_cons_of_pos,
      List.filter_nil, List.map_cons, List.map_nil, List.append_assoc, if_true]
    exact List.perm_middle
  · have hne : ¬ order.trader = id := fun h => hid h.symm
    simp [noncesOf, hid, hne]

theorem noncesOf_append_withdrawal (orders : List SequencedOrder)
    (withdrawals : List SignedWithdrawal) (withdrawal : SignedWithdrawal) (id : AccountId) :
    (noncesOf orders (withdrawals ++ [withdrawal]) id).Perm
      (if id = withdrawal.account then withdrawal.nonce.toNat :: noncesOf orders withdrawals id
        else noncesOf orders withdrawals id) := by
  by_cases hid : id = withdrawal.account
  · subst hid
    simp only [noncesOf, List.filter_append, List.map_append, decide_true, List.filter_cons_of_pos,
      List.filter_nil, List.map_cons, List.map_nil, ← List.append_assoc, if_true]
    exact List.perm_append_singleton _ _
  · have hne : ¬ withdrawal.account = id := fun h => hid h.symm
    simp [noncesOf, hid, hne]

namespace BatchBuilder

variable {b b' : BatchBuilder}

/-! ## The accepted items -/

/-- What holds of the items that a builder has accepted. -/
structure Accepted (b : BatchBuilder) : Prop where
  deposits : b.deposits.length ≤ MAX_DEPOSITS_PER_BATCH ∧
    b.deposits.map (fun d => d.id.toNat) =
      List.range' b.oldDepositCursor.toNat b.deposits.length ∧
    ∀ d ∈ b.deposits, d.amount ≠ 0 ∧ (b.config.asset d.asset).isSome
  forcedWithdrawals : b.forcedWithdrawals.length ≤ MAX_FORCED_WITHDRAWALS_PER_BATCH ∧
    b.forcedWithdrawals.map (fun r => r.id.toNat) =
      List.range' b.oldForcedWithdrawalCursor.toNat b.forcedWithdrawals.length ∧
    ∀ r ∈ b.forcedWithdrawals, r.amount ≠ 0
  orders : b.orders.length ≤ MAX_ORDERS_PER_BATCH ∧
    ∀ o ∈ b.orders, o.price ≠ 0 ∧ o.quantity ≠ 0 ∧
      ∃ market ∈ b.config.markets, market.id = o.marketId
  withdrawals : b.withdrawals.length ≤ MAX_WITHDRAWALS_PER_BATCH ∧
    ∀ w ∈ b.withdrawals, w.amount ≠ 0 ∧ (b.config.asset w.asset).isSome
  known : (∀ o ∈ b.orders, b.Known o.trader) ∧ ∀ w ∈ b.withdrawals, b.Known w.account
  sequences : (b.orders.map SequencedOrder.sequence).Nodup ∧
    ∀ o ∈ b.orders, o.sequence.toNat ∈ b.sequences.keys
  nonces : ∀ id, (noncesOf b.orders b.withdrawals id).Perm (b.usedNonces id).keys
  books : ∀ marketId side,
    (b.bookSide marketId side).map BitVec.toNat = positionsOf b.orders marketId side
  markets : ∀ marketId ∈ b.books.keys, ∃ o ∈ b.orders, o.marketId = marketId

theorem new_accepted (state : AccountTree) (config : ExchangeConfig) (domain : SigningDomain)
    (batchId cursor cursor' : U64) : Accepted (new state config domain batchId cursor cursor') where
  deposits := ⟨Nat.zero_le _, rfl, fun _ h => by cases h⟩
  forcedWithdrawals := ⟨Nat.zero_le _, rfl, fun _ h => by cases h⟩
  orders := ⟨Nat.zero_le _, fun _ h => by cases h⟩
  withdrawals := ⟨Nat.zero_le _, fun _ h => by cases h⟩
  known := And.intro (fun _ h => by cases h) (fun _ h => by cases h)
  sequences := ⟨List.nodup_nil, fun _ h => by cases h⟩
  nonces := fun _ => List.Perm.refl _
  books := fun _ side => by cases side <;> rfl
  markets := fun _ h => by cases h

/-- One more item behind consecutive ids. -/
theorem ids_append {α : Type} {id : α → Nat} {l : List α} {a : α} {start : Nat}
    (h : l.map id = List.range' start l.length) (ha : id a = start + l.length) :
    (l ++ [a]).map id = List.range' start (l ++ [a]).length := by
  rw [List.map_append, h, List.map_singleton, ha, List.length_append, List.length_singleton,
    List.range'_concat, Nat.one_mul]

/-- What holds of the items and of one more. -/
theorem forall_mem_append_singleton {α : Type} {P : α → Prop} {l : List α} {a : α}
    (hl : ∀ b ∈ l, P b) (ha : P a) : ∀ b ∈ l ++ [a], P b := by
  intro b hb
  rcases List.mem_append.mp hb with hb | hb
  · exact hl b hb
  · exact List.mem_singleton.mp hb ▸ ha

theorem deposit_accepted {d : Deposit} (h : Accepted b) (hcall : b.deposit d = .ok b') :
    Accepted b' := by
  rcases deposit_eq_ok hcall with ⟨⟨hlength, hid, hamount, hasset⟩, _, rfl⟩
  rcases h.deposits with ⟨_, hids, hgood⟩
  have hknown : ∀ id, b.Known id → BatchBuilder.Known { b with
      touchedAccounts := b.touchedAccounts.add d.account, deposits := b.deposits ++ [d] } id := by
    intro id hid
    rcases hid with hheld | hdeposited
    · exact Or.inl hheld
    · right
      simp only [List.map_append, List.mem_append]
      exact Or.inl hdeposited
  exact { h with
    deposits := by
      refine ⟨?_, ids_append hids hid, forall_mem_append_singleton hgood ⟨hamount, hasset⟩⟩
      rw [List.length_append, List.length_singleton]
      exact hlength
    known := ⟨fun o ho => hknown _ (h.known.1 o ho), fun w hw => hknown _ (h.known.2 w hw)⟩ }

theorem forcedWithdraw_accepted {r : ForcedWithdrawal} (h : Accepted b)
    (hcall : b.forcedWithdraw r = .ok b') : Accepted b' := by
  rcases forcedWithdraw_eq_ok hcall with ⟨⟨hlength, hid, hamount⟩, _, rfl⟩
  rcases h.forcedWithdrawals with ⟨_, hids, hgood⟩
  exact { h with
    forcedWithdrawals := by
      refine ⟨?_, ids_append hids hid, forall_mem_append_singleton hgood hamount⟩
      rw [List.length_append, List.length_singleton]
      exact hlength }

/-- The nonces of one account grow. -/
theorem usedNonces_insert {nonces : OrderedMap AccountId (OrderedSet Nat)} {account id : AccountId}
    {used : OrderedSet Nat} :
    (((nonces.insert account used).get id).getD .empty) =
      if id = account then used else (nonces.get id).getD .empty := by
  rw [OrderedMap.get_insert]
  by_cases hid : id = account <;> simp [hid]

/-- A fresh nonce of one account is one more used nonce. -/
theorem used_perm {used : AccountId → List Nat} {account : AccountId} {nonce : Nat}
    (h : ∀ id, (used id).Perm (b.usedNonces id).keys) (hfresh : nonce ∉ (b.usedNonces account).keys)
    {used' : AccountId → List Nat}
    (hused : ∀ id, (used' id).Perm (if id = account then nonce :: used id else used id))
    (id : AccountId) :
    (used' id).Perm (((b.nonces.insert account ((b.usedNonces account).add nonce)).get id).getD
      .empty).keys := by
  apply (hused id).trans
  rw [usedNonces_insert]
  by_cases hid : id = account
  · subst hid
    rw [if_pos rfl, if_pos rfl]
    exact ((h id).cons nonce).trans (OrderedSet.keys_add_perm hfresh).symm
  · rw [if_neg hid, if_neg hid]
    exact h id

/-- The order joins the side of its market. -/
theorem bookSide_insert (b : BatchBuilder) (o : SequencedOrder) (index : U32) (marketId : MarketId)
    (side : Side) {books : OrderedMap MarketId (List U32 × List U32)}
    (hbooks : books = b.books.insert o.marketId (b.extendedBook o index)) :
    bookSide { b with books } marketId side =
      b.bookSide marketId side ++
        if o.marketId = marketId ∧ o.side = side then [index] else [] := by
  unfold bookSide
  simp only [hbooks, OrderedMap.get_insert]
  by_cases hmarket : marketId = o.marketId
  · subst hmarket
    unfold extendedBook bookSide
    cases side <;> cases o.side <;> simp
  · have hne : ¬ o.marketId = marketId := fun h => hmarket h.symm
    cases side <;> simp [hmarket, hne]

theorem order_accepted {o : SequencedOrder} (hstate : b.state.Coherent) (h : Accepted b)
    (hcall : b.order o = .ok b') : Accepted b' := by
  rcases order_eq_ok hcall with
    ⟨⟨hlength, hprice, hquantity, htrader, hmarket, hsequence, hnonce⟩, _, index, hindex, rfl⟩
  have hknown : b.Known o.trader := by
    rcases htrader with hheld | hdeposited
    · rcases Option.isSome_iff_exists.mp hheld with ⟨account, haccount⟩
      rcases (hstate.account_eq_some_iff).mp haccount with ⟨hmem, hid⟩
      exact Or.inl (List.mem_map.mpr ⟨account, hmem, hid⟩)
    · exact Or.inr hdeposited
  exact { h with
    orders := by
      refine ⟨?_, forall_mem_append_singleton h.orders.2 ⟨hprice, hquantity, hmarket⟩⟩
      rw [List.length_append, List.length_singleton]
      exact hlength
    known := ⟨forall_mem_append_singleton h.known.1 hknown, h.known.2⟩
    sequences := by
      refine ⟨?_, ?_⟩
      · rw [List.map_append, List.map_singleton, List.nodup_append]
        refine ⟨h.sequences.1, List.nodup_singleton _, ?_⟩
        intro sequence hmem sequence' hmem' heq
        rcases List.mem_map.mp hmem with ⟨o', ho', hsame⟩
        rw [List.mem_singleton] at hmem'
        have hused := h.sequences.2 o' ho'
        rw [hsame, heq, hmem'] at hused
        exact hsequence hused
      · apply forall_mem_append_singleton
        · intro o' ho'
          exact OrderedSet.mem_keys_add.mpr (Or.inr (h.sequences.2 o' ho'))
        · exact OrderedSet.mem_keys_add.mpr (Or.inl rfl)
    nonces := used_perm h.nonces hnonce (noncesOf_append_order b.orders b.withdrawals o)
    books := by
      intro marketId side
      have hside := bookSide_insert b o index marketId side rfl
      rw [positionsOf_append, ← h.books]
      refine (congrArg (List.map BitVec.toNat) hside).trans ?_
      rw [List.map_append]
      by_cases hkey : o.marketId = marketId ∧ o.side = side
      · simp [hkey, hindex]
      · simp [hkey]
    markets := by
      intro marketId hmem
      rw [OrderedMap.mem_keys, OrderedMap.get_insert] at hmem
      by_cases hsame : marketId = o.marketId
      · exact ⟨o, by simp, hsame.symm⟩
      · rw [if_neg hsame, ← OrderedMap.mem_keys] at hmem
        rcases h.markets marketId hmem with ⟨o', ho', hid⟩
        exact ⟨o', by simp [ho'], hid⟩ }

theorem withdraw_accepted {w : SignedWithdrawal} (hstate : b.state.Coherent) (h : Accepted b)
    (hcall : b.withdraw w = .ok b') : Accepted b' := by
  rcases withdraw_eq_ok hcall with ⟨⟨hlength, hamount, hasset, haccount, hnonce⟩, _, rfl⟩
  have hknown : b.Known w.account := by
    rcases Option.isSome_iff_exists.mp haccount with ⟨account, haccount⟩
    rcases (hstate.account_eq_some_iff).mp haccount with ⟨hmem, hid⟩
    exact Or.inl (List.mem_map.mpr ⟨account, hmem, hid⟩)
  exact { h with
    withdrawals := by
      refine ⟨?_, forall_mem_append_singleton h.withdrawals.2 ⟨hamount, hasset⟩⟩
      rw [List.length_append, List.length_singleton]
      exact hlength
    known := ⟨h.known.1, forall_mem_append_singleton h.known.2 hknown⟩
    nonces := used_perm h.nonces hnonce (noncesOf_append_withdrawal b.orders b.withdrawals w) }

/-! ## Runs -/

/-- An accepted call keeps the description. -/
theorem call_accepted {c : Call} (hstate : b.state.Coherent) (h : Accepted b)
    (hcall : b.call c = .ok b') : Accepted b' := by
  cases c with
  | deposit d => exact deposit_accepted h hcall
  | forcedWithdraw r => exact forcedWithdraw_accepted h hcall
  | order o => exact order_accepted hstate h hcall
  | withdraw w => exact withdraw_accepted hstate h hcall

/-- What the calls of a builder never change. -/
structure SameSetup (b b' : BatchBuilder) : Prop where
  state : b'.state = b.state
  config : b'.config = b.config
  domain : b'.domain = b.domain
  batchId : b'.batchId = b.batchId
  oldDepositCursor : b'.oldDepositCursor = b.oldDepositCursor
  oldForcedWithdrawalCursor : b'.oldForcedWithdrawalCursor = b.oldForcedWithdrawalCursor

theorem SameSetup.refl (b : BatchBuilder) : SameSetup b b :=
  ⟨rfl, rfl, rfl, rfl, rfl, rfl⟩

theorem SameSetup.trans {b₁ b₂ b₃ : BatchBuilder} (h : SameSetup b₁ b₂) (h' : SameSetup b₂ b₃) :
    SameSetup b₁ b₃ :=
  ⟨h'.state.trans h.state, h'.config.trans h.config, h'.domain.trans h.domain,
    h'.batchId.trans h.batchId, h'.oldDepositCursor.trans h.oldDepositCursor,
    h'.oldForcedWithdrawalCursor.trans h.oldForcedWithdrawalCursor⟩

theorem call_sameSetup {c : Call} (hcall : b.call c = .ok b') : SameSetup b b' := by
  cases c with
  | deposit d =>
      rcases deposit_eq_ok hcall with ⟨_, _, rfl⟩
      exact ⟨rfl, rfl, rfl, rfl, rfl, rfl⟩
  | forcedWithdraw r =>
      rcases forcedWithdraw_eq_ok hcall with ⟨_, _, rfl⟩
      exact ⟨rfl, rfl, rfl, rfl, rfl, rfl⟩
  | order o =>
      rcases order_eq_ok hcall with ⟨_, _, index, _, rfl⟩
      exact ⟨rfl, rfl, rfl, rfl, rfl, rfl⟩
  | withdraw w =>
      rcases withdraw_eq_ok hcall with ⟨_, _, rfl⟩
      exact ⟨rfl, rfl, rfl, rfl, rfl, rfl⟩

/-- The description holds after every sequence of calls. -/
theorem run_accepted (hstate : b.state.Coherent) (h : Accepted b) (calls : List Call) :
    Accepted (b.run calls) ∧ SameSetup b (b.run calls) := by
  refine run_keeps (P := fun b' => Accepted b' ∧ SameSetup b b') ?_ ⟨h, SameSetup.refl b⟩ calls
  rintro before c after ⟨haccepted, hsame⟩ hcall
  have hbefore : before.state.Coherent := by
    rw [hsame.state]
    exact hstate
  exact ⟨call_accepted hbefore haccepted hcall, hsame.trans (call_sameSetup hcall)⟩

end BatchBuilder

end ZkClob
