import ZkClob.Settlement.LedgerEquation
import ZkClob.Settlement.Steps
import Mathlib.Data.Int.Order.Basic

/-!
# The host cannot choose the books

The host orders the operations of a batch and groups the orders into books.  What the guest
accepts of this is a single arrangement: the markets in order, and on each side of a market
all its orders by priority.  Only the sequence numbers, which come with the orders, decide
between equal prices.

Main results:

- Theorem {lit}`buildValidatedBooks_pinned`: what accepted books look like.
- Theorem {lit}`PinnedBooks.unique`: there is one such arrangement of the orders.
- Theorem {lit}`matching_determined`: batches that differ in the arrangement of the orders
  have the same trades and the same new state.
-/

namespace ZkClob

open Foundations

/-! ## Priority -/

/-- Priority as a key: the best price first, then the lowest sequence. -/
def priorityKey (side : Side) (order : SequencedOrder) : Lex (Int × Nat) :=
  match side with
  | .Buy => toLex (-(order.price.toNat : Int), order.sequence.toNat)
  | .Sell => toLex ((order.price.toNat : Int), order.sequence.toNat)

theorem comparePriority_eq_lt {side : Side} {left right : SequencedOrder} :
    side.comparePriority left right = .lt ↔ priorityKey side left < priorityKey side right := by
  unfold Side.comparePriority priorityKey
  cases side with
  | Buy =>
      simp only [Ordering.then_eq_lt, compare_lt_iff_lt, compare_eq_iff_eq, Prod.Lex.toLex_lt_toLex]
      omega
  | Sell =>
      simp only [Ordering.then_eq_lt, compare_lt_iff_lt, compare_eq_iff_eq, Prod.Lex.toLex_lt_toLex]
      omega

theorem comparePriority_isLE {side : Side} {left right : SequencedOrder} :
    (side.comparePriority left right).isLE = true ↔
      priorityKey side left ≤ priorityKey side right := by
  unfold Side.comparePriority priorityKey
  cases side with
  | Buy =>
      simp only [Ordering.isLE_then_iff_or, compare_lt_iff_lt, compare_eq_iff_eq,
        Prod.Lex.toLex_le_toLex, Nat.isLE_compare]
      omega
  | Sell =>
      simp only [Ordering.isLE_then_iff_or, compare_lt_iff_lt, compare_eq_iff_eq,
        Prod.Lex.toLex_le_toLex, Nat.isLE_compare]
      omega

/-- The priority of an order says its sequence. -/
theorem sequence_eq_of_priorityKey_eq {side : Side} {left right : SequencedOrder}
    (h : priorityKey side left = priorityKey side right) : left.sequence = right.sequence := by
  have hkey := congrArg (fun key => (ofLex key).2) h
  apply BitVec.eq_of_toNat_eq
  cases side with
  | Buy => exact hkey
  | Sell => exact hkey

/-! ## The orders seen so far -/

/-- The orders whose indices have been seen. -/
def seenOrders (orders : List SequencedOrder) (seen : List Bool) : List SequencedOrder :=
  ((orders.zip seen).filter Prod.snd).map Prod.fst

/-- Before the first index no order has been seen. -/
theorem seenOrders_replicate (orders : List SequencedOrder) :
    seenOrders orders (List.replicate orders.length false) = [] := by
  induction orders with
  | nil => rfl
  | cons o orders ih => simpa [seenOrders, List.replicate_succ] using ih

/-- After the last index all orders have been seen. -/
theorem seenOrders_all {orders : List SequencedOrder} {seen : List Bool}
    (hlen : seen.length = orders.length) (h : ∀ s ∈ seen, s = true) :
      seenOrders orders seen = orders := by
  induction orders generalizing seen with
  | nil => simp [seenOrders]
  | cons o orders ih =>
      cases seen with
      | nil => cases hlen
      | cons s seen =>
          have hs : s = true := h s (by simp)
          have hrest := ih (by simpa using hlen) fun b hb => h b (List.mem_cons_of_mem _ hb)
          subst hs
          simpa [seenOrders] using hrest

/-- A new index adds its order. -/
theorem seenOrders_set {orders : List SequencedOrder} {seen : List Bool} {i : Nat}
    {o : SequencedOrder}
    (ho : orders[i]? = some o) (hs : seen[i]? = some false) :
    (seenOrders orders (seen.set i true)).Perm (o :: seenOrders orders seen) := by
  induction orders generalizing seen i with
  | nil => cases ho
  | cons a orders ih =>
      cases seen with
      | nil => cases hs
      | cons s seen =>
          cases i with
          | zero =>
              simp only [List.getElem?_cons_zero, Option.some.injEq] at ho hs
              subst ho hs
              simp [seenOrders]
          | succ i =>
              have hunseen : seen[i]? = some false := by simpa using hs
              have hrest := ih (by simpa using ho) hunseen
              cases s with
              | true =>
                  simp only [seenOrders, List.set_cons_succ, List.zip_cons_cons,
                    List.filter_cons_of_pos, List.map_cons] at hrest ⊢
                  exact (hrest.cons a).trans (List.Perm.swap _ _ _)
              | false => simpa [seenOrders] using hrest

/-! ## Accepted books -/

/-- One side of a book: orders of one market and side, by priority. -/
structure PinnedSide (marketId : MarketId) (side : Side) (orders : List SequencedOrder) : Prop where
  sorted : SortedBy (priorityKey side) orders
  members : ∀ o ∈ orders, o.marketId = marketId ∧ o.side = side

/-- The state of the loop over the indices of one side. -/
structure SideState (marketId : MarketId) (side : Side) (orders : List SequencedOrder)
    (before : List Bool) (state : List Bool × List SequencedOrder) : Prop where
  length : state.1.length = orders.length
  perm : (seenOrders orders state.1).Perm (seenOrders orders before ++ state.2)
  pinned : PinnedSide marketId side state.2

/-- An index adds its order to the side. -/
theorem SideState.step {marketId : MarketId} {side : Side} {orders : List SequencedOrder}
    {before : List Bool} {state state' : List Bool × List SequencedOrder} {index : U32}
    (h : SideState marketId side orders before state)
    (hstep : validateBookOrder marketId side orders state index = .ok state') :
    SideState marketId side orders before state' ∧ state'.2.length = state.2.length + 1 := by
  simp only [validateBookOrder, Outcome.bind_eq_ok, Outcome.okOr_eq_ok, Outcome.expect_eq_ok,
    Outcome.rejectIf_eq_ok, Except.ok.injEq, not_not, Bool.not_eq_true] at hstep
  rcases hstep with ⟨order, horder, seen, hseen, _, rfl, _, hmarket, _, hside, _, hpriority, rfl⟩
  refine ⟨⟨?_, ?_, ?_, ?_⟩, by simp⟩
  · rw [List.length_set, h.length]
  · refine (seenOrders_set horder hseen).trans ?_
    refine (h.perm.cons order).trans ?_
    rw [← List.append_assoc]
    exact (List.perm_append_singleton order _).symm
  · apply h.pinned.sorted.concat
    intro previous hprevious
    rw [hprevious, Option.any_some, decide_eq_false_iff_not, not_not,
      comparePriority_eq_lt] at hpriority
    exact hpriority
  · intro o ho
    rcases List.mem_append.mp ho with ho | ho
    · exact h.pinned.members o ho
    · rw [List.mem_singleton.mp ho]
      exact ⟨hmarket, hside⟩

/-- The indices of one side of a book. -/
theorem validateBookOrders_pinned {marketId : MarketId} {indices : List U32} {side : Side}
    {orders validated : List SequencedOrder} {seen seen' : List Bool}
    (hlen : seen.length = orders.length)
    (h : validateBookOrders marketId indices side orders seen = .ok (seen', validated)) :
    SideState marketId side orders seen (seen', validated) ∧ validated.length = indices.length := by
  have hloop : ∀ (indices : List U32) (state state' : List Bool × List SequencedOrder),
      SideState marketId side orders seen state →
      indices.foldlM (validateBookOrder marketId side orders) state = .ok state' →
      SideState marketId side orders seen state' ∧
        state'.2.length = state.2.length + indices.length := by
    intro indices
    induction indices with
    | nil =>
        intro state state' hstate hfold
        rw [List.foldlM_nil, Outcome.pure_eq_ok] at hfold
        subst hfold
        exact ⟨hstate, rfl⟩
    | cons index indices ih =>
        intro state state' hstate hfold
        rw [List.foldlM_cons, Outcome.bind_eq_ok] at hfold
        rcases hfold with ⟨mid, hmid, hfold⟩
        rcases hstate.step hmid with ⟨hmidState, hmidLength⟩
        rcases ih mid state' hmidState hfold with ⟨hstate', hlength⟩
        refine ⟨hstate', ?_⟩
        rw [hlength, hmidLength, List.length_cons]
        omega
  have hstart : SideState marketId side orders seen (seen, []) :=
    ⟨hlen, by simp, SortedBy.nil, by simp⟩
  rcases hloop indices _ _ hstart h with ⟨hstate, hlength⟩
  exact ⟨hstate, by simpa using hlength⟩

/-- An accepted book: its market as configured, and its two sides, not both of them empty. -/
structure PinnedBook (config : ExchangeConfig) (book : ValidatedMarketBook) : Prop where
  market : config.market book.market.id = some book.market
  baseAsset : config.asset book.market.baseAsset = some book.baseAsset
  buys : PinnedSide book.market.id .Buy book.buys
  sells : PinnedSide book.market.id .Sell book.sells
  nonempty : book.buys ++ book.sells ≠ []

/-- The accepted books: each market once, in order, and every order in a book. -/
structure PinnedBooks (orders : List SequencedOrder) (config : ExchangeConfig)
    (books : List ValidatedMarketBook) : Prop where
  sorted : SortedBy (fun book => book.market.id) books
  book : ∀ book ∈ books, PinnedBook config book
  perm : orders.Perm (books.flatMap fun book => book.buys ++ book.sells)

/-- The state of the loop over the books. -/
structure BooksPinned (orders : List SequencedOrder) (config : ExchangeConfig)
    (state : BooksState) :
    Prop where
  length : state.seenIndices.length = orders.length
  previous : state.previousMarket = state.books.getLast?.map fun book => book.market.id
  sorted : SortedBy (fun book => book.market.id) state.books
  book : ∀ book ∈ state.books, PinnedBook config book
  perm : (seenOrders orders state.seenIndices).Perm
    (state.books.flatMap fun book => book.buys ++ book.sells)

/-- An accepted book joins the books. -/
theorem BooksPinned.step {orders : List SequencedOrder} {config : ExchangeConfig}
    {state state' : BooksState} {book : MarketOrderBook} (h : BooksPinned orders config state)
    (hstep : validateBook orders config state book = .ok state') :
      BooksPinned orders config state' := by
  simp only [validateBook, Outcome.bind_eq_ok, Outcome.rejectIf_eq_ok, rejectUnsorted_eq_ok,
    Outcome.okOr_eq_ok, Except.ok.injEq, Prod.exists] at hstep
  rcases hstep with ⟨_, hnonempty, _, hprevious, market, hmarket, baseAsset, hbase, seen, buys,
    hbuys, seen', sells, hsells, rfl⟩
  have hid : market.id = book.marketId := (ExchangeConfig.market_eq_some hmarket).2
  rcases validateBookOrders_pinned h.length hbuys with ⟨hbuyState, hbuyLength⟩
  rcases validateBookOrders_pinned hbuyState.length hsells with ⟨hsellState, hsellLength⟩
  refine ⟨hsellState.length, ?_, ?_, ?_, ?_⟩
  · simp [hid]
  · apply h.sorted.concat
    intro last hlast
    rw [hid]
    apply hprevious
    rw [h.previous, hlast, Option.map_some]
  · intro b hb
    rcases List.mem_append.mp hb with hb | hb
    · exact h.book b hb
    · rw [List.mem_singleton.mp hb]
      refine ⟨by rw [hid, hmarket], hbase, hid ▸ hbuyState.pinned, hid ▸ hsellState.pinned, ?_⟩
      intro hnil
      apply hnonempty
      have hsides : buys = [] ∧ sells = [] := List.append_eq_nil_iff.mp hnil
      rw [hsides.1, List.length_nil] at hbuyLength
      rw [hsides.2, List.length_nil] at hsellLength
      simpa using ⟨List.eq_nil_of_length_eq_zero hbuyLength.symm,
        List.eq_nil_of_length_eq_zero hsellLength.symm⟩
  · rw [List.flatMap_append, List.flatMap_singleton]
    refine hsellState.perm.trans ?_
    refine (hbuyState.perm.append_right sells).trans ?_
    rw [List.append_assoc]
    exact h.perm.append_right _

/-- Before the first book no order is seen. -/
theorem BooksPinned.start (orders : List SequencedOrder) (config : ExchangeConfig) :
    BooksPinned orders config ⟨[], none, List.replicate orders.length false⟩ := by
  refine ⟨by simp, rfl, SortedBy.nil, by simp, ?_⟩
  rw [seenOrders_replicate]
  exact List.Perm.refl _

/-- What accepted books look like. -/
theorem buildValidatedBooks_pinned {orders : List SequencedOrder}
    {orderBooks : List MarketOrderBook}
    {config : ExchangeConfig} {books : List ValidatedMarketBook}
    (h : buildValidatedBooks orders orderBooks config = .ok books) :
      PinnedBooks orders config books := by
  simp only [buildValidatedBooks, Outcome.bind_eq_ok, Outcome.rejectIf_eq_ok, Except.ok.injEq] at h
  rcases h with ⟨state, hstate, _, hall, rfl⟩
  have hpinned : BooksPinned orders config state :=
    Outcome.foldlM_invariant (P := BooksPinned orders config)
      (fun _ _ _ _ hbefore hstep => hbefore.step hstep) (BooksPinned.start orders config) hstate
  refine ⟨hpinned.sorted, hpinned.book, ?_⟩
  have hseen : seenOrders orders state.seenIndices = orders := by
    apply seenOrders_all hpinned.length
    intro s hs
    by_contra hfalse
    apply hall
    rw [List.any_eq_true]
    exact ⟨s, hs, by simpa using hfalse⟩
  rw [← hseen]
  exact hpinned.perm

/-! ## Uniqueness -/

/-- The orders of a book on one side. -/
def ValidatedMarketBook.onSide (book : ValidatedMarketBook) : Side → List SequencedOrder
  | .Buy => book.buys
  | .Sell => book.sells

variable {config : ExchangeConfig} {orders orders' : List SequencedOrder}
  {books books' : List ValidatedMarketBook} {book book' : ValidatedMarketBook}

theorem PinnedBook.onSide (h : PinnedBook config book) (side : Side) :
    PinnedSide book.market.id side (book.onSide side) := by
  cases side with
  | Buy => exact h.buys
  | Sell => exact h.sells

/-- Of the orders of a book, those of a market and side. -/
theorem PinnedBook.filter_eq (h : PinnedBook config book) (marketId : MarketId) (side : Side) :
    (book.buys ++ book.sells).filter (fun o => o.marketId = marketId ∧ o.side = side) =
      if book.market.id = marketId then book.onSide side else [] := by
  have hbuys := h.buys.members
  have hsells := h.sells.members
  rw [List.filter_append]
  by_cases hid : book.market.id = marketId
  · rw [if_pos hid]
    cases side with
    | Buy =>
        rw [List.filter_eq_self.mpr, List.filter_eq_nil_iff.mpr, List.append_nil]
        · rfl
        · intro o ho
          simp [(hsells o ho).2]
        · intro o ho
          simp [(hbuys o ho).1, (hbuys o ho).2, hid]
    | Sell =>
        rw [List.filter_eq_nil_iff.mpr, List.filter_eq_self.mpr, List.nil_append]
        · rfl
        · intro o ho
          simp [(hsells o ho).1, (hsells o ho).2, hid]
        · intro o ho
          simp [(hbuys o ho).2]
  · rw [if_neg hid, List.filter_eq_nil_iff.mpr, List.filter_eq_nil_iff.mpr, List.append_nil]
    · intro o ho
      simp [(hsells o ho).1, hid]
    · intro o ho
      simp [(hbuys o ho).1, hid]

/-- Of the orders of all books, those of a market and side are those of the book of the market. -/
theorem filter_books_eq (hsorted : SortedBy (fun b : ValidatedMarketBook => b.market.id) books)
    (hbooks : ∀ b ∈ books, PinnedBook config b) (hmem : book ∈ books) (side : Side) :
    (books.flatMap fun b => b.buys ++ b.sells).filter
        (fun o => o.marketId = book.market.id ∧ o.side = side) = book.onSide side := by
  induction books with
  | nil => cases hmem
  | cons b books ih =>
      rcases List.pairwise_cons.mp hsorted with ⟨hlt, hrest⟩
      have hpinned := hbooks b (by simp)
      rw [List.flatMap_cons, List.filter_append, hpinned.filter_eq]
      rcases List.mem_cons.mp hmem with rfl | hmem
      · -- the later books are of other markets
        have hnil : (books.flatMap fun b => b.buys ++ b.sells).filter
            (fun o => o.marketId = book.market.id ∧ o.side = side) = [] := by
          rw [List.filter_flatMap, List.flatMap_eq_nil_iff]
          intro c hc
          rw [(hbooks c (List.mem_cons_of_mem _ hc)).filter_eq, if_neg (hlt c hc).ne']
        rw [if_pos rfl, hnil, List.append_nil]
      · rw [if_neg (hlt book hmem).ne, List.nil_append]
        exact ih hrest (fun c hc => hbooks c (List.mem_cons_of_mem _ hc)) hmem

namespace PinnedBooks

/-- A side of a book holds all orders of its market and side. -/
theorem onSide_perm (h : PinnedBooks orders config books) (hmem : book ∈ books) (side : Side) :
    (book.onSide side).Perm
      (orders.filter fun o => o.marketId = book.market.id ∧ o.side = side) := by
  have hfilter := (h.perm.filter fun o => o.marketId = book.market.id ∧ o.side = side).symm
  rw [filter_books_eq h.sorted h.book hmem side] at hfilter
  exact hfilter

/-- Books of the same orders are the same for each market. -/
theorem mem_of_perm (h : PinnedBooks orders config books) (h' : PinnedBooks orders' config books')
    (hperm : orders.Perm orders') (hmem : book ∈ books) : book ∈ books' := by
  have hbook := h.book book hmem
  -- an order of the book leads to the other book of its market
  rcases List.exists_mem_of_ne_nil _ hbook.nonempty with ⟨o, ho⟩
  have hmarket : o.marketId = book.market.id := by
    rcases List.mem_append.mp ho with ho | ho
    · exact (hbook.buys.members o ho).1
    · exact (hbook.sells.members o ho).1
  have horder : o ∈ orders := h.perm.mem_iff.mpr (List.mem_flatMap.mpr ⟨book, hmem, ho⟩)
  have horder' : o ∈ books'.flatMap fun b => b.buys ++ b.sells :=
    h'.perm.mem_iff.mp (hperm.mem_iff.mp horder)
  rcases List.mem_flatMap.mp horder' with ⟨book', hmem', ho'⟩
  have hbook' := h'.book book' hmem'
  have hmarket' : o.marketId = book'.market.id := by
    rcases List.mem_append.mp ho' with ho' | ho'
    · exact (hbook'.buys.members o ho').1
    · exact (hbook'.sells.members o ho').1
  have hid : book.market.id = book'.market.id := hmarket.symm.trans hmarket'
  have hconfig : book.market = book'.market := by
    have hsame := hbook.market
    rw [hid, hbook'.market, Option.some.injEq] at hsame
    exact hsame.symm
  have hbase : book.baseAsset = book'.baseAsset := by
    have hsame := hbook.baseAsset
    rw [hconfig, hbook'.baseAsset, Option.some.injEq] at hsame
    exact hsame.symm
  have hside : ∀ side, book.onSide side = book'.onSide side := by
    intro side
    have hsorted' := (hbook'.onSide side).sorted
    have hsides := (h.onSide_perm hmem side).trans
      ((hperm.filter _).trans (hid ▸ h'.onSide_perm hmem' side).symm)
    exact (hbook.onSide side).sorted.eq_of_perm hsorted' hsides
  have heq : book = book' := by
    have hbuys := hside .Buy
    have hsells := hside .Sell
    cases book
    cases book'
    simp_all [ValidatedMarketBook.onSide]
  exact heq ▸ hmem'

/-- There is one arrangement of the orders that is accepted. -/
theorem unique (h : PinnedBooks orders config books) (h' : PinnedBooks orders' config books')
    (hperm : orders.Perm orders') : books = books' := by
  have hnodup : books.Nodup := h.sorted.nodup_map.of_map
  have hnodup' : books'.Nodup := h'.sorted.nodup_map.of_map
  apply h.sorted.eq_of_perm h'.sorted
  rw [List.perm_ext_iff_of_nodup hnodup hnodup']
  intro b
  exact ⟨h.mem_of_perm h' hperm, h'.mem_of_perm h hperm.symm⟩

end PinnedBooks

/-! ## Two runs -/

/-- Nonces are consumed by the operations, in whatever order they are listed. -/
theorem NoncesConsumed.unique {accounts a a' : List Account} {withdrawals : List SignedWithdrawal}
    (hids : (accounts.map Account.id).Nodup) (h : NoncesConsumed accounts a orders withdrawals)
    (h' : NoncesConsumed accounts a' orders' withdrawals)
    (hperm : orders.Perm orders') : a = a' := by
  have hnonce : ∀ id, nonceOf a id = nonceOf a' id := by
    intro id
    have hlength : (noncesOf orders withdrawals id).length =
        (noncesOf orders' withdrawals id).length := by
      simp only [noncesOf, List.length_append, List.length_map]
      rw [(hperm.filter _).length_eq]
    rw [h.nonces, h'.nonces, hlength]
  have hsameIds : a.map Account.id = a'.map Account.id := h.ids.trans h'.ids.symm
  have hsameBalances : a.map Account.balances = a'.map Account.balances :=
    h.balances.trans h'.balances.symm
  have hlen : a.length = a'.length := by simpa using congrArg List.length hsameIds
  apply List.ext_getElem hlen
  intro i hi hi'
  have hid : a[i].id = a'[i].id := by
    have := congrArg (fun l => l[i]?) hsameIds
    simpa [hi, hi'] using this
  have hbalances : a[i].balances = a'[i].balances := by
    have := congrArg (fun l => l[i]?) hsameBalances
    simpa [hi, hi'] using this
  have hnext : a[i].nextNonce = a'[i].nextNonce := by
    apply BitVec.eq_of_toNat_eq
    rw [← nonceOf_eq_nextNonce (h.ids ▸ hids) (List.getElem_mem hi),
      ← nonceOf_eq_nextNonce (h'.ids ▸ hids) (List.getElem_mem hi'), hnonce, hid]
  cases hleft : a[i]
  cases hright : a'[i]
  rw [hleft, hright] at hid hbalances hnext
  cases hid
  cases hbalances
  cases hnext
  rfl

section

variable {B256 : Type} [Sha256 B256] [Secp256k1 B256]

/-- Batches that differ in the arrangement of the orders go through the same stages. -/
theorem StepsSucceed.stages_eq {input : BatchInput B256} {orders' : List SequencedOrder}
    {orderBooks' : List MarketOrderBook} {stages stages' : Stages} (h : StepsSucceed input stages)
    (h' : StepsSucceed { input with orders := orders', orderBooks := orderBooks' } stages')
    (hperm : input.orders.Perm orders') : stages = stages' := by
  have hdeposited := h.applyDeposits.symm.trans h'.applyDeposits
  rw [Except.ok.injEq] at hdeposited
  have hdrained := h'.applyForcedWithdrawals
  rw [← hdeposited] at hdrained
  have hdrained := h.applyForcedWithdrawals.symm.trans hdrained
  rw [Except.ok.injEq, Prod.mk.injEq] at hdrained
  have hwithdrawn := h'.applyWithdrawals
  rw [← hdrained.1] at hwithdrawn
  have hwithdrawn := h.applyWithdrawals.symm.trans hwithdrawn
  rw [Except.ok.injEq] at hwithdrawn
  have hconsumed : stages.consumed = stages'.consumed := by
    rcases h.noncesConsumed with ⟨hids, hconsumed⟩
    rcases h'.noncesConsumed with ⟨_, hconsumed'⟩
    rw [← hwithdrawn] at hconsumed'
    exact hconsumed.unique hids hconsumed' hperm
  have hbooks : stages.books = stages'.books :=
    (buildValidatedBooks_pinned h.books).unique (buildValidatedBooks_pinned h'.books) hperm
  have hsettled := h'.matchAndSettle
  rw [← hconsumed, ← hbooks] at hsettled
  have hsettled := h.matchAndSettle.symm.trans hsettled
  rw [Except.ok.injEq, Prod.mk.injEq] at hsettled
  cases stages
  cases stages'
  simp_all

variable [DecidableEq B256]

/-- Two accepted batches that differ only in the order in which the signed orders are listed and in
the order books of the host have the same trades, in the same order, the same accounts and the
same new root. -/
theorem matching_determined {input : BatchInput B256} {orders' : List SequencedOrder}
    {orderBooks' : List MarketOrderBook} {output output' : BatchOutput B256}
    (hperm : input.orders.Perm orders') (h : settleBatch input = .ok output)
    (h' : settleBatch { input with orders := orders', orderBooks := orderBooks' } = .ok output') :
    output.trades = output'.trades ∧ output.updatedAccounts = output'.updatedAccounts ∧
      output.publicOutput.newStateRoot = output'.publicOutput.newStateRoot := by
  rcases exists_steps h with ⟨stages, hsteps, htrades, haccounts, _, hroot⟩
  rcases exists_steps h' with ⟨stages', hsteps', htrades', haccounts', _, hroot'⟩
  have hstages := hsteps.stages_eq hsteps' hperm
  subst hstages
  have hsame := hroot.symm.trans hroot'
  rw [Except.ok.injEq] at hsame
  exact ⟨htrades.trans htrades'.symm, haccounts.trans haccounts'.symm, hsame⟩

end

/-- The small market listed in either order has the same trades. -/
theorem matching_determined_marketBatch :
    ∃ output output', @settleBatch IdealDigest _ testSecp256k1 _ marketBatch = .ok output ∧
      @settleBatch IdealDigest _ testSecp256k1 _
        { marketBatch with
          orders := marketOrders.reverse
          orderBooks := [⟨FixedBytes.replicate 32 5, [0], [1]⟩] } = .ok output' ∧
      output.trades.length = 1 ∧
      output.trades = output'.trades ∧ output.updatedAccounts = output'.updatedAccounts ∧
      output.publicOutput.newStateRoot = output'.publicOutput.newStateRoot := by
  have hmatched : (@settleBatch IdealDigest _ testSecp256k1 _ marketBatch).toOption.map
      (fun output => output.trades.length) = some 1 := by
    decide +kernel
  rcases Outcome.exists_of_isOk (show (@settleBatch IdealDigest _ testSecp256k1 _
    marketBatch).isOk = true by decide +kernel) with ⟨output, h⟩
  rcases Outcome.exists_of_isOk (show (@settleBatch IdealDigest _ testSecp256k1 _
    { marketBatch with
      orders := marketOrders.reverse
      orderBooks := [⟨FixedBytes.replicate 32 5, [0], [1]⟩] }).isOk = true by decide +kernel) with
    ⟨output', h'⟩
  rw [h] at hmatched
  refine ⟨output, output', h, h', Option.some.inj hmatched, ?_⟩
  exact @matching_determined IdealDigest _ testSecp256k1 _ marketBatch marketOrders.reverse
    [⟨FixedBytes.replicate 32 5, [0], [1]⟩] output output' (List.reverse_perm _).symm h h'

end ZkClob
