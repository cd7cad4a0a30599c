import ZkClob.Host.BuilderInvariants
import ZkClob.Settlement.WellFormed

/-!
# What the builder builds

The builder checks calls one by one against sets and maps that it keeps, and sorts when it
builds.  The guest checks a complete batch against sorted vectors and index hints.  What the
builder builds out of accepted calls is put together as the guest wants it.

Main results:

- Theorem {lit}`BatchBuilder.sortBook_spec`: the sorted indices of one side are arranged by
  priority.
- Theorem {lit}`BatchBuilder.Output.booksArranged`: the built books hold every order once, in its
  market, on its side and by priority.
- Theorem {lit}`BatchBuilder.wellFormed_of_build`: a built batch is well-formed.
-/

namespace ZkClob

open Foundations Patricia

/-- In a valid configuration the search finds every market. -/
theorem ValidConfig.market_eq {config : ExchangeConfig} {accounts : List Account}
    (h : ValidConfig config accounts) {market : MarketConfig} (hmarket : market ∈ config.markets) :
    config.market market.id = some market := by
  unfold ExchangeConfig.market
  cases hsearch : binarySearchByKey MarketConfig.id market.id config.markets with
  | ok index =>
      rcases h.markets.search_ok_iff.mp hsearch with ⟨found, hfound, hid⟩
      exact hfound.trans (congrArg some
        (h.markets.eq_of_key_eq (List.mem_of_getElem? hfound) hmarket hid))
  | error index =>
      exact absurd rfl (h.markets.search_error_iff.mp ⟨index, hsearch⟩ market hmarket)

namespace BatchBuilder

/-! ## One side of a book -/

/-- The indices with their orders. -/
theorem entries_of_mapM {orders : List SequencedOrder} {indices : List U32}
    {entries : List (U32 × SequencedOrder)}
    (h : (indices.mapM fun index => do
      let order ← Outcome.expect orders[index.toNat]?
      .ok (index, order)) = (.ok entries : Outcome BatchBuildError _)) :
    entries.map Prod.fst = indices ∧ ∀ entry ∈ entries, orders[entry.1.toNat]? = some entry.2 := by
  constructor
  · rw [← List.map_id indices]
    apply map_eq_of_forall₂
    apply (Outcome.mapM_eq_ok.mp h).imp
    intro index entry hentry
    simp only [Outcome.bind_eq_ok, Except.ok.injEq] at hentry
    rcases hentry with ⟨_, _, rfl⟩
    rfl
  · intro entry hentry
    rcases Outcome.exists_of_mem_mapM h hentry with ⟨index, _, hindex⟩
    simp only [Outcome.bind_eq_ok, Outcome.expect_eq_ok, Except.ok.injEq] at hindex
    rcases hindex with ⟨order, horder, rfl⟩
    exact horder

/-- The sorted entries are in the order of priority. -/
theorem insertionSort_priority (side : Side) (entries : List (U32 × SequencedOrder)) :
    (entries.insertionSort fun left right =>
      (side.comparePriority left.2 right.2).isLE = true).Pairwise fun left right =>
        priorityKey side left.2 ≤ priorityKey side right.2 := by
  have htotal : Std.Total fun left right : U32 × SequencedOrder =>
      (side.comparePriority left.2 right.2).isLE = true := by
    constructor
    intro left right
    rw [comparePriority_isLE, comparePriority_isLE]
    exact le_total _ _
  have htrans : IsTrans (U32 × SequencedOrder) fun left right =>
      (side.comparePriority left.2 right.2).isLE = true := by
    constructor
    intro left middle right
    rw [comparePriority_isLE, comparePriority_isLE, comparePriority_isLE]
    exact le_trans
  apply (List.pairwise_insertionSort _ entries).imp
  intro left right hle
  exact comparePriority_isLE.mp hle

/-- Orders of different positions have different priorities. -/
theorem priorityKey_ne {orders : List SequencedOrder} {side : Side}
    (hsequences : (orders.map SequencedOrder.sequence).Nodup) {i j : Nat}
    {left right : SequencedOrder}
    (hleft : orders[i]? = some left) (hright : orders[j]? = some right) (hne : i ≠ j) :
    priorityKey side left ≠ priorityKey side right := by
  intro heq
  have hsequence := sequence_eq_of_priorityKey_eq heq
  have hlt : i < (orders.map SequencedOrder.sequence).length := by
    rw [List.length_map]
    exact (List.getElem?_eq_some_iff.mp hleft).1
  apply hne
  apply (List.getElem?_inj hlt hsequences).mp
  rw [List.getElem?_map, List.getElem?_map, hleft, hright, Option.map_some, Option.map_some,
    hsequence]

/-- Sorting the indices of one side arranges the side by priority. -/
theorem sortBook_spec {orders : List SequencedOrder} {marketId : MarketId} {side : Side}
    {indices sorted : List U32} (hsequences : (orders.map SequencedOrder.sequence).Nodup)
    (hindices : indices.map BitVec.toNat = positionsOf orders marketId side)
    (h : sortBook side orders indices = .ok sorted) :
    sorted.Perm indices ∧ SideArranged orders marketId side sorted := by
  simp only [sortBook, Outcome.bind_eq_ok, Except.ok.injEq] at h
  rcases h with ⟨entries, hentries, rfl⟩
  rcases entries_of_mapM hentries with ⟨hfst, hmem⟩
  have hpositions : entries.map (fun entry => entry.1.toNat) =
      positionsOf orders marketId side := by
    rw [← hindices, ← hfst, List.map_map]
    rfl
  have hside : ∀ entry ∈ entries, entry.2.marketId = marketId ∧ entry.2.side = side := by
    intro entry hentry
    have hposition : entry.1.toNat ∈ positionsOf orders marketId side := by
      rw [← hpositions]
      exact List.mem_map.mpr ⟨entry, hentry, rfl⟩
    rcases mem_positionsOf.mp hposition with ⟨order, horder, hkey⟩
    rw [hmem entry hentry, Option.some.injEq] at horder
    exact horder ▸ hkey
  have hdistinct : entries.Pairwise fun left right => left.1.toNat ≠ right.1.toNat := by
    apply List.pairwise_map.mp
    rw [hpositions]
    exact List.nodup_range.filter _
  have hsorted := insertionSort_priority side entries
  have hperm := List.perm_insertionSort
    (fun left right : U32 × SequencedOrder =>
      (side.comparePriority left.2 right.2).isLE = true) entries
  generalize List.insertionSort (fun left right : U32 × SequencedOrder =>
    (side.comparePriority left.2 right.2).isLE = true) entries = arranged at hperm hsorted ⊢
  have hdistinct' := (hperm.pairwise_iff fun h => Ne.symm h).mpr hdistinct
  refine ⟨hfst ▸ hperm.map Prod.fst, arranged.map Prod.snd, ?_, ?_, ?_⟩
  · rw [List.forall₂_map_left_iff, List.forall₂_map_right_iff, List.forall₂_same]
    intro entry hentry
    exact hmem entry (hperm.mem_iff.mp hentry)
  · apply List.pairwise_map.mpr
    apply (hsorted.and hdistinct').imp_of_mem
    rintro left right hleft hright ⟨hle, hne⟩
    exact lt_of_le_of_ne hle (priorityKey_ne hsequences (hmem left (hperm.mem_iff.mp hleft))
      (hmem right (hperm.mem_iff.mp hright)) hne)
  · intro order horder
    rcases List.mem_map.mp horder with ⟨entry, hentry, rfl⟩
    exact hside entry (hperm.mem_iff.mp hentry)

/-! ## Orders and nonces -/

variable {B256 : Type} [Sha256 B256] {b : BatchBuilder} {input : BatchInput B256}

/-- The market and side of the orders are those of the accepted ones. -/
theorem Output.positionsOf_eq (h : Output b input) (marketId : MarketId) (side : Side) :
    positionsOf input.orders marketId side = positionsOf b.orders marketId side := by
  have hlength := h.orders.length_eq
  have hkeys : input.orders.map (fun o => (o.marketId, o.side)) =
      b.orders.map fun o => (o.marketId, o.side) := h.orders.map_eq fun _ _ => rfl
  unfold positionsOf
  rw [hlength]
  apply List.filter_congr
  intro position _
  have hat := congrArg (fun keys => keys[position]?) hkeys
  simp only [List.getElem?_map] at hat
  cases hout : input.orders[position]? with
  | none =>
      rw [hout, Option.map_none, eq_comm, Option.map_eq_none_iff] at hat
      rw [hat]
  | some o =>
      rw [hout, Option.map_some, eq_comm, Option.map_eq_some_iff] at hat
      rcases hat with ⟨o', ho', hkey⟩
      rw [ho', Option.any_some, Option.any_some]
      rw [Prod.mk.injEq] at hkey
      rw [hkey.1, hkey.2]

/-- The nonces of an account are those of the accepted operations. -/
theorem Output.noncesOf_eq (h : Output b input) (id : AccountId) :
    noncesOf input.orders input.withdrawals id = noncesOf b.orders b.withdrawals id := by
  have horders : input.orders.map (fun o => (o.trader, o.nonce)) =
      b.orders.map fun o => (o.trader, o.nonce) := h.orders.map_eq fun _ _ => rfl
  have hwithdrawals : input.withdrawals.map (fun w => (w.account, w.nonce)) =
      b.withdrawals.map fun w => (w.account, w.nonce) := h.withdrawals.map_eq fun _ _ => rfl
  have hsame : ∀ {α : Type} {l l' : List α} {account : α → AccountId} {nonce : α → U64},
      l.map (fun a => (account a, nonce a)) = l'.map (fun a => (account a, nonce a)) →
      (l.filter fun a => account a = id).map (fun a => (nonce a).toNat) =
        (l'.filter fun a => account a = id).map fun a => (nonce a).toNat := by
    intro α l l' account nonce hpairs
    have hfiltered := congrArg (fun pairs : List (AccountId × U64) =>
      (pairs.filter fun p => p.1 = id).map fun p => p.2.toNat) hpairs
    simpa only [List.filter_map, List.map_map, Function.comp_def] using hfiltered
  exact congrArg₂ (· ++ ·) (hsame horders) (hsame hwithdrawals)

/-! ## Books -/

theorem Output.orderBooks_marketIds (h : Output b input) :
    input.orderBooks.map MarketOrderBook.marketId = b.books.keys := by
  apply map_eq_of_forall₂
  apply h.orderBooks.imp
  intro entry book hbook
  exact hbook.1

/-- A built book: its sides are arranged, and it points at all orders of its market. -/
theorem Output.book_spec (h : Output b input) (haccepted : Accepted b) {book : MarketOrderBook}
    (hbook : book ∈ input.orderBooks) :
    SideArranged input.orders book.marketId .Buy book.buyIndices ∧
      SideArranged input.orders book.marketId .Sell book.sellIndices ∧
      book.positions.Perm (positionsOf input.orders book.marketId .Buy ++
        positionsOf input.orders book.marketId .Sell) := by
  have hsequences : (input.orders.map SequencedOrder.sequence).Nodup := by
    rw [h.orders.map_eq fun _ _ => rfl]
    exact haccepted.sequences.1
  rcases List.mem_iff_getElem?.mp hbook with ⟨n, hn⟩
  have hlt : n < b.books.entries.length := by
    rw [List.Forall₂.length_eq h.orderBooks]
    exact (List.getElem?_eq_some_iff.mp hn).1
  rcases getElem?_of_forall₂ h.orderBooks (List.getElem?_eq_getElem hlt) hn with
    ⟨hmarket, hbuys, hsells⟩
  have hget : b.books.get book.marketId = some b.books.entries[n].2 := by
    rw [OrderedMap.get_eq_some, hmarket]
    exact List.getElem_mem hlt
  have hbuySide : b.bookSide book.marketId .Buy = b.books.entries[n].2.1 := by
    rw [bookSide, hget]
    rfl
  have hsellSide : b.bookSide book.marketId .Sell = b.books.entries[n].2.2 := by
    rw [bookSide, hget]
    rfl
  have hpositions : ∀ side, (b.bookSide book.marketId side).map BitVec.toNat =
      positionsOf input.orders book.marketId side := by
    intro side
    rw [haccepted.books, h.positionsOf_eq]
  have hbuyPositions := hpositions .Buy
  have hsellPositions := hpositions .Sell
  rw [hbuySide] at hbuyPositions
  rw [hsellSide] at hsellPositions
  rcases sortBook_spec hsequences hbuyPositions hbuys with ⟨hbuyPerm, hbuyArranged⟩
  rcases sortBook_spec hsequences hsellPositions hsells with ⟨hsellPerm, hsellArranged⟩
  refine ⟨hbuyArranged, hsellArranged, ?_⟩
  rw [MarketOrderBook.positions, List.map_append, ← hbuyPositions, ← hsellPositions]
  exact (hbuyPerm.map _).append (hsellPerm.map _)

/-- Every accepted order has a book. -/
theorem Output.exists_book (h : Output b input) (haccepted : Accepted b) {position : Nat}
    {order : SequencedOrder} (horder : input.orders[position]? = some order) :
    ∃ book ∈ input.orderBooks, book.marketId = order.marketId := by
  have hmem : position ∈ positionsOf input.orders order.marketId order.side :=
    mem_positionsOf.mpr ⟨order, horder, rfl, rfl⟩
  rw [h.positionsOf_eq, ← haccepted.books] at hmem
  have hkey : order.marketId ∈ b.books.keys := by
    rw [OrderedMap.mem_keys]
    unfold bookSide at hmem
    cases hget : b.books.get order.marketId with
    | none =>
        rw [hget] at hmem
        cases hside : order.side <;> rw [hside] at hmem <;> cases hmem
    | some book => rfl
  rw [← h.orderBooks_marketIds] at hkey
  exact List.mem_map.mp hkey

theorem Output.orderBooks_sorted (h : Output b input) :
    SortedBy MarketOrderBook.marketId input.orderBooks := by
  apply List.pairwise_map.mp
  rw [h.orderBooks_marketIds]
  exact b.books.keys_sorted

/-- The positions in the built books are those of the orders, each once. -/
theorem Output.positions_perm (h : Output b input) (haccepted : Accepted b) :
    (input.orderBooks.flatMap MarketOrderBook.positions).Perm (List.range input.orders.length) := by
  have hmem : ∀ book ∈ input.orderBooks, ∀ position, position ∈ book.positions ↔
      ∃ o, input.orders[position]? = some o ∧ o.marketId = book.marketId := by
    intro book hbook position
    rw [(h.book_spec haccepted hbook).2.2.mem_iff, mem_positionsOf_sides]
  have hnodup : (input.orderBooks.flatMap MarketOrderBook.positions).Nodup := by
    apply List.nodup_flatMap.mpr
    constructor
    · intro book hbook
      exact (h.book_spec haccepted hbook).2.2.nodup_iff.mpr (positionsOf_sides_nodup _ _)
    · -- an order is in the book of one market only
      apply h.orderBooks_sorted.imp_of_mem
      intro book book' hbook hbook' hlt position hpos hpos'
      rcases (hmem book hbook position).mp hpos with ⟨o, ho, hmarket⟩
      rcases (hmem book' hbook' position).mp hpos' with ⟨o', ho', hmarket'⟩
      rw [ho, Option.some.injEq] at ho'
      rw [← hmarket, ← hmarket', ho'] at hlt
      exact lt_irrefl _ hlt
  apply (List.perm_ext_iff_of_nodup hnodup List.nodup_range).mpr
  intro position
  rw [List.mem_flatMap, List.mem_range]
  constructor
  · rintro ⟨book, hbook, hpos⟩
    rcases (hmem book hbook position).mp hpos with ⟨o, ho, _⟩
    exact (List.getElem?_eq_some_iff.mp ho).1
  · intro hlt
    have ho := List.getElem?_eq_getElem hlt
    rcases h.exists_book haccepted ho with ⟨book, hbook, hmarket⟩
    exact ⟨book, hbook, (hmem book hbook position).mpr ⟨_, ho, hmarket.symm⟩⟩

/-- The built books hold every order once, in its market, on its side and by priority. -/
theorem Output.booksArranged (h : Output b input) (haccepted : Accepted b)
    {accounts : List Account} (hconfig : ValidConfig b.config accounts) :
    BooksArranged input.orders input.config input.orderBooks := by
  -- every book belongs to an accepted order
  have hused : ∀ book ∈ input.orderBooks, ∃ o ∈ b.orders, o.marketId = book.marketId := by
    intro book hbook
    apply haccepted.markets
    rw [← h.orderBooks_marketIds]
    exact List.mem_map_of_mem hbook
  refine ⟨h.orderBooks_sorted, ?_, ?_, ?_, ?_, h.positions_perm haccepted⟩
  · intro book hbook
    rcases hused book hbook with ⟨o, ho, hmarket⟩
    rcases List.mem_iff_getElem?.mp ho with ⟨n, hn⟩
    have hmem : n ∈ positionsOf input.orders book.marketId o.side := by
      rw [h.positionsOf_eq]
      exact mem_positionsOf.mpr ⟨o, hn, hmarket, rfl⟩
    apply List.ne_nil_of_mem (a := n)
    rw [(h.book_spec haccepted hbook).2.2.mem_iff, List.mem_append]
    cases hside : o.side with
    | Buy => exact Or.inl (hside ▸ hmem)
    | Sell => exact Or.inr (hside ▸ hmem)
  · intro book hbook
    rcases hused book hbook with ⟨o, ho, hid⟩
    rcases (haccepted.orders.2 o ho).2.2 with ⟨market, hmarket, hmarketId⟩
    refine ⟨market, ?_, ?_⟩
    · rw [h.config, ← hid, ← hmarketId]
      exact hconfig.market_eq hmarket
    · rw [h.config]
      exact (hconfig.known market hmarket).1
  · intro book hbook
    exact (h.book_spec haccepted hbook).1
  · intro book hbook
    exact (h.book_spec haccepted hbook).2.1

/-! ## Nonces -/

/-- Accepted nonces are the consecutive ones from the next nonce on. -/
theorem checkNonces_eq_ok {account : AccountId} {nonces : OrderedSet Nat} {next : U64}
    (h : b.checkNonces account nonces = .ok next) :
    nonces.keys = List.range' (b.nextNonce account).toNat nonces.keys.length ∧
      (b.nextNonce account).toNat + nonces.keys.length < 2 ^ 64 := by
  have hstep : ∀ (expected : U64) (nonce : Nat) (next : U64), (do
      Outcome.rejectIf (nonce ≠ expected.toNat) (.InvalidNonce account)
      Outcome.okOr (FixedWidth.checkedAdd expected 1) (.InvalidNonce account) :
        Outcome BatchBuildError U64) = .ok next ↔
      BitVec.ofNat 64 nonce = expected ∧ nonce < 2 ^ 64 ∧ next.toNat = expected.toNat + 1 := by
    intro expected nonce next
    simp only [Outcome.bind_eq_ok, Outcome.rejectIf_eq_ok, not_not, Outcome.okOr_eq_ok,
      FixedWidth.checkedAdd_eq_some]
    constructor
    · rintro ⟨_, rfl, hnext⟩
      exact ⟨BitVec.ofNat_toNat .., expected.isLt, hnext⟩
    · rintro ⟨rfl, hlt, hnext⟩
      refine ⟨(), ?_, hnext⟩
      rw [BitVec.toNat_ofNat, Nat.mod_eq_of_lt hlt]
  rcases (exists_foldlM_count hstep).mp ⟨next, h⟩ with ⟨hids, hroom, hsmall⟩
  have hsame : nonces.keys.map (fun nonce => (BitVec.ofNat 64 nonce).toNat) =
      nonces.keys.map id := by
    apply List.map_congr_left
    intro nonce hmem
    rw [BitVec.toNat_ofNat, Nat.mod_eq_of_lt (hsmall nonce hmem), id_eq]
  rw [List.map_id] at hsame
  exact ⟨hsame.symm.trans hids, hroom⟩

/-- The witness opens the touched accounts that the tree holds. -/
theorem Output.accounts_eq (h : Output b input) :
    input.state.accounts = b.touchedAccounts.keys.filterMap b.state.state.lookup := by
  have hwitness := h.state
  rw [AccountTree.witness, Outcome.mapError_eq_ok] at hwitness
  exact (State.witnessFor_eq_ok hwitness).1

/-- The next nonce of a touched account is the one that the guest sees. -/
theorem Output.nonceOf_eq (h : Output b input) (hstate : b.state.Coherent) {id : AccountId}
    (hid : id ∈ b.touchedAccounts.keys) :
    nonceOf input.state.accounts id = (b.nextNonce id).toNat := by
  have haccounts := h.accounts_eq
  have hnodup : (input.state.accounts.map Account.id).Nodup := by
    rw [haccounts]
    exact (State.lookup_sorted hstate.sorted b.touchedAccounts.keys_sorted).nodup_map
  unfold nextNonce
  cases hheld : b.state.account id with
  | some account =>
      rcases hstate.account_eq_some_iff.mp hheld with ⟨hmem, hsame⟩
      have hwitnessed : account ∈ input.state.accounts := by
        rw [haccounts, List.mem_filterMap]
        exact ⟨id, hid, (State.lookup_eq_some_iff hstate.sorted).mpr ⟨hmem, hsame⟩⟩
      rw [← hsame]
      exact nonceOf_eq_nextNonce hnodup hwitnessed
  | none =>
      have habsent : input.state.accounts.find? (fun account => account.id = id) = none := by
        rw [List.find?_eq_none]
        intro account hmem hsame
        rw [haccounts, List.mem_filterMap] at hmem
        rcases hmem with ⟨id', _, hfound⟩
        have hfound := (State.lookup_eq_some_iff hstate.sorted).mp hfound
        have hsome := hstate.account_eq_some_iff.mpr ⟨hfound.1, of_decide_eq_true hsame⟩
        rw [hheld] at hsome
        cases hsome
      unfold nonceOf
      rw [habsent]
      rfl

/-- The nonces of a built batch are consecutive from the next ones on. -/
theorem Output.nonces_range (h : Output b input) (hstate : b.state.Coherent) (hinv : Inv b)
    (haccepted : Accepted b) (id : AccountId) :
    (noncesOf input.orders input.withdrawals id).Perm
        (List.range' (nonceOf input.state.accounts id)
          (noncesOf input.orders input.withdrawals id).length) ∧
      nonceOf input.state.accounts id +
        (noncesOf input.orders input.withdrawals id).length < 2 ^ 64 := by
  have hperm := haccepted.nonces id
  rw [h.noncesOf_eq]
  by_cases hnone : noncesOf b.orders b.withdrawals id = []
  · rw [hnone]
    exact ⟨List.Perm.refl _, nonceOf_lt _ id⟩
  · -- an account with operations is touched, and its nonces have been checked
    have htouched : id ∈ b.touchedAccounts.keys := by
      rcases List.exists_mem_of_ne_nil _ hnone with ⟨nonce, hmem⟩
      rw [hinv.mem_touched, participants]
      simp only [noncesOf, List.mem_append, List.mem_map, List.mem_filter,
        decide_eq_true_eq] at hmem
      simp only [List.mem_cons, List.mem_append, List.mem_map]
      rcases hmem with ⟨o, ⟨ho, hid⟩, _⟩ | ⟨w, ⟨hw, hid⟩, _⟩
      · exact Or.inr (Or.inl (Or.inr ⟨o, ho, hid⟩))
      · exact Or.inr (Or.inr ⟨w, hw, hid⟩)
    have hchecked : ∃ next, b.checkNonces id (b.usedNonces id) = .ok next := by
      unfold usedNonces at hperm ⊢
      cases hget : b.nonces.get id with
      | none =>
          rw [hget] at hperm
          exact absurd hperm.eq_nil hnone
      | some nonces => exact h.nonces (id, nonces) (OrderedMap.get_eq_some.mp hget)
    rcases hchecked with ⟨next, hnext⟩
    rcases checkNonces_eq_ok hnext with ⟨hrange, hroom⟩
    rw [h.nonceOf_eq hstate htouched, hperm.length_eq]
    refine ⟨?_, hroom⟩
    rw [← hrange]
    exact hperm

/-! ## Whole batches -/

/-- Consecutive ids below the last number leave room for the cursor behind them. -/
theorem room_of_ids {α : Type} {id : α → Nat} {l : List α} {cursor : U64}
    (hids : l.map id = List.range' cursor.toNat l.length) (hbelow : ∀ a ∈ l, id a < 2 ^ 64 - 1) :
    cursor.toNat + l.length < 2 ^ 64 := by
  by_cases hl : l = []
  · rw [hl, List.length_nil, Nat.add_zero]
    exact cursor.isLt
  · have hpos := List.length_pos_of_ne_nil hl
    have hlast : cursor.toNat + (l.length - 1) ∈ l.map id := by
      rw [hids, List.mem_range'_1]
      omega
    rcases List.mem_map.mp hlast with ⟨a, ha, hid⟩
    have hlt := hbelow a ha
    omega

/-- There are no more books than markets. -/
theorem Output.length_orderBooks_le (h : Output b input) (haccepted : Accepted b) :
    input.orderBooks.length ≤ b.config.markets.length := by
  have hnodup : b.books.keys.Nodup := b.books.keys_nodup
  have hsub : b.books.keys ⊆ b.config.markets.map MarketConfig.id := by
    intro marketId hmem
    rcases haccepted.markets marketId hmem with ⟨o, ho, rfl⟩
    rcases (haccepted.orders.2 o ho).2.2 with ⟨market, hmarket, hid⟩
    exact hid ▸ List.mem_map_of_mem hmarket
  have hle := (List.subperm_of_subset hnodup hsub).length_le
  rw [← h.orderBooks_marketIds, List.length_map, List.length_map] at hle
  exact hle

/-- When the requests are of known accounts, all touched accounts are known. -/
theorem known_of_touched (hinv : Inv b) (haccepted : Accepted b)
    (hrecipient : b.config.fees.recipient ∈ b.state.state.accounts.map Account.id)
    (hforced : ∀ r ∈ b.forcedWithdrawals, b.Known r.account) :
    ∀ id ∈ b.touchedAccounts.keys, b.Known id := by
  intro id hid
  rw [hinv.mem_touched, participants] at hid
  simp only [List.mem_cons, List.mem_append, List.mem_map] at hid
  rcases hid with rfl | ((⟨d, hd, rfl⟩ | ⟨r, hr, rfl⟩) | ⟨o, ho, rfl⟩) | ⟨w, hw, rfl⟩
  · exact Or.inl hrecipient
  · exact Or.inr (List.mem_map_of_mem hd)
  · exact hforced r hr
  · exact haccepted.known.1 o ho
  · exact haccepted.known.2 w hw

/-- The ranks attached by the builder are the positions after the deposits. -/
theorem indexed_of_known (hstate : b.state.Coherent) (hinv : Inv b) (hbuild : b.build = .ok input)
    (hknown : ∀ id ∈ b.touchedAccounts.keys, b.Known id) {accounts : List Account}
    (happly : applyDeposits input.state.accounts input.deposits = .ok accounts) :
    (∀ o ∈ input.orders, IndexedIn (accounts.map Account.id) o.accountIndex o.trader) ∧
      ∀ w ∈ input.withdrawals, IndexedIn (accounts.map Account.id) w.accountIndex w.account := by
  have hids := deposited_ids hstate.sorted hinv (build_spec hbuild) happly
  have hall : b.touchedAccounts.keys.filter (fun id => b.Known id) = b.touchedAccounts.keys := by
    apply List.filter_eq_self.mpr
    intro id hid
    exact decide_eq_true (hknown id hid)
  rw [hids, hall]
  have houtput := build_output hbuild
  constructor
  · intro o ho
    rcases houtput.orders.exists_of_mem ho with ⟨a, _, i, hi, rfl⟩
    exact ⟨i, rfl, accountIndex_eq_ok hinv hi⟩
  · intro w hw
    rcases houtput.withdrawals.exists_of_mem hw with ⟨a, _, i, hi, rfl⟩
    exact ⟨i, rfl, accountIndex_eq_ok hinv hi⟩

/-- The batch keeps to the limits that the guest checks. -/
theorem Output.validateLimits_eq (h : Output b input) (hinv : Inv b) (haccepted : Accepted b)
    (hassets : b.config.assets.length ≤ MAX_ASSETS)
    (hmarkets : b.config.markets.length ≤ MAX_MARKETS) : validateLimits input = .ok () := by
  apply validateLimits_of_le
  · rw [h.accounts_eq]
    apply (List.length_filterMap_le _ _).trans
    rw [OrderedMap.keys, List.length_map]
    exact hinv.bounded
  · rw [h.orders.length_eq]
    exact haccepted.orders.1
  · rw [h.deposits.length_eq]
    exact haccepted.deposits.1
  · rw [h.withdrawals.length_eq]
    exact haccepted.withdrawals.1
  · rw [h.forcedWithdrawals.length_eq]
    exact haccepted.forcedWithdrawals.1
  · rw [h.config]
    exact hassets
  · rw [h.config]
    exact hmarkets
  · exact (h.length_orderBooks_le haccepted).trans hmarkets

/-- The configuration stays valid over the witness, since the witness opens the fee recipient. -/
theorem Output.validateConfig_eq (h : Output b input) (hstate : b.state.Coherent) (hinv : Inv b)
    (hconfig : validateConfig b.config b.state.state.accounts = .ok ()) :
    validateConfig input.config input.state.accounts = .ok () := by
  rw [h.config]
  apply validateConfig_of_mem hconfig
  rcases List.mem_map.mp (validateConfig_spec hconfig).recipient with ⟨account, hmem, hid⟩
  rw [h.accounts_eq, ← hid]
  apply List.mem_map_of_mem
  rw [List.mem_filterMap]
  refine ⟨b.config.fees.recipient, ?_, (State.lookup_eq_some_iff hstate.sorted).mpr ⟨hmem, hid⟩⟩
  rw [hinv.mem_touched]
  exact List.mem_cons_self

/-- A built batch is well-formed. -/
theorem wellFormed_of_build (hstate : b.state.Coherent)
    (hcanonical : AccountsCanonical b.state.state.accounts)
    (hconfig : validateConfig b.config b.state.state.accounts = .ok ())
    (hassets : b.config.assets.length ≤ MAX_ASSETS)
    (hmarkets : b.config.markets.length ≤ MAX_MARKETS)
    (hinv : Inv b) (haccepted : Accepted b)
    (hdepositIds : ∀ d ∈ b.deposits, d.id.toNat < 2 ^ 64 - 1)
    (hforcedIds : ∀ r ∈ b.forcedWithdrawals, r.id.toNat < 2 ^ 64 - 1)
    (hforced : ∀ r ∈ b.forcedWithdrawals, b.Known r.account) (hbuild : b.build = .ok input) :
    WellFormed input b.touchedAccounts.keys := by
  have h := build_output hbuild
  have hvalid := validateConfig_spec hconfig
  have haccounts := h.accounts_eq
  have hwitness := h.state
  rw [AccountTree.witness, Outcome.mapError_eq_ok] at hwitness
  have hkeysSorted := b.touchedAccounts.keys_sorted
  have hkeysNodup := b.touchedAccounts.keys_nodup
  have hrecipient : b.config.fees.recipient ∈ b.touchedAccounts.keys := by
    rw [hinv.mem_touched]
    exact List.mem_cons_self
  have hne := List.ne_nil_of_mem hrecipient
  have hdepositCursor : b.deposits.map (fun d => d.id.toNat) =
      List.range' b.oldDepositCursor.toNat b.deposits.length := haccepted.deposits.2.1
  have hforcedCursor : b.forcedWithdrawals.map (fun r => r.id.toNat) =
      List.range' b.oldForcedWithdrawalCursor.toNat b.forcedWithdrawals.length :=
    haccepted.forcedWithdrawals.2.1
  have hknown := known_of_touched hinv haccepted hvalid.recipient hforced
  exact {
    limits := h.validateLimits_eq hinv haccepted hassets hmarkets
    config := h.validateConfig_eq hstate hinv hconfig
    canonical := State.witness_canonical hcanonical hkeysSorted hwitness
    room := by
      rw [OrderedMap.keys, List.length_map]
      exact hinv.bounded
    witnessed := by
      intro account hmem
      rw [haccounts, List.mem_filterMap] at hmem
      rcases hmem with ⟨id, hid, hfound⟩
      rw [((State.lookup_eq_some_iff hstate.sorted).mp hfound).2]
      exact hid
    deposited := by
      intro d hd
      rcases h.deposits.exists_of_mem hd with ⟨d', hd', i, _, rfl⟩
      rw [hinv.mem_touched, participants]
      simp only [List.mem_cons, List.mem_append, List.mem_map]
      exact Or.inr (Or.inl (Or.inl (Or.inl ⟨d', hd', rfl⟩)))
    oldRoot := by
      rcases State.root_of_witness hstate.sorted hne hkeysNodup hwitness with ⟨root, hroot, hwhole⟩
      have hexpected := h.oldRoot
      simp only [AccountTree.root, State.root, hwhole, Except.ok.injEq] at hexpected
      rw [hroot, hexpected]
    newRoot := by
      intro accounts hnodup hlisted
      rcases State.root_of_witnessFor hstate.sorted hne hkeysNodup hwitness hnodup hlisted with
        ⟨root, hroot, _⟩
      exact ⟨root, hroot⟩
    deposits := by
      rw [h.deposits.map_eq (f := fun d => d.id.toNat) fun _ _ => rfl, h.deposits.length_eq,
        h.oldDepositCursor, h.config]
      refine ⟨hdepositCursor, room_of_ids hdepositCursor hdepositIds, ?_⟩
      intro d hd
      rcases h.deposits.exists_of_mem hd with ⟨d', hd', i, _, rfl⟩
      exact haccepted.deposits.2.2 d' hd'
    forcedWithdrawals := by
      rw [h.forcedWithdrawals.map_eq (f := fun r => r.id.toNat) fun _ _ => rfl,
        h.forcedWithdrawals.length_eq, h.oldForcedWithdrawalCursor]
      refine ⟨hforcedCursor, room_of_ids hforcedCursor hforcedIds, ?_⟩
      intro r hr
      rcases h.forcedWithdrawals.exists_of_mem hr with ⟨r', hr', i, _, rfl⟩
      exact haccepted.forcedWithdrawals.2.2 r' hr'
    withdrawals := by
      intro w hw
      rcases h.withdrawals.exists_of_mem hw with ⟨w', hw', i, _, rfl⟩
      rw [h.config]
      exact haccepted.withdrawals.2 w' hw'
    orders := by
      intro o ho
      rcases h.orders.exists_of_mem ho with ⟨o', ho', i, _, rfl⟩
      rcases haccepted.orders.2 o' ho' with ⟨hprice, hquantity, market, hmarket, hid⟩
      refine ⟨hprice, hquantity, ?_⟩
      have hfound := hvalid.market_eq hmarket
      rw [hid] at hfound
      rw [h.config]
      exact Option.isSome_iff_exists.mpr ⟨market, hfound⟩
    sequences := by
      rw [h.orders.map_eq fun _ _ => rfl]
      exact haccepted.sequences.1
    indexed := fun accounts happly => indexed_of_known hstate hinv hbuild hknown happly
    nonces := fun id => (h.nonces_range hstate hinv haccepted id).1
    nonceRoom := fun id => (h.nonces_range hstate hinv haccepted id).2
    books := h.booksArranged haccepted hvalid }

end BatchBuilder

end ZkClob
