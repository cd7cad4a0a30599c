import ZkClob.Settlement.BookUniqueness

/-!
# Which books are accepted

The converse of what accepted books look like: books that hold every order once, in its market,
on its side and by priority pass all checks.

Main results:

- Theorem {lit}`validateBookOrders_of_pinned`: one side of an arranged book passes.
- Theorem {lit}`exists_buildValidatedBooks`: arranged books pass.
-/

namespace ZkClob

open Foundations

/-- One side of a book of the host: indices of orders of one market and side, by priority. -/
def SideArranged (orders : List SequencedOrder) (marketId : MarketId) (side : Side)
    (indices : List U32) : Prop :=
  ∃ sideOrders, List.Forall₂ (fun index order => orders[index.toNat]? = some order)
    indices sideOrders ∧
    PinnedSide marketId side sideOrders

/-- The positions of the orders that a book refers to. -/
def MarketOrderBook.positions (self : MarketOrderBook) : List Nat :=
  (self.buyIndices ++ self.sellIndices).map BitVec.toNat

/-- Books of the host that hold every order once, in its market, on its side and by priority. -/
structure BooksArranged (orders : List SequencedOrder) (config : ExchangeConfig)
    (orderBooks : List MarketOrderBook) : Prop where
  sorted : SortedBy MarketOrderBook.marketId orderBooks
  nonempty : ∀ book ∈ orderBooks, book.positions ≠ []
  known : ∀ book ∈ orderBooks, ∃ market, config.market book.marketId = some market ∧
    (config.asset market.baseAsset).isSome
  buys : ∀ book ∈ orderBooks, SideArranged orders book.marketId .Buy book.buyIndices
  sells : ∀ book ∈ orderBooks, SideArranged orders book.marketId .Sell book.sellIndices
  once : (orderBooks.flatMap MarketOrderBook.positions).Perm (List.range orders.length)

/-! ## The marks of seen indices -/

/-- The marks when exactly the given positions have been seen. -/
def seenMarks (n : Nat) (seen : List Nat) : List Bool :=
  (List.range n).map fun position => decide (position ∈ seen)

theorem seenMarks_nil (n : Nat) : seenMarks n [] = List.replicate n false := by
  apply List.eq_replicate_iff.mpr
  simp [seenMarks]

theorem getElem?_seenMarks {n position : Nat} (h : position < n) (seen : List Nat) :
    (seenMarks n seen)[position]? = some (decide (position ∈ seen)) := by
  rw [seenMarks, List.getElem?_map, List.getElem?_range h, Option.map_some]

/-- Marking one more position. -/
theorem seenMarks_set (n : Nat) (seen : List Nat) (position : Nat) :
    (seenMarks n seen).set position true = seenMarks n (seen ++ [position]) := by
  apply List.ext_getElem?
  intro i
  rw [List.getElem?_set]
  by_cases hi : i < n
  · rw [getElem?_seenMarks hi, getElem?_seenMarks hi]
    by_cases heq : position = i
    · simp [heq, seenMarks, hi]
    · simp [heq, Ne.symm heq]
  · have hnone : ∀ seen', (seenMarks n seen')[i]? = none := by
      intro seen'
      rw [List.getElem?_eq_none_iff]
      simpa [seenMarks] using hi
    rw [hnone, hnone]
    by_cases heq : position = i
    · have hlength : (seenMarks n seen).length ≤ i := by
        simpa [seenMarks] using hi
      simp [heq, hlength]
    · rw [if_neg heq]

/-! ## Arranged books pass -/

variable {orders : List SequencedOrder} {config : ExchangeConfig}

/-- One side of an arranged book passes, and marks its positions. -/
theorem validateBookOrders_of_pinned {marketId : MarketId} {side : Side} {indices : List U32}
    {sideOrders : List SequencedOrder} {seen : List Nat}
    (hentries : List.Forall₂ (fun index order => orders[index.toNat]? = some order)
      indices sideOrders)
    (hpinned : PinnedSide marketId side sideOrders)
    (hnodup : (seen ++ indices.map BitVec.toNat).Nodup) :
    validateBookOrders marketId indices side orders (seenMarks orders.length seen) =
      .ok (seenMarks orders.length (seen ++ indices.map BitVec.toNat), sideOrders) := by
  -- the orders validated so far stand in front of those that follow
  suffices hloop : ∀ validated, PinnedSide marketId side (validated ++ sideOrders) →
      indices.foldlM (validateBookOrder marketId side orders)
          (seenMarks orders.length seen, validated) =
        .ok (seenMarks orders.length (seen ++ indices.map BitVec.toNat),
          validated ++ sideOrders) from
    hloop [] hpinned
  clear hpinned
  induction hentries generalizing seen with
  | nil =>
      intro validated _
      simp only [List.foldlM_nil, List.map_nil, List.append_nil]
      rfl
  | @cons index order indices sideOrders horder hentries ih =>
      intro validated hpinned
      have hlt := (List.getElem?_eq_some_iff.mp horder).1
      have hfresh : index.toNat ∉ seen := by
        rw [List.map_cons, List.nodup_append] at hnodup
        intro hmem
        exact hnodup.2.2 _ hmem _ (List.mem_cons_self ..) rfl
      have hmember := hpinned.members order (by simp)
      have hpriority : ∀ previous, validated.getLast? = some previous →
          side.comparePriority previous order = .lt := by
        intro previous hprevious
        rw [comparePriority_eq_lt]
        exact (List.pairwise_append.mp hpinned.sorted).2.2 previous
          (List.mem_of_getLast? hprevious) order (List.mem_cons_self ..)
      have hstep : validateBookOrder marketId side orders
          (seenMarks orders.length seen, validated) index =
          .ok (seenMarks orders.length (seen ++ [index.toNat]), validated ++ [order]) := by
        simp only [validateBookOrder, Outcome.bind_eq_ok, Outcome.okOr_eq_ok, Outcome.expect_eq_ok,
          Outcome.rejectIf_eq_ok, not_not, seenMarks_set]
        refine ⟨order, horder, false, ?_, (), by simp, (), hmember.1, (), hmember.2, (), ?_, rfl⟩
        · rw [getElem?_seenMarks hlt, decide_eq_false hfresh]
        · intro hany
          rcases (Option.any_eq_true _ _).mp hany with ⟨previous, hprevious, hne⟩
          exact of_decide_eq_true hne (hpriority previous hprevious)
      have hnodup' : ((seen ++ [index.toNat]) ++ indices.map BitVec.toNat).Nodup := by
        rw [List.append_assoc]
        exact hnodup
      have hpinned' : PinnedSide marketId side ((validated ++ [order]) ++ sideOrders) := by
        rw [List.append_assoc]
        exact hpinned
      have hrest := ih hnodup' (validated ++ [order]) hpinned'
      rw [List.foldlM_cons, hstep, Outcome.ok_bind, hrest]
      simp only [List.append_assoc, List.singleton_append, List.map_cons]

/-- An arranged book passes, and marks its positions. -/
theorem exists_validateBook {book : MarketOrderBook} (books : List ValidatedMarketBook)
    {previous : Option MarketId} {seen : List Nat} {market : MarketConfig}
    (hprevious : ∀ p, previous = some p → p < book.marketId) (hnonempty : book.positions ≠ [])
    (hmarket : config.market book.marketId = some market)
    (hbase : (config.asset market.baseAsset).isSome)
    (hbuys : SideArranged orders book.marketId .Buy book.buyIndices)
    (hsells : SideArranged orders book.marketId .Sell book.sellIndices)
    (hnodup : (seen ++ book.positions).Nodup) :
    ∃ books', validateBook orders config ⟨books, previous, seenMarks orders.length seen⟩ book =
      .ok ⟨books', some book.marketId, seenMarks orders.length (seen ++ book.positions)⟩ := by
  rcases Option.isSome_iff_exists.mp hbase with ⟨baseAsset, hbase⟩
  rcases hbuys with ⟨buys, hbuyEntries, hbuyPinned⟩
  rcases hsells with ⟨sells, hsellEntries, hsellPinned⟩
  rw [MarketOrderBook.positions, List.map_append, ← List.append_assoc] at hnodup
  have hbuyOk := validateBookOrders_of_pinned hbuyEntries hbuyPinned (List.nodup_append.mp hnodup).1
  have hsellOk := validateBookOrders_of_pinned hsellEntries hsellPinned hnodup
  refine ⟨books ++ [⟨market, baseAsset, buys, sells⟩], ?_⟩
  rw [MarketOrderBook.positions, List.map_append, ← List.append_assoc]
  simp only [validateBook, Outcome.bind_eq_ok, Outcome.rejectIf_eq_ok, rejectUnsorted_eq_ok,
    Outcome.okOr_eq_ok]
  refine ⟨(), ?_, (), hprevious, market, hmarket, baseAsset, hbase, _, hbuyOk, _, hsellOk, rfl⟩
  rintro ⟨hbuyEmpty, hsellEmpty⟩
  apply hnonempty
  rw [MarketOrderBook.positions, List.isEmpty_iff.mp hbuyEmpty, List.isEmpty_iff.mp hsellEmpty]
  rfl

/-- Arranged books pass. -/
theorem exists_buildValidatedBooks {orderBooks : List MarketOrderBook}
    (h : BooksArranged orders config orderBooks) :
    ∃ books, buildValidatedBooks orders orderBooks config = .ok books := by
  have honce : (orderBooks.flatMap MarketOrderBook.positions).Nodup :=
    h.once.nodup_iff.mpr List.nodup_range
  -- behind the loop are the positions seen, ahead of it the books still to come
  have hloop := Outcome.exists_foldlM (f := validateBook orders config) (l := orderBooks)
    (s := ⟨[], none, seenMarks orders.length []⟩)
    (P := fun ahead state => ∃ seen, state.seenIndices = seenMarks orders.length seen ∧
      (∀ p, state.previousMarket = some p → ∀ book ∈ ahead, p < book.marketId) ∧
      SortedBy MarketOrderBook.marketId ahead ∧ (∀ book ∈ ahead, book ∈ orderBooks) ∧
      seen ++ ahead.flatMap MarketOrderBook.positions =
        orderBooks.flatMap MarketOrderBook.positions)
    ?_ ⟨[], rfl, by simp, h.sorted, fun _ hb => hb, rfl⟩
  · rcases hloop with ⟨state, hstate, seen, hseen, -, -, -, hall⟩
    rw [List.flatMap_nil, List.append_nil] at hall
    refine ⟨state.books, ?_⟩
    simp only [buildValidatedBooks, Outcome.bind_eq_ok, Outcome.rejectIf_eq_ok]
    rw [seenMarks_nil] at hstate
    refine ⟨state, hstate, (), ?_, rfl⟩
    -- every position has been seen
    rw [hseen, hall]
    simp only [seenMarks, List.any_map, List.any_eq_true, Function.comp_apply, not_exists, not_and]
    intro position hposition hunseen
    have hmem := h.once.mem_iff.mpr hposition
    simp [hmem] at hunseen
  · intro book ahead state hstate
    rcases state with ⟨books, previous, _⟩
    rcases hstate with ⟨seen, rfl, hprevious, hsorted, hmem, hall⟩
    have hbook := hmem book List.mem_cons_self
    rcases List.pairwise_cons.mp hsorted with ⟨hlater, haheadSorted⟩
    rcases h.known book hbook with ⟨market, hmarket, hbase⟩
    rw [List.flatMap_cons, ← List.append_assoc] at hall
    have hnodup : (seen ++ book.positions).Nodup := by
      rw [← hall] at honce
      exact (List.nodup_append.mp honce).1
    obtain ⟨books', hstep⟩ := exists_validateBook books
      (fun p hp => hprevious p hp book List.mem_cons_self) (h.nonempty book hbook) hmarket hbase
      (h.buys book hbook) (h.sells book hbook) hnodup
    refine ⟨_, hstep, seen ++ book.positions, rfl, ?_, haheadSorted, ?_, hall⟩
    · intro p hp b hb
      exact Option.some.inj hp ▸ hlater b hb
    · intro b hb
      exact hmem b (List.mem_cons_of_mem _ hb)

end ZkClob
