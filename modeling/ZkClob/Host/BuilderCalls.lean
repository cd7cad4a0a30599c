import ZkClob.Foundations.Histories
import ZkClob.Host.BatchBuilder

/-!
# Accepted calls of the builder

A call of the builder makes its checks one by one and then changes a few fields.  Here is, for each
of the four calls, what its acceptance says about the item and which builder it leaves.

Main results:

- Theorems {lit}`BatchBuilder.deposit_eq_ok`, {lit}`BatchBuilder.forcedWithdraw_eq_ok`,
  {lit}`BatchBuilder.order_eq_ok` and {lit}`BatchBuilder.withdraw_eq_ok`: what an accepted call has
  checked and done.
- Theorem {lit}`BatchBuilder.withdraw_covered`: what an admitted withdrawal leaves of the committed
  balance.
- Theorem {lit}`BatchBuilder.run_keeps`: what accepted calls keep, a run keeps.
-/

namespace ZkClob

open Foundations

namespace BatchBuilder

variable {b b' : BatchBuilder}

theorem checkTouched_eq_ok {account : AccountId} {u : Unit} :
    b.checkTouched account = .ok u ↔ b.touchedAccounts.contains account = true ∨
      b.touchedAccounts.len < MAX_TOUCHED_ACCOUNTS_PER_BATCH := by
  rw [checkTouched, Outcome.rejectIf_eq_ok, not_and_or, not_not, ge_iff_le, not_le]

/-- The next id of a queue, as the builder computes it. -/
theorem expected_eq {cursor id expected : U64} {n : Nat} (hn : n < 2 ^ 64)
    (h : FixedWidth.checkedAdd cursor (BitVec.ofNat 64 n) = some expected) (hid : id = expected) :
    id.toNat = cursor.toNat + n := by
  rw [FixedWidth.checkedAdd_eq_some, BitVec.toNat_ofNat, Nat.mod_eq_of_lt hn] at h
  rw [hid, h]

theorem deposit_eq_ok {d : Deposit} (h : b.deposit d = .ok b') :
    (b.deposits.length < MAX_DEPOSITS_PER_BATCH ∧
      d.id.toNat = b.oldDepositCursor.toNat + b.deposits.length ∧
      d.amount ≠ 0 ∧ (b.config.asset d.asset).isSome) ∧
    b.checkTouched d.account = .ok () ∧ b' = { b with
      touchedAccounts := b.touchedAccounts.add d.account
      deposits := b.deposits ++ [d] } := by
  simp only [deposit, Outcome.bind_eq_ok, Outcome.rejectIf_eq_ok, Outcome.okOr_eq_ok, not_not,
    ge_iff_le, not_le, Except.ok.injEq, Option.isNone_iff_eq_none] at h
  rcases h with ⟨_, hlength, expected, hexpected, _, hid, _, hamount, _, hasset, _, hroom, hb'⟩
  have hfits : b.deposits.length < 2 ^ 64 := hlength.trans (by decide)
  refine ⟨⟨hlength, expected_eq hfits hexpected hid, hamount, ?_⟩, hroom, hb'.symm⟩
  exact Option.isSome_iff_ne_none.mpr hasset

theorem forcedWithdraw_eq_ok {r : ForcedWithdrawal} (h : b.forcedWithdraw r = .ok b') :
    (b.forcedWithdrawals.length < MAX_FORCED_WITHDRAWALS_PER_BATCH ∧
      r.id.toNat = b.oldForcedWithdrawalCursor.toNat + b.forcedWithdrawals.length ∧
      r.amount ≠ 0) ∧
    b.checkTouched r.account = .ok () ∧ b' = { b with
      touchedAccounts := b.touchedAccounts.add r.account
      forcedWithdrawals := b.forcedWithdrawals ++ [r] } := by
  simp only [forcedWithdraw, Outcome.bind_eq_ok, Outcome.rejectIf_eq_ok, Outcome.okOr_eq_ok,
    not_not, ge_iff_le, not_le, Except.ok.injEq] at h
  rcases h with ⟨_, hlength, expected, hexpected, _, hid, _, hamount, _, hroom, hb'⟩
  have hfits : b.forcedWithdrawals.length < 2 ^ 64 := hlength.trans (by decide)
  exact ⟨⟨hlength, expected_eq hfits hexpected hid, hamount⟩, hroom, hb'.symm⟩

/-- The indices that a book of the builder holds for one side. -/
def bookSide (self : BatchBuilder) (marketId : MarketId) (side : Side) : List U32 :=
  match side with
  | .Buy => ((self.books.get marketId).getD ([], [])).1
  | .Sell => ((self.books.get marketId).getD ([], [])).2

/-- The book of a market with one more order. -/
def extendedBook (self : BatchBuilder) (order : SequencedOrder) (index : U32) :
    List U32 × List U32 :=
  match order.side with
  | .Buy => (self.bookSide order.marketId .Buy ++ [index], self.bookSide order.marketId .Sell)
  | .Sell => (self.bookSide order.marketId .Buy, self.bookSide order.marketId .Sell ++ [index])

theorem order_eq_ok {o : SequencedOrder} (h : b.order o = .ok b') :
    (b.orders.length < MAX_ORDERS_PER_BATCH ∧ o.price ≠ 0 ∧ o.quantity ≠ 0 ∧
      ((b.state.account o.trader).isSome ∨ o.trader ∈ b.deposits.map Deposit.account) ∧
      (∃ market ∈ b.config.markets, market.id = o.marketId) ∧
      o.sequence.toNat ∉ b.sequences.keys ∧ o.nonce.toNat ∉ (b.usedNonces o.trader).keys) ∧
    b.checkTouched o.trader = .ok () ∧ ∃ index : U32, index.toNat = b.orders.length ∧
      b' = { b with
        sequences := b.sequences.add o.sequence.toNat
        nonces := b.nonces.insert o.trader ((b.usedNonces o.trader).add o.nonce.toNat)
        touchedAccounts := b.touchedAccounts.add o.trader
        books := b.books.insert o.marketId (b.extendedBook o index)
        orders := b.orders ++ [o] } := by
  simp only [order, Outcome.bind_eq_ok, Outcome.rejectIf_eq_ok, Outcome.okOr_eq_ok, ge_iff_le,
    not_le, Except.ok.injEq, FixedWidth.ofNat?_eq_some, OrderedSet.contains_iff] at h
  rcases h with ⟨_, hlength, _, hprice, _, hquantity, _, htrader, _, hmarket, _, hsequence, _, _, _,
    hnonce, _, hroom, index, hindex, hb'⟩
  refine ⟨⟨hlength, hprice, hquantity, ?_, ?_, hsequence, hnonce⟩, hroom, index, hindex, ?_⟩
  · by_cases hheld : (b.state.account o.trader).isSome
    · exact Or.inl hheld
    · right
      simp only [not_and, not_not, Option.isNone_iff_eq_none] at htrader
      have hany := htrader (Option.not_isSome_iff_eq_none.mp hheld)
      rcases List.any_eq_true.mp hany with ⟨d, hd, haccount⟩
      exact List.mem_map.mpr ⟨d, hd, of_decide_eq_true haccount⟩
  · simpa using hmarket
  · rw [← hb', extendedBook]
    cases o.side <;> rfl

theorem withdraw_eq_ok {w : SignedWithdrawal} (h : b.withdraw w = .ok b') :
    (b.withdrawals.length < MAX_WITHDRAWALS_PER_BATCH ∧ w.amount ≠ 0 ∧
      (b.config.asset w.asset).isSome ∧ (b.state.account w.account).isSome ∧
      w.nonce.toNat ∉ (b.usedNonces w.account).keys) ∧
    b.checkTouched w.account = .ok () ∧ b' = { b with
      nonces := b.nonces.insert w.account ((b.usedNonces w.account).add w.nonce.toNat)
      touchedAccounts := b.touchedAccounts.add w.account
      withdrawals := b.withdrawals ++ [w] } := by
  simp only [withdraw, Outcome.bind_eq_ok, Outcome.rejectIf_eq_ok, Outcome.okOr_eq_ok, ge_iff_le,
    not_le, Except.ok.injEq, OrderedSet.contains_iff, Option.isNone_iff_eq_none] at h
  rcases h with ⟨_, hlength, _, hamount, _, hasset, account, haccount, _, _, _, _, _, _, _, _, _,
    hnonce, _, hroom, hb'⟩
  refine ⟨⟨hlength, hamount, ?_, ?_, hnonce⟩, hroom, hb'.symm⟩
  · exact Option.isSome_iff_ne_none.mpr hasset
  · rw [haccount]
    rfl

/-- An admitted withdrawal fits, together with the earlier ones of its account and asset, into the
committed balance. -/
theorem withdraw_covered {w : SignedWithdrawal} (h : b.withdraw w = .ok b') :
    ∃ account alreadyWithdrawing, b.state.account w.account = some account ∧
      b.alreadyWithdrawing w.account w.asset = .ok alreadyWithdrawing ∧
      alreadyWithdrawing.toNat + w.amount.toNat ≤ (account.balance w.asset).toNat := by
  simp only [withdraw, Outcome.bind_eq_ok, Outcome.rejectIf_eq_ok, Outcome.okOr_eq_ok,
    FixedWidth.checkedAdd_eq_some] at h
  rcases h with ⟨_, _, _, _, _, _, account, haccount, already, halready, required, hrequired, _,
    hcovered, _⟩
  rw [BitVec.lt_def, not_lt, hrequired] at hcovered
  exact ⟨account, already, haccount, halready, hcovered⟩

/-- What every accepted call keeps holds after every sequence of calls: a rejected call leaves the
builder as it is. -/
theorem run_keeps {P : BatchBuilder → Prop}
    (hcall : ∀ b c b', P b → b.call c = .ok b' → P b') (h : P b) (calls : List Call) :
    P (b.run calls) := by
  refine run_invariant (fun b c hb => ?_) h calls
  unfold step
  split
  · rename_i next hnext
    exact hcall b c next hb hnext
  · exact hb

end BatchBuilder

end ZkClob
