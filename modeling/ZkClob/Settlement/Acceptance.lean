import ZkClob.Settlement.Validation

/-!
# When the checks accept

The converse of the lemmas about accepted inputs: what an input has to satisfy for a check
to let it pass.

Main results:

- Theorem {lit}`exists_foldlM_count`: a loop that counts along accepts consecutive ids.
- Theorems {lit}`exists_validateDeposits` and {lit}`exists_validateForcedWithdrawals`: which
  queue entries pass.
- Theorem {lit}`validateAccounts_of_canonical`: canonical accounts pass.
- Theorem {lit}`validateNonces_of_perm`: operations that use the consecutive nonces from the
  next one on pass.
-/

namespace ZkClob

open Foundations

/-! ## Queues -/

/-- A loop that expects one id after the other accepts the consecutive ids whose numbers fit. -/
theorem exists_foldlM_count {α ε : Type} {id : α → U64} {P : α → Prop} {f : U64 → α → Outcome ε U64}
    (hstep : ∀ expected a next, f expected a = .ok next ↔
      id a = expected ∧ P a ∧ next.toNat = expected.toNat + 1) {l : List α} {start : U64} :
    (∃ stop, l.foldlM f start = .ok stop) ↔
      l.map (fun a => (id a).toNat) = List.range' start.toNat l.length ∧
        start.toNat + l.length < 2 ^ 64 ∧ ∀ a ∈ l, P a := by
  induction l generalizing start with
  | nil =>
      have hlt := start.isLt
      simp [hlt]
  | cons a l ih =>
      constructor
      · rintro ⟨stop, h⟩
        rw [List.foldlM_cons, Outcome.bind_eq_ok] at h
        rcases h with ⟨next, hnext, h⟩
        rcases (hstep start a next).mp hnext with ⟨hid, ha, hsucc⟩
        rcases ih.mp ⟨stop, h⟩ with ⟨hids, hfits, hall⟩
        refine ⟨?_, ?_, ?_⟩
        · rw [List.map_cons, hids, hid, hsucc, List.length_cons, List.range'_succ]
        · rw [List.length_cons]
          omega
        · intro b hb
          rcases List.mem_cons.mp hb with rfl | hb
          · exact ha
          · exact hall b hb
      · rintro ⟨hids, hfits, hall⟩
        rw [List.length_cons] at hfits
        simp only [List.map_cons, List.length_cons, List.range'_succ, List.cons.injEq] at hids
        let next : U64 := BitVec.ofNat 64 (start.toNat + 1)
        have hsucc : next.toNat = start.toNat + 1 := by
          rw [BitVec.toNat_ofNat, Nat.mod_eq_of_lt (by omega)]
        have hnext : f start a = .ok next :=
          (hstep start a next).mpr ⟨BitVec.eq_of_toNat_eq hids.1, hall a (by simp), hsucc⟩
        have hrest : ∃ stop, l.foldlM f next = .ok stop := by
          apply ih.mpr
          rw [hsucc]
          exact ⟨hids.2, by omega, fun b hb => hall b (List.mem_cons_of_mem _ hb)⟩
        rcases hrest with ⟨stop, hstop⟩
        refine ⟨stop, ?_⟩
        rw [List.foldlM_cons, hnext, Outcome.ok_bind]
        exact hstop

/-- Deposits pass when they have consecutive ids, positive amounts and configured assets. -/
theorem exists_validateDeposits {deposits : List Deposit} {oldCursor : U64}
    {config : ExchangeConfig} :
    (∃ newCursor, validateDeposits deposits oldCursor config = .ok newCursor) ↔
      deposits.map (fun d => d.id.toNat) = List.range' oldCursor.toNat deposits.length ∧
        oldCursor.toNat + deposits.length < 2 ^ 64 ∧
        ∀ d ∈ deposits, d.amount ≠ 0 ∧ (config.asset d.asset).isSome := by
  apply exists_foldlM_count
  intro expected d next
  simp only [validateDeposit, Outcome.bind_eq_ok, Outcome.rejectIf_eq_ok, Outcome.okOr_eq_ok,
    FixedWidth.checkedAdd_eq_some, not_not, exists_and_left, exists_const,
    Option.isNone_iff_eq_none, ← ne_eq, ← Option.isSome_iff_ne_none]
  simp [and_assoc]

/-- Requests pass when they have consecutive ids and positive amounts. -/
theorem exists_validateForcedWithdrawals {requests : List ForcedWithdrawal} {oldCursor : U64} :
    validateForcedWithdrawals requests oldCursor = .ok () ↔
      requests.map (fun r => r.id.toNat) = List.range' oldCursor.toNat requests.length ∧
        oldCursor.toNat + requests.length < 2 ^ 64 ∧ ∀ r ∈ requests, r.amount ≠ 0 := by
  have hloop : validateForcedWithdrawals requests oldCursor = .ok () ↔
      ∃ newCursor, requests.foldlM validateForcedWithdrawal oldCursor = .ok newCursor := by
    simp [validateForcedWithdrawals, Outcome.bind_eq_ok]
  rw [hloop]
  apply exists_foldlM_count
  intro expected r next
  simp only [validateForcedWithdrawal, Outcome.bind_eq_ok, Outcome.rejectIf_eq_ok,
    Outcome.okOr_eq_ok, FixedWidth.checkedAdd_eq_some, not_not, exists_and_left, exists_const]
  simp

/-! ## Limits, configuration and accounts -/

/-- A batch within the limits passes. -/
theorem validateLimits_of_le {B256 : Type} {input : BatchInput B256}
    (haccounts : input.state.accounts.length ≤ MAX_TOUCHED_ACCOUNTS_PER_BATCH)
    (horders : input.orders.length ≤ MAX_ORDERS_PER_BATCH)
    (hdeposits : input.deposits.length ≤ MAX_DEPOSITS_PER_BATCH)
    (hwithdrawals : input.withdrawals.length ≤ MAX_WITHDRAWALS_PER_BATCH)
    (hforced : input.forcedWithdrawals.length ≤ MAX_FORCED_WITHDRAWALS_PER_BATCH)
    (hassets : input.config.assets.length ≤ MAX_ASSETS)
    (hmarkets : input.config.markets.length ≤ MAX_MARKETS)
    (hbooks : input.orderBooks.length ≤ MAX_MARKETS) : validateLimits input = .ok () := by
  simp only [validateLimits, Outcome.bind_eq_ok, Outcome.rejectIf_eq_ok, not_lt]
  exact ⟨(), haccounts, (), horders, (), hdeposits, (), hwithdrawals, (), hforced, (), hassets, (),
    hmarkets, hbooks⟩

/-- Of the accounts only the fee recipient matters for the configuration. -/
theorem validateConfig_of_mem {config : ExchangeConfig} {accounts accounts' : List Account}
    (h : validateConfig config accounts = .ok ())
    (hrecipient : config.fees.recipient ∈ accounts'.map Account.id) :
    validateConfig config accounts' = .ok () := by
  simp only [validateConfig, Outcome.bind_eq_ok, Outcome.rejectIf_eq_ok, not_not] at h ⊢
  rcases h with ⟨assets, hassets, markets, hmarkets, _, hfee, _⟩
  refine ⟨assets, hassets, markets, hmarkets, (), hfee, ?_⟩
  rcases List.mem_map.mp hrecipient with ⟨account, haccount, hid⟩
  apply List.any_eq_true.mpr
  exact ⟨account, haccount, by simpa using hid⟩

/-- A canonical account passes. -/
theorem validateAccount_of_canonical {account : Account} (h : account.Canonical) :
    validateAccount account = .ok () := by
  simp only [validateAccount, Outcome.bind_eq_ok, Outcome.rejectIf_eq_ok]
  refine ⟨(), ?_, ?_⟩
  · simpa using h.nonzero
  · rw [h.sorted.anyAdjacent_ge]
    rfl

/-- Canonical accounts pass. -/
theorem validateAccounts_of_canonical {accounts : List Account} (h : AccountsCanonical accounts) :
    validateAccounts accounts = .ok () := by
  unfold validateAccounts
  rw [h.sorted.anyAdjacent_ge, if_neg (by simp)]
  apply Outcome.forM_eq_ok.mpr
  intro account haccount
  exact validateAccount_of_canonical (h.canonical account haccount)

/-! ## Nonces -/

variable {accounts : List Account} {orders : List SequencedOrder}
  {withdrawals : List SignedWithdrawal}

section

variable {α : Type} {ids : List AccountId} {accountIndex : α → Option U32} {id : α → AccountId}
  {nonce : α → U64} {l : List α} {m : List (Nat × U64)}

/-- Operations with an index have their nonces collected. -/
theorem exists_indexNonces (nonce : α → U64)
    (hindexed : ∀ a ∈ l, IndexedIn ids (accountIndex a) (id a)) :
    ∃ m, l.mapM (fun a => do
      let index ← Outcome.expect (accountIndex a)
      .ok (index.toNat, nonce a)) = (.ok m : Outcome SettlementError _) := by
  apply Outcome.exists_mapM
  intro a ha
  rcases hindexed a ha with ⟨index, hindex, _⟩
  rw [hindex]
  exact ⟨_, rfl⟩

/-- The index of a collected nonce is that of an account. -/
theorem exists_account_of_nonce (hindexed : ∀ a ∈ l, IndexedIn ids (accountIndex a) (id a))
    (h : l.mapM (fun a => do
      let index ← Outcome.expect (accountIndex a)
      .ok (index.toNat, nonce a)) = (.ok m : Outcome SettlementError _))
    {p : Nat × U64} (hp : p ∈ m) : ∃ account, ids[p.1]? = some account := by
  rcases Outcome.exists_of_mem_mapM h hp with ⟨a, ha, hcollected⟩
  rcases hindexed a ha with ⟨index, hindex, hat⟩
  rw [hindex, Outcome.expect_some, Outcome.ok_bind, Except.ok.injEq] at hcollected
  exact ⟨id a, hcollected ▸ hat⟩

end

/-- The nonces of operations with an index are collected, each under the index of an account. -/
theorem exists_operationNonces {ids : List AccountId}
    (horders : ∀ o ∈ orders, IndexedIn ids o.accountIndex o.trader)
    (hwithdrawals : ∀ w ∈ withdrawals, IndexedIn ids w.accountIndex w.account) :
    ∃ nonces, operationNonces orders withdrawals = .ok nonces ∧
      ∀ p ∈ nonces, ∃ account, ids[p.1]? = some account := by
  rcases exists_indexNonces SequencedOrder.nonce horders with ⟨orderNonces, hon⟩
  rcases exists_indexNonces (fun w : SignedWithdrawal => w.nonce) hwithdrawals with
    ⟨withdrawalNonces, hwn⟩
  refine ⟨orderNonces ++ withdrawalNonces, ?_, ?_⟩
  · simp only [operationNonces, hon, hwn, Outcome.ok_bind]
  · intro p hp
    rcases List.mem_append.mp hp with hp | hp
    · exact exists_account_of_nonce horders hon hp
    · exact exists_account_of_nonce hwithdrawals hwn hp

/-- A run of consecutive nonces from the next nonce of its account on passes. -/
theorem validateAccountNonces_of_range {account : Account} {run : List (Nat × U64)} {index : Nat}
    (hrun : run ≠ []) (hindex : ∀ n ∈ run, n.1 = index) (haccount : accounts[index]? = some account)
    (hrange : run.map (fun n => n.2.toNat) = List.range' account.nextNonce.toNat run.length)
    (hfits : account.nextNonce.toNat + run.length < 2 ^ 64) :
    validateAccountNonces accounts run = .ok () := by
  rcases List.exists_cons_of_ne_nil hrun with ⟨first, rest, rfl⟩
  have hloop : ∃ next, (first :: rest).foldlM validateNonce account.nextNonce = .ok next := by
    have hstep : ∀ (expected : U64) (n : Nat × U64) (next : U64),
        validateNonce expected n = .ok next ↔
        n.2 = expected ∧ True ∧ next.toNat = expected.toNat + 1 := by
      intro expected n next
      simp only [validateNonce, Outcome.bind_eq_ok, Outcome.rejectIf_eq_ok, Outcome.okOr_eq_ok,
        FixedWidth.checkedAdd_eq_some, not_not]
      simp
    exact (exists_foldlM_count hstep).mpr ⟨hrange, hfits, fun _ _ => trivial⟩
  rcases hloop with ⟨next, hnext⟩
  have hfirst := hindex first (by simp)
  simp only [validateAccountNonces, Outcome.bind_eq_ok, Outcome.expect_eq_ok]
  exact ⟨first, rfl, account, by rw [hfirst, haccount], next, hnext, trivial⟩

/-- Operations that use, account by account, the consecutive nonces from the next one on pass. -/
theorem validateNonces_of_perm (hids : (accounts.map Account.id).Nodup)
    (horders : ∀ o ∈ orders, IndexedIn (accounts.map Account.id) o.accountIndex o.trader)
    (hwithdrawals : ∀ w ∈ withdrawals, IndexedIn (accounts.map Account.id) w.accountIndex w.account)
    (hperm : ∀ id, (noncesOf orders withdrawals id).Perm
      (List.range' (nonceOf accounts id) (noncesOf orders withdrawals id).length))
    (hfits : ∀ id, nonceOf accounts id + (noncesOf orders withdrawals id).length < 2 ^ 64) :
    validateNonces orders withdrawals accounts = .ok () := by
  rcases exists_operationNonces horders hwithdrawals with ⟨nonces, hcollected, hnamed⟩
  simp only [validateNonces, hcollected, Outcome.ok_bind]
  apply Outcome.forM_eq_ok.mpr
  have hsortedPerm := sortByKey_perm (fun n : Nat × U64 => toLex (n.1, n.2.toNat)) nonces
  have hindices := sortByKey_lex_pairwise Prod.fst (fun n : Nat × U64 => n.2.toNat) nonces
  have hruns := sortByKey_lex_filter Prod.fst (fun n : Nat × U64 => n.2.toNat) nonces
  generalize sortByKey (fun n : Nat × U64 => toLex (n.1, n.2.toNat)) nonces = sorted
    at hsortedPerm hindices hruns
  rcases chunkBy_eq_map_filter hindices with ⟨indices, _, hmem, hchunks⟩
  intro run hrun
  rw [hchunks] at hrun
  rcases List.mem_map.mp hrun with ⟨index, hindexMem, rfl⟩
  rcases (hmem index).mp hindexMem with ⟨first, hfirst, rfl⟩
  -- the operation at the head of the run names the account
  rcases hnamed first (hsortedPerm.mem_iff.mp hfirst) with ⟨id, hat⟩
  have haccount := hat
  rw [List.getElem?_map, Option.map_eq_some_iff] at haccount
  rcases haccount with ⟨account, haccount, rfl⟩
  have hnonce : nonceOf accounts account.id = account.nextNonce.toNat :=
    nonceOf_eq_nextNonce hids (List.mem_of_getElem? haccount)
  have hrunPerm := (hsortedPerm.filter fun p => decide (p.1 = first.1)).map fun p => p.2.toNat
  rw [filter_operationNonces hids horders hwithdrawals hcollected hat] at hrunPerm
  have hlength := hrunPerm.length_eq
  rw [List.length_map] at hlength
  have hrunSorted : ((sorted.filter fun p => decide (p.1 = first.1)).map
      fun p => p.2.toNat).Pairwise (· ≤ ·) := List.pairwise_map.mpr (hruns first.1)
  have hrange := (hrunPerm.trans (hperm account.id)).eq_of_pairwise
    (fun a b _ _ hab hba => le_antisymm hab hba) hrunSorted
    ((List.pairwise_lt_range' 1).imp fun hlt => hlt.le)
  rw [hnonce, ← hlength] at hrange
  have hroom := hfits account.id
  rw [hnonce, ← hlength] at hroom
  apply validateAccountNonces_of_range ?_ ?_ haccount hrange hroom
  · exact List.ne_nil_of_mem (List.mem_filter.mpr ⟨hfirst, decide_eq_true rfl⟩)
  · intro n hn
    exact of_decide_eq_true (List.mem_filter.mp hn).2

end ZkClob
