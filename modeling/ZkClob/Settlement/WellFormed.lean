import ZkClob.Settlement.BookAcceptance
import ZkClob.Settlement.ForcedQueue

/-!
# Well-formed batches

A batch can fail for what it contains, a bad signature or too small a balance, or for how it is
put together.  A batch that is put together as described here fails only for what it contains.
The host aims at this description, and the guest checks it.

Main results:

- Theorem {lit}`WellFormed.settleBatch_failsWith`: a well-formed batch never fails with a
  structural error.
-/

namespace ZkClob

open Foundations

/-- The errors of how a batch is put together: all but those of signatures, balances, amounts and
trades. -/
def SettlementError.structural : SettlementError → Bool
  | .InvalidOrderSignature => false
  | .InvalidWithdrawalSignature => false
  | .SelfTrade => false
  | .InsufficientBalance .. => false
  | .ArithmeticOverflow => false
  | .TradeValueRoundsToZero => false
  | .AssetConservationViolation => false
  | _ => true

/-- Faults other than structural errors. -/
def NotStructural (fault : Fault SettlementError) : Prop :=
  ∀ e, fault = .error e → e.structural = false

theorem notStructural_panic : NotStructural .panic := by
  intro e h
  cases h

theorem notStructural_error {e : SettlementError} (he : e.structural = false) :
    NotStructural (.error e) := by
  intro e' h
  cases h
  exact he

/-! ## Steps that move amounts -/

section

variable {allowed : Fault SettlementError → Prop}

/-- A debit fails for lack of balance only: the position that a search finds is in the list. -/
theorem failsWith_debit {account : Account} {asset : AssetId} {amount : U128}
    (h : ∀ available, allowed (.error (.InsufficientBalance account.id asset available amount))) :
    Outcome.FailsWith allowed (account.debit asset amount) := by
  unfold Account.debit
  split
  · intro fault hfault
    cases hfault
    exact h 0
  · rename_i index hindex
    rcases binarySearchBy_ok hindex with ⟨balance, hbalance, _⟩
    rw [hbalance, Outcome.expect_some, Outcome.ok_bind]
    apply (Outcome.failsWith_okOr (h _)).bind
    intro remaining _
    split <;> exact Outcome.failsWith_ok _

/-- A credit fails with an overflow only: the position that a search finds is in the list, and the
one that it proposes is at most behind it. -/
theorem failsWith_credit {account : Account} {asset : AssetId} {amount : U128}
    (h : allowed (.error .ArithmeticOverflow)) :
    Outcome.FailsWith allowed (account.credit asset amount) := by
  unfold Account.credit
  split
  · exact Outcome.failsWith_ok _
  · split
    · rename_i index hindex
      rcases binarySearchBy_ok hindex with ⟨balance, hbalance, _⟩
      rw [hbalance, Outcome.expect_some, Outcome.ok_bind]
      apply (Outcome.failsWith_okOr h).bind
      intro total _
      exact Outcome.failsWith_ok _
    · rename_i index hindex
      refine Outcome.FailsWith.bind
        (Outcome.failsWith_insertAt (binarySearchBy_error_le hindex)) ?_
      intro balances _
      exact Outcome.failsWith_ok _

end

theorem failsWith_modifyAt_debit (accounts : List Account) (index : Nat) (asset : AssetId)
    (amount : U128) :
    Outcome.FailsWith NotStructural (Outcome.modifyAt accounts index (·.debit asset amount)) :=
  Outcome.failsWith_modifyAt notStructural_panic fun _ =>
    failsWith_debit fun _ => notStructural_error rfl

theorem failsWith_modifyAt_credit (accounts : List Account) (index : Nat) (asset : AssetId)
    (amount : U128) :
    Outcome.FailsWith NotStructural (Outcome.modifyAt accounts index (·.credit asset amount)) :=
  Outcome.failsWith_modifyAt notStructural_panic fun _ =>
    failsWith_credit (notStructural_error rfl)

namespace AssetTracker

variable {allowed : Fault SettlementError → Prop}

theorem failsWith_add (hoverflow : allowed (.error .ArithmeticOverflow)) (self : AssetTracker)
    (asset : AssetId) (amount : U128) :
    Outcome.FailsWith allowed (self.add asset amount) := by
  apply (Outcome.failsWith_okOr hoverflow).bind
  intro total _
  exact Outcome.failsWith_ok _

theorem failsWith_subtract (hviolation : allowed (.error .AssetConservationViolation))
    (self : AssetTracker) (asset : AssetId) (amount : U128) :
    Outcome.FailsWith allowed (self.subtract asset amount) := by
  unfold subtract
  split
  · exact Outcome.failsWith_ok _
  · apply (Outcome.failsWith_okOr hviolation).bind
    intro before _
    apply (Outcome.failsWith_okOr hviolation).bind
    intro after _
    split <;> exact Outcome.failsWith_ok _

/-- A loop of the tracker fails as its steps do. -/
theorem failsWith_loop {α : Type} {f : AssetTracker → α → Outcome SettlementError AssetTracker}
    (hf : ∀ self a, Outcome.FailsWith allowed (f self a)) (l : List α) (self : AssetTracker) :
    Outcome.FailsWith allowed (l.foldlM f self) :=
  Outcome.failsWith_foldlM (P := fun _ => True) (fun _ _ _ _ _ _ => trivial)
    (fun self a _ _ => hf self a) trivial

theorem failsWith_addAccounts (hoverflow : allowed (.error .ArithmeticOverflow))
    (self : AssetTracker) (accounts : List Account) :
    Outcome.FailsWith allowed (self.addAccounts accounts) := by
  apply failsWith_loop
  intro tracker account
  apply failsWith_loop
  intro tracker balance
  exact failsWith_add hoverflow tracker balance.asset balance.available

theorem failsWith_addDeposits (hoverflow : allowed (.error .ArithmeticOverflow))
    (self : AssetTracker) (deposits : List Deposit) :
    Outcome.FailsWith allowed (self.addDeposits deposits) := by
  apply failsWith_loop
  intro tracker deposit
  exact failsWith_add hoverflow tracker deposit.asset deposit.amount

theorem failsWith_subtractWithdrawals (hviolation : allowed (.error .AssetConservationViolation))
    (self : AssetTracker) (withdrawals : List SignedWithdrawal) :
    Outcome.FailsWith allowed (self.subtractWithdrawals withdrawals) := by
  apply failsWith_loop
  intro tracker w
  exact failsWith_subtract hviolation tracker w.asset w.amount

theorem failsWith_subtractForcedWithdrawals
    (hviolation : allowed (.error .AssetConservationViolation)) (self : AssetTracker)
    (withdrawals : List ForcedWithdrawal) :
    Outcome.FailsWith allowed (self.subtractForcedWithdrawals withdrawals) := by
  apply failsWith_loop
  intro tracker w
  exact failsWith_subtract hviolation tracker w.asset w.amount

theorem failsWith_subtractAccounts (hviolation : allowed (.error .AssetConservationViolation))
    (self : AssetTracker) (accounts : List Account) :
    Outcome.FailsWith allowed (self.subtractAccounts accounts) := by
  apply failsWith_loop
  intro tracker account
  apply failsWith_loop
  intro tracker balance
  exact failsWith_subtract hviolation tracker balance.asset balance.available

end AssetTracker

/-! ## Trades -/

theorem failsWith_settleTrade (accounts : List Account) (market : MarketConfig)
    (baseAsset : AssetConfig) (feeConfig : FeeConfig) (feeRecipientIndex : Nat)
    (buy sell : SequencedOrder) (quantity price : U128) :
    Outcome.FailsWith NotStructural (settleTrade accounts market baseAsset feeConfig
      feeRecipientIndex buy sell quantity price) := by
  unfold settleTrade
  apply (Outcome.failsWith_rejectIf (notStructural_error rfl)).bind
  intro _ _
  apply (Outcome.failsWith_expect notStructural_panic).bind
  intro buyerIndex _
  apply (Outcome.failsWith_expect notStructural_panic).bind
  intro sellerIndex _
  apply (Outcome.failsWith_okOr (notStructural_error rfl)).bind
  intro product _
  apply (Outcome.failsWith_expect notStructural_panic).bind
  intro quoteAmount _
  apply (Outcome.failsWith_rejectIf (notStructural_error rfl)).bind
  intro _ _
  apply (Outcome.failsWith_okOr (notStructural_error rfl)).bind
  intro charged _
  apply (Outcome.failsWith_expect notStructural_panic).bind
  intro quoteFee _
  apply (Outcome.failsWith_okOr (notStructural_error rfl)).bind
  intro buyerDebit _
  apply (failsWith_modifyAt_debit _ _ _ _).bind
  intro accounts _
  apply (failsWith_modifyAt_credit _ _ _ _).bind
  intro accounts _
  apply (failsWith_modifyAt_debit _ _ _ _).bind
  intro accounts _
  apply (failsWith_modifyAt_credit _ _ _ _).bind
  intro accounts _
  apply (failsWith_modifyAt_credit _ _ _ _).bind
  intro accounts _
  exact Outcome.failsWith_ok _

theorem failsWith_matchLoop (market : MarketConfig) (baseAsset : AssetConfig)
    (feeConfig : FeeConfig)
    (feeRecipientIndex : Nat) (accounts : List Account) (buys sells : List SequencedOrder)
    (buyRemaining sellRemaining : U128) :
    Outcome.FailsWith NotStructural (matchLoop market baseAsset feeConfig feeRecipientIndex accounts
      buys sells buyRemaining sellRemaining) := by
  fun_induction matchLoop market baseAsset feeConfig feeRecipientIndex accounts buys sells
    buyRemaining sellRemaining with
  | case1 => exact Outcome.failsWith_ok _
  | case2 _ _ _ _ _ _ _ _ _ _ _ _ ih =>
      apply (failsWith_settleTrade _ _ _ _ _ _ _ _ _).bind
      intro settled _
      apply (ih settled.1).bind
      intro rest _
      exact Outcome.failsWith_ok _
  | case3 => exact Outcome.failsWith_ok _

theorem failsWith_matchBooks (feeConfig : FeeConfig) (feeRecipientIndex : Nat)
    (accounts : List Account) (books : List ValidatedMarketBook) :
    Outcome.FailsWith NotStructural (matchBooks feeConfig feeRecipientIndex accounts books) := by
  induction books generalizing accounts with
  | nil => exact Outcome.failsWith_ok _
  | cons book books ih =>
      apply (failsWith_matchLoop _ _ _ _ _ _ _ _ _).bind
      intro matched _
      apply (ih matched.1).bind
      intro rest _
      exact Outcome.failsWith_ok _

/-- The trades of accounts that hold the fee recipient. -/
theorem failsWith_matchAndSettle {accounts : List Account} {books : List ValidatedMarketBook}
    {config : ExchangeConfig} (hsorted : SortedBy Account.id accounts)
    (hrecipient : config.fees.recipient ∈ accounts.map Account.id) :
    Outcome.FailsWith NotStructural (matchAndSettle accounts books config) := by
  unfold matchAndSettle
  cases hsearch : binarySearchByKey Account.id config.fees.recipient accounts with
  | ok index => exact failsWith_matchBooks _ _ _ _
  | error index =>
      rcases List.mem_map.mp hrecipient with ⟨account, haccount, hid⟩
      exact absurd hid (hsorted.search_error_iff.mp ⟨index, hsearch⟩ account haccount)

/-! ## Deposits -/

/-- While all ids are among a few, there is room for the account that a deposit creates. -/
theorem length_lt_of_fresh {accounts : List Account} {ids : List AccountId} {id : AccountId}
    (hnodup : (accounts.map Account.id).Nodup) (hids : ∀ a ∈ accounts, a.id ∈ ids) (hid : id ∈ ids)
    (hfresh : id ∉ accounts.map Account.id) : accounts.length < ids.length := by
  have hsub : id :: accounts.map Account.id ⊆ ids := by
    intro x hx
    rcases List.mem_cons.mp hx with rfl | hx
    · exact hid
    · rcases List.mem_map.mp hx with ⟨a, ha, rfl⟩
      exact hids a ha
  have hle := (List.subperm_of_subset (List.nodup_cons.mpr ⟨hfresh, hnodup⟩) hsub).length_le
  rw [List.length_cons, List.length_map] at hle
  omega

/-- Deposits for accounts among few ids never create too many accounts. -/
theorem failsWith_applyDeposits {accounts : List Account} {deposits : List Deposit}
    {ids : List AccountId} (hsorted : SortedBy Account.id accounts)
    (hwitnessed : ∀ a ∈ accounts, a.id ∈ ids) (hdeposited : ∀ d ∈ deposits, d.account ∈ ids)
    (hroom : ids.length ≤ MAX_TOUCHED_ACCOUNTS_PER_BATCH) :
    Outcome.FailsWith NotStructural (applyDeposits accounts deposits) := by
  unfold applyDeposits
  refine Outcome.failsWith_foldlM
    (P := fun accounts => SortedBy Account.id accounts ∧ ∀ a ∈ accounts, a.id ∈ ids) ?_ ?_
    ⟨hsorted, hwitnessed⟩
  · rintro accounts d accounts' hd ⟨hsorted, hids⟩ hstep
    have hone : applyDeposits accounts [d] = .ok accounts' := by
      rw [applyDeposits, List.foldlM_cons, hstep]
      rfl
    rcases applyDeposits_ids hsorted hone with ⟨hsorted', hmem⟩
    refine ⟨hsorted', ?_⟩
    intro a ha
    rcases (hmem a.id).mp (List.mem_map_of_mem ha) with hold | hnew
    · rcases List.mem_map.mp hold with ⟨b, hb, hid⟩
      exact hid ▸ hids b hb
    · rw [List.map_singleton, List.mem_singleton] at hnew
      exact hnew ▸ hdeposited d hd
  · rintro accounts d hd ⟨hsorted, hids⟩
    unfold applyDeposit
    have hlocate : Outcome.FailsWith NotStructural (locateDepositAccount accounts d) := by
      unfold locateDepositAccount
      apply (Outcome.failsWith_expect notStructural_panic).bind
      intro index _
      dsimp only
      split
      · exact Outcome.failsWith_ok _
      · split <;> exact Outcome.failsWith_ok _
    apply hlocate.bind
    intro place hplace
    rcases locateDepositAccount_eq_ok hsorted hplace with
      ⟨index, rfl, _⟩ | ⟨index, rfl, hle, hlow, hhigh⟩
    · exact failsWith_modifyAt_credit _ _ _ _
    · -- the account is new, so that the limit is not reached
      have hfresh : d.account ∉ accounts.map Account.id := by
        intro hmem
        rcases List.mem_map.mp hmem with ⟨a, ha, hid⟩
        rw [← List.take_append_drop index accounts] at ha
        rcases List.mem_append.mp ha with ha | ha
        · exact absurd hid (hlow a ha).ne
        · exact absurd hid (hhigh a ha).ne'
      have hlt := length_lt_of_fresh hsorted.nodup_map hids (hdeposited d hd) hfresh
      have hspace : ¬ accounts.length ≥ MAX_TOUCHED_ACCOUNTS_PER_BATCH := by omega
      refine Outcome.FailsWith.bind (Outcome.failsWith_rejectIf_of_not hspace) ?_
      intro _ _
      have hinserted : Outcome.insertAt accounts index ⟨d.account, [], 0⟩ =
          (.ok (accounts.insertIdx index ⟨d.account, [], 0⟩) : Outcome SettlementError _) := by
        rw [Outcome.insertAt, if_pos hle]
      refine Outcome.FailsWith.bind (Outcome.failsWith_of_ok hinserted) ?_
      intro accounts _
      exact failsWith_modifyAt_credit _ _ _ _

/-! ## Signed operations -/

/-- An index that names its account passes. -/
theorem validateAccountIndex_of_indexed {accounts : List Account} {accountIndex : Option U32}
    {id : AccountId} (h : IndexedIn (accounts.map Account.id) accountIndex id) :
    validateAccountIndex accountIndex accounts id = .ok () := by
  rcases h with ⟨index, hindex, hat⟩
  rw [List.getElem?_map, Option.map_eq_some_iff] at hat
  rcases hat with ⟨account, haccount, hid⟩
  simp only [validateAccountIndex, hindex, Outcome.expect_some, Outcome.ok_bind,
    Outcome.rejectIf_eq_ok, not_not, haccount, Option.any_some, decide_eq_true_eq]
  exact hid

section

variable {B256 : Type} [Sha256 B256] [Secp256k1 B256] {accounts : List Account}
  {config : ExchangeConfig} {domainHash : B256}

/-- Withdrawals with amounts, assets and indices in order fail for their signatures only. -/
theorem failsWith_validateWithdrawals {withdrawals : List SignedWithdrawal}
    (hvalid : ∀ w ∈ withdrawals, w.amount ≠ 0 ∧ (config.asset w.asset).isSome)
    (hindexed : ∀ w ∈ withdrawals, IndexedIn (accounts.map Account.id) w.accountIndex w.account) :
    Outcome.FailsWith NotStructural
      (validateWithdrawals withdrawals accounts config domainHash) := by
  apply Outcome.failsWith_forM
  intro w hw
  unfold validateWithdrawal
  refine Outcome.FailsWith.bind (Outcome.failsWith_rejectIf_of_not (hvalid w hw).1) ?_
  intro _ _
  apply (Outcome.failsWith_rejectIf (notStructural_error rfl)).bind
  intro _ _
  refine Outcome.FailsWith.bind
    (Outcome.failsWith_of_ok (validateAccountIndex_of_indexed (hindexed w hw))) ?_
  intro _ _
  apply Outcome.failsWith_rejectIf_of_not
  rw [Option.isNone_iff_eq_none, ← ne_eq, ← Option.isSome_iff_ne_none]
  exact (hvalid w hw).2

/-- Distinct sequence numbers have no equal neighbours. -/
theorem anyAdjacent_sequences {orders : List SequencedOrder}
    (hsequences : (orders.map SequencedOrder.sequence).Nodup) :
    anyAdjacent (fun a b => decide (a = b))
      (sortByKey BitVec.toNat (orders.map SequencedOrder.sequence)) = false := by
  apply anyAdjacent_eq_false
  have hnodup : (sortByKey BitVec.toNat (orders.map SequencedOrder.sequence)).Nodup :=
    (sortByKey_perm _ _).nodup_iff.mpr hsequences
  exact hnodup.imp fun hne => by simpa using hne

/-- Orders with prices, markets, indices and sequence numbers in order fail for their signatures
only. -/
theorem failsWith_validateOrders {orders : List SequencedOrder}
    (hvalid : ∀ o ∈ orders, o.price ≠ 0 ∧ o.quantity ≠ 0 ∧ (config.market o.marketId).isSome)
    (hindexed : ∀ o ∈ orders, IndexedIn (accounts.map Account.id) o.accountIndex o.trader)
    (hsequences : (orders.map SequencedOrder.sequence).Nodup) :
    Outcome.FailsWith NotStructural (validateOrders orders accounts config domainHash) := by
  have hloop : Outcome.FailsWith NotStructural
      (forM orders (validateOrder accounts config domainHash)) := by
    apply Outcome.failsWith_forM
    intro o ho
    rcases hvalid o ho with ⟨hprice, hquantity, hmarket⟩
    unfold validateOrder
    refine Outcome.FailsWith.bind (Outcome.failsWith_rejectIf_of_not hprice) ?_
    intro _ _
    refine Outcome.FailsWith.bind (Outcome.failsWith_rejectIf_of_not hquantity) ?_
    intro _ _
    apply (Outcome.failsWith_rejectIf (notStructural_error rfl)).bind
    intro _ _
    refine Outcome.FailsWith.bind
      (Outcome.failsWith_of_ok (validateAccountIndex_of_indexed (hindexed o ho))) ?_
    intro _ _
    apply Outcome.failsWith_rejectIf_of_not
    rw [Option.isNone_iff_eq_none, ← ne_eq, ← Option.isSome_iff_ne_none]
    exact hmarket
  unfold validateOrders
  apply hloop.bind
  intro _ _
  apply Outcome.failsWith_rejectIf_of_not
  rw [anyAdjacent_sequences hsequences]
  simp

end

/-! ## Counting the operations -/

/-- Counts with enough room are counted up. -/
theorem exists_foldlM_countOperation {α : Type} (accountIndex : α → Option U32) {l : List α}
    {counts : List U64}
    (hindexed : ∀ a ∈ l, ∃ index, accountIndex a = some index ∧ index.toNat < counts.length)
    (hroom : ∀ c ∈ counts, c.toNat + l.length < 2 ^ 64) :
    ∃ counts', l.foldlM (fun counts a => countOperation counts (accountIndex a)) counts =
      .ok counts' ∧
      ∀ c ∈ counts', ∃ c₀ ∈ counts, c.toNat ≤ c₀.toNat + l.length := by
  have hself : ∀ c ∈ counts, ∃ c₀ ∈ counts, c.toNat + l.length ≤ c₀.toNat + l.length :=
    fun c hc => ⟨c, hc, le_rfl⟩
  refine (Outcome.exists_foldlM (P := fun ahead current =>
    (∀ a ∈ ahead, ∃ index, accountIndex a = some index ∧ index.toNat < current.length) ∧
    ∀ c ∈ current, ∃ c₀ ∈ counts, c.toNat + ahead.length ≤ c₀.toNat + l.length)
    ?_ ⟨hindexed, hself⟩).imp fun _ hloop => ⟨hloop.1, hloop.2.2⟩
  intro a ahead current h
  rcases h with ⟨hindexed, hbound⟩
  rcases hindexed a (by simp) with ⟨index, hindex, hlt⟩
  rcases hbound current[index.toNat] (List.getElem_mem hlt) with ⟨c₀, hc₀, hle⟩
  have hfits := hroom c₀ hc₀
  rw [List.length_cons] at hle
  let next : U64 := BitVec.ofNat 64 (current[index.toNat].toNat + 1)
  have hnext : next.toNat = current[index.toNat].toNat + 1 := by
    rw [BitVec.toNat_ofNat, Nat.mod_eq_of_lt (by omega)]
  have hstep : countOperation current (accountIndex a) = .ok (current.set index.toNat next) := by
    simp only [countOperation, Outcome.bind_eq_ok, Outcome.expect_eq_ok, Outcome.modifyAt,
      Outcome.okOr_eq_ok, FixedWidth.checkedAdd_eq_some]
    exact ⟨index, hindex, _, List.getElem?_eq_getElem hlt, next, by simpa using hnext, rfl⟩
  refine ⟨_, hstep, ?_, ?_⟩
  · intro b hb
    rw [List.length_set]
    exact hindexed b (List.mem_cons_of_mem _ hb)
  · intro c hc
    rcases List.mem_or_eq_of_mem_set hc with hc | rfl
    · rcases hbound c hc with ⟨c₁, hc₁, hle₁⟩
      rw [List.length_cons] at hle₁
      exact ⟨c₁, hc₁, by omega⟩
    · exact ⟨c₀, hc₀, by omega⟩

/-- Nonces with enough room are consumed. -/
theorem exists_consumeNonces {accounts : List Account} {orders : List SequencedOrder}
    {withdrawals : List SignedWithdrawal} (hids : (accounts.map Account.id).Nodup)
    (horders : ∀ o ∈ orders, IndexedIn (accounts.map Account.id) o.accountIndex o.trader)
    (hwithdrawals : ∀ w ∈ withdrawals, IndexedIn (accounts.map Account.id) w.accountIndex w.account)
    (hcount : orders.length + withdrawals.length < 2 ^ 64)
    (hfits : ∀ id, nonceOf accounts id + (noncesOf orders withdrawals id).length < 2 ^ 64) :
    ∃ accounts', consumeNonces accounts orders withdrawals = .ok accounts' := by
  have hposition : ∀ {accountIndex id}, IndexedIn (accounts.map Account.id) accountIndex id →
      ∃ index, accountIndex = some index ∧ index.toNat < accounts.length := by
    rintro accountIndex id ⟨index, hindex, hat⟩
    have hlt := (List.getElem?_eq_some_iff.mp hat).1
    rw [List.length_map] at hlt
    exact ⟨index, hindex, hlt⟩
  have hzero : ∀ c ∈ List.replicate accounts.length (0 : U64), c = 0 :=
    fun c hc => List.eq_of_mem_replicate hc
  have hordersIndexed : ∀ o ∈ orders, ∃ index, o.accountIndex = some index ∧
      index.toNat < (List.replicate accounts.length (0 : U64)).length := by
    intro o ho
    rw [List.length_replicate]
    exact hposition (horders o ho)
  rcases exists_foldlM_countOperation SequencedOrder.accountIndex hordersIndexed (by
      intro c hc
      rw [hzero c hc]
      simp only [BitVec.ofNat_eq_ofNat, BitVec.toNat_ofNat, Nat.zero_mod, Nat.zero_add]
      omega) with ⟨counts, hcounts, hbound⟩
  have hlength := (foldlM_countOperation hcounts).1
  rw [List.length_replicate] at hlength
  have hsmall : ∀ c ∈ counts, c.toNat ≤ orders.length := by
    intro c hc
    rcases hbound c hc with ⟨c₀, hc₀, hle⟩
    rw [hzero c₀ hc₀] at hle
    simpa using hle
  have hwithdrawalsIndexed : ∀ w ∈ withdrawals, ∃ index, w.accountIndex = some index ∧
      index.toNat < counts.length := by
    intro w hw
    rw [hlength]
    exact hposition (hwithdrawals w hw)
  rcases exists_foldlM_countOperation SignedOperation.accountIndex hwithdrawalsIndexed (by
      intro c hc
      have hle := hsmall c hc
      omega) with ⟨counts', hcounts', _⟩
  have hadvance : ∀ p ∈ accounts.zip counts', ∃ account, (do
      let nextNonce ← Outcome.okOr (FixedWidth.checkedAdd p.1.nextNonce p.2) .NonceOverflow
      .ok (p.1.setNextNonce nextNonce)) = (.ok account : Outcome SettlementError Account) := by
    intro p hp
    rcases List.mem_iff_getElem?.mp hp with ⟨index, hindex⟩
    rw [List.getElem?_zip_eq_some] at hindex
    rcases hindex with ⟨haccount, hc⟩
    rcases exists_count hids horders hwithdrawals hcounts hcounts' haccount with ⟨c, hc', hval⟩
    rw [hc, Option.some.injEq] at hc'
    have hroom := hfits p.1.id
    rw [nonceOf_eq_nextNonce hids (List.mem_of_getElem? haccount), ← hval, ← hc'] at hroom
    have hsum : FixedWidth.checkedAdd p.1.nextNonce p.2 =
        some (BitVec.ofNat 64 (p.1.nextNonce.toNat + p.2.toNat)) := by
      rw [FixedWidth.checkedAdd_eq_some, BitVec.toNat_ofNat, Nat.mod_eq_of_lt hroom]
    refine ⟨p.1.setNextNonce (BitVec.ofNat 64 (p.1.nextNonce.toNat + p.2.toNat)), ?_⟩
    simp only [hsum, Outcome.okOr, Outcome.ok_bind]
  rcases Outcome.exists_mapM hadvance with ⟨accounts', haccounts'⟩
  refine ⟨accounts', ?_⟩
  simp only [consumeNonces, Outcome.bind_eq_ok]
  exact ⟨counts, hcounts, counts', hcounts', haccounts'⟩

theorem failsWith_applyWithdrawals (accounts : List Account) (withdrawals : List SignedWithdrawal) :
    Outcome.FailsWith NotStructural (applyWithdrawals accounts withdrawals) := by
  unfold applyWithdrawals
  refine Outcome.failsWith_foldlM (P := fun _ => True) (fun _ _ _ _ _ _ => trivial) ?_ trivial
  intro accounts w _ _
  apply (Outcome.failsWith_expect notStructural_panic).bind
  intro index _
  exact failsWith_modifyAt_debit _ _ _ _

/-! ## Whole batches -/

variable {B256 : Type} [Sha256 B256]

/-- A batch that is put together well.  The ids are those that its proof lists. -/
structure WellFormed (input : BatchInput B256) (ids : List AccountId) : Prop where
  limits : validateLimits input = .ok ()
  config : validateConfig input.config input.state.accounts = .ok ()
  canonical : AccountsCanonical input.state.accounts
  room : ids.length ≤ MAX_TOUCHED_ACCOUNTS_PER_BATCH
  witnessed : ∀ a ∈ input.state.accounts, a.id ∈ ids
  deposited : ∀ d ∈ input.deposits, d.account ∈ ids
  oldRoot : input.state.root = .ok input.expectedOldStateRoot
  /-- Whatever accounts the batch leaves under these ids, they have a root. -/
  newRoot : ∀ accounts : List Account, (accounts.map Account.id).Nodup →
    (∀ a ∈ accounts, a.id ∈ ids) →
    ∃ root, (⟨accounts, input.state.multiproof⟩ : StateWitness B256).root = .ok root
  deposits : input.deposits.map (fun d => d.id.toNat) =
      List.range' input.oldDepositCursor.toNat input.deposits.length ∧
    input.oldDepositCursor.toNat + input.deposits.length < 2 ^ 64 ∧
    ∀ d ∈ input.deposits, d.amount ≠ 0 ∧ (input.config.asset d.asset).isSome
  forcedWithdrawals : input.forcedWithdrawals.map (fun r => r.id.toNat) =
      List.range' input.oldForcedWithdrawalCursor.toNat input.forcedWithdrawals.length ∧
    input.oldForcedWithdrawalCursor.toNat + input.forcedWithdrawals.length < 2 ^ 64 ∧
    ∀ r ∈ input.forcedWithdrawals, r.amount ≠ 0
  withdrawals : ∀ w ∈ input.withdrawals, w.amount ≠ 0 ∧ (input.config.asset w.asset).isSome
  orders : ∀ o ∈ input.orders,
    o.price ≠ 0 ∧ o.quantity ≠ 0 ∧ (input.config.market o.marketId).isSome
  sequences : (input.orders.map SequencedOrder.sequence).Nodup
  /-- After the deposits the indices of the operations name their accounts. -/
  indexed : ∀ accounts, applyDeposits input.state.accounts input.deposits = .ok accounts →
    (∀ o ∈ input.orders, IndexedIn (accounts.map Account.id) o.accountIndex o.trader) ∧
      ∀ w ∈ input.withdrawals, IndexedIn (accounts.map Account.id) w.accountIndex w.account
  nonces : ∀ id, (noncesOf input.orders input.withdrawals id).Perm
    (List.range' (nonceOf input.state.accounts id)
      (noncesOf input.orders input.withdrawals id).length)
  nonceRoom : ∀ id, nonceOf input.state.accounts id +
    (noncesOf input.orders input.withdrawals id).length < 2 ^ 64
  books : BooksArranged input.orders input.config input.orderBooks

variable {input : BatchInput B256} {ids : List AccountId}

/-- The limits keep the number of operations small. -/
theorem WellFormed.length_operations_lt (h : WellFormed input ids) :
    input.orders.length + input.withdrawals.length < 2 ^ 64 := by
  have hlimits := h.limits
  simp only [validateLimits, Outcome.bind_eq_ok, Outcome.rejectIf_eq_ok, not_lt] at hlimits
  rcases hlimits with ⟨_, _, _, horders, _, _, _, hwithdrawals, _⟩
  unfold MAX_ORDERS_PER_BATCH at horders
  unfold MAX_WITHDRAWALS_PER_BATCH at hwithdrawals
  omega

/-- Accounts in the course of a batch before its nonces are consumed: the operations are indexed in
them, the nonces are those of the start, and they are those of the proof and of the deposits. -/
structure Ready (input : BatchInput B256) (accounts : List Account) : Prop where
  canonical : AccountsCanonical accounts
  orders : ∀ o ∈ input.orders, IndexedIn (accounts.map Account.id) o.accountIndex o.trader
  withdrawals : ∀ w ∈ input.withdrawals,
    IndexedIn (accounts.map Account.id) w.accountIndex w.account
  nonces : ∀ id, nonceOf accounts id = nonceOf input.state.accounts id
  mem_ids : ∀ id, id ∈ accounts.map Account.id ↔
    id ∈ input.state.accounts.map Account.id ∨ id ∈ input.deposits.map Deposit.account

variable {accounts accounts' : List Account}

theorem WellFormed.ready (h : WellFormed input ids)
    (hdeposited : applyDeposits input.state.accounts input.deposits = .ok accounts) :
    Ready input accounts := by
  have hspec := applyDeposits_spec h.canonical hdeposited
  rcases h.indexed accounts hdeposited with ⟨horders, hwithdrawals⟩
  exact ⟨hspec.accountsCanonical, horders, hwithdrawals, hspec.nonces, hspec.mem_ids⟩

omit [Sha256 B256] in
/-- Steps that move balances only keep the accounts ready. -/
theorem Ready.of_same (h : Ready input accounts) (hsame : SameAccounts accounts accounts') :
    Ready input accounts' := by
  refine ⟨hsame.accountsCanonical h.canonical, ?_, ?_, ?_, ?_⟩
  · rw [hsame.ids]
    exact h.orders
  · rw [hsame.ids]
    exact h.withdrawals
  · intro id
    rw [hsame.nonceOf_eq, h.nonces]
  · rw [hsame.ids]
    exact h.mem_ids

/-- The nonces of a well-formed batch pass. -/
theorem WellFormed.validateNonces_eq_ok (h : WellFormed input ids) (hready : Ready input accounts) :
    validateNonces input.orders input.withdrawals accounts = .ok () := by
  apply validateNonces_of_perm hready.canonical.sorted.nodup_map hready.orders hready.withdrawals
  · intro id
    rw [hready.nonces]
    exact h.nonces id
  · intro id
    rw [hready.nonces]
    exact h.nonceRoom id

/-- The nonces of a well-formed batch are consumed. -/
theorem WellFormed.exists_consumed (h : WellFormed input ids) (hready : Ready input accounts) :
    ∃ consumed, consumeNonces accounts input.orders input.withdrawals = .ok consumed := by
  apply exists_consumeNonces hready.canonical.sorted.nodup_map hready.orders hready.withdrawals
    h.length_operations_lt
  intro id
  rw [hready.nonces]
  exact h.nonceRoom id

/-- Whatever accounts are left, they are among the listed ids and have a root. -/
theorem WellFormed.exists_newRoot (h : WellFormed input ids) (hready : Ready input accounts)
    (hids : accounts'.map Account.id = accounts.map Account.id) :
    ∃ root, (⟨accounts', input.state.multiproof⟩ : StateWitness B256).root = .ok root := by
  apply h.newRoot
  · rw [hids]
    exact hready.canonical.sorted.nodup_map
  · intro a ha
    have hid : a.id ∈ accounts.map Account.id := hids ▸ List.mem_map_of_mem ha
    rcases (hready.mem_ids a.id).mp hid with hid | hid
    · rcases List.mem_map.mp hid with ⟨b, hb, hid⟩
      exact hid ▸ h.witnessed b hb
    · rcases List.mem_map.mp hid with ⟨d, hd, hid⟩
      exact hid ▸ h.deposited d hd

/-- A well-formed batch never fails with a structural error. -/
theorem WellFormed.settleBatch_failsWith [Secp256k1 B256] [DecidableEq B256]
    (h : WellFormed input ids) :
    Outcome.FailsWith NotStructural (settleBatch input) := by
  unfold settleBatch
  refine Outcome.FailsWith.bind (Outcome.failsWith_of_ok h.limits) ?_
  intro _ _
  refine Outcome.FailsWith.bind (Outcome.failsWith_of_ok h.config) ?_
  intro _ _
  refine Outcome.FailsWith.bind
    (Outcome.failsWith_of_ok (validateAccounts_of_canonical h.canonical)) ?_
  intro _ _
  rcases exists_validateDeposits.mpr h.deposits with ⟨cursor, hcursor⟩
  refine Outcome.FailsWith.bind (Outcome.failsWith_of_ok hcursor) ?_
  intro newDepositCursor _
  refine Outcome.FailsWith.bind (Outcome.failsWith_of_ok h.oldRoot) ?_
  intro oldStateRoot hroot
  rw [h.oldRoot, Except.ok.injEq] at hroot
  refine Outcome.FailsWith.bind (Outcome.failsWith_rejectIf_of_not (by simp [hroot])) ?_
  intro _ _
  refine Outcome.FailsWith.bind
    (AssetTracker.failsWith_addAccounts (notStructural_error rfl) _ _) ?_
  intro tracker _
  refine Outcome.FailsWith.bind
    (AssetTracker.failsWith_addDeposits (notStructural_error rfl) _ _) ?_
  intro tracker _
  refine Outcome.FailsWith.bind
    (AssetTracker.failsWith_subtractWithdrawals (notStructural_error rfl) _ _) ?_
  intro tracker _
  refine Outcome.FailsWith.bind (failsWith_applyDeposits h.canonical.sorted h.witnessed h.deposited
    h.room) ?_
  intro deposited hdeposited
  have hready := h.ready hdeposited
  refine Outcome.FailsWith.bind
    (Outcome.failsWith_of_ok (exists_validateForcedWithdrawals.mpr h.forcedWithdrawals)) ?_
  intro _ _
  rcases exists_applyForcedWithdrawals hready.canonical input.forcedWithdrawals with
    ⟨drained, executed, hdrained⟩
  refine Outcome.FailsWith.bind (Outcome.failsWith_of_ok hdrained) ?_
  intro served hserved
  rw [hdrained, Except.ok.injEq] at hserved
  subst hserved
  have hready := hready.of_same (applyForcedWithdrawals_spec hready.canonical hdrained).1
  refine Outcome.FailsWith.bind
    (AssetTracker.failsWith_subtractForcedWithdrawals (notStructural_error rfl) _ _) ?_
  intro tracker _
  refine Outcome.FailsWith.bind (failsWith_validateWithdrawals h.withdrawals hready.withdrawals) ?_
  intro _ _
  refine Outcome.FailsWith.bind (failsWith_validateOrders h.orders hready.orders h.sequences) ?_
  intro _ _
  refine Outcome.FailsWith.bind (Outcome.failsWith_of_ok (h.validateNonces_eq_ok hready)) ?_
  intro _ _
  refine Outcome.FailsWith.bind (failsWith_applyWithdrawals _ _) ?_
  intro withdrawn hwithdrawn
  have hready := hready.of_same (applyWithdrawals_spec hready.withdrawals hwithdrawn).1
  rcases h.exists_consumed hready with ⟨consumed, hconsumed⟩
  refine Outcome.FailsWith.bind (Outcome.failsWith_of_ok hconsumed) ?_
  intro accounts haccounts
  rw [hconsumed, Except.ok.injEq] at haccounts
  subst haccounts
  have hadvanced := consumeNonces_spec hready.canonical.sorted.nodup_map hready.orders
    hready.withdrawals hconsumed
  have hcanonical := hadvanced.accountsCanonical hready.canonical
  rcases exists_buildValidatedBooks h.books with ⟨books, hbooks⟩
  refine Outcome.FailsWith.bind (Outcome.failsWith_of_ok hbooks) ?_
  intro books' hbooks'
  rw [hbooks, Except.ok.injEq] at hbooks'
  subst hbooks'
  have hrecipient : input.config.fees.recipient ∈ consumed.map Account.id := by
    rw [hadvanced.ids, hready.mem_ids]
    exact Or.inl (validateConfig_spec h.config).recipient
  refine Outcome.FailsWith.bind (failsWith_matchAndSettle hcanonical.sorted hrecipient) ?_
  intro matched hmatched
  refine Outcome.FailsWith.bind
    (AssetTracker.failsWith_subtractAccounts (notStructural_error rfl) _ _) ?_
  intro tracker _
  refine Outcome.FailsWith.bind (Outcome.failsWith_rejectIf (notStructural_error rfl)) ?_
  intro _ _
  -- the trades keep the accounts, so that these are still among the listed ids
  have hindexed : ∀ o ∈ input.orders,
      IndexedIn (consumed.map Account.id) o.accountIndex o.trader := by
    rw [hadvanced.ids]
    exact hready.orders
  have hsettled := (matchAndSettle_spec hcanonical.sorted (buildValidatedBooks_spec hbooks) hindexed
    hmatched).1
  rcases h.exists_newRoot hready (hsettled.same.ids.trans hadvanced.ids) with ⟨newRoot, hnewRoot⟩
  refine Outcome.FailsWith.bind (Outcome.failsWith_of_ok hnewRoot) ?_
  intro newStateRoot _
  exact Outcome.failsWith_ok _

end ZkClob
