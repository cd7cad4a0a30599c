import ZkClob.Settlement.CreditBounds
import ZkClob.Settlement.DepositHints
import ZkClob.Settlement.ForcedService
import ZkClob.Settlement.WellFormed

/-!
# Batches of queue entries

A batch may consist of queue entries only: deposits and forced withdrawals, without any signed
operation.  Nothing in such a batch can be wrong but the sums: when the totals fit, it is accepted.

Main results:

- Theorem {lit}`exists_applyDeposits`: deposits whose totals fit are applied.
- Theorem {lit}`QueuesOnly.exists_output`: with an honest witness, a batch of queue entries is
  accepted.
- Theorem {lit}`served_of_reached`: requests that the indices reach are served.
-/

namespace ZkClob

open Foundations Patricia

/-! ## Deposits -/

/-- A credit that fits is given. -/
theorem exists_credit {account : Account} {asset : AssetId} {amount : U128}
    (hfits : account.total asset + amount.toNat < 2 ^ 128) :
    ∃ account', account.credit asset amount = .ok account' := by
  unfold Account.credit
  by_cases hzero : amount = 0
  · rw [if_pos hzero]
    exact ⟨account, rfl⟩
  · rw [if_neg hzero]
    cases hsearch : binarySearchByKey AssetBalance.asset asset account.balances with
    | ok index =>
        rcases binarySearchBy_ok hsearch with ⟨balance, hbalance, hkey⟩
        have hasset : balance.asset = asset := compare_eq_iff_eq.mp hkey
        have hle := available_le_total (List.mem_of_getElem? hbalance)
        rw [hasset] at hle
        have hsum : FixedWidth.checkedAdd balance.available amount =
            some (BitVec.ofNat 128 (balance.available.toNat + amount.toNat)) := by
          rw [FixedWidth.checkedAdd_eq_some, BitVec.toNat_ofNat, Nat.mod_eq_of_lt (by omega)]
        simp only [hbalance, Outcome.expect_some, Outcome.ok_bind, hsum, Outcome.okOr]
        exact ⟨_, rfl⟩
    | error index =>
        have hle := binarySearchBy_error_le hsearch
        simp only [Outcome.insertAt, if_pos hle, Outcome.ok_bind]
        exact ⟨_, rfl⟩

/-- A credit of an account that is there. -/
theorem exists_modifyAt_credit {accounts : List Account} {index : Nat} {account : Account}
    {asset : AssetId} {amount : U128} (haccount : accounts[index]? = some account)
    (hfits : account.total asset + amount.toNat < 2 ^ 128) :
    ∃ accounts', Outcome.modifyAt accounts index (·.credit asset amount) = .ok accounts' := by
  rcases exists_credit hfits with ⟨account', haccount'⟩
  refine ⟨accounts.set index account', ?_⟩
  rw [Outcome.modifyAt, haccount, Outcome.expect_some, Outcome.ok_bind, haccount']
  rfl

variable {accounts : List Account} {ids : List AccountId}

/-- A deposit is applied when its total fits and there is room for its account. -/
theorem exists_applyDeposit {deposit : Deposit} (hsorted : SortedBy Account.id accounts)
    (hhint : deposit.accountIndex.isSome) (hids : ∀ a ∈ accounts, a.id ∈ ids)
    (hid : deposit.account ∈ ids) (hroom : ids.length ≤ MAX_TOUCHED_ACCOUNTS_PER_BATCH)
    (hfits : supply accounts deposit.asset + deposit.amount.toNat < 2 ^ 128) :
    ∃ accounts', applyDeposit accounts deposit = .ok accounts' := by
  rw [applyDeposit_eq_unhinted hsorted hhint]
  unfold applyDepositUnhinted
  cases hsearch : binarySearchByKey Account.id deposit.account accounts with
  | ok index =>
      rcases hsorted.search_ok_iff.mp hsearch with ⟨account, haccount, _⟩
      have hle := total_le_supply (List.mem_of_getElem? haccount) deposit.asset
      exact exists_modifyAt_credit haccount (by omega)
  | error index =>
      have hfresh : deposit.account ∉ accounts.map Account.id := by
        intro hmem
        rcases List.mem_map.mp hmem with ⟨account, haccount, heq⟩
        exact hsorted.search_error_iff.mp ⟨index, hsearch⟩ account haccount heq
      have hlt := length_lt_of_fresh hsorted.nodup_map hids hid hfresh
      have hspace : ¬ accounts.length ≥ MAX_TOUCHED_ACCOUNTS_PER_BATCH := by omega
      have hle := (hsorted.search_error hsearch).1
      have hinserted : (accounts.insertIdx index ⟨deposit.account, [], 0⟩)[index]? =
          some ⟨deposit.account, [], 0⟩ := by
        rw [List.getElem?_insertIdx_self, if_pos hle]
      simp only [Outcome.rejectIf, if_neg hspace, Outcome.ok_bind, Outcome.insertAt, if_pos hle]
      apply exists_modifyAt_credit hinserted
      have hempty : (⟨deposit.account, [], 0⟩ : Account).total deposit.asset = 0 := rfl
      rw [hempty]
      omega

/-- Deposits are applied when the totals fit and there is room for their accounts. -/
theorem exists_applyDeposits {deposits : List Deposit} (hcan : AccountsCanonical accounts)
    (hhints : ∀ d ∈ deposits, d.accountIndex.isSome) (hids : ∀ a ∈ accounts, a.id ∈ ids)
    (hdeposited : ∀ d ∈ deposits, d.account ∈ ids)
    (hroom : ids.length ≤ MAX_TOUCHED_ACCOUNTS_PER_BATCH)
    (hfits : ∀ x, supply accounts x +
      tally (fun d => d.asset = x) (fun d => d.amount.toNat) deposits < 2 ^ 128) :
    ∃ accounts', applyDeposits accounts deposits = .ok accounts' := by
  unfold applyDeposits
  refine (Outcome.exists_foldlM (P := fun ahead accounts => AccountsCanonical accounts ∧
    (∀ d ∈ ahead, d.accountIndex.isSome ∧ d.account ∈ ids) ∧ (∀ a ∈ accounts, a.id ∈ ids) ∧
    ∀ x, supply accounts x + tally (fun d => d.asset = x) (fun d => d.amount.toNat) ahead <
      2 ^ 128)
    ?_ ⟨hcan, fun d hd => ⟨hhints d hd, hdeposited d hd⟩, hids, hfits⟩).imp
    fun _ hloop => hloop.1
  intro deposit ahead accounts h
  rcases h with ⟨hcan, hahead, hids, hfits⟩
  rcases hahead deposit List.mem_cons_self with ⟨hhint, hlisted⟩
  have hfirst := hfits deposit.asset
  simp only [tally_cons, decide_true, if_true] at hfirst
  obtain ⟨mid, hmid⟩ := exists_applyDeposit hcan.sorted hhint hids hlisted hroom (by omega)
  have hspec := applyDeposit_spec hcan hmid
  refine ⟨mid, hmid, hspec.accountsCanonical,
    fun d hd => hahead d (List.mem_cons_of_mem _ hd), ?_, ?_⟩
  · intro a ha
    rcases (hspec.mem_ids a.id).mp (List.mem_map_of_mem ha) with hold | hnew
    · rcases List.mem_map.mp hold with ⟨b, hb, hid⟩
      exact hid ▸ hids b hb
    · rw [List.map_singleton, List.mem_singleton] at hnew
      exact hnew ▸ hlisted
  · intro x
    have hx := hfits x
    have hsupply := hspec.supply_eq x
    simp only [tally_cons, tally_nil] at hx hsupply
    omega

/-! ## Batches -/

section

variable {B256 : Type} {input : BatchInput B256}

/-- A batch without signed operations. -/
structure QueuesOnly (input : BatchInput B256) : Prop where
  orders : input.orders = []
  withdrawals : input.withdrawals = []
  orderBooks : input.orderBooks = []

variable [Sha256 B256] [Secp256k1 B256]

/-- A batch of queue entries goes through every step. -/
theorem QueuesOnly.exists_steps (h : QueuesOnly input)
    (hcan : AccountsCanonical input.state.accounts) (hlimits : validateLimits input = .ok ())
    (hconfig : validateConfig input.config input.state.accounts = .ok ())
    (hroot : input.state.root = .ok input.expectedOldStateRoot)
    (hdeposits : ∃ newCursor,
      validateDeposits input.deposits input.oldDepositCursor input.config = .ok newCursor)
    (hrequests : validateForcedWithdrawals input.forcedWithdrawals
      input.oldForcedWithdrawalCursor = .ok ())
    {deposited : List Account}
    (happlied : applyDeposits input.state.accounts input.deposits = .ok deposited) :
    ∃ stages, StepsSucceed input stages := by
  have hspec := applyDeposits_spec hcan happlied
  rcases exists_applyForcedWithdrawals hspec.accountsCanonical input.forcedWithdrawals with
    ⟨drained, executed, hdrained⟩
  have hsame := (applyForcedWithdrawals_spec hspec.accountsCanonical hdrained).1
  have hrecipient : input.config.fees.recipient ∈ drained.map Account.id := by
    rw [hsame.ids, hspec.mem_ids]
    exact Or.inl (validateConfig_spec hconfig).recipient
  have hmatched := matchAndSettle_nil (hsame.sorted hspec.accountsCanonical.sorted) hrecipient
  refine ⟨⟨deposited, drained, executed, drained, drained, [], drained, []⟩, ?_⟩
  exact {
    limits := hlimits
    config := hconfig
    accounts := validateAccounts_of_canonical hcan
    deposits := hdeposits
    oldRoot := hroot
    applyDeposits := happlied
    forcedWithdrawals := hrequests
    applyForcedWithdrawals := hdrained
    withdrawals := by
      rw [h.withdrawals]
      rfl
    orders := by
      rw [h.orders]
      rfl
    nonces := by
      rw [h.orders, h.withdrawals]
      rfl
    applyWithdrawals := by
      rw [h.withdrawals]
      rfl
    consumeNonces := by
      rw [h.orders, h.withdrawals]
      exact consumeNonces_nil drained
    books := by
      rw [h.orders, h.orderBooks]
      rfl
    matchAndSettle := hmatched }

variable [DecidableEq B256] {state : State}

/-- With an honest witness of accounts among which are those of the deposits, a batch of queue
entries is accepted when its totals fit. -/
theorem QueuesOnly.exists_output (h : QueuesOnly input)
    (hcan : AccountsCanonical input.state.accounts) (hlimits : validateLimits input = .ok ())
    (hconfig : validateConfig input.config input.state.accounts = .ok ())
    (hroot : input.state.root = .ok input.expectedOldStateRoot)
    (hdeposits : ∃ newCursor,
      validateDeposits input.deposits input.oldDepositCursor input.config = .ok newCursor)
    (hrequests : validateForcedWithdrawals input.forcedWithdrawals
      input.oldForcedWithdrawalCursor = .ok ())
    (hhints : ∀ d ∈ input.deposits, d.accountIndex.isSome)
    (hsorted : SortedBy Account.id state.accounts) (hne : ids ≠ []) (hnodup : ids.Nodup)
    (hroom : ids.length ≤ MAX_TOUCHED_ACCOUNTS_PER_BATCH)
    (hwitness : state.witnessFor ids = .ok input.state)
    (hdeposited : ∀ d ∈ input.deposits, d.account ∈ ids)
    (hfits : ∀ x, supply input.state.accounts x +
      tally (fun d => d.asset = x) (fun d => d.amount.toNat) input.deposits < 2 ^ 128) :
    ∃ output, settleBatch input = .ok output := by
  have hids : ∀ a ∈ input.state.accounts, a.id ∈ ids := by
    intro a ha
    rw [(State.witnessFor_eq_ok hwitness).1, (State.lookup_perm hsorted hnodup).mem_iff,
      List.mem_filter] at ha
    exact of_decide_eq_true ha.2
  rcases exists_applyDeposits hcan hhints hids hdeposited hroom hfits with ⟨deposited, happlied⟩
  rcases h.exists_steps hcan hlimits hconfig hroot hdeposits hrequests happlied with
    ⟨stages, hsteps⟩
  have htracked : ∀ x, AssetTracker.default.total x + supply input.state.accounts x <
      2 ^ 128 := by
    intro x
    have hx := hfits x
    rw [AssetTracker.total_default]
    omega
  rcases AssetTracker.exists_addAccounts htracked with ⟨tracker, htracker⟩
  have htotal : ∀ x, tracker.total x +
      tally (fun d => d.asset = x) (fun d => d.amount.toNat) input.deposits < 2 ^ 128 := by
    intro x
    have hx := hfits x
    rw [AssetTracker.addAccounts_total htracker, AssetTracker.total_default]
    omega
  rcases AssetTracker.exists_foldlM_add htotal with ⟨tracker', htracker'⟩
  exact hsteps.exists_output htracker htracker' hsorted hne hnodup hwitness hdeposited

omit [Sha256 B256] [Secp256k1 B256] [DecidableEq B256] in
/-- Requests whose indices name their accounts are reached. -/
theorem reached_of_indexed {ids : List AccountId} {ledger : AccountId → AssetId → Nat}
    {requests : List ForcedWithdrawal}
    (h : ∀ r ∈ requests, IndexedIn ids r.accountIndex r.account) : Reached ids ledger requests := by
  induction requests generalizing ledger with
  | nil => exact trivial
  | cons request requests ih =>
      exact ⟨Or.inl (h request List.mem_cons_self), ih fun r hr => h r (List.mem_cons_of_mem _ hr)⟩

omit [Sha256 B256] [Secp256k1 B256] [DecidableEq B256] in
/-- An account that is neither in the set nor deposited to holds nothing. -/
theorem afterDeposits_eq_zero {A : List Account} {deposits : List Deposit} {id : AccountId}
    (hid : id ∉ A.map Account.id) (hdeposits : id ∉ deposits.map Deposit.account)
    (asset : AssetId) : afterDeposits A deposits id asset = 0 := by
  have hbalance : balanceOf A id asset = 0 := by
    have hnone : A.find? (fun account => account.id = id) = none := by
      rw [List.find?_eq_none]
      intro account haccount hsame
      exact hid (of_decide_eq_true hsame ▸ List.mem_map_of_mem haccount)
    rw [balanceOf, hnone]
  rw [afterDeposits, hbalance, Nat.zero_add]
  apply tally_eq_zero
  intro d hd
  apply decide_eq_false
  rintro ⟨hsame, _⟩
  exact hdeposits (hsame ▸ List.mem_map_of_mem hd)

omit [DecidableEq B256] in
/-- Requests that are reached are served. -/
theorem served_of_reached (hfree : CollisionFree B256) {output : BatchOutput B256}
    {A : List Account} (s : Settlement input output) (hA : Commits A input.expectedOldStateRoot)
    (hreached : Reached (participants input) (afterDeposits A input.deposits)
      input.forcedWithdrawals) : Served A input output := by
  rw [← s.deposited_ids] at hreached
  exact (applyForcedWithdrawals_iff s.deposits.accountsCanonical
    (fun id hid asset => s.holding_deposited hfree hA hid asset) s.forcedPositive s.forced).mpr
    hreached

end

end ZkClob
