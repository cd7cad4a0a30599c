import ZkClob.Settlement.TrackerRedundancy
import ZkClob.Settlement.Witnesses

/-!
# The queue of forced withdrawals cannot be blocked

Whoever asks for a forced withdrawal chooses the account, the asset and the amount, and the
host chooses the index.  None of these can make the guest reject the requests: a request that
does not reach a balance is consumed with nothing drained.

Main results:

- Theorem {lit}`exists_applyForcedWithdrawals`: canonical accounts serve any requests.
- Theorem {lit}`AssetTracker.exists_addAccounts`: accounts whose totals fit are tracked.
- Theorem {lit}`StepsSucceed.exists_output`: with an honest witness the steps are all there is.
- Theorem {lit}`forced_withdrawals_accepted`: a batch of nothing but requests is accepted.
-/

namespace ZkClob

open Foundations Patricia

/-! ## Serving any requests -/

/-- One request never fails: what is drained is available. -/
theorem exists_applyForcedWithdrawal {accounts : List Account} (hcan : AccountsCanonical accounts)
    (request : ForcedWithdrawal) :
    ∃ accounts' drained, applyForcedWithdrawal accounts request = .ok (accounts', drained) := by
  unfold applyForcedWithdrawal
  cases request.accountIndex with
  | none => exact ⟨accounts, 0, rfl⟩
  | some index =>
      dsimp only
      cases haccount : accounts[index.toNat]? with
      | none => exact ⟨accounts, 0, rfl⟩
      | some account =>
          dsimp only
          by_cases hid : account.id = request.account
          · rw [if_pos hid]
            have hcanonical := hcan.canonical account (List.mem_of_getElem? haccount)
            by_cases hdrained : FixedWidth.min request.amount (account.balance request.asset) > 0
            · rw [if_pos hdrained]
              have hne : FixedWidth.min request.amount (account.balance request.asset) ≠ 0 := by
                intro hzero
                rw [hzero] at hdrained
                exact absurd hdrained (by decide)
              have hle : (FixedWidth.min request.amount (account.balance request.asset)).toNat ≤
                  account.total request.asset := by
                rw [FixedWidth.toNat_min, ← hcanonical.balance_eq_total]
                exact Nat.min_le_right _ _
              rcases Account.debit_ok_of_le_total hcanonical hne hle with ⟨debited, hdebited⟩
              refine ⟨accounts.set index.toNat debited,
                FixedWidth.min request.amount (account.balance request.asset), ?_⟩
              rw [Outcome.modifyAt, haccount, Outcome.expect_some, Outcome.ok_bind, hdebited]
              rfl
            · rw [if_neg hdrained]
              exact ⟨accounts, _, rfl⟩
          · rw [if_neg hid]
            exact ⟨accounts, 0, rfl⟩

/-- Canonical accounts serve any requests. -/
theorem exists_applyForcedWithdrawals {accounts : List Account} (hcan : AccountsCanonical accounts)
    (requests : List ForcedWithdrawal) :
    ∃ accounts' executed, applyForcedWithdrawals accounts requests = .ok (accounts', executed) := by
  induction requests generalizing accounts with
  | nil => exact ⟨accounts, [], rfl⟩
  | cons request requests ih =>
      rcases exists_applyForcedWithdrawal hcan request with ⟨mid, drained, hmid⟩
      -- a balance that was drained away leaves canonical accounts
      have hmidcan := (applyForcedWithdrawal_spec hcan hmid).same.accountsCanonical hcan
      rcases ih hmidcan with ⟨accounts', executed, hrest⟩
      refine ⟨accounts', request.setAmount drained :: executed, ?_⟩
      rw [applyForcedWithdrawals, hmid, Outcome.ok_bind]
      simp only [hrest, Outcome.ok_bind]

/-! ## Tracking the accounts -/

namespace AssetTracker

variable {self : AssetTracker}

/-- What fits can be added. -/
theorem exists_add {asset : AssetId} {amount : U128}
    (h : self.total asset + amount.toNat < 2 ^ 128) :
    ∃ self', self.add asset amount = .ok self' := by
  have hsum : FixedWidth.checkedAdd ((self.totals.get asset).getD 0) amount =
      some (BitVec.ofNat 128 (self.total asset + amount.toNat)) := by
    rw [FixedWidth.checkedAdd_eq_some, BitVec.toNat_ofNat, Nat.mod_eq_of_lt h]
    rfl
  refine ⟨⟨self.totals.insert asset (BitVec.ofNat 128 (self.total asset + amount.toNat))⟩, ?_⟩
  simp only [add, hsum, Outcome.okOr, Outcome.ok_bind]

/-- Adding a sequence whose totals fit. -/
theorem exists_foldlM_add {α : Type} {assetOf : α → AssetId} {amountOf : α → U128} {l : List α}
    (h : ∀ x, self.total x + tally (fun a => assetOf a = x)
    (fun a => (amountOf a).toNat) l < 2 ^ 128) :
    ∃ self', l.foldlM (fun (tracker : AssetTracker) a =>
      tracker.add (assetOf a) (amountOf a)) self =
      .ok self' := by
  refine (Outcome.exists_foldlM (P := fun ahead tracker => ∀ x, tracker.total x +
    tally (fun a => assetOf a = x) (fun a => (amountOf a).toNat) ahead < 2 ^ 128) ?_ h).imp
    fun _ hloop => hloop.1
  intro a ahead tracker h
  simp only [tally_cons, decide_eq_true_eq] at h
  have hfirst : tracker.total (assetOf a) + (amountOf a).toNat < 2 ^ 128 := by
    have hx := h (assetOf a)
    rw [if_pos rfl] at hx
    omega
  obtain ⟨mid, hmid⟩ := exists_add hfirst
  refine ⟨mid, hmid, ?_⟩
  intro x
  have hx := h x
  have htotal := add_total hmid x
  omega

/-- Accounts whose totals fit are tracked. -/
theorem exists_addAccounts {accounts : List Account}
    (h : ∀ x, self.total x + supply accounts x < 2 ^ 128) :
    ∃ self', self.addAccounts accounts = .ok self' := by
  unfold addAccounts
  refine (Outcome.exists_foldlM
    (P := fun ahead tracker => ∀ x, tracker.total x + supply ahead x < 2 ^ 128) ?_ h).imp
    fun _ hloop => hloop.1
  intro account ahead tracker h
  simp only [supply, List.map_cons, List.sum_cons] at h
  have hfirst : ∀ x, tracker.total x + tally (fun b : AssetBalance => b.asset = x)
      (fun b => b.available.toNat) account.balances < 2 ^ 128 := by
    intro x
    have hx := h x
    rw [tally_balances]
    omega
  obtain ⟨mid, hmid⟩ := exists_foldlM_add hfirst
  refine ⟨mid, hmid, ?_⟩
  intro x
  have hx := h x
  have htotal := foldlM_add_total hmid x
  rw [tally_balances] at htotal
  rw [supply]
  omega

end AssetTracker

/-! ## Batches with an honest witness -/

section

variable {B256 : Type} [Sha256 B256] [Secp256k1 B256] {input : BatchInput B256} {stages : Stages}
  {state : State} {ids : List AccountId}

/-- The accounts after the trades are those of the witness and of the deposits. -/
theorem StepsSucceed.mem_settled_ids (h : StepsSucceed input stages) (id : AccountId) :
    id ∈ stages.settled.map Account.id ↔
      id ∈ input.state.accounts.map Account.id ∨ id ∈ input.deposits.map Deposit.account := by
  have hdrained := (applyForcedWithdrawals_spec h.deposited.accountsCanonical
    h.applyForcedWithdrawals).1
  rw [h.tradesSettled.same.ids, h.noncesConsumed.2.ids, h.withdrawn_same.ids, hdrained.ids,
    h.deposited.mem_ids]

/-- With an honest witness that lists the accounts of the deposits, a batch that goes through every
step is accepted. -/
theorem StepsSucceed.exists_output [DecidableEq B256] (h : StepsSucceed input stages)
    {t₁ t₂ : AssetTracker} (h₁ : AssetTracker.default.addAccounts input.state.accounts = .ok t₁)
    (h₂ : t₁.addDeposits input.deposits = .ok t₂) (hsorted : SortedBy Account.id state.accounts)
    (hne : ids ≠ []) (hnodup : ids.Nodup) (hwitness : state.witnessFor ids = .ok input.state)
    (hdeposits : ∀ d ∈ input.deposits, d.account ∈ ids) :
    ∃ output, settleBatch input = .ok output := by
  have hlisted : ∀ a ∈ stages.settled, a.id ∈ ids := by
    intro a ha
    rcases (h.mem_settled_ids a.id).mp (List.mem_map_of_mem ha) with hid | hid
    · rcases List.mem_map.mp hid with ⟨account, haccount, hid⟩
      rw [(State.witnessFor_eq_ok hwitness).1, (State.lookup_perm hsorted hnodup).mem_iff,
        List.mem_filter] at haccount
      rw [← hid]
      exact of_decide_eq_true haccount.2
    · rcases List.mem_map.mp hid with ⟨d, hd, hid⟩
      rw [← hid]
      exact hdeposits d hd
  have hsettled : (stages.settled.map Account.id).Nodup := by
    rw [h.tradesSettled.same.ids]
    exact h.consumed_canonical.sorted.nodup_map
  rcases h.deposits with ⟨newDepositCursor, hcursor⟩
  rcases State.root_of_witnessFor hsorted hne hnodup hwitness hsettled hlisted with
    ⟨newRoot, hnewRoot, _⟩
  have hresult := h.settleBatch_eq h₁ h₂ hcursor
  rw [hnewRoot, Outcome.ok_bind] at hresult
  exact ⟨_, hresult⟩

end

/-! ## A batch of requests -/

/-- The accounts that a batch of nothing but requests touches, in id order. -/
def requesters (config : ExchangeConfig) (requests : List ForcedWithdrawal) : List AccountId :=
  sortByKey id (config.fees.recipient :: requests.map ForcedWithdrawal.account).dedup

theorem requesters_sorted (config : ExchangeConfig) (requests : List ForcedWithdrawal) :
    (requesters config requests).Pairwise (· < ·) := by
  have hsorted : SortedBy id (requesters config requests) := by
    apply SortedBy.of_nodup (sortByKey_pairwise id _)
    rw [List.map_id]
    exact (sortByKey_perm id _).nodup_iff.mpr (List.nodup_dedup _)
  exact hsorted

theorem mem_requesters {config : ExchangeConfig} {requests : List ForcedWithdrawal}
    {id : AccountId} :
    id ∈ requesters config requests ↔
      id = config.fees.recipient ∨ id ∈ requests.map ForcedWithdrawal.account := by
  rw [requesters, (sortByKey_perm _ _).mem_iff, List.mem_dedup, List.mem_cons]

theorem length_requesters_le (config : ExchangeConfig) (requests : List ForcedWithdrawal) :
    (requesters config requests).length ≤ requests.length + 1 := by
  rw [requesters, (sortByKey_perm _ _).length_eq]
  apply (List.dedup_sublist _).length_le.trans
  simp

/-- The supply of some accounts is a part of the supply of all. -/
theorem supply_filter_le (accounts : List Account) (p : Account → Bool) (asset : AssetId) :
    supply (accounts.filter p) asset ≤ supply accounts asset := by
  have hsplit := supply_perm (List.filter_append_perm p accounts) asset
  rw [supply_append] at hsplit
  omega

variable {B256 : Type} [Sha256 B256] [Secp256k1 B256]

/-- The batch whose only operations are the requests. -/
def requestBatch (domain : SigningDomain) (batchId oldDepositCursor oldForcedWithdrawalCursor : U64)
    (root : B256) (witness : StateWitness B256) (requests : List ForcedWithdrawal)
    (config : ExchangeConfig) : BatchInput B256 where
  domain
  batchId
  expectedOldStateRoot := root
  state := witness
  oldDepositCursor
  deposits := []
  oldForcedWithdrawalCursor
  forcedWithdrawals := requests
  orders := []
  withdrawals := []
  orderBooks := []
  config

variable {accounts : List Account} {config : ExchangeConfig} {requests : List ForcedWithdrawal}
  {oldForcedWithdrawalCursor : U64} {root : B256} {witness : StateWitness B256}

/-- A complete state of distinct canonical accounts is canonical. -/
theorem State.new_canonical (hnodup : (accounts.map Account.id).Nodup)
    (hcan : ∀ account ∈ accounts, account.Canonical) :
    AccountsCanonical (State.new accounts).accounts := by
  have hperm := sortByKey_perm Account.id accounts
  refine ⟨SortedBy.of_nodup (sortByKey_pairwise Account.id accounts) ?_, ?_⟩
  · exact (hperm.map Account.id).nodup_iff.mpr hnodup
  · exact fun account haccount => hcan account (hperm.mem_iff.mp haccount)

/-- Requests with consecutive ids below the greatest one and positive amounts are in the queue. -/
theorem validateForcedWithdrawals_of_ids
    (hids : requests.map (fun r => r.id.toNat) =
      List.range' oldForcedWithdrawalCursor.toNat requests.length)
    (hmax : ∀ r ∈ requests, r.id.toNat < 2 ^ 64 - 1) (hamounts : ∀ r ∈ requests, r.amount ≠ 0) :
    validateForcedWithdrawals requests oldForcedWithdrawalCursor = .ok () := by
  apply exists_validateForcedWithdrawals.mpr
  refine ⟨hids, ?_, hamounts⟩
  by_cases hempty : requests.length = 0
  · have hlt := oldForcedWithdrawalCursor.isLt
    omega
  · -- the last id is below the greatest one
    have hlast : oldForcedWithdrawalCursor.toNat + (requests.length - 1) ∈
        requests.map (fun r => r.id.toNat) := by
      rw [hids, List.mem_range'_1]
      omega
    rcases List.mem_map.mp hlast with ⟨r, hr, hid⟩
    have hlt := hmax r hr
    omega

/-- Without operations no nonce is consumed. -/
theorem consumeNonces_nil (accounts : List Account) :
    consumeNonces accounts [] [] = .ok accounts := by
  simp only [consumeNonces, List.foldlM_nil, Outcome.bind_eq_ok, Outcome.pure_eq_ok,
    exists_eq_left', Outcome.mapM_eq_ok]
  induction accounts with
  | nil => exact List.Forall₂.nil
  | cons account accounts ih =>
      refine List.Forall₂.cons ⟨account.nextNonce, ?_, rfl⟩ ih
      rw [Outcome.okOr_eq_ok, FixedWidth.checkedAdd_eq_some]
      simp

/-- Without books nothing is traded, once the fee recipient is found. -/
theorem matchAndSettle_nil (hsorted : SortedBy Account.id accounts)
    (hrecipient : config.fees.recipient ∈ accounts.map Account.id) :
    matchAndSettle accounts [] config = .ok (accounts, []) := by
  unfold matchAndSettle
  cases hsearch : binarySearchByKey Account.id config.fees.recipient accounts with
  | ok index => rfl
  | error index =>
      rcases List.mem_map.mp hrecipient with ⟨account, haccount, hid⟩
      exact absurd hid (hsorted.search_error_iff.mp ⟨index, hsearch⟩ account haccount)

/-- A batch of nothing but requests goes through every step. -/
theorem exists_steps_requestBatch (domain : SigningDomain) (batchId oldDepositCursor : U64)
    (hcan : AccountsCanonical witness.accounts) (hroot : witness.root = .ok root)
    (hconfig : validateConfig config witness.accounts = .ok ())
    (hlimits : validateLimits (requestBatch domain batchId oldDepositCursor
      oldForcedWithdrawalCursor root witness requests config) = .ok ())
    (hrequests : validateForcedWithdrawals requests oldForcedWithdrawalCursor = .ok ()) :
    ∃ stages, StepsSucceed (requestBatch domain batchId oldDepositCursor oldForcedWithdrawalCursor
      root witness requests config) stages := by
  rcases exists_applyForcedWithdrawals hcan requests with ⟨drained, executed, hdrained⟩
  have hsame := (applyForcedWithdrawals_spec hcan hdrained).1
  have hmatched := matchAndSettle_nil (hsame.sorted hcan.sorted)
    (hsame.ids ▸ (validateConfig_spec hconfig).recipient)
  refine ⟨⟨witness.accounts, drained, executed, drained, drained, [], drained, []⟩, ?_⟩
  exact {
    limits := hlimits
    config := hconfig
    accounts := validateAccounts_of_canonical hcan
    deposits := ⟨oldDepositCursor, rfl⟩
    oldRoot := hroot
    applyDeposits := rfl
    forcedWithdrawals := hrequests
    applyForcedWithdrawals := hdrained
    withdrawals := rfl
    orders := rfl
    nonces := rfl
    applyWithdrawals := rfl
    consumeNonces := consumeNonces_nil drained
    books := rfl
    matchAndSettle := hmatched }

variable [DecidableEq B256]

/-- Whatever the requests ask for and whatever indices they carry, the batch of nothing but these
requests is accepted, with the witness of the requesters and the fee recipient. -/
theorem forced_withdrawals_accepted (domain : SigningDomain) (batchId oldDepositCursor : U64)
    (hnodup : (accounts.map Account.id).Nodup) (hcan : ∀ account ∈ accounts, account.Canonical)
    (htotals : ∀ asset, supply accounts asset < 2 ^ 128)
    (hconfig : validateConfig config accounts = .ok ())
    (hassets : config.assets.length ≤ MAX_ASSETS) (hmarkets : config.markets.length ≤ MAX_MARKETS)
    (hlength : requests.length ≤ MAX_FORCED_WITHDRAWALS_PER_BATCH)
    (hids : requests.map (fun r => r.id.toNat) =
      List.range' oldForcedWithdrawalCursor.toNat requests.length)
    (hmax : ∀ r ∈ requests, r.id.toNat < 2 ^ 64 - 1) (hamounts : ∀ r ∈ requests, r.amount ≠ 0) :
    ∃ (root : B256) (witness : StateWitness B256) (output : BatchOutput B256),
      (State.new accounts).root = .ok root ∧
      (State.new accounts).witnessFor (requesters config requests) = .ok witness ∧
      settleBatch (requestBatch domain batchId oldDepositCursor oldForcedWithdrawalCursor root
        witness requests config) = .ok output := by
  have hstate := State.new_canonical hnodup hcan
  have hstatePerm : (State.new accounts).accounts.Perm accounts :=
      sortByKey_perm Account.id accounts
  have hkeys := requesters_sorted config requests
  have hkeysNodup : (requesters config requests).Nodup := hkeys.imp fun hlt => hlt.ne
  have hrecipientKey : config.fees.recipient ∈ requesters config requests :=
    mem_requesters.mpr (Or.inl rfl)
  have hne : requesters config requests ≠ [] := List.ne_nil_of_mem hrecipientKey
  rcases @State.exists_witnessFor _ _ B256 _ hstate.sorted hne hkeysNodup with ⟨witness, hwitness⟩
  rcases State.root_of_witness hstate.sorted hne hkeysNodup hwitness with ⟨root, hroot, hstateRoot⟩
  have hpicked := (State.witnessFor_eq_ok hwitness).1
  have hpickedPerm := State.lookup_perm hstate.sorted hkeysNodup
  rw [← hpicked] at hpickedPerm
  have hwitnessCan := State.witness_canonical hstate hkeys hwitness
  -- the fee recipient is among the witnessed accounts
  have hrecipient : config.fees.recipient ∈ witness.accounts.map Account.id := by
    rcases List.mem_map.mp (validateConfig_spec hconfig).recipient with ⟨account, haccount, hid⟩
    rw [(hpickedPerm.map Account.id).mem_iff]
    apply List.mem_map.mpr
    refine ⟨account, List.mem_filter.mpr ⟨hstatePerm.mem_iff.mpr haccount, ?_⟩, hid⟩
    rw [hid]
    exact decide_eq_true hrecipientKey
  have hcount : witness.accounts.length ≤ MAX_TOUCHED_ACCOUNTS_PER_BATCH := by
    have hle : witness.accounts.length ≤ (requesters config requests).length := by
      rw [hpicked]
      exact List.length_filterMap_le _ _
    have hkeysLength := length_requesters_le config requests
    unfold MAX_FORCED_WITHDRAWALS_PER_BATCH at hlength
    unfold MAX_TOUCHED_ACCOUNTS_PER_BATCH MAX_ORDERS_PER_BATCH
    omega
  have hlimits : validateLimits (requestBatch domain batchId oldDepositCursor
      oldForcedWithdrawalCursor root witness requests config) = .ok () :=
    validateLimits_of_le hcount (Nat.zero_le _) (Nat.zero_le _) (Nat.zero_le _) hlength hassets
      hmarkets (Nat.zero_le _)
  rcases exists_steps_requestBatch domain batchId oldDepositCursor hwitnessCan hroot
    (validateConfig_of_mem hconfig hrecipient) hlimits
    (validateForcedWithdrawals_of_ids hids hmax hamounts) with ⟨stages, hsteps⟩
  -- the witnessed totals are part of the totals that fit
  have hsupply : ∀ x, AssetTracker.default.total x + supply witness.accounts x < 2 ^ 128 := by
    intro x
    have htotal := htotals x
    rw [← supply_perm hstatePerm x] at htotal
    have hle := supply_filter_le (State.new accounts).accounts
      (fun a => decide (a.id ∈ requesters config requests)) x
    rw [← supply_perm hpickedPerm x] at hle
    rw [AssetTracker.total_default]
    omega
  rcases AssetTracker.exists_addAccounts hsupply with ⟨tracker, htracker⟩
  rcases hsteps.exists_output htracker rfl hstate.sorted hne hkeysNodup hwitness
    (by simp [requestBatch])
    with ⟨output, houtput⟩
  refine ⟨root, witness, output, ?_, hwitness, houtput⟩
  rw [State.root, hstateRoot]

/-- The user asks twice for its balance and a stranger for an asset that is not configured. -/
def testRequestList : List ForcedWithdrawal :=
  [⟨4, FixedBytes.replicate 20 2, FixedBytes.replicate 20 7, 3, some 1⟩,
    ⟨5, FixedBytes.replicate 20 6, FixedBytes.replicate 20 8, 1, some 1⟩,
    ⟨6, FixedBytes.replicate 20 2, FixedBytes.replicate 20 7, 9, some 1⟩,
    ⟨7, FixedBytes.replicate 20 2, FixedBytes.replicate 20 7, 9, some 1⟩]

theorem forced_withdrawals_accepted_testRequestList :
    ∃ (root : IdealDigest) (witness : StateWitness IdealDigest) (output : BatchOutput IdealDigest),
      (State.new testAccounts).root = .ok root ∧
      (State.new testAccounts).witnessFor (requesters testConfig testRequestList) = .ok witness ∧
      settleBatch (requestBatch ⟨1, 1, FixedBytes.replicate 20 9⟩ 0 0 4 root witness testRequestList
        testConfig) = .ok output := by
  have hcan : AccountsCanonical testAccounts :=
    validateAccounts_spec (show validateAccounts testAccounts = .ok () by decide +kernel)
  have htotals : ∀ asset, supply testAccounts asset < 2 ^ 128 := by
    intro asset
    have hsupply : supply testAccounts asset =
        if FixedBytes.replicate 20 7 = asset then 5 else 0 := by
      simp [supply, testAccounts, Account.total, Account.entryTotal]
    rw [hsupply]
    split <;> norm_num
  exact forced_withdrawals_accepted ⟨1, 1, FixedBytes.replicate 20 9⟩ 0 0 hcan.sorted.nodup_map
    hcan.canonical htotals (by decide +kernel) (by decide) (by decide) (by decide) (by decide)
    (by decide) (by decide)

end ZkClob
