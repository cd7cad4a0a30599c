import ZkClob.Settlement.ForcedQueue

/-!
# The steps that withdrawals can fail

A withdrawal is subtracted from the tracker before anything is applied, the drained amounts are
subtracted after it, and only then is it debited from its account.  Each of these steps looks at
what the deposits have added and the forced withdrawals have left behind.

Main results:

- Theorem {lit}`applyForcedWithdrawals_holding`: what the requests leave of an account.
- Theorem {lit}`exists_applyWithdrawals_iff`: withdrawals can be debited exactly when every account
  holds the sum of its withdrawals.
- Theorem {lit}`withdrawalsExecutable_iff`: when the three steps of a batch succeed.
-/

namespace ZkClob

open Foundations

variable {accounts accounts' : List Account}

/-! ## Subtracting from the tracker -/

/-- A sequence can be subtracted exactly when it is covered. -/
theorem AssetTracker.exists_foldlM_subtract_iff {self : AssetTracker} (hself : self.NoZero)
    {α : Type} {assetOf : α → AssetId} {amountOf : α → U128} {l : List α} :
    (∃ self', l.foldlM (fun (tracker : AssetTracker) a => tracker.subtract (assetOf a) (amountOf a))
      self = .ok self') ↔
      ∀ x, tally (fun a => assetOf a = x) (fun a => (amountOf a).toNat) l ≤ self.total x := by
  constructor
  · rintro ⟨self', h⟩ x
    have htotal := foldlM_subtract_total h x
    omega
  · intro hle
    rcases exists_foldlM_subtract hself hle with ⟨self', h, _⟩
    exact ⟨self', h⟩

/-! ## What the requests leave -/

/-- A request whose index names its account takes its amount, as far as it is there. -/
theorem holding_of_indexed {request : ForcedWithdrawal} {drained : U128}
    (h : Drained accounts request accounts' drained)
    (hindexed : IndexedIn (accounts.map Account.id) request.accountIndex request.account) :
    holding accounts' request.account request.asset =
      holding accounts request.account request.asset - request.amount.toNat := by
  have hholding := h.holding request.account request.asset
  have hdrained : drained.toNat =
      min request.amount.toNat (holding accounts request.account request.asset) :=
    h.indexed hindexed
  rw [if_pos ⟨rfl, rfl⟩] at hholding
  omega

/-- A request touches no entry of the ledger but its own, and that only through its index. -/
theorem holding_of_not_indexed {request : ForcedWithdrawal} {drained : U128}
    (h : Drained accounts request accounts' drained) {id : AccountId} {asset : AssetId}
    (hother : ¬ (request.account = id ∧ request.asset = asset) ∨
      ¬ IndexedIn (accounts.map Account.id) request.accountIndex request.account) :
    holding accounts' id asset = holding accounts id asset := by
  have hholding := h.holding id asset
  rcases hother with hother | hunindexed
  · rw [if_neg hother] at hholding
    exact hholding.symm
  · rw [h.unindexed hunindexed, ite_self] at hholding
    exact hholding.symm

/-- What the requests leave of an account: when the indices of its requests name it, what is above
the sum of their amounts. -/
theorem applyForcedWithdrawals_holding {located : AccountId → Prop} [DecidablePred located]
    {requests executed : List ForcedWithdrawal} (hcan : AccountsCanonical accounts)
    (hlocated : ∀ r ∈ requests, r.account ∈ accounts.map Account.id →
      (IndexedIn (accounts.map Account.id) r.accountIndex r.account ↔ located r.account))
    (h : applyForcedWithdrawals accounts requests = .ok (accounts', executed)) (id : AccountId)
    (asset : AssetId) :
    holding accounts' id asset =
      if located id then holding accounts id asset -
        tally (fun r => r.account = id ∧ r.asset = asset) (fun r => r.amount.toNat) requests
      else holding accounts id asset := by
  induction requests generalizing accounts executed with
  | nil =>
      rw [applyForcedWithdrawals] at h
      cases h
      simp
  | cons request requests ih =>
      simp only [applyForcedWithdrawals, Outcome.bind_eq_ok, Prod.exists, Except.ok.injEq,
        Prod.mk.injEq] at h
      rcases h with ⟨mid, drained, hmid, _, rest, hrest, rfl, rfl⟩
      have hspec := applyForcedWithdrawal_spec hcan hmid
      have hrequests : ∀ r ∈ requests, r.account ∈ mid.map Account.id →
          (IndexedIn (mid.map Account.id) r.accountIndex r.account ↔ located r.account) := by
        rw [hspec.same.ids]
        exact fun r hr => hlocated r (List.mem_cons_of_mem _ hr)
      rw [ih (hspec.same.accountsCanonical hcan) hrequests hrest, tally_cons]
      simp only [decide_eq_true_eq]
      by_cases hentry : request.account = id ∧ request.asset = asset
      · rw [if_pos hentry]
        rcases hentry with ⟨rfl, rfl⟩
        by_cases hindexed : IndexedIn (accounts.map Account.id) request.accountIndex request.account
        · have hhere := (hlocated request (by simp) hindexed.mem).mp hindexed
          rw [holding_of_indexed hspec hindexed, if_pos hhere, if_pos hhere, Nat.sub_sub]
        · rw [holding_of_not_indexed hspec (Or.inr hindexed)]
          by_cases hmem : request.account ∈ accounts.map Account.id
          · have helsewhere : ¬ located request.account := fun hhere =>
              hindexed ((hlocated request (by simp) hmem).mpr hhere)
            rw [if_neg helsewhere, if_neg helsewhere]
          · -- an account that does not exist has nothing to take
            have hnone : holding accounts request.account request.asset = 0 := by
              apply holding_eq_zero
              rintro account haccount hid
              exact hmem (hid ▸ List.mem_map_of_mem haccount)
            simp [hnone]
      · rw [if_neg hentry, holding_of_not_indexed hspec (Or.inl hentry), Nat.zero_add]

/-! ## Debiting the accounts -/

/-- What an account holds can be debited through its position. -/
theorem exists_modifyAt_debit (hcan : AccountsCanonical accounts) {index : Nat} {id : AccountId}
    {asset : AssetId} {amount : U128} (hid : (accounts.map Account.id)[index]? = some id)
    (hpos : amount ≠ 0) (hle : amount.toNat ≤ holding accounts id asset) :
    ∃ accounts', Outcome.modifyAt accounts index (·.debit asset amount) = .ok accounts' := by
  rw [List.getElem?_map, Option.map_eq_some_iff] at hid
  rcases hid with ⟨account, haccount, rfl⟩
  have hmem : account ∈ accounts := List.mem_of_getElem? haccount
  rw [holding_eq_total hcan.sorted.nodup_map hmem] at hle
  rcases Account.debit_ok_of_le_total (hcan.canonical account hmem) hpos hle with
    ⟨debited, hdebited⟩
  refine ⟨accounts.set index debited, ?_⟩
  rw [Outcome.modifyAt, haccount, Outcome.expect_some, Outcome.ok_bind, hdebited]
  rfl

/-- Withdrawals with validated indices can be debited exactly when every account holds the sum of
its withdrawals. -/
theorem exists_applyWithdrawals_iff {withdrawals : List SignedWithdrawal}
    (hcan : AccountsCanonical accounts)
    (hindexed : ∀ w ∈ withdrawals, IndexedIn (accounts.map Account.id) w.accountIndex w.account)
    (hpos : ∀ w ∈ withdrawals, w.amount ≠ 0) :
    (∃ accounts', applyWithdrawals accounts withdrawals = .ok accounts') ↔
      ∀ id asset, tally (fun w => w.account = id ∧ w.asset = asset) (fun w => w.amount.toNat)
        withdrawals ≤ holding accounts id asset := by
  constructor
  · rintro ⟨accounts', h⟩ id asset
    have hholding := (applyWithdrawals_spec hindexed h).2 id asset
    omega
  · intro hle
    induction withdrawals generalizing accounts with
    | nil => exact ⟨accounts, rfl⟩
    | cons w withdrawals ih =>
        rcases hindexed w (by simp) with ⟨index, hindex, hid⟩
        have hfirst : w.amount.toNat ≤ holding accounts w.account w.asset := by
          have hw := hle w.account w.asset
          simp only [tally_cons, and_self, decide_true, if_true] at hw
          omega
        rcases exists_modifyAt_debit hcan hid (hpos w (by simp)) hfirst with ⟨mid, hmid⟩
        rcases modifyAt_debit hmid hid with ⟨hsame, hholding⟩
        have hrest : ∀ id asset, tally (fun w => w.account = id ∧ w.asset = asset)
            (fun w => w.amount.toNat) withdrawals ≤ holding mid id asset := by
          intro id asset
          have hw := hle id asset
          have hmidHolding := hholding id asset
          simp only [tally_cons, decide_eq_true_eq] at hw
          omega
        have hnext : ∀ w' ∈ withdrawals,
            IndexedIn (mid.map Account.id) w'.accountIndex w'.account := by
          rw [hsame.ids]
          exact fun w' hw' => hindexed w' (List.mem_cons_of_mem _ hw')
        rcases ih (hsame.accountsCanonical hcan) hnext
          (fun w' hw' => hpos w' (List.mem_cons_of_mem _ hw')) hrest with ⟨accounts', haccounts'⟩
        refine ⟨accounts', ?_⟩
        rw [applyWithdrawals, List.foldlM_cons, applyWithdrawal, hindex, Outcome.expect_some,
          Outcome.ok_bind, hmid, Outcome.ok_bind]
        exact haccounts'

/-! ## Validation after the forced withdrawals -/

/-- The check of an index looks at the ids only. -/
theorem validateAccountIndex_congr (hsame : SameAccounts accounts accounts')
    (accountIndex : Option U32) (id : AccountId) :
    validateAccountIndex accountIndex accounts' id =
      validateAccountIndex accountIndex accounts id := by
  have hany : ∀ (l : List Account) (index : Nat), (l[index]?.any fun account => account.id = id) =
      ((l.map Account.id)[index]?.any fun id' => id' = id) := by
    intro l index
    rw [List.getElem?_map, Option.any_map]
  unfold validateAccountIndex
  simp only [hany, hsame.ids]

/-- Forced withdrawals do not change which nonces are valid. -/
theorem validateNonces_congr (hsame : SameAccounts accounts accounts')
    (orders : List SequencedOrder) (withdrawals : List SignedWithdrawal) :
    validateNonces orders withdrawals accounts' = validateNonces orders withdrawals accounts := by
  have hone : validateAccountNonces accounts' = validateAccountNonces accounts := by
    funext accountNonces
    unfold validateAccountNonces
    refine bind_congr fun first => ?_
    have hat : accounts'[first.1]?.map Account.nextNonce =
        accounts[first.1]?.map Account.nextNonce := by
      rw [← List.getElem?_map, hsame.nonces, List.getElem?_map]
    cases haccount : accounts[first.1]? with
    | none =>
        rw [haccount, Option.map_none, Option.map_eq_none_iff] at hat
        rw [hat]
    | some account =>
        rw [haccount, Option.map_some, Option.map_eq_some_iff] at hat
        rcases hat with ⟨account', haccount', hnonce⟩
        rw [haccount', Outcome.expect_some, Outcome.expect_some, Outcome.ok_bind, Outcome.ok_bind,
          hnonce]
  unfold validateNonces
  rw [hone]

section

variable {B256 : Type} [Sha256 B256] [Secp256k1 B256]

/-- Forced withdrawals do not change which withdrawals are valid. -/
theorem validateWithdrawals_congr (hsame : SameAccounts accounts accounts')
    (withdrawals : List SignedWithdrawal) (config : ExchangeConfig) (domainHash : B256) :
    validateWithdrawals withdrawals accounts' config domainHash =
      validateWithdrawals withdrawals accounts config domainHash := by
  have hone : validateWithdrawal accounts' config domainHash =
      validateWithdrawal accounts config domainHash := by
    funext w
    unfold validateWithdrawal
    rw [validateAccountIndex_congr hsame]
  rw [validateWithdrawals, validateWithdrawals, hone]

/-- Forced withdrawals do not change which orders are valid. -/
theorem validateOrders_congr (hsame : SameAccounts accounts accounts')
    (orders : List SequencedOrder) (config : ExchangeConfig) (domainHash : B256) :
    validateOrders orders accounts' config domainHash =
      validateOrders orders accounts config domainHash := by
  have hone : validateOrder accounts' config domainHash =
      validateOrder accounts config domainHash := by
    funext o
    unfold validateOrder
    rw [validateAccountIndex_congr hsame]
  rw [validateOrders, validateOrders, hone]

end

/-! ## The steps of a batch -/

section

variable {B256 : Type} [Sha256 B256]

/-- {lit}`settle_batch` reaches {lit}`subtract_withdrawals`: the checks before it pass, and the
tracker holds the accounts and the deposits. -/
structure ReachesTracker (input : BatchInput B256) (tracker : AssetTracker) : Prop where
  limits : validateLimits input = .ok ()
  config : validateConfig input.config input.state.accounts = .ok ()
  accounts : validateAccounts input.state.accounts = .ok ()
  deposits : ∃ newDepositCursor,
    validateDeposits input.deposits input.oldDepositCursor input.config = .ok newDepositCursor
  oldRoot : input.state.root = .ok input.expectedOldStateRoot
  tracked : ∃ t, AssetTracker.default.addAccounts input.state.accounts = .ok t ∧
    t.addDeposits input.deposits = .ok tracker

/-- {lit}`settle_batch` reaches {lit}`subtract_forced_withdrawals`, with the drained amounts. -/
structure ReachesDrains (input : BatchInput B256) (tracker : AssetTracker)
    (deposited drained : List Account) (executed : List ForcedWithdrawal) : Prop where
  withdrawn : ∃ t, ReachesTracker input t ∧
    t.subtractWithdrawals input.withdrawals = .ok tracker
  applyDeposits : applyDeposits input.state.accounts input.deposits = .ok deposited
  forcedWithdrawals :
    validateForcedWithdrawals input.forcedWithdrawals input.oldForcedWithdrawalCursor = .ok ()
  applyForcedWithdrawals : applyForcedWithdrawals deposited input.forcedWithdrawals =
    .ok (drained, executed)

/-- The checks of a batch up to the forced withdrawals, which leave the accounts after the
deposits. -/
structure ChecksPass (input : BatchInput B256) (deposited : List Account) : Prop where
  tracker : ∃ t, ReachesTracker input t
  applyDeposits : applyDeposits input.state.accounts input.deposits = .ok deposited
  forcedWithdrawals :
    validateForcedWithdrawals input.forcedWithdrawals input.oldForcedWithdrawalCursor = .ok ()

variable {input : BatchInput B256}

theorem ReachesDrains.checksPass {tracker : AssetTracker} {deposited drained : List Account}
    {executed : List ForcedWithdrawal}
    (h : ReachesDrains input tracker deposited drained executed) : ChecksPass input deposited := by
  rcases h.withdrawn with ⟨t, hreached, _⟩
  exact ⟨⟨t, hreached⟩, h.applyDeposits, h.forcedWithdrawals⟩

theorem ChecksPass.canonical {deposited : List Account} (h : ChecksPass input deposited) :
    AccountsCanonical input.state.accounts := by
  rcases h.tracker with ⟨_, hreached⟩
  exact validateAccounts_spec hreached.accounts

/-- The accounts after the forced withdrawals are those after the deposits. -/
theorem ReachesDrains.same {tracker : AssetTracker} {deposited drained : List Account}
    {executed : List ForcedWithdrawal}
    (h : ReachesDrains input tracker deposited drained executed) :
    SameAccounts deposited drained := by
  have hdeposited := applyDeposits_spec h.checksPass.canonical h.applyDeposits
  exact (applyForcedWithdrawals_spec hdeposited.accountsCanonical h.applyForcedWithdrawals).1

/-- What the tracker holds before anything is subtracted. -/
theorem ReachesTracker.total_eq {tracker : AssetTracker} (h : ReachesTracker input tracker) :
    tracker.NoZero ∧ ∀ x, tracker.total x = supply input.state.accounts x +
      tally (fun d => d.asset = x) (fun d => d.amount.toNat) input.deposits := by
  rcases h.tracked with ⟨t, h₁, h₂⟩
  rcases h.deposits with ⟨cursor, hcursor⟩
  constructor
  · exact (AssetTracker.noZero_default.addAccounts
      (validateAccounts_spec h.accounts).canonical h₁).foldlM_add
      (validateDeposits_spec hcursor).2.2 h₂
  · intro x
    rw [AssetTracker.foldlM_add_total h₂ x, AssetTracker.addAccounts_total h₁ x,
      AssetTracker.total_default, Nat.zero_add]

/-- The withdrawals can be subtracted exactly when the accounts and the deposits cover them. -/
theorem ReachesTracker.exists_subtract_iff {tracker : AssetTracker}
    (h : ReachesTracker input tracker) :
    (∃ t, tracker.subtractWithdrawals input.withdrawals = .ok t) ↔
      ∀ x, tally (fun w => w.asset = x) (fun w => w.amount.toNat) input.withdrawals ≤
        supply input.state.accounts x +
          tally (fun d => d.asset = x) (fun d => d.amount.toNat) input.deposits := by
  rcases h.total_eq with ⟨hzero, htotal⟩
  simp only [← htotal]
  exact AssetTracker.exists_foldlM_subtract_iff hzero

/-- The drained amounts can be subtracted, too, exactly when what is left covers the
withdrawals. -/
theorem ReachesDrains.exists_subtract_iff {tracker : AssetTracker}
    {deposited drained : List Account} {executed : List ForcedWithdrawal}
    (h : ReachesDrains input tracker deposited drained executed) :
    (∃ t, tracker.subtractForcedWithdrawals executed = .ok t) ↔
      ∀ x, tally (fun w => w.asset = x) (fun w => w.amount.toNat) input.withdrawals ≤
        supply drained x := by
  rcases h.withdrawn with ⟨t, hreached, hwithdrawn⟩
  rcases hreached.total_eq with ⟨hzero, htotal⟩
  have hzero' : tracker.NoZero := by
    have hcovered := hreached.exists_subtract_iff.mp ⟨tracker, hwithdrawn⟩
    simp only [← htotal] at hcovered
    rcases AssetTracker.exists_foldlM_subtract hzero hcovered with ⟨t', hsame, ht'⟩
    cases hwithdrawn.symm.trans hsame
    exact ht'
  have hdeposited := applyDeposits_spec (validateAccounts_spec hreached.accounts) h.applyDeposits
  have hdrained := applyForcedWithdrawals_spec hdeposited.accountsCanonical h.applyForcedWithdrawals
  -- what has been drained and what is left is what the tracker held
  have hsplit : ∀ x, tracker.total x +
      tally (fun w => w.asset = x) (fun w => w.amount.toNat) input.withdrawals =
      supply drained x + tally (fun e => e.asset = x) (fun e => e.amount.toNat) executed := by
    intro x
    have hx := AssetTracker.foldlM_subtract_total hwithdrawn x
    have hsupply := hdeposited.supply_eq x
    have hleft := supply_eq_of_drained (fun id => hdrained.2.1 id x)
    rw [htotal] at hx
    omega
  refine (AssetTracker.exists_foldlM_subtract_iff hzero').trans (forall_congr' fun x => ?_)
  have hx := hsplit x
  omega

variable [Secp256k1 B256]

/-- {lit}`settle_batch` reaches {lit}`apply_withdrawals`. -/
structure ReachesDebits (input : BatchInput B256) (deposited drained : List Account)
    (executed : List ForcedWithdrawal) : Prop where
  drains : ∃ t t', ReachesDrains input t deposited drained executed ∧
    t.subtractForcedWithdrawals executed = .ok t'
  withdrawals : validateWithdrawals input.withdrawals drained input.config
    (hash input.domain : B256) = .ok ()
  orders : validateOrders input.orders drained input.config (hash input.domain : B256) = .ok ()
  nonces : validateNonces input.orders input.withdrawals drained = .ok ()

/-- None of the three steps that withdrawals can fail fails when the batch reaches it. -/
structure WithdrawalsExecutable (input : BatchInput B256) : Prop where
  tracked : ∀ t, ReachesTracker input t →
    ∃ t', t.subtractWithdrawals input.withdrawals = .ok t'
  drained : ∀ t deposited drained executed, ReachesDrains input t deposited drained executed →
    ∃ t', t.subtractForcedWithdrawals executed = .ok t'
  debited : ∀ deposited drained executed, ReachesDebits input deposited drained executed →
    ∃ accounts, applyWithdrawals drained input.withdrawals = .ok accounts

/-- The checks of the signed operations, which look at no balance. -/
structure OperationsPass (input : BatchInput B256) (deposited : List Account) : Prop where
  withdrawals : validateWithdrawals input.withdrawals deposited input.config
    (hash input.domain : B256) = .ok ()
  orders : validateOrders input.orders deposited input.config (hash input.domain : B256) = .ok ()
  nonces : validateNonces input.orders input.withdrawals deposited = .ok ()

/-- A batch whose operations pass reaches {lit}`apply_withdrawals`. -/
theorem OperationsPass.reachesDebits {tracker tracker' : AssetTracker}
    {deposited drained : List Account} {executed : List ForcedWithdrawal}
    (h : OperationsPass input deposited)
    (hdrains : ReachesDrains input tracker deposited drained executed)
    (hsubtracted : tracker.subtractForcedWithdrawals executed = .ok tracker') :
    ReachesDebits input deposited drained executed where
  drains := ⟨tracker, tracker', hdrains, hsubtracted⟩
  withdrawals := (validateWithdrawals_congr hdrains.same _ _ _).trans h.withdrawals
  orders := (validateOrders_congr hdrains.same _ _ _).trans h.orders
  nonces := (validateNonces_congr hdrains.same _ _).trans h.nonces

theorem ReachesDebits.operationsPass {deposited drained : List Account}
    {executed : List ForcedWithdrawal} (h : ReachesDebits input deposited drained executed) :
    OperationsPass input deposited := by
  rcases h.drains with ⟨_, _, hdrains, _⟩
  refine ⟨?_, ?_, ?_⟩
  · exact (validateWithdrawals_congr hdrains.same _ _ _).symm.trans h.withdrawals
  · exact (validateOrders_congr hdrains.same _ _ _).symm.trans h.orders
  · exact (validateNonces_congr hdrains.same _ _).symm.trans h.nonces

/-- When one of the steps fails, the batch does. -/
theorem exists_error_of_not_executable [DecidableEq B256] (h : ¬ WithdrawalsExecutable input) :
    ∃ fault, settleBatch input = .error fault := by
  cases hsettled : settleBatch input with
  | error fault => exact ⟨fault, rfl⟩
  | ok output =>
      exfalso
      simp only [settleBatch, Outcome.bind_eq_ok, Outcome.rejectIf_eq_ok, Prod.exists, not_not,
        Except.ok.injEq] at hsettled
      rcases hsettled with ⟨_, _, _, _, _, _, _, _, _, _, _, _, t₁, h₁, t₂, h₂, t₃, h₃, deposited,
        hdeposited, _, _, drained, executed, hdrained, t₄, h₄, _, _, _, _, _, _, withdrawn,
        hwithdrawn, _⟩
      apply h
      refine ⟨?_, ?_, ?_⟩
      · rintro t ⟨_, _, _, _, _, t₁', h₁', h₂'⟩
        cases h₁.symm.trans h₁'
        cases h₂.symm.trans h₂'
        exact ⟨t₃, h₃⟩
      · rintro t deposited' drained' executed' ⟨⟨t₂', ⟨_, _, _, _, _, t₁', h₁', h₂'⟩, h₃'⟩,
          hdeposited', _, hdrained'⟩
        cases h₁.symm.trans h₁'
        cases h₂.symm.trans h₂'
        cases h₃.symm.trans h₃'
        cases hdeposited.symm.trans hdeposited'
        cases hdrained.symm.trans hdrained'
        exact ⟨t₄, h₄⟩
      · rintro deposited' drained' executed' ⟨⟨_, _, ⟨_, hdeposited', _, hdrained'⟩, _⟩, _⟩
        cases hdeposited.symm.trans hdeposited'
        cases hdrained.symm.trans hdrained'
        exact ⟨withdrawn, hwithdrawn⟩

/-- The withdrawals can be debited exactly when each account still holds its own. -/
theorem ReachesDebits.exists_apply_iff {deposited drained : List Account}
    {executed : List ForcedWithdrawal} (h : ReachesDebits input deposited drained executed) :
    (∃ accounts, applyWithdrawals drained input.withdrawals = .ok accounts) ↔
      ∀ id x, tally (fun w => w.account = id ∧ w.asset = x) (fun w => w.amount.toNat)
        input.withdrawals ≤ holding drained id x := by
  rcases h.drains with ⟨_, _, hdrains, _⟩
  have hdeposited := applyDeposits_spec hdrains.checksPass.canonical hdrains.applyDeposits
  have hvalid := validateWithdrawals_spec h.withdrawals
  exact exists_applyWithdrawals_iff (hdrains.same.accountsCanonical hdeposited.accountsCanonical)
    (fun w hw => (hvalid w hw).indexed) (fun w hw => (hvalid w hw).amount)

/-- The three steps succeed, each if it is reached, exactly when the accounts and the deposits
cover the withdrawals of every asset, what the forced withdrawals leave covers them, too, and every
account has enough left for its own. -/
theorem withdrawalsExecutable_iff :
    WithdrawalsExecutable input ↔
      ((∃ t, ReachesTracker input t) →
        ∀ x, tally (fun w => w.asset = x) (fun w => w.amount.toNat) input.withdrawals ≤
          supply input.state.accounts x +
            tally (fun d => d.asset = x) (fun d => d.amount.toNat) input.deposits) ∧
      ∀ deposited drained executed, ChecksPass input deposited →
        applyForcedWithdrawals deposited input.forcedWithdrawals = .ok (drained, executed) →
        (∀ x, tally (fun w => w.asset = x) (fun w => w.amount.toNat) input.withdrawals ≤
          supply drained x) ∧
        (OperationsPass input deposited → ∀ id x,
          tally (fun w => w.account = id ∧ w.asset = x) (fun w => w.amount.toNat)
            input.withdrawals ≤ holding drained id x) := by
  constructor
  · intro h
    refine ⟨?_, ?_⟩
    · rintro ⟨t, hreached⟩
      exact hreached.exists_subtract_iff.mp (h.tracked t hreached)
    · intro deposited drained executed hchecks hdrained
      rcases hchecks.tracker with ⟨t, hreached⟩
      rcases h.tracked t hreached with ⟨t₃, h₃⟩
      have hdrains : ReachesDrains input t₃ deposited drained executed :=
        ⟨⟨t, hreached, h₃⟩, hchecks.applyDeposits, hchecks.forcedWithdrawals, hdrained⟩
      have hsubtracted := h.drained t₃ deposited drained executed hdrains
      refine ⟨hdrains.exists_subtract_iff.mp hsubtracted, fun hoperations => ?_⟩
      rcases hsubtracted with ⟨t₄, h₄⟩
      have hdebits := hoperations.reachesDebits hdrains h₄
      exact hdebits.exists_apply_iff.mp (h.debited deposited drained executed hdebits)
  · rintro ⟨htracked, hleft⟩
    refine ⟨?_, ?_, ?_⟩
    · intro t hreached
      exact hreached.exists_subtract_iff.mpr (htracked ⟨t, hreached⟩)
    · intro t deposited drained executed hdrains
      exact hdrains.exists_subtract_iff.mpr
        (hleft deposited drained executed hdrains.checksPass hdrains.applyForcedWithdrawals).1
    · intro deposited drained executed hdebits
      rcases hdebits.drains with ⟨t, _, hdrains, _⟩
      exact hdebits.exists_apply_iff.mpr
        ((hleft deposited drained executed hdrains.checksPass hdrains.applyForcedWithdrawals).2
          hdebits.operationsPass)

end

end ZkClob
