import ZkClob.Settlement.Acceptance
import ZkClob.Settlement.Conservation
import ZkClob.Settlement.LedgerEquation
import ZkClob.Settlement.Steps

/-!
# The conservation tracker is redundant

The tracker keeps a second account of every asset.  It rejects a batch only when more is
subtracted than was added, or something is left at the end.  Every other stage conserves
each asset, so that neither can happen once the stages have succeeded.

Main results:

- Theorem {lit}`AssetTracker.exists_subtract`: what is covered can be subtracted.
- Theorem {lit}`Stages.supply_eq`: the stages of a batch conserve every asset.
- Theorem {lit}`tracker_redundant`: when the other steps succeed, the tracker ends empty.
-/

namespace ZkClob

open Foundations

/-! ## What the tracker accepts -/

namespace AssetTracker

variable {self self' : AssetTracker} {asset : AssetId} {amount : U128}

/-- No entry of the tracker is zero. -/
def NoZero (self : AssetTracker) : Prop :=
  ∀ asset total, self.totals.get asset = some total → total ≠ 0

theorem noZero_default : default.NoZero := by
  intro asset total h
  cases h

/-- Adding a positive amount leaves no zero entry. -/
theorem NoZero.add (hself : self.NoZero) (hamount : amount ≠ 0)
    (h : self.add asset amount = .ok self') : self'.NoZero := by
  simp only [AssetTracker.add, Outcome.bind_eq_ok, Outcome.okOr_eq_ok,
    FixedWidth.checkedAdd_eq_some, Except.ok.injEq] at h
  rcases h with ⟨sum, hsum, rfl⟩
  intro x total hx
  rw [OrderedMap.get_insert] at hx
  split at hx
  · cases hx
    intro hzero
    apply hamount
    rw [FixedWidth.eq_zero_iff] at hzero ⊢
    omega
  · exact hself x total hx

/-- What is covered can be subtracted, and an entry that becomes zero is removed. -/
theorem exists_subtract (hself : self.NoZero) (hle : amount.toNat ≤ self.total asset) :
    ∃ self', self.subtract asset amount = .ok self' ∧ self'.NoZero := by
  by_cases hzero : amount = 0
  · exact ⟨self, by rw [subtract, if_pos hzero], hself⟩
  · rw [FixedWidth.eq_zero_iff] at hzero
    cases hget : self.totals.get asset with
    | none =>
        rw [total, hget] at hle
        simp at hle
        omega
    | some before =>
        have hbefore : self.total asset = before.toNat := by simp [total, hget]
        rw [hbefore] at hle
        let after : U128 := BitVec.ofNat 128 (before.toNat - amount.toNat)
        have hafter : FixedWidth.checkedSub before amount = some after := by
          rw [FixedWidth.checkedSub, if_pos hle]
        have hstep : self.subtract asset amount =
            if after = 0 then .ok ⟨self.totals.erase asset⟩ else .ok
              ⟨self.totals.insert asset after⟩ := by
          rw [subtract, if_neg (by rwa [FixedWidth.eq_zero_iff]), hget]
          simp only [Outcome.okOr, Outcome.ok_bind, hafter]
        by_cases hempty : after = 0
        · refine ⟨_, by rw [hstep, if_pos hempty], ?_⟩
          intro x rest hx
          rw [OrderedMap.get_erase] at hx
          split at hx
          · cases hx
          · exact hself x rest hx
        · refine ⟨_, by rw [hstep, if_neg hempty], ?_⟩
          intro x rest hx
          rw [OrderedMap.get_insert] at hx
          split at hx
          · cases hx
            exact hempty
          · exact hself x rest hx

/-- Without zero entries and without totals the tracker is empty. -/
theorem isEmpty_of_total (hself : self.NoZero) (h : ∀ x, self.total x = 0) :
    self.isEmpty = true := by
  apply OrderedMap.isEmpty_iff.mpr
  intro x
  cases hget : self.totals.get x with
  | none => rfl
  | some rest =>
      have hzero := h x
      simp only [total, hget, Option.getD_some] at hzero
      exact absurd (FixedWidth.eq_zero_iff.mpr hzero) (hself x rest hget)

section

variable {α : Type} {assetOf : α → AssetId} {amountOf : α → U128} {l : List α}

/-- Adding a sequence of positive amounts. -/
theorem NoZero.foldlM_add (hself : self.NoZero) (hamounts : ∀ a ∈ l, amountOf a ≠ 0)
    (h : l.foldlM (fun (tracker : AssetTracker) a => tracker.add (assetOf a) (amountOf a)) self =
      .ok self') : self'.NoZero :=
  Outcome.foldlM_invariant (P := NoZero)
    (fun _ a _ ha hs hstep => hs.add (hamounts a ha) hstep) hself h

/-- Subtracting a sequence that is covered. -/
theorem exists_foldlM_subtract (hself : self.NoZero)
    (hle : ∀ x, tally (fun a => assetOf a = x) (fun a => (amountOf a).toNat) l ≤ self.total x) :
    ∃ self', l.foldlM (fun (tracker : AssetTracker) a => tracker.subtract (assetOf a) (amountOf a))
      self = .ok self' ∧ self'.NoZero := by
  refine (Outcome.exists_foldlM (P := fun ahead tracker => tracker.NoZero ∧ ∀ x,
    tally (fun a => assetOf a = x) (fun a => (amountOf a).toNat) ahead ≤ tracker.total x)
    ?_ ⟨hself, hle⟩).imp fun _ hloop => ⟨hloop.1, hloop.2.1⟩
  intro a ahead tracker h
  rcases h with ⟨hzero, hle⟩
  simp only [tally_cons, decide_eq_true_eq] at hle
  have hfirst : (amountOf a).toNat ≤ tracker.total (assetOf a) := by
    have hx := hle (assetOf a)
    rw [if_pos rfl] at hx
    omega
  obtain ⟨mid, hmid, hmidZero⟩ := exists_subtract hzero hfirst
  refine ⟨mid, hmid, hmidZero, ?_⟩
  intro x
  have hx := hle x
  have htotal := subtract_total hmid x
  omega

end

/-- Adding accounts without zero balances. -/
theorem NoZero.addAccounts {accounts : List Account} (hself : self.NoZero)
    (hcan : ∀ account ∈ accounts, account.Canonical) (h : self.addAccounts accounts = .ok self') :
    self'.NoZero := by
  apply Outcome.foldlM_invariant (P := NoZero) _ hself h
  intro tracker account tracker' haccount htracker hstep
  exact htracker.foldlM_add (hcan account haccount).nonzero hstep

/-- Subtracting accounts that are covered. -/
theorem exists_subtractAccounts {accounts : List Account} (hself : self.NoZero)
    (hle : ∀ x, supply accounts x ≤ self.total x) :
    ∃ self', self.subtractAccounts accounts = .ok self' ∧ self'.NoZero := by
  unfold subtractAccounts
  refine (Outcome.exists_foldlM
    (P := fun ahead tracker => tracker.NoZero ∧ ∀ x, supply ahead x ≤ tracker.total x)
    ?_ ⟨hself, hle⟩).imp fun _ hloop => ⟨hloop.1, hloop.2.1⟩
  intro account ahead tracker h
  rcases h with ⟨hzero, hle⟩
  simp only [supply, List.map_cons, List.sum_cons] at hle
  have hfirst : ∀ x, tally (fun b : AssetBalance => b.asset = x) (fun b => b.available.toNat)
      account.balances ≤ tracker.total x := by
    intro x
    have hx := hle x
    rw [tally_balances]
    omega
  obtain ⟨mid, hmid, hmidZero⟩ := exists_foldlM_subtract hzero hfirst
  refine ⟨mid, hmid, hmidZero, ?_⟩
  intro x
  have hx := hle x
  have htotal := foldlM_subtract_total hmid x
  rw [tally_balances] at htotal
  rw [supply]
  omega

end AssetTracker

/-! ## The whole batch -/

variable {B256 : Type} [Sha256 B256] [Secp256k1 B256] {input : BatchInput B256} {stages : Stages}

namespace StepsSucceed

/-- The stages conserve every asset. -/
theorem supply_eq (h : StepsSucceed input stages) (asset : AssetId) :
    supply input.state.accounts asset +
        tally (fun d => d.asset = asset) (fun d => d.amount.toNat) input.deposits =
      supply stages.settled asset +
        tally (fun w => w.asset = asset) (fun w => w.amount.toNat) input.withdrawals +
        tally (fun e => e.asset = asset) (fun e => e.amount.toNat) stages.executed := by
  have hdrained :=
    applyForcedWithdrawals_spec h.deposited.accountsCanonical h.applyForcedWithdrawals
  have hwithdrawn := applyWithdrawals_spec h.withdrawal_indexed h.applyWithdrawals
  have e₁ := h.deposited.supply_eq asset
  have e₂ := supply_eq_of_drained (fun id => hdrained.2.1 id asset)
  have e₃ := supply_eq_of_withdrawn (fun id => hwithdrawn.2 id asset)
  have e₄ := h.noncesConsumed.2.supply_eq asset
  have e₅ := h.tradesSettled.supply_eq asset
  omega

/-- After the other steps the tracker accepts the batch, too. -/
theorem tracker_accepts (h : StepsSucceed input stages) {t₁ t₂ : AssetTracker}
    (h₁ : AssetTracker.default.addAccounts input.state.accounts = .ok t₁)
    (h₂ : t₁.addDeposits input.deposits = .ok t₂) :
    ∃ t₃ t₄ t₅, t₂.subtractWithdrawals input.withdrawals = .ok t₃ ∧
      t₃.subtractForcedWithdrawals stages.executed = .ok t₄ ∧
      t₄.subtractAccounts stages.settled = .ok t₅ ∧ t₅.isEmpty = true := by
  have hdeposits : ∀ d ∈ input.deposits, d.amount ≠ 0 := by
    rcases h.deposits with ⟨cursor, hcursor⟩
    exact (validateDeposits_spec hcursor).2.2
  have hconserved := h.supply_eq
  -- what is in the tracker before anything is subtracted
  have htotal : ∀ x, t₂.total x = supply input.state.accounts x +
      tally (fun d => d.asset = x) (fun d => d.amount.toNat) input.deposits := by
    intro x
    rw [AssetTracker.foldlM_add_total h₂ x, AssetTracker.addAccounts_total h₁ x,
      AssetTracker.total_default, Nat.zero_add]
  have hzero₂ : t₂.NoZero :=
    (AssetTracker.noZero_default.addAccounts h.canonical.canonical h₁).foldlM_add hdeposits h₂
  have hle₃ : ∀ x, tally (fun w => w.asset = x) (fun w => w.amount.toNat) input.withdrawals ≤
      t₂.total x := by
    intro x
    rw [htotal, hconserved]
    omega
  rcases AssetTracker.exists_foldlM_subtract hzero₂ hle₃ with ⟨t₃, h₃, hzero₃⟩
  have htotal₃ := AssetTracker.foldlM_subtract_total h₃
  have hle₄ : ∀ x, tally (fun e => e.asset = x) (fun e => e.amount.toNat) stages.executed ≤
      t₃.total x := by
    intro x
    have hx := htotal₃ x
    rw [htotal, hconserved] at hx
    omega
  rcases AssetTracker.exists_foldlM_subtract hzero₃ hle₄ with ⟨t₄, h₄, hzero₄⟩
  have htotal₄ := AssetTracker.foldlM_subtract_total h₄
  have hle₅ : ∀ x, supply stages.settled x ≤ t₄.total x := by
    intro x
    have hx := htotal₃ x
    have hx' := htotal₄ x
    rw [htotal, hconserved] at hx
    omega
  rcases AssetTracker.exists_subtractAccounts hzero₄ hle₅ with ⟨t₅, h₅, hzero₅⟩
  refine ⟨t₃, t₄, t₅, h₃, h₄, h₅, ?_⟩
  apply AssetTracker.isEmpty_of_total hzero₅
  intro x
  have hx := htotal₃ x
  have hx' := htotal₄ x
  have hx'' := AssetTracker.subtractAccounts_total h₅ x
  rw [htotal, hconserved] at hx
  omega

variable [DecidableEq B256]

/-- After the other steps only the second root can fail. -/
theorem settleBatch_eq (h : StepsSucceed input stages) {t₁ t₂ : AssetTracker}
    (h₁ : AssetTracker.default.addAccounts input.state.accounts = .ok t₁)
    (h₂ : t₁.addDeposits input.deposits = .ok t₂) {newDepositCursor : U64}
    (hcursor : validateDeposits input.deposits input.oldDepositCursor input.config =
      .ok newDepositCursor) :
    settleBatch input = (do
      let newStateRoot ← (⟨stages.settled, input.state.multiproof⟩ : StateWitness B256).root
      .ok (buildOutput input.domain input.batchId (hash input.config)
        (input.batchHash input.expectedOldStateRoot) input.expectedOldStateRoot newStateRoot
        stages.settled stages.trades input.oldDepositCursor newDepositCursor input.deposits
        input.withdrawals input.oldForcedWithdrawalCursor (hash input.forcedWithdrawals)
        stages.executed)) := by
  rcases h.tracker_accepts h₁ h₂ with ⟨t₃, t₄, t₅, h₃, h₄, h₅, hempty⟩
  have haccepted : Outcome.rejectIf (input.expectedOldStateRoot ≠ input.expectedOldStateRoot)
      SettlementError.OldStateRootMismatch = .ok () := by
    rw [Outcome.rejectIf_eq_ok]
    simp
  have hconserved : Outcome.rejectIf (¬ t₅.isEmpty) SettlementError.AssetConservationViolation =
      .ok () := by
    rw [Outcome.rejectIf_eq_ok]
    simp [hempty]
  simp only [settleBatch, h.limits, h.config, h.accounts, hcursor, h.oldRoot, haccepted, h₁, h₂, h₃,
    h.applyDeposits, h.forcedWithdrawals, h.applyForcedWithdrawals, h₄, h.withdrawals, h.orders,
    h.nonces, h.applyWithdrawals, h.consumeNonces, h.books, h.matchAndSettle, h₅, hconserved,
    Outcome.ok_bind]

end StepsSucceed

variable [DecidableEq B256]

/-- When the totals of the accounts and deposits fit and every other step succeeds, everything can
be subtracted and the tracker ends empty: the batch is not rejected for a violation of
conservation. -/
theorem tracker_redundant (h : StepsSucceed input stages) {t₁ t₂ : AssetTracker}
    (h₁ : AssetTracker.default.addAccounts input.state.accounts = .ok t₁)
    (h₂ : t₁.addDeposits input.deposits = .ok t₂) :
    (∃ t₃ t₄ t₅, t₂.subtractWithdrawals input.withdrawals = .ok t₃ ∧
      t₃.subtractForcedWithdrawals stages.executed = .ok t₄ ∧
      t₄.subtractAccounts stages.settled = .ok t₅ ∧ t₅.isEmpty = true) ∧
      settleBatch input ≠ .error (.error .AssetConservationViolation) := by
  refine ⟨h.tracker_accepts h₁ h₂, fun hrejected => ?_⟩
  rcases h.deposits with ⟨newDepositCursor, hcursor⟩
  -- the second root has errors of its own
  have hroot : Outcome.FailsWith (· ≠ .error .AssetConservationViolation)
      (⟨stages.settled, input.state.multiproof⟩ : StateWitness B256).root :=
    Outcome.failsWith_mapError (by simp) (by simp [SettlementError.ofPatricia])
  have hrest := hroot.bind fun newStateRoot _ => Outcome.failsWith_ok
    (buildOutput input.domain input.batchId (hash input.config)
      (input.batchHash input.expectedOldStateRoot) input.expectedOldStateRoot newStateRoot
      stages.settled stages.trades input.oldDepositCursor newDepositCursor input.deposits
      input.withdrawals input.oldForcedWithdrawalCursor (hash input.forcedWithdrawals)
      stages.executed)
  rw [h.settleBatch_eq h₁ h₂ hcursor] at hrejected
  exact hrest _ hrejected rfl

/-- The order book of the small market. -/
def marketBook : ValidatedMarketBook where
  market := ⟨FixedBytes.replicate 32 5, FixedBytes.replicate 20 7, FixedBytes.replicate 20 8⟩
  baseAsset := ⟨FixedBytes.replicate 20 7, 1⟩
  buys := [marketOrder .Buy 3 0 3 2 1]
  sells := [marketOrder .Sell 2 3 2 1 0]

/-- The accounts of the small market once the fourth account has deposited. -/
def marketStage (seller : List AssetBalance) (sellerNonce : U64) (buyer : List AssetBalance)
    (buyerNonce : U64) : List Account :=
  [⟨FixedBytes.replicate 20 1, [], 0⟩, ⟨FixedBytes.replicate 20 2, seller, sellerNonce⟩,
    ⟨FixedBytes.replicate 20 3, buyer, buyerNonce⟩,
    ⟨FixedBytes.replicate 20 4, [⟨FixedBytes.replicate 20 7, 4⟩], 0⟩]

/-- The intermediate values of the first batch of the small market. -/
def openingStages : Stages where
  deposited := marketStage [⟨FixedBytes.replicate 20 7, 5⟩] 3 [⟨FixedBytes.replicate 20 8, 9⟩] 0
  drained := marketStage [⟨FixedBytes.replicate 20 7, 5⟩] 3 [⟨FixedBytes.replicate 20 8, 7⟩] 0
  executed := [⟨0, FixedBytes.replicate 20 3, FixedBytes.replicate 20 8, 2, some 2⟩]
  withdrawn := marketStage [⟨FixedBytes.replicate 20 7, 4⟩] 3 [⟨FixedBytes.replicate 20 8, 7⟩] 0
  consumed := marketStage [⟨FixedBytes.replicate 20 7, 4⟩] 5 [⟨FixedBytes.replicate 20 8, 7⟩] 1
  books := [marketBook]
  settled := openedAccounts
  trades := [⟨FixedBytes.replicate 32 5, FixedBytes.replicate 20 3, FixedBytes.replicate 20 2, 2, 1,
    2, 0⟩]

theorem stepsSucceed_openingBatch : StepsSucceed openingBatch openingStages where
  limits := by decide +kernel
  config := by decide +kernel
  accounts := by decide +kernel
  deposits := ⟨1, by decide +kernel⟩
  oldRoot := by decide +kernel
  applyDeposits := by decide +kernel
  forcedWithdrawals := by decide +kernel
  applyForcedWithdrawals := by decide +kernel
  withdrawals := by decide +kernel
  orders := by decide +kernel
  nonces := by decide +kernel
  applyWithdrawals := by decide +kernel
  consumeNonces := by decide +kernel
  books := by decide +kernel
  matchAndSettle := by decide +kernel

/-- The tracker of a batch with items of every kind ends empty. -/
theorem tracker_redundant_openingBatch :
    ∃ t₁ t₂, AssetTracker.default.addAccounts marketAccounts = .ok t₁ ∧
      t₁.addDeposits openingBatch.deposits = .ok t₂ ∧
      (∃ t₃ t₄ t₅, t₂.subtractWithdrawals openingBatch.withdrawals = .ok t₃ ∧
        t₃.subtractForcedWithdrawals openingStages.executed = .ok t₄ ∧
        t₄.subtractAccounts openingStages.settled = .ok t₅ ∧ t₅.isEmpty = true) ∧
      settleBatch openingBatch ≠ .error (.error .AssetConservationViolation) := by
  rcases Outcome.exists_of_isOk (show (AssetTracker.default.addAccounts marketAccounts).isOk = true
    by decide +kernel) with ⟨t₁, h₁⟩
  rcases Outcome.exists_of_isOk (show (do
    let t₁ ← AssetTracker.default.addAccounts marketAccounts
    t₁.addDeposits openingBatch.deposits).isOk = true by decide +kernel) with ⟨t₂, h₂⟩
  rw [h₁, Outcome.ok_bind] at h₂
  exact ⟨t₁, t₂, h₁, h₂, tracker_redundant stepsSucceed_openingBatch h₁ h₂⟩

end ZkClob
