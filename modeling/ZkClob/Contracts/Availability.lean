import ZkClob.Contracts.Solvency

/-!
# What is owed can be collected

Solvency says that the contract holds what it owes.  This module says that nobody can keep it
back: a payout of a batch never reverts, a credit can be claimed as soon as its transfer is
delivered, and in escape mode every committed account can leave once its transfers are delivered,
whatever the others do before and after it.

Main results:

- Theorem {lit}`Contract.executeWithdrawals_available`: payouts whose credits fit do not revert.
- Theorem {lit}`Contract.executeEscapeWithdrawal_available`: balances that are held can be paid.
- Theorem {lit}`Contract.claim_available`: in every run a credit can be claimed in full.
- Theorem {lit}`Contract.everyone_can_escape`: in escape mode a committed account gets its balances
  with the side nodes of the honest proof, wherever its call stands among the others.
-/

namespace ZkClob

open Foundations Patricia

namespace Contract

variable {B256 : Type} {self : Immutables B256} {context : Context} {world world' : World B256}
  {kind : TransferKind} {asset recipient : Address} {delivery : Delivery B256}

/-! ## Transfers -/

/-- A transfer of what is held is made when it is delivered. -/
theorem moveOut_available (self : Immutables B256) (context : Context) (kind : TransferKind)
    (recipient : Address) {amount : U256} (hdelivery : delivery.Made)
    (hheld : amount.toNat ≤ (world.holdings asset).toNat) :
    ∃ world', moveOut self context kind asset recipient amount delivery world = (true, world') := by
  cases delivery with
  | failed callbacks => exact hdelivery.elim
  | delivered callbacks =>
      have hrest : FixedWidth.checkedSub (world.holdings asset) amount =
          some (BitVec.ofNat 256 ((world.holdings asset).toNat - amount.toNat)) := by
        rw [FixedWidth.checkedSub, if_pos hheld]
      unfold moveOut
      simp only [hrest]
      exact ⟨_, rfl⟩

/-- The contract sends native ether to everyone but itself. -/
def Payable (self : Immutables B256) (recipient asset : Address) : Prop :=
  asset = address0 → recipient ≠ self.EXCHANGE_ID

/-- A payout of what is held is made when it is delivered. -/
theorem attemptTransfer_available (context : Context) {amount : U256}
    (hdelivery : delivery.Made)
    (hpayable : Payable self recipient asset)
    (hheld : amount.toNat ≤ (world.holdings asset).toNat) :
    ∃ world',
      attemptTransfer self context asset recipient amount delivery world = (true, world') := by
  unfold attemptTransfer trySafeTransfer
  by_cases hasset : asset = address0
  · subst hasset
    obtain ⟨world', hworld'⟩ :=
      moveOut_available self context .payout recipient hdelivery hheld
    rw [if_pos rfl, nativeCall, if_neg (hpayable rfl), hworld']
    exact ⟨world', rfl⟩
  · rw [if_neg hasset]
    exact moveOut_available self context .payout recipient hdelivery hheld

/-! ## Payouts of a batch -/

/-- A credit that fits is given, and changes no other. -/
theorem creditPending_available {amount : U256}
    (hfits : (world.storage.pendingWithdrawals recipient asset).toNat + amount.toNat < 2 ^ 256) :
    ∃ world', creditPending recipient asset amount world = .ok world' ∧
      ∀ r x, (world'.storage.pendingWithdrawals r x).toNat =
        (world.storage.pendingWithdrawals r x).toNat + single recipient asset amount.toNat r x := by
  obtain ⟨total, htotal⟩ :
      ∃ total, FixedWidth.checkedAdd (world.storage.pendingWithdrawals recipient asset) amount =
        some total := by
    refine ⟨BitVec.ofNat 256
      ((world.storage.pendingWithdrawals recipient asset).toNat + amount.toNat), ?_⟩
    rw [FixedWidth.checkedAdd_eq_some, BitVec.toNat_ofNat, Nat.mod_eq_of_lt hfits]
  have hcredit : ∃ world', creditPending recipient asset amount world = .ok world' := by
    simp only [creditPending, htotal, Outcome.expect_some, Outcome.ok_bind]
    exact ⟨_, rfl⟩
  rcases hcredit with ⟨world', hworld'⟩
  refine ⟨world', hworld', fun r x => ?_⟩
  -- no transfer is made, so that the whole amount is credited
  have hpaid := (creditPending_spec hworld').payouts r x
  have hsame : world'.transfers = world.transfers := by
    simp only [creditPending, Outcome.bind_eq_ok, Except.ok.injEq] at hworld'
    rcases hworld' with ⟨_, _, rfl⟩
    rfl
  simp only [transferred, hsame] at hpaid
  omega

/-- A payout never reverts when a credit for it fits, and adds at most its amount to one credit. -/
theorem payOut_available (self : Immutables B256) (context : Context) {amount : U128}
    (executed : Event B256) (delivery : Delivery B256)
    (hfits : (world.storage.pendingWithdrawals recipient asset).toNat + amount.toNat < 2 ^ 256) :
    ∃ world', payOut self context recipient asset amount executed delivery world = .ok world' ∧
      ∀ r x, (world'.storage.pendingWithdrawals r x).toNat ≤
        (world.storage.pendingWithdrawals r x).toNat + single recipient asset amount.toNat r x := by
  have hamount : (amount.setWidth 256).toNat = amount.toNat := by
    rw [BitVec.toNat_setWidth]
    exact Nat.mod_eq_of_lt (amount.isLt.trans (by norm_num))
  rw [← hamount] at hfits
  unfold payOut
  split
  · rename_i world' hsent
    refine ⟨_, rfl, fun r x => ?_⟩
    simp only [World.emit, (attemptTransfer_true hsent).pending]
    exact Nat.le_add_right _ _
  · rename_i world' hfailed
    have hsame := (attemptTransfer_false hfailed).pending
    rw [← hsame] at hfits ⊢
    rcases creditPending_available hfits with ⟨credited, hcredited, hpending⟩
    rw [hcredited, Outcome.ok_bind]
    refine ⟨_, rfl, fun r x => ?_⟩
    have hcredit := hpending r x
    rw [hamount] at hcredit
    exact hcredit.le

variable {outcomes : Nat → Delivery B256} {index : Nat}

/-- Payouts never revert when the credits for all of them fit, whatever is delivered and whatever
the recipients do meanwhile. -/
theorem executeWithdrawals_available (self : Immutables B256) (context : Context)
    (outcomes : Nat → Delivery B256) (index : Nat) {withdrawals : List Withdrawal}
    (hfits : ∀ r x, (world.storage.pendingWithdrawals r x).toNat +
      withdrawalsTo withdrawals r x < 2 ^ 256) :
    ∃ world', executeWithdrawals self context outcomes index withdrawals world = .ok world' ∧
      ∀ r x, (world'.storage.pendingWithdrawals r x).toNat ≤
        (world.storage.pendingWithdrawals r x).toNat + withdrawalsTo withdrawals r x := by
  induction withdrawals generalizing world index with
  | nil => exact ⟨world, rfl, fun r x => Nat.le_add_right _ _⟩
  | cons withdrawal rest ih =>
      have hsplit : ∀ r x, withdrawalsTo (withdrawal :: rest) r x =
          single withdrawal.recipient withdrawal.asset withdrawal.amount.toNat r x +
            withdrawalsTo rest r x := by
        intro r x
        simp only [withdrawalsTo, single, tally_cons, decide_eq_true_eq]
      have hfirst : (world.storage.pendingWithdrawals withdrawal.recipient
          withdrawal.asset).toNat + withdrawal.amount.toNat < 2 ^ 256 := by
        have hall := hfits withdrawal.recipient withdrawal.asset
        rw [hsplit, single, if_pos ⟨rfl, rfl⟩] at hall
        omega
      have hpaid := payOut_available self context
        (.WithdrawalExecuted withdrawal.account withdrawal.recipient withdrawal.asset
          withdrawal.amount withdrawal.nonce) (outcomes index) hfirst
      rcases hpaid with ⟨middle, hmiddle, hcredits⟩
      have hmiddleFits : ∀ r x, (middle.storage.pendingWithdrawals r x).toNat +
          withdrawalsTo rest r x < 2 ^ 256 := by
        intro r x
        have hr := hfits r x
        have hm := hcredits r x
        rw [hsplit] at hr
        omega
      rcases ih (index + 1) hmiddleFits with ⟨world', hworld', hrest⟩
      refine ⟨world', ?_, fun r x => ?_⟩
      · rw [executeWithdrawals, hmiddle, Outcome.ok_bind]
        exact hworld'
      · have hm := hcredits r x
        have hr := hrest r x
        rw [hsplit]
        omega

/-- The same for the forced withdrawals of a batch. -/
theorem executeForcedWithdrawals_available (self : Immutables B256) (context : Context)
    (outcomes : Nat → Delivery B256) (index : Nat) {forcedWithdrawals : List ForcedWithdrawal}
    (hfits : ∀ r x, (world.storage.pendingWithdrawals r x).toNat +
      forcedWithdrawalsTo forcedWithdrawals r x < 2 ^ 256) :
    ∃ world', executeForcedWithdrawals self context outcomes index forcedWithdrawals world =
      .ok world' := by
  induction forcedWithdrawals generalizing world index with
  | nil => exact ⟨world, rfl⟩
  | cons forcedWithdrawal rest ih =>
      have hsplit : ∀ r x, forcedWithdrawalsTo (forcedWithdrawal :: rest) r x =
          single forcedWithdrawal.account forcedWithdrawal.asset forcedWithdrawal.amount.toNat r x +
            forcedWithdrawalsTo rest r x := by
        intro r x
        simp only [forcedWithdrawalsTo, single, tally_cons, decide_eq_true_eq]
      rw [executeForcedWithdrawals]
      by_cases hzero : forcedWithdrawal.amount = 0
      · rw [if_pos hzero]
        refine ih (index + 1) fun r x => ?_
        have hr := hfits r x
        rw [hsplit] at hr
        omega
      · rw [if_neg hzero]
        have hfirst : (world.storage.pendingWithdrawals forcedWithdrawal.account
            forcedWithdrawal.asset).toNat + forcedWithdrawal.amount.toNat < 2 ^ 256 := by
          have hall := hfits forcedWithdrawal.account forcedWithdrawal.asset
          rw [hsplit, single, if_pos ⟨rfl, rfl⟩] at hall
          omega
        have hpaid := payOut_available self context
          (.ForcedWithdrawalExecuted forcedWithdrawal.account forcedWithdrawal.asset
            forcedWithdrawal.amount forcedWithdrawal.id) (outcomes index) hfirst
        rcases hpaid with ⟨middle, hmiddle, hcredits⟩
        rw [hmiddle, Outcome.ok_bind]
        refine ih (index + 1) fun r x => ?_
        have hr := hfits r x
        have hm := hcredits r x
        rw [hsplit] at hr
        omega

/-! ## Escapes -/

/-- One transfer of an escape is made when the balance is held. -/
theorem escapeTransfer_available (context : Context) {id : Address} {balance : AssetBalance}
    (hdelivery : delivery.Made) (hpayable : Payable self id balance.asset)
    (hheld : balance.available.toNat ≤ (world.holdings balance.asset).toNat) :
    ∃ world', escapeTransfer self context id balance delivery world = .ok world' ∧
      ∀ x, (world.holdings x).toNat ≤ (world'.holdings x).toNat +
        if balance.asset = x then balance.available.toNat else 0 := by
  have hamount : (balance.available.setWidth 256).toNat = balance.available.toNat := by
    rw [BitVec.toNat_setWidth]
    exact Nat.mod_eq_of_lt (balance.available.isLt.trans (by norm_num))
  rw [← hamount] at hheld
  have hmoved := moveOut_available self context .escape id hdelivery hheld
  rcases hmoved with ⟨world', hworld'⟩
  have hholdings := (moveOut_true hworld').holdings
  simp only [hamount] at hholdings
  refine ⟨world', ?_, hholdings⟩
  unfold escapeTransfer
  by_cases hasset : balance.asset = address0
  · rw [hasset] at hworld'
    rw [if_pos hasset, nativeCall, if_neg (hpayable hasset), hworld']
  · rw [if_neg hasset, safeTransfer, trySafeTransfer, hworld']

/-- Balances that are held are paid when the transfers are delivered, whatever the recipient does
meanwhile. -/
theorem executeEscapeWithdrawal_available (context : Context) (index : Nat) {id : Address}
    {balances : List AssetBalance} (houtcomes : ∀ index, (outcomes index).Made)
    (hid : id ≠ self.EXCHANGE_ID)
    (hheld : ∀ x, tally (fun b => b.asset = x) (fun b => b.available.toNat) balances ≤
      (world.holdings x).toNat) :
    ∃ world',
      executeEscapeWithdrawal self context outcomes index id balances world = .ok world' := by
  induction balances generalizing world index with
  | nil => exact ⟨world, rfl⟩
  | cons balance rest ih =>
      simp only [tally_cons, decide_eq_true_eq] at hheld
      rw [executeEscapeWithdrawal]
      by_cases hzero : balance.available = 0
      · rw [if_pos hzero]
        exact ih (index + 1) fun x => (Nat.le_add_left _ _).trans (hheld x)
      · rw [if_neg hzero]
        have hfirst : balance.available.toNat ≤ (world.holdings balance.asset).toNat := by
          have hall := hheld balance.asset
          rw [if_pos rfl] at hall
          omega
        have hpaid := escapeTransfer_available context (houtcomes index)
          (fun _ => hid) hfirst
        rcases hpaid with ⟨middle, hmiddle, hleft⟩
        rw [hmiddle, Outcome.ok_bind]
        refine ih (index + 1) fun x => ?_
        have hx := hheld x
        have hl := hleft x
        simp only [World.emit]
        omega

section

variable [Sha256 B256] [MathLibrary] {A : List Account}

/-- An account that is committed, has not escaped and is covered by the holdings can escape with
the side nodes of the honest proof. -/
theorem escapeWithdraw_available (context : Context) (hA : Commits A world.storage.stateRoot)
    {account : Account} (hmem : account ∈ A) (hactive : world.storage.escapeMode = true)
    (hfirst : world.storage.escaped account.id = false) (hid : account.id ≠ self.EXCHANGE_ID)
    (hheld : ∀ x, account.total x ≤ (world.holdings x).toNat) {proof : StateMultiproof B256}
    (hproof : buildMultiproof A [account.id] = .ok proof) [DecidableEq B256]
    (houtcomes : ∀ index, (outcomes index).Made) :
    ∃ world', escapeWithdraw self context account.id account.nextNonce account.balances
      proof.sideNodes outcomes world = .ok world' := by
  have hverified : PatriciaProof.verifyAccount account.id account.nextNonce account.balances
      proof.sideNodes = .ok world.storage.stateRoot := by
    have hhonest : ∃ (honest : StateMultiproof B256) (root : B256), _ :=
      PatriciaProof.verifyAccount_honest hA.nodup hmem
    rcases hhonest with ⟨honest, root, hhonest, hroot, haccepted⟩
    rw [hproof, Except.ok.injEq] at hhonest
    rw [hA.root_eq, Except.ok.injEq] at hroot
    rw [hhonest, hroot]
    exact haccepted
  have htotal : ∀ x, tally (fun b : AssetBalance => b.asset = x) (fun b => b.available.toNat)
      account.balances ≤ (world.holdings x).toNat := by
    intro x
    rw [AssetTracker.tally_balances]
    exact hheld x
  simp only [escapeWithdraw, hactive, hfirst, hverified, Outcome.rejectIf, Outcome.mapError,
    Outcome.ok_bind, ne_eq, not_true_eq_false, Bool.not_true, Bool.false_eq_true, if_false]
  exact executeEscapeWithdrawal_available context 0 houtcomes hid htotal

end

/-! ## What stands still in escape mode -/

/-- In escape mode no batch is settled: the committed state and the cursors stay, and nobody who
has escaped is let in again. -/
structure Frozen (storage storage' : Storage B256) : Prop where
  stateRoot : storage'.stateRoot = storage.stateRoot
  nextBatchId : storage'.nextBatchId = storage.nextBatchId
  nextUnprocessedDeposit : storage'.nextUnprocessedDeposit = storage.nextUnprocessedDeposit
  nextUnprocessedForcedWithdrawal :
    storage'.nextUnprocessedForcedWithdrawal = storage.nextUnprocessedForcedWithdrawal
  escapeMode : storage'.escapeMode = true
  escaped : ∀ id, storage.escaped id = true → storage'.escaped id = true

theorem Frozen.refl {storage : Storage B256} (h : storage.escapeMode = true) :
    Frozen storage storage :=
  ⟨rfl, rfl, rfl, rfl, h, fun _ => id⟩

theorem Frozen.trans {storage storage' storage'' : Storage B256} (h : Frozen storage storage')
    (h' : Frozen storage' storage'') : Frozen storage storage'' where
  stateRoot := h'.stateRoot.trans h.stateRoot
  nextBatchId := h'.nextBatchId.trans h.nextBatchId
  nextUnprocessedDeposit := h'.nextUnprocessedDeposit.trans h.nextUnprocessedDeposit
  nextUnprocessedForcedWithdrawal :=
    h'.nextUnprocessedForcedWithdrawal.trans h.nextUnprocessedForcedWithdrawal
  escapeMode := h'.escapeMode
  escaped id hid := h'.escaped id (h.escaped id hid)

theorem Kept.frozen {storage storage' : Storage B256} (h : Kept storage storage')
    (hactive : storage.escapeMode = true) : Frozen storage storage' :=
  ⟨h.stateRoot, h.nextBatchId, h.nextUnprocessedDeposit, h.nextUnprocessedForcedWithdrawal,
    h.escapeMode hactive, fun _ hid => h.escaped ▸ hid⟩

section

variable [DecidableEq B256] [Bytes32 B256] [Sha256 B256] [MathLibrary] [ISP1Verifier B256]

omit [DecidableEq B256] in
/-- A transaction in escape mode. -/
theorem Effect.frozen {calls : List (SettleCall B256)} {escaped : List Address}
    (heffect : Effect self world world' calls escaped)
    (hactive : world.storage.escapeMode = true) : Frozen world.storage world'.storage := by
  cases heffect with
  | undisturbed h => exact h.kept.frozen hactive
  | deposit h =>
      have hfrozen := h.kept.frozen hactive
      exact ⟨hfrozen.1, hfrozen.2, hfrozen.3, hfrozen.4, hfrozen.5, hfrozen.6⟩
  | claim h => exact h.kept.frozen hactive
  | @escape id nextNonce balances sideNodes h =>
      have hfrozen := h.paid.kept.frozen hactive
      refine ⟨hfrozen.1, hfrozen.2, hfrozen.3, hfrozen.4, hfrozen.5, fun i hi => ?_⟩
      apply hfrozen.escaped
      by_cases hsame : i = id
      · subst hsame
        exact Function.update_self ..
      · simpa only [Function.update_of_ne hsame] using hi
  | settle h =>
      rw [h.running] at hactive
      cases hactive

/-- Escape mode is never left, and what it freezes stays, over every run. -/
theorem run_frozen (hactive : world.storage.escapeMode = true)
    (transactions : List (Context × Call B256)) :
    Frozen world.storage (run self world transactions).storage :=
  run_invariant (P := fun world' : World B256 => Frozen world.storage world'.storage)
    (fun world' transaction h =>
      h.trans ((step_effect self world' transaction).frozen h.escapeMode))
    (Frozen.refl hactive) transactions

omit [DecidableEq B256] [Bytes32 B256] [Sha256 B256] [MathLibrary] [ISP1Verifier B256] in
/-- One account holds a part of what the accounts that have not escaped hold. -/
theorem total_le_supply_unescaped {storage : Storage B256} {A : List Account} {account : Account}
    (hmem : account ∈ A) (hfirst : storage.escaped account.id = false) (asset : Address) :
    account.total asset ≤ supply (unescaped storage A) asset := by
  rw [supply_unescaped]
  exact le_tally (f := fun a : Account => a.total asset) hmem (by simp [hfirst])

omit [DecidableEq B256] [Bytes32 B256] [Sha256 B256] [MathLibrary] [ISP1Verifier B256] in
/-- One credit is a part of all credits in its asset. -/
theorem pending_le_pendingTotal (storage : Storage B256) (account asset : Address) :
    (storage.pendingWithdrawals account asset).toNat ≤ pendingTotal storage asset :=
  Finset.single_le_sum (f := fun r => (storage.pendingWithdrawals r asset).toNat)
    (fun _ _ => Nat.zero_le _) (Finset.mem_univ account)

/-! ## Runs -/

variable [Secp256k1 B256]

/-- The books of a run that started with covered balances: a committed set, and holdings that
cover all that is owed. -/
theorem owed_run (hfree : CollisionFree B256) (hverifier : VerifierSound self)
    {A₀ : List Account} {initialStateRoot : B256} (hgenesis : computeRoot A₀ = .ok initialStateRoot)
    {holdings : Address → U256} (hcovered : ∀ asset, supply A₀ asset ≤ (holdings asset).toNat)
    (initialBatchId : U64) (transactions : List (Context × Call B256)) :
    let world := run self (genesis initialStateRoot initialBatchId holdings) transactions
    ∃ A, Covered (supply A₀) world A ∧ ∀ asset,
      supply (unescaped world.storage A) asset + queuedTotal world.storage asset +
        pendingTotal world.storage asset ≤ (world.holdings asset).toNat := by
  intro world
  rcases books_run hfree hverifier hgenesis initialBatchId holdings transactions with
    ⟨⟨A, hA⟩, haccounted⟩
  exact ⟨A, hA, fun asset => hA.holds_owed haccounted rfl hcovered asset⟩

/-- In every run, with or without escape mode, a credit can be claimed: when its transfer is
delivered, the whole credit is paid out and nothing of it is left. -/
theorem claim_available (hfree : CollisionFree B256) (hverifier : VerifierSound self)
    {A₀ : List Account} {initialStateRoot : B256} (hgenesis : computeRoot A₀ = .ok initialStateRoot)
    {holdings : Address → U256} (hcovered : ∀ asset, supply A₀ asset ≤ (holdings asset).toNat)
    (initialBatchId : U64) (transactions : List (Context × Call B256)) :
    let world := run self (genesis initialStateRoot initialBatchId holdings) transactions
    ∀ account asset, world.storage.pendingWithdrawals account asset ≠ 0 →
      (asset = address0 → account ≠ self.EXCHANGE_ID) →
      ∀ context delivery, delivery.Made → ∃ world',
        withdrawPending self context account asset delivery world = .ok world' ∧
          world'.storage.pendingWithdrawals account asset = 0 ∧
          transferred world' .payout account asset = transferred world .payout account asset +
            (world.storage.pendingWithdrawals account asset).toNat := by
  intro world account asset hpending hpayable context delivery hdelivery
  obtain ⟨A, _, howed⟩ : ∃ A, Covered (supply A₀) world A ∧ ∀ asset,
      supply (unescaped world.storage A) asset + queuedTotal world.storage asset +
        pendingTotal world.storage asset ≤ (world.holdings asset).toNat :=
    owed_run hfree hverifier hgenesis hcovered initialBatchId transactions
  have hheld : (world.storage.pendingWithdrawals account asset).toNat ≤
      (world.holdings asset).toNat := by
    have hcredit := pending_le_pendingTotal world.storage account asset
    have hall := howed asset
    omega
  let cleared : World B256 := { world with storage := { world.storage with
    pendingWithdrawals := Function.update world.storage.pendingWithdrawals account
      (Function.update (world.storage.pendingWithdrawals account) asset 0) } }
  have hsent := attemptTransfer_available context hdelivery hpayable
    (show _ ≤ (cleared.holdings asset).toNat from hheld)
  rcases hsent with ⟨world', hworld'⟩
  have hmoved := attemptTransfer_true hworld'
  refine ⟨world'.emit (.PendingWithdrawalClaimed account asset
    (world.storage.pendingWithdrawals account asset)), ?_, ?_, ?_⟩
  · have hnonzero : ¬ world.storage.pendingWithdrawals account asset = 0 := hpending
    simp only [withdrawPending, Outcome.rejectIf, if_neg hnonzero, Outcome.ok_bind]
    rw [hworld']
  · rw [World.emit, hmoved.pending]
    simp [cleared]
  · rw [transferred, World.emit, hmoved.transfers, tally_append]
    simp [transferred, cleared]

end

/-- The drained amount of the user of the small exchange was not delivered, and is claimed. -/
theorem claim_available_testTransactions :
    let start := genesis testRoot 0 testHoldings
    let world := run testContract start (testTransactions.take 3)
    ∃ world', withdrawPending testContract (testContext 4 40) (FixedBytes.replicate 20 2)
        (FixedBytes.replicate 20 7) (.delivered []) world = .ok world' ∧
      world'.storage.pendingWithdrawals (FixedBytes.replicate 20 2) (FixedBytes.replicate 20 7) =
        0 := by
  intro start world
  have hroot : computeRoot testAccounts = .ok testRoot := by decide +kernel
  have hpending : world.storage.pendingWithdrawals (FixedBytes.replicate 20 2)
      (FixedBytes.replicate 20 7) = 3 := by
    decide +kernel
  have h := claim_available IdealDigest.collisionFree verifierSound_testContract hroot
    supply_testAccounts 0 (testTransactions.take 3) (FixedBytes.replicate 20 2)
    (FixedBytes.replicate 20 7) (by rw [hpending]; decide) (by decide) (testContext 4 40)
    (.delivered []) trivial
  rcases h with ⟨world', hclaimed, hleft, _⟩
  exact ⟨world', hclaimed, hleft⟩

section

variable [DecidableEq B256] [Bytes32 B256] [Sha256 B256] [MathLibrary] [ISP1Verifier B256]
  [Secp256k1 B256]

/-- Every committed account that is not the contract itself can leave with all its balances: its
call, with the side nodes that the account tree builds for it, succeeds wherever it stands among the
transactions of others when its transfers are made, unless the account has escaped before; and at
the end the account has received exactly what the committed set says. -/
def EveryoneLeaves (contract : Immutables B256) (world : World B256) : Prop :=
  ∀ A, computeRoot A = .ok world.storage.stateRoot →
    ∀ account : Account, account ∈ A → account.id ≠ contract.EXCHANGE_ID →
      ∃ proof : StateMultiproof B256, buildMultiproof A [account.id] = .ok proof ∧
        ∀ (context : Context) (outcomes : Nat → Delivery B256), (∀ index, (outcomes index).Made) →
        ∀ before after : List (Context × Call B256),
          let final := run contract world (before ++ (context, .escapeWithdraw account.id
            account.nextNonce account.balances proof.sideNodes outcomes) :: after)
          final.storage.escaped account.id = true ∧
            ∀ asset, transferred final .escape account.id asset = account.total asset

/-- Everyone leaves in escape mode. -/
theorem everyoneLeaves_run (hfree : CollisionFree B256) (hverifier : VerifierSound self)
    {A₀ : List Account} {initialStateRoot : B256} (hgenesis : computeRoot A₀ = .ok initialStateRoot)
    {holdings : Address → U256} (hcovered : ∀ asset, supply A₀ asset ≤ (holdings asset).toNat)
    (initialBatchId : U64) (transactions : List (Context × Call B256))
    (hactive : (run self (genesis initialStateRoot initialBatchId holdings)
      transactions).storage.escapeMode = true) :
    EveryoneLeaves self (run self (genesis initialStateRoot initialBatchId holdings)
      transactions) := by
  let start : World B256 := genesis initialStateRoot initialBatchId holdings
  let world : World B256 := run self start transactions
  change EveryoneLeaves self world
  intro A hroot account hmem hid
  have hA : Commits A world.storage.stateRoot := Commits.of_computeRoot hroot
  have hhonest : ∃ (proof : StateMultiproof B256) (root : B256), _ :=
    PatriciaProof.verifyAccount_honest hA.nodup hmem
  rcases hhonest with ⟨proof, _, hproof, _⟩
  refine ⟨proof, hproof, fun context outcomes houtcomes before after => ?_⟩
  let call : Context × Call B256 := (context, .escapeWithdraw account.id account.nextNonce
    account.balances proof.sideNodes outcomes)
  let middle : World B256 := run self world before
  intro final
  -- the run up to the call, the call, and the rest
  have hmiddle : middle = run self start (transactions ++ before) := by
    simp only [middle, world, start, run, List.foldl_append]
  have hfinal : final = run self (step self middle call) after := by
    simp only [final, middle, call, run, List.foldl_append, List.foldl_cons]
  have hbefore : Frozen world.storage middle.storage := run_frozen hactive before
  have hcall : Frozen middle.storage (step self middle call).storage :=
    (step_effect self middle call).frozen hbefore.escapeMode
  have hafter : Frozen (step self middle call).storage final.storage := by
    rw [hfinal]
    exact run_frozen hcall.escapeMode after
  have hescaped : (step self middle call).storage.escaped account.id = true := by
    by_cases hfirst : middle.storage.escaped account.id = true
    · exact hcall.escaped _ hfirst
    · have howed := owed_run hfree hverifier hgenesis hcovered initialBatchId
        (transactions ++ before)
      rw [← hmiddle] at howed
      rcases howed with ⟨A', hA', hheld⟩
      have hcommits : Commits A middle.storage.stateRoot := by
        rw [hbefore.stateRoot]
        exact hA
      rw [Bool.not_eq_true] at hfirst
      have hmem' : account ∈ A' := (hcommits.perm hfree hA'.commits).mem_iff.mp hmem
      have htotal : ∀ x, account.total x ≤ (middle.holdings x).toNat := by
        intro x
        have hpart := total_le_supply_unescaped hmem' hfirst x
        have hall := hheld x
        omega
      have hleft := escapeWithdraw_available context hcommits hmem
        hbefore.escapeMode hfirst hid htotal hproof houtcomes
      rcases hleft with ⟨world', hworld'⟩
      have hstep : step self middle call = world' := by
        simp only [step, call, exec, nonReentrant_notEntered, hworld']
      rw [hstep, (escapeWithdraw_spec hworld').paid.kept.escaped]
      exact Function.update_self ..
  refine ⟨hafter.escaped _ hescaped, fun asset => ?_⟩
  -- what was paid is what the committed set says
  have hsound : EscapesSound _ (escapes self start _) :=
    escapesSound_run hfree initialStateRoot initialBatchId holdings
      (transactions ++ before ++ call :: after)
  have hrun : run self start (transactions ++ before ++ call :: after) = final := by
    rw [hfinal, hmiddle]
    simp only [run, List.foldl_append, List.foldl_cons]
  rw [hrun] at hsound
  have hcommits : Commits A final.storage.stateRoot := by
    rw [hafter.stateRoot, hcall.stateRoot, hbefore.stateRoot]
    exact hA
  rw [hsound.paid A hcommits account.id ((hsound.marked _).mp (hafter.escaped _ hescaped)),
    holding_eq_total hA.nodup hmem]

/-- In escape mode every committed account that is not the contract itself leaves with all its
balances: its call, with the side nodes that the account tree builds for it, succeeds wherever it
stands among the transactions of others when its transfers are made, unless the account has escaped
before; and at the end the account has received exactly what the committed set says. -/
theorem everyone_can_escape (hfree : CollisionFree B256) (hverifier : VerifierSound self)
    {A₀ : List Account} {initialStateRoot : B256} (hgenesis : computeRoot A₀ = .ok initialStateRoot)
    {holdings : Address → U256} (hcovered : ∀ asset, supply A₀ asset ≤ (holdings asset).toNat)
    (initialBatchId : U64) (transactions : List (Context × Call B256)) :
    let world := run self (genesis initialStateRoot initialBatchId holdings) transactions
    world.storage.escapeMode = true → ∀ A, computeRoot A = .ok world.storage.stateRoot →
      ∀ account : Account, account ∈ A → account.id ≠ self.EXCHANGE_ID →
        ∃ proof : StateMultiproof B256, buildMultiproof A [account.id] = .ok proof ∧
          ∀ (context : Context) (outcomes : Nat → Delivery B256), (∀ index, (outcomes index).Made) →
          ∀ before after : List (Context × Call B256),
            let final := run self world (before ++ (context, .escapeWithdraw account.id
              account.nextNonce account.balances proof.sideNodes outcomes) :: after)
            final.storage.escaped account.id = true ∧
              ∀ asset, transferred final .escape account.id asset = account.total asset := by
  intro world hactive
  exact everyoneLeaves_run hfree hverifier hgenesis hcovered initialBatchId transactions hactive

end

/-- The user of the small exchange leaves in escape mode, after an attempt of the fee recipient
that fails and before a deposit of another account. -/
theorem everyone_can_escape_testEscape :
    let world := run testContract (genesis testRoot 0 testHoldings) (testEscape.take 2)
    ∃ proof : StateMultiproof IdealDigest,
      buildMultiproof testAccounts [FixedBytes.replicate 20 2] = .ok proof ∧
        let final := run testContract world
          ([(testContext 1 205,
              .escapeWithdraw (FixedBytes.replicate 20 1) 7 [] [] fun _ => .failed [])]
            ++ (testContext 2 210, .escapeWithdraw (FixedBytes.replicate 20 2) 3
              [⟨FixedBytes.replicate 20 7, 5⟩] proof.sideNodes fun _ => .delivered []) ::
            [(testContext 3 220,
              .depositToken 0 (FixedBytes.replicate 20 7) 4 (.delivered []))])
        final.storage.escaped (FixedBytes.replicate 20 2) = true ∧
          transferred final .escape (FixedBytes.replicate 20 2) (FixedBytes.replicate 20 7) =
            5 := by
  intro world
  have hroot : computeRoot testAccounts = .ok testRoot := by decide +kernel
  have hactive : world.storage.escapeMode = true := by decide +kernel
  have hcommitted : computeRoot testAccounts = .ok world.storage.stateRoot := by decide +kernel
  have h := everyone_can_escape IdealDigest.collisionFree verifierSound_testContract hroot
    supply_testAccounts 0 (testEscape.take 2) hactive testAccounts hcommitted
    ⟨FixedBytes.replicate 20 2, [⟨FixedBytes.replicate 20 7, 5⟩], 3⟩ (by decide) (by decide)
  rcases h with ⟨proof, hproof, hleft⟩
  refine ⟨proof, hproof, ?_⟩
  have hfinal := hleft (testContext 2 210) (fun _ => .delivered []) (fun _ => trivial)
    [(testContext 1 205, .escapeWithdraw (FixedBytes.replicate 20 1) 7 [] [] fun _ => .failed [])]
    [(testContext 3 220, .depositToken 0 (FixedBytes.replicate 20 7) 4 (.delivered []))]
  exact ⟨hfinal.1, hfinal.2 (FixedBytes.replicate 20 7)⟩

end Contract

end ZkClob
