import ZkClob.Contracts.Accounting

/-!
# What a transaction does

A transaction does one of five things to the contract: it leaves the books and queues
alone, queues a deposit, delivers a credit, lets an account escape, or settles a batch.
This module says once and completely what each of them changes; a reverted call is of the
first kind.

Main results:

- Theorem {lit}`Contract.settle_spec`: the checks that a settled batch has passed, and what
  settling it changes.
- Theorem {lit}`Contract.escapeWithdraw_spec`: the same for an escape.
- Theorem {lit}`Contract.step_effect`: every transaction has one of the five effects.
-/

namespace ZkClob

open Foundations

namespace Contract

variable {B256 : Type} {self : Immutables B256} {context : Context} {world world' : World B256}

/-! ## Deposits -/

/-- A queued deposit: its amount came in and is recorded behind the queue. -/
structure DepositMade (world world' : World B256) (account asset : Address)
    (amount : U128) : Prop where
  positive : amount ≠ 0
  next : world'.storage.nextDepositId.toNat = world.storage.nextDepositId.toNat + 1
  kept : Kept { world.storage with
    nextDepositId := world'.storage.nextDepositId
    deposits := Function.update world.storage.deposits world.storage.nextDepositId
      ⟨account, asset, amount⟩ } world'.storage
  pending : world'.storage.pendingWithdrawals = world.storage.pendingWithdrawals
  transfers : world'.transfers =
    world.transfers ++ [⟨.deposit, account, asset, amount.setWidth 256⟩]
  accounted : Accounted world world'

/-- An amount that fits is not cut down. -/
theorem setWidth_setWidth_amount {amount : U256} (h : amount.toNat ≤ 2 ^ 128 - 1) :
    (amount.setWidth 128).setWidth 256 = amount := by
  apply BitVec.eq_of_toNat_eq
  rw [BitVec.toNat_setWidth, BitVec.toNat_setWidth, Nat.mod_eq_of_lt (a := amount.toNat) (by omega),
    Nat.mod_eq_of_lt amount.isLt]

/-- Queueing a deposit after its amount has come in. -/
theorem queueDeposit_spec {middle : World B256} {account asset : Address} {amount : U256}
    {depositId : U64} (hkept : Kept world.storage middle.storage)
    (hpending : middle.storage.pendingWithdrawals = world.storage.pendingWithdrawals)
    (htransfers : middle.transfers = world.transfers ++ [⟨.deposit, account, asset, amount⟩])
    (hholdings : ∀ x, (world.holdings x).toNat + (if asset = x then amount.toNat else 0) ≤
      (middle.holdings x).toNat)
    (h : queueDeposit account asset amount middle = .ok (depositId, world')) :
    DepositMade world world' account asset (amount.setWidth 128) := by
  simp only [queueDeposit, validateDepositAmount, Outcome.bind_eq_ok, Outcome.rejectIf_eq_ok,
    Outcome.expect_eq_ok, FixedWidth.checkedAdd_eq_some, Except.ok.injEq, Prod.mk.injEq, not_lt,
    gt_iff_lt] at h
  rcases h with ⟨_, ⟨_, hpositive, hfits⟩, next, hnext, _, rfl⟩
  have hwidth := setWidth_setWidth_amount hfits
  have hgrow : next.toNat = middle.storage.nextDepositId.toNat + 1 := by simpa using hnext
  rw [hkept.nextDepositId] at hgrow
  refine ⟨fun hzero => hpositive ?_, hgrow, ?_, hpending, ?_, fun x => ?_⟩
  · rw [← hwidth, hzero]
    rfl
  · rw [← hkept.nextDepositId, ← hkept.deposits]
    exact ⟨hkept.stateRoot, hkept.nextBatchId, rfl, hkept.nextUnprocessedDeposit, rfl,
      hkept.nextUnprocessedForcedWithdrawal, hkept.escaped, hkept.nextForcedWithdrawalId,
      hkept.requests, hkept.escapeMode⟩
  · rw [hwidth]
    exact htransfers
  · have hx := hholdings x
    simp only [outgoing, transferredTotal, World.emit, htransfers, tally_append, tally_cons,
      tally_nil, true_and, decide_eq_true_eq, reduceCtorEq, false_and, decide_false, if_false]
    omega

/-- A deposit of native ether. -/
theorem deposit_spec {value : U256} {depositId : U64}
    (h : deposit context value world = .ok (depositId, world')) :
    DepositMade world world' context.sender address0 (value.setWidth 128) := by
  simp only [deposit, Outcome.bind_eq_ok, Outcome.expect_eq_ok, FixedWidth.checkedAdd_eq_some] at h
  rcases h with ⟨total, htotal, h⟩
  refine queueDeposit_spec ?_ ?_ ?_ (fun x => ?_) h
  · exact Kept.refl _
  · rfl
  · rfl
  · by_cases hx : x = address0
    · subst hx
      simp only [Function.update_self, if_true, htotal, le_refl]
    · simp only [Function.update_of_ne hx, if_neg (Ne.symm hx), Nat.add_zero, le_refl]

/-- A deposit of a token: what the balance shows has come in. -/
theorem depositToken_spec {value amount : U256} {token : Address} {delivery : Delivery B256}
    {depositId : U64}
    (h : depositToken self context value token amount delivery world = .ok (depositId, world')) :
    DepositMade world world' context.sender token (amount.setWidth 128) := by
  simp only [depositToken, Outcome.bind_eq_ok, Outcome.expect_eq_ok, Outcome.rejectIf_eq_ok,
    FixedWidth.checkedSub_eq_some, not_not] at h
  rcases h with ⟨_, _, _, _, _, _, middle, hmiddle, _, _, received, hreceived, _, hamount, h⟩
  subst hamount
  unfold safeTransferFrom at hmiddle
  cases delivery with
  | failed callbacks => cases hmiddle
  | delivered callbacks =>
      simp only [Outcome.bind_eq_ok, Except.ok.injEq] at hmiddle
      rcases hmiddle with ⟨total, _, hmiddle⟩
      have hcalls : Undisturbed _ middle := hmiddle ▸ callbacks_undisturbed callbacks _
      refine queueDeposit_spec hcalls.kept hcalls.pending hcalls.transfers (fun x => ?_) h
      by_cases hx : x = token
      · subst hx
        rw [if_pos rfl, hreceived]
      · have hothers := hcalls.holdings x
        rw [if_neg (Ne.symm hx)]
        dsimp only at hothers
        split at hothers
        · exact hothers
        · rwa [Function.update_of_ne hx] at hothers

/-! ## Claims and escapes -/

/-- A credit that is claimed is delivered: what is owed stays the same. -/
theorem withdrawPending_spec {account asset : Address} {delivery : Delivery B256}
    (h : withdrawPending self context account asset delivery world = .ok world') :
    Paid world world' (fun _ _ => 0) fun _ _ => 0 := by
  simp only [withdrawPending, Outcome.bind_eq_ok] at h
  rcases h with ⟨_, _, h⟩
  split at h
  · rename_i hsent
    cases h
    have hpaid := (attemptTransfer_true hsent).payout.emit (.PendingWithdrawalClaimed account asset
      (world.storage.pendingWithdrawals account asset))
    refine ⟨hpaid.kept.of_pending, hpaid.accounted, fun r x => ?_, hpaid.escapes, hpaid.deposits⟩
    have hr := hpaid.payouts r x
    rw [hr]
    simp only [transferred, single]
    by_cases hparty : r = account
    · subst hparty
      rw [Function.update_self]
      by_cases hx : x = asset
      · subst hx
        simp
      · simp [Function.update_of_ne hx, Ne.symm hx]
    · simp [Function.update_of_ne hparty, Ne.symm hparty]
  · cases h

section

variable [DecidableEq B256] [Sha256 B256] [MathLibrary]

/-- An escape: it was open to the account, its proof led to the state root, and the listed
balances are paid. -/
structure EscapeMade (world world' : World B256) (id : Address) (nextNonce : U64)
    (balances : List AssetBalance) (sideNodes : List (PatriciaProof.SideNode B256)) : Prop where
  active : world.storage.escapeMode = true
  first : world.storage.escaped id = false
  proof : PatriciaProof.verifyAccount id nextNonce balances sideNodes = .ok world.storage.stateRoot
  paid : Paid { world with storage :=
    { world.storage with escaped := Function.update world.storage.escaped id true } } world'
    (fun _ _ => 0) (escapedBalances id balances)

theorem escapeWithdraw_spec {id : Address} {nextNonce : U64} {balances : List AssetBalance}
    {sideNodes : List (PatriciaProof.SideNode B256)} {outcomes : Nat → Delivery B256}
    (h : escapeWithdraw self context id nextNonce balances sideNodes outcomes world = .ok world') :
    EscapeMade world world' id nextNonce balances sideNodes := by
  simp only [escapeWithdraw, Outcome.bind_eq_ok, Outcome.rejectIf_eq_ok, Outcome.mapError_eq_ok,
    not_not, Bool.not_eq_true] at h
  rcases h with ⟨_, hactive, _, hfirst, reconstructed, hproof, _, hroot, h⟩
  subst hroot
  exact ⟨by simpa using hactive, hfirst, hproof, executeEscapeWithdrawal_spec h⟩

end

/-! ## Batches -/

/-- What {lit}`settle` is called with, apart from the proof. -/
structure SettleCall (B256 : Type) where
  publicValues : List B256
  withdrawals : List Withdrawal
  forcedWithdrawals : List ForcedWithdrawal

/-- What the calldata of a batch owes to a recipient. -/
def SettleCall.owed (call : SettleCall B256) (recipient asset : Address) : Nat :=
  withdrawalsTo call.withdrawals recipient asset +
    forcedWithdrawalsTo call.forcedWithdrawals recipient asset

/-- What settling the checked batch does. -/
theorem applySettlement_spec {output : PublicOutput B256} {withdrawals : List Withdrawal}
    {forcedWithdrawals : List ForcedWithdrawal} {cursor : U64} {outcomes : Nat → Delivery B256}
    (h : applySettlement self context output withdrawals forcedWithdrawals cursor outcomes world =
      .ok world') :
    Paid { world with storage := { world.storage with
        stateRoot := output.newStateRoot
        nextUnprocessedDeposit := output.newDepositCursor
        nextUnprocessedForcedWithdrawal := cursor
        nextBatchId := world.storage.nextBatchId + 1 } } world'
      (fun r x => withdrawalsTo withdrawals r x + forcedWithdrawalsTo forcedWithdrawals r x)
      fun _ _ => 0 := by
  simp only [applySettlement, Outcome.bind_eq_ok, Except.ok.injEq] at h
  rcases h with ⟨middle, hwithdrawals, paid, hforced, rfl⟩
  exact ((executeWithdrawals_spec hwithdrawals).trans
    (executeForcedWithdrawals_spec hforced)).emit _

/-- What the checks of the public values say. -/
theorem decodeAndValidatePublicOutput_spec [DecidableEq B256] [Bytes32 B256]
    {publicValues : List B256} {output : PublicOutput B256}
    (h : decodeAndValidatePublicOutput self context world.storage publicValues = .ok output) :
    abiDecode publicValues = .ok output ∧ output.configHash = self.CONFIG_HASH ∧
      output.oldStateRoot = world.storage.stateRoot ∧
      output.oldDepositCursor = world.storage.nextUnprocessedDeposit ∧
      (output.oldDepositCursor.toNat ≤ output.newDepositCursor.toNat ∧
        output.newDepositCursor.toNat ≤ world.storage.nextDepositId.toNat) ∧
      output.oldForcedWithdrawalCursor = world.storage.nextUnprocessedForcedWithdrawal := by
  simp only [decodeAndValidatePublicOutput, Outcome.bind_eq_ok, Outcome.rejectIf_eq_ok,
    Except.ok.injEq, not_not, not_or, gt_iff_lt, BitVec.not_lt, BitVec.le_def] at h
  rcases h with ⟨_, _, decoded, hdecoded, _, _, _, _, _, _, _, hconfig, _, _, _, hroot, _, hdeposit,
    _, hadvance, _, hforced, rfl⟩
  exact ⟨hdecoded, hconfig, hroot, hdeposit, hadvance, hforced⟩

section

variable [DecidableEq B256] [Bytes32 B256] [Sha256 B256] [ISP1Verifier B256]

/-- A settled batch: its public values fit the storage, the queues and the calldata, its proof was
verified, and its payouts were made. -/
structure BatchMade (contract : Immutables B256) (world world' : World B256)
    (call : SettleCall B256)
    (output : PublicOutput B256) (cursor : U64) : Prop where
  running : world.storage.escapeMode = false
  decoded : abiDecode call.publicValues = .ok output
  verified : ∃ proof,
    ISP1Verifier.verifyProof contract.VERIFIER contract.PROGRAM_VKEY call.publicValues proof = true
  configHash : output.configHash = contract.CONFIG_HASH
  oldStateRoot : output.oldStateRoot = world.storage.stateRoot
  oldDepositCursor : output.oldDepositCursor = world.storage.nextUnprocessedDeposit
  newDepositCursor : output.oldDepositCursor.toNat ≤ output.newDepositCursor.toNat ∧
    output.newDepositCursor.toNat ≤ world.storage.nextDepositId.toNat
  oldForcedWithdrawalCursor :
    output.oldForcedWithdrawalCursor = world.storage.nextUnprocessedForcedWithdrawal
  newForcedWithdrawalCursor : cursor.toNat =
    output.oldForcedWithdrawalCursor.toNat + call.forcedWithdrawals.length % 2 ^ 64
  forcedWithdrawalCursorLe : cursor.toNat ≤ world.storage.nextForcedWithdrawalId.toNat
  consumedDeposits : hashDeposits world.storage output.oldDepositCursor output.newDepositCursor =
    .ok output.consumedDepositsHash
  consumedRequests : hashForcedWithdrawalRequests world.storage output.oldForcedWithdrawalCursor
    cursor = .ok output.consumedForcedWithdrawalsHash
  withdrawals : hashWithdrawals B256 call.withdrawals = output.withdrawalsHash
  forcedWithdrawals : hashForcedWithdrawals B256 call.forcedWithdrawals =
    output.forcedWithdrawalsHash
  paid : Paid { world with storage := { world.storage with
      stateRoot := output.newStateRoot
      nextUnprocessedDeposit := output.newDepositCursor
      nextUnprocessedForcedWithdrawal := cursor
      nextBatchId := world.storage.nextBatchId + 1 } } world' call.owed fun _ _ => 0

theorem settle_spec {publicValues : List B256} {proof : Bytes} {withdrawals : List Withdrawal}
    {forcedWithdrawals : List ForcedWithdrawal} {outcomes : Nat → Delivery B256}
    (h : settle self context publicValues proof withdrawals forcedWithdrawals outcomes world =
      .ok world') :
    ∃ output cursor, BatchMade self world world'
      ⟨publicValues, withdrawals, forcedWithdrawals⟩ output
      cursor := by
  simp only [settle, validateForcedWithdrawalCursor, validateConsumedInputs, validateWithdrawals,
    Outcome.bind_eq_ok, Outcome.rejectIf_eq_ok, Outcome.expect_eq_ok, FixedWidth.checkedAdd_eq_some,
    Except.ok.injEq, not_not, Bool.not_eq_true, gt_iff_lt, BitVec.not_lt, BitVec.le_def,
    BitVec.toNat_ofNat] at h
  rcases h with ⟨_, hrunning, output, houtput, _, ⟨cursor, hcursor, _, hcursorLe, rfl⟩, _,
    ⟨_, hdeposits, _, rfl, _, hrequests, rfl⟩, _, ⟨_, hwithdrawals, hforced⟩, _, hverified, h⟩
  rcases decodeAndValidatePublicOutput_spec houtput with
    ⟨hdecoded, hconfig, hroot, hdeposit, hadvance, hrequest⟩
  exact ⟨output, cursor, {
    running := hrunning
    decoded := hdecoded
    verified := ⟨proof, by simpa using hverified⟩
    configHash := hconfig
    oldStateRoot := hroot
    oldDepositCursor := hdeposit
    newDepositCursor := hadvance
    oldForcedWithdrawalCursor := hrequest
    newForcedWithdrawalCursor := hcursor
    forcedWithdrawalCursorLe := hcursorLe
    consumedDeposits := hdeposits
    consumedRequests := hrequests
    withdrawals := hwithdrawals
    forcedWithdrawals := hforced
    paid := applySettlement_spec h }⟩

end

/-! ## Transactions -/

section

variable [DecidableEq B256] [Bytes32 B256] [Sha256 B256] [MathLibrary] [ISP1Verifier B256]

/-- The batch that a transaction settles, if it does. -/
def settledCalls (self : Immutables B256) (world : World B256) (transaction : Context × Call B256) :
    List (SettleCall B256) :=
  match transaction.2 with
  | .settle publicValues _ withdrawals forcedWithdrawals _ =>
      if (exec self transaction.1 world transaction.2).isOk then
        [⟨publicValues, withdrawals, forcedWithdrawals⟩]
      else []
  | _ => []

/-- The account that a transaction lets escape, if it does. -/
def escapedAccounts (self : Immutables B256) (world : World B256)
    (transaction : Context × Call B256) : List Address :=
  match transaction.2 with
  | .escapeWithdraw id _ _ _ _ =>
      if (exec self transaction.1 world transaction.2).isOk then [id] else []
  | _ => []

/-- What a transaction does, with the batch that it settles and the account that it lets
escape. -/
inductive Effect (self : Immutables B256) (world world' : World B256) :
    List (SettleCall B256) → List Address → Prop where
  | undisturbed (h : Undisturbed world world') : Effect self world world' [] []
  | deposit {account asset : Address} {amount : U128}
      (h : DepositMade world world' account asset amount) : Effect self world world' [] []
  | claim (h : Paid world world' (fun _ _ => 0) fun _ _ => 0) : Effect self world world' [] []
  | escape {id : Address} {nextNonce : U64} {balances : List AssetBalance}
      {sideNodes : List (PatriciaProof.SideNode B256)}
      (h : EscapeMade world world' id nextNonce balances sideNodes) :
        Effect self world world' [] [id]
  | settle {call : SettleCall B256} {output : PublicOutput B256} {cursor : U64}
      (h : BatchMade self world world' call output cursor) : Effect self world world' [call] []

/-- Every transaction has one of the effects. -/
theorem step_effect (self : Immutables B256) (world : World B256)
    (transaction : Context × Call B256) :
    Effect self world (step self world transaction) (settledCalls self world transaction)
      (escapedAccounts self world transaction) := by
  rcases transaction with ⟨context, call⟩
  cases hexec : exec self context world call with
  | error fault =>
      have hsettled : settledCalls self world (context, call) = [] := by
        cases call <;> simp [settledCalls, hexec, Except.isOk, Except.toBool]
      have hescaped : escapedAccounts self world (context, call) = [] := by
        cases call <;> simp [escapedAccounts, hexec, Except.isOk, Except.toBool]
      rw [hsettled, hescaped, step, hexec]
      exact .undisturbed (Undisturbed.refl world)
  | ok world' =>
      have hok : (exec self context world call).isOk = true := by rw [hexec]; rfl
      rw [step, hexec]
      dsimp only
      cases call with
      | deposit value =>
          simp only [exec, nonReentrant_notEntered, Outcome.bind_eq_ok, Prod.exists,
            Except.ok.injEq] at hexec
          rcases hexec with ⟨depositId, _, hdeposit, rfl⟩
          exact .deposit (deposit_spec hdeposit)
      | depositToken value token amount delivery =>
          simp only [exec, nonReentrant_notEntered, Outcome.bind_eq_ok, Prod.exists,
            Except.ok.injEq] at hexec
          rcases hexec with ⟨depositId, _, hdeposit, rfl⟩
          exact .deposit (depositToken_spec hdeposit)
      | requestForcedWithdrawal asset amount =>
          simp only [exec, Outcome.bind_eq_ok, Prod.exists, Except.ok.injEq] at hexec
          rcases hexec with ⟨requestId, _, hrequest, rfl⟩
          exact .undisturbed (requestForcedWithdrawal_undisturbed hrequest)
      | activateEscapeMode => exact .undisturbed (activateEscapeMode_undisturbed hexec)
      | escapeWithdraw id nextNonce balances sideNodes outcomes =>
          simp only [settledCalls, escapedAccounts, hok, if_true]
          exact .escape (escapeWithdraw_spec hexec)
      | withdrawPending account asset delivery => exact .claim (withdrawPending_spec hexec)
      | settle publicValues proof withdrawals forcedWithdrawals outcomes =>
          simp only [settledCalls, escapedAccounts, hok, if_true]
          rcases settle_spec hexec with ⟨output, cursor, hbatch⟩
          exact .settle hbatch
      | receive asset amount =>
          cases hexec
          exact .undisturbed (receive_undisturbed asset amount world)

/-- The contract as it was deployed, with what it holds from the start. -/
def genesis (initialStateRoot : B256) (initialBatchId : U64) (holdings : Address → U256) :
    World B256 where
  storage := initialStorage initialStateRoot initialBatchId
  holdings := holdings
  transfers := []
  events := []

/-- The batches that a run settles. -/
def settlements (self : Immutables B256) (world : World B256)
    (transactions : List (Context × Call B256)) : List (SettleCall B256) :=
  history (step self) (settledCalls self) world transactions

/-- The accounts that a run lets escape. -/
def escapes (self : Immutables B256) (world : World B256)
    (transactions : List (Context × Call B256)) : List Address :=
  history (step self) (escapedAccounts self) world transactions

end

end Contract

end ZkClob
