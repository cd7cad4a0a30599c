import ZkClob.Contracts.Effects
import ZkClob.Foundations.Journals

/-!
# The event log

Whoever watches the contract from outside sees its events.  An observer that keeps a ledger of
its own and checks every event against it can follow the contract through any run: no event is
ever out of place, and the ledger shows the committed root, both queues, the escape flag, the
credits and all that was delivered.  The log does not show the cursors of the queues, nor an
account that escapes without a balance.

Main results:

- Definition {lit}`Contract.Ledger.record`: what an observer makes of an event.
- Theorem {lit}`Contract.exec_logged`: a transaction writes what the observer accepts.
- Theorem {lit}`Contract.events_replay`: the log of every run replays to what the contract holds.
- Theorem {lit}`Contract.requests_positive`: every queued request is for a positive amount.
-/

namespace ZkClob

open Foundations

namespace Contract

variable {B256 : Type}

/-! ## The observer -/

/-- What an observer of the events knows. -/
structure Ledger (B256 : Type) where
  stateRoot : B256
  nextBatchId : U64
  nextDepositId : U64
  deposits : U64 → Deposit
  nextForcedWithdrawalId : U64
  forcedWithdrawalRequests : U64 → ForcedWithdrawalRequest
  escapeMode : Bool
  pendingWithdrawals : Address → Address → U256
  delivered : Address → Address → Nat
  escapes : Address → Address → Nat

/-- An amount that was moved to a party is added to what it received. -/
def received (amounts : Address → Address → Nat) (party asset : Address) (amount : Nat) :
    Address → Address → Nat := fun r x => amounts r x + single party asset amount r x

/-- A credit is set. -/
def setPending (pending : Address → Address → U256) (account asset : Address) (amount : U256) :
    Address → Address → U256 :=
  Function.update pending account (Function.update (pending account) asset amount)

/-- What an observer makes of an event; an event that does not fit the ledger is refused. -/
def Ledger.record [DecidableEq B256] (self : Ledger B256) : Event B256 → Option (Ledger B256)
  | .DepositQueued depositId account asset amount =>
      if depositId = self.nextDepositId ∧ amount ≠ 0 then
        some { self with
          nextDepositId := depositId + 1
          deposits := Function.update self.deposits depositId ⟨account, asset, amount⟩ }
      else none
  | .ForcedWithdrawalRequested id account asset amount deadline =>
      if id = self.nextForcedWithdrawalId ∧ amount ≠ 0 then
        some { self with
          nextForcedWithdrawalId := id + 1
          forcedWithdrawalRequests := Function.update self.forcedWithdrawalRequests id
            ⟨account, asset, amount, deadline⟩ }
      else none
  | .EscapeModeActivated requestId deadline =>
      if requestId < self.nextForcedWithdrawalId ∧
          (self.forcedWithdrawalRequests requestId).deadline = deadline then
        some { self with escapeMode := true }
      else none
  | .WithdrawalExecuted _ recipient asset amount _ =>
      some { self with delivered := received self.delivered recipient asset amount.toNat }
  | .ForcedWithdrawalExecuted account asset amount _ =>
      if amount ≠ 0 then
        some { self with delivered := received self.delivered account asset amount.toNat }
      else none
  | .WithdrawalPending account asset amount =>
      (FixedWidth.checkedAdd (self.pendingWithdrawals account asset) amount).map fun total =>
        { self with pendingWithdrawals := setPending self.pendingWithdrawals account asset total }
  | .PendingWithdrawalClaimed account asset amount =>
      if amount = self.pendingWithdrawals account asset ∧ amount ≠ 0 then
        some { self with
          pendingWithdrawals := setPending self.pendingWithdrawals account asset 0
          delivered := received self.delivered account asset amount.toNat }
      else none
  | .EscapeWithdrawn account asset amount =>
      if self.escapeMode = true ∧ amount ≠ 0 then
        some { self with escapes := received self.escapes account asset amount.toNat }
      else none
  | .BatchSettled batchId oldStateRoot newStateRoot _ _ =>
      if batchId = self.nextBatchId ∧ oldStateRoot = self.stateRoot then
        some { self with stateRoot := newStateRoot, nextBatchId := batchId + 1 }
      else none

/-- The queues and the escape flag of a world, with the rest of a ledger. -/
def World.ledgerWith (world : World B256) (stateRoot : B256) (nextBatchId : U64)
    (pendingWithdrawals : Address → Address → U256) (delivered escapes : Address → Address → Nat) :
    Ledger B256 where
  stateRoot
  nextBatchId
  nextDepositId := world.storage.nextDepositId
  deposits := world.storage.deposits
  nextForcedWithdrawalId := world.storage.nextForcedWithdrawalId
  forcedWithdrawalRequests := world.storage.forcedWithdrawalRequests
  escapeMode := world.storage.escapeMode
  pendingWithdrawals
  delivered
  escapes

/-- What the contract holds of the things that an observer knows. -/
def World.ledger (world : World B256) : Ledger B256 :=
  world.ledgerWith world.storage.stateRoot world.storage.nextBatchId
    world.storage.pendingWithdrawals (transferred world .payout) (transferred world .escape)

/-! ## What recipients log -/

variable [DecidableEq B256] {self : Immutables B256} {context : Context}
  {start : Ledger B256} {world world' : World B256} {stateRoot : B256} {nextBatchId : U64}
  {pendingWithdrawals : Address → Address → U256} {delivered escapes : Address → Address → Nat}

/-- The log has been followed to a ledger that shows the queues and the escape flag of the world;
in the middle of a transaction the rest may be behind or ahead. -/
def Logged (start : Ledger B256) (world : World B256) (stateRoot : B256) (nextBatchId : U64)
    (pendingWithdrawals : Address → Address → U256) (delivered escapes : Address → Address → Nat) :
    Prop :=
  Follows Ledger.record start world.events
    (world.ledgerWith stateRoot nextBatchId pendingWithdrawals delivered escapes)

/-- A checked successor is the sum. -/
theorem eq_add_of_checkedAdd {w : Nat} {a b c : BitVec w}
    (h : FixedWidth.checkedAdd a b = some c) : c = a + b := by
  rw [FixedWidth.checkedAdd_eq_some] at h
  apply BitVec.eq_of_toNat_eq
  rw [BitVec.toNat_add, ← h, Nat.mod_eq_of_lt c.isLt]

/-- A request is logged. -/
theorem requestForcedWithdrawal_logged {asset : Address} {amount : U128} {requestId : U64}
    (hlogged : Logged start world stateRoot nextBatchId pendingWithdrawals delivered escapes)
    (h : requestForcedWithdrawal self context asset amount world = .ok (requestId, world')) :
    Logged start world' stateRoot nextBatchId pendingWithdrawals delivered escapes := by
  simp only [requestForcedWithdrawal, Outcome.bind_eq_ok, Outcome.expect_eq_ok,
    Outcome.rejectIf_eq_ok, Except.ok.injEq, Prod.mk.injEq] at h
  rcases h with ⟨_, hpositive, next, hnext, deadline, _, _, rfl⟩
  apply hlogged.snoc
  simp only [Ledger.record, World.ledgerWith, World.emit, eq_add_of_checkedAdd hnext]
  rw [if_pos ⟨trivial, hpositive⟩]

/-- The activation of escape mode is logged. -/
theorem activateEscapeMode_logged
    (hlogged : Logged start world stateRoot nextBatchId pendingWithdrawals delivered escapes)
    (h : activateEscapeMode context world = .ok world') :
    Logged start world' stateRoot nextBatchId pendingWithdrawals delivered escapes := by
  simp only [activateEscapeMode, Outcome.bind_eq_ok, Outcome.rejectIf_eq_ok, ge_iff_le,
    BitVec.not_le, Except.ok.injEq] at h
  rcases h with ⟨_, hpending, _, _, rfl⟩
  apply hlogged.snoc
  simp only [Ledger.record, World.ledgerWith, World.emit]
  rw [if_pos ⟨hpending, trivial⟩]

/-- Assets that reach the contract leave the ledger alone. -/
theorem receive_logged {asset : Address} {amount : U256}
    (hlogged : Logged start world stateRoot nextBatchId pendingWithdrawals delivered escapes) :
    Logged start (receive asset amount world) stateRoot nextBatchId pendingWithdrawals delivered
      escapes := by
  unfold receive
  split
  · exact hlogged
  · exact hlogged

/-- What is called back during a transfer is logged. -/
theorem callbacks_logged
    (hlogged : Logged start world stateRoot nextBatchId pendingWithdrawals delivered escapes)
    (callbacks : List (Callback B256)) :
    Logged start (callbacksDuring self context callbacks world) stateRoot nextBatchId
      pendingWithdrawals delivered escapes := by
  apply run_invariant (P := fun world : World B256 => Logged start world stateRoot nextBatchId
    pendingWithdrawals delivered escapes)
  · intro world call hlogged
    cases call with
    | requestForcedWithdrawal sender asset amount =>
        unfold callback
        dsimp only
        split
        · rename_i requestId world' h
          exact requestForcedWithdrawal_logged hlogged h
        · exact hlogged
    | activateEscapeMode =>
        unfold callback
        dsimp only
        split
        · rename_i world' h
          exact activateEscapeMode_logged hlogged h
        · exact hlogged
    | guarded function => exact hlogged
    | receive asset amount => exact receive_logged hlogged
  · exact hlogged

/-! ## Transfers -/

variable {kind : TransferKind} {asset recipient : Address} {amount : U256}
  {delivery : Delivery B256} {sent : Bool}

omit [DecidableEq B256] in
/-- A recorded transfer adds to what was moved for its reason. -/
theorem MovedOut.transferred_eq (h : MovedOut world world' ⟨kind, recipient, asset, amount⟩) :
    transferred world' kind =
      received (transferred world kind) recipient asset amount.toNat := by
  funext r x
  simp only [transferred, received, single, h.transfers, tally_append, tally_cons, tally_nil,
    true_and, decide_eq_true_eq, Nat.add_zero]

omit [DecidableEq B256] in
/-- A recorded transfer adds nothing to what was moved for other reasons. -/
theorem MovedOut.transferred_of_ne (h : MovedOut world world' ⟨kind, recipient, asset, amount⟩)
    {other : TransferKind} (hkind : kind ≠ other) :
    transferred world' other = transferred world other := by
  funext r x
  simp [transferred, h.transfers, hkind]

/-- What happens during a transfer is logged; the transfer itself is not. -/
theorem moveOut_logged
    (hlogged : Logged start world stateRoot nextBatchId pendingWithdrawals delivered escapes)
    (h : moveOut self context kind asset recipient amount delivery world = (sent, world')) :
    Logged start world' stateRoot nextBatchId pendingWithdrawals delivered escapes := by
  unfold moveOut at h
  cases delivery with
  | failed callbacks =>
      rw [Prod.mk.injEq] at h
      rw [← h.2]
      exact callbacks_logged hlogged callbacks
  | delivered callbacks =>
      dsimp only at h
      split at h
      · cases h
        exact hlogged
      · rw [Prod.mk.injEq] at h
        rw [← h.2]
        refine callbacks_logged ?_ callbacks
        exact hlogged

theorem attemptTransfer_logged
    (hlogged : Logged start world stateRoot nextBatchId pendingWithdrawals delivered escapes)
    (h : attemptTransfer self context asset recipient amount delivery world = (sent, world')) :
    Logged start world' stateRoot nextBatchId pendingWithdrawals delivered escapes := by
  unfold attemptTransfer trySafeTransfer at h
  split at h
  · cases sent with
    | true => exact moveOut_logged hlogged (nativeCall_true h)
    | false =>
        rw [nativeCall_false h]
        exact hlogged
  · exact moveOut_logged hlogged h

/-! ## Payouts -/

/-- The log shows the credits and the deliveries of the world, and a root and a batch number that
the world may have left behind. -/
def PayoutsLogged (start : Ledger B256) (world : World B256) (stateRoot : B256)
    (nextBatchId : U64) : Prop :=
  Logged start world stateRoot nextBatchId world.storage.pendingWithdrawals
    (transferred world .payout) (transferred world .escape)

/-- A payout is logged, as executed or as pending. -/
theorem payOut_logged {amount : U128} {executed : Event B256}
    (hexecuted : ∀ ledger : Ledger B256, ledger.record executed = some { ledger with
      delivered := received ledger.delivered recipient asset amount.toNat })
    (hlogged : PayoutsLogged start world stateRoot nextBatchId)
    (h : payOut self context recipient asset amount executed delivery world = .ok world') :
    PayoutsLogged start world' stateRoot nextBatchId := by
  have hamount : (amount.setWidth 256).toNat = amount.toNat := by
    rw [BitVec.toNat_setWidth]
    exact Nat.mod_eq_of_lt (amount.isLt.trans (by norm_num))
  unfold payOut at h
  split at h
  · rename_i middle hsent
    cases h
    have hmoved := attemptTransfer_true hsent
    have hdelivered := hmoved.transferred_eq
    have hescapes : transferred middle .escape = transferred world .escape :=
      hmoved.transferred_of_ne (by decide)
    rw [hamount] at hdelivered
    -- the event tells what the transfer has already done
    apply (attemptTransfer_logged hlogged hsent).snoc
    rw [hexecuted]
    change some (middle.ledgerWith _ _ _ _ _) = some ((middle.emit executed).ledgerWith _ _
      middle.storage.pendingWithdrawals (transferred middle .payout) (transferred middle .escape))
    rw [hmoved.pending, hdelivered, hescapes]
    rfl
  · rename_i middle hfailed
    have hundisturbed := attemptTransfer_false hfailed
    have hmiddle : PayoutsLogged start middle stateRoot nextBatchId := by
      have hcalled := attemptTransfer_logged hlogged hfailed
      have htransfers : ∀ kind, transferred middle kind = transferred world kind := by
        intro kind
        funext r x
        rw [transferred, transferred, hundisturbed.transfers]
      rw [PayoutsLogged, hundisturbed.pending, htransfers, htransfers]
      exact hcalled
    simp only [creditPending, Outcome.bind_eq_ok, Outcome.expect_eq_ok, Except.ok.injEq] at h
    rcases h with ⟨_, ⟨total, htotal, rfl⟩, rfl⟩
    apply Follows.snoc hmiddle
    simp only [Ledger.record, World.ledgerWith, htotal, Option.map_some]
    rfl

variable {outcomes : Nat → Delivery B256} {index : Nat}

theorem executeWithdrawals_logged {withdrawals : List Withdrawal}
    (hlogged : PayoutsLogged start world stateRoot nextBatchId)
    (h : executeWithdrawals self context outcomes index withdrawals world = .ok world') :
    PayoutsLogged start world' stateRoot nextBatchId := by
  induction withdrawals generalizing index world with
  | nil =>
      cases h
      exact hlogged
  | cons withdrawal rest ih =>
      simp only [executeWithdrawals, Outcome.bind_eq_ok] at h
      rcases h with ⟨middle, hpaid, hrest⟩
      exact ih (payOut_logged (fun _ => rfl) hlogged hpaid) hrest

theorem executeForcedWithdrawals_logged {forcedWithdrawals : List ForcedWithdrawal}
    (hlogged : PayoutsLogged start world stateRoot nextBatchId)
    (h : executeForcedWithdrawals self context outcomes index forcedWithdrawals world =
      .ok world') :
    PayoutsLogged start world' stateRoot nextBatchId := by
  induction forcedWithdrawals generalizing index world with
  | nil =>
      cases h
      exact hlogged
  | cons forcedWithdrawal rest ih =>
      unfold executeForcedWithdrawals at h
      split at h
      · exact ih hlogged h
      · rename_i hpositive
        rw [Outcome.bind_eq_ok] at h
        rcases h with ⟨middle, hpaid, hrest⟩
        have hmiddle : PayoutsLogged start middle stateRoot nextBatchId := by
          refine payOut_logged ?_ hlogged hpaid
          intro ledger
          exact if_pos hpositive
        exact ih hmiddle hrest

/-! ## Escapes -/

/-- A balance of an escape is logged. -/
theorem escapeTransfer_logged {id : Address} {balance : AssetBalance}
    (hactive : world.storage.escapeMode = true) (hpositive : balance.available ≠ 0)
    (hlogged : PayoutsLogged start world stateRoot nextBatchId)
    (h : escapeTransfer self context id balance delivery world = .ok world') :
    (world'.emit (.EscapeWithdrawn id balance.asset balance.available)).storage.escapeMode = true ∧
      PayoutsLogged start (world'.emit (.EscapeWithdrawn id balance.asset balance.available))
        stateRoot nextBatchId := by
  have hamount : (balance.available.setWidth 256).toNat = balance.available.toNat := by
    rw [BitVec.toNat_setWidth]
    exact Nat.mod_eq_of_lt (balance.available.isLt.trans (by norm_num))
  have hsent : moveOut self context .escape balance.asset id (balance.available.setWidth 256)
      delivery world = (true, world') := by
    unfold escapeTransfer safeTransfer trySafeTransfer at h
    dsimp only at h
    split at h
    · rename_i hasset
      split at h
      · rename_i middle hmiddle
        cases h
        rw [hasset]
        exact nativeCall_true hmiddle
      · cases h
    · split at h
      · rename_i middle hmiddle
        cases h
        exact hmiddle
      · cases h
  have hmoved := moveOut_true hsent
  have hescapes := hmoved.transferred_eq
  have hdelivered : transferred world' .payout = transferred world .payout :=
    hmoved.transferred_of_ne (by decide)
  rw [hamount] at hescapes
  have hactive' := hmoved.kept.escapeMode hactive
  refine ⟨hactive', ?_⟩
  apply (moveOut_logged hlogged hsent).snoc
  have hrecord : Ledger.record (world'.ledgerWith stateRoot nextBatchId
      world.storage.pendingWithdrawals (transferred world .payout) (transferred world .escape))
      (.EscapeWithdrawn id balance.asset balance.available) =
      some (world'.ledgerWith stateRoot nextBatchId world.storage.pendingWithdrawals
        (transferred world .payout) (received (transferred world .escape) id balance.asset
          balance.available.toNat)) :=
    if_pos ⟨hactive', hpositive⟩
  rw [hrecord, ← hdelivered, ← hescapes, ← hmoved.pending]
  rfl

theorem executeEscapeWithdrawal_logged {id : Address} {balances : List AssetBalance}
    (hactive : world.storage.escapeMode = true)
    (hlogged : PayoutsLogged start world stateRoot nextBatchId)
    (h : executeEscapeWithdrawal self context outcomes index id balances world = .ok world') :
    PayoutsLogged start world' stateRoot nextBatchId := by
  induction balances generalizing index world with
  | nil =>
      cases h
      exact hlogged
  | cons balance rest ih =>
      unfold executeEscapeWithdrawal at h
      split at h
      · exact ih hactive hlogged h
      · rename_i hpositive
        rw [Outcome.bind_eq_ok] at h
        rcases h with ⟨middle, hpaid, hrest⟩
        rcases escapeTransfer_logged hactive hpositive hlogged hpaid with ⟨hactive', hlogged'⟩
        exact ih hactive' hlogged' hrest

/-! ## Transactions -/

/-- The log shows all that an observer can know of the world. -/
def FullyLogged (start : Ledger B256) (world : World B256) : Prop :=
  Follows Ledger.record start world.events world.ledger

/-- A queued deposit is logged. -/
theorem queueDeposit_logged {account asset : Address} {amount : U256} {depositId : U64}
    (hlogged : Logged start world stateRoot nextBatchId pendingWithdrawals delivered escapes)
    (h : queueDeposit account asset amount world = .ok (depositId, world')) :
    Logged start world' stateRoot nextBatchId pendingWithdrawals delivered escapes := by
  simp only [queueDeposit, validateDepositAmount, Outcome.bind_eq_ok, Outcome.rejectIf_eq_ok,
    Outcome.expect_eq_ok, Except.ok.injEq, Prod.mk.injEq, gt_iff_lt, not_lt] at h
  rcases h with ⟨_, ⟨_, hpositive, hfits⟩, next, hnext, _, rfl⟩
  have hamount : amount.setWidth 128 ≠ 0 := by
    intro hzero
    apply hpositive
    rw [← setWidth_setWidth_amount hfits, hzero]
    rfl
  apply hlogged.snoc
  simp only [Ledger.record, World.ledgerWith, World.emit, eq_add_of_checkedAdd hnext]
  rw [if_pos ⟨trivial, hamount⟩]

/-- What a deposit leaves alone. -/
theorem DepositMade.fullyLogged {account asset : Address} {amount : U128}
    (h : DepositMade world world' account asset amount)
    (hlogged : Logged start world' world.storage.stateRoot world.storage.nextBatchId
      world.storage.pendingWithdrawals (transferred world .payout) (transferred world .escape)) :
    FullyLogged start world' := by
  have hroot : world'.storage.stateRoot = world.storage.stateRoot := h.kept.stateRoot
  have hbatch : world'.storage.nextBatchId = world.storage.nextBatchId := h.kept.nextBatchId
  have hpayouts : transferred world' .payout = transferred world .payout := by
    funext r x
    simp [transferred, h.transfers]
  have hescapes : transferred world' .escape = transferred world .escape := by
    funext r x
    simp [transferred, h.transfers]
  rw [FullyLogged, World.ledger, hroot, hbatch, h.pending, hpayouts, hescapes]
  exact hlogged

/-- What leaves all but the requests and the escape flag alone. -/
theorem Undisturbed.fullyLogged (h : Undisturbed world world')
    (hlogged : Logged start world' world.storage.stateRoot world.storage.nextBatchId
      world.storage.pendingWithdrawals (transferred world .payout) (transferred world .escape)) :
    FullyLogged start world' := by
  have hkinds : ∀ kind, transferred world' kind = transferred world kind := by
    intro kind
    funext r x
    simp only [transferred, h.transfers]
  rw [FullyLogged, World.ledger, h.kept.stateRoot, h.kept.nextBatchId, h.pending, hkinds, hkinds]
  exact hlogged

/-- A claim is logged when it has been delivered. -/
theorem withdrawPending_logged {account asset : Address}
    (hlogged : FullyLogged start world)
    (h : withdrawPending self context account asset delivery world = .ok world') :
    FullyLogged start world' := by
  simp only [withdrawPending, Outcome.bind_eq_ok, Outcome.rejectIf_eq_ok] at h
  rcases h with ⟨_, hpositive, h⟩
  split at h
  · rename_i middle hsent
    cases h
    have hmoved := attemptTransfer_true hsent
    have hdelivered := hmoved.transferred_eq
    have hescapes : transferred middle .escape = transferred world .escape :=
      hmoved.transferred_of_ne (by decide)
    -- the observer still sees the credit while it is being delivered
    have hmiddle : Logged start middle world.storage.stateRoot world.storage.nextBatchId
        world.storage.pendingWithdrawals (transferred world .payout) (transferred world .escape) :=
      attemptTransfer_logged (by exact hlogged) hsent
    have hrecord : Ledger.record (middle.ledgerWith world.storage.stateRoot
        world.storage.nextBatchId world.storage.pendingWithdrawals (transferred world .payout)
        (transferred world .escape)) (.PendingWithdrawalClaimed account asset
          (world.storage.pendingWithdrawals account asset)) =
        some (middle.ledgerWith world.storage.stateRoot world.storage.nextBatchId
          (setPending world.storage.pendingWithdrawals account asset 0)
          (received (transferred world .payout) account asset
            (world.storage.pendingWithdrawals account asset).toNat)
          (transferred world .escape)) :=
      if_pos ⟨rfl, hpositive⟩
    have hledger : (middle.emit (.PendingWithdrawalClaimed account asset
        (world.storage.pendingWithdrawals account asset))).ledger =
        middle.ledgerWith world.storage.stateRoot world.storage.nextBatchId
          (setPending world.storage.pendingWithdrawals account asset 0)
          (received (transferred world .payout) account asset
            (world.storage.pendingWithdrawals account asset).toNat)
          (transferred world .escape) := by
      change middle.ledgerWith middle.storage.stateRoot middle.storage.nextBatchId
        middle.storage.pendingWithdrawals (transferred middle .payout)
        (transferred middle .escape) = _
      rw [hmoved.kept.stateRoot, hmoved.kept.nextBatchId, hmoved.pending, hdelivered, hescapes]
      rfl
    rw [FullyLogged, hledger]
    exact hmiddle.snoc hrecord
  · cases h

section

variable [Bytes32 B256] [Sha256 B256] [ISP1Verifier B256]

/-- A batch is logged after its payouts. -/
theorem settle_logged {publicValues : List B256} {proof : Bytes} {withdrawals : List Withdrawal}
    {forcedWithdrawals : List ForcedWithdrawal} (hlogged : FullyLogged start world)
    (h : settle self context publicValues proof withdrawals forcedWithdrawals outcomes world =
      .ok world') :
    FullyLogged start world' := by
  simp only [settle, decodeAndValidatePublicOutput, applySettlement, Outcome.bind_eq_ok,
    Outcome.rejectIf_eq_ok, not_not, Except.ok.injEq] at h
  rcases h with ⟨_, _, _, ⟨_, _, output, _, _, _, _, _, _, _, _, _, _, hbatch, _, hroot, _, _, _, _,
    _, _, rfl⟩, cursor, _, _, _, _, _, _, _, middle, hwithdrawals, paid, hforced, rfl⟩
  have hmiddle : PayoutsLogged start middle world.storage.stateRoot world.storage.nextBatchId := by
    refine executeWithdrawals_logged ?_ hwithdrawals
    exact hlogged
  have hpaid := executeForcedWithdrawals_logged hmiddle hforced
  have hkept := (executeWithdrawals_spec hwithdrawals).kept.trans
    (executeForcedWithdrawals_spec hforced).kept
  have hrecord : Ledger.record (paid.ledgerWith world.storage.stateRoot world.storage.nextBatchId
      paid.storage.pendingWithdrawals (transferred paid .payout) (transferred paid .escape))
      (.BatchSettled output.batchId output.oldStateRoot output.newStateRoot output.batchHash
        output.tradesHash) =
      some (paid.ledgerWith output.newStateRoot (output.batchId + 1)
        paid.storage.pendingWithdrawals (transferred paid .payout) (transferred paid .escape)) :=
    if_pos ⟨hbatch, hroot⟩
  have hledger : (paid.emit (.BatchSettled output.batchId output.oldStateRoot output.newStateRoot
      output.batchHash output.tradesHash)).ledger =
      paid.ledgerWith output.newStateRoot (output.batchId + 1) paid.storage.pendingWithdrawals
        (transferred paid .payout) (transferred paid .escape) := by
    change paid.ledgerWith paid.storage.stateRoot paid.storage.nextBatchId
      paid.storage.pendingWithdrawals (transferred paid .payout) (transferred paid .escape) = _
    rw [hkept.stateRoot, hkept.nextBatchId, hbatch]
  rw [FullyLogged, hledger]
  exact hpaid.snoc hrecord

variable [MathLibrary]

/-- A transaction writes what the observer accepts, and the observer ends with what the contract
holds. -/
theorem exec_logged {call : Call B256} (hlogged : FullyLogged start world)
    (h : exec self context world call = .ok world') : FullyLogged start world' := by
  cases call with
  | deposit value =>
      simp only [exec, nonReentrant_notEntered, Outcome.bind_eq_ok, Prod.exists,
        Except.ok.injEq] at h
      rcases h with ⟨depositId, _, hdeposit, rfl⟩
      refine (deposit_spec hdeposit).fullyLogged ?_
      simp only [deposit, Outcome.bind_eq_ok] at hdeposit
      rcases hdeposit with ⟨total, _, hqueued⟩
      refine queueDeposit_logged ?_ hqueued
      exact hlogged
  | depositToken value token amount delivery =>
      simp only [exec, nonReentrant_notEntered, Outcome.bind_eq_ok, Prod.exists,
        Except.ok.injEq] at h
      rcases h with ⟨depositId, _, hdeposit, rfl⟩
      refine (depositToken_spec hdeposit).fullyLogged ?_
      simp only [depositToken, Outcome.bind_eq_ok] at hdeposit
      rcases hdeposit with ⟨_, _, _, _, _, _, middle, hmiddle, _, _, _, _, _, _, hqueued⟩
      refine queueDeposit_logged ?_ hqueued
      unfold safeTransferFrom at hmiddle
      cases delivery with
      | failed callbacks => cases hmiddle
      | delivered callbacks =>
          simp only [Outcome.bind_eq_ok, Except.ok.injEq] at hmiddle
          rcases hmiddle with ⟨_, _, rfl⟩
          refine callbacks_logged ?_ callbacks
          exact hlogged
  | requestForcedWithdrawal asset amount =>
      simp only [exec, Outcome.bind_eq_ok, Prod.exists, Except.ok.injEq] at h
      rcases h with ⟨requestId, _, hrequest, rfl⟩
      refine (requestForcedWithdrawal_undisturbed hrequest).fullyLogged ?_
      exact requestForcedWithdrawal_logged hlogged hrequest
  | activateEscapeMode =>
      refine (activateEscapeMode_undisturbed h).fullyLogged ?_
      exact activateEscapeMode_logged hlogged h
  | escapeWithdraw id nextNonce balances sideNodes outcomes =>
      have hkept := (escapeWithdraw_spec h).paid.kept
      have hroot : world'.storage.stateRoot = world.storage.stateRoot := hkept.stateRoot
      have hbatch : world'.storage.nextBatchId = world.storage.nextBatchId := hkept.nextBatchId
      simp only [exec, nonReentrant_notEntered, escapeWithdraw, Outcome.bind_eq_ok,
        Outcome.rejectIf_eq_ok, Bool.not_eq_true, Bool.not_eq_false'] at h
      rcases h with ⟨_, hactive, _, _, _, _, _, _, hpaid⟩
      rw [FullyLogged, World.ledger, hroot, hbatch]
      refine executeEscapeWithdrawal_logged ?_ ?_ hpaid
      · exact hactive
      · exact hlogged
  | withdrawPending account asset delivery => exact withdrawPending_logged hlogged h
  | settle publicValues proof withdrawals forcedWithdrawals outcomes =>
      exact settle_logged hlogged h
  | receive asset amount =>
      cases h
      exact (receive_undisturbed asset amount world).fullyLogged (receive_logged hlogged)

/-- A run is logged. -/
theorem fullyLogged_run (self : Immutables B256) (initialStateRoot : B256) (initialBatchId : U64)
    (holdings : Address → U256) (transactions : List (Context × Call B256)) :
    FullyLogged (genesis initialStateRoot initialBatchId holdings : World B256).ledger
      (run self (genesis initialStateRoot initialBatchId holdings) transactions) := by
  apply run_invariant (P := fun world : World B256 =>
    FullyLogged (genesis initialStateRoot initialBatchId holdings).ledger world)
  · intro world transaction hlogged
    unfold step
    split
    · rename_i world' hexec
      exact exec_logged hlogged hexec
    · exact hlogged
  · exact Follows.nil _ _

/-- In every run the events are accepted one after the other by an observer that knows the
contract as it was deployed, and at the end the observer knows the committed root, the next batch
number, both queues, the escape flag, the credits, and all that was delivered to everyone. -/
theorem events_replay (self : Immutables B256) (initialStateRoot : B256) (initialBatchId : U64)
    (holdings : Address → U256) (transactions : List (Context × Call B256)) :
    let start := genesis initialStateRoot initialBatchId holdings
    let world := run self start transactions
    world.events.foldlM Ledger.record start.ledger = some world.ledger :=
  fullyLogged_run self initialStateRoot initialBatchId holdings transactions

/-! ## Queued amounts -/

omit [Bytes32 B256] [Sha256 B256] [MathLibrary] [ISP1Verifier B256] in
/-- What an observer records is a request for something. -/
theorem Ledger.record_positive {s s' : Ledger B256} {entry : Event B256}
    (h : ∀ id : U64, id.toNat < s.nextForcedWithdrawalId.toNat →
      (s.forcedWithdrawalRequests id).amount ≠ 0) (hrecord : s.record entry = some s') :
    ∀ id : U64, id.toNat < s'.nextForcedWithdrawalId.toNat →
      (s'.forcedWithdrawalRequests id).amount ≠ 0 := by
  cases entry with
  | ForcedWithdrawalRequested requestId account asset amount deadline =>
      simp only [record] at hrecord
      split at hrecord
      · rename_i hentry
        cases hrecord
        intro id hid
        by_cases hnew : id = requestId
        · subst hnew
          simp only [Function.update_self]
          exact hentry.2
        · simp only [Function.update_of_ne hnew]
          apply h id
          rw [hentry.1] at hid hnew
          have hne : id.toNat ≠ s.nextForcedWithdrawalId.toNat := fun heq =>
            hnew (BitVec.eq_of_toNat_eq heq)
          have hnext : (s.nextForcedWithdrawalId + 1).toNat ≤
              s.nextForcedWithdrawalId.toNat + 1 := by
            rw [BitVec.toNat_add]
            exact Nat.mod_le _ _
          change id.toNat < (s.nextForcedWithdrawalId + 1).toNat at hid
          omega
      · cases hrecord
  | WithdrawalPending account asset amount =>
      rcases Option.map_eq_some_iff.mp hrecord with ⟨total, _, rfl⟩
      exact h
  | WithdrawalExecuted account recipient asset amount nonce =>
      cases hrecord
      exact h
  | _ =>
      simp only [record] at hrecord
      split at hrecord
      · cases hrecord
        exact h
      · cases hrecord

/-- In every run the requested amounts are positive. -/
theorem requests_positive (self : Immutables B256) (initialStateRoot : B256) (initialBatchId : U64)
    (holdings : Address → U256) (transactions : List (Context × Call B256)) :
    let storage :=
      (run self (genesis initialStateRoot initialBatchId holdings) transactions).storage
    ∀ id : U64, id.toNat < storage.nextForcedWithdrawalId.toNat →
      (storage.forcedWithdrawalRequests id).amount ≠ 0 := by
  intro storage
  apply (fullyLogged_run self initialStateRoot initialBatchId holdings transactions).invariant
    (P := fun ledger => ∀ id : U64, id.toNat < ledger.nextForcedWithdrawalId.toNat →
      (ledger.forcedWithdrawalRequests id).amount ≠ 0)
  · intro id hid
    exact absurd hid (Nat.not_lt_zero _)
  · intro s entry s' h hrecord
    exact s.record_positive h hrecord

end

end Contract

end ZkClob
