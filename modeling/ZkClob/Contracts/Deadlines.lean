import ZkClob.Contracts.EscapeMode

/-!
# Deadlines of forced withdrawals

Escape mode looks at the oldest unprocessed request only.  A request may be made by a transaction,
or by a recipient while a batch pays it; in both cases its deadline is the time of the transaction
plus a fixed delay, and it is appended to the requests.  Where time does not run backwards, the
deadlines are therefore in the order of the requests, and no later request can be overdue before
the oldest one is.

Main results:

- Theorem {lit}`Contract.exec_appends`: all that a transaction does to the requests is to append
  some with the deadline of its time.
- Theorem {lit}`Contract.run_timely`: in every run in which time does not run backwards, the
  deadlines are in order.
- Theorem {lit}`Contract.escape_mode_iff_overdue`: escape mode can be activated exactly when some
  unprocessed request is overdue.
-/

namespace ZkClob

open Foundations

namespace Contract

variable {B256 : Type} {self : Immutables B256} {context : Context}

/-! ## What a transaction appends -/

/-- The deadline of a request that is made now. -/
def deadlineAt (self : Immutables B256) (timestamp : U256) : Nat :=
  (timestamp.setWidth 64).toNat + self.FORCED_WITHDRAWAL_DELAY.toNat

/-- Requests are only appended, each with the given deadline. -/
structure Appends (deadline : Nat) (storage storage' : Storage B256) : Prop where
  next : storage.nextForcedWithdrawalId.toNat ≤ storage'.nextForcedWithdrawalId.toNat
  kept : ∀ id : U64, id.toNat < storage.nextForcedWithdrawalId.toNat →
    storage'.forcedWithdrawalRequests id = storage.forcedWithdrawalRequests id
  appended : ∀ id : U64, storage.nextForcedWithdrawalId.toNat ≤ id.toNat →
    id.toNat < storage'.nextForcedWithdrawalId.toNat →
    (storage'.forcedWithdrawalRequests id).deadline.toNat = deadline

namespace Appends

variable {deadline : Nat} {storage storage' storage'' : Storage B256}

/-- A step that leaves the requests alone appends none. -/
theorem of_eq (hnext : storage'.nextForcedWithdrawalId = storage.nextForcedWithdrawalId)
    (hrequests : storage'.forcedWithdrawalRequests = storage.forcedWithdrawalRequests) :
    Appends deadline storage storage' := by
  refine ⟨le_of_eq (congrArg BitVec.toNat hnext.symm), fun id _ => congrFun hrequests id, ?_⟩
  intro id hge hlt
  rw [hnext] at hlt
  omega

theorem refl (storage : Storage B256) : Appends deadline storage storage :=
  of_eq rfl rfl

theorem trans (h : Appends deadline storage storage') (h' : Appends deadline storage' storage'') :
    Appends deadline storage storage'' := by
  refine ⟨h.next.trans h'.next, ?_, ?_⟩
  · intro id hid
    rw [h'.kept id (hid.trans_le h.next), h.kept id hid]
  · intro id hge hlt
    by_cases hmiddle : id.toNat < storage'.nextForcedWithdrawalId.toNat
    · rw [h'.kept id hmiddle]
      exact h.appended id hge hmiddle
    · exact h'.appended id (Nat.le_of_not_lt hmiddle) hlt

/-- What a step that leaves the requests alone does first does not matter. -/
theorem of_start (h : Appends deadline storage' storage'')
    (hnext : storage'.nextForcedWithdrawalId = storage.nextForcedWithdrawalId)
    (hrequests : storage'.forcedWithdrawalRequests = storage.forcedWithdrawalRequests) :
    Appends deadline storage storage'' :=
  (of_eq hnext hrequests).trans h

end Appends

variable {world world' : World B256}

/-- A request is appended with the deadline of its time. -/
theorem requestForcedWithdrawal_appends {asset : Address} {amount : U128} {requestId : U64}
    (h : requestForcedWithdrawal self context asset amount world = .ok (requestId, world')) :
    Appends (deadlineAt self context.timestamp) world.storage world'.storage := by
  simp only [requestForcedWithdrawal, Outcome.bind_eq_ok, Outcome.expect_eq_ok,
    FixedWidth.checkedAdd_eq_some, Except.ok.injEq, Prod.mk.injEq] at h
  rcases h with ⟨_, _, next, hnext, deadline, hdeadline, _, rfl⟩
  have hgrow : next.toNat = world.storage.nextForcedWithdrawalId.toNat + 1 := by simpa using hnext
  refine ⟨hgrow ▸ Nat.le_succ _, ?_, ?_⟩
  · intro id hid
    apply Function.update_of_ne
    rintro rfl
    exact lt_irrefl _ hid
  · intro id hge hlt
    have hid : id = world.storage.nextForcedWithdrawalId := by
      apply BitVec.eq_of_toNat_eq
      simp only [World.emit] at hlt
      omega
    simp only [World.emit, hid, Function.update_self, hdeadline, deadlineAt]

/-- Activating escape mode leaves the requests alone. -/
theorem activateEscapeMode_appends (h : activateEscapeMode context world = .ok world') :
    Appends (deadlineAt self context.timestamp) world.storage world'.storage := by
  simp only [activateEscapeMode, Outcome.bind_eq_ok, Except.ok.injEq] at h
  rcases h with ⟨_, _, _, _, rfl⟩
  exact Appends.of_eq rfl rfl

/-- Assets that reach the contract leave its storage alone. -/
theorem receive_storage (asset : Address) (amount : U256) (world : World B256) :
    (receive asset amount world).storage = world.storage := by
  unfold receive
  split
  · rfl
  · rfl

/-- A recipient makes its requests at the time of the transaction that pays it. -/
theorem callback_appends (call : Callback B256) :
    Appends (deadlineAt self context.timestamp) world.storage
      (callback self context .ENTERED world call).storage := by
  cases call with
  | requestForcedWithdrawal sender asset amount =>
      unfold callback
      dsimp only
      split
      · rename_i requestId world' h
        have happended := requestForcedWithdrawal_appends h
        exact happended
      · exact Appends.refl _
  | activateEscapeMode =>
      unfold callback
      dsimp only
      split
      · rename_i world' h
        exact activateEscapeMode_appends h
      · exact Appends.refl _
  | guarded function => exact Appends.refl _
  | receive asset amount =>
      unfold callback
      rw [receive_storage]
      exact Appends.refl _

/-- All that is called back during a transfer. -/
theorem callbacks_appends {callbacks : List (Callback B256)}
    (h : callbacksDuring self context callbacks world = world') :
    Appends (deadlineAt self context.timestamp) world.storage world'.storage := by
  rw [← h]
  exact run_invariant (P := fun world' : World B256 =>
      Appends (deadlineAt self context.timestamp) world.storage world'.storage)
    (fun _ call happended => happended.trans (callback_appends call)) (Appends.refl _) callbacks

/-! ## Transfers and payouts -/

variable {kind : TransferKind} {asset recipient : Address} {amount : U256}
  {delivery : Delivery B256} {sent : Bool}

theorem moveOut_appends
    (h : moveOut self context kind asset recipient amount delivery world = (sent, world')) :
    Appends (deadlineAt self context.timestamp) world.storage world'.storage := by
  unfold moveOut at h
  cases delivery with
  | failed callbacks =>
      rw [Prod.mk.injEq] at h
      exact callbacks_appends h.2
  | delivered callbacks =>
      dsimp only at h
      split at h
      · cases h
        exact Appends.refl _
      · rw [Prod.mk.injEq] at h
        have happended := callbacks_appends h.2
        exact happended

theorem nativeCall_appends
    (h : nativeCall self context kind recipient amount delivery world = (sent, world')) :
    Appends (deadlineAt self context.timestamp) world.storage world'.storage := by
  cases sent with
  | true => exact moveOut_appends (nativeCall_true h)
  | false =>
      rw [nativeCall_false h]
      exact Appends.refl _

theorem attemptTransfer_appends
    (h : attemptTransfer self context asset recipient amount delivery world = (sent, world')) :
    Appends (deadlineAt self context.timestamp) world.storage world'.storage := by
  unfold attemptTransfer trySafeTransfer at h
  split at h
  · exact nativeCall_appends h
  · exact moveOut_appends h

/-- A payout appends what its recipient requests. -/
theorem payOut_appends {amount : U128} {executed : Event B256}
    (h : payOut self context recipient asset amount executed delivery world = .ok world') :
    Appends (deadlineAt self context.timestamp) world.storage world'.storage := by
  unfold payOut at h
  split at h
  · rename_i hsent
    cases h
    have happended := attemptTransfer_appends hsent
    exact happended
  · rename_i hfailed
    simp only [creditPending, Outcome.bind_eq_ok, Except.ok.injEq] at h
    rcases h with ⟨_, ⟨_, _, rfl⟩, rfl⟩
    exact (attemptTransfer_appends hfailed).trans (Appends.of_eq rfl rfl)

variable {outcomes : Nat → Delivery B256} {index : Nat}

theorem executeWithdrawals_appends {withdrawals : List Withdrawal}
    (h : executeWithdrawals self context outcomes index withdrawals world = .ok world') :
    Appends (deadlineAt self context.timestamp) world.storage world'.storage := by
  induction withdrawals generalizing index world with
  | nil =>
      cases h
      exact Appends.refl _
  | cons withdrawal rest ih =>
      simp only [executeWithdrawals, Outcome.bind_eq_ok] at h
      rcases h with ⟨middle, hpaid, hrest⟩
      exact (payOut_appends hpaid).trans (ih hrest)

theorem executeForcedWithdrawals_appends {forcedWithdrawals : List ForcedWithdrawal}
    (h : executeForcedWithdrawals self context outcomes index forcedWithdrawals world =
      .ok world') :
    Appends (deadlineAt self context.timestamp) world.storage world'.storage := by
  induction forcedWithdrawals generalizing index world with
  | nil =>
      cases h
      exact Appends.refl _
  | cons forcedWithdrawal rest ih =>
      unfold executeForcedWithdrawals at h
      split at h
      · exact ih h
      · rw [Outcome.bind_eq_ok] at h
        rcases h with ⟨middle, hpaid, hrest⟩
        exact (payOut_appends hpaid).trans (ih hrest)

theorem escapeTransfer_appends {id : Address} {balance : AssetBalance}
    (h : escapeTransfer self context id balance delivery world = .ok world') :
    Appends (deadlineAt self context.timestamp) world.storage world'.storage := by
  simp only [escapeTransfer, safeTransfer, trySafeTransfer] at h
  split at h
  · split at h
    · rename_i hsent
      cases h
      exact nativeCall_appends hsent
    · cases h
  · split at h
    · rename_i hsent
      cases h
      exact moveOut_appends hsent
    · cases h

theorem executeEscapeWithdrawal_appends {id : Address} {balances : List AssetBalance}
    (h : executeEscapeWithdrawal self context outcomes index id balances world = .ok world') :
    Appends (deadlineAt self context.timestamp) world.storage world'.storage := by
  induction balances generalizing index world with
  | nil =>
      cases h
      exact Appends.refl _
  | cons balance rest ih =>
      unfold executeEscapeWithdrawal at h
      split at h
      · exact ih h
      · rw [Outcome.bind_eq_ok] at h
        rcases h with ⟨middle, hpaid, hrest⟩
        have hafter := ih hrest
        exact (escapeTransfer_appends hpaid).trans hafter

/-- A queued deposit leaves the requests alone. -/
theorem queueDeposit_appends {account asset : Address} {amount : U256} {depositId : U64}
    (deadline : Nat) (h : queueDeposit account asset amount world = .ok (depositId, world')) :
    Appends deadline world.storage world'.storage := by
  simp only [queueDeposit, Outcome.bind_eq_ok, Except.ok.injEq, Prod.mk.injEq] at h
  rcases h with ⟨_, _, _, _, _, rfl⟩
  exact Appends.of_eq rfl rfl

theorem safeTransferFrom_appends {token sender : Address}
    (h : safeTransferFrom self context token sender amount delivery world = .ok world') :
    Appends (deadlineAt self context.timestamp) world.storage world'.storage := by
  unfold safeTransferFrom at h
  cases delivery with
  | failed callbacks => cases h
  | delivered callbacks =>
      simp only [Outcome.bind_eq_ok, Except.ok.injEq] at h
      rcases h with ⟨_, _, h⟩
      have happended := callbacks_appends h
      exact happended

/-! ## Transactions -/

section

variable [DecidableEq B256] [Bytes32 B256] [Sha256 B256] [ISP1Verifier B256]

/-- A batch appends what the recipients of its payouts request. -/
theorem settle_appends {publicValues : List B256} {proof : Bytes} {withdrawals : List Withdrawal}
    {forcedWithdrawals : List ForcedWithdrawal}
    (h : settle self context publicValues proof withdrawals forcedWithdrawals outcomes world =
      .ok world') :
    Appends (deadlineAt self context.timestamp) world.storage world'.storage := by
  simp only [settle, applySettlement, Outcome.bind_eq_ok, Except.ok.injEq] at h
  rcases h with ⟨_, _, output, _, cursor, _, _, _, _, _, _, _, middle, hwithdrawals, paid, hforced,
    rfl⟩
  have hbefore := executeWithdrawals_appends hwithdrawals
  have hafter := hbefore.trans (executeForcedWithdrawals_appends hforced)
  exact hafter.of_start rfl rfl

variable [MathLibrary]

/-- All that a transaction does to the requests is to append some with the deadline of its time. -/
theorem exec_appends {call : Call B256} (h : exec self context world call = .ok world') :
    Appends (deadlineAt self context.timestamp) world.storage world'.storage := by
  cases call with
  | deposit value =>
      simp only [exec, nonReentrant_notEntered, deposit, Outcome.bind_eq_ok, Prod.exists,
        Except.ok.injEq] at h
      rcases h with ⟨depositId, _, ⟨_, _, hdeposit⟩, rfl⟩
      have hqueued := queueDeposit_appends (deadlineAt self context.timestamp) hdeposit
      exact hqueued
  | depositToken value token amount delivery =>
      simp only [exec, nonReentrant_notEntered, depositToken, Outcome.bind_eq_ok, Prod.exists,
        Except.ok.injEq] at h
      rcases h with ⟨depositId, _, ⟨_, _, _, _, _, _, middle, hmiddle, _, _, _, _, _, _, hdeposit⟩,
        rfl⟩
      exact (safeTransferFrom_appends hmiddle).trans (queueDeposit_appends _ hdeposit)
  | requestForcedWithdrawal asset amount =>
      simp only [exec, Outcome.bind_eq_ok, Prod.exists, Except.ok.injEq] at h
      rcases h with ⟨requestId, _, hrequest, rfl⟩
      exact requestForcedWithdrawal_appends hrequest
  | activateEscapeMode => exact activateEscapeMode_appends h
  | escapeWithdraw id nextNonce balances sideNodes outcomes =>
      simp only [exec, nonReentrant_notEntered, escapeWithdraw, Outcome.bind_eq_ok] at h
      rcases h with ⟨_, _, _, _, _, _, _, _, hpaid⟩
      have hpayouts := executeEscapeWithdrawal_appends hpaid
      exact hpayouts.of_start rfl rfl
  | withdrawPending account asset delivery =>
      simp only [exec, nonReentrant_notEntered, withdrawPending, Outcome.bind_eq_ok] at h
      rcases h with ⟨_, _, h⟩
      split at h
      · rename_i hsent
        cases h
        have hpayout := attemptTransfer_appends hsent
        exact hpayout.of_start rfl rfl
      · cases h
  | settle publicValues proof withdrawals forcedWithdrawals outcomes => exact settle_appends h
  | receive asset amount =>
      cases h
      rw [receive_storage]
      exact Appends.refl _

/-- A transaction that reverts appends nothing. -/
theorem step_appends (self : Immutables B256) (world : World B256)
    (transaction : Context × Call B256) :
    Appends (deadlineAt self transaction.1.timestamp) world.storage
      (step self world transaction).storage := by
  unfold step
  split
  · rename_i world' hexec
    exact exec_appends hexec
  · exact Appends.refl _

end

/-! ## Deadlines are in order -/

/-- The deadlines are in the order of the requests, and none is later than that of a request that
would be made now. -/
structure Timely (contract : Immutables B256) (now : Nat) (storage : Storage B256) : Prop where
  ordered : ∀ id id' : U64, id.toNat ≤ id'.toNat →
    id'.toNat < storage.nextForcedWithdrawalId.toNat →
    (storage.forcedWithdrawalRequests id).deadline.toNat ≤
      (storage.forcedWithdrawalRequests id').deadline.toNat
  bounded : ∀ id : U64, id.toNat < storage.nextForcedWithdrawalId.toNat →
    (storage.forcedWithdrawalRequests id).deadline.toNat ≤
      now + contract.FORCED_WITHDRAWAL_DELAY.toNat

/-- A request that is appended at a later time has the latest deadline. -/
theorem Timely.appends {now : Nat} {storage storage' : Storage B256}
    (h : Timely self now storage) {timestamp : U256} (hnow : now ≤ timestamp.toNat)
    (hfits : timestamp.toNat < 2 ^ 64)
    (happends : Appends (deadlineAt self timestamp) storage storage') :
    Timely self timestamp.toNat storage' := by
  have hdeadline : deadlineAt self timestamp =
      timestamp.toNat + self.FORCED_WITHDRAWAL_DELAY.toNat := by
    rw [deadlineAt, BitVec.toNat_setWidth, Nat.mod_eq_of_lt hfits]
  have hbounded : ∀ id : U64, id.toNat < storage'.nextForcedWithdrawalId.toNat →
      (storage'.forcedWithdrawalRequests id).deadline.toNat ≤
        timestamp.toNat + self.FORCED_WITHDRAWAL_DELAY.toNat := by
    intro id hid
    by_cases hold : id.toNat < storage.nextForcedWithdrawalId.toNat
    · have hbefore := h.bounded id hold
      rw [happends.kept id hold]
      omega
    · rw [happends.appended id (Nat.le_of_not_lt hold) hid, hdeadline]
  refine ⟨?_, hbounded⟩
  intro id id' hle hid'
  by_cases hold : id'.toNat < storage.nextForcedWithdrawalId.toNat
  · rw [happends.kept id (hle.trans_lt hold), happends.kept id' hold]
    exact h.ordered id id' hle hold
  · rw [happends.appended id' (Nat.le_of_not_lt hold) hid', hdeadline]
    exact hbounded id (hle.trans_lt hid')

/-- With deadlines in order, the oldest unprocessed request is overdue when any is. -/
theorem Timely.activateEscapeMode_iff {now : Nat} (h : Timely self now world.storage)
    (context : Context) :
    (∃ world', activateEscapeMode context world = .ok world') ↔
      ∃ id : U64, world.storage.nextUnprocessedForcedWithdrawal ≤ id ∧
        id < world.storage.nextForcedWithdrawalId ∧
        (world.storage.forcedWithdrawalRequests id).deadline.toNat ≤ context.timestamp.toNat := by
  have hwidth : ∀ deadline : U64, (deadline.setWidth 256).toNat = deadline.toNat := by
    intro deadline
    rw [BitVec.toNat_setWidth]
    exact Nat.mod_eq_of_lt (deadline.isLt.trans (by norm_num))
  simp only [activateEscapeMode, Outcome.bind_eq_ok, Outcome.rejectIf_eq_ok, ge_iff_le,
    BitVec.not_le, BitVec.not_lt, Except.ok.injEq]
  constructor
  · rintro ⟨_, _, hpending, _, hoverdue, _⟩
    rw [BitVec.le_def, hwidth] at hoverdue
    exact ⟨_, BitVec.le_refl _, hpending, hoverdue⟩
  · rintro ⟨id, hfirst, hlast, hoverdue⟩
    rw [BitVec.le_def] at hfirst
    rw [BitVec.lt_def] at hlast
    have hordered := h.ordered _ _ hfirst hlast
    refine ⟨_, (), BitVec.lt_def.mpr (hfirst.trans_lt hlast), (), ?_, rfl⟩
    rw [BitVec.le_def, hwidth]
    exact hordered.trans hoverdue

section

variable [DecidableEq B256] [Bytes32 B256] [Sha256 B256] [ISP1Verifier B256] [MathLibrary]

/-- Where time does not run backwards, the deadlines stay in order. -/
theorem run_timely {transactions : List (Context × Call B256)} {now : Nat}
    (h : Timely self now world.storage)
    (htimes : (transactions.map fun t => t.1.timestamp.toNat).Pairwise (· ≤ ·))
    (hstart : ∀ t ∈ transactions, now ≤ t.1.timestamp.toNat)
    (hfits : ∀ t ∈ transactions, t.1.timestamp.toNat < 2 ^ 64) :
    ∃ now', Timely self now' (run self world transactions).storage := by
  induction transactions generalizing world now with
  | nil => exact ⟨now, h⟩
  | cons transaction rest ih =>
      rw [List.map_cons, List.pairwise_cons] at htimes
      have hnext := h.appends (hstart _ (List.mem_cons_self ..)) (hfits _ (List.mem_cons_self ..))
        (step_appends self world transaction)
      refine ih hnext htimes.2 ?_ fun t ht => hfits t (List.mem_cons_of_mem _ ht)
      exact fun t ht => htimes.1 _ (List.mem_map_of_mem (f := fun t : Context × Call B256 =>
        t.1.timestamp.toNat) ht)

/-- Looking at the oldest request is enough: in every run in which time does not run backwards,
escape mode can be activated at a time exactly when the deadline of some unprocessed request has
come by then. -/
theorem escape_mode_iff_overdue (self : Immutables B256) (initialStateRoot : B256)
    (initialBatchId : U64) (holdings : Address → U256) (transactions : List (Context × Call B256))
    (htimes : (transactions.map fun t => t.1.timestamp.toNat).Pairwise (· ≤ ·))
    (hfits : ∀ t ∈ transactions, t.1.timestamp.toNat < 2 ^ 64) (context : Context) :
    let world := run self (genesis initialStateRoot initialBatchId holdings) transactions
    (∃ world', activateEscapeMode context world = .ok world') ↔
      ∃ id : U64, world.storage.nextUnprocessedForcedWithdrawal ≤ id ∧
        id < world.storage.nextForcedWithdrawalId ∧
        (world.storage.forcedWithdrawalRequests id).deadline.toNat ≤ context.timestamp.toNat := by
  intro world
  have hstart : Timely self 0 (genesis initialStateRoot initialBatchId holdings).storage := by
    refine ⟨?_, ?_⟩
    · intro id id' _ hid'
      exact absurd hid' (Nat.not_lt_zero _)
    · intro id hid
      exact absurd hid (Nat.not_lt_zero _)
  rcases run_timely hstart htimes (fun _ _ => Nat.zero_le _) hfits with ⟨now, htimely⟩
  exact htimely.activateEscapeMode_iff context

end

/-- Three requests, of which a batch serves the first; later the second is overdue and the third is
not. -/
def testRequested : List (Context × Call IdealDigest) :=
  [(testContext 3 10, .depositToken 0 (FixedBytes.replicate 20 7) 4 (.delivered [])),
    (testContext 2 20, .requestForcedWithdrawal (FixedBytes.replicate 20 7) 3),
    (testContext 3 25, .requestForcedWithdrawal (FixedBytes.replicate 20 7) 1),
    (testContext 4 30, .settle testPublicValues [] []
      [⟨0, FixedBytes.replicate 20 2, FixedBytes.replicate 20 7, 3⟩] fun _ => .delivered []),
    (testContext 2 150, .requestForcedWithdrawal (FixedBytes.replicate 20 7) 2)]

/-- A run in which a batch has moved the head of the queue. -/
theorem escape_mode_iff_overdue_testRequested :
    let world := run testContract (genesis testRoot 0 testHoldings) testRequested
    world.storage.nextUnprocessedForcedWithdrawal = 1 ∧ world.storage.nextForcedWithdrawalId = 3 ∧
      ((∃ world', activateEscapeMode (testContext 4 200) world = .ok world') ↔
        ∃ id : U64, world.storage.nextUnprocessedForcedWithdrawal ≤ id ∧
          id < world.storage.nextForcedWithdrawalId ∧
          (world.storage.forcedWithdrawalRequests id).deadline.toNat ≤
            (testContext 4 200).timestamp.toNat) := by
  intro world
  refine ⟨by decide +kernel, by decide +kernel, ?_⟩
  exact escape_mode_iff_overdue testContract testRoot 0 testHoldings testRequested (by decide)
    (by decide) (testContext 4 200)

end Contract

end ZkClob
