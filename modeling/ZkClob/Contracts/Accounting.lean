import ZkClob.Contracts.Settlement
import ZkClob.Foundations.Histories
import ZkClob.Foundations.Tally

/-!
# Transfers and the books of the contract

A payout is a call into unknown code, which may call back before it returns.  This module
says once what such a call leaves alone and what it records, so that no later proof looks
into a transfer again.  The books compare what the contract holds with what came in and
went out.

Main results:

- Theorem {lit}`Contract.callbacks_undisturbed`: what recipients do during a transfer leaves
  the books and all but the request queue and the escape flag alone.
- Theorem {lit}`Contract.payOut_spec`: a payout reaches its recipient or is credited.
- Theorems {lit}`Contract.executeWithdrawals_spec` and
  {lit}`Contract.executeForcedWithdrawals_spec`: so do all payouts of a batch, once each.
- Theorem {lit}`Contract.executeEscapeWithdrawal_spec`: an escape pays the listed balances.
-/

namespace ZkClob

open Foundations

namespace Contract

variable {B256 : Type}

/-! ## The books -/

/-- What was moved between the contract and a party for one reason, in one asset. -/
def transferred (world : World B256) (kind : TransferKind) (party asset : Address) : Nat :=
  tally (fun t => t.kind = kind ∧ t.party = party ∧ t.asset = asset) (fun t => t.amount.toNat)
    world.transfers

/-- What was moved for one reason, in one asset. -/
def transferredTotal (world : World B256) (kind : TransferKind) (asset : Address) : Nat :=
  tally (fun t => t.kind = kind ∧ t.asset = asset) (fun t => t.amount.toNat) world.transfers

/-- What left the contract. -/
def outgoing (world : World B256) (asset : Address) : Nat :=
  transferredTotal world .payout asset + transferredTotal world .escape asset

/-- Between two worlds the contract gained at least what came in and lost at most what went
out. -/
def Accounted (world world' : World B256) : Prop :=
  ∀ asset, (world.holdings asset).toNat + outgoing world asset +
      transferredTotal world' .deposit asset ≤
    (world'.holdings asset).toNat + outgoing world' asset + transferredTotal world .deposit asset

/-- What every transfer leaves alone in the storage: requests are only added, and escape mode
is only activated. -/
structure Kept (storage storage' : Storage B256) : Prop where
  stateRoot : storage'.stateRoot = storage.stateRoot
  nextBatchId : storage'.nextBatchId = storage.nextBatchId
  nextDepositId : storage'.nextDepositId = storage.nextDepositId
  nextUnprocessedDeposit : storage'.nextUnprocessedDeposit = storage.nextUnprocessedDeposit
  deposits : storage'.deposits = storage.deposits
  nextUnprocessedForcedWithdrawal :
    storage'.nextUnprocessedForcedWithdrawal = storage.nextUnprocessedForcedWithdrawal
  escaped : storage'.escaped = storage.escaped
  nextForcedWithdrawalId :
    storage.nextForcedWithdrawalId.toNat ≤ storage'.nextForcedWithdrawalId.toNat
  requests : ∀ id : U64, id.toNat < storage.nextForcedWithdrawalId.toNat →
    storage'.forcedWithdrawalRequests id = storage.forcedWithdrawalRequests id
  escapeMode : storage.escapeMode = true → storage'.escapeMode = true

namespace Kept

variable {storage storage' storage'' : Storage B256}

theorem refl (storage : Storage B256) : Kept storage storage :=
  ⟨rfl, rfl, rfl, rfl, rfl, rfl, rfl, le_rfl, fun _ _ => rfl, id⟩

theorem trans (h : Kept storage storage') (h' : Kept storage' storage'') :
    Kept storage storage'' where
  stateRoot := h'.stateRoot.trans h.stateRoot
  nextBatchId := h'.nextBatchId.trans h.nextBatchId
  nextDepositId := h'.nextDepositId.trans h.nextDepositId
  nextUnprocessedDeposit := h'.nextUnprocessedDeposit.trans h.nextUnprocessedDeposit
  deposits := h'.deposits.trans h.deposits
  nextUnprocessedForcedWithdrawal :=
    h'.nextUnprocessedForcedWithdrawal.trans h.nextUnprocessedForcedWithdrawal
  escaped := h'.escaped.trans h.escaped
  nextForcedWithdrawalId := h.nextForcedWithdrawalId.trans h'.nextForcedWithdrawalId
  requests id hid := (h'.requests id (hid.trans_le h.nextForcedWithdrawalId)).trans
    (h.requests id hid)
  escapeMode hmode := h'.escapeMode (h.escapeMode hmode)

/-- Escape mode that is not active afterwards was not active before. -/
theorem inactive (h : Kept storage storage') (hmode : storage'.escapeMode = false) :
    storage.escapeMode = false := by
  by_contra hactive
  rw [h.escapeMode (by simpa using hactive)] at hmode
  cases hmode

/-- Credits are not compared. -/
theorem of_pending {pendingWithdrawals : Address → Address → U256}
    (h : Kept { storage with pendingWithdrawals } storage') : Kept storage storage' :=
  ⟨h.stateRoot, h.nextBatchId, h.nextDepositId, h.nextUnprocessedDeposit, h.deposits,
    h.nextUnprocessedForcedWithdrawal, h.escaped, h.nextForcedWithdrawalId, h.requests,
    h.escapeMode⟩

end Kept

/-! ## Callbacks -/

/-- What is left alone by the calls during a transfer: the queues and credits, and the record
of the transfers.  They can only add to the holdings. -/
structure Undisturbed (world world' : World B256) : Prop where
  kept : Kept world.storage world'.storage
  pending : world'.storage.pendingWithdrawals = world.storage.pendingWithdrawals
  transfers : world'.transfers = world.transfers
  holdings : ∀ asset, (world.holdings asset).toNat ≤ (world'.holdings asset).toNat

namespace Undisturbed

variable {world world' world'' : World B256}

theorem refl (world : World B256) : Undisturbed world world :=
  ⟨Kept.refl _, rfl, rfl, fun _ => le_rfl⟩

theorem trans (h : Undisturbed world world') (h' : Undisturbed world' world'') :
    Undisturbed world world'' where
  kept := h.kept.trans h'.kept
  pending := h'.pending.trans h.pending
  transfers := h'.transfers.trans h.transfers
  holdings asset := (h.holdings asset).trans (h'.holdings asset)

/-- Recording an event disturbs nothing. -/
theorem emit (h : Undisturbed world world') (event : Event B256) :
    Undisturbed world (world'.emit event) :=
  ⟨h.kept, h.pending, h.transfers, h.holdings⟩

end Undisturbed

variable {self : Immutables B256} {context : Context} {world world' : World B256}

/-- A forced withdrawal is requested behind the queue. -/
theorem requestForcedWithdrawal_undisturbed {asset : Address} {amount : U128} {requestId : U64}
    (h : requestForcedWithdrawal self context asset amount world = .ok (requestId, world')) :
    Undisturbed world world' := by
  simp only [requestForcedWithdrawal, Outcome.bind_eq_ok, Outcome.expect_eq_ok,
    FixedWidth.checkedAdd_eq_some, Except.ok.injEq, Prod.mk.injEq] at h
  rcases h with ⟨_, _, next, hnext, deadline, _, _, rfl⟩
  have hgrow : next.toNat = world.storage.nextForcedWithdrawalId.toNat + 1 := by simpa using hnext
  apply Undisturbed.emit
  refine ⟨⟨rfl, rfl, rfl, rfl, rfl, rfl, rfl, ?_, ?_, id⟩, rfl, rfl, fun _ => le_rfl⟩
  · exact hgrow ▸ Nat.le_succ _
  · intro id hid
    apply Function.update_of_ne
    rintro rfl
    exact lt_irrefl _ hid

/-- Activating escape mode changes nothing else. -/
theorem activateEscapeMode_undisturbed
    (h : activateEscapeMode context world = .ok world') : Undisturbed world world' := by
  simp only [activateEscapeMode, Outcome.bind_eq_ok, Except.ok.injEq] at h
  rcases h with ⟨_, _, _, _, rfl⟩
  apply Undisturbed.emit
  exact ⟨⟨rfl, rfl, rfl, rfl, rfl, rfl, rfl, le_rfl, fun _ _ => rfl, fun _ => rfl⟩, rfl, rfl,
    fun _ => le_rfl⟩

/-- Assets that reach the contract without a call. -/
theorem receive_undisturbed (asset : Address) (amount : U256) (world : World B256) :
    Undisturbed world (receive asset amount world) := by
  unfold receive
  split
  · exact Undisturbed.refl world
  · rename_i total htotal
    rw [FixedWidth.checkedAdd_eq_some] at htotal
    refine ⟨Kept.refl _, rfl, rfl, fun x => ?_⟩
    by_cases hx : x = asset
    · subst hx
      simp only [Function.update_self, htotal]
      omega
    · simp only [Function.update_of_ne hx, le_refl]

/-- A call back into the contract while a guarded function runs. -/
theorem callback_undisturbed (call : Callback B256) :
    Undisturbed world (callback self context .ENTERED world call) := by
  cases call with
  | requestForcedWithdrawal sender asset amount =>
      unfold callback
      dsimp only
      split
      · rename_i requestId world' h
        exact requestForcedWithdrawal_undisturbed h
      · exact Undisturbed.refl world
  | activateEscapeMode =>
      unfold callback
      dsimp only
      split
      · rename_i world' h
        exact activateEscapeMode_undisturbed h
      · exact Undisturbed.refl world
  | guarded function => exact Undisturbed.refl world
  | receive asset amount => exact receive_undisturbed asset amount world

/-- All that is called back during a transfer. -/
theorem callbacks_undisturbed (callbacks : List (Callback B256)) (world : World B256) :
    Undisturbed world (callbacksDuring self context callbacks world) :=
  run_invariant (P := Undisturbed world)
    (fun _ call h => h.trans (callback_undisturbed call)) (Undisturbed.refl world) callbacks

/-! ## Transfers -/

/-- A transfer out of the contract that was made: it is recorded, and the contract lost at most
its amount. -/
structure MovedOut (world world' : World B256) (transfer : Transfer) : Prop where
  kept : Kept world.storage world'.storage
  pending : world'.storage.pendingWithdrawals = world.storage.pendingWithdrawals
  transfers : world'.transfers = world.transfers ++ [transfer]
  holdings : ∀ asset, (world.holdings asset).toNat ≤
    (world'.holdings asset).toNat + if transfer.asset = asset then transfer.amount.toNat else 0

variable {kind : TransferKind} {asset recipient : Address} {amount : U256}
  {delivery : Delivery B256}

/-- A transfer that is not made leaves behind only what is called back. -/
theorem moveOut_false
    (h : moveOut self context kind asset recipient amount delivery world = (false, world')) :
    Undisturbed world world' := by
  unfold moveOut at h
  cases delivery with
  | failed callbacks =>
      cases h
      exact callbacks_undisturbed callbacks world
  | delivered callbacks =>
      dsimp only at h
      split at h
      · cases h
        exact Undisturbed.refl world
      · cases h

/-- A transfer that is made. -/
theorem moveOut_true
    (h : moveOut self context kind asset recipient amount delivery world = (true, world')) :
    MovedOut world world' ⟨kind, recipient, asset, amount⟩ := by
  unfold moveOut at h
  cases delivery with
  | failed callbacks => cases h
  | delivered callbacks =>
      dsimp only at h
      split at h
      · cases h
      · rename_i rest hrest
        rw [FixedWidth.checkedSub_eq_some] at hrest
        simp only [Prod.mk.injEq, true_and] at h
        have hcalls : Undisturbed _ world' := h ▸ callbacks_undisturbed callbacks _
        refine ⟨hcalls.kept, hcalls.pending, hcalls.transfers, fun x => ?_⟩
        have hx := hcalls.holdings x
        by_cases hself : recipient = self.EXCHANGE_ID
        · simp only [hself, if_true] at hx
          omega
        · simp only [hself, if_false] at hx
          by_cases hasset : x = asset
          · subst hasset
            rw [Function.update_self] at hx
            simp only [if_true]
            omega
          · rw [Function.update_of_ne hasset] at hx
            omega

/-- A native call that succeeds moves the value. -/
theorem nativeCall_true
    (h : nativeCall self context kind recipient amount delivery world = (true, world')) :
    moveOut self context kind address0 recipient amount delivery world = (true, world') := by
  unfold nativeCall at h
  split at h
  · cases h
  · split at h
    · cases h
      assumption
    · cases h

/-- A native call that fails changes nothing. -/
theorem nativeCall_false
    (h : nativeCall self context kind recipient amount delivery world = (false, world')) :
    world' = world := by
  unfold nativeCall at h
  split at h
  · cases h
    rfl
  · split at h
    · cases h
    · cases h
      rfl

/-- A payout that is not delivered leaves behind only what is called back. -/
theorem attemptTransfer_false
    (h : attemptTransfer self context asset recipient amount delivery world = (false, world')) :
    Undisturbed world world' := by
  unfold attemptTransfer trySafeTransfer at h
  split at h
  · rw [nativeCall_false h]
    exact Undisturbed.refl world
  · exact moveOut_false h

/-- A payout that is delivered. -/
theorem attemptTransfer_true
    (h : attemptTransfer self context asset recipient amount delivery world = (true, world')) :
    MovedOut world world' ⟨.payout, recipient, asset, amount⟩ := by
  unfold attemptTransfer trySafeTransfer at h
  split at h
  · rename_i hasset
    subst hasset
    exact moveOut_true (nativeCall_true h)
  · exact moveOut_true h

/-! ## Payouts -/

/-- An amount for one party and asset. -/
def single (party asset : Address) (amount : Nat) : Address → Address → Nat := fun r x =>
  if party = r ∧ asset = x then amount else 0

/-- What payouts and escapes do to the books: what is owed to a party reaches it or becomes a
credit, and escapes are paid. -/
structure Paid (world world' : World B256) (owed escaped : Address → Address → Nat) : Prop where
  kept : Kept world.storage world'.storage
  accounted : Accounted world world'
  payouts : ∀ r x,
    transferred world' .payout r x + (world'.storage.pendingWithdrawals r x).toNat =
      transferred world .payout r x + (world.storage.pendingWithdrawals r x).toNat + owed r x
  escapes : ∀ id x, transferred world' .escape id x = transferred world .escape id x + escaped id x
  deposits : ∀ x, transferredTotal world' .deposit x = transferredTotal world .deposit x

theorem Accounted.refl (world : World B256) : Accounted world world := fun _ => le_rfl

theorem Accounted.trans {world'' : World B256} (h : Accounted world world')
    (h' : Accounted world' world'') : Accounted world world'' := by
  intro asset
  have hfirst := h asset
  have hsecond := h' asset
  omega

namespace Paid

variable {world'' : World B256} {owed owed' escaped escaped' : Address → Address → Nat}

theorem refl (world : World B256) : Paid world world (fun _ _ => 0) fun _ _ => 0 :=
  ⟨Kept.refl _, Accounted.refl _, fun _ _ => rfl, fun _ _ => rfl, fun _ => rfl⟩

theorem trans (h : Paid world world' owed escaped) (h' : Paid world' world'' owed' escaped') :
    Paid world world'' (fun r x => owed r x + owed' r x) fun id x =>
      escaped id x + escaped' id x where
  kept := h.kept.trans h'.kept
  accounted := h.accounted.trans h'.accounted
  payouts r x := by rw [h'.payouts, h.payouts, Nat.add_assoc]
  escapes id x := by rw [h'.escapes, h.escapes, Nat.add_assoc]
  deposits x := (h'.deposits x).trans (h.deposits x)

/-- Recording an event pays nothing. -/
theorem emit (h : Paid world world' owed escaped) (event : Event B256) :
    Paid world (world'.emit event) owed escaped :=
  ⟨h.kept, h.accounted, h.payouts, h.escapes, h.deposits⟩

/-- Amounts are compared by their values. -/
theorem congr (h : Paid world world' owed escaped) (howed : ∀ r x, owed' r x = owed r x)
    (hescaped : ∀ id x, escaped' id x = escaped id x) : Paid world world' owed' escaped' :=
  ⟨h.kept, h.accounted, fun r x => howed r x ▸ h.payouts r x,
    fun id x => hescaped id x ▸ h.escapes id x, h.deposits⟩

end Paid

/-- What is called back pays nothing. -/
theorem Undisturbed.paid (h : Undisturbed world world') :
    Paid world world' (fun _ _ => 0) fun _ _ => 0 := by
  refine ⟨h.kept, fun x => ?_, fun r x => ?_, fun id x => ?_, fun x => ?_⟩
  · have hx := h.holdings x
    simp only [outgoing, transferredTotal, h.transfers]
    omega
  · simp only [transferred, h.transfers, h.pending, Nat.add_zero]
  · simp only [transferred, h.transfers, Nat.add_zero]
  · simp only [transferredTotal, h.transfers]

/-- A recorded transfer out of the contract is accounted for. -/
theorem MovedOut.accounted (hkind : kind ≠ .deposit)
    (h : MovedOut world world' ⟨kind, recipient, asset, amount⟩) : Accounted world world' := by
  intro x
  have hx := h.holdings x
  simp only [outgoing, transferredTotal, h.transfers, tally_append, tally_cons, tally_nil]
  cases kind with
  | deposit => exact absurd rfl hkind
  | payout =>
      simp only [true_and, decide_eq_true_eq, reduceCtorEq, false_and, decide_false] at hx ⊢
      simp only [if_false]
      omega
  | escape =>
      simp only [true_and, decide_eq_true_eq, reduceCtorEq, false_and, decide_false] at hx ⊢
      simp only [if_false]
      omega

/-- A delivered payout. -/
theorem MovedOut.payout (h : MovedOut world world' ⟨.payout, recipient, asset, amount⟩) :
    Paid world world' (single recipient asset amount.toNat) fun _ _ => 0 := by
  refine ⟨h.kept, h.accounted (by decide), fun r x => ?_, fun id x => ?_, fun x => ?_⟩
  · simp only [transferred, h.transfers, h.pending, tally_append, tally_cons, tally_nil, single,
      true_and, decide_eq_true_eq]
    omega
  · simp [transferred, h.transfers]
  · simp [transferredTotal, h.transfers]

/-- A transfer of an escape. -/
theorem MovedOut.escape (h : MovedOut world world' ⟨.escape, recipient, asset, amount⟩) :
    Paid world world' (fun _ _ => 0) (single recipient asset amount.toNat) := by
  refine ⟨h.kept, h.accounted (by decide), fun r x => ?_, fun id x => ?_, fun x => ?_⟩
  · simp [transferred, h.transfers, h.pending]
  · simp only [transferred, h.transfers, tally_append, tally_cons, tally_nil, single, true_and,
      decide_eq_true_eq]
    omega
  · simp [transferredTotal, h.transfers]

/-- A credit for one party and asset. -/
theorem creditPending_spec
    (h : creditPending recipient asset amount world = .ok world') :
    Paid world world' (single recipient asset amount.toNat) fun _ _ => 0 := by
  simp only [creditPending, Outcome.bind_eq_ok, Outcome.expect_eq_ok, FixedWidth.checkedAdd_eq_some,
    Except.ok.injEq] at h
  rcases h with ⟨total, htotal, rfl⟩
  refine ⟨⟨rfl, rfl, rfl, rfl, rfl, rfl, rfl, le_rfl, fun _ _ => rfl, id⟩, fun _ => le_rfl,
    fun r x => ?_, fun _ _ => rfl, fun _ => rfl⟩
  simp only [transferred, single]
  by_cases hr : r = recipient
  · subst hr
    rw [Function.update_self]
    by_cases hx : x = asset
    · subst hx
      simp only [Function.update_self, htotal, and_self, if_true]
      omega
    · simp [Function.update_of_ne hx, Ne.symm hx]
  · simp [Function.update_of_ne hr, Ne.symm hr]

/-- A payout reaches its recipient or is credited. -/
theorem payOut_spec {amount : U128} {executed : Event B256}
    (h : payOut self context recipient asset amount executed delivery world = .ok world') :
    Paid world world' (single recipient asset amount.toNat) fun _ _ => 0 := by
  have hamount : (amount.setWidth 256).toNat = amount.toNat := by
    rw [BitVec.toNat_setWidth]
    exact Nat.mod_eq_of_lt (amount.isLt.trans (by norm_num))
  unfold payOut at h
  split at h
  · rename_i hsent
    cases h
    rw [← hamount]
    exact (attemptTransfer_true hsent).payout.emit _
  · rename_i hfailed
    simp only [Outcome.bind_eq_ok, Except.ok.injEq] at h
    rcases h with ⟨credited, hcredited, rfl⟩
    rw [← hamount]
    have hpaid := (attemptTransfer_false hfailed).paid.trans (creditPending_spec hcredited)
    exact (hpaid.emit _).congr (fun _ _ => (Nat.zero_add _).symm) fun _ _ => rfl

/-- What a list of withdrawals owes to a recipient. -/
def withdrawalsTo (withdrawals : List Withdrawal) (recipient asset : Address) : Nat :=
  tally (fun w => w.recipient = recipient ∧ w.asset = asset) (fun w => w.amount.toNat) withdrawals

/-- What a list of forced withdrawals owes to an account. -/
def forcedWithdrawalsTo (forcedWithdrawals : List ForcedWithdrawal)
    (account asset : Address) : Nat :=
  tally (fun w => w.account = account ∧ w.asset = asset) (fun w => w.amount.toNat) forcedWithdrawals

variable {outcomes : Nat → Delivery B256} {index : Nat}

/-- The withdrawals of a batch are paid once each. -/
theorem executeWithdrawals_spec {withdrawals : List Withdrawal}
    (h : executeWithdrawals self context outcomes index withdrawals world = .ok world') :
    Paid world world' (withdrawalsTo withdrawals) fun _ _ => 0 := by
  induction withdrawals generalizing world index with
  | nil =>
      rw [executeWithdrawals] at h
      cases h
      exact Paid.refl _
  | cons withdrawal rest ih =>
      simp only [executeWithdrawals, Outcome.bind_eq_ok] at h
      rcases h with ⟨mid, hmid, hrest⟩
      refine ((payOut_spec hmid).trans (ih hrest)).congr (fun r x => ?_) fun _ _ => rfl
      simp only [withdrawalsTo, single, tally_cons, decide_eq_true_eq]

/-- The forced withdrawals of a batch are paid once each. -/
theorem executeForcedWithdrawals_spec {forcedWithdrawals : List ForcedWithdrawal}
    (h : executeForcedWithdrawals self context outcomes index forcedWithdrawals world =
      .ok world') :
    Paid world world' (forcedWithdrawalsTo forcedWithdrawals) fun _ _ => 0 := by
  induction forcedWithdrawals generalizing world index with
  | nil =>
      rw [executeForcedWithdrawals] at h
      cases h
      exact Paid.refl _
  | cons forcedWithdrawal rest ih =>
      rw [executeForcedWithdrawals] at h
      by_cases hzero : forcedWithdrawal.amount = 0
      · rw [if_pos hzero] at h
        refine (ih h).congr (fun r x => ?_) fun _ _ => rfl
        simp [forcedWithdrawalsTo, hzero]
      · rw [if_neg hzero, Outcome.bind_eq_ok] at h
        rcases h with ⟨mid, hmid, hrest⟩
        refine ((payOut_spec hmid).trans (ih hrest)).congr (fun r x => ?_) fun _ _ => rfl
        simp only [forcedWithdrawalsTo, single, tally_cons, decide_eq_true_eq]

/-! ## Escapes -/

/-- What an account with the listed balances is paid when it escapes. -/
def escapedBalances (id : Address) (balances : List AssetBalance) (party asset : Address) : Nat :=
  if id = party then tally (fun b => b.asset = asset) (fun b => b.available.toNat) balances else 0

/-- One transfer of an escape. -/
theorem escapeTransfer_spec {id : Address} {balance : AssetBalance}
    (h : escapeTransfer self context id balance delivery world = .ok world') :
    Paid world world' (fun _ _ => 0) (single id balance.asset balance.available.toNat) := by
  have hamount : (balance.available.setWidth 256).toNat = balance.available.toNat := by
    rw [BitVec.toNat_setWidth]
    exact Nat.mod_eq_of_lt (balance.available.isLt.trans (by norm_num))
  rw [← hamount]
  unfold escapeTransfer at h
  by_cases hasset : balance.asset = address0
  · rw [if_pos hasset] at h
    split at h
    · rename_i hsent
      cases h
      rw [hasset]
      exact (moveOut_true (nativeCall_true hsent)).escape
    · cases h
  · rw [if_neg hasset] at h
    unfold safeTransfer at h
    split at h
    · rename_i hsent
      cases h
      exact (moveOut_true hsent).escape
    · cases h

/-- An escape pays the listed balances. -/
theorem executeEscapeWithdrawal_spec {id : Address} {balances : List AssetBalance}
    (h : executeEscapeWithdrawal self context outcomes index id balances world = .ok world') :
    Paid world world' (fun _ _ => 0) (escapedBalances id balances) := by
  induction balances generalizing world index with
  | nil =>
      rw [executeEscapeWithdrawal] at h
      cases h
      refine (Paid.refl _).congr (fun _ _ => rfl) fun i x => ?_
      simp [escapedBalances]
  | cons balance rest ih =>
      rw [executeEscapeWithdrawal] at h
      by_cases hzero : balance.available = 0
      · rw [if_pos hzero] at h
        refine (ih h).congr (fun _ _ => rfl) fun i x => ?_
        simp [escapedBalances, hzero]
      · rw [if_neg hzero, Outcome.bind_eq_ok] at h
        rcases h with ⟨mid, hmid, hrest⟩
        refine (((escapeTransfer_spec hmid).emit _).trans (ih hrest)).congr (fun _ _ => rfl)
          fun i x => ?_
        by_cases hi : id = i
        · simp [escapedBalances, single, hi]
        · simp [escapedBalances, single, hi]

end Contract

end ZkClob
