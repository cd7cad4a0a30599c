import ZkClob.Contracts.Agreement

/-!
# The queues over runs

Deposits and requests are numbered in the order in which they arrive, and the cursors of
the contract stand behind what settled batches have consumed.  New entries arrive at any
time, between batches and while payouts are being made.

Main results:

- Theorem {lit}`Contract.queues_consumed_once`: the batches of a run have consumed exactly the
  entries below the cursors, in order, and every executed forced withdrawal answers
  the request in its place.
-/

namespace ZkClob

open Foundations

namespace Contract

variable {B256 : Type} {world world' : World B256}

/-- A forced withdrawal answers a request: the same id, account and asset, and an amount that is
not above the requested one. -/
structure Answers (request : QueueFields) (executed : ForcedWithdrawal) : Prop where
  id : executed.id = request.1
  account : executed.account = request.2.1
  asset : executed.asset = request.2.2.1
  amount : executed.amount.toNat ≤ request.2.2.2.toNat

/-- The queue entries below a cursor. -/
def entriesBelow {α : Type} (cursor : U64) (entry : Nat → α) : List α :=
  (List.range cursor.toNat).map entry

/-- The entries below an advanced cursor. -/
theorem entriesBelow_advance {α : Type} {cursor cursor' : U64} {entry entry' : Nat → α}
    {count : Nat}
    (hcursor : cursor'.toNat = cursor.toNat + count)
    (hentry : ∀ n < cursor'.toNat, entry' n = entry n) :
    entriesBelow cursor' entry' =
      entriesBelow cursor entry ++ (List.range' cursor.toNat count).map entry := by
  have hentries : entriesBelow cursor' entry' = entriesBelow cursor' entry := by
    apply List.map_congr_left
    intro n hn
    exact hentry n (List.mem_range.mp hn)
  rw [hentries, entriesBelow, entriesBelow, hcursor, List.range_eq_range', List.range_eq_range',
    ← List.map_append]
  congr 1
  have := @List.range'_append_1 0 cursor.toNat count
  rw [Nat.zero_add] at this
  exact this.symm

/-- Entries below a cursor that are kept. -/
theorem entriesBelow_congr {α : Type} {cursor : U64} {entry entry' : Nat → α}
    (hentry : ∀ n < cursor.toNat, entry' n = entry n) :
    entriesBelow cursor entry' = entriesBelow cursor entry := by
  apply List.map_congr_left
  intro n hn
  exact hentry n (List.mem_range.mp hn)

/-! ## What a transaction leaves of the queues -/

theorem Kept.requestAt_eq {storage storage' : Storage B256} (h : Kept storage storage') {n : Nat}
    (hn : n < storage.nextForcedWithdrawalId.toNat) :
      requestAt storage' n = requestAt storage n := by
  have hid : (BitVec.ofNat 64 n).toNat = n := by
    rw [BitVec.toNat_ofNat]
    exact Nat.mod_eq_of_lt (hn.trans storage.nextForcedWithdrawalId.isLt)
  simp only [requestAt, h.requests (BitVec.ofNat 64 n) (hid.symm ▸ hn)]

/-- Queues only grow. -/
structure QueuesGrow (storage storage' : Storage B256) : Prop where
  nextDepositId : storage.nextDepositId.toNat ≤ storage'.nextDepositId.toNat
  deposits : ∀ n < storage.nextDepositId.toNat, depositAt storage' n = depositAt storage n
  nextForcedWithdrawalId :
    storage.nextForcedWithdrawalId.toNat ≤ storage'.nextForcedWithdrawalId.toNat
  requests : ∀ n < storage.nextForcedWithdrawalId.toNat, requestAt storage' n = requestAt storage n

theorem Kept.queuesGrow {storage storage' : Storage B256} (h : Kept storage storage') :
    QueuesGrow storage storage' where
  nextDepositId := by rw [h.nextDepositId]
  deposits n _ := by simp only [depositAt, h.deposits]
  nextForcedWithdrawalId := h.nextForcedWithdrawalId
  requests n hn := h.requestAt_eq hn

theorem DepositMade.queuesGrow {account asset : Address} {amount : U128}
    (h : DepositMade world world' account asset amount) :
      QueuesGrow world.storage world'.storage where
  nextDepositId := by
    rw [h.next]
    exact Nat.le_succ _
  deposits n hn := by
    have hne : (BitVec.ofNat 64 n) ≠ world.storage.nextDepositId := by
      intro heq
      have hn' := congrArg BitVec.toNat heq
      rw [BitVec.toNat_ofNat, Nat.mod_eq_of_lt (hn.trans world.storage.nextDepositId.isLt)] at hn'
      exact hn.ne hn'
    simp only [depositAt, h.kept.deposits, Function.update_of_ne hne]
  nextForcedWithdrawalId := h.kept.nextForcedWithdrawalId
  requests n hn := h.kept.requestAt_eq hn

theorem Effect.queuesGrow [Bytes32 B256] [Sha256 B256] [MathLibrary] [ISP1Verifier B256]
    {self : Immutables B256} {calls : List (SettleCall B256)} {escaped : List Address}
    (h : Effect self world world' calls escaped) : QueuesGrow world.storage world'.storage := by
  cases h with
  | undisturbed h => exact h.kept.queuesGrow
  | deposit h => exact h.queuesGrow
  | claim h => exact h.kept.queuesGrow
  | escape h =>
      have hgrow := h.paid.kept.queuesGrow
      exact ⟨hgrow.1, hgrow.2, hgrow.3, hgrow.4⟩
  | settle h =>
      have hgrow := h.paid.kept.queuesGrow
      exact ⟨hgrow.1, hgrow.2, hgrow.3, hgrow.4⟩

/-! ## What batches have consumed -/

variable {calls : List (SettleCall B256)} {batches : List (BatchInput B256 × BatchOutput B256)}

/-- The cursors are within the queues, and the batches so far have consumed the entries below
them. -/
structure Consumed (world : World B256) (calls : List (SettleCall B256))
    (batches : List (BatchInput B256 × BatchOutput B256)) : Prop where
  depositCursor :
    world.storage.nextUnprocessedDeposit.toNat ≤ world.storage.nextDepositId.toNat
  requestCursor :
    world.storage.nextUnprocessedForcedWithdrawal.toNat ≤ world.storage.nextForcedWithdrawalId.toNat
  deposits : (batches.flatMap fun batch => batch.1.deposits).map ZkClob.Deposit.fields =
    entriesBelow world.storage.nextUnprocessedDeposit (depositAt world.storage)
  requests :
    (batches.flatMap fun batch => batch.1.forcedWithdrawals).map ZkClob.ForcedWithdrawal.fields =
      entriesBelow world.storage.nextUnprocessedForcedWithdrawal (requestAt world.storage)
  answers : List.Forall₂ Answers
    (entriesBelow world.storage.nextUnprocessedForcedWithdrawal (requestAt world.storage))
    (calls.flatMap SettleCall.forcedWithdrawals)

/-- While no cursor moves, what was consumed stays in the queues. -/
theorem Consumed.of_grow (h : Consumed world calls batches)
    (hgrow : QueuesGrow world.storage world'.storage)
    (hdeposit : world'.storage.nextUnprocessedDeposit = world.storage.nextUnprocessedDeposit)
    (hrequest : world'.storage.nextUnprocessedForcedWithdrawal =
      world.storage.nextUnprocessedForcedWithdrawal) : Consumed world' calls batches := by
  have hdeposits := entriesBelow_congr fun n hn => hgrow.deposits n (hn.trans_le h.depositCursor)
  have hrequests := entriesBelow_congr fun n hn => hgrow.requests n (hn.trans_le h.requestCursor)
  refine ⟨?_, ?_, ?_, ?_, ?_⟩
  · rw [hdeposit]
    exact h.depositCursor.trans hgrow.nextDepositId
  · rw [hrequest]
    exact h.requestCursor.trans hgrow.nextForcedWithdrawalId
  · rw [hdeposit, hdeposits]
    exact h.deposits
  · rw [hrequest, hrequests]
    exact h.requests
  · rw [hrequest, hrequests]
    exact h.answers

section

variable [Sha256 B256] [Secp256k1 B256]

/-- The drained amounts that the calldata of a batch lists answer its requests. -/
theorem Agreement.answers {call : SettleCall B256} {input : BatchInput B256}
    {output : BatchOutput B256} {newDepositCursor newForcedWithdrawalCursor : U64}
    (h : Agreement world.storage call input output newDepositCursor newForcedWithdrawalCursor)
    (s : Settlement input output) : List.Forall₂ Answers
      ((List.range' world.storage.nextUnprocessedForcedWithdrawal.toNat
        input.forcedWithdrawals.length).map (requestAt world.storage)) call.forcedWithdrawals := by
  -- compare the hashed fields: the records of the guest, then those of the calldata
  let AnswersFields (request executed : QueueFields) : Prop :=
    executed.1 = request.1 ∧ executed.2.1 = request.2.1 ∧ executed.2.2.1 = request.2.2.1 ∧
      executed.2.2.2.toNat ≤ request.2.2.2.toNat
  have hrecords : List.Forall₂ AnswersFields
      (input.forcedWithdrawals.map ZkClob.ForcedWithdrawal.fields)
      (output.forcedWithdrawals.map ZkClob.ForcedWithdrawal.fields) := by
    rw [List.forall₂_map_left_iff, List.forall₂_map_right_iff]
    refine s.forced_records.imp fun r e hre => ?_
    rw [hre.1]
    exact ⟨rfl, rfl, rfl, hre.2⟩
  rw [h.requests, ← h.forcedWithdrawals, List.forall₂_map_right_iff] at hrecords
  refine hrecords.imp fun request executed hanswer => ?_
  exact ⟨hanswer.1, hanswer.2.1, hanswer.2.2.1, hanswer.2.2.2⟩

variable [Bytes32 B256] [ISP1Verifier B256] [DecidableEq B256] {self : Immutables B256}

/-- A settled batch moves the cursors over what it consumed. -/
theorem Consumed.settle (hfree : CollisionFree B256) (h : Consumed world calls batches)
    {call : SettleCall B256} {output : PublicOutput B256} {cursor : U64}
    {batch : BatchInput B256 × BatchOutput B256}
    (hmade : BatchMade self world world' call output cursor)
    (hproves : Proves call batch) : Consumed world' (calls ++ [call]) (batches ++ [batch]) := by
  rcases exists_settlement hproves.1 with ⟨s⟩
  have hagree := hmade.agreement hfree s (hmade.publicOutput_eq hproves)
  have hkept := hmade.paid.kept
  have hgrow := hkept.queuesGrow
  have hdeposits := entriesBelow_advance hagree.depositCursor
    fun n hn => hgrow.deposits n (hn.trans_le hmade.newDepositCursor.2)
  have hrequests := entriesBelow_advance hagree.forcedWithdrawalCursor
    fun n hn => hgrow.requests n (hn.trans_le hmade.forcedWithdrawalCursorLe)
  refine ⟨?_, ?_, ?_, ?_, ?_⟩
  · rw [hkept.nextUnprocessedDeposit]
    exact hmade.newDepositCursor.2.trans hgrow.nextDepositId
  · rw [hkept.nextUnprocessedForcedWithdrawal]
    exact hmade.forcedWithdrawalCursorLe.trans hgrow.nextForcedWithdrawalId
  · rw [hkept.nextUnprocessedDeposit]
    simp only [List.flatMap_append, List.map_append, List.flatMap_singleton]
    rw [h.deposits, hagree.deposits]
    exact hdeposits.symm
  · rw [hkept.nextUnprocessedForcedWithdrawal]
    simp only [List.flatMap_append, List.map_append, List.flatMap_singleton]
    rw [h.requests, hagree.requests]
    exact hrequests.symm
  · rw [hkept.nextUnprocessedForcedWithdrawal]
    simp only [List.flatMap_append, List.flatMap_singleton]
    refine hrequests ▸ ?_
    exact List.rel_append h.answers (hagree.answers s)

variable [MathLibrary]

/-- A transaction consumes what the batches behind its calls list. -/
theorem Effect.consumed (hfree : CollisionFree B256) {calls' : List (SettleCall B256)}
    {batches' : List (BatchInput B256 × BatchOutput B256)} {escaped : List Address}
    (h : Effect self world world' calls' escaped) (hproves : List.Forall₂ Proves calls' batches')
    (hconsumed : Consumed world calls batches) :
    Consumed world' (calls ++ calls') (batches ++ batches') := by
  have hgrow := h.queuesGrow
  cases h with
  | @settle call output cursor h =>
      cases hproves with
      | cons hproves hnil =>
          cases hnil
          exact hconsumed.settle hfree h hproves
  | undisturbed h =>
      cases hproves
      simpa using hconsumed.of_grow hgrow h.kept.nextUnprocessedDeposit
        h.kept.nextUnprocessedForcedWithdrawal
  | deposit h =>
      cases hproves
      simpa using hconsumed.of_grow hgrow h.kept.nextUnprocessedDeposit
        h.kept.nextUnprocessedForcedWithdrawal
  | claim h =>
      cases hproves
      simpa using hconsumed.of_grow hgrow h.kept.nextUnprocessedDeposit
        h.kept.nextUnprocessedForcedWithdrawal
  | escape h =>
      cases hproves
      simpa using hconsumed.of_grow hgrow h.paid.kept.nextUnprocessedDeposit
        h.paid.kept.nextUnprocessedForcedWithdrawal

/-- In every run with a sound verifier the cursors are within the queues, and the settled batches
have consumed exactly the entries below the cursors: their deposits are the queued ones in
order, their requests are the queued ones in order, and the executed forced withdrawals
answer the requests in their places. -/
theorem queues_consumed_once (hfree : CollisionFree B256) (hverifier : VerifierSound self)
    (initialStateRoot : B256) (initialBatchId : U64) (holdings : Address → U256)
    (transactions : List (Context × Call B256)) :
    let start := genesis initialStateRoot initialBatchId holdings
    let world := run self start transactions
    let calls := settlements self start transactions
    (world.storage.nextUnprocessedDeposit.toNat ≤ world.storage.nextDepositId.toNat ∧
      world.storage.nextUnprocessedForcedWithdrawal.toNat ≤
        world.storage.nextForcedWithdrawalId.toNat) ∧
    (∃ batches, List.Forall₂ Proves calls batches) ∧
    ∀ batches, List.Forall₂ Proves calls batches →
      (batches.flatMap fun batch => batch.1.deposits).map ZkClob.Deposit.fields =
        entriesBelow world.storage.nextUnprocessedDeposit (depositAt world.storage) ∧
      (batches.flatMap fun batch => batch.1.forcedWithdrawals).map ZkClob.ForcedWithdrawal.fields =
        entriesBelow world.storage.nextUnprocessedForcedWithdrawal (requestAt world.storage) ∧
      List.Forall₂ Answers
        (entriesBelow world.storage.nextUnprocessedForcedWithdrawal (requestAt world.storage))
        (calls.flatMap SettleCall.forcedWithdrawals) := by
  intro start world calls
  have hconsumed : ∀ batches, List.Forall₂ Proves calls batches → Consumed world calls batches := by
    apply history_invariant (step self) (settledCalls self)
      (P := fun world calls => ∀ batches, List.Forall₂ Proves calls batches →
        Consumed world calls batches)
    · intro world calls transaction hbefore batches hbatches
      rcases exists_of_forall₂_append hbatches with ⟨before, batch, rfl, hcalls, hcall⟩
      exact (step_effect self world transaction).consumed hfree hcall (hbefore before hcalls)
    · intro batches hbatches
      cases hbatches
      exact ⟨le_rfl, le_rfl, rfl, rfl, .nil⟩
  have hexists : ∃ batches, List.Forall₂ Proves calls batches :=
    exists_batches hverifier start transactions
  refine ⟨?_, hexists, fun batches hbatches => ?_⟩
  · rcases hexists with ⟨batches, hbatches⟩
    have h := hconsumed batches hbatches
    exact ⟨h.depositCursor, h.requestCursor⟩
  · have h := hconsumed batches hbatches
    exact ⟨h.deposits, h.requests, h.answers⟩

end

/-- The batch of the small exchange consumes the one deposit and the one request. -/
theorem queues_consumed_once_testTransactions :
    let start := genesis testRoot 0 testHoldings
    let world := run testContract start testTransactions
    let calls := settlements testContract start testTransactions
    calls.length = 1 ∧ world.storage.nextUnprocessedDeposit.toNat ≤
      world.storage.nextDepositId.toNat ∧
      ∃ batches, List.Forall₂ Proves calls batches ∧
        (batches.flatMap fun batch => batch.1.deposits).map ZkClob.Deposit.fields =
          entriesBelow world.storage.nextUnprocessedDeposit (depositAt world.storage) ∧
        List.Forall₂ Answers
          (entriesBelow world.storage.nextUnprocessedForcedWithdrawal (requestAt world.storage))
          (calls.flatMap SettleCall.forcedWithdrawals) := by
  intro start world calls
  have h := queues_consumed_once IdealDigest.collisionFree verifierSound_testContract testRoot 0
    testHoldings testTransactions
  rcases h with ⟨hcursors, ⟨batches, hbatches⟩, hconsumed⟩
  have hall := hconsumed batches hbatches
  exact ⟨by decide +kernel, hcursors.1, batches, hbatches, hall.1, hall.2.2⟩

end Contract

end ZkClob
