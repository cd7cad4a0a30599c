import ZkClob.Contracts.Deadlines
import ZkClob.Contracts.SettledChain

/-!
# The way out

A user who is ignored by the operator asks the contract for a forced withdrawal.  From then on
the clock runs: by the deadline a settled batch has answered the request, or anybody can stop the
exchange, and then everyone leaves with what the committed state says.

Main results:

- Theorem {lit}`Contract.run_request`: a request that was queued stays as it was queued.
- Theorem {lit}`Contract.answer_run`: the requests below the cursor are answered in their places.
- Theorem {lit}`Contract.forced_exit`: by its deadline a request is answered, or everyone leaves.
-/

namespace ZkClob

open Foundations Patricia

namespace Contract

variable {B256 : Type} {self : Immutables B256} {context : Context} {world world' : World B256}

/-! ## A queued request -/

/-- A new request has the id that was next, and the deadline of its time. -/
structure Requested (contract : Immutables B256) (context : Context) (asset : Address)
    (amount : U128) (world world' : World B256) (requestId : U64) : Prop where
  id : requestId = world.storage.nextForcedWithdrawalId
  next : requestId.toNat < world'.storage.nextForcedWithdrawalId.toNat
  account : (world'.storage.forcedWithdrawalRequests requestId).account = context.sender
  asset : (world'.storage.forcedWithdrawalRequests requestId).asset = asset
  amount : (world'.storage.forcedWithdrawalRequests requestId).amount = amount
  deadline : (world'.storage.forcedWithdrawalRequests requestId).deadline.toNat =
    deadlineAt contract context.timestamp

theorem requestForcedWithdrawal_requested {asset : Address} {amount : U128} {requestId : U64}
    (h : requestForcedWithdrawal self context asset amount world = .ok (requestId, world')) :
    Requested self context asset amount world world' requestId := by
  simp only [requestForcedWithdrawal, Outcome.bind_eq_ok, Outcome.expect_eq_ok,
    FixedWidth.checkedAdd_eq_some, Except.ok.injEq, Prod.mk.injEq] at h
  rcases h with ⟨_, _, next, hnext, deadline, hdeadline, rfl, rfl⟩
  have hgrow : next.toNat = world.storage.nextForcedWithdrawalId.toNat + 1 := by
    simpa using hnext
  constructor
  · rfl
  · change world.storage.nextForcedWithdrawalId.toNat < next.toNat
    omega
  all_goals simp only [World.emit, Function.update_self]
  rw [hdeadline, deadlineAt]

section

variable [DecidableEq B256] [Bytes32 B256] [Sha256 B256] [ISP1Verifier B256] [MathLibrary]

/-- What was queued stays as it was queued. -/
theorem run_request {id : U64} (hid : id.toNat < world.storage.nextForcedWithdrawalId.toNat)
    (transactions : List (Context × Call B256)) :
    id.toNat < (run self world transactions).storage.nextForcedWithdrawalId.toNat ∧
      (run self world transactions).storage.forcedWithdrawalRequests id =
        world.storage.forcedWithdrawalRequests id := by
  apply run_invariant (P := fun world' : World B256 =>
    id.toNat < world'.storage.nextForcedWithdrawalId.toNat ∧
      world'.storage.forcedWithdrawalRequests id = world.storage.forcedWithdrawalRequests id)
  · intro world' transaction hkept
    have happends := step_appends self world' transaction
    exact ⟨hkept.1.trans_le happends.next, (happends.kept id hkept.1).trans hkept.2⟩
  · exact ⟨hid, rfl⟩

/-! ## Answers -/

variable [Secp256k1 B256]

/-- A request below the cursor was answered by exactly one entry of the calldata of the settled
batches, at the place of its id. -/
theorem answer_run (hfree : CollisionFree B256) (hverifier : VerifierSound self)
    {initialStateRoot : B256} {initialBatchId : U64} {holdings : Address → U256}
    {transactions : List (Context × Call B256)} {id : U64}
    (hid : id.toNat < (run self (genesis initialStateRoot initialBatchId holdings)
      transactions).storage.nextUnprocessedForcedWithdrawal.toNat) :
    let start := genesis initialStateRoot initialBatchId holdings
    let world := run self start transactions
    ∃ answer, ((settlements self start transactions).flatMap
        SettleCall.forcedWithdrawals)[id.toNat]? = some answer ∧
      Answers (requestAt world.storage id.toNat) answer := by
  intro start world
  rcases exists_batches hverifier start transactions with ⟨batches, hbatches⟩
  have hconsumed : Consumed world (settlements self start transactions) batches :=
    consumed_run hfree hbatches
  apply exists_getElem?_of_forall₂ hconsumed.answers
  rw [entriesBelow, List.getElem?_map, List.getElem?_range hid]
  rfl

/-! ## The deadline -/

omit [Secp256k1 B256] in
/-- Where time does not run backwards, the deadlines of a run are in order. -/
theorem timely_run (initialStateRoot : B256) (initialBatchId : U64) (holdings : Address → U256)
    {transactions : List (Context × Call B256)}
    (htimes : (transactions.map fun t => t.1.timestamp.toNat).Pairwise (· ≤ ·))
    (hfits : ∀ t ∈ transactions, t.1.timestamp.toNat < 2 ^ 64) :
    ∃ now, Timely self now (run self (genesis initialStateRoot initialBatchId holdings)
      transactions).storage := by
  have hstart : Timely self 0
      (genesis initialStateRoot initialBatchId holdings : World B256).storage := by
    constructor
    · intro id id' _ hid'
      exact absurd hid' (Nat.not_lt_zero _)
    · intro id hid
      exact absurd hid (Nat.not_lt_zero _)
  exact run_timely hstart htimes (fun _ _ => Nat.zero_le _) hfits

/-- In every run in which time does not run backwards, a forced withdrawal that a user has asked for
is answered by the deadline, by one entry of a settled batch that pays at most what was asked for;
or else escape mode can be activated, and everyone leaves. -/
theorem forced_exit (hfree : CollisionFree B256) (hverifier : VerifierSound self)
    {A₀ : List Account} {initialStateRoot : B256} (hgenesis : computeRoot A₀ = .ok initialStateRoot)
    {holdings : Address → U256} (hcovered : ∀ asset, supply A₀ asset ≤ (holdings asset).toNat)
    (initialBatchId : U64) (before after : List (Context × Call B256)) (context now : Context)
    (asset : Address) (amount : U128) {requestId : U64} {queued : World B256}
    (hrequest : requestForcedWithdrawal self context asset amount
      (run self (genesis initialStateRoot initialBatchId holdings) before) =
      .ok (requestId, queued)) :
    let start := genesis initialStateRoot initialBatchId holdings
    let transactions := before ++ (context, .requestForcedWithdrawal asset amount) :: after
    let world := run self start transactions
    (transactions.map fun t => t.1.timestamp.toNat).Pairwise (· ≤ ·) →
    (∀ t ∈ transactions, t.1.timestamp.toNat < 2 ^ 64) →
    context.timestamp.toNat + self.FORCED_WITHDRAWAL_DELAY.toNat ≤ now.timestamp.toNat →
    (∃ answer : ForcedWithdrawal, ((settlements self start transactions).flatMap
        SettleCall.forcedWithdrawals)[requestId.toNat]? = some answer ∧
      answer.id = requestId ∧ answer.account = context.sender ∧ answer.asset = asset ∧
      answer.amount.toNat ≤ amount.toNat) ∨
    ∃ stopped, activateEscapeMode now world = .ok stopped ∧ EveryoneLeaves self stopped := by
  intro start transactions world htimes hfits hdue
  have hasked := requestForcedWithdrawal_requested hrequest
  -- the request as the end of the run sees it
  have hworld : world = run self queued after := by
    have hstep : step self (run self start before)
        (context, .requestForcedWithdrawal asset amount) = queued := by
      simp only [step, exec, start, hrequest, Outcome.ok_bind]
    simp only [world, transactions, run, List.foldl_append, List.foldl_cons]
    rw [← hstep]
    rfl
  obtain ⟨hnext, hkept⟩ :
      requestId.toNat < world.storage.nextForcedWithdrawalId.toNat ∧
        world.storage.forcedWithdrawalRequests requestId =
          queued.storage.forcedWithdrawalRequests requestId := by
    rw [hworld]
    exact run_request hasked.next after
  by_cases hcursor : requestId.toNat < world.storage.nextUnprocessedForcedWithdrawal.toNat
  · left
    have hanswer : ∃ answer, ((settlements self start transactions).flatMap
          SettleCall.forcedWithdrawals)[requestId.toNat]? = some answer ∧
        Answers (requestAt world.storage requestId.toNat) answer :=
      answer_run hfree hverifier hcursor
    rcases hanswer with ⟨answer, hlisted, hanswers⟩
    have hid : BitVec.ofNat 64 requestId.toNat = requestId := by simp
    have hfields : requestAt world.storage requestId.toNat =
        (requestId, context.sender, asset, amount) := by
      simp only [requestAt, hid, hkept, hasked.account, hasked.asset, hasked.amount]
    rw [hfields] at hanswers
    exact ⟨answer, hlisted, hanswers.id, hanswers.account, hanswers.asset, hanswers.amount⟩
  · right
    have hdeadline : (world.storage.forcedWithdrawalRequests requestId).deadline.toNat ≤
        now.timestamp.toNat := by
      have hfit : context.timestamp.toNat < 2 ^ 64 :=
        hfits (context, .requestForcedWithdrawal asset amount) (by simp [transactions])
      rw [hkept, hasked.deadline, deadlineAt, BitVec.toNat_setWidth, Nat.mod_eq_of_lt hfit]
      exact hdue
    have htimely : ∃ now, Timely self now world.storage :=
      timely_run initialStateRoot initialBatchId holdings htimes hfits
    rcases htimely with ⟨_, htimely⟩
    have hstop := (htimely.activateEscapeMode_iff now).mpr ⟨requestId,
      BitVec.le_def.mpr (Nat.le_of_not_lt hcursor), BitVec.lt_def.mpr hnext, hdeadline⟩
    rcases hstop with ⟨stopped, hstopped⟩
    refine ⟨stopped, hstopped, ?_⟩
    -- the activation is one more transaction of the run
    have hrun : run self start (transactions ++ [(now, .activateEscapeMode)]) = stopped := by
      have hstep : step self world (now, .activateEscapeMode) = stopped := by
        simp only [step, exec, hstopped]
      rw [← hstep]
      simp only [world, run, List.foldl_append, List.foldl_cons, List.foldl_nil]
    have hactive : stopped.storage.escapeMode = true := by
      simp only [activateEscapeMode, Outcome.bind_eq_ok, Except.ok.injEq] at hstopped
      rcases hstopped with ⟨_, _, _, _, rfl⟩
      rfl
    rw [← hrun] at hactive ⊢
    exact everyoneLeaves_run hfree hverifier hgenesis hcovered initialBatchId _ hactive

end

/-- The request of the user of the small exchange is ignored until its deadline. -/
theorem forced_exit_testEscape :
    ∃ stopped, activateEscapeMode (testContext 4 200) (run testContract
        (genesis testRoot 0 testHoldings) (testEscape.take 1)) = .ok stopped ∧
      EveryoneLeaves testContract stopped := by
  have hroot : computeRoot testAccounts = .ok testRoot := by decide +kernel
  have hqueued := Outcome.exists_of_isOk (show (requestForcedWithdrawal testContract
    (testContext 2 10) (FixedBytes.replicate 20 7) 3 (run testContract
      (genesis testRoot 0 testHoldings) [])).isOk = true by decide +kernel)
  rcases hqueued with ⟨⟨requestId, queued⟩, hqueued⟩
  have h := forced_exit IdealDigest.collisionFree verifierSound_testContract hroot
    supply_testAccounts 0 [] [] (testContext 2 10) (testContext 4 200) (FixedBytes.replicate 20 7) 3
    hqueued (by decide) (by decide) (by decide)
  -- nothing was settled, so that the request was not answered
  rcases h with ⟨answer, hanswer, _⟩ | hstopped
  · cases hanswer
  · exact hstopped

end Contract

end ZkClob
