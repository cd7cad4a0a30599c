import ZkClob.Contracts.EscapeSoundness
import ZkClob.Contracts.Queues

/-!
# Solvency

The contract owes three things in each asset: the balances of the committed accounts that
have not escaped, the deposits that wait in the queue, and the credits.  Everything that
came in is owed or has gone out, whatever is called in whatever order and whichever
transfers fail, and what has not gone out is still there.

Main results:

- Theorem {lit}`Contract.Effect.covered`: a transaction keeps the account of what is owed.
- Theorem {lit}`Contract.solvent`: in every run the contract holds at least what it owes.
-/

namespace ZkClob

open Foundations Patricia

namespace Contract

variable {B256 : Type} {world world' : World B256}

/-! ## The deposit queue -/

/-- The deposits that no batch has consumed. -/
def queuedTotal (storage : Storage B256) (asset : Address) : Nat :=
  tally (fun d => d.asset = asset) (fun d => d.amount.toNat)
    (queuedDeposits storage storage.nextUnprocessedDeposit.toNat
      (storage.nextDepositId.toNat - storage.nextUnprocessedDeposit.toNat))

/-- What queued deposits add up to depends on the fields alone. -/
theorem tally_queuedDeposits (storage : Storage B256) (start count : Nat) (asset : Address) :
    tally (fun d => d.asset = asset) (fun d => d.amount.toNat)
      (queuedDeposits storage start count) =
      tally (fun n => (depositAt storage n).2.2.1 = asset)
        (fun n => (depositAt storage n).2.2.2.toNat)
        (List.range' start count) := by
  rw [queuedDeposits, tally_map]
  rfl

/-- Deposits of the guest add up to what their fields say. -/
theorem tally_deposits_fields (deposits : List ZkClob.Deposit) (asset : Address) :
    tally (fun d => d.asset = asset) (fun d => d.amount.toNat) deposits =
      tally (fun fields : QueueFields => fields.2.2.1 = asset) (fun fields => fields.2.2.2.toNat)
        (deposits.map ZkClob.Deposit.fields) := by
  rw [tally_map]
  rfl

/-- The queue in two storages that agree on it. -/
theorem queuedTotal_congr {storage storage' : Storage B256}
    (hcursor : storage'.nextUnprocessedDeposit = storage.nextUnprocessedDeposit)
    (hnext : storage'.nextDepositId = storage.nextDepositId)
    (hdeposits : storage'.deposits = storage.deposits) (asset : Address) :
    queuedTotal storage' asset = queuedTotal storage asset := by
  have hentry : depositAt storage' = depositAt storage := by
    funext n
    simp only [depositAt, hdeposits]
  simp only [queuedTotal, tally_queuedDeposits, hcursor, hnext, hentry]

/-- A deposit joins the queue. -/
theorem DepositMade.queuedTotal_eq {account asset : Address} {amount : U128}
    (h : DepositMade world world' account asset amount)
    (hcursor : world.storage.nextUnprocessedDeposit.toNat ≤ world.storage.nextDepositId.toNat)
    (x : Address) :
    queuedTotal world'.storage x =
      queuedTotal world.storage x + if asset = x then amount.toNat else 0 := by
  let next := world.storage.nextDepositId.toNat
  let cursor := world.storage.nextUnprocessedDeposit.toNat
  have hkept : world'.storage.nextUnprocessedDeposit = world.storage.nextUnprocessedDeposit :=
    h.kept.nextUnprocessedDeposit
  have hcount : world'.storage.nextDepositId.toNat - cursor = (next - cursor) + 1 := by
    have := h.next
    omega
  have hnew : depositAt world'.storage next =
      (world.storage.nextDepositId, account, asset, amount) := by
    have hid : BitVec.ofNat 64 next = world.storage.nextDepositId := by
      simp [next]
    simp only [depositAt, h.kept.deposits, hid, Function.update_self]
  have hrange : List.range' cursor ((next - cursor) + 1) =
      List.range' cursor (next - cursor) ++ [next] := by
    rw [List.range'_concat]
    congr 2
    omega
  have hold : ∀ n ∈ List.range' cursor (next - cursor),
      depositAt world'.storage n = depositAt world.storage n := by
    intro n hn
    rw [List.mem_range'_1] at hn
    exact h.queuesGrow.deposits n (by omega)
  simp only [queuedTotal, tally_queuedDeposits, hkept]
  rw [hcount, hrange, tally_append]
  congr 1
  · apply tally_congr
    · intro n hn
      rw [hold n hn]
    · intro n hn _
      rw [hold n hn]
  · simp [hnew]

/-- Queued deposits up to a number and from it on. -/
theorem queuedDeposits_add (storage : Storage B256) (start count count' : Nat) :
    queuedDeposits storage start (count + count') =
      queuedDeposits storage start count ++ queuedDeposits storage (start + count) count' := by
  simp only [queuedDeposits, ← List.map_append, List.range'_append_1]

/-- The deposits of a batch leave the queue. -/
theorem Agreement.queuedTotal_eq {call : SettleCall B256} {input : BatchInput B256}
    {output : BatchOutput B256} {depositCursor requestCursor : U64}
    (h : Agreement world.storage call input output depositCursor requestCursor)
    (hle : depositCursor.toNat ≤ world.storage.nextDepositId.toNat) {storage' : Storage B256}
    (hcursor : storage'.nextUnprocessedDeposit = depositCursor)
    (hnext : storage'.nextDepositId = world.storage.nextDepositId)
    (hdeposits : storage'.deposits = world.storage.deposits) (asset : Address) :
    queuedTotal world.storage asset =
      tally (fun d => d.asset = asset) (fun d => d.amount.toNat) input.deposits +
        queuedTotal storage' asset := by
  have hentry : depositAt storage' = depositAt world.storage := by
    funext n
    simp only [depositAt, hdeposits]
  have hcount : world.storage.nextDepositId.toNat - world.storage.nextUnprocessedDeposit.toNat =
      input.deposits.length + (world.storage.nextDepositId.toNat - depositCursor.toNat) := by
    have := h.depositCursor
    omega
  have hconsumed : tally (fun d => d.asset = asset) (fun d => d.amount.toNat)
      (queuedDeposits world.storage world.storage.nextUnprocessedDeposit.toNat
        input.deposits.length) =
      tally (fun d => d.asset = asset) (fun d => d.amount.toNat) input.deposits := by
    rw [tally_deposits_fields, tally_deposits_fields, fields_queuedDeposits, h.deposits]
  rw [queuedTotal, hcount, queuedDeposits_add, tally_append, hconsumed, queuedTotal,
    tally_queuedDeposits, tally_queuedDeposits, hentry, hcursor, hnext, h.depositCursor]

/-! ## The committed accounts -/

/-- The accounts that have not escaped. -/
def unescaped (storage : Storage B256) (A : List Account) : List Account :=
  A.filter fun account => !storage.escaped account.id

/-- While nobody has escaped, all accounts are left. -/
theorem unescaped_eq {storage : Storage B256} (h : ∀ id, storage.escaped id = false)
    (A : List Account) : unescaped storage A = A := by
  simp [unescaped, h]

/-- The supply of tested accounts is a tally. -/
theorem supply_unescaped (storage : Storage B256) (A : List Account) (asset : Address) :
    supply (unescaped storage A) asset =
      tally (fun account => !storage.escaped account.id) (fun account => account.total asset) A :=
  sum_map_filter _ _ A

/-- An account that escapes takes its balance out of what is left. -/
theorem supply_unescaped_update {storage storage' : Storage B256} {A : List Account}
    (hA : (A.map Account.id).Nodup) {account : Account} (hmem : account ∈ A)
    (hfirst : storage.escaped account.id = false)
    (hescaped : storage'.escaped = Function.update storage.escaped account.id true)
    (asset : Address) :
    supply (unescaped storage A) asset =
      supply (unescaped storage' A) asset + account.total asset := by
  have hsplit := tally_split (fun a : Account => !storage.escaped a.id)
    (fun a => decide (a.id = account.id)) (fun a => a.total asset) A
  have hself : tally (fun a : Account => !storage.escaped a.id && decide (a.id = account.id))
      (fun a => a.total asset) A = account.total asset := by
    rw [← holding_eq_total hA hmem asset]
    apply tally_congr
    · intro a _
      by_cases ha : a.id = account.id
      · simp [ha, hfirst]
      · simp [ha]
    · intro a _ _
      rfl
  have hrest : tally (fun a : Account => !storage.escaped a.id && !decide (a.id = account.id))
      (fun a => a.total asset) A = supply (unescaped storage' A) asset := by
    rw [supply_unescaped]
    apply tally_congr
    · intro a _
      rw [hescaped]
      by_cases ha : a.id = account.id
      · simp [ha]
      · simp [ha]
    · intro a _ _
      rfl
  rw [supply_unescaped, hsplit, hself, hrest]
  omega

section

variable [Sha256 B256] [Secp256k1 B256] {input : BatchInput B256} {output : BatchOutput B256}
  {A : List Account}

/-- What a batch does to the supply of the whole account set. -/
theorem supply_nextState (hfree : CollisionFree B256) (s : Settlement input output)
    (hA : Commits A input.expectedOldStateRoot) (asset : Address) :
    supply A asset + tally (fun d => d.asset = asset) (fun d => d.amount.toNat) input.deposits =
      supply (nextState A input output) asset +
        tally (fun w => w.asset = asset) (fun w => w.amount.toNat) output.withdrawals +
        tally (fun w => w.asset = asset) (fun w => w.amount.toNat) output.forcedWithdrawals := by
  have hlisted : output.withdrawals = input.withdrawals.map ExecutedWithdrawal.from := by
    rw [s.output_eq]
    rfl
  have hwithdrawals : tally (fun w => w.asset = asset)
      (fun w => w.amount.toNat) output.withdrawals =
      tally (fun w => w.asset = asset) (fun w => w.amount.toNat) input.withdrawals := by
    rw [hlisted, tally_map]
    rfl
  have hconserved := s.conservation asset
  rw [supply_perm (s.split_perm hfree hA), nextState, supply_append, supply_append, hwithdrawals]
  omega

end

/-! ## The books over runs -/

/-- Everything that came in is owed or has gone out: to the accounts of a committed set that have
not escaped, to the deposits in the queue, or as a credit. -/
structure Covered (initial : Address → Nat) (world : World B256) [Sha256 B256] (A : List Account) :
    Prop where
  commits : Commits A world.storage.stateRoot
  cursor : world.storage.nextUnprocessedDeposit.toNat ≤ world.storage.nextDepositId.toNat
  running : world.storage.escapeMode = false → ∀ id, world.storage.escaped id = false
  equation : ∀ asset, initial asset + transferredTotal world .deposit asset =
    transferredTotal world .payout asset + transferredTotal world .escape asset +
      pendingTotal world.storage asset + supply (unescaped world.storage A) asset +
      queuedTotal world.storage asset

variable {initial : Address → Nat} {A : List Account}

section

variable [Sha256 B256]

/-- As long as the root, the queues and the escapes are kept, only the equation is left to show. -/
theorem Covered.of_kept (h : Covered initial world A) (hkept : Kept world.storage world'.storage)
    (hequation : ∀ asset, initial asset + transferredTotal world' .deposit asset =
      transferredTotal world' .payout asset + transferredTotal world' .escape asset +
        pendingTotal world'.storage asset + supply (unescaped world.storage A) asset +
        queuedTotal world.storage asset) : Covered initial world' A := by
  refine ⟨?_, ?_, ?_, ?_⟩
  · rw [hkept.stateRoot]
    exact h.commits
  · rw [hkept.nextUnprocessedDeposit, hkept.nextDepositId]
    exact h.cursor
  · intro hmode
    rw [hkept.escaped]
    exact h.running (hkept.inactive hmode)
  · intro asset
    rw [queuedTotal_congr hkept.nextUnprocessedDeposit hkept.nextDepositId hkept.deposits,
      unescaped, hkept.escaped]
    exact hequation asset

/-- What leaves the transfers, the credits and the queues alone owes the same. -/
theorem Covered.undisturbed (h : Covered initial world A) (heffect : Undisturbed world world') :
    Covered initial world' A := by
  apply h.of_kept heffect.kept
  intro asset
  have heq := h.equation asset
  simp only [transferredTotal, heffect.transfers, pendingTotal, heffect.pending] at heq ⊢
  exact heq

/-- A deposit is owed by the queue. -/
theorem Covered.deposit (h : Covered initial world A) {account asset : Address} {amount : U128}
    (heffect : DepositMade world world' account asset amount) : Covered initial world' A := by
  have hkept := heffect.kept
  have hescaped : world'.storage.escaped = world.storage.escaped := hkept.escaped
  refine ⟨?_, ?_, ?_, fun x => ?_⟩
  · have hroot : world'.storage.stateRoot = world.storage.stateRoot := hkept.stateRoot
    rw [hroot]
    exact h.commits
  · have hcursor : world'.storage.nextUnprocessedDeposit = world.storage.nextUnprocessedDeposit :=
      hkept.nextUnprocessedDeposit
    rw [hcursor, heffect.next]
    exact h.cursor.trans (Nat.le_succ _)
  · intro hmode
    rw [hescaped]
    exact h.running (hkept.inactive hmode)
  · have heq := h.equation x
    have hamount : (amount.setWidth 256).toNat = amount.toNat := by
      rw [BitVec.toNat_setWidth]
      exact Nat.mod_eq_of_lt (amount.isLt.trans (by norm_num))
    rw [heffect.queuedTotal_eq h.cursor]
    simp only [transferredTotal, heffect.transfers, pendingTotal, heffect.pending, unescaped,
      hescaped, tally_append, tally_cons, tally_nil, true_and, decide_eq_true_eq, hamount,
      reduceCtorEq, false_and, decide_false] at heq ⊢
    simp only [if_false]
    omega

/-- A credit that is delivered is owed no more. -/
theorem Covered.claim (h : Covered initial world A)
    (heffect : Paid world world' (fun _ _ => 0) fun _ _ => 0) : Covered initial world' A := by
  apply h.of_kept heffect.kept
  intro asset
  have heq := h.equation asset
  have hpaid := heffect.total_eq asset
  have hescapes := heffect.escapedTotal_eq asset
  rw [heffect.deposits]
  simp only [Finset.sum_const_zero] at hpaid hescapes
  omega

/-- An account that escapes is owed no more. -/
theorem Covered.escape [MathLibrary] (hfree : CollisionFree B256) (h : Covered initial world A)
    {id : Address} {nextNonce : U64} {balances : List AssetBalance}
    {sideNodes : List (PatriciaProof.SideNode B256)}
    (heffect : EscapeMade world world' id nextNonce balances sideNodes) :
      Covered initial world' A := by
  have hkept := heffect.paid.kept
  have hmem := PatriciaProof.verifyAccount_sound hfree h.commits heffect.proof
  refine ⟨?_, ?_, ?_, fun asset => ?_⟩
  · have hroot : world'.storage.stateRoot = world.storage.stateRoot := hkept.stateRoot
    rw [hroot]
    exact h.commits
  · rw [hkept.nextUnprocessedDeposit, hkept.nextDepositId]
    exact h.cursor
  · intro hmode
    rw [hkept.escapeMode heffect.active] at hmode
    cases hmode
  · have heq := h.equation asset
    have hpaid : transferredTotal world' .payout asset + pendingTotal world'.storage asset =
        transferredTotal world .payout asset + pendingTotal world.storage asset :=
      (heffect.paid.total_eq asset).trans (by simp; rfl)
    have hescapes : transferredTotal world' .escape asset = transferredTotal world .escape asset +
        tally (fun b => b.asset = asset) (fun b => b.available.toNat) balances :=
      (heffect.paid.escapedTotal_eq asset).trans (by rw [sum_escapedBalances]; rfl)
    have hbalances : tally (fun b => b.asset = asset) (fun b => b.available.toNat) balances =
        (⟨id, balances, nextNonce⟩ : Account).total asset := by
      simp only [tally, Account.total, decide_eq_true_eq]
      rfl
    have hdeposits : transferredTotal world' .deposit asset =
        transferredTotal world .deposit asset :=
      heffect.paid.deposits asset
    have hleft := supply_unescaped_update h.commits.nodup hmem heffect.first hkept.escaped asset
    have hqueued : queuedTotal world'.storage asset = queuedTotal world.storage asset :=
      queuedTotal_congr hkept.nextUnprocessedDeposit hkept.nextDepositId hkept.deposits asset
    omega

/-- The books are the same for every committed set. -/
theorem Covered.of_commits (hfree : CollisionFree B256) (h : Covered initial world A)
    {A' : List Account} (hA' : Commits A' world.storage.stateRoot) : Covered initial world A' := by
  refine ⟨hA', h.cursor, h.running, fun asset => ?_⟩
  have hsame : supply (unescaped world.storage A') asset =
      supply (unescaped world.storage A) asset :=
    supply_perm ((hA'.perm hfree h.commits).filter _) asset
  rw [hsame]
  exact h.equation asset

/-- What is owed is held, when the initial holdings cover the initial balances. -/
theorem Covered.holds_owed {start : World B256} (h : Covered initial world A)
    (haccounted : Accounted start world) (hstart : start.transfers = [])
    (hcovered : ∀ asset, initial asset ≤ (start.holdings asset).toNat) (asset : Address) :
    supply (unescaped world.storage A) asset + queuedTotal world.storage asset +
      pendingTotal world.storage asset ≤ (world.holdings asset).toNat := by
  have heq := h.equation asset
  have hheld := haccounted asset
  have hinitial := hcovered asset
  have hzero : ∀ kind, transferredTotal start kind asset = 0 := by
    intro kind
    rw [transferredTotal, hstart, tally_nil]
  simp only [outgoing, hzero] at hheld
  omega

end

section

variable [Bytes32 B256] [Sha256 B256] [Secp256k1 B256] [DecidableEq B256] [ISP1Verifier B256]
  {self : Immutables B256}

/-- A batch turns deposits into balances and balances into payouts. -/
theorem Covered.settle (hfree : CollisionFree B256) (h : Covered initial world A)
    {call : SettleCall B256} {publicOutput : PublicOutput B256} {cursor : U64}
    {input : BatchInput B256} {output : BatchOutput B256}
    (heffect : BatchMade self world world' call publicOutput cursor)
    (hproves : Proves call (input, output)) :
      Covered initial world' (nextState A input output) := by
  have hstages : Nonempty (Settlement input output) := exists_settlement hproves.1
  rcases hstages with ⟨s⟩
  have hpublic := heffect.publicOutput_eq hproves
  have hagree := heffect.agreement hfree s hpublic
  have hkept := heffect.paid.kept
  have hA : Commits A input.expectedOldStateRoot := by
    rw [hagree.stateRoot]
    exact h.commits
  have hescaped : ∀ id, world.storage.escaped id = false := h.running heffect.running
  have hescaped' : ∀ id, world'.storage.escaped id = false := by
    intro id
    rw [hkept.escaped]
    exact hescaped id
  refine ⟨?_, ?_, fun _ => hescaped', fun asset => ?_⟩
  · rw [hkept.stateRoot, ← hpublic]
    exact s.nextState_root hfree hA
  · rw [hkept.nextUnprocessedDeposit, hkept.nextDepositId]
    exact heffect.newDepositCursor.2
  · have heq := h.equation asset
    have hpaid : transferredTotal world' .payout asset + pendingTotal world'.storage asset =
        transferredTotal world .payout asset + pendingTotal world.storage asset +
          ∑ recipient, call.owed recipient asset := heffect.paid.total_eq asset
    have howed : ∑ recipient, call.owed recipient asset =
        tally (fun w => w.asset = asset) (fun w => w.amount.toNat) call.withdrawals +
          tally (fun w => w.asset = asset) (fun w => w.amount.toNat) call.forcedWithdrawals := by
      simp only [SettleCall.owed, Finset.sum_add_distrib, sum_withdrawalsTo,
        sum_forcedWithdrawalsTo]
    have hwithdrawals : tally (fun w => w.asset = asset)
        (fun w => w.amount.toNat) call.withdrawals =
        tally (fun w => w.asset = asset) (fun w => w.amount.toNat) output.withdrawals := by
      rw [hagree.withdrawals]
    have hforced : tally (fun w => w.asset = asset)
        (fun w => w.amount.toNat) call.forcedWithdrawals =
        tally (fun w => w.asset = asset) (fun w => w.amount.toNat) output.forcedWithdrawals := by
      have hfields := congrArg (tally (fun fields : QueueFields => fields.2.2.1 = asset)
        fun fields => fields.2.2.2.toNat) hagree.forcedWithdrawals
      rw [tally_map, tally_map] at hfields
      exact hfields
    have hescapes : transferredTotal world' .escape asset = transferredTotal world .escape asset :=
      (heffect.paid.escapedTotal_eq asset).trans (by simp; rfl)
    have hdeposits : transferredTotal world' .deposit asset =
        transferredTotal world .deposit asset :=
      heffect.paid.deposits asset
    have hqueued := hagree.queuedTotal_eq heffect.newDepositCursor.2 hkept.nextUnprocessedDeposit
      hkept.nextDepositId hkept.deposits asset
    have hsupply := supply_nextState hfree s hA asset
    rw [unescaped_eq hescaped] at heq
    rw [unescaped_eq hescaped']
    omega

variable [MathLibrary]

/-- A transaction keeps the account of what is owed. -/
theorem Effect.covered (hfree : CollisionFree B256) (hverifier : VerifierSound self)
    {calls : List (SettleCall B256)} {escaped : List Address}
    (heffect : Effect self world world' calls escaped) (h : ∃ A, Covered initial world A) :
    ∃ A, Covered initial world' A := by
  rcases h with ⟨A, hA⟩
  cases heffect with
  | undisturbed heffect => exact ⟨A, hA.undisturbed heffect⟩
  | deposit heffect => exact ⟨A, hA.deposit heffect⟩
  | claim heffect => exact ⟨A, hA.claim heffect⟩
  | escape heffect => exact ⟨A, hA.escape hfree heffect⟩
  | @settle call publicOutput cursor heffect =>
      rcases heffect.verified with ⟨proof, hproof⟩
      rcases hverifier call.publicValues proof hproof with ⟨input, output, hsettle, hpublic⟩
      exact ⟨nextState A input output, hA.settle hfree heffect ⟨hsettle, hpublic⟩⟩

omit [Secp256k1 B256] [DecidableEq B256] in
/-- What a transaction does to the holdings is accounted for. -/
theorem Effect.accounted {calls : List (SettleCall B256)} {escaped : List Address}
    (heffect : Effect self world world' calls escaped) : Accounted world world' := by
  cases heffect with
  | undisturbed heffect =>
      intro asset
      have hasset := heffect.holdings asset
      simp only [outgoing, transferredTotal, heffect.transfers]
      omega
  | deposit heffect => exact heffect.accounted
  | claim heffect => exact heffect.accounted
  | escape heffect => exact heffect.paid.accounted
  | settle heffect => exact heffect.paid.accounted

/-- The books of every run: what is owed, and what is held. -/
theorem books_run (hfree : CollisionFree B256) (hverifier : VerifierSound self)
    {A₀ : List Account} {initialStateRoot : B256} (hgenesis : computeRoot A₀ = .ok initialStateRoot)
    (initialBatchId : U64) (holdings : Address → U256) (transactions : List (Context × Call B256)) :
    let start := genesis initialStateRoot initialBatchId holdings
    let world := run self start transactions
    (∃ A, Covered (supply A₀) world A) ∧ Accounted start world := by
  intro start world
  apply run_invariant (P := fun world =>
    (∃ A, Covered (supply A₀) world A) ∧ Accounted start world)
  · intro world transaction h
    have heffect := step_effect self world transaction
    exact ⟨heffect.covered hfree hverifier h.1, h.2.trans heffect.accounted⟩
  · refine ⟨⟨A₀, Commits.of_computeRoot hgenesis, le_rfl, fun _ _ => rfl, fun asset => ?_⟩,
      Accounted.refl _⟩
    have hall : unescaped start.storage A₀ = A₀ := unescaped_eq (fun _ => rfl) A₀
    rw [hall]
    simp [start, genesis, initialStorage, transferredTotal, pendingTotal, queuedTotal,
      queuedDeposits]

/-- In every run with a sound verifier the contract holds, in each asset, at least the balances of
the committed accounts that have not escaped, the deposits in the queue and the credits,
when its initial holdings cover the initial balances. -/
theorem solvent (hfree : CollisionFree B256) (hverifier : VerifierSound self) {A₀ : List Account}
    {initialStateRoot : B256} (hgenesis : computeRoot A₀ = .ok initialStateRoot)
    {holdings : Address → U256} (hcovered : ∀ asset, supply A₀ asset ≤ (holdings asset).toNat)
    (initialBatchId : U64) (transactions : List (Context × Call B256)) :
    let world := run self (genesis initialStateRoot initialBatchId holdings) transactions
    (∃ A : List Account, computeRoot A = .ok world.storage.stateRoot) ∧
      ∀ A : List Account, computeRoot A = .ok world.storage.stateRoot → ∀ asset,
        supply (unescaped world.storage A) asset + queuedTotal world.storage asset +
          pendingTotal world.storage asset ≤ (world.holdings asset).toNat := by
  intro world
  rcases books_run hfree hverifier hgenesis initialBatchId holdings transactions with
    ⟨⟨A, hA⟩, haccounted⟩
  refine ⟨⟨A, hA.commits.root_eq⟩, fun A' hA' asset => ?_⟩
  have hcommitted := hA.of_commits hfree (Commits.of_computeRoot hA')
  exact hcommitted.holds_owed haccounted rfl hcovered asset

end

/-- What the contract of the small exchange holds covers its accounts. -/
theorem supply_testAccounts (asset : Address) :
    supply testAccounts asset ≤ (testHoldings asset).toNat := by
  have hsupply : supply testAccounts asset =
      if FixedBytes.replicate 20 7 = asset then 5 else 0 := by
    simp [supply, testAccounts, Account.total, Account.entryTotal]
  rw [hsupply, testHoldings]
  by_cases hasset : asset = FixedBytes.replicate 20 7
  · subst hasset
    rfl
  · rw [if_neg hasset, if_neg (Ne.symm hasset)]
    exact Nat.zero_le _

/-- The small exchange settles a batch and stays solvent. -/
theorem solvent_testTransactions :
    let start := genesis testRoot 0 testHoldings
    let world := run testContract start testTransactions
    (settlements testContract start testTransactions).length = 1 ∧
      (∃ A : List Account, computeRoot A = .ok world.storage.stateRoot) ∧
      ∀ A : List Account, computeRoot A = .ok world.storage.stateRoot → ∀ asset,
        supply (unescaped world.storage A) asset + queuedTotal world.storage asset +
          pendingTotal world.storage asset ≤ (world.holdings asset).toNat := by
  intro start world
  have hroot : computeRoot testAccounts = .ok testRoot := by decide +kernel
  exact ⟨by decide +kernel, solvent IdealDigest.collisionFree verifierSound_testContract hroot
    supply_testAccounts 0 testTransactions⟩

end Contract

end ZkClob
