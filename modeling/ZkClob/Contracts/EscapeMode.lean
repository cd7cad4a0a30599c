import ZkClob.Contracts.DepositQueue
import ZkClob.Contracts.Solvency

/-!
# What escape mode leaves behind

Once escape mode is active no batch consumes the deposit queue any more.  Credits can still be
claimed and committed accounts can still escape; a deposit that waits in the queue is
neither, and the contract goes on accepting deposits.

Main results:

- Theorem {lit}`Contract.queuedTotal_eq_zero_iff`: the queue owes nothing in an asset exactly
  when it holds no deposit of it.
- Theorem {lit}`Contract.claimable_iff`: what came in and has not been delivered is claimable
  exactly when no deposit waits.
-/

namespace ZkClob

open Foundations Patricia

namespace Contract

section

variable {B256 : Type}

/-- What has been delivered to users, as a payout or as an escape, and what they can still claim,
as a credit or by an escape, is all that came in. -/
def NothingLeftBehind (world : World B256) (A : List Account) (asset : Address) : Prop :=
  transferredTotal world .deposit asset = outgoing world asset +
    (pendingTotal world.storage asset + supply (unescaped world.storage A) asset)

/-- No deposit of an asset waits in the queue. -/
def NoneQueued (storage : Storage B256) (asset : Address) : Prop :=
  ∀ id : U64, storage.nextUnprocessedDeposit ≤ id → id < storage.nextDepositId →
    (storage.deposits id).asset ≠ asset

/-- The queue owes nothing in an asset exactly when it holds no deposit of it. -/
theorem queuedTotal_eq_zero_iff {storage : Storage B256} (h : QueuePositive storage)
    (asset : Address) : queuedTotal storage asset = 0 ↔ NoneQueued storage asset := by
  rw [queuedTotal, tally_queuedDeposits]
  constructor
  · intro hzero id hle hlt hasset
    rw [BitVec.le_def] at hle
    rw [BitVec.lt_def] at hlt
    have hmem : id.toNat ∈ List.range' storage.nextUnprocessedDeposit.toNat
        (storage.nextDepositId.toNat - storage.nextUnprocessedDeposit.toNat) :=
      List.mem_range'_1.mpr ⟨hle, by omega⟩
    have hamount : (depositAt storage id.toNat).2.2.2.toNat ≤ 0 := by
      rw [← hzero]
      apply le_tally (f := fun n => (depositAt storage n).2.2.2.toNat) hmem
      simpa [depositAt] using hasset
    apply h id.toNat hlt
    apply BitVec.eq_of_toNat_eq
    simpa using hamount
  · intro hnone
    apply tally_eq_zero
    intro n hn
    rw [List.mem_range'_1] at hn
    have hnext := storage.nextDepositId.isLt
    have hid : (BitVec.ofNat 64 n).toNat = n := by
      rw [BitVec.toNat_ofNat, Nat.mod_eq_of_lt (by omega)]
    apply decide_eq_false
    apply hnone (BitVec.ofNat 64 n)
    · rw [BitVec.le_def, hid]
      exact hn.1
    · rw [BitVec.lt_def, hid]
      omega

variable [Sha256 B256]

/-- Without initial balances, all that came in is delivered or claimable exactly when no deposit
waits. -/
theorem Covered.nothingLeftBehind_iff {initial : Address → Nat} {world : World B256}
    {A : List Account} (h : Covered initial world A) (hempty : ∀ asset, initial asset = 0)
    (hpositive : QueuePositive world.storage) (asset : Address) :
    NothingLeftBehind world A asset ↔ NoneQueued world.storage asset := by
  have heq := h.equation asset
  rw [hempty] at heq
  rw [← queuedTotal_eq_zero_iff hpositive, NothingLeftBehind, outgoing]
  omega

variable [Bytes32 B256] [Secp256k1 B256] [DecidableEq B256] [ISP1Verifier B256] [MathLibrary]
  {self : Immutables B256}

/-- In every run with a sound verifier and without initial balances, in escape mode: all that came
in is delivered or claimable in an asset exactly when no deposit of it waits in the queue. -/
theorem claimable_iff (hfree : CollisionFree B256) (hverifier : VerifierSound self)
    {A₀ : List Account} {initialStateRoot : B256} (hgenesis : computeRoot A₀ = .ok initialStateRoot)
    (hempty : ∀ asset, supply A₀ asset = 0) (initialBatchId : U64) (holdings : Address → U256)
    (transactions : List (Context × Call B256)) :
    let world := run self (genesis initialStateRoot initialBatchId holdings) transactions
    world.storage.escapeMode = true → ∀ A, computeRoot A = .ok world.storage.stateRoot →
      ∀ asset, NothingLeftBehind world A asset ↔ NoneQueued world.storage asset := by
  intro world _ A hA asset
  rcases books_run hfree hverifier hgenesis initialBatchId holdings transactions with
    ⟨⟨A', hA'⟩, _⟩
  have hcommitted := hA'.of_commits hfree (Commits.of_computeRoot hA)
  apply hcommitted.nothingLeftBehind_iff hempty
  exact queue_positive initialStateRoot initialBatchId holdings transactions

end

/-- An exchange without balances. -/
def testEmptyAccounts : List Account :=
  [⟨FixedBytes.replicate 20 1, [], 0⟩]

/-- The root of the exchange without balances. -/
def testEmptyRoot : IdealDigest :=
  (computeRoot testEmptyAccounts).toOption.getD ⟨[]⟩

/-- An account deposits, and escape mode is activated before a batch consumes the deposit. -/
def testStranded : List (Context × Call IdealDigest) :=
  [(testContext 3 10, .depositToken 0 (FixedBytes.replicate 20 7) 4 (.delivered [])),
    (testContext 2 20, .requestForcedWithdrawal (FixedBytes.replicate 20 7) 3),
    (testContext 4 200, .activateEscapeMode)]

/-- The deposit is neither delivered nor claimable. -/
theorem deposit_left_behind :
    let world := run testContract (genesis testEmptyRoot 0 fun _ => 0) testStranded
    VerifierSound testContract ∧ (∀ asset, supply testEmptyAccounts asset = 0) ∧
      world.storage.escapeMode = true ∧
      computeRoot testEmptyAccounts = .ok world.storage.stateRoot ∧
      ¬ NothingLeftBehind world testEmptyAccounts (FixedBytes.replicate 20 7) := by
  intro world
  refine ⟨verifierSound_testContract, fun _ => rfl, by decide +kernel, by decide +kernel, ?_⟩
  have hreceived : transferredTotal world .deposit (FixedBytes.replicate 20 7) = 4 := by
    decide +kernel
  have hdelivered : outgoing world (FixedBytes.replicate 20 7) = 0 := by decide +kernel
  have hpending : pendingTotal world.storage (FixedBytes.replicate 20 7) = 0 := by
    have hcredits : world.storage.pendingWithdrawals = fun _ _ => 0 := rfl
    simp [pendingTotal, hcredits]
  have hcommitted : supply (unescaped world.storage testEmptyAccounts)
      (FixedBytes.replicate 20 7) = 0 := by
    decide +kernel
  rw [NothingLeftBehind, hreceived, hdelivered, hpending, hcommitted]
  decide

/-- The equivalence for the deposit that is left behind. -/
theorem claimable_iff_testStranded :
    let world := run testContract (genesis testEmptyRoot 0 fun _ => 0) testStranded
    world.storage.escapeMode = true ∧ computeRoot testEmptyAccounts = .ok world.storage.stateRoot ∧
      ∀ asset, NothingLeftBehind world testEmptyAccounts asset ↔
        NoneQueued world.storage asset := by
  intro world
  have hgenesis : computeRoot testEmptyAccounts = .ok testEmptyRoot := by decide +kernel
  have hmode : (run testContract (genesis testEmptyRoot 0 fun _ => 0)
      testStranded).storage.escapeMode =
      true := by
    decide +kernel
  have hroot : computeRoot testEmptyAccounts =
      .ok (run testContract (genesis testEmptyRoot 0 fun _ => 0)
        testStranded).storage.stateRoot := by
    decide +kernel
  exact ⟨hmode, hroot, claimable_iff IdealDigest.collisionFree verifierSound_testContract hgenesis
    (fun _ => rfl) 0 (fun _ => 0) testStranded hmode testEmptyAccounts hroot⟩

end Contract

end ZkClob
