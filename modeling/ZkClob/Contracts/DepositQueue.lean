import ZkClob.Contracts.Queues
import ZkClob.Settlement.Acceptance

/-!
# The deposit queue meets the guest

The contract decides which deposits enter the queue, the guest which of them a batch may
consume, and it consumes them in order.  Both ask for positive amounts and the queue counts
its ids, but only the guest knows the configured assets.

Main results:

- Theorem {lit}`Contract.queue_positive`: every queued deposit has a positive amount.
- Theorem {lit}`Contract.deposits_accepted_iff`: the pending deposits pass the checks of
  the guest exactly when all their assets are configured.
-/

namespace ZkClob

open Foundations

namespace Contract

section

variable {B256 : Type} {world world' : World B256}

/-! ## Amounts in the queue -/

/-- Every deposit that was queued has a positive amount. -/
def QueuePositive (storage : Storage B256) : Prop :=
  ∀ n < storage.nextDepositId.toNat, (depositAt storage n).2.2.2 ≠ 0

/-- Without a new deposit the amounts stay. -/
theorem QueuePositive.of_same {storage storage' : Storage B256} (h : QueuePositive storage)
    (hnext : storage'.nextDepositId = storage.nextDepositId)
    (hdeposits : storage'.deposits = storage.deposits) : QueuePositive storage' := by
  intro n hn
  rw [hnext] at hn
  have hpositive := h n hn
  simp only [depositAt, hdeposits] at hpositive ⊢
  exact hpositive

/-- A new deposit is positive. -/
theorem QueuePositive.deposit (h : QueuePositive world.storage) {account asset : Address}
    {amount : U128} (hmade : DepositMade world world' account asset amount) :
    QueuePositive world'.storage := by
  intro n hn
  rw [hmade.next] at hn
  by_cases hnew : n = world.storage.nextDepositId.toNat
  · have hid : BitVec.ofNat 64 n = world.storage.nextDepositId := by
      rw [hnew]
      simp
    simp only [depositAt, hmade.kept.deposits, hid, Function.update_self]
    exact hmade.positive
  · have hold : n < world.storage.nextDepositId.toNat := by omega
    rw [hmade.queuesGrow.deposits n hold]
    exact h n hold

variable [Bytes32 B256] [Sha256 B256] [MathLibrary] [ISP1Verifier B256] {self : Immutables B256}

/-- A transaction keeps the queued amounts positive. -/
theorem Effect.queuePositive {calls : List (SettleCall B256)} {escaped : List Address}
    (heffect : Effect self world world' calls escaped) (h : QueuePositive world.storage) :
    QueuePositive world'.storage := by
  cases heffect with
  | undisturbed heffect => exact h.of_same heffect.kept.nextDepositId heffect.kept.deposits
  | deposit heffect => exact h.deposit heffect
  | claim heffect => exact h.of_same heffect.kept.nextDepositId heffect.kept.deposits
  | escape heffect => exact h.of_same heffect.paid.kept.nextDepositId heffect.paid.kept.deposits
  | settle heffect => exact h.of_same heffect.paid.kept.nextDepositId heffect.paid.kept.deposits

variable [DecidableEq B256]

/-- In every run the queued amounts are positive. -/
theorem queue_positive (initialStateRoot : B256) (initialBatchId : U64) (holdings : Address → U256)
    (transactions : List (Context × Call B256)) :
    QueuePositive
      (run self (genesis initialStateRoot initialBatchId holdings) transactions).storage := by
  apply run_invariant (P := fun world : World B256 => QueuePositive world.storage)
  · intro world transaction h
    exact (step_effect self world transaction).queuePositive h
  · intro n hn
    cases hn

/-! ## Consumption -/

/-- In every run and for every cursor in the queue, the deposits from the cursor on pass the checks
of the guest exactly when the asset of each of them is configured. -/
theorem deposits_accepted_iff (self : Immutables B256) (initialStateRoot : B256)
    (initialBatchId : U64) (holdings : Address → U256) (transactions : List (Context × Call B256))
    (cursor : U64) (config : ExchangeConfig) :
    let storage :=
      (run self (genesis initialStateRoot initialBatchId holdings) transactions).storage
    cursor.toNat ≤ storage.nextDepositId.toNat →
      ((∃ newCursor, validateDeposits
          (queuedDeposits storage cursor.toNat (storage.nextDepositId.toNat - cursor.toNat)) cursor
          config = .ok newCursor) ↔
        ∀ id : U64, cursor ≤ id → id < storage.nextDepositId →
          (config.asset (storage.deposits id).asset).isSome) := by
  intro storage hcursor
  have hpositive : QueuePositive storage := queue_positive initialStateRoot initialBatchId holdings
    transactions
  have hnext := storage.nextDepositId.isLt
  rw [exists_validateDeposits, length_queuedDeposits]
  constructor
  · rintro ⟨_, _, hall⟩ id hle hlt
    rw [BitVec.le_def] at hle
    rw [BitVec.lt_def] at hlt
    have hmem : depositOf (depositAt storage id.toNat) ∈
        queuedDeposits storage cursor.toNat (storage.nextDepositId.toNat - cursor.toNat) :=
      List.mem_map_of_mem (List.mem_range'_1.mpr ⟨hle, by omega⟩)
    have hasset := (hall _ hmem).2
    simpa [depositOf, depositAt] using hasset
  · intro hall
    refine ⟨ids_queuedDeposits storage (by omega), by omega, fun d hd => ?_⟩
    rcases List.mem_map.mp hd with ⟨n, hn, rfl⟩
    rw [List.mem_range'_1] at hn
    have hlt : n < storage.nextDepositId.toNat := by omega
    have hid : (BitVec.ofNat 64 n).toNat = n := by
      rw [BitVec.toNat_ofNat, Nat.mod_eq_of_lt (by omega)]
    refine ⟨hpositive n hlt, ?_⟩
    apply hall (BitVec.ofNat 64 n)
    · rw [BitVec.le_def, hid]
      exact hn.1
    · rw [BitVec.lt_def, hid]
      exact hlt

end

/-- An account deposits a token that the exchange does not trade, another account one that it
does. -/
def testDeposits : List (Context × Call IdealDigest) :=
  [(testContext 3 10, .depositToken 0 (FixedBytes.replicate 20 8) 4 (.delivered [])),
    (testContext 2 20, .depositToken 0 (FixedBytes.replicate 20 7) 4 (.delivered []))]

/-- The guest accepts the configuration of the small exchange, but not its queue. -/
theorem deposits_not_accepted :
    validateConfig testConfig testAccounts = .ok () ∧
      let storage := (run testContract (genesis testRoot 0 testHoldings) testDeposits).storage
      storage.nextDepositId = 2 ∧
        validateDeposits (queuedDeposits storage 0 2) 0 testConfig =
          .error (.error .UnknownAsset) := by
  decide +kernel

/-- From the second deposit on the queue is accepted. -/
theorem deposits_accepted_testDeposits :
    let storage := (run testContract (genesis testRoot 0 testHoldings) testDeposits).storage
    (1 : U64).toNat ≤ storage.nextDepositId.toNat ∧
      ((∃ newCursor, validateDeposits
          (queuedDeposits storage (1 : U64).toNat (storage.nextDepositId.toNat - (1 : U64).toNat)) 1
          testConfig = .ok newCursor) ↔
        ∀ id : U64, 1 ≤ id → id < storage.nextDepositId →
          (testConfig.asset (storage.deposits id).asset).isSome) := by
  intro storage
  have hcursor : (1 : U64).toNat ≤
      (run testContract (genesis testRoot 0 testHoldings)
        testDeposits).storage.nextDepositId.toNat := by
    decide +kernel
  exact ⟨hcursor, deposits_accepted_iff testContract testRoot 0 testHoldings testDeposits 1
    testConfig hcursor⟩

end Contract

end ZkClob
