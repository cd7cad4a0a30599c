import ZkClob.Contracts.Effects
import ZkClob.Contracts.Encodings
import ZkClob.Contracts.PatriciaFold
import ZkClob.Settlement.LedgerEquation

/-!
# The contract and the guest agree

The guest never sees the contract.  A settled batch stands on public values that the
verifier accepts; when it only accepts what the guest committed to, the hashes tie the
batch to the queues and to the calldata of the contract.

Main results:

- Theorem {lit}`Contract.BatchMade.agreement`: the batch behind a settled call consumed the
  queue entries between the cursors, and the calldata lists what it executed.
- Theorem {lit}`Contract.exists_batches`: with a sound verifier, every settled call has a
  batch behind it.
-/

namespace ZkClob

open Foundations

namespace Contract

variable {B256 : Type}

/-! ## Queue entries -/

/-- The hashed fields of the queued deposit with a number. -/
def depositAt (storage : Storage B256) (n : Nat) : QueueFields :=
  let id : U64 := BitVec.ofNat 64 n
  let queued := storage.deposits id
  (id, queued.account, queued.asset, queued.amount)

/-- The hashed fields of the queued request with a number. -/
def requestAt (storage : Storage B256) (n : Nat) : QueueFields :=
  let id : U64 := BitVec.ofNat 64 n
  let queued := storage.forcedWithdrawalRequests id
  (id, queued.account, queued.asset, queued.amount)

/-- A deposit of the guest with the given fields. -/
def depositOf (fields : QueueFields) : ZkClob.Deposit :=
  ⟨fields.1, fields.2.1, fields.2.2.1, fields.2.2.2, none⟩

/-- A forced withdrawal of the guest with the given fields. -/
def forcedWithdrawalOf (fields : QueueFields) : ZkClob.ForcedWithdrawal :=
  ⟨fields.1, fields.2.1, fields.2.2.1, fields.2.2.2, none⟩

@[simp]
theorem fields_depositOf (fields : QueueFields) : (depositOf fields).fields = fields := rfl

@[simp]
theorem fields_forcedWithdrawalOf (fields : QueueFields) :
    (forcedWithdrawalOf fields).fields = fields := rfl

/-- The deposits between two cursors, as the guest lists them. -/
def queuedDeposits (storage : Storage B256) (start count : Nat) : List ZkClob.Deposit :=
  (List.range' start count).map fun n => depositOf (depositAt storage n)

/-- The requests between two cursors, as the guest lists them. -/
def queuedRequests (storage : Storage B256) (start count : Nat) : List ZkClob.ForcedWithdrawal :=
  (List.range' start count).map fun n => forcedWithdrawalOf (requestAt storage n)

@[simp]
theorem length_queuedDeposits (storage : Storage B256) (start count : Nat) :
    (queuedDeposits storage start count).length = count := by
  simp [queuedDeposits]

@[simp]
theorem length_queuedRequests (storage : Storage B256) (start count : Nat) :
    (queuedRequests storage start count).length = count := by
  simp [queuedRequests]

@[simp]
theorem fields_queuedDeposits (storage : Storage B256) (start count : Nat) :
    (queuedDeposits storage start count).map ZkClob.Deposit.fields =
      (List.range' start count).map (depositAt storage) := by
  simp [queuedDeposits, Function.comp_def]

@[simp]
theorem fields_queuedRequests (storage : Storage B256) (start count : Nat) :
    (queuedRequests storage start count).map ZkClob.ForcedWithdrawal.fields =
      (List.range' start count).map (requestAt storage) := by
  simp [queuedRequests, Function.comp_def]

/-- Ids that fit are the numbers that they were made of. -/
theorem ids_range' {start count : Nat} (h : start + count ≤ 2 ^ 64) :
    (List.range' start count).map (fun n => (BitVec.ofNat 64 n).toNat) =
      List.range' start count := by
  refine (List.map_congr_left fun n hn => ?_).trans (List.map_id _)
  rw [List.mem_range'_1] at hn
  rw [BitVec.toNat_ofNat, Nat.mod_eq_of_lt (by omega), id]

/-- The ids of the deposits between two cursors. -/
theorem ids_queuedDeposits (storage : Storage B256) {start count : Nat}
    (h : start + count ≤ 2 ^ 64) :
    (queuedDeposits storage start count).map (fun d => d.id.toNat) = List.range' start count := by
  rw [queuedDeposits, List.map_map]
  exact ids_range' h

/-- The ids of the requests between two cursors. -/
theorem ids_queuedRequests (storage : Storage B256) {start count : Nat}
    (h : start + count ≤ 2 ^ 64) :
    (queuedRequests storage start count).map (fun r => r.id.toNat) = List.range' start count := by
  rw [queuedRequests, List.map_map]
  exact ids_range' h

theorem holdsDeposit_queuedDeposits (storage : Storage B256) (start count : Nat) :
    ∀ d ∈ queuedDeposits storage start count, storage.HoldsDeposit d := by
  intro d hd
  rcases List.mem_map.mp hd with ⟨n, _, rfl⟩
  rfl

theorem holdsRequest_queuedRequests (storage : Storage B256) (start count : Nat) :
    ∀ r ∈ queuedRequests storage start count, storage.HoldsRequest r := by
  intro r hr
  rcases List.mem_map.mp hr with ⟨n, _, rfl⟩
  exact ⟨_, rfl⟩

section

variable [Sha256 B256]

/-- The hash over a range of the deposit queue is that of the listed deposits. -/
theorem hashDeposits_eq {storage : Storage B256} {start stop : U64} {count : Nat}
    (hstop : stop.toNat = start.toNat + count) :
    hashDeposits storage start stop = .ok (hash (queuedDeposits storage start.toNat count)) := by
  have hlt := stop.isLt
  have hencode : encodeDeposits storage start stop =
      .ok (hashInput (queuedDeposits storage start.toNat count)) := by
    apply encodeDeposits_eq
    · rw [length_queuedDeposits]
      exact ids_queuedDeposits storage (by omega)
    · rw [length_queuedDeposits]
      exact hstop
    · exact holdsDeposit_queuedDeposits storage start.toNat count
  rw [hashDeposits, hencode]
  rfl

/-- The hash over a range of the request queue is that of the listed requests. -/
theorem hashForcedWithdrawalRequests_eq {storage : Storage B256} {start stop : U64} {count : Nat}
    (hstop : stop.toNat = start.toNat + count) :
    hashForcedWithdrawalRequests storage start stop =
      .ok (hash (queuedRequests storage start.toNat count)) := by
  have hlt := stop.isLt
  have hencode : encodeForcedWithdrawalRequests storage start stop =
      .ok (hashInput (queuedRequests storage start.toNat count)) := by
    apply encodeForcedWithdrawalRequests_eq
    · rw [length_queuedRequests]
      exact ids_queuedRequests storage (by omega)
    · rw [length_queuedRequests]
      exact hstop
    · exact holdsRequest_queuedRequests storage start.toNat count
  rw [hashForcedWithdrawalRequests, hencode]
  rfl

/-- Lists with one hash have the same fields. -/
theorem fields_eq_of_hash_eq (hfree : CollisionFree B256)
    {forcedWithdrawals : List ForcedWithdrawal} {executed : List ZkClob.ForcedWithdrawal}
    (h : hashForcedWithdrawals B256 forcedWithdrawals = hash executed) :
    forcedWithdrawals.map ForcedWithdrawal.fields =
      executed.map ZkClob.ForcedWithdrawal.fields := by
  have hlisted : (forcedWithdrawals.map fun w => forcedWithdrawalOf w.fields).map
      ZkClob.ForcedWithdrawal.fields = forcedWithdrawals.map ForcedWithdrawal.fields := by
    rw [List.map_map]
    rfl
  rw [hashForcedWithdrawals, encodeForcedWithdrawals_eq hlisted] at h
  rw [← hlisted]
  exact forcedWithdrawalsHash_injective (updateHash_eq_of_hash_eq hfree h)

end

/-! ## The batch behind a settled call -/

section

variable [Bytes32 B256] [Sha256 B256] [Secp256k1 B256] [DecidableEq B256] [ISP1Verifier B256]

/-- The verifier accepts only public values that the guest committed to. -/
def VerifierSound (self : Immutables B256) : Prop :=
  ∀ publicValues proof,
    ISP1Verifier.verifyProof self.VERIFIER self.PROGRAM_VKEY publicValues proof = true →
      ∃ input output, settleBatch input = .ok output ∧ publicValues = abiEncode output.publicOutput

omit [ISP1Verifier B256] in
/-- The guest accepted a batch and committed to the public values of a call. -/
def Proves (call : SettleCall B256) (batch : BatchInput B256 × BatchOutput B256) : Prop :=
  settleBatch batch.1 = .ok batch.2 ∧ call.publicValues = abiEncode batch.2.publicOutput

/-- What a batch has in common with the contract that settles it. -/
structure Agreement (storage : Storage B256) (call : SettleCall B256) (input : BatchInput B256)
    (output : BatchOutput B256) (newDepositCursor newForcedWithdrawalCursor : U64) : Prop where
  stateRoot : input.expectedOldStateRoot = storage.stateRoot
  depositCursor : newDepositCursor.toNat =
    storage.nextUnprocessedDeposit.toNat + input.deposits.length
  deposits : input.deposits.map ZkClob.Deposit.fields =
    (List.range' storage.nextUnprocessedDeposit.toNat input.deposits.length).map (depositAt storage)
  forcedWithdrawalCursor : newForcedWithdrawalCursor.toNat =
    storage.nextUnprocessedForcedWithdrawal.toNat + input.forcedWithdrawals.length
  requests : input.forcedWithdrawals.map ZkClob.ForcedWithdrawal.fields =
    (List.range' storage.nextUnprocessedForcedWithdrawal.toNat input.forcedWithdrawals.length).map
      (requestAt storage)
  withdrawals : call.withdrawals = output.withdrawals
  forcedWithdrawals : call.forcedWithdrawals.map ForcedWithdrawal.fields =
    output.forcedWithdrawals.map ZkClob.ForcedWithdrawal.fields

variable {self : Immutables B256} {world world' : World B256} {call : SettleCall B256}
  {input : BatchInput B256} {output : BatchOutput B256} {publicOutput : PublicOutput B256}
  {cursor : U64}

/-- The public values of a settled call are those of the batch behind it. -/
theorem BatchMade.publicOutput_eq (h : BatchMade self world world' call publicOutput cursor)
    (hproves : Proves call (input, output)) : output.publicOutput = publicOutput := by
  have hdecoded := h.decoded
  rw [hproves.2, abiDecode_abiEncode, Except.ok.injEq] at hdecoded
  exact hdecoded

omit [DecidableEq B256] in
/-- The batch behind a settled call agrees with the contract. -/
theorem BatchMade.agreement (hfree : CollisionFree B256)
    (h : BatchMade self world world' call publicOutput cursor) (s : Settlement input output)
    (hpublic : output.publicOutput = publicOutput) :
    Agreement world.storage call input output publicOutput.newDepositCursor cursor := by
  subst hpublic
  have holdCursor : output.publicOutput.oldDepositCursor = input.oldDepositCursor := by
    rw [s.output_eq]
    rfl
  have hrequestCursor : output.publicOutput.oldForcedWithdrawalCursor =
      input.oldForcedWithdrawalCursor := by
    rw [s.output_eq]
    rfl
  have hdepositsHash : output.publicOutput.consumedDepositsHash = hash input.deposits := by
    rw [s.output_eq]
    rfl
  have hrequestsHash : output.publicOutput.consumedForcedWithdrawalsHash =
      hash input.forcedWithdrawals := by
    rw [s.output_eq]
    rfl
  have hforced := fields_eq_of_hash_eq hfree (h.forcedWithdrawals.trans
    (show output.publicOutput.forcedWithdrawalsHash = hash output.forcedWithdrawals by
      rw [s.output_eq]; rfl))
  have hwithdrawals : hashWithdrawals B256 call.withdrawals = hash output.withdrawals :=
    h.withdrawals.trans (by rw [s.output_eq]; rfl)
  -- the deposits between the cursors
  have hadvance := s.newDepositCursor
  rw [← holdCursor] at hadvance
  have hdeposits := h.consumedDeposits
  rw [hashDeposits_eq hadvance, hdepositsHash, Except.ok.injEq] at hdeposits
  -- as many requests as the calldata lists drained amounts
  have hcount : call.forcedWithdrawals.length = input.forcedWithdrawals.length := by
    have hlength := congrArg List.length hforced
    rw [List.length_map, List.length_map] at hlength
    exact hlength.trans s.forced_records.length_eq.symm
  have hfits := s.forcedCursor
  have hcursor := h.newForcedWithdrawalCursor
  rw [hcount, Nat.mod_eq_of_lt (by omega)] at hcursor
  have hrequests := h.consumedRequests
  rw [hashForcedWithdrawalRequests_eq hcursor, hrequestsHash, Except.ok.injEq] at hrequests
  refine ⟨?_, ?_, ?_, ?_, ?_, ?_, hforced⟩
  · rw [← h.oldStateRoot, s.output_eq]
    rfl
  · rw [hadvance, h.oldDepositCursor]
  · have hfields := depositsHash_injective (updateHash_eq_of_hash_eq hfree hdeposits)
    rw [fields_queuedDeposits, h.oldDepositCursor] at hfields
    exact hfields.symm
  · rw [hcursor, h.oldForcedWithdrawalCursor]
  · have hfields := forcedWithdrawalsHash_injective (updateHash_eq_of_hash_eq hfree hrequests)
    rw [fields_queuedRequests, h.oldForcedWithdrawalCursor] at hfields
    exact hfields.symm
  · rw [hashWithdrawals, encodeWithdrawals_eq] at hwithdrawals
    exact executedWithdrawalsHash_injective (updateHash_eq_of_hash_eq hfree hwithdrawals)

/-- With a sound verifier, the calls of a transaction have batches behind them. -/
theorem Effect.exists_batches [MathLibrary] (hverifier : VerifierSound self)
    {calls : List (SettleCall B256)} {escaped : List Address}
    (h : Effect self world world' calls escaped) :
      ∃ batches, List.Forall₂ Proves calls batches := by
  cases h with
  | @settle call output cursor h =>
      rcases h.verified with ⟨proof, hproof⟩
      rcases hverifier call.publicValues proof hproof with ⟨input, output, hsettle, hpublic⟩
      exact ⟨[(input, output)], .cons ⟨hsettle, hpublic⟩ .nil⟩
  | undisturbed h => exact ⟨[], .nil⟩
  | deposit h => exact ⟨[], .nil⟩
  | claim h => exact ⟨[], .nil⟩
  | escape h => exact ⟨[], .nil⟩

/-- With a sound verifier, every settled call has a batch behind it. -/
theorem exists_batches [MathLibrary] (hverifier : VerifierSound self) (world : World B256)
    (transactions : List (Context × Call B256)) :
    ∃ batches, List.Forall₂ Proves (settlements self world transactions) batches := by
  apply history_invariant (step self) (settledCalls self)
    (P := fun _ calls => ∃ batches, List.Forall₂ Proves calls batches)
  · rintro world calls transaction ⟨batches, hbatches⟩
    rcases (step_effect self world transaction).exists_batches hverifier with ⟨batch, hbatch⟩
    exact ⟨batches ++ batch, List.rel_append hbatches hbatch⟩
  · exact ⟨[], .nil⟩

end

/-! ## The small exchange on chain -/

/-- A number is its own message. -/
instance : Bytes32 IdealDigest where
  ofNumber x := ⟨beBytes x⟩
  toNumber word := BitVec.ofNat 256 (FixedBytes.beDigits (word.message.map UInt8.toNat))
  toNumber_ofNumber x := by
    have hbytes := FixedBytes.toBeBytes_beDigits (beBytes x)
    rw [length_beBytes, beBytes] at hbytes
    have hmod := mod_eq_of_toBeBytes_eq hbytes
    apply BitVec.eq_of_toNat_eq
    rw [BitVec.toNat_ofNat, show 2 ^ 256 = 256 ^ (256 / 8) by norm_num, beBytes, hmod]
    exact Nat.mod_eq_of_lt (x.isLt.trans_le (by norm_num))

instance : MathLibrary := PatriciaProof.testMathLibrary

/-- The public values that the guest commits to for a batch. -/
def publicValuesOf (input : BatchInput IdealDigest) : List IdealDigest :=
  match settleBatch input with
  | .ok output => abiEncode output.publicOutput
  | .error _ => []

/-- The public values of the batch of the small exchange. -/
def testPublicValues : List IdealDigest := publicValuesOf (testBatch (some 1))

/-- The batches of the small exchange and of the small market. -/
def provenBatches : List (BatchInput IdealDigest) :=
  [testBatch (some 1), openingBatch, closingBatch]

/-- A verifier to which only these batches have been proven. -/
instance : ISP1Verifier IdealDigest where
  verifyProof _ _ publicValues _ :=
    provenBatches.any fun input => publicValues = publicValuesOf input

/-- The contract of the small exchange. -/
def testContract : Immutables IdealDigest where
  VERIFIER := FixedBytes.replicate 20 5
  PROGRAM_VKEY := ⟨[]⟩
  EXCHANGE_ID := FixedBytes.replicate 20 9
  CONFIG_HASH := hash testConfig
  PROTOCOL_VERSION := 1
  FORCED_WITHDRAWAL_DELAY := 100

/-- What has been proven is verified. -/
theorem verifyProof_proven {input : BatchInput IdealDigest} {output : BatchOutput IdealDigest}
    (hinput : input ∈ provenBatches) (h : settleBatch input = .ok output) (verifier : Address)
    (programVKey : IdealDigest) (proof : Bytes) :
    ISP1Verifier.verifyProof verifier programVKey (abiEncode output.publicOutput) proof = true := by
  refine List.any_eq_true.mpr ⟨input, hinput, decide_eq_true ?_⟩
  rw [publicValuesOf, h]

/-- The guest has accepted what has been proven. -/
theorem verifierSound_test (contract : Immutables IdealDigest) : VerifierSound contract := by
  intro publicValues proof hverified
  rcases List.any_eq_true.mp hverified with ⟨input, hinput, hvalues⟩
  have haccepted : ∃ output, settleBatch input = .ok output := by
    simp only [provenBatches, List.mem_cons, List.not_mem_nil, or_false] at hinput
    rcases hinput with rfl | rfl | rfl
    · exact exists_testOutput
    · rcases exists_openingOutput with ⟨output, houtput, _⟩
      exact ⟨output, houtput⟩
    · exact exists_closingOutput
  rcases haccepted with ⟨output, houtput⟩
  refine ⟨input, output, houtput, ?_⟩
  rw [of_decide_eq_true hvalues, publicValuesOf, houtput]

theorem verifierSound_testContract : VerifierSound testContract := verifierSound_test testContract

/-- What the contract of the small exchange holds from the start. -/
def testHoldings (asset : Address) : U256 :=
  if asset = FixedBytes.replicate 20 7 then 5 else 0

/-- Transactions of an account, which pays in a time. -/
def testContext (sender : UInt8) (timestamp : U256) : Context where
  sender := FixedBytes.replicate 20 sender
  timestamp := timestamp
  chainId := 1

/-- The third account deposits, the user requests a forced withdrawal, the batch is settled with
a payout that fails, and the user claims its credit. -/
def testTransactions : List (Context × Call IdealDigest) :=
  [(testContext 3 10, .depositToken 0 (FixedBytes.replicate 20 7) 4 (.delivered [])),
    (testContext 2 20, .requestForcedWithdrawal (FixedBytes.replicate 20 7) 3),
    (testContext 4 30, .settle testPublicValues []
      [] [⟨0, FixedBytes.replicate 20 2, FixedBytes.replicate 20 7, 3⟩] fun _ => .failed []),
    (testContext 4 40, .withdrawPending (FixedBytes.replicate 20 2) (FixedBytes.replicate 20 7)
      (.delivered []))]

/-- The contract of the small market. -/
def marketContract : Immutables IdealDigest :=
  { testContract with CONFIG_HASH := hash marketConfig }

/-- What the contract of the small market holds from the start. -/
def marketHoldings (asset : Address) : U256 :=
  if asset = FixedBytes.replicate 20 7 then 5
  else if asset = FixedBytes.replicate 20 8 then 9 else 0

/-- A fourth account deposits, the buyer requests a forced withdrawal, and the two batches of the
small market are settled. -/
def marketTransactions : List (Context × Call IdealDigest) :=
  [(testContext 4 10, .depositToken 0 (FixedBytes.replicate 20 7) 4 (.delivered [])),
    (testContext 3 20, .requestForcedWithdrawal (FixedBytes.replicate 20 8) 2),
    (testContext 5 30, .settle (publicValuesOf openingBatch) []
      [⟨FixedBytes.replicate 20 2, FixedBytes.replicate 20 2, FixedBytes.replicate 20 7, 1, 4⟩]
      [⟨0, FixedBytes.replicate 20 3, FixedBytes.replicate 20 8, 2⟩] fun _ => .delivered []),
    (testContext 5 40, .settle (publicValuesOf closingBatch) []
      [⟨FixedBytes.replicate 20 2, FixedBytes.replicate 20 2, FixedBytes.replicate 20 8, 1, 5⟩]
      [] fun _ => .delivered [])]

end Contract

end ZkClob
