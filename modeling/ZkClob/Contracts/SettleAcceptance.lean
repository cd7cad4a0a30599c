import ZkClob.Contracts.Availability
import ZkClob.Settlement.HashDomains

/-!
# Which batches are settled

The checks of {lit}`settle` compare hashes and cursors.  Without collisions they say, of a batch
that the guest has accepted, that it is the next one of this contract: same deployment, same
configuration, the next number, the committed root, the next entries of both queues, and the
calldata that the batch listed.  Nothing else can stop it: the payouts cannot revert, since the
contract is solvent.

Main results:

- Theorem {lit}`Contract.decodeAndValidatePublicOutput_eq_ok`: the checks of the public values.
- Theorem {lit}`Contract.Covered.applySettlement_available`: the payouts of a batch do not revert.
- Theorem {lit}`Contract.settle_iff`: in every run an accepted batch is settled exactly when it is
  the next one.
-/

namespace ZkClob

open Foundations Patricia

namespace Contract

variable {B256 : Type} {self : Immutables B256} {context : Context} {world world' : World B256}

/-! ## The checks -/

/-- The request cursor of a batch. -/
theorem validateForcedWithdrawalCursor_eq_ok {storage : Storage B256} {output : PublicOutput B256}
    {length : Nat} {cursor : U64} :
    validateForcedWithdrawalCursor storage output length = .ok cursor ↔
      cursor.toNat = output.oldForcedWithdrawalCursor.toNat + length % 2 ^ 64 ∧
        cursor.toNat ≤ storage.nextForcedWithdrawalId.toNat := by
  simp only [validateForcedWithdrawalCursor, Outcome.bind_eq_ok, Outcome.expect_eq_ok,
    Outcome.rejectIf_eq_ok, FixedWidth.checkedAdd_eq_some, BitVec.toNat_ofNat, gt_iff_lt,
    BitVec.not_lt, BitVec.le_def, Except.ok.injEq]
  constructor
  · rintro ⟨cursor, hcursor, _, hle, rfl⟩
    exact ⟨hcursor, hle⟩
  · rintro ⟨hcursor, hle⟩
    exact ⟨cursor, hcursor, (), hle, rfl⟩

section

variable [DecidableEq B256] [Sha256 B256]

/-- The hashes of the consumed queue entries. -/
theorem validateConsumedInputs_eq_ok {storage : Storage B256} {output : PublicOutput B256}
    {cursor : U64} :
    validateConsumedInputs storage output cursor = .ok () ↔
      hashDeposits storage output.oldDepositCursor output.newDepositCursor =
          .ok output.consumedDepositsHash ∧
        hashForcedWithdrawalRequests storage output.oldForcedWithdrawalCursor cursor =
          .ok output.consumedForcedWithdrawalsHash := by
  simp only [validateConsumedInputs, Outcome.bind_eq_ok, Outcome.rejectIf_eq_ok, not_not]
  constructor
  · rintro ⟨_, hdeposits, _, rfl, _, hrequests, rfl⟩
    exact ⟨hdeposits, hrequests⟩
  · rintro ⟨hdeposits, hrequests⟩
    exact ⟨_, hdeposits, (), rfl, _, hrequests, rfl⟩

/-- The hashes of the calldata. -/
theorem validateWithdrawals_eq_ok {output : PublicOutput B256} {withdrawals : List Withdrawal}
    {forcedWithdrawals : List ForcedWithdrawal} :
    validateWithdrawals output withdrawals forcedWithdrawals = .ok () ↔
      hashWithdrawals B256 withdrawals = output.withdrawalsHash ∧
        hashForcedWithdrawals B256 forcedWithdrawals = output.forcedWithdrawalsHash := by
  simp only [validateWithdrawals, Outcome.bind_eq_ok, Outcome.rejectIf_eq_ok, not_not]
  constructor
  · rintro ⟨_, hwithdrawals, hforced⟩
    exact ⟨hwithdrawals, hforced⟩
  · rintro ⟨hwithdrawals, hforced⟩
    exact ⟨(), hwithdrawals, hforced⟩

variable [Bytes32 B256]

omit [Sha256 B256] in
/-- The checks of the public values, one by one. -/
theorem decodeAndValidatePublicOutput_eq_ok {storage : Storage B256} {publicValues : List B256}
    {output : PublicOutput B256} :
    decodeAndValidatePublicOutput self context storage publicValues = .ok output ↔
      32 * publicValues.length = PUBLIC_VALUES_LENGTH ∧ abiDecode publicValues = .ok output ∧
        output.domain.protocolVersion = self.PROTOCOL_VERSION ∧
        output.domain.chainId.setWidth 256 = context.chainId ∧
        output.domain.exchangeId = self.EXCHANGE_ID ∧
        output.configHash = self.CONFIG_HASH ∧
        output.batchId = storage.nextBatchId ∧
        output.oldStateRoot = storage.stateRoot ∧
        output.oldDepositCursor = storage.nextUnprocessedDeposit ∧
        (output.oldDepositCursor.toNat ≤ output.newDepositCursor.toNat ∧
          output.newDepositCursor.toNat ≤ storage.nextDepositId.toNat) ∧
        output.oldForcedWithdrawalCursor = storage.nextUnprocessedForcedWithdrawal := by
  simp only [decodeAndValidatePublicOutput, Outcome.bind_eq_ok, Outcome.rejectIf_eq_ok,
    Except.ok.injEq, not_not, not_or, gt_iff_lt, BitVec.not_lt, BitVec.le_def]
  constructor
  · rintro ⟨_, hlength, decoded, hdecoded, _, hversion, _, hchain, _, hexchange, _, hconfig, _,
      hbatch, _, hroot, _, hdeposit, _, hadvance, _, hforced, rfl⟩
    exact ⟨hlength, hdecoded, hversion, hchain, hexchange, hconfig, hbatch, hroot, hdeposit,
      hadvance, hforced⟩
  · rintro ⟨hlength, hdecoded, hversion, hchain, hexchange, hconfig, hbatch, hroot, hdeposit,
      hadvance, hforced⟩
    exact ⟨(), hlength, output, hdecoded, (), hversion, (), hchain, (), hexchange, (), hconfig, (),
      hbatch, (), hroot, (), hdeposit, (), hadvance, (), hforced, rfl⟩

variable [ISP1Verifier B256]

/-- A settled batch has passed every check, and its payouts have been made. -/
theorem settle_eq_ok {publicValues : List B256} {proof : Bytes} {withdrawals : List Withdrawal}
    {forcedWithdrawals : List ForcedWithdrawal} {outcomes : Nat → Delivery B256} :
    settle self context publicValues proof withdrawals forcedWithdrawals outcomes world =
        .ok world' ↔
      world.storage.escapeMode = false ∧ ∃ output,
        decodeAndValidatePublicOutput self context world.storage publicValues = .ok output ∧
        ∃ cursor, validateForcedWithdrawalCursor world.storage output forcedWithdrawals.length =
            .ok cursor ∧
          validateConsumedInputs world.storage output cursor = .ok () ∧
          validateWithdrawals output withdrawals forcedWithdrawals = .ok () ∧
          ISP1Verifier.verifyProof self.VERIFIER self.PROGRAM_VKEY publicValues proof = true ∧
          applySettlement self context output withdrawals forcedWithdrawals cursor outcomes world =
            .ok world' := by
  simp only [settle, Outcome.bind_eq_ok, Outcome.rejectIf_eq_ok, Bool.not_eq_true,
    Bool.not_eq_false']
  constructor
  · rintro ⟨_, hrunning, output, houtput, cursor, hcursor, _, hconsumed, _, hwithdrawals, _,
      hverified, hsettled⟩
    exact ⟨hrunning, output, houtput, cursor, hcursor, hconsumed, hwithdrawals, hverified, hsettled⟩
  · rintro ⟨hrunning, output, houtput, cursor, hcursor, hconsumed, hwithdrawals, hverified,
      hsettled⟩
    exact ⟨(), hrunning, output, houtput, cursor, hcursor, (), hconsumed, (), hwithdrawals, (),
      hverified, hsettled⟩

end

/-! ## The next batch -/

section

variable [Sha256 B256] [Secp256k1 B256]

/-- A batch is the next one of a contract, and the calldata is what it listed. -/
structure NextBatch (contract : Immutables B256) (chainId : U256) (storage : Storage B256)
    (input : BatchInput B256) (output : BatchOutput B256) (withdrawals : List Withdrawal)
    (forcedWithdrawals : List ForcedWithdrawal) : Prop where
  running : storage.escapeMode = false
  protocolVersion : input.domain.protocolVersion = contract.PROTOCOL_VERSION
  chainId : input.domain.chainId.setWidth 256 = chainId
  exchangeId : input.domain.exchangeId = contract.EXCHANGE_ID
  config : hash input.config = contract.CONFIG_HASH
  batchId : input.batchId = storage.nextBatchId
  stateRoot : input.expectedOldStateRoot = storage.stateRoot
  depositCursor : input.oldDepositCursor = storage.nextUnprocessedDeposit
  depositsQueued : storage.nextUnprocessedDeposit.toNat + input.deposits.length ≤
    storage.nextDepositId.toNat
  deposits : input.deposits.map ZkClob.Deposit.fields =
    (List.range' storage.nextUnprocessedDeposit.toNat input.deposits.length).map (depositAt storage)
  requestCursor : input.oldForcedWithdrawalCursor = storage.nextUnprocessedForcedWithdrawal
  requestsQueued : storage.nextUnprocessedForcedWithdrawal.toNat +
    input.forcedWithdrawals.length ≤ storage.nextForcedWithdrawalId.toNat
  requests : input.forcedWithdrawals.map ZkClob.ForcedWithdrawal.fields =
    (List.range' storage.nextUnprocessedForcedWithdrawal.toNat input.forcedWithdrawals.length).map
      (requestAt storage)
  withdrawals : withdrawals = output.withdrawals
  forcedWithdrawals : forcedWithdrawals.map ForcedWithdrawal.fields =
    output.forcedWithdrawals.map ZkClob.ForcedWithdrawal.fields

variable {input : BatchInput B256} {output : BatchOutput B256} {withdrawals : List Withdrawal}
  {forcedWithdrawals : List ForcedWithdrawal} {outcomes : Nat → Delivery B256} {chainId : U256}

omit [Secp256k1 B256] in
/-- Deposits with the same fields have the same hash, whatever their hints. -/
theorem hash_deposits_congr {deposits deposits' : List ZkClob.Deposit}
    (h : deposits.map ZkClob.Deposit.fields = deposits'.map ZkClob.Deposit.fields) :
    (hash deposits : B256) = hash deposits' := by
  have hlists : updateHashList deposits = updateHashList deposits' := by
    rw [updateHashList_eq ZkClob.Deposit.fields queueFieldsBytes fun _ => rfl, h,
      ← updateHashList_eq ZkClob.Deposit.fields queueFieldsBytes fun _ => rfl]
  exact congrArg (fun entries => Sha256.sha256 (DomainSha256Hash.domain _ ++ entries)) hlists

omit [Secp256k1 B256] in
/-- Requests with the same fields have the same hash, whatever their hints. -/
theorem hash_requests_congr {requests requests' : List ZkClob.ForcedWithdrawal}
    (h : requests.map ZkClob.ForcedWithdrawal.fields =
      requests'.map ZkClob.ForcedWithdrawal.fields) :
    (hash requests : B256) = hash requests' := by
  have hlists : updateHashList requests = updateHashList requests' := by
    rw [updateHashList_eq ZkClob.ForcedWithdrawal.fields queueFieldsBytes fun _ => rfl, h,
      ← updateHashList_eq ZkClob.ForcedWithdrawal.fields queueFieldsBytes fun _ => rfl]
  exact congrArg (fun entries => Sha256.sha256 (DomainSha256Hash.domain _ ++ entries)) hlists

omit [Secp256k1 B256] in
/-- Drained forced withdrawals with the same fields have the same hash. -/
theorem hashForcedWithdrawals_eq
    (h : forcedWithdrawals.map ForcedWithdrawal.fields =
      output.forcedWithdrawals.map ZkClob.ForcedWithdrawal.fields) :
    hashForcedWithdrawals B256 forcedWithdrawals = hash output.forcedWithdrawals := by
  rw [hashForcedWithdrawals, encodeForcedWithdrawals_eq h.symm]
  rfl

/-- As many forced withdrawals are listed as there are requests. -/
theorem NextBatch.length_eq {storage : Storage B256} (s : Settlement input output)
    (h : NextBatch self chainId storage input output withdrawals forcedWithdrawals) :
    forcedWithdrawals.length = input.forcedWithdrawals.length := by
  have hlength := congrArg List.length h.forcedWithdrawals
  rw [List.length_map, List.length_map] at hlength
  exact hlength.trans s.forced_records.length_eq.symm

/-- The next batch agrees with the contract. -/
theorem NextBatch.agreement {storage : Storage B256} (s : Settlement input output)
    (h : NextBatch self chainId storage input output withdrawals forcedWithdrawals)
    (publicValues : List B256) {cursor : U64} (hcursor : cursor.toNat =
      storage.nextUnprocessedForcedWithdrawal.toNat + input.forcedWithdrawals.length) :
    Agreement storage ⟨publicValues, withdrawals, forcedWithdrawals⟩ input output
      output.publicOutput.newDepositCursor cursor := by
  refine ⟨h.stateRoot, ?_, h.deposits, hcursor, h.requests, h.withdrawals, h.forcedWithdrawals⟩
  rw [s.newDepositCursor, h.depositCursor]

/-! ## Payouts -/

omit [Sha256 B256] [Secp256k1 B256] in
/-- What the calldata owes to all recipients is what the batch listed. -/
theorem Agreement.sum_owed {storage : Storage B256} {call : SettleCall B256} {c c' : U64}
    (h : Agreement storage call input output c c') (asset : Address) :
    ∑ recipient, call.owed recipient asset =
      tally (fun w => w.asset = asset) (fun w => w.amount.toNat) output.withdrawals +
        tally (fun w => w.asset = asset) (fun w => w.amount.toNat) output.forcedWithdrawals := by
  have hforced := congrArg (tally (fun fields : QueueFields => fields.2.2.1 = asset)
    fun fields => fields.2.2.2.toNat) h.forcedWithdrawals
  rw [tally_map, tally_map] at hforced
  simp only [SettleCall.owed, Finset.sum_add_distrib, sum_withdrawalsTo, sum_forcedWithdrawalsTo]
  rw [h.withdrawals]
  exact congrArg (_ + ·) hforced

/-- The payouts of a batch do not revert: the credits for all of them fit, since what is owed
after the batch was owed, and held, before it. -/
theorem Covered.applySettlement_available (context : Context) (outcomes : Nat → Delivery B256)
    (hfree : CollisionFree B256) {initial : Address → Nat} {A : List Account}
    (h : Covered initial world A)
    (hheld : ∀ asset, supply (unescaped world.storage A) asset + queuedTotal world.storage asset +
      pendingTotal world.storage asset ≤ (world.holdings asset).toNat)
    (hrunning : world.storage.escapeMode = false) (s : Settlement input output)
    {call : SettleCall B256} {cursor : U64}
    (hagree : Agreement world.storage call input output output.publicOutput.newDepositCursor cursor)
    (hle : output.publicOutput.newDepositCursor.toNat ≤ world.storage.nextDepositId.toNat) :
    ∃ world', applySettlement self context output.publicOutput call.withdrawals
      call.forcedWithdrawals cursor outcomes world = .ok world' := by
  have hA : Commits A input.expectedOldStateRoot := by
    rw [hagree.stateRoot]
    exact h.commits
  have hfits : ∀ r x, (world.storage.pendingWithdrawals r x).toNat + call.owed r x < 2 ^ 256 := by
    intro r x
    let advanced : Storage B256 := { world.storage with
      nextUnprocessedDeposit := output.publicOutput.newDepositCursor }
    have hcursor : advanced.nextUnprocessedDeposit = output.publicOutput.newDepositCursor := rfl
    have hqueued := hagree.queuedTotal_eq hle hcursor rfl rfl x
    have hsupply := supply_nextState hfree s hA x
    have howed := hagree.sum_owed x
    have hsingle : call.owed r x ≤ ∑ recipient, call.owed recipient x :=
      Finset.single_le_sum (f := fun r => call.owed r x) (fun _ _ => Nat.zero_le _)
        (Finset.mem_univ r)
    have hcredit := pending_le_pendingTotal world.storage r x
    have hx := hheld x
    have hbound := (world.holdings x).isLt
    rw [unescaped_eq (h.running hrunning)] at hx
    omega
  let settled : World B256 := { world with storage := { world.storage with
    stateRoot := output.publicOutput.newStateRoot
    nextUnprocessedDeposit := output.publicOutput.newDepositCursor
    nextUnprocessedForcedWithdrawal := cursor
    nextBatchId := world.storage.nextBatchId + 1 } }
  have hwithdrawals : ∀ r x, (settled.storage.pendingWithdrawals r x).toNat +
      withdrawalsTo call.withdrawals r x < 2 ^ 256 := by
    intro r x
    have hx := hfits r x
    simp only [SettleCall.owed] at hx
    change (world.storage.pendingWithdrawals r x).toNat + _ < _
    omega
  rcases executeWithdrawals_available self context outcomes 0 hwithdrawals with
    ⟨middle, hmiddle, hcredits⟩
  have hforced : ∀ r x, (middle.storage.pendingWithdrawals r x).toNat +
      forcedWithdrawalsTo call.forcedWithdrawals r x < 2 ^ 256 := by
    intro r x
    have hx := hfits r x
    have hm : (middle.storage.pendingWithdrawals r x).toNat ≤
      (world.storage.pendingWithdrawals r x).toNat + withdrawalsTo call.withdrawals r x :=
      hcredits r x
    simp only [SettleCall.owed] at hx
    omega
  rcases executeForcedWithdrawals_available self context outcomes call.withdrawals.length hforced
    with ⟨paid, hpaid⟩
  unfold applySettlement
  change ∃ world', executeWithdrawals self context outcomes 0 call.withdrawals settled >>= _ =
    .ok world'
  rw [hmiddle, Outcome.ok_bind, hpaid, Outcome.ok_bind]
  exact ⟨_, rfl⟩

/-! ## Settling over runs -/

variable [DecidableEq B256] [Bytes32 B256] [ISP1Verifier B256]

/-- What the checks say about a batch of the guest: it is the next one. -/
theorem nextBatch_of_settle (hfree : CollisionFree B256) (s : Settlement input output)
    {proof : Bytes}
    (h : settle self context (abiEncode output.publicOutput) proof withdrawals forcedWithdrawals
      outcomes world = .ok world') :
    NextBatch self context.chainId world.storage input output withdrawals forcedWithdrawals := by
  rcases settle_spec h with ⟨publicOutput, cursor, hmade⟩
  have hpublic : output.publicOutput = publicOutput := by
    have hdecoded := hmade.decoded
    rw [abiDecode_abiEncode, Except.ok.injEq] at hdecoded
    exact hdecoded
  subst hpublic
  have hagree := hmade.agreement hfree s rfl
  rcases settle_eq_ok.mp h with ⟨hrunning, decoded, hdecoded, _⟩
  rcases decodeAndValidatePublicOutput_eq_ok.mp hdecoded with
    ⟨_, habi, hversion, hchain, hexchange, hconfig, hbatch, _, hdeposit, hadvance, hrequest⟩
  rw [abiDecode_abiEncode, Except.ok.injEq] at habi
  subst habi
  rw [s.output_eq] at hversion hchain hexchange hconfig hbatch
  have hdepositCursor := hdeposit
  have hrequestCursor := hrequest
  rw [s.output_eq] at hdepositCursor hrequestCursor
  exact {
    running := hrunning
    protocolVersion := hversion
    chainId := hchain
    exchangeId := hexchange
    config := hconfig
    batchId := hbatch
    stateRoot := hagree.stateRoot
    depositCursor := hdepositCursor
    depositsQueued := hagree.depositCursor ▸ hadvance.2
    deposits := hagree.deposits
    requestCursor := hrequestCursor
    requestsQueued := hagree.forcedWithdrawalCursor ▸ hmade.forcedWithdrawalCursorLe
    requests := hagree.requests
    withdrawals := hagree.withdrawals
    forcedWithdrawals := hagree.forcedWithdrawals }

/-- The next batch passes the checks, and its payouts do not revert. -/
theorem NextBatch.settle (hfree : CollisionFree B256) {initial : Address → Nat} {A : List Account}
    (hA : Covered initial world A)
    (hheld : ∀ asset, supply (unescaped world.storage A) asset + queuedTotal world.storage asset +
      pendingTotal world.storage asset ≤ (world.holdings asset).toNat)
    (s : Settlement input output)
    (h : NextBatch self context.chainId world.storage input output withdrawals forcedWithdrawals)
    {proof : Bytes} (hproof : ISP1Verifier.verifyProof self.VERIFIER self.PROGRAM_VKEY
      (abiEncode output.publicOutput) proof = true) :
    ∃ world', settle self context (abiEncode output.publicOutput) proof withdrawals
      forcedWithdrawals outcomes world = .ok world' := by
  have hpublic : output.publicOutput.domain = input.domain ∧
      output.publicOutput.batchId = input.batchId ∧
      output.publicOutput.configHash = hash input.config ∧
      output.publicOutput.oldStateRoot = input.expectedOldStateRoot ∧
      output.publicOutput.oldDepositCursor = input.oldDepositCursor ∧
      output.publicOutput.oldForcedWithdrawalCursor = input.oldForcedWithdrawalCursor ∧
      output.publicOutput.consumedDepositsHash = hash input.deposits ∧
      output.publicOutput.consumedForcedWithdrawalsHash = hash input.forcedWithdrawals ∧
      output.publicOutput.withdrawalsHash = hash output.withdrawals ∧
      output.publicOutput.forcedWithdrawalsHash = hash output.forcedWithdrawals := by
    rw [s.output_eq]
    exact ⟨rfl, rfl, rfl, rfl, rfl, rfl, rfl, rfl, rfl, rfl⟩
  rcases hpublic with ⟨hdomain, hbatch, hconfig, hroot, hdeposit, hrequest, hdepositsHash,
    hrequestsHash, hwithdrawalsHash, hforcedHash⟩
  have hadvance := s.newDepositCursor
  rw [h.depositCursor] at hadvance
  have hnext := world.storage.nextForcedWithdrawalId.isLt
  have hqueued := h.requestsQueued
  obtain ⟨cursor, hcursor⟩ : ∃ cursor : U64, cursor.toNat =
      world.storage.nextUnprocessedForcedWithdrawal.toNat + input.forcedWithdrawals.length := by
    refine ⟨BitVec.ofNat 64 (world.storage.nextUnprocessedForcedWithdrawal.toNat +
      input.forcedWithdrawals.length), ?_⟩
    rw [BitVec.toNat_ofNat, Nat.mod_eq_of_lt (by omega)]
  have hle : output.publicOutput.newDepositCursor.toNat ≤ world.storage.nextDepositId.toNat := by
    rw [hadvance]
    exact h.depositsQueued
  have hagree := h.agreement s (abiEncode output.publicOutput) hcursor
  rcases hA.applySettlement_available context outcomes hfree hheld h.running s hagree hle with
    ⟨world', hworld'⟩
  refine ⟨world', settle_eq_ok.mpr ⟨h.running, output.publicOutput, ?_, cursor, ?_, ?_, ?_, hproof,
    hworld'⟩⟩
  · rw [decodeAndValidatePublicOutput_eq_ok, hdomain, hbatch, hconfig, hroot, hdeposit, hrequest,
      h.depositCursor]
    refine ⟨rfl, abiDecode_abiEncode _, h.protocolVersion, h.chainId, h.exchangeId, h.config,
      h.batchId, h.stateRoot, rfl, ⟨?_, hle⟩, h.requestCursor⟩
    rw [hadvance]
    exact Nat.le_add_right _ _
  · rw [validateForcedWithdrawalCursor_eq_ok, hrequest, h.requestCursor, h.length_eq s,
      Nat.mod_eq_of_lt (by omega)]
    exact ⟨hcursor, hcursor ▸ h.requestsQueued⟩
  · rw [validateConsumedInputs_eq_ok, hdeposit, hrequest, hdepositsHash, hrequestsHash,
      h.depositCursor, h.requestCursor, hashDeposits_eq hadvance,
      hashForcedWithdrawalRequests_eq hcursor]
    constructor
    · have hfields := fields_queuedDeposits world.storage
        world.storage.nextUnprocessedDeposit.toNat input.deposits.length
      rw [← h.deposits] at hfields
      exact congrArg Except.ok (hash_deposits_congr hfields)
    · have hfields := fields_queuedRequests world.storage
        world.storage.nextUnprocessedForcedWithdrawal.toNat input.forcedWithdrawals.length
      rw [← h.requests] at hfields
      exact congrArg Except.ok (hash_requests_congr hfields)
  · rw [validateWithdrawals_eq_ok, hwithdrawalsHash, hforcedHash]
    refine ⟨?_, hashForcedWithdrawals_eq h.forcedWithdrawals⟩
    rw [hashWithdrawals, encodeWithdrawals_eq, h.withdrawals]
    rfl

variable [MathLibrary]

/-- In every run with a sound verifier and covered balances, a proven batch is settled exactly when
it is the next one of the contract.  Which transfers are delivered and what the recipients do while
they are paid makes no difference. -/
theorem settle_iff (hfree : CollisionFree B256) (hverifier : VerifierSound self)
    {A₀ : List Account} {initialStateRoot : B256} (hgenesis : computeRoot A₀ = .ok initialStateRoot)
    {holdings : Address → U256} (hcovered : ∀ asset, supply A₀ asset ≤ (holdings asset).toNat)
    (initialBatchId : U64) (transactions : List (Context × Call B256)) (context : Context)
    (haccepted : settleBatch input = .ok output) {proof : Bytes}
    (hproof : ISP1Verifier.verifyProof self.VERIFIER self.PROGRAM_VKEY
      (abiEncode output.publicOutput) proof = true) (withdrawals : List Withdrawal)
    (forcedWithdrawals : List ForcedWithdrawal) (outcomes : Nat → Delivery B256) :
    let world := run self (genesis initialStateRoot initialBatchId holdings) transactions
    (∃ world', settle self context (abiEncode output.publicOutput) proof withdrawals
        forcedWithdrawals outcomes world = .ok world') ↔
      NextBatch self context.chainId world.storage input output withdrawals forcedWithdrawals := by
  intro world
  rcases exists_settlement haccepted with ⟨s⟩
  obtain ⟨A, hA, hheld⟩ : ∃ A, Covered (supply A₀) world A ∧ ∀ asset,
      supply (unescaped world.storage A) asset + queuedTotal world.storage asset +
        pendingTotal world.storage asset ≤ (world.holdings asset).toNat :=
    owed_run hfree hverifier hgenesis hcovered initialBatchId transactions
  constructor
  · rintro ⟨world', hsettled⟩
    exact nextBatch_of_settle hfree s hsettled
  · intro hnext
    exact hnext.settle hfree hA hheld s hproof

end

/-- The batch of the small exchange is the next one after the deposit and the request. -/
theorem settle_iff_testTransactions :
    ∃ output, settleBatch (testBatch (some 1)) = .ok output ∧
      let world := run testContract (genesis testRoot 0 testHoldings) (testTransactions.take 2)
      (∃ world', settle testContract (testContext 4 30) (abiEncode output.publicOutput) []
          [] [⟨0, FixedBytes.replicate 20 2, FixedBytes.replicate 20 7, 3⟩] (fun _ => .failed [])
          world = .ok world') ↔
        NextBatch testContract 1 world.storage (testBatch (some 1)) output []
          [⟨0, FixedBytes.replicate 20 2, FixedBytes.replicate 20 7, 3⟩] := by
  rcases exists_testOutput with ⟨output, houtput⟩
  have hroot : computeRoot testAccounts = .ok testRoot := by decide +kernel
  have hproof : ISP1Verifier.verifyProof testContract.VERIFIER testContract.PROGRAM_VKEY
      (abiEncode output.publicOutput) [] = true :=
    verifyProof_proven List.mem_cons_self houtput _ _ _
  exact ⟨output, houtput, settle_iff IdealDigest.collisionFree verifierSound_testContract hroot
    supply_testAccounts 0 (testTransactions.take 2) (testContext 4 30) houtput hproof [] _ _⟩

end Contract

end ZkClob
