import ZkClob.Contracts.Exchange

/-!
# Settling, claiming and escaping

{lit}`settle` checks the public values of a batch against the storage, the queues and the
calldata, has the proof verified, and pays the withdrawals out.  A payout that is not
delivered is credited and can be claimed later.  In escape mode an account is paid what
its leaf of the frozen state holds.

The last section runs the contract: a world, a sequence of calls, and what each of them
leaves behind.
-/

namespace ZkClob

open Foundations

namespace Contract

variable {B256 : Type}

/-! ## Payouts -/

/-- {lit}`pendingWithdrawals[account][asset] += amount`. -/
def creditPending (account asset : Address) (amount : U256) (world : World B256) :
    Outcome (ContractError B256) (World B256) := do
  let pending := world.storage.pendingWithdrawals
  let total ← Outcome.expect (FixedWidth.checkedAdd (pending account asset) amount)
  let pendingWithdrawals :=
    Function.update pending account (Function.update (pending account) asset total)
  .ok { world with storage := { world.storage with pendingWithdrawals } }

/-- The body of the two payout loops: a transfer, or a credit when it fails. -/
def payOut (self : Immutables B256) (context : Context) (recipient asset : Address) (amount : U128)
    (executed : Event B256) (delivery : Delivery B256) (world : World B256) :
    Outcome (ContractError B256) (World B256) :=
  match attemptTransfer self context asset recipient (amount.setWidth 256) delivery world with
  | (true, world') => .ok (world'.emit executed)
  | (false, world') => do
      let world ← creditPending recipient asset (amount.setWidth 256) world'
      .ok (world.emit (.WithdrawalPending recipient asset (amount.setWidth 256)))

/-- {lit}`_executeWithdrawals`; the transfer of the withdrawal at a position has the outcome
of that position. -/
def executeWithdrawals (self : Immutables B256) (context : Context) (outcomes : Nat → Delivery B256)
    (index : Nat) (withdrawals : List Withdrawal) (world : World B256) :
    Outcome (ContractError B256) (World B256) :=
  match withdrawals with
  | [] => .ok world
  | withdrawal :: rest => do
      let world ← payOut self context withdrawal.recipient withdrawal.asset withdrawal.amount
        (.WithdrawalExecuted withdrawal.account withdrawal.recipient withdrawal.asset
          withdrawal.amount withdrawal.nonce) (outcomes index) world
      executeWithdrawals self context outcomes (index + 1) rest world

/-- {lit}`_executeForcedWithdrawals`. -/
def executeForcedWithdrawals (self : Immutables B256) (context : Context)
    (outcomes : Nat → Delivery B256) (index : Nat) (forcedWithdrawals : List ForcedWithdrawal)
    (world : World B256) : Outcome (ContractError B256) (World B256) :=
  match forcedWithdrawals with
  | [] => .ok world
  | forcedWithdrawal :: rest =>
      if forcedWithdrawal.amount = 0 then
        executeForcedWithdrawals self context outcomes (index + 1) rest world
      else do
        let world ← payOut self context forcedWithdrawal.account forcedWithdrawal.asset
          forcedWithdrawal.amount
          (.ForcedWithdrawalExecuted forcedWithdrawal.account forcedWithdrawal.asset
            forcedWithdrawal.amount forcedWithdrawal.id) (outcomes index) world
        executeForcedWithdrawals self context outcomes (index + 1) rest world

/-! ## Settling -/

section

variable [DecidableEq B256] [Bytes32 B256]

/-- {lit}`PUBLIC_VALUES_LENGTH`. -/
def PUBLIC_VALUES_LENGTH : Nat := 16 * 32

/-- {lit}`_decodeAndValidatePublicOutput`. -/
def decodeAndValidatePublicOutput (self : Immutables B256) (context : Context)
    (storage : Storage B256) (publicValues : List B256) :
    Outcome (ContractError B256) (PublicOutput B256) := do
  Outcome.rejectIf (32 * publicValues.length ≠ PUBLIC_VALUES_LENGTH)
    (.InvalidPublicValuesLength (BitVec.ofNat 256 (32 * publicValues.length)))
  let output ← abiDecode publicValues
  let domain := output.domain
  Outcome.rejectIf (domain.protocolVersion ≠ self.PROTOCOL_VERSION)
    (.WrongProtocolVersion self.PROTOCOL_VERSION domain.protocolVersion)
  Outcome.rejectIf (domain.chainId.setWidth 256 ≠ context.chainId)
    (.WrongChain context.chainId domain.chainId)
  Outcome.rejectIf (domain.exchangeId ≠ self.EXCHANGE_ID)
    (.WrongExchange self.EXCHANGE_ID domain.exchangeId)
  Outcome.rejectIf (output.configHash ≠ self.CONFIG_HASH)
    (.WrongConfig self.CONFIG_HASH output.configHash)
  Outcome.rejectIf (output.batchId ≠ storage.nextBatchId)
    (.WrongBatchId storage.nextBatchId output.batchId)
  Outcome.rejectIf (output.oldStateRoot ≠ storage.stateRoot)
    (.StaleStateRoot storage.stateRoot output.oldStateRoot)
  Outcome.rejectIf (output.oldDepositCursor ≠ storage.nextUnprocessedDeposit)
    (.WrongDepositCursor storage.nextUnprocessedDeposit output.oldDepositCursor)
  Outcome.rejectIf (output.newDepositCursor < output.oldDepositCursor ∨
      output.newDepositCursor > storage.nextDepositId)
    (.InvalidDepositCursorAdvance output.oldDepositCursor output.newDepositCursor
      storage.nextDepositId)
  Outcome.rejectIf (output.oldForcedWithdrawalCursor ≠ storage.nextUnprocessedForcedWithdrawal)
    (.WrongForcedWithdrawalCursor storage.nextUnprocessedForcedWithdrawal
      output.oldForcedWithdrawalCursor)
  .ok output

/-- {lit}`_validateForcedWithdrawalCursor`. -/
def validateForcedWithdrawalCursor (storage : Storage B256) (output : PublicOutput B256)
    (forcedWithdrawalsLength : Nat) : Outcome (ContractError B256) U64 := do
  let newForcedWithdrawalCursor ← Outcome.expect
    (FixedWidth.checkedAdd output.oldForcedWithdrawalCursor
    (BitVec.ofNat 64 forcedWithdrawalsLength))
  Outcome.rejectIf (newForcedWithdrawalCursor > storage.nextForcedWithdrawalId)
    (.InvalidForcedWithdrawalCursorAdvance output.oldForcedWithdrawalCursor
      newForcedWithdrawalCursor storage.nextForcedWithdrawalId)
  .ok newForcedWithdrawalCursor

variable [Sha256 B256]

/-- {lit}`_validateConsumedInputs`. -/
def validateConsumedInputs (storage : Storage B256) (output : PublicOutput B256)
    (newForcedWithdrawalCursor : U64) : Outcome (ContractError B256) Unit := do
  let actualDepositsHash ← hashDeposits storage output.oldDepositCursor output.newDepositCursor
  Outcome.rejectIf (actualDepositsHash ≠ output.consumedDepositsHash)
    (.ConsumedDepositsHashMismatch actualDepositsHash output.consumedDepositsHash)
  let actualForcedRequestsHash ← hashForcedWithdrawalRequests storage
    output.oldForcedWithdrawalCursor newForcedWithdrawalCursor
  Outcome.rejectIf (actualForcedRequestsHash ≠ output.consumedForcedWithdrawalsHash)
    (.ConsumedForcedWithdrawalsHashMismatch actualForcedRequestsHash
      output.consumedForcedWithdrawalsHash)

/-- {lit}`_validateWithdrawals`. -/
def validateWithdrawals (output : PublicOutput B256) (withdrawals : List Withdrawal)
    (forcedWithdrawals : List ForcedWithdrawal) : Outcome (ContractError B256) Unit := do
  let actualWithdrawalsHash := hashWithdrawals B256 withdrawals
  Outcome.rejectIf (actualWithdrawalsHash ≠ output.withdrawalsHash)
    (.WithdrawalsHashMismatch actualWithdrawalsHash output.withdrawalsHash)
  let actualForcedWithdrawalsHash := hashForcedWithdrawals B256 forcedWithdrawals
  Outcome.rejectIf (actualForcedWithdrawalsHash ≠ output.forcedWithdrawalsHash)
    (.ForcedWithdrawalsHashMismatch actualForcedWithdrawalsHash output.forcedWithdrawalsHash)

/-- {lit}`_applySettlement`. -/
def applySettlement (self : Immutables B256) (context : Context) (output : PublicOutput B256)
    (withdrawals : List Withdrawal) (forcedWithdrawals : List ForcedWithdrawal)
    (newForcedWithdrawalCursor : U64) (outcomes : Nat → Delivery B256) (world : World B256) :
    Outcome (ContractError B256) (World B256) := do
  let storage := { world.storage with
    stateRoot := output.newStateRoot
    nextUnprocessedDeposit := output.newDepositCursor
    nextUnprocessedForcedWithdrawal := newForcedWithdrawalCursor
    nextBatchId := world.storage.nextBatchId + 1 }
  let world ← executeWithdrawals self context outcomes 0 withdrawals { world with storage }
  let world ← executeForcedWithdrawals self context outcomes withdrawals.length forcedWithdrawals
    world
  .ok (world.emit (.BatchSettled output.batchId output.oldStateRoot output.newStateRoot
    output.batchHash output.tradesHash))

/-- {lit}`settle`. -/
def settle [ISP1Verifier B256] (self : Immutables B256) (context : Context)
    (publicValues : List B256) (proof : Bytes) (withdrawals : List Withdrawal)
    (forcedWithdrawals : List ForcedWithdrawal) (outcomes : Nat → Delivery B256)
    (world : World B256) : Outcome (ContractError B256) (World B256) := do
  Outcome.rejectIf (world.storage.escapeMode) .EscapeModeActive
  let output ← decodeAndValidatePublicOutput self context world.storage publicValues
  let newForcedWithdrawalCursor ←
    validateForcedWithdrawalCursor world.storage output forcedWithdrawals.length
  validateConsumedInputs world.storage output newForcedWithdrawalCursor
  validateWithdrawals output withdrawals forcedWithdrawals
  Outcome.rejectIf (!ISP1Verifier.verifyProof self.VERIFIER self.PROGRAM_VKEY publicValues proof)
    .VerifierRevert
  applySettlement self context output withdrawals forcedWithdrawals newForcedWithdrawalCursor
    outcomes world

end

/-! ## Claiming and escaping -/

/-- {lit}`withdrawPending`: the credit is taken back before the transfer, and restored by the
revert when the transfer fails. -/
def withdrawPending (self : Immutables B256) (context : Context) (account asset : Address)
    (delivery : Delivery B256) (world : World B256) :
    Outcome (ContractError B256) (World B256) := do
  let pending := world.storage.pendingWithdrawals
  let amount := pending account asset
  Outcome.rejectIf (amount = 0) .NoPendingWithdrawal
  let pendingWithdrawals := Function.update pending account
      (Function.update (pending account) asset 0)
  let storage := { world.storage with pendingWithdrawals }
  match attemptTransfer self context asset account amount delivery { world with storage } with
  | (true, world') => .ok (world'.emit (.PendingWithdrawalClaimed account asset amount))
  | (false, _) => .error (.error (.PendingWithdrawalTransferFailed account asset amount))

/-- The transfer of one balance in {lit}`_executeEscapeWithdrawal`. -/
def escapeTransfer (self : Immutables B256) (context : Context) (id : Address)
    (balance : AssetBalance) (delivery : Delivery B256) (world : World B256) :
    Outcome (ContractError B256) (World B256) :=
  let amount := balance.available.setWidth 256
  if balance.asset = address0 then
    match nativeCall self context .escape id amount delivery world with
    | (true, world') => .ok world'
    | (false, _) => .error (.error (.NativeEscapeWithdrawalFailed id amount))
  else safeTransfer self context .escape balance.asset id amount delivery world

/-- {lit}`_executeEscapeWithdrawal`. -/
def executeEscapeWithdrawal (self : Immutables B256) (context : Context)
    (outcomes : Nat → Delivery B256) (index : Nat) (id : Address) (balances : List AssetBalance) (world : World B256) :
    Outcome (ContractError B256) (World B256) :=
  match balances with
  | [] => .ok world
  | balance :: rest =>
      if balance.available = 0 then
        executeEscapeWithdrawal self context outcomes (index + 1) id rest world
      else do
        let world ← escapeTransfer self context id balance (outcomes index) world
        executeEscapeWithdrawal self context outcomes (index + 1) id rest
          (world.emit (.EscapeWithdrawn id balance.asset balance.available))

/-- {lit}`escapeWithdraw`. -/
def escapeWithdraw [DecidableEq B256] [Sha256 B256] [MathLibrary] (self : Immutables B256)
    (context : Context) (id : Address) (nextNonce : U64) (balances : List AssetBalance)
    (sideNodes : List (PatriciaProof.SideNode B256)) (outcomes : Nat → Delivery B256)
    (world : World B256) : Outcome (ContractError B256) (World B256) := do
  Outcome.rejectIf (!world.storage.escapeMode) .EscapeModeNotActive
  Outcome.rejectIf (world.storage.escaped id) (.AlreadyEscaped id)
  let reconstructed ← Outcome.mapError (fun _ => ContractError.InvalidProof)
    (PatriciaProof.verifyAccount id nextNonce balances sideNodes)
  Outcome.rejectIf (reconstructed ≠ world.storage.stateRoot)
    (.InvalidEscapeProof world.storage.stateRoot reconstructed)
  let storage := { world.storage with escaped := Function.update world.storage.escaped id true }
  executeEscapeWithdrawal self context outcomes 0 id balances { world with storage }

/-! ## Runs -/

/-- The storage that the constructor leaves behind. -/
def initialStorage (initialStateRoot : B256) (initialBatchId : U64) : Storage B256 where
  stateRoot := initialStateRoot
  nextBatchId := initialBatchId
  nextDepositId := 0
  nextUnprocessedDeposit := 0
  deposits _ := ⟨address0, address0, 0⟩
  nextForcedWithdrawalId := 0
  nextUnprocessedForcedWithdrawal := 0
  forcedWithdrawalRequests _ := ⟨address0, address0, 0, 0⟩
  escapeMode := false
  escaped _ := false
  pendingWithdrawals _ _ := 0

/-- {lit}`constructor`, run by the contract at an address. -/
def construct (this verifier : Address) (programVKey configHash : B256) (protocolVersion : U32)
    (initialStateRoot : B256) (initialBatchId : U64) (forcedWithdrawalDelay : U64) :
    Outcome (ContractError B256) (Immutables B256 × Storage B256) := do
  Outcome.rejectIf (verifier = address0) .ZeroVerifier
  let self : Immutables B256 := {
    VERIFIER := verifier
    PROGRAM_VKEY := programVKey
    EXCHANGE_ID := this
    CONFIG_HASH := configHash
    PROTOCOL_VERSION := protocolVersion
    FORCED_WITHDRAWAL_DELAY := forcedWithdrawalDelay }
  .ok (self, initialStorage initialStateRoot initialBatchId)

/-- A call of the contract, with what its environment does meanwhile; or assets that reach
it without a call. -/
inductive Call (B256 : Type) where
  | deposit (value : U256)
  | depositToken (value : U256) (token : Address) (amount : U256) (delivery : Delivery B256)
  | requestForcedWithdrawal (asset : Address) (amount : U128)
  | activateEscapeMode
  | escapeWithdraw (id : Address) (nextNonce : U64) (balances : List AssetBalance)
      (sideNodes : List (PatriciaProof.SideNode B256)) (outcomes : Nat → Delivery B256)
  | withdrawPending (account asset : Address) (delivery : Delivery B256)
  | settle (publicValues : List B256) (proof : Bytes) (withdrawals : List Withdrawal)
      (forcedWithdrawals : List ForcedWithdrawal) (outcomes : Nat → Delivery B256)
  | receive (asset : Address) (amount : U256)

section

variable [DecidableEq B256] [Bytes32 B256] [Sha256 B256] [MathLibrary] [ISP1Verifier B256]

/-- What a call does; no guarded function is running when a transaction starts. -/
def exec (self : Immutables B256) (context : Context) (world : World B256) :
    Call B256 → Outcome (ContractError B256) (World B256)
  | .deposit value => nonReentrant .NOT_ENTERED (fun world => do
      let (_, world) ← deposit context value world
      .ok world) world
  | .depositToken value token amount delivery => nonReentrant .NOT_ENTERED (fun world => do
      let (_, world) ← depositToken self context value token amount delivery world
      .ok world) world
  | .requestForcedWithdrawal asset amount => do
      let (_, world) ← requestForcedWithdrawal self context asset amount world
      .ok world
  | .activateEscapeMode => activateEscapeMode context world
  | .escapeWithdraw id nextNonce balances sideNodes outcomes => nonReentrant .NOT_ENTERED
      (escapeWithdraw self context id nextNonce balances sideNodes outcomes) world
  | .withdrawPending account asset delivery => nonReentrant .NOT_ENTERED
      (withdrawPending self context account asset delivery) world
  | .settle publicValues proof withdrawals forcedWithdrawals outcomes => nonReentrant .NOT_ENTERED
      (settle self context publicValues proof withdrawals forcedWithdrawals outcomes) world
  | .receive asset amount => .ok (receive asset amount world)

/-- A transaction: a reverted call changes nothing. -/
def step (self : Immutables B256) (world : World B256) (transaction : Context × Call B256) :
    World B256 :=
  match exec self transaction.1 world transaction.2 with
  | .ok world' => world'
  | .error _ => world

/-- A sequence of transactions. -/
def run (self : Immutables B256) (world : World B256) (transactions : List (Context × Call B256)) :
    World B256 :=
  transactions.foldl (step self) world

end

end Contract

end ZkClob
