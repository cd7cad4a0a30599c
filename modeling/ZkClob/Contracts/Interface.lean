import ZkClob.Contracts.PatriciaProof
import ZkClob.Settlement.Batch
import Mathlib.Logic.Function.Basic

/-!
# The interface of the contract

The records, errors and events of the contract, its storage, and the public values that
it shares with the guest.  A {lit}`bytes32` word holds a digest or a number; the layout
of the public values is one word for each field.

Main results:

- Theorem {lit}`Contract.addressOfNumber_uint160`: an address survives as a number.
- Theorem {lit}`Contract.abiDecode_abiEncode`: the contract decodes what the guest
  encodes.
-/

namespace ZkClob

open Foundations

/-- Words of thirty-two bytes, read as numbers. -/
class Bytes32 (B256 : Type) where
  ofNumber : U256 → B256
  toNumber : B256 → U256
  toNumber_ofNumber : ∀ x : U256, toNumber (ofNumber x) = x

namespace Contract

/-! ## Records -/

/-- {lit}`struct Deposit`. -/
structure Deposit where
  account : Address
  asset : Address
  amount : U128
deriving DecidableEq

/-- {lit}`struct Withdrawal`; the guest lists the same fields. -/
abbrev Withdrawal := ExecutedWithdrawal

/-- {lit}`struct ForcedWithdrawalRequest`. -/
structure ForcedWithdrawalRequest where
  account : Address
  asset : Address
  amount : U128
  deadline : U64
deriving DecidableEq

/-- {lit}`struct ForcedWithdrawal`. -/
structure ForcedWithdrawal where
  id : U64
  account : Address
  asset : Address
  amount : U128
deriving DecidableEq

/-- The custom errors.  {lit}`InvalidProof` is the proof library's, {lit}`SafeERC20FailedOperation`
the token library's and {lit}`ReentrancyGuardReentrantCall` the guard's; {lit}`VerifierRevert`
stands for what the verifier reverts with, and {lit}`EmptyRevert` for a revert without data. -/
inductive ContractError (B256 : Type) where
  | InvalidPublicValuesLength (actual : U256)
  | DepositAmountOverflow (amount : U256)
  | InvalidToken (token : Address)
  | TokenTransferAmountMismatch (token : Address) (expected actual : U256)
  | UnexpectedNativeValue (amount : U256)
  | WrongProtocolVersion (expected actual : U32)
  | WrongChain (expected : U256) (actual : U64)
  | WrongExchange (expected actual : Address)
  | WrongConfig (expected actual : B256)
  | WrongBatchId (expected actual : U64)
  | StaleStateRoot (expected actual : B256)
  | WrongDepositCursor (expected actual : U64)
  | InvalidDepositCursorAdvance (oldCursor newCursor nextDepositId : U64)
  | ConsumedDepositsHashMismatch (expected actual : B256)
  | WithdrawalsHashMismatch (expected actual : B256)
  | ZeroVerifier
  | ZeroDepositAmount
  | WrongForcedWithdrawalCursor (expected actual : U64)
  | InvalidForcedWithdrawalCursorAdvance (oldCursor newCursor nextForcedWithdrawalId : U64)
  | ConsumedForcedWithdrawalsHashMismatch (expected actual : B256)
  | ForcedWithdrawalsHashMismatch (expected actual : B256)
  | ZeroForcedWithdrawalAmount
  | EscapeModeActive
  | EscapeModeNotActive
  | NoPendingForcedWithdrawal
  | ForcedWithdrawalDeadlineNotElapsed (deadline : U64)
  | InvalidEscapeProof (expected actual : B256)
  | AlreadyEscaped (account : Address)
  | NativeEscapeWithdrawalFailed (account : Address) (amount : U256)
  | NoPendingWithdrawal
  | PendingWithdrawalTransferFailed (account asset : Address) (amount : U256)
  | InvalidProof
  | VerifierRevert
  | SafeERC20FailedOperation (token : Address)
  | ReentrancyGuardReentrantCall
  | EmptyRevert
deriving DecidableEq

/-- The events. -/
inductive Event (B256 : Type) where
  | DepositQueued (depositId : U64) (account asset : Address) (amount : U128)
  | WithdrawalExecuted (account recipient asset : Address) (amount : U128) (nonce : U64)
  | ForcedWithdrawalRequested (id : U64) (account asset : Address) (amount : U128) (deadline : U64)
  | ForcedWithdrawalExecuted (account asset : Address) (amount : U128) (id : U64)
  | EscapeModeActivated (requestId deadline : U64)
  | EscapeWithdrawn (account asset : Address) (amount : U128)
  | WithdrawalPending (account asset : Address) (amount : U256)
  | PendingWithdrawalClaimed (account asset : Address) (amount : U256)
  | BatchSettled (batchId : U64) (oldStateRoot newStateRoot batchHash tradesHash : B256)
deriving DecidableEq

/-! ## Storage -/

/-- The values that the constructor fixes. -/
structure Immutables (B256 : Type) where
  VERIFIER : Address
  PROGRAM_VKEY : B256
  EXCHANGE_ID : Address
  CONFIG_HASH : B256
  PROTOCOL_VERSION : U32
  FORCED_WITHDRAWAL_DELAY : U64

/-- The storage of the contract.  A mapping is a function; its initial entries are zero. -/
structure Storage (B256 : Type) where
  stateRoot : B256
  nextBatchId : U64
  nextDepositId : U64
  nextUnprocessedDeposit : U64
  deposits : U64 → Deposit
  nextForcedWithdrawalId : U64
  nextUnprocessedForcedWithdrawal : U64
  forcedWithdrawalRequests : U64 → ForcedWithdrawalRequest
  escapeMode : Bool
  escaped : Address → Bool
  pendingWithdrawals : Address → Address → U256

/-- {lit}`address(0)`; as an asset it stands for native ether. -/
def address0 : Address :=
  FixedBytes.replicate 20 0

/-! ## Public values -/

section

variable {B256 : Type} [Bytes32 B256]

/-- A number as a word. -/
def uintWord {w : Nat} (x : BitVec w) : B256 :=
  Bytes32.ofNumber (x.setWidth 256)

/-- {lit}`PublicOutput::abi_encode`: one word for each field. -/
def abiEncode (output : PublicOutput B256) : List B256 :=
  [uintWord output.domain.protocolVersion, uintWord output.domain.chainId,
    uintWord (uint160 output.domain.exchangeId), uintWord output.batchId, output.oldStateRoot,
    output.newStateRoot, output.configHash, output.batchHash, output.tradesHash,
    uintWord output.oldDepositCursor, uintWord output.newDepositCursor,
    output.consumedDepositsHash, uintWord output.oldForcedWithdrawalCursor,
    output.consumedForcedWithdrawalsHash, output.withdrawalsHash, output.forcedWithdrawalsHash]

/-- Decoding of a number checks that its unused bytes are zero. -/
def decodeUint (w : Nat) (word : B256) : Outcome (ContractError B256) (BitVec w) :=
  Outcome.okOr (FixedWidth.ofNat? w (Bytes32.toNumber word).toNat) .EmptyRevert

/-- The address with the given number. -/
def addressOfNumber (x : BitVec 160) : Address :=
  ⟨toBeBytes 20 x.toNat, length_toBeBytes 20 x.toNat⟩

/-- {lit}`abi.decode(publicValues, (PublicOutput))`. -/
def abiDecode (publicValues : List B256) : Outcome (ContractError B256) (PublicOutput B256) :=
  match publicValues with
  | [protocolVersion, chainId, exchangeId, batchId, oldStateRoot, newStateRoot, configHash,
      batchHash, tradesHash, oldDepositCursor, newDepositCursor, consumedDepositsHash,
      oldForcedWithdrawalCursor, consumedForcedWithdrawalsHash, withdrawalsHash,
      forcedWithdrawalsHash] => do
      let protocolVersion ← decodeUint 32 protocolVersion
      let chainId ← decodeUint 64 chainId
      let exchangeId ← decodeUint 160 exchangeId
      let batchId ← decodeUint 64 batchId
      let oldDepositCursor ← decodeUint 64 oldDepositCursor
      let newDepositCursor ← decodeUint 64 newDepositCursor
      let oldForcedWithdrawalCursor ← decodeUint 64 oldForcedWithdrawalCursor
      .ok {
        domain := ⟨protocolVersion, chainId, addressOfNumber exchangeId⟩
        batchId, oldStateRoot, newStateRoot, configHash, batchHash, tradesHash, oldDepositCursor
        newDepositCursor, consumedDepositsHash, oldForcedWithdrawalCursor
        consumedForcedWithdrawalsHash, withdrawalsHash, forcedWithdrawalsHash }
  | _ => .error (.error .EmptyRevert)

/-- A number that was encoded is decoded. -/
theorem decodeUint_uintWord {w : Nat} (hw : w ≤ 256) (x : BitVec w) :
    decodeUint w (uintWord x : B256) = .ok x := by
  have hx : x.toNat < 2 ^ 256 := x.isLt.trans_le (Nat.pow_le_pow_right (by norm_num) hw)
  rw [decodeUint, uintWord, Bytes32.toNumber_ofNumber, Outcome.okOr_eq_ok,
    FixedWidth.ofNat?_eq_some, BitVec.toNat_setWidth, Nat.mod_eq_of_lt hx]

end

/-- An address survives as a number. -/
@[simp]
theorem addressOfNumber_uint160 (a : Address) : addressOfNumber (uint160 a) = a := by
  apply FixedBytes.ext
  rw [addressOfNumber, PatriciaProof.toNat_uint160]
  exact a.toBeBytes_beValue

variable {B256 : Type} [Bytes32 B256]

/-- The contract decodes what the guest encodes. -/
theorem abiDecode_abiEncode (output : PublicOutput B256) :
    abiDecode (abiEncode output) = .ok output := by
  simp only [abiEncode, abiDecode, decodeUint_uintWord (show 32 ≤ 256 by norm_num),
    decodeUint_uintWord (show 64 ≤ 256 by norm_num),
    decodeUint_uintWord (show 160 ≤ 256 by norm_num), Outcome.ok_bind, addressOfNumber_uint160]

end Contract

end ZkClob
