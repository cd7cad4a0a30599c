import ZkClob.Contracts.Interface

/-!
# The functions of the contract

The contract holds the assets, queues deposits and forced withdrawals, settles proven
batches and lets accounts escape.  What happens outside of it is part of the input of a
call: whether an asset transfer is delivered, and what is called back into the contract
before the transfer returns, whether it is delivered or not.  Most entry points are
guarded against such calls by one lock, which is taken while a guarded function runs.  All
transfers are made by guarded functions, so that the lock is taken during each of them.

A reverted call leaves the world as it was.
-/

namespace ZkClob

open Foundations

/-- The SP1 verifier contract: {lit}`verifyProof` returns for a valid proof and reverts
otherwise. -/
class ISP1Verifier (B256 : Type) where
  verifyProof : Address → B256 → List B256 → Bytes → Bool

namespace Contract

variable {B256 : Type}

/-! ## The world of the contract -/

/-- The transaction that a call belongs to. -/
structure Context where
  sender : Address
  timestamp : U256
  chainId : U256

/-- Why assets moved between the contract and a party. -/
inductive TransferKind where
  | deposit
  | payout
  | escape
deriving DecidableEq

/-- A movement of an asset between the contract and a party. -/
structure Transfer where
  kind : TransferKind
  party : Address
  asset : Address
  amount : U256
deriving DecidableEq

/-- The contract, the assets it holds, and the record of the transfers and events. -/
structure World (B256 : Type) where
  storage : Storage B256
  holdings : Address → U256
  transfers : List Transfer
  events : List (Event B256)

/-- {lit}`emit`. -/
def World.emit (world : World B256) (event : Event B256) : World B256 :=
  { world with events := world.events ++ [event] }

/-- The status of {lit}`ReentrancyGuard`. -/
inductive Guard where
  | NOT_ENTERED
  | ENTERED
deriving DecidableEq

/-- {lit}`nonReentrant`. -/
def nonReentrant (status : Guard)
    (function : World B256 → Outcome (ContractError B256) (World B256)) (world : World B256) :
    Outcome (ContractError B256) (World B256) := do
  Outcome.rejectIf (status = .ENTERED) .ReentrancyGuardReentrantCall
  function world

/-- A guarded function runs when none is running. -/
@[simp]
theorem nonReentrant_notEntered
    (function : World B256 → Outcome (ContractError B256) (World B256)) (world : World B256) :
    nonReentrant .NOT_ENTERED function world = function world :=
  rfl

/-- What a recipient or a token can do to the contract during a transfer.  A call of a guarded
function may be any that the lock is in front of. -/
inductive Callback (B256 : Type) where
  | requestForcedWithdrawal (sender asset : Address) (amount : U128)
  | activateEscapeMode
  | guarded (function : World B256 → Outcome (ContractError B256) (World B256))
  | receive (asset : Address) (amount : U256)

/-- What happens to a transfer.  It fails when it is reverted, and when a token answers that nothing
was moved; before that answer it may have called back. -/
inductive Delivery (B256 : Type) where
  | failed (callbacks : List (Callback B256))
  | delivered (callbacks : List (Callback B256))

/-- The transfer is made if it is covered. -/
def Delivery.Made : Delivery B256 → Prop
  | .failed _ => False
  | .delivered _ => True

/-! ## Forced withdrawals and escape mode -/

/-- {lit}`requestForcedWithdrawal`. -/
def requestForcedWithdrawal (self : Immutables B256) (context : Context) (asset : Address)
    (amount : U128) (world : World B256) : Outcome (ContractError B256) (U64 × World B256) := do
  Outcome.rejectIf (amount = 0) .ZeroForcedWithdrawalAmount
  let requestId := world.storage.nextForcedWithdrawalId
  let nextForcedWithdrawalId ← Outcome.expect (FixedWidth.checkedAdd requestId 1)
  let deadline ← Outcome.expect
    (FixedWidth.checkedAdd (context.timestamp.setWidth 64) self.FORCED_WITHDRAWAL_DELAY)
  let storage := { world.storage with
    nextForcedWithdrawalId
    forcedWithdrawalRequests := Function.update world.storage.forcedWithdrawalRequests requestId
      ⟨context.sender, asset, amount, deadline⟩ }
  .ok (requestId, World.emit { world with storage }
    (.ForcedWithdrawalRequested requestId context.sender asset amount deadline))

/-- {lit}`activateEscapeMode`. -/
def activateEscapeMode (context : Context) (world : World B256) :
    Outcome (ContractError B256) (World B256) := do
  let requestId := world.storage.nextUnprocessedForcedWithdrawal
  Outcome.rejectIf (requestId ≥ world.storage.nextForcedWithdrawalId) .NoPendingForcedWithdrawal
  let request := world.storage.forcedWithdrawalRequests requestId
  Outcome.rejectIf (context.timestamp < request.deadline.setWidth 256)
    (.ForcedWithdrawalDeadlineNotElapsed request.deadline)
  .ok (World.emit { world with storage := { world.storage with escapeMode := true } }
    (.EscapeModeActivated requestId request.deadline))

/-! ## Transfers -/

/-- Assets sent to the contract without a call of its functions. -/
def receive (asset : Address) (amount : U256) (world : World B256) : World B256 :=
  match FixedWidth.checkedAdd (world.holdings asset) amount with
  | none => world
  | some total => { world with holdings := Function.update world.holdings asset total }

/-- A call back into the contract; when it reverts it changes nothing. -/
def callback (self : Immutables B256) (context : Context) (status : Guard) (world : World B256) :
    Callback B256 → World B256
  | .requestForcedWithdrawal sender asset amount =>
      match requestForcedWithdrawal self { context with sender } asset amount world with
      | .ok (_, world') => world'
      | .error _ => world
  | .activateEscapeMode =>
      match activateEscapeMode context world with
      | .ok world' => world'
      | .error _ => world
  | .guarded function =>
      match nonReentrant status function world with
      | .ok world' => world'
      | .error _ => world
  | .receive asset amount => receive asset amount world

/-- While a guarded function runs, the lock keeps out all others. -/
@[simp]
theorem callback_guarded (self : Immutables B256) (context : Context) (world : World B256)
    (function : World B256 → Outcome (ContractError B256) (World B256)) :
    callback self context .ENTERED world (.guarded function) = world :=
  rfl

/-- The calls back into the contract during a transfer, which a guarded function makes. -/
def callbacksDuring (self : Immutables B256) (context : Context) (callbacks : List (Callback B256))
    (world : World B256) : World B256 :=
  callbacks.foldl (callback self context .ENTERED) world

/-- A transfer out of the contract: it needs the amount, and a transfer to the contract itself
moves nothing.  The result says whether it was made. -/
def moveOut (self : Immutables B256) (context : Context) (kind : TransferKind)
    (asset recipient : Address) (amount : U256) (delivery : Delivery B256) (world : World B256) :
    Bool × World B256 :=
  match delivery with
  | .failed callbacks => (false, callbacksDuring self context callbacks world)
  | .delivered callbacks =>
      match FixedWidth.checkedSub (world.holdings asset) amount with
      | none => (false, world)
      | some rest =>
          let holdings := if recipient = self.EXCHANGE_ID then world.holdings
            else Function.update world.holdings asset rest
          let transfers := world.transfers ++ [⟨kind, recipient, asset, amount⟩]
          (true, callbacksDuring self context callbacks { world with holdings, transfers })

/-- {lit}`recipient.call\x7bvalue: amount\x7d("")`; the contract itself accepts no plain call, and a
call that fails is rolled back. -/
def nativeCall (self : Immutables B256) (context : Context) (kind : TransferKind)
    (recipient : Address) (amount : U256) (delivery : Delivery B256) (world : World B256) :
    Bool × World B256 :=
  if recipient = self.EXCHANGE_ID then (false, world)
  else
    match moveOut self context kind address0 recipient amount delivery world with
    | (true, world') => (true, world')
    | (false, _) => (false, world)

/-- {lit}`SafeERC20.trySafeTransfer`. -/
def trySafeTransfer (self : Immutables B256) (context : Context) (kind : TransferKind)
    (token recipient : Address) (amount : U256) (delivery : Delivery B256) (world : World B256) :
    Bool × World B256 :=
  moveOut self context kind token recipient amount delivery world

/-- {lit}`SafeERC20.safeTransfer`. -/
def safeTransfer (self : Immutables B256) (context : Context) (kind : TransferKind)
    (token recipient : Address) (amount : U256) (delivery : Delivery B256) (world : World B256) :
    Outcome (ContractError B256) (World B256) :=
  match trySafeTransfer self context kind token recipient amount delivery world with
  | (true, world') => .ok world'
  | (false, _) => .error (.error (.SafeERC20FailedOperation token))

/-- {lit}`SafeERC20.safeTransferFrom` to the contract. -/
def safeTransferFrom (self : Immutables B256) (context : Context) (token sender : Address)
    (amount : U256) (delivery : Delivery B256) (world : World B256) :
    Outcome (ContractError B256) (World B256) :=
  match delivery with
  | .failed _ => .error (.error (.SafeERC20FailedOperation token))
  | .delivered callbacks => do
      let total ← Outcome.okOr (FixedWidth.checkedAdd (world.holdings token) amount)
        (.SafeERC20FailedOperation token)
      let holdings := if sender = self.EXCHANGE_ID then world.holdings
        else Function.update world.holdings token total
      let transfers := world.transfers ++ [⟨.deposit, sender, token, amount⟩]
      .ok (callbacksDuring self context callbacks { world with holdings, transfers })

/-- {lit}`_attemptTransfer`. -/
def attemptTransfer (self : Immutables B256) (context : Context) (asset recipient : Address)
    (amount : U256) (delivery : Delivery B256) (world : World B256) : Bool × World B256 :=
  if asset = address0 then nativeCall self context .payout recipient amount delivery world
  else trySafeTransfer self context .payout asset recipient amount delivery world

/-! ## Deposits -/

/-- {lit}`_validateDepositAmount`. -/
def validateDepositAmount (amount : U256) : Outcome (ContractError B256) Unit := do
  Outcome.rejectIf (amount = 0) .ZeroDepositAmount
  Outcome.rejectIf (amount.toNat > 2 ^ 128 - 1) (.DepositAmountOverflow amount)

/-- {lit}`_queueDeposit`. -/
def queueDeposit (account asset : Address) (amount : U256) (world : World B256) :
    Outcome (ContractError B256) (U64 × World B256) := do
  validateDepositAmount amount
  let depositId := world.storage.nextDepositId
  let nextDepositId ← Outcome.expect (FixedWidth.checkedAdd depositId 1)
  let storage := { world.storage with
    nextDepositId
    deposits := Function.update world.storage.deposits depositId
      ⟨account, asset, amount.setWidth 128⟩ }
  .ok (depositId, World.emit { world with storage }
    (.DepositQueued depositId account asset (amount.setWidth 128)))

/-- {lit}`deposit()`: the value of the call has reached the contract before it runs. -/
def deposit (context : Context) (value : U256) (world : World B256) :
    Outcome (ContractError B256) (U64 × World B256) := do
  let total ← Outcome.expect (FixedWidth.checkedAdd (world.holdings address0) value)
  let holdings := Function.update world.holdings address0 total
  let transfers := world.transfers ++ [⟨.deposit, context.sender, address0, value⟩]
  queueDeposit context.sender address0 value { world with holdings, transfers }

/-- {lit}`deposit(token, amount)`. -/
def depositToken (self : Immutables B256) (context : Context) (value : U256) (token : Address)
    (amount : U256) (delivery : Delivery B256) (world : World B256) :
    Outcome (ContractError B256) (U64 × World B256) := do
  Outcome.rejectIf (token = address0) (.InvalidToken token)
  Outcome.rejectIf (value ≠ 0) (.UnexpectedNativeValue value)
  validateDepositAmount amount
  let balanceBefore := world.holdings token
  let world ← safeTransferFrom self context token context.sender amount delivery world
  let balanceAfter := world.holdings token
  Outcome.rejectIf (balanceAfter < balanceBefore) (.TokenTransferAmountMismatch token amount 0)
  let received ← Outcome.expect (FixedWidth.checkedSub balanceAfter balanceBefore)
  Outcome.rejectIf (received ≠ amount) (.TokenTransferAmountMismatch token amount received)
  queueDeposit context.sender token amount world

/-! ## Hashes of the queues and lists -/

/-- The ids from a cursor on to another one. -/
def idsBetween (start stop : U64) : List U64 :=
  (List.range' start.toNat (stop.toNat - start.toNat)).map (BitVec.ofNat 64)

/-- The bytes hashed by {lit}`_hashDeposits`. -/
def encodeDeposits (self : Storage B256) (start stop : U64) :
    Outcome (ContractError B256) Bytes := do
  let count ← Outcome.expect (FixedWidth.checkedSub stop start)
  let encoded := ascii "ZKCLOB_DEPOSITS_V1" ++ beBytes count
  .ok ((idsBetween start stop).foldl (fun encoded id =>
    let queued := self.deposits id
    encoded ++ (beBytes id ++ queued.account.toList ++ queued.asset.toList ++
      beBytes queued.amount))
    encoded)

/-- The bytes hashed by {lit}`_hashForcedWithdrawalRequests`. -/
def encodeForcedWithdrawalRequests (self : Storage B256) (start stop : U64) :
    Outcome (ContractError B256) Bytes := do
  let count ← Outcome.expect (FixedWidth.checkedSub stop start)
  let encoded := ascii "ZKCLOB_FORCED_WITHDRAWALS_V1" ++ beBytes count
  .ok ((idsBetween start stop).foldl (fun encoded id =>
    let queued := self.forcedWithdrawalRequests id
    encoded ++ (beBytes id ++ queued.account.toList ++ queued.asset.toList ++
      beBytes queued.amount))
    encoded)

/-- The bytes hashed by {lit}`_hashWithdrawals`. -/
def encodeWithdrawals (withdrawals : List Withdrawal) : Bytes :=
  let encoded := ascii "ZKCLOB_WITHDRAWALS_V1" ++ beBytes (BitVec.ofNat 64 withdrawals.length)
  withdrawals.foldl (fun encoded withdrawal =>
    encoded ++ (withdrawal.account.toList ++ withdrawal.recipient.toList ++
      withdrawal.asset.toList ++
      beBytes withdrawal.amount ++ beBytes withdrawal.nonce)) encoded

/-- The bytes hashed by {lit}`_hashForcedWithdrawals`. -/
def encodeForcedWithdrawals (forcedWithdrawals : List ForcedWithdrawal) : Bytes :=
  let encoded := ascii "ZKCLOB_FORCED_WITHDRAWALS_V1" ++
    beBytes (BitVec.ofNat 64 forcedWithdrawals.length)
  forcedWithdrawals.foldl (fun encoded forcedWithdrawal =>
    encoded ++ (beBytes forcedWithdrawal.id ++ forcedWithdrawal.account.toList ++
      forcedWithdrawal.asset.toList ++ beBytes forcedWithdrawal.amount)) encoded

section

variable [Sha256 B256]

/-- {lit}`_hashDeposits`. -/
def hashDeposits (self : Storage B256) (start stop : U64) : Outcome (ContractError B256) B256 := do
  let encoded ← encodeDeposits self start stop
  .ok (Sha256.sha256 encoded)

/-- {lit}`_hashForcedWithdrawalRequests`. -/
def hashForcedWithdrawalRequests (self : Storage B256) (start stop : U64) :
    Outcome (ContractError B256) B256 := do
  let encoded ← encodeForcedWithdrawalRequests self start stop
  .ok (Sha256.sha256 encoded)

variable (B256)

/-- {lit}`_hashWithdrawals`. -/
def hashWithdrawals (withdrawals : List Withdrawal) : B256 :=
  Sha256.sha256 (encodeWithdrawals withdrawals)

/-- {lit}`_hashForcedWithdrawals`. -/
def hashForcedWithdrawals (forcedWithdrawals : List ForcedWithdrawal) : B256 :=
  Sha256.sha256 (encodeForcedWithdrawals forcedWithdrawals)

end

end Contract

end ZkClob
