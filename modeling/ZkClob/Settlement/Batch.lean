import ZkClob.Core.Operations
import ZkClob.Settlement.State

/-!
# Batches

What the host hands to the guest, and what the guest commits to.  The public
output is the only part that leaves the proof; the witness, the hints and the
order books stay private.
-/

namespace ZkClob

open Foundations

/-- Maximum number of items of one kind in a batch. -/
def MAX_DEPOSITS_PER_BATCH : Nat := 1000
def MAX_ORDERS_PER_BATCH : Nat := 1000
def MAX_WITHDRAWALS_PER_BATCH : Nat := 1000
def MAX_FORCED_WITHDRAWALS_PER_BATCH : Nat := 1000

/-- Maximum number of accounts in the witness: one for each order and the fee
recipient. -/
def MAX_TOUCHED_ACCOUNTS_PER_BATCH : Nat := MAX_ORDERS_PER_BATCH + 1

/-- Fees are counted in basis points. -/
def BPS_DENOMINATOR : U128 := 10000

/-- The domain in which signatures are valid. -/
structure SigningDomain where
  protocolVersion : U32
  chainId : U64
  exchangeId : Address
deriving DecidableEq

instance : DomainSha256Hash SigningDomain where
  updateHash self :=
    beBytes self.protocolVersion ++ beBytes self.chainId ++ updateHash self.exchangeId
  domain := ascii "ZKCLOB_SIGNING_DOMAIN_V1"

/-- The public values of a batch proof. -/
structure PublicOutput (B256 : Type) where
  domain : SigningDomain
  batchId : U64
  oldStateRoot : B256
  newStateRoot : B256
  configHash : B256
  batchHash : B256
  tradesHash : B256
  oldDepositCursor : U64
  newDepositCursor : U64
  consumedDepositsHash : B256
  oldForcedWithdrawalCursor : U64
  consumedForcedWithdrawalsHash : B256
  withdrawalsHash : B256
  forcedWithdrawalsHash : B256
deriving DecidableEq

/-- Canonical host-built order-book view for one market. -/
structure MarketOrderBook where
  marketId : MarketId
  buyIndices : List U32
  sellIndices : List U32
deriving DecidableEq

/-- Private witness and transition context supplied to the guest. -/
structure BatchInput (B256 : Type) where
  domain : SigningDomain
  batchId : U64
  expectedOldStateRoot : B256
  state : StateWitness B256
  oldDepositCursor : U64
  deposits : List Deposit
  oldForcedWithdrawalCursor : U64
  forcedWithdrawals : List ForcedWithdrawal
  orders : List SequencedOrder
  withdrawals : List SignedWithdrawal
  orderBooks : List MarketOrderBook
  config : ExchangeConfig
deriving DecidableEq

/-- The result of a batch: the public output and the data it commits to. -/
structure BatchOutput (B256 : Type) where
  publicOutput : PublicOutput B256
  updatedAccounts : List Account
  trades : List Trade
  withdrawals : List ExecutedWithdrawal
  forcedWithdrawals : List ForcedWithdrawal
deriving DecidableEq

/-- The batch commitment: signing domain, batch id, old root, configuration, orders. -/
instance {B256 : Type} [Sha256 B256] :
    DomainSha256Hash (B256 × U64 × B256 × B256 × List SequencedOrder) where
  updateHash := fun (domainHash, batchId, oldStateRoot, configHash, orders) =>
    Sha256.bytes domainHash ++ beBytes batchId ++ Sha256.bytes oldStateRoot ++
      Sha256.bytes configHash ++ updateHashList orders
  domain := ascii "ZKCLOB_BATCH_V1"

end ZkClob
