import ZkClob.Core.Identifiers
import ZkClob.Foundations.FixedWidth
import ZkClob.Foundations.Outcome

/-!
# Settlement errors

Every way in which a batch can be rejected, with the data the error carries.
-/

namespace ZkClob

open Foundations

/-- Reasons for which {lit}`settle_batch` rejects a batch. -/
inductive SettlementError where
  | TooManyAccounts
  | TooManyDeposits
  | TooManyOrders
  | TooManyWithdrawals
  | TooManyForcedWithdrawals
  | TooManyAssets
  | TooManyMarkets
  | DuplicateAccount
  | DuplicateBalance
  | DuplicateAsset
  | DuplicateMarket
  | DuplicateMarketOrderBook
  | DuplicateOrderIndex
  | DuplicateSequence
  | UnknownAccount
  | UnknownAsset
  | UnknownMarket
  | MissingFeeRecipient
  | MissingOrderIndex
  | EmptyOrderBook
  | ZeroAssetScale
  | ZeroBalance
  | ZeroPrice
  | ZeroQuantity
  | ZeroDepositAmount
  | ZeroWithdrawalAmount
  | ZeroForcedWithdrawalAmount
  | IdenticalMarketAssets
  | InvalidFee
  | InvalidOrderSignature
  | InvalidWithdrawalSignature
  | InvalidNonce
  | InvalidDepositCursor
  | InvalidForcedWithdrawalCursor
  | InvalidOrderIndex
  | OrderBookMarketMismatch
  | OrderBookSideMismatch
  | UnsortedAccounts
  | UnsortedAssets
  | UnsortedBalances
  | UnsortedMarkets
  | UnsortedMarketOrderBooks
  | UnsortedOrderBook
  | NonceOverflow
  | DepositCursorOverflow
  | ForcedWithdrawalCursorOverflow
  | OldStateRootMismatch
  | InvalidStateMultiproof
  | SelfTrade
  | InsufficientBalance (account : AccountId) (asset : AssetId) (available required : U128)
  | ArithmeticOverflow
  | TradeValueRoundsToZero
  | AssetConservationViolation
deriving DecidableEq

end ZkClob
