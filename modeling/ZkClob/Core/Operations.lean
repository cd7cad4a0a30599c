import ZkClob.Core.Config

/-!
# Operations and their records

Deposits and forced withdrawals come from the queues of the contract; orders and
withdrawals are signed by their account.  Trades and executed withdrawals record
what a batch did.

The public-key recovery of the signature library is a parameter; the checks that
surround it are the code's own.

Main results:

- Theorems {lit}`depositsHash_injective`, {lit}`forcedWithdrawalsHash_injective` and
  {lit}`executedWithdrawalsHash_injective`: each list encoding determines the
  hashed fields of the list.
-/

namespace ZkClob

open Foundations

/-- A queued deposit.  The account index is a hint and is not hashed. -/
structure Deposit where
  id : U64
  account : AccountId
  asset : AssetId
  amount : U128
  accountIndex : Option U32
deriving DecidableEq

/-- A queued request to withdraw up to an amount, or the record of the amount
drained for it.  The account index is a hint and is not hashed. -/
structure ForcedWithdrawal where
  id : U64
  account : AccountId
  asset : AssetId
  amount : U128
  accountIndex : Option U32
deriving DecidableEq

/-- {lit}`ForcedWithdrawal::set_amount`. -/
def ForcedWithdrawal.setAmount (self : ForcedWithdrawal) (amount : U128) : ForcedWithdrawal :=
  { self with amount }

/-- Side of an order. -/
inductive Side where
  | Buy
  | Sell
deriving DecidableEq

/-- An order: price in quote units for one whole base asset, quantity in base units. -/
structure Order where
  marketId : MarketId
  side : Side
  price : U128
  quantity : U128
  nonce : U64
deriving DecidableEq

/-- A user's intent to remove an asset from the exchange. -/
structure Withdrawal where
  asset : AssetId
  amount : U128
  recipient : AccountId
  nonce : U64
deriving DecidableEq

/-- A withdrawal as it is committed and executed by the contract. -/
structure ExecutedWithdrawal where
  account : AccountId
  recipient : AccountId
  asset : AssetId
  amount : U128
  nonce : U64
deriving DecidableEq

/-- The match of one buy order against one sell order. -/
structure Trade where
  marketId : MarketId
  buyer : AccountId
  seller : AccountId
  price : U128
  quantity : U128
  quoteAmount : U128
  quoteFee : U128
deriving DecidableEq

/-! ## Hashing -/

instance : Sha256Hash Deposit where
  updateHash self :=
    beBytes self.id ++ updateHash self.account ++ updateHash self.asset ++
      beBytes self.amount

instance : Sha256Hash ForcedWithdrawal where
  updateHash self :=
    beBytes self.id ++ updateHash self.account ++ updateHash self.asset ++
      beBytes self.amount

instance : DomainSha256Hash Order where
  updateHash self :=
    updateHash self.marketId ++
      [match self.side with
        | .Buy => 0
        | .Sell => 1] ++
      beBytes self.price ++ beBytes self.quantity ++ beBytes self.nonce
  domain := ascii "ZKCLOB_ORDER_V1"

instance : DomainSha256Hash Withdrawal where
  updateHash self :=
    updateHash self.asset ++ beBytes self.amount ++ updateHash self.recipient ++
      beBytes self.nonce
  domain := ascii "ZKCLOB_WITHDRAWAL_V1"

instance : Sha256Hash ExecutedWithdrawal where
  updateHash self :=
    updateHash self.account ++ updateHash self.recipient ++ updateHash self.asset ++
      beBytes self.amount ++ beBytes self.nonce

instance : Sha256Hash Trade where
  updateHash self :=
    updateHash self.marketId ++ updateHash self.buyer ++ updateHash self.seller ++
      beBytes self.price ++ beBytes self.quantity ++ beBytes self.quoteAmount ++
      beBytes self.quoteFee

/-- A hashed list: the number of entries, then the entries. -/
def updateHashList {α : Type} [Sha256Hash α] (l : List α) : Bytes :=
  toBeBytes 8 l.length ++ l.flatMap updateHash

instance : DomainSha256Hash (List Trade) where
  updateHash := updateHashList
  domain := ascii "ZKCLOB_TRADES_V1"

instance : DomainSha256Hash (List Deposit) where
  updateHash := updateHashList
  domain := ascii "ZKCLOB_DEPOSITS_V1"

instance : DomainSha256Hash (List ForcedWithdrawal) where
  updateHash := updateHashList
  domain := ascii "ZKCLOB_FORCED_WITHDRAWALS_V1"

instance : DomainSha256Hash (List ExecutedWithdrawal) where
  updateHash := updateHashList
  domain := ascii "ZKCLOB_WITHDRAWALS_V1"

/-! ## Signed operations -/

/-- The functions of the signature and hash libraries that recover a signer. -/
class Secp256k1 (B256 : Type) where
  /-- {lit}`RecoverableSignature::from_compact` accepts the two halves. -/
  fromCompact : FixedBytes 32 → FixedBytes 32 → Nat → Bool
  /-- {lit}`normalize_s` leaves the signature unchanged. -/
  isNormalized : FixedBytes 32 → FixedBytes 32 → Bool
  /-- {lit}`recover_ecdsa`, with the public key serialised uncompressed. -/
  recoverEcdsa : B256 → FixedBytes 32 → FixedBytes 32 → Nat → Option (FixedBytes 65)
  /-- {lit}`keccak256`. -/
  keccak256 : Bytes → FixedBytes 32

/-- Recoverable signature {lit}`r || s || recovery_id`. -/
structure Signature where
  r : FixedBytes 32
  s : FixedBytes 32
  recoveryId : U8
deriving DecidableEq

/-- {lit}`Address::from_slice(&hash[12..])`. -/
def addressOfHash (hash : FixedBytes 32) : Address :=
  ⟨hash.toList.drop 12, by simp [hash.length_eq]⟩

/-- {lit}`Signature::recover`. -/
def Signature.recover {B256 : Type} [Secp256k1 B256] (self : Signature) (digest : B256) :
    Option AccountId :=
  if self.recoveryId.toNat > 1 then none
  else if !Secp256k1.fromCompact B256 self.r self.s self.recoveryId.toNat then none
  else if !Secp256k1.isNormalized B256 self.r self.s then none
  else do
    let publicKey ← Secp256k1.recoverEcdsa digest self.r self.s self.recoveryId.toNat
    let hash := Secp256k1.keccak256 B256 (publicKey.toList.drop 1)
    some (addressOfHash hash)

/-- An operation with the account that signed it.  The account index is a hint. -/
structure SignedOperation (O : Type) where
  operation : O
  signer : AccountId
  signature : Signature
  accountIndex : Option U32
deriving DecidableEq

section

variable {B256 O : Type} [Sha256 B256] [DomainSha256Hash O]

/-- {lit}`SignableOperation::digest`. -/
def signingDigest (operation : O) (domainHash : B256) : B256 :=
  Sha256.sha256 (ascii "ZKCLOB_SIGNED_OPERATION_V1" ++ Sha256.bytes domainHash ++
    Sha256.bytes (hash operation : B256))

/-- {lit}`SignedOperation::has_valid_signature`. -/
def SignedOperation.hasValidSignature [Secp256k1 B256] (self : SignedOperation O)
    (domainHash : B256) : Bool :=
  self.signature.recover (signingDigest self.operation domainHash) = some self.signer

end

/-- A signed order. -/
abbrev SignedOrder := SignedOperation Order

/-- A signed withdrawal. -/
abbrev SignedWithdrawal := SignedOperation Withdrawal

/-- A signed order with the sequence number assigned by the operator. -/
structure SequencedOrder where
  signedOrder : SignedOrder
  sequence : U64
deriving DecidableEq

namespace SequencedOrder

variable (self : SequencedOrder)

abbrev order : Order := self.signedOrder.operation
abbrev trader : AccountId := self.signedOrder.signer
abbrev accountIndex : Option U32 := self.signedOrder.accountIndex
abbrev marketId : MarketId := self.order.marketId
abbrev side : Side := self.order.side
abbrev price : U128 := self.order.price
abbrev quantity : U128 := self.order.quantity
abbrev nonce : U64 := self.order.nonce

end SequencedOrder

namespace SignedOperation

abbrev account (self : SignedWithdrawal) : AccountId := self.signer
abbrev asset (self : SignedWithdrawal) : AssetId := self.operation.asset
abbrev amount (self : SignedWithdrawal) : U128 := self.operation.amount
abbrev recipient (self : SignedWithdrawal) : AccountId := self.operation.recipient
abbrev nonce (self : SignedWithdrawal) : U64 := self.operation.nonce

end SignedOperation

/-- {lit}`ExecutedWithdrawal::from`. -/
def ExecutedWithdrawal.from (value : SignedWithdrawal) : ExecutedWithdrawal where
  account := value.account
  recipient := value.recipient
  asset := value.asset
  amount := value.amount
  nonce := value.nonce

instance : Sha256Hash SequencedOrder where
  updateHash self :=
    updateHash self.order ++ updateHash self.trader ++ beBytes self.sequence

/-- {lit}`Side::compare_priority`: best price first, then lowest sequence. -/
def Side.comparePriority (self : Side) (left right : SequencedOrder) : Ordering :=
  (match self with
    | .Buy => compare right.price.toNat left.price.toNat
    | .Sell => compare left.price.toNat right.price.toNat).then
    (compare left.sequence.toNat right.sequence.toNat)

/-! ## What the list hashes determine -/

/-- A hashed list determines the hashed fields of its entries, when these are
encoded injectively with one length. -/
theorem updateHashList_fields {α φ : Type} [Sha256Hash α] (fields : α → φ)
    (enc : φ → Bytes) {n : Nat} (hfields : ∀ a, updateHash a = enc (fields a)) (hn : 0 < n)
    (hlen : ∀ f, (enc f).length = n) (hinj : Function.Injective enc) {l m : List α}
    (h : updateHashList l = updateHashList m) : l.map fields = m.map fields := by
  rcases List.append_inj h (by simp) with ⟨_, hentries⟩
  apply flatMap_injective hn hlen hinj
  simpa only [List.flatMap_map, ← hfields] using hentries

/-- The hashed fields of a queue entry: its id, account, asset and amount. -/
abbrev QueueFields := U64 × AccountId × AssetId × U128

/-- The bytes of the hashed fields of a queue entry. -/
def queueFieldsBytes (f : QueueFields) : Bytes :=
  beBytes f.1 ++ updateHash f.2.1 ++ updateHash f.2.2.1 ++ beBytes f.2.2.2

@[simp]
theorem length_queueFieldsBytes (f : QueueFields) : (queueFieldsBytes f).length = 64 := by
  simp [queueFieldsBytes]

theorem queueFieldsBytes_injective : Function.Injective queueFieldsBytes := by
  rintro ⟨id, account, asset, amount⟩ ⟨id', account', asset', amount'⟩ h
  simp only [queueFieldsBytes, List.append_assoc] at h
  rcases prefixFree_u64 h with ⟨rfl, haccount⟩
  rcases FixedBytes.updateHash_prefixFree haccount with ⟨rfl, hasset⟩
  rcases FixedBytes.updateHash_prefixFree hasset with ⟨rfl, hamount⟩
  rw [prefixFree_u128.injective hamount]

/-- The hashed fields of a deposit. -/
def Deposit.fields (self : Deposit) : QueueFields :=
  (self.id, self.account, self.asset, self.amount)

/-- The hashed fields of a forced withdrawal. -/
def ForcedWithdrawal.fields (self : ForcedWithdrawal) : QueueFields :=
  (self.id, self.account, self.asset, self.amount)

/-- The hash of the consumed deposits determines all but their index hints. -/
theorem depositsHash_injective {l m : List Deposit} (h : updateHash l = updateHash m) :
    l.map Deposit.fields = m.map Deposit.fields :=
  updateHashList_fields Deposit.fields queueFieldsBytes (fun _ => rfl)
    (by norm_num) length_queueFieldsBytes
    queueFieldsBytes_injective h

/-- The hash of a forced-withdrawal list determines all but the index hints. -/
theorem forcedWithdrawalsHash_injective {l m : List ForcedWithdrawal}
    (h : updateHash l = updateHash m) :
    l.map ForcedWithdrawal.fields = m.map ForcedWithdrawal.fields :=
  updateHashList_fields ForcedWithdrawal.fields queueFieldsBytes (fun _ => rfl)
    (by norm_num) length_queueFieldsBytes
    queueFieldsBytes_injective h

@[simp]
theorem ExecutedWithdrawal.length_updateHash (w : ExecutedWithdrawal) :
    (updateHash w).length = 84 := by
  change (updateHash w.account ++ updateHash w.recipient ++ updateHash w.asset ++
    beBytes w.amount ++ beBytes w.nonce).length = 84
  simp

theorem ExecutedWithdrawal.updateHash_injective :
    Function.Injective (updateHash : ExecutedWithdrawal → Bytes) := by
  rintro ⟨account, recipient, asset, amount, nonce⟩
    ⟨account', recipient', asset', amount', nonce'⟩ h
  change updateHash account ++ updateHash recipient ++ updateHash asset ++
      beBytes amount ++ beBytes nonce =
    updateHash account' ++ updateHash recipient' ++ updateHash asset' ++
      beBytes amount' ++ beBytes nonce' at h
  simp only [List.append_assoc] at h
  rcases FixedBytes.updateHash_prefixFree h with ⟨rfl, hrecipient⟩
  rcases FixedBytes.updateHash_prefixFree hrecipient with ⟨rfl, hasset⟩
  rcases FixedBytes.updateHash_prefixFree hasset with ⟨rfl, hamount⟩
  rcases prefixFree_u128 hamount with ⟨rfl, hnonce⟩
  rw [prefixFree_u64.injective hnonce]

/-- The hash of the executed withdrawals determines the list. -/
theorem executedWithdrawalsHash_injective {l m : List ExecutedWithdrawal}
    (h : updateHash l = updateHash m) : l = m := by
  have := updateHashList_fields id updateHash (fun _ => rfl) (by norm_num)
    ExecutedWithdrawal.length_updateHash ExecutedWithdrawal.updateHash_injective h
  simpa using this

end ZkClob
