import ZkClob.Settlement.Batch
import ZkClob.Trees.PatriciaTree

/-!
# What a hashed message means

Every message that is hashed starts with the domain tag of its type and continues with the
content of one value.  No tag begins another, and within a type the content determines all
the fields that are hashed, so that the message alone tells what kind of value it stands for
and which one.  Index hints and signatures are not hashed.

Main results:

- Theorem {lit}`HashKind.tag_prefixFree`: the tags delimit themselves.
- Theorem {lit}`hashed_values_determined`: values with equal messages have one type and equal
  hashed fields.
- Theorem {lit}`Hashed.SameFields.message_eq`: nothing else enters a message.
-/

namespace ZkClob

open Foundations

/-! ## Fields of fixed length -/

/-- The byte that stands for a side in a message. -/
def Side.byte : Side → UInt8
  | .Buy => 0
  | .Sell => 1

theorem Side.byte_injective : Function.Injective Side.byte := by
  intro side side' h
  cases side <;> cases side' <;> first | rfl | cases h

/-- An order delimits itself inside a message. -/
theorem Order.updateHash_prefixFree : PrefixFree (updateHash : Order → Bytes) := by
  rintro ⟨marketId, side, price, quantity, nonce⟩ ⟨marketId', side', price', quantity', nonce'⟩
    s t h
  change updateHash marketId ++ [side.byte] ++ beBytes price ++
      beBytes quantity ++ beBytes nonce ++ s =
    updateHash marketId' ++ [side'.byte] ++ beBytes price' ++
      beBytes quantity' ++ beBytes nonce' ++ t at h
  simp only [List.append_assoc] at h
  rcases FixedBytes.updateHash_prefixFree h with ⟨rfl, hside⟩
  rcases List.append_inj hside rfl with ⟨hbyte, hprice⟩
  have hsides : side = side' := Side.byte_injective (List.singleton_inj.mp hbyte)
  rcases prefixFree_u128 hprice with ⟨rfl, hquantity⟩
  rcases prefixFree_u128 hquantity with ⟨rfl, hnonce⟩
  rcases prefixFree_u64 hnonce with ⟨rfl, hst⟩
  exact ⟨by rw [hsides], hst⟩

/-- A withdrawal delimits itself inside a message. -/
theorem Withdrawal.updateHash_prefixFree : PrefixFree (updateHash : Withdrawal → Bytes) := by
  rintro ⟨asset, amount, recipient, nonce⟩ ⟨asset', amount', recipient', nonce'⟩ s t h
  change updateHash asset ++ beBytes amount ++ updateHash recipient ++ beBytes nonce ++ s =
    updateHash asset' ++ beBytes amount' ++ updateHash recipient' ++ beBytes nonce' ++ t at h
  simp only [List.append_assoc] at h
  rcases FixedBytes.updateHash_prefixFree h with ⟨rfl, hamount⟩
  rcases prefixFree_u128 hamount with ⟨rfl, hrecipient⟩
  rcases FixedBytes.updateHash_prefixFree hrecipient with ⟨rfl, hnonce⟩
  rcases prefixFree_u64 hnonce with ⟨rfl, hst⟩
  exact ⟨rfl, hst⟩

/-- A trade delimits itself inside a message. -/
theorem Trade.updateHash_prefixFree : PrefixFree (updateHash : Trade → Bytes) := by
  rintro ⟨marketId, buyer, seller, price, quantity, quote, fee⟩
    ⟨marketId', buyer', seller', price', quantity', quote', fee'⟩ s t h
  change updateHash marketId ++ updateHash buyer ++ updateHash seller ++ beBytes price ++
      beBytes quantity ++ beBytes quote ++ beBytes fee ++ s =
    updateHash marketId' ++ updateHash buyer' ++ updateHash seller' ++ beBytes price' ++
      beBytes quantity' ++ beBytes quote' ++ beBytes fee' ++ t at h
  simp only [List.append_assoc] at h
  rcases FixedBytes.updateHash_prefixFree h with ⟨rfl, hbuyer⟩
  rcases FixedBytes.updateHash_prefixFree hbuyer with ⟨rfl, hseller⟩
  rcases FixedBytes.updateHash_prefixFree hseller with ⟨rfl, hprice⟩
  rcases prefixFree_u128 hprice with ⟨rfl, hquantity⟩
  rcases prefixFree_u128 hquantity with ⟨rfl, hquote⟩
  rcases prefixFree_u128 hquote with ⟨rfl, hfee⟩
  rcases prefixFree_u128 hfee with ⟨rfl, hst⟩
  exact ⟨rfl, hst⟩

/-- A signing domain delimits itself inside a message. -/
theorem SigningDomain.updateHash_prefixFree :
    PrefixFree (updateHash : SigningDomain → Bytes) := by
  rintro ⟨version, chainId, exchangeId⟩ ⟨version', chainId', exchangeId'⟩ s t h
  change beBytes version ++ beBytes chainId ++ updateHash exchangeId ++ s =
    beBytes version' ++ beBytes chainId' ++ updateHash exchangeId' ++ t at h
  simp only [List.append_assoc] at h
  rcases prefixFree_beBytes (by norm_num) h with ⟨rfl, hchain⟩
  rcases prefixFree_u64 hchain with ⟨rfl, hexchange⟩
  rcases FixedBytes.updateHash_prefixFree hexchange with ⟨rfl, hst⟩
  exact ⟨rfl, hst⟩

/-- An asset of a configuration delimits itself inside a message. -/
theorem AssetConfig.updateHash_prefixFree : PrefixFree (updateHash : AssetConfig → Bytes) := by
  rintro ⟨id, scale⟩ ⟨id', scale'⟩ s t h
  change updateHash id ++ beBytes scale ++ s = updateHash id' ++ beBytes scale' ++ t at h
  simp only [List.append_assoc] at h
  rcases FixedBytes.updateHash_prefixFree h with ⟨rfl, hscale⟩
  rcases prefixFree_u128 hscale with ⟨rfl, hst⟩
  exact ⟨rfl, hst⟩

/-- A market of a configuration delimits itself inside a message. -/
theorem MarketConfig.updateHash_prefixFree :
    PrefixFree (updateHash : MarketConfig → Bytes) := by
  rintro ⟨id, base, quote⟩ ⟨id', base', quote'⟩ s t h
  change updateHash id ++ updateHash base ++ updateHash quote ++ s =
    updateHash id' ++ updateHash base' ++ updateHash quote' ++ t at h
  simp only [List.append_assoc] at h
  rcases FixedBytes.updateHash_prefixFree h with ⟨rfl, hbase⟩
  rcases FixedBytes.updateHash_prefixFree hbase with ⟨rfl, hquote⟩
  rcases FixedBytes.updateHash_prefixFree hquote with ⟨rfl, hst⟩
  exact ⟨rfl, hst⟩

/-- A fee rule delimits itself inside a message. -/
theorem FeeConfig.updateHash_prefixFree : PrefixFree (updateHash : FeeConfig → Bytes) := by
  rintro ⟨recipient, bps⟩ ⟨recipient', bps'⟩ s t h
  change updateHash recipient ++ beBytes bps ++ s =
    updateHash recipient' ++ beBytes bps' ++ t at h
  simp only [List.append_assoc] at h
  rcases FixedBytes.updateHash_prefixFree h with ⟨rfl, hbps⟩
  rcases prefixFree_beBytes (by norm_num) hbps with ⟨rfl, hst⟩
  exact ⟨rfl, hst⟩

/-! ## Lists -/

/-- The longest list whose length is hashed in full is shorter than this. -/
theorem two_pow_eq_pow_bytes : (2 : Nat) ^ 64 = 256 ^ 8 := by norm_num

/-- A configuration with short lists is determined by its content. -/
theorem ExchangeConfig.eq_of_updateHash_eq {config config' : ExchangeConfig}
    (hassets : config.assets.length < 2 ^ 64) (hmarkets : config.markets.length < 2 ^ 64)
    (hassets' : config'.assets.length < 2 ^ 64) (hmarkets' : config'.markets.length < 2 ^ 64)
    (h : updateHash config = updateHash config') : config = config' := by
  rcases config with ⟨assets, markets, fees⟩
  rcases config' with ⟨assets', markets', fees'⟩
  change toBeBytes 8 assets.length ++ assets.flatMap updateHash ++
      toBeBytes 8 markets.length ++ markets.flatMap updateHash ++ updateHash fees =
    toBeBytes 8 assets'.length ++ assets'.flatMap updateHash ++
      toBeBytes 8 markets'.length ++ markets'.flatMap updateHash ++ updateHash fees' at h
  simp only [List.append_assoc] at h
  rw [two_pow_eq_pow_bytes] at hassets hmarkets hassets' hmarkets'
  rcases AssetConfig.updateHash_prefixFree.counted hassets hassets' h with ⟨rfl, hrest⟩
  rcases MarketConfig.updateHash_prefixFree.counted hmarkets hmarkets' hrest with ⟨rfl, hfees⟩
  rw [FeeConfig.updateHash_prefixFree.injective hfees]

/-- A list is hashed through the hashed fields of its entries. -/
theorem updateHashList_eq {α φ : Type} [Sha256Hash α] (fields : α → φ) (enc : φ → Bytes)
    (hfields : ∀ a, updateHash a = enc (fields a)) (l : List α) :
    updateHashList l =
      toBeBytes 8 (l.map fields).length ++ (l.map fields).flatMap enc := by
  have hflat : l.flatMap updateHash = (l.map fields).flatMap enc := by
    rw [List.flatMap_map]
    exact List.flatMap_congr fun a _ => hfields a
  rw [updateHashList, hflat, List.length_map]

/-- A hashed list determines the hashed fields of its entries, when these delimit
themselves. -/
theorem updateHashList_fields_of_prefixFree {α φ : Type} [Sha256Hash α] (fields : α → φ)
    (enc : φ → Bytes) (hfields : ∀ a, updateHash a = enc (fields a)) (henc : PrefixFree enc)
    {l m : List α} (hl : l.length < 2 ^ 64) (hm : m.length < 2 ^ 64)
    (h : updateHashList l = updateHashList m) : l.map fields = m.map fields := by
  rw [two_pow_eq_pow_bytes] at hl hm
  rw [updateHashList_eq fields enc hfields, updateHashList_eq fields enc hfields] at h
  refine (henc.counted (s := []) (t := []) (n := 8) ?_ ?_ ?_).1
  · simpa using hl
  · simpa using hm
  · simpa using h

/-- The hash of a trade list determines the list. -/
theorem tradesHash_injective {l m : List Trade} (hl : l.length < 2 ^ 64)
    (hm : m.length < 2 ^ 64) (h : updateHash l = updateHash m) : l = m := by
  have := updateHashList_fields_of_prefixFree id updateHash (fun _ => rfl)
    Trade.updateHash_prefixFree hl hm h
  simpa using this

/-- The hashed fields of a sequenced order: the order, its trader and its sequence. -/
abbrev OrderFields := Order × AccountId × U64

/-- The hashed fields of a sequenced order.  The signature and the index hint are left out. -/
def SequencedOrder.fields (self : SequencedOrder) : OrderFields :=
  (self.order, self.trader, self.sequence)

/-- The bytes of the hashed fields of a sequenced order. -/
def orderFieldsBytes (f : OrderFields) : Bytes :=
  updateHash f.1 ++ updateHash f.2.1 ++ beBytes f.2.2

theorem orderFieldsBytes_prefixFree : PrefixFree orderFieldsBytes := by
  rintro ⟨order, trader, sequence⟩ ⟨order', trader', sequence'⟩ s t h
  simp only [orderFieldsBytes, List.append_assoc] at h
  rcases Order.updateHash_prefixFree h with ⟨rfl, htrader⟩
  rcases FixedBytes.updateHash_prefixFree htrader with ⟨rfl, hsequence⟩
  rcases prefixFree_u64 hsequence with ⟨rfl, hst⟩
  exact ⟨rfl, hst⟩

/-- A hashed list of orders determines the hashed fields of the orders. -/
theorem ordersHash_fields {l m : List SequencedOrder} (hl : l.length < 2 ^ 64)
    (hm : m.length < 2 ^ 64) (h : updateHashList l = updateHashList m) :
    l.map SequencedOrder.fields = m.map SequencedOrder.fields :=
  updateHashList_fields_of_prefixFree SequencedOrder.fields orderFieldsBytes
    (fun _ => rfl) orderFieldsBytes_prefixFree hl hm h

/-! ## Domain tags -/

/-- The types that are hashed behind a domain tag. -/
inductive HashKind where
  | account
  | order
  | withdrawal
  | signedOperation
  | signingDomain
  | config
  | batch
  | trades
  | deposits
  | forcedWithdrawals
  | withdrawals
  | patriciaEmpty
  | patriciaLeaf
  | patriciaBranch
  | patriciaRoot
deriving DecidableEq

namespace HashKind

/-- The domain tag of each type. -/
def tag : HashKind → Bytes
  | account => ascii "ZKCLOB_ACCOUNT_V1"
  | order => ascii "ZKCLOB_ORDER_V1"
  | withdrawal => ascii "ZKCLOB_WITHDRAWAL_V1"
  | signedOperation => ascii "ZKCLOB_SIGNED_OPERATION_V1"
  | signingDomain => ascii "ZKCLOB_SIGNING_DOMAIN_V1"
  | config => ascii "ZKCLOB_CONFIG_V1"
  | batch => ascii "ZKCLOB_BATCH_V1"
  | trades => ascii "ZKCLOB_TRADES_V1"
  | deposits => ascii "ZKCLOB_DEPOSITS_V1"
  | forcedWithdrawals => ascii "ZKCLOB_FORCED_WITHDRAWALS_V1"
  | withdrawals => ascii "ZKCLOB_WITHDRAWALS_V1"
  | patriciaEmpty => ascii "ZKCLOB_PATRICIA_EMPTY_V1"
  | patriciaLeaf => ascii "ZKCLOB_PATRICIA_LEAF_V1"
  | patriciaBranch => ascii "ZKCLOB_PATRICIA_BRANCH_V1"
  | patriciaRoot => ascii "ZKCLOB_PATRICIA_ROOT_V1"

/-- All types. -/
def all : List HashKind :=
  [account, order, withdrawal, signedOperation, signingDomain, config, batch, trades, deposits,
    forcedWithdrawals, withdrawals, patriciaEmpty, patriciaLeaf, patriciaBranch, patriciaRoot]

theorem mem_all (kind : HashKind) : kind ∈ all := by
  cases kind <;> decide

/-- No tag begins another one, although the tags are written without their length. -/
theorem tag_prefixFree : PrefixFree tag := by
  have hpairs : ∀ k ∈ all, ∀ k' ∈ all, k.tag <+: k'.tag → k = k' := by decide +kernel
  exact PrefixFree.of_not_prefix fun k k' => hpairs k k.mem_all k' k'.mem_all

end HashKind

/-! ## Hashed values -/

/-- A value that is hashed behind a domain tag.  Digests have type {lit}`B256`, and the leaves
of the tree have type {lit}`L`. -/
inductive Hashed (B256 L : Type) where
  | account (account : Account)
  | order (order : Order)
  | withdrawal (withdrawal : Withdrawal)
  | signedOperation (domainHash operationHash : B256)
  | signingDomain (domain : SigningDomain)
  | config (config : ExchangeConfig)
  | batch (domainHash : B256) (batchId : U64) (oldStateRoot configHash : B256)
      (orders : List SequencedOrder)
  | trades (trades : List Trade)
  | deposits (deposits : List Deposit)
  | forcedWithdrawals (requests : List ForcedWithdrawal)
  | withdrawals (withdrawals : List ExecutedWithdrawal)
  | patriciaEmpty
  | patriciaLeaf (value : L)
  | patriciaBranch (node : Patricia.Branch B256 AccountId)
  | patriciaRoot (node : Patricia.Root B256 AccountId)

namespace Hashed

variable {B256 L : Type} [Sha256 B256] [PatriciaLeaf L AccountId]

/-- The type of a value. -/
def kind : Hashed B256 L → HashKind
  | account _ => .account
  | order _ => .order
  | withdrawal _ => .withdrawal
  | signedOperation _ _ => .signedOperation
  | signingDomain _ => .signingDomain
  | config _ => .config
  | batch _ _ _ _ _ => .batch
  | trades _ => .trades
  | deposits _ => .deposits
  | forcedWithdrawals _ => .forcedWithdrawals
  | withdrawals _ => .withdrawals
  | patriciaEmpty => .patriciaEmpty
  | patriciaLeaf _ => .patriciaLeaf
  | patriciaBranch _ => .patriciaBranch
  | patriciaRoot _ => .patriciaRoot

/-- The bytes that are fed to SHA-256. -/
def message : Hashed B256 L → Bytes
  | account value => hashInput value
  | order value => hashInput value
  | withdrawal value => hashInput value
  | signedOperation domainHash operationHash =>
      ascii "ZKCLOB_SIGNED_OPERATION_V1" ++ Sha256.bytes domainHash ++ Sha256.bytes operationHash
  | signingDomain value => hashInput value
  | config value => hashInput value
  | batch domainHash batchId oldStateRoot configHash orders =>
      hashInput (domainHash, batchId, oldStateRoot, configHash, orders)
  | trades value => hashInput value
  | deposits value => hashInput value
  | forcedWithdrawals value => hashInput value
  | withdrawals value => hashInput value
  | patriciaEmpty => hashInput Patricia.Empty.mk
  | patriciaLeaf value => hashInput (Patricia.Leaf.mk value : Patricia.Leaf B256 L)
  | patriciaBranch value => hashInput value
  | patriciaRoot value => hashInput value

/-- The bytes behind the domain tag. -/
def content : Hashed B256 L → Bytes
  | account value => updateHash value
  | order value => updateHash value
  | withdrawal value => updateHash value
  | signedOperation domainHash operationHash =>
      Sha256.bytes domainHash ++ Sha256.bytes operationHash
  | signingDomain value => updateHash value
  | config value => updateHash value
  | batch domainHash batchId oldStateRoot configHash orders =>
      updateHash (domainHash, batchId, oldStateRoot, configHash, orders)
  | trades value => updateHash value
  | deposits value => updateHash value
  | forcedWithdrawals value => updateHash value
  | withdrawals value => updateHash value
  | patriciaEmpty => updateHash Patricia.Empty.mk
  | patriciaLeaf value => updateHash (Patricia.Leaf.mk value : Patricia.Leaf B256 L)
  | patriciaBranch value => updateHash value
  | patriciaRoot value => updateHash value

/-- The message of a value is the tag of its type, followed by its content. -/
theorem message_eq (value : Hashed B256 L) : value.message = value.kind.tag ++ value.content := by
  cases value with
  | signedOperation => exact List.append_assoc _ _ _
  | _ => rfl

/-- A message determines the type and the content of its value. -/
theorem kind_content_of_message_eq {a b : Hashed B256 L} (h : a.message = b.message) :
    a.kind = b.kind ∧ a.content = b.content := by
  rw [message_eq, message_eq] at h
  exact HashKind.tag_prefixFree h

/-- The message of a signed operation is what its account signs. -/
theorem signingDigest_eq {O : Type} [DomainSha256Hash O] (operation : O) (domainHash : B256) :
    signingDigest operation domainHash =
      Sha256.sha256 (signedOperation (L := L) domainHash (hash operation)).message :=
  rfl

/-- All lists are shorter than two to the sixty-fourth, and so is the depth of a branch. -/
def Fits : Hashed B256 L → Prop
  | account value => value.balances.length < 2 ^ 64
  | config value => value.assets.length < 2 ^ 64 ∧ value.markets.length < 2 ^ 64
  | batch _ _ _ _ orders => orders.length < 2 ^ 64
  | trades value => value.length < 2 ^ 64
  | deposits value => value.length < 2 ^ 64
  | forcedWithdrawals value => value.length < 2 ^ 64
  | withdrawals value => value.length < 2 ^ 64
  | patriciaBranch node => node.depth < 2 ^ 64
  | _ => True

/-- Two values have the same type and agree in every hashed field.  The signatures and the
index hints of orders and the index hints of queue entries are not hashed, and a leaf is
hashed as its key and the hash of its value. -/
inductive SameFields : Hashed B256 L → Hashed B256 L → Prop where
  | account (value : Account) : SameFields (account value) (account value)
  | order (value : Order) : SameFields (order value) (order value)
  | withdrawal (value : Withdrawal) : SameFields (withdrawal value) (withdrawal value)
  | signedOperation (domainHash operationHash : B256) :
      SameFields (signedOperation domainHash operationHash)
        (signedOperation domainHash operationHash)
  | signingDomain (value : SigningDomain) :
      SameFields (signingDomain value) (signingDomain value)
  | config (value : ExchangeConfig) : SameFields (config value) (config value)
  | batch (domainHash : B256) (batchId : U64) (oldStateRoot configHash : B256)
      {orders orders' : List SequencedOrder}
      (h : orders.map SequencedOrder.fields = orders'.map SequencedOrder.fields) :
      SameFields (batch domainHash batchId oldStateRoot configHash orders)
        (batch domainHash batchId oldStateRoot configHash orders')
  | trades (value : List Trade) : SameFields (trades value) (trades value)
  | deposits {value value' : List Deposit}
      (h : value.map Deposit.fields = value'.map Deposit.fields) :
      SameFields (deposits value) (deposits value')
  | forcedWithdrawals {value value' : List ForcedWithdrawal}
      (h : value.map ForcedWithdrawal.fields = value'.map ForcedWithdrawal.fields) :
      SameFields (forcedWithdrawals value) (forcedWithdrawals value')
  | withdrawals (value : List ExecutedWithdrawal) :
      SameFields (withdrawals value) (withdrawals value)
  | patriciaEmpty : SameFields patriciaEmpty patriciaEmpty
  | patriciaLeaf {value value' : L} (hkey : PatriciaLeaf.key value = PatriciaLeaf.key value')
      (hhash : (hash value : B256) = hash value') :
      SameFields (patriciaLeaf value) (patriciaLeaf value')
  | patriciaBranch (node : Patricia.Branch B256 AccountId) :
      SameFields (patriciaBranch node) (patriciaBranch node)
  | patriciaRoot (node : Patricia.Root B256 AccountId) :
      SameFields (patriciaRoot node) (patriciaRoot node)

/-- The content of a branch determines it, when its depth is written in full. -/
theorem branch_eq_of_updateHash_eq {node node' : Patricia.Branch B256 AccountId}
    (hdepth : node.depth < 2 ^ 64) (hdepth' : node'.depth < 2 ^ 64)
    (h : updateHash node = updateHash node') : node = node' := by
  rcases node with ⟨depth, left, right⟩
  rcases node' with ⟨depth', left', right'⟩
  change toBeBytes 8 depth ++ updateHash left ++ updateHash right =
    toBeBytes 8 depth' ++ updateHash left' ++ updateHash right' at h
  simp only [List.append_assoc] at h
  rcases List.append_inj h (by simp) with ⟨hbytes, hsides⟩
  rcases Patricia.commitment_prefixFree hsides with ⟨rfl, hright⟩
  have hright := Patricia.commitment_prefixFree.injective hright
  have hmod := mod_eq_of_toBeBytes_eq hbytes
  rw [← two_pow_eq_pow_bytes, Nat.mod_eq_of_lt hdepth, Nat.mod_eq_of_lt hdepth'] at hmod
  have hdepths : depth = depth' := hmod
  rw [hdepths, hright]

/-- The content of a leaf determines its key and the hash of its value. -/
theorem leaf_fields_of_updateHash_eq {value value' : L}
    (h : updateHash (Patricia.Leaf.mk value : Patricia.Leaf B256 L) =
      updateHash (Patricia.Leaf.mk value' : Patricia.Leaf B256 L)) :
    PatriciaLeaf.key value = PatriciaLeaf.key value' ∧ (hash value : B256) = hash value' := by
  change updateHash (PatriciaLeaf.key value) ++ Sha256.bytes (hash value : B256) =
    updateHash (PatriciaLeaf.key value') ++ Sha256.bytes (hash value' : B256) at h
  rcases FixedBytes.updateHash_prefixFree h with ⟨hkey, hhash⟩
  exact ⟨hkey, Sha256.bytes_prefixFree.injective hhash⟩

/-- Batches with the same content agree in every hashed field. -/
theorem batch_of_content_eq {domainHash domainHash' : B256} {batchId batchId' : U64}
    {oldStateRoot configHash oldStateRoot' configHash' : B256}
    {orders orders' : List SequencedOrder} (hlt : orders.length < 2 ^ 64)
    (hlt' : orders'.length < 2 ^ 64)
    (h : updateHash (domainHash, batchId, oldStateRoot, configHash, orders) =
      updateHash (domainHash', batchId', oldStateRoot', configHash', orders')) :
    SameFields (L := L) (batch domainHash batchId oldStateRoot configHash orders)
      (batch domainHash' batchId' oldStateRoot' configHash' orders') := by
  change Sha256.bytes domainHash ++ beBytes batchId ++ Sha256.bytes oldStateRoot ++
      Sha256.bytes configHash ++ updateHashList orders =
    Sha256.bytes domainHash' ++ beBytes batchId' ++ Sha256.bytes oldStateRoot' ++
      Sha256.bytes configHash' ++ updateHashList orders' at h
  simp only [List.append_assoc] at h
  rcases Sha256.bytes_prefixFree h with ⟨rfl, hbatch⟩
  rcases prefixFree_u64 hbatch with ⟨rfl, hroot⟩
  rcases Sha256.bytes_prefixFree hroot with ⟨rfl, hconfig⟩
  rcases Sha256.bytes_prefixFree hconfig with ⟨rfl, horders⟩
  exact .batch _ _ _ _ (ordersHash_fields hlt hlt' horders)

/-- Values of one type with the same content agree in every hashed field. -/
theorem sameFields_of_content_eq {a b : Hashed B256 L} (ha : a.Fits) (hb : b.Fits)
    (hkind : a.kind = b.kind) (h : a.content = b.content) : a.SameFields b := by
  cases a <;> cases b <;> first | (cases hkind; done) | skip
  case account.account a b =>
    rw [Account.updateHash_injective h]
    exact .account b
  case order.order a b =>
    rw [Order.updateHash_prefixFree.injective h]
    exact .order b
  case withdrawal.withdrawal a b =>
    rw [Withdrawal.updateHash_prefixFree.injective h]
    exact .withdrawal b
  case signedOperation.signedOperation =>
    rcases Sha256.bytes_prefixFree h with ⟨rfl, hoperation⟩
    rw [Sha256.bytes_prefixFree.injective hoperation]
    exact .signedOperation _ _
  case signingDomain.signingDomain a b =>
    rw [SigningDomain.updateHash_prefixFree.injective h]
    exact .signingDomain b
  case config.config a b =>
    rw [ExchangeConfig.eq_of_updateHash_eq ha.1 ha.2 hb.1 hb.2 h]
    exact .config b
  case batch.batch => exact batch_of_content_eq ha hb h
  case trades.trades a b =>
    rw [tradesHash_injective ha hb h]
    exact .trades b
  case deposits.deposits => exact .deposits (depositsHash_injective h)
  case forcedWithdrawals.forcedWithdrawals =>
    exact .forcedWithdrawals (forcedWithdrawalsHash_injective h)
  case withdrawals.withdrawals a b =>
    rw [executedWithdrawalsHash_injective h]
    exact .withdrawals b
  case patriciaEmpty.patriciaEmpty => exact .patriciaEmpty
  case patriciaLeaf.patriciaLeaf =>
    rcases leaf_fields_of_updateHash_eq h with ⟨hkey, hhash⟩
    exact .patriciaLeaf hkey hhash
  case patriciaBranch.patriciaBranch a b =>
    rw [branch_eq_of_updateHash_eq ha hb h]
    exact .patriciaBranch b
  case patriciaRoot.patriciaRoot a b =>
    rcases a with ⟨c⟩
    rcases b with ⟨d⟩
    rw [Patricia.commitment_prefixFree.injective (show updateHash c = updateHash d from h)]
    exact .patriciaRoot ⟨d⟩

/-- Only the hashed fields enter a message. -/
theorem SameFields.message_eq {a b : Hashed B256 L} (h : a.SameFields b) :
    a.message = b.message := by
  cases h with
  | batch domainHash batchId oldStateRoot configHash h =>
      have hlist := updateHashList_eq SequencedOrder.fields orderFieldsBytes fun _ => rfl
      simp only [message, hashInput, updateHash, hlist, h]
  | deposits h =>
      have hlist := updateHashList_eq Deposit.fields queueFieldsBytes fun _ => rfl
      simp only [message, hashInput, updateHash, hlist, h]
  | forcedWithdrawals h =>
      have hlist := updateHashList_eq ForcedWithdrawal.fields queueFieldsBytes fun _ => rfl
      simp only [message, hashInput, updateHash, hlist, h]
  | patriciaLeaf hkey hhash =>
      simp only [message, hashInput, updateHash, hkey, hhash]
  | _ => rfl

end Hashed

/-- Two hashed values whose messages are equal have the same type and agree in every hashed
field. -/
theorem hashed_values_determined {B256 L : Type} [Sha256 B256] [PatriciaLeaf L AccountId]
    {a b : Hashed B256 L} (ha : a.Fits) (hb : b.Fits) (h : a.message = b.message) :
    a.SameFields b := by
  rcases Hashed.kind_content_of_message_eq h with ⟨hkind, hcontent⟩
  exact Hashed.sameFields_of_content_eq ha hb hkind hcontent

/-- Two batches with one order each, whose signatures and hints differ. -/
theorem hashed_values_determined_testBatch :
    let signed (signature : Signature) (hint : Option U32) : SequencedOrder :=
      ⟨⟨⟨FixedBytes.replicate 32 3, .Buy, 100, 10, 0⟩, FixedBytes.replicate 20 1, signature,
        hint⟩, 7⟩
    let batch (order : SequencedOrder) : Hashed IdealDigest Account :=
      .batch ⟨[1]⟩ 4 ⟨[2]⟩ ⟨[3]⟩ [order]
    let one := batch (signed ⟨FixedBytes.replicate 32 1, FixedBytes.replicate 32 2, 0⟩ none)
    let other := batch (signed ⟨FixedBytes.replicate 32 5, FixedBytes.replicate 32 6, 1⟩ (some 3))
    one ≠ other ∧ one.SameFields other := by
  have hone : 1 < 2 ^ 64 := by norm_num
  refine ⟨?_, hashed_values_determined hone hone (by decide)⟩
  intro h
  simp only [Hashed.batch.injEq] at h
  revert h
  decide

/-- Without collisions a digest means one value: no signature and no root can be read in two
ways. -/
theorem sameFields_of_digest_eq {B256 L : Type} [Sha256 B256] [PatriciaLeaf L AccountId]
    (hfree : CollisionFree B256) {a b : Hashed B256 L} (ha : a.Fits) (hb : b.Fits)
    (h : (Sha256.sha256 a.message : B256) = Sha256.sha256 b.message) : a.SameFields b := by
  rcases Hashed.kind_content_of_message_eq (hfree h) with ⟨hkind, hcontent⟩
  exact Hashed.sameFields_of_content_eq ha hb hkind hcontent

end ZkClob
