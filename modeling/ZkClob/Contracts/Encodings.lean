import ZkClob.Contracts.Settlement

/-!
# The bytes that are hashed on both sides

Contract and guest agree on a queue, on a list of payouts or on an account only through
hashes.  Each of these is computed twice: by loops of the contract over a range of its
queue or over an array, and by the hashing traits of the guest.  The bytes are the same.

Main results:

- Theorems {lit}`Contract.encodeDeposits_eq` and
  {lit}`Contract.encodeForcedWithdrawalRequests_eq`: a range of a queue is encoded as the
  list of its entries.
- Theorems {lit}`Contract.encodeWithdrawals_eq` and
  {lit}`Contract.encodeForcedWithdrawals_eq`: an array is encoded as the list of the guest.
- Theorem {lit}`Contract.hashed_bytes_eq`: all six encoders feed the bytes of the guest to
  the hash function.
-/

namespace ZkClob

open Foundations

namespace Contract

variable {B256 : Type}

/-! ## Queues -/

/-- The contract stores a deposit of the guest under its id. -/
def Storage.HoldsDeposit (self : Storage B256) (deposit : ZkClob.Deposit) : Prop :=
  self.deposits deposit.id = ⟨deposit.account, deposit.asset, deposit.amount⟩

/-- The contract stores a request of the guest under its id, with some deadline. -/
def Storage.HoldsRequest (self : Storage B256) (request : ZkClob.ForcedWithdrawal) : Prop :=
  ∃ deadline, self.forcedWithdrawalRequests request.id =
    ⟨request.account, request.asset, request.amount, deadline⟩

/-- The ids of the queue between two cursors that are as far apart as a list is long. -/
theorem idsBetween_eq_map {α : Type} {id : α → U64} {l : List α} {start stop : U64}
    (hids : l.map (fun a => (id a).toNat) = List.range' start.toNat l.length)
    (hstop : stop.toNat = start.toNat + l.length) : idsBetween start stop = l.map id := by
  have hcount : stop.toNat - start.toNat = l.length := by omega
  rw [idsBetween, hcount, ← hids, List.map_map]
  apply List.map_congr_left
  intro a _
  simp

/-- The count in front of a range is the length of the list. -/
theorem beBytes_count {start stop : U64} {n : Nat} (hstop : stop.toNat = start.toNat + n) :
    ∃ count, FixedWidth.checkedSub stop start = some count ∧ beBytes count = toBeBytes 8 n := by
  refine ⟨BitVec.ofNat 64 n, ?_, beBytes_ofNat (by norm_num) n⟩
  have hlt := stop.isLt
  rw [FixedWidth.checkedSub_eq_some, BitVec.toNat_ofNat, Nat.mod_eq_of_lt (by omega), hstop]

/-- A loop over a range of ids that appends the bytes of each entry appends the bytes of the
entries. -/
theorem foldl_idsBetween {α : Type} [Sha256Hash α] {id : α → U64} {bytes : U64 → Bytes}
    {l : List α} {start stop : U64}
    (hids : l.map (fun a => (id a).toNat) = List.range' start.toNat l.length)
    (hstop : stop.toNat = start.toNat + l.length)
    (hbytes : ∀ a ∈ l, bytes (id a) = updateHash a) (encoded : Bytes) :
    (idsBetween start stop).foldl (fun encoded id => encoded ++ bytes id) encoded =
      encoded ++ l.flatMap updateHash := by
  rw [List.foldl_append_eq_append, idsBetween_eq_map hids hstop, List.map_map, List.flatMap_def]
  congr 2
  exact List.map_congr_left hbytes

/-- A range of the deposit queue is encoded as the list of its deposits. -/
theorem encodeDeposits_eq {self : Storage B256} {deposits : List ZkClob.Deposit} {start stop : U64}
    (hids : deposits.map (fun d => d.id.toNat) = List.range' start.toNat deposits.length)
    (hstop : stop.toNat = start.toNat + deposits.length)
    (hqueue : ∀ d ∈ deposits, self.HoldsDeposit d) :
    encodeDeposits self start stop = .ok (hashInput deposits) := by
  rcases beBytes_count hstop with ⟨count, hcount, hbytes⟩
  simp only [encodeDeposits, hcount, Outcome.expect_some, Outcome.ok_bind]
  rw [foldl_idsBetween hids hstop, hbytes, List.append_assoc]
  · rfl
  · intro d hd
    rw [hqueue d hd]
    rfl

/-- A range of the forced-withdrawal queue is encoded as the list of its requests. -/
theorem encodeForcedWithdrawalRequests_eq {self : Storage B256}
    {requests : List ZkClob.ForcedWithdrawal} {start stop : U64}
    (hids : requests.map (fun r => r.id.toNat) = List.range' start.toNat requests.length)
    (hstop : stop.toNat = start.toNat + requests.length)
    (hqueue : ∀ r ∈ requests, self.HoldsRequest r) :
    encodeForcedWithdrawalRequests self start stop = .ok (hashInput requests) := by
  rcases beBytes_count hstop with ⟨count, hcount, hbytes⟩
  simp only [encodeForcedWithdrawalRequests, hcount, Outcome.expect_some, Outcome.ok_bind]
  rw [foldl_idsBetween hids hstop, hbytes, List.append_assoc]
  · rfl
  · intro r hr
    rcases hqueue r hr with ⟨deadline, hrequest⟩
    rw [hrequest]
    rfl

/-! ## Arrays -/

/-- The hashed fields of a forced withdrawal of the contract. -/
def ForcedWithdrawal.fields (self : ForcedWithdrawal) : QueueFields :=
  (self.id, self.account, self.asset, self.amount)

/-- The withdrawals of a batch are encoded as the list of the guest. -/
theorem encodeWithdrawals_eq (withdrawals : List Withdrawal) :
    encodeWithdrawals withdrawals = hashInput withdrawals := by
  rw [encodeWithdrawals, List.foldl_append_eq_append, beBytes_ofNat (by norm_num),
    List.append_assoc, ← List.flatMap_def]
  rfl

/-- The forced withdrawals of a batch are encoded as the list of the guest, whatever index
hints that one carries. -/
theorem encodeForcedWithdrawals_eq {forcedWithdrawals : List ForcedWithdrawal}
    {executed : List ZkClob.ForcedWithdrawal}
    (h : executed.map ZkClob.ForcedWithdrawal.fields =
      forcedWithdrawals.map ForcedWithdrawal.fields) :
    encodeForcedWithdrawals forcedWithdrawals = hashInput executed := by
  have hlength : forcedWithdrawals.length = executed.length := by
    have := congrArg List.length h
    rw [List.length_map, List.length_map] at this
    exact this.symm
  have hentries : (forcedWithdrawals.map ForcedWithdrawal.fields).flatMap queueFieldsBytes =
      executed.flatMap updateHash := by
    rw [← h, List.flatMap_map]
    rfl
  rw [List.flatMap_map] at hentries
  rw [encodeForcedWithdrawals, List.foldl_append_eq_append, beBytes_ofNat (by norm_num),
    List.append_assoc, ← List.flatMap_def, hlength]
  exact congrArg (fun entries => ascii "ZKCLOB_FORCED_WITHDRAWALS_V1" ++
    (toBeBytes 8 executed.length ++ entries)) hentries

/-! ## Accounts -/

/-- The bytes hashed by {lit}`_accountHash`. -/
def encodeAccount (id : Address) (nextNonce : U64) (balances : List AssetBalance) : Bytes :=
  let encoded := ascii "ZKCLOB_ACCOUNT_V1" ++ id.toList ++ beBytes nextNonce ++
    beBytes (BitVec.ofNat 64 balances.length)
  balances.foldl
    (fun encoded balance => encoded ++ (balance.asset.toList ++ beBytes balance.available)) encoded

/-- An account is encoded as by the guest. -/
theorem encodeAccount_eq (account : Account) :
    encodeAccount account.id account.nextNonce account.balances = hashInput account := by
  change _ = ascii "ZKCLOB_ACCOUNT_V1" ++ (updateHash account.id ++ beBytes account.nextNonce ++
    toBeBytes 8 account.balances.length ++ account.balances.flatMap updateHash)
  rw [encodeAccount, List.foldl_append_eq_append, beBytes_ofNat (by norm_num)]
  simp only [List.append_assoc, ← List.flatMap_def]
  rfl

section

variable [Sha256 B256]

variable (B256) in
/-- The bytes hashed by {lit}`_leafHash`. -/
def encodeLeaf (id : Address) (nextNonce : U64) (balances : List AssetBalance) : Bytes :=
  ascii "ZKCLOB_PATRICIA_LEAF_V1" ++ id.toList ++
    Sha256.bytes (PatriciaProof.accountHash B256 id nextNonce balances)

variable (B256) in
/-- A leaf is encoded as by the guest. -/
theorem encodeLeaf_eq (account : Account) :
    encodeLeaf B256 account.id account.nextNonce account.balances =
      hashInput (Patricia.Leaf.mk account : Patricia.Leaf B256 Account) := by
  have haccount : PatriciaProof.accountHash B256 account.id account.nextNonce account.balances =
      hash account := congrArg Sha256.sha256 (encodeAccount_eq account)
  rw [encodeLeaf, haccount, List.append_assoc]
  rfl

variable (B256) in
/-- Both sides hash the same bytes: over a range of the deposit queue and of the request queue,
over the arrays of a batch, and over an account and its leaf. -/
theorem hashed_bytes_eq (self : Storage B256) (deposits : List ZkClob.Deposit)
    (requests executed : List ZkClob.ForcedWithdrawal) (withdrawals : List Withdrawal)
    (forcedWithdrawals : List ForcedWithdrawal) (account : Account)
    (start stop requestStart requestStop : U64)
    (hids : deposits.map (fun d => d.id.toNat) = List.range' start.toNat deposits.length)
    (hstop : stop.toNat = start.toNat + deposits.length)
    (hqueue : ∀ d ∈ deposits, self.HoldsDeposit d)
    (hrequestIds : requests.map (fun r => r.id.toNat) =
      List.range' requestStart.toNat requests.length)
    (hrequestStop : requestStop.toNat = requestStart.toNat + requests.length)
    (hrequestQueue : ∀ r ∈ requests, self.HoldsRequest r)
    (hexecuted : executed.map ZkClob.ForcedWithdrawal.fields =
      forcedWithdrawals.map ForcedWithdrawal.fields) :
    encodeDeposits self start stop = .ok (hashInput deposits) ∧
      encodeForcedWithdrawalRequests self requestStart requestStop = .ok (hashInput requests) ∧
      encodeWithdrawals withdrawals = hashInput withdrawals ∧
      encodeForcedWithdrawals forcedWithdrawals = hashInput executed ∧
      PatriciaProof.accountHash B256 account.id account.nextNonce account.balances =
        Sha256.sha256 (encodeAccount account.id account.nextNonce account.balances) ∧
      encodeAccount account.id account.nextNonce account.balances = hashInput account ∧
      PatriciaProof.leafHash B256 account.id account.nextNonce account.balances =
        Sha256.sha256 (encodeLeaf B256 account.id account.nextNonce account.balances) ∧
      encodeLeaf B256 account.id account.nextNonce account.balances =
        hashInput (Patricia.Leaf.mk account : Patricia.Leaf B256 Account) := by
  refine ⟨encodeDeposits_eq hids hstop hqueue, ?_, encodeWithdrawals_eq withdrawals,
    encodeForcedWithdrawals_eq hexecuted, rfl, encodeAccount_eq account, rfl,
    encodeLeaf_eq B256 account⟩
  exact encodeForcedWithdrawalRequests_eq hrequestIds hrequestStop hrequestQueue

end

/-- Queues in which the amounts grow with the ids. -/
def testQueues : Storage IdealDigest :=
  { initialStorage ⟨[]⟩ 0 with
    deposits := fun id => ⟨FixedBytes.replicate 20 2, FixedBytes.replicate 20 7, id.setWidth 128⟩
    forcedWithdrawalRequests := fun id =>
      ⟨FixedBytes.replicate 20 3, FixedBytes.replicate 20 8, id.setWidth 128, 100⟩ }

/-- Two entries of every list and an account with two balances; the second request is drained in
part. -/
theorem hashed_bytes_eq_testQueues :
    let user := FixedBytes.replicate 20 2
    let other := FixedBytes.replicate 20 3
    let asset := FixedBytes.replicate 20 7
    let quote := FixedBytes.replicate 20 8
    let account : Account := ⟨user, [⟨asset, 2⟩, ⟨quote, 9⟩], 4⟩
    encodeDeposits testQueues 5 7 = .ok (hashInput
        [(⟨5, user, asset, 5, some 0⟩ : ZkClob.Deposit), ⟨6, user, asset, 6, none⟩]) ∧
      encodeForcedWithdrawalRequests testQueues 8 10 = .ok (hashInput
        [(⟨8, other, quote, 8, none⟩ : ZkClob.ForcedWithdrawal), ⟨9, other, quote, 9, some 1⟩]) ∧
      encodeWithdrawals [⟨user, other, asset, 3, 1⟩, ⟨other, other, quote, 4, 7⟩] =
        hashInput ([⟨user, other, asset, 3, 1⟩, ⟨other, other, quote, 4, 7⟩] :
          List Withdrawal) ∧
      encodeForcedWithdrawals [⟨8, other, quote, 8⟩, ⟨9, other, quote, 2⟩] = hashInput
        [(⟨8, other, quote, 8, none⟩ : ZkClob.ForcedWithdrawal), ⟨9, other, quote, 2, some 1⟩] ∧
      encodeAccount account.id account.nextNonce account.balances = hashInput account ∧
      encodeLeaf IdealDigest account.id account.nextNonce account.balances =
        hashInput (Patricia.Leaf.mk account : Patricia.Leaf IdealDigest Account) := by
  intro user other asset quote account
  have h := hashed_bytes_eq IdealDigest testQueues
    [⟨5, user, asset, 5, some 0⟩, ⟨6, user, asset, 6, none⟩]
    [⟨8, other, quote, 8, none⟩, ⟨9, other, quote, 9, some 1⟩]
    [⟨8, other, quote, 8, none⟩, ⟨9, other, quote, 2, some 1⟩]
    [⟨user, other, asset, 3, 1⟩, ⟨other, other, quote, 4, 7⟩]
    [⟨8, other, quote, 8⟩, ⟨9, other, quote, 2⟩] account 5 7 8 10 rfl rfl
    (by simp [Storage.HoldsDeposit, testQueues, user, asset])
    rfl rfl (by simp [Storage.HoldsRequest, testQueues, other, quote]) rfl
  exact ⟨h.1, h.2.1, h.2.2.1, h.2.2.2.1, h.2.2.2.2.2.1, h.2.2.2.2.2.2.2⟩

end Contract

end ZkClob
