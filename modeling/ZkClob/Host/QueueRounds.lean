import ZkClob.Host.BuilderOutput
import ZkClob.Host.Synchrony
import ZkClob.Settlement.QueueBatches

/-!
# The host serves the queues

The host can always go on with the queues of the contract.  The builder takes their next entries,
builds a batch of them, and the guest accepts it.  A batch with one request serves it: whoever is
touched is then known, so that the index of the builder is exact, or the account of the request
holds nothing.

Main results:

- Theorem {lit}`BatchBuilder.run_queueCalls`: the builder takes the next entries of the queues.
- Theorem {lit}`BatchBuilder.exists_build`: it builds a batch of them.
- Theorem {lit}`exists_queueRound`: the guest accepts the batch.
- Theorem {lit}`QueueRound.served`: a single request is served.
-/

namespace ZkClob

open Foundations Patricia

namespace BatchBuilder

variable {b : BatchBuilder}

/-! ## Calls -/

/-- The calls for some entries of the queues. -/
def queueCalls (deposits : List Deposit) (requests : List ForcedWithdrawal) : List Call :=
  deposits.map .deposit ++ requests.map .forcedWithdraw

/-- The id that a queue waits for. -/
theorem checkedAdd_expected {cursor id : U64} {n : Nat} (hid : id.toNat = cursor.toNat + n) :
    FixedWidth.checkedAdd cursor (BitVec.ofNat 64 n) = some id := by
  have hlt := id.isLt
  rw [FixedWidth.checkedAdd_eq_some, BitVec.toNat_ofNat, Nat.mod_eq_of_lt (by omega)]
  exact hid

/-- The next deposit is taken. -/
theorem deposit_taken {d : Deposit} (hlength : b.deposits.length < MAX_DEPOSITS_PER_BATCH)
    (hid : d.id.toNat = b.oldDepositCursor.toNat + b.deposits.length) (hamount : d.amount ≠ 0)
    (hasset : (b.config.asset d.asset).isSome)
    (hroom : b.touchedAccounts.len < MAX_TOUCHED_ACCOUNTS_PER_BATCH) :
    b.deposit d = .ok { b with
      touchedAccounts := b.touchedAccounts.add d.account
      deposits := b.deposits ++ [d] } := by
  have htouched : b.checkTouched d.account = .ok () := checkTouched_eq_ok.mpr (Or.inr hroom)
  have hlimit : ¬ b.deposits.length ≥ MAX_DEPOSITS_PER_BATCH := by omega
  have hknown : ¬ (b.config.asset d.asset).isNone = true := by
    rw [Option.isNone_iff_eq_none]
    exact Option.isSome_iff_ne_none.mp hasset
  rw [deposit, checkedAdd_expected hid]
  simp only [Outcome.rejectIf, if_neg hlimit, if_neg hamount, if_neg hknown, htouched,
    Outcome.okOr, Outcome.ok_bind, ne_eq, not_true_eq_false, if_false]

/-- The next request is taken. -/
theorem forcedWithdraw_taken {r : ForcedWithdrawal}
    (hlength : b.forcedWithdrawals.length < MAX_FORCED_WITHDRAWALS_PER_BATCH)
    (hid : r.id.toNat = b.oldForcedWithdrawalCursor.toNat + b.forcedWithdrawals.length)
    (hamount : r.amount ≠ 0) (hroom : b.touchedAccounts.len < MAX_TOUCHED_ACCOUNTS_PER_BATCH) :
    b.forcedWithdraw r = .ok { b with
      touchedAccounts := b.touchedAccounts.add r.account
      forcedWithdrawals := b.forcedWithdrawals ++ [r] } := by
  have htouched : b.checkTouched r.account = .ok () := checkTouched_eq_ok.mpr (Or.inr hroom)
  have hlimit : ¬ b.forcedWithdrawals.length ≥ MAX_FORCED_WITHDRAWALS_PER_BATCH := by omega
  rw [forcedWithdraw, checkedAdd_expected hid]
  simp only [Outcome.rejectIf, if_neg hlimit, if_neg hamount, htouched, Outcome.okOr,
    Outcome.ok_bind, ne_eq, not_true_eq_false, if_false]

/-- The next deposits are taken one by one. -/
theorem run_deposits {deposits : List Deposit}
    (hlength : b.deposits.length + deposits.length ≤ MAX_DEPOSITS_PER_BATCH)
    (hids : deposits.map (fun d => d.id.toNat) =
      List.range' (b.oldDepositCursor.toNat + b.deposits.length) deposits.length)
    (hvalid : ∀ d ∈ deposits, d.amount ≠ 0 ∧ (b.config.asset d.asset).isSome)
    (hroom : b.touchedAccounts.len + deposits.length ≤ MAX_TOUCHED_ACCOUNTS_PER_BATCH) :
    ∃ touched : OrderedSet AccountId, touched.len ≤ b.touchedAccounts.len + deposits.length ∧
      b.run (deposits.map .deposit) =
        { b with touchedAccounts := touched, deposits := b.deposits ++ deposits } := by
  induction deposits generalizing b with
  | nil =>
      refine ⟨b.touchedAccounts, Nat.le_add_right _ _, ?_⟩
      rw [List.append_nil]
      rfl
  | cons d deposits ih =>
      rw [List.map_cons, List.length_cons, List.range'_succ, List.cons.injEq] at hids
      rw [List.length_cons] at hlength hroom
      rw [List.map_cons]
      rcases hvalid d List.mem_cons_self with ⟨hamount, hasset⟩
      have htaken := @deposit_taken b d (by omega) hids.1 hamount hasset (by omega)
      have hgrown := OrderedMap.len_insert_le b.touchedAccounts d.account ()
      have hstep : b.step (.deposit d) = { b with
          touchedAccounts := b.touchedAccounts.add d.account
          deposits := b.deposits ++ [d] } := by
        simp only [step, call, htaken]
      have hrest := @ih { b with
          touchedAccounts := b.touchedAccounts.add d.account
          deposits := b.deposits ++ [d] }
        (by simp only [List.length_append, List.length_singleton]; omega)
        (by simpa only [List.length_append, List.length_singleton, Nat.add_assoc] using hids.2)
        (fun d hd => hvalid d (List.mem_cons_of_mem _ hd))
        (by simp only [OrderedSet.add]; omega)
      rcases hrest with ⟨touched, htouched, hrun⟩
      refine ⟨touched, ?_, ?_⟩
      · rw [List.length_cons]
        simp only [OrderedSet.add] at htouched
        omega
      · change (b.step (.deposit d)).run (deposits.map .deposit) = _
        rw [hstep]
        simpa only [List.append_assoc, List.singleton_append] using hrun

/-- The next requests are taken one by one. -/
theorem run_forcedWithdrawals {requests : List ForcedWithdrawal}
    (hlength : b.forcedWithdrawals.length + requests.length ≤ MAX_FORCED_WITHDRAWALS_PER_BATCH)
    (hids : requests.map (fun r => r.id.toNat) = List.range'
      (b.oldForcedWithdrawalCursor.toNat + b.forcedWithdrawals.length) requests.length)
    (hvalid : ∀ r ∈ requests, r.amount ≠ 0)
    (hroom : b.touchedAccounts.len + requests.length ≤ MAX_TOUCHED_ACCOUNTS_PER_BATCH) :
    ∃ touched : OrderedSet AccountId, b.run (requests.map .forcedWithdraw) = { b with
      touchedAccounts := touched, forcedWithdrawals := b.forcedWithdrawals ++ requests } := by
  induction requests generalizing b with
  | nil =>
      refine ⟨b.touchedAccounts, ?_⟩
      rw [List.append_nil]
      rfl
  | cons r requests ih =>
      rw [List.map_cons, List.length_cons, List.range'_succ, List.cons.injEq] at hids
      rw [List.length_cons] at hlength hroom
      rw [List.map_cons]
      have htaken := @forcedWithdraw_taken b r (by omega) hids.1 (hvalid r List.mem_cons_self)
        (by omega)
      have hgrown := OrderedMap.len_insert_le b.touchedAccounts r.account ()
      have hstep : b.step (.forcedWithdraw r) = { b with
          touchedAccounts := b.touchedAccounts.add r.account
          forcedWithdrawals := b.forcedWithdrawals ++ [r] } := by
        simp only [step, call, htaken]
      have hrest := @ih { b with
          touchedAccounts := b.touchedAccounts.add r.account
          forcedWithdrawals := b.forcedWithdrawals ++ [r] }
        (by simp only [List.length_append, List.length_singleton]; omega)
        (by simpa only [List.length_append, List.length_singleton, Nat.add_assoc] using hids.2)
        (fun r hr => hvalid r (List.mem_cons_of_mem _ hr))
        (by simp only [OrderedSet.add]; omega)
      rcases hrest with ⟨touched, hrun⟩
      refine ⟨touched, ?_⟩
      change (b.step (.forcedWithdraw r)).run (requests.map .forcedWithdraw) = _
      rw [hstep]
      simpa only [List.append_assoc, List.singleton_append] using hrun

/-- Entries that a new builder can take: the next ones of the queues, as many as fit. -/
structure QueueEntries (config : ExchangeConfig) (depositCursor requestCursor : U64)
    (deposits : List Deposit) (requests : List ForcedWithdrawal) : Prop where
  depositIds : deposits.map (fun d => d.id.toNat) =
    List.range' depositCursor.toNat deposits.length
  depositsValid : ∀ d ∈ deposits, d.amount ≠ 0 ∧ (config.asset d.asset).isSome
  depositCursor : depositCursor.toNat + deposits.length < 2 ^ 64
  requestIds : requests.map (fun r => r.id.toNat) =
    List.range' requestCursor.toNat requests.length
  requestsValid : ∀ r ∈ requests, r.amount ≠ 0
  requestCursor : requestCursor.toNat + requests.length < 2 ^ 64
  fits : deposits.length + requests.length ≤ 1000

variable {tree : AccountTree} {config : ExchangeConfig} {deposits : List Deposit}
  {requests : List ForcedWithdrawal} {depositCursor requestCursor : U64}

/-- A new builder takes the next entries of the queues. -/
theorem run_queueCalls
    (hentries : QueueEntries config depositCursor requestCursor deposits requests)
    (tree : AccountTree) (domain : SigningDomain) (batchId : U64) :
    ∃ touched : OrderedSet AccountId,
      (new tree config domain batchId depositCursor requestCursor).run
          (queueCalls deposits requests) =
        { new tree config domain batchId depositCursor requestCursor with
          touchedAccounts := touched, deposits := deposits, forcedWithdrawals := requests } := by
  let start := new tree config domain batchId depositCursor requestCursor
  have hfits := hentries.fits
  have htouched : start.touchedAccounts.len ≤ 1 := OrderedMap.len_insert_le _ _ _
  have hdeposits := @run_deposits start deposits
    (by simp only [start, new, List.length_nil, MAX_DEPOSITS_PER_BATCH]; omega)
    hentries.depositIds hentries.depositsValid
    (by simp only [MAX_TOUCHED_ACCOUNTS_PER_BATCH, MAX_ORDERS_PER_BATCH]; omega)
  rcases hdeposits with ⟨touched, hlen, hrun⟩
  have hrequests := @run_forcedWithdrawals
    { start with touchedAccounts := touched, deposits := start.deposits ++ deposits } requests
    (by simp only [start, new, List.length_nil, MAX_FORCED_WITHDRAWALS_PER_BATCH]; omega)
    hentries.requestIds hentries.requestsValid
    (by simp only [MAX_TOUCHED_ACCOUNTS_PER_BATCH, MAX_ORDERS_PER_BATCH]; omega)
  rcases hrequests with ⟨touched', hrun'⟩
  refine ⟨touched', ?_⟩
  rw [run] at hrun hrun'
  rw [queueCalls, run, List.foldl_append, hrun, hrun']
  rfl

/-! ## Building -/

/-- Every touched account has a rank. -/
theorem exists_accountIndex {keys : List AccountId} (hkeys : keys.Pairwise (· < ·))
    {account : AccountId} (hmem : account ∈ keys) :
    ∃ index, accountIndex keys account = .ok index := by
  unfold accountIndex
  cases hsearch : binarySearchByKey (fun a => a) account keys with
  | ok index => exact ⟨_, rfl⟩
  | error index =>
      have hsorted : SortedBy (fun a : AccountId => a) keys := hkeys
      exact absurd rfl (hsorted.search_error_iff.mp ⟨index, hsearch⟩ account hmem)

/-- A builder of queue entries builds. -/
theorem exists_build (B256 : Type) [Sha256 B256] (hinv : Inv b)
    (hsorted : AccountTree.StateSorted b.state.state) (hnonces : b.nonces = .empty)
    (hbooks : b.books = .empty) (horders : b.orders = []) (hwithdrawals : b.withdrawals = []) :
    ∃ input : BatchInput B256, b.build = .ok input := by
  have hkeys := b.touchedAccounts.keys_sorted
  rcases AccountTree.exists_witness B256 hsorted hinv.touched_ne_nil with
    ⟨root, witness, _, hwitness, hroot, _⟩
  have hdeposits : ∃ deposits, (b.deposits.mapM fun deposit => do
      let index ← accountIndex b.touchedAccounts.keys deposit.account
      .ok (deposit.withAccountIndex index)) = .ok deposits := by
    apply Outcome.exists_mapM
    intro d hd
    have hmem : d.account ∈ b.touchedAccounts.keys := by
      rw [hinv.mem_touched]
      simp only [participants, List.mem_cons, List.mem_append, List.mem_map]
      exact Or.inr (Or.inl (Or.inl (Or.inl ⟨d, hd, rfl⟩)))
    rcases exists_accountIndex hkeys hmem with ⟨index, hindex⟩
    rw [hindex, Outcome.ok_bind]
    exact ⟨_, rfl⟩
  have hrequests : ∃ requests, (b.forcedWithdrawals.mapM fun request => do
      let index ← accountIndex b.touchedAccounts.keys request.account
      .ok (request.withAccountIndex index)) = .ok requests := by
    apply Outcome.exists_mapM
    intro r hr
    have hmem : r.account ∈ b.touchedAccounts.keys := by
      rw [hinv.mem_touched]
      simp only [participants, List.mem_cons, List.mem_append, List.mem_map]
      exact Or.inr (Or.inl (Or.inl (Or.inr ⟨r, hr, rfl⟩)))
    rcases exists_accountIndex hkeys hmem with ⟨index, hindex⟩
    rw [hindex, Outcome.ok_bind]
    exact ⟨_, rfl⟩
  rcases hdeposits with ⟨deposits, hdeposits⟩
  rcases hrequests with ⟨requests, hrequests⟩
  have hnone : (OrderedMap.empty : OrderedMap AccountId (OrderedSet Nat)).entries = [] := rfl
  have hnobooks : (OrderedMap.empty : OrderedMap MarketId (List U32 × List U32)).entries = [] := rfl
  rw [build, hnonces, hbooks, horders, hwithdrawals, hnone, hnobooks]
  simp only [List.forM_nil, List.mapM_nil, Outcome.ok_bind, pure_bind, hwitness, hdeposits,
    hrequests, hroot]
  exact ⟨_, rfl⟩

/-- The accounts of the batch after the deposits are the touched accounts that are known. -/
theorem participants_eq {B256 : Type} [Sha256 B256] {input : BatchInput B256}
    (hsorted : AccountTree.StateSorted b.state.state) (hinv : Inv b) (hbuilt : Built b input) :
    ZkClob.participants input = b.touchedAccounts.keys.filter fun id => b.Known id := by
  have hdistinct := List.nodup_dedup
    (input.state.accounts.map Account.id ++ input.deposits.map Deposit.account)
  have hperm := sortByKey_perm id
    (input.state.accounts.map Account.id ++ input.deposits.map Deposit.account).dedup
  have hleft : SortedBy id (ZkClob.participants input) := by
    apply SortedBy.of_nodup (sortByKey_pairwise id _)
    rw [List.map_id]
    exact hperm.nodup_iff.mpr hdistinct
  have hright : SortedBy id (b.touchedAccounts.keys.filter fun id => b.Known id) :=
    b.touchedAccounts.keys_sorted.filter _
  apply hleft.eq_of_perm hright
  apply (List.perm_ext_iff_of_nodup (hperm.nodup_iff.mpr hdistinct)
    (b.touchedAccounts.keys_nodup.filter _)).mpr
  intro id
  have hdeposit : id ∈ b.deposits.map Deposit.account → id ∈ b.touchedAccounts.keys := by
    intro hmem
    rw [hinv.mem_touched, participants]
    simp only [List.mem_cons, List.mem_append]
    tauto
  have hknown : b.Known id ↔ id ∈ b.state.state.accounts.map Account.id ∨
      id ∈ b.deposits.map Deposit.account := Iff.rfl
  rw [hperm.mem_iff, List.mem_dedup, List.mem_append, witness_ids hsorted hbuilt.witness,
    hbuilt.deposits, List.mem_filter, List.mem_filter, decide_eq_true_eq, decide_eq_true_eq, hknown]
  tauto

/-- What is built carries the domain and the number of the builder. -/
theorem build_header {B256 : Type} [Sha256 B256] {input : BatchInput B256}
    (h : b.build = .ok input) : input.domain = b.domain ∧ input.batchId = b.batchId := by
  simp only [build, Outcome.bind_eq_ok, Except.ok.injEq] at h
  rcases h with ⟨_, _, _, _, _, _, _, _, _, _, _, _, _, _, _, _, rfl⟩
  exact ⟨rfl, rfl⟩

end BatchBuilder

/-! ## Rounds -/

section

variable {B256 : Type} [Sha256 B256] [Secp256k1 B256] [DecidableEq B256] {tree : AccountTree}
  {config : ExchangeConfig} {domain : SigningDomain} {batchId depositCursor requestCursor : U64}
  {deposits : List Deposit} {requests : List ForcedWithdrawal} {input : BatchInput B256}
  {output : BatchOutput B256}

/-- The host has built a batch of queue entries and nothing else, and the guest has accepted it. -/
structure QueueRound (tree : AccountTree) (config : ExchangeConfig) (domain : SigningDomain)
    (batchId depositCursor requestCursor : U64) (deposits : List Deposit)
    (requests : List ForcedWithdrawal) (input : BatchInput B256) (output : BatchOutput B256) :
    Prop where
  built : ((BatchBuilder.new tree config domain batchId depositCursor requestCursor).run
    (BatchBuilder.queueCalls deposits requests)).build = .ok input
  accepted : settleBatch input = .ok output

/-- The builder of a round. -/
structure RoundBuilder (tree : AccountTree) (config : ExchangeConfig) (domain : SigningDomain)
    (batchId depositCursor requestCursor : U64) (deposits : List Deposit)
    (requests : List ForcedWithdrawal) (b : BatchBuilder) : Prop where
  run : (BatchBuilder.new tree config domain batchId depositCursor requestCursor).run
    (BatchBuilder.queueCalls deposits requests) = b
  inv : BatchBuilder.Inv b
  state : b.state = tree
  config : b.config = config
  domain : b.domain = domain
  batchId : b.batchId = batchId
  oldDepositCursor : b.oldDepositCursor = depositCursor
  deposits : b.deposits = deposits
  oldForcedWithdrawalCursor : b.oldForcedWithdrawalCursor = requestCursor
  forcedWithdrawals : b.forcedWithdrawals = requests
  orders : b.orders = []
  withdrawals : b.withdrawals = []
  nonces : b.nonces = .empty
  books : b.books = .empty

theorem exists_roundBuilder
    (hentries : BatchBuilder.QueueEntries config depositCursor requestCursor deposits requests)
    (tree : AccountTree) (domain : SigningDomain) (batchId : U64) :
    ∃ b, RoundBuilder tree config domain batchId depositCursor requestCursor deposits requests
      b := by
  rcases BatchBuilder.run_queueCalls hentries tree domain batchId with ⟨touched, hrun⟩
  have hinv := (BatchBuilder.run_inv (BatchBuilder.new_inv tree config domain batchId depositCursor
    requestCursor) (BatchBuilder.queueCalls deposits requests)).1
  rw [hrun] at hinv
  exact ⟨_, hrun, hinv, rfl, rfl, rfl, rfl, rfl, rfl, rfl, rfl, rfl, rfl, rfl, rfl⟩

namespace RoundBuilder

variable {b : BatchBuilder}

omit [Secp256k1 B256] [DecidableEq B256] in
/-- The witness of the batch is that of the touched accounts. -/
theorem witnessFor (h : RoundBuilder tree config domain batchId depositCursor requestCursor deposits
    requests b) (hout : BatchBuilder.Output b input) :
    tree.state.witnessFor b.touchedAccounts.keys = .ok input.state := by
  have hstored := hout.state
  rw [h.state, AccountTree.witness, Outcome.mapError_eq_ok] at hstored
  exact hstored

omit [Secp256k1 B256] [DecidableEq B256] in
/-- The batch has no signed operations. -/
theorem queuesOnly (h : RoundBuilder tree config domain batchId depositCursor requestCursor deposits
    requests b) (hout : BatchBuilder.Output b input) : QueuesOnly input := by
  have horders := hout.orders.length_eq
  have hwithdrawals := hout.withdrawals.length_eq
  have horderBooks := hout.orderBooks
  rw [h.orders] at horders
  rw [h.withdrawals] at hwithdrawals
  rw [h.books] at horderBooks
  exact ⟨List.eq_nil_of_length_eq_zero horders, List.eq_nil_of_length_eq_zero hwithdrawals,
    List.forall₂_nil_left_iff.mp horderBooks⟩

omit [Secp256k1 B256] [DecidableEq B256] in
/-- The batch keeps to the limits. -/
theorem validateLimits_eq (h : RoundBuilder tree config domain batchId depositCursor requestCursor
    deposits requests b) (hout : BatchBuilder.Output b input)
    (hassets : config.assets.length ≤ MAX_ASSETS) (hmarkets : config.markets.length ≤ MAX_MARKETS)
    (hfits : deposits.length + requests.length ≤ 1000) : validateLimits input = .ok () := by
  have hqueues := h.queuesOnly hout
  apply validateLimits_of_le
  · rw [hout.accounts_eq]
    apply (List.length_filterMap_le _ _).trans
    rw [OrderedMap.keys, List.length_map]
    exact h.inv.bounded
  · rw [hqueues.orders]
    exact Nat.zero_le _
  · rw [hout.deposits.length_eq, h.deposits, MAX_DEPOSITS_PER_BATCH]
    omega
  · rw [hqueues.withdrawals]
    exact Nat.zero_le _
  · rw [hout.forcedWithdrawals.length_eq, h.forcedWithdrawals, MAX_FORCED_WITHDRAWALS_PER_BATCH]
    omega
  · rw [hout.config, h.config]
    exact hassets
  · rw [hout.config, h.config]
    exact hmarkets
  · rw [hqueues.orderBooks]
    exact Nat.zero_le _

omit [Secp256k1 B256] [DecidableEq B256] in
/-- The deposits of the batch are the next ones. -/
theorem validateDeposits_eq (h : RoundBuilder tree config domain batchId depositCursor requestCursor
    deposits requests b) (hout : BatchBuilder.Output b input)
    (hentries : BatchBuilder.QueueEntries config depositCursor requestCursor deposits requests) :
    ∃ newCursor, validateDeposits input.deposits input.oldDepositCursor input.config =
      .ok newCursor := by
  have hids : input.deposits.map (fun d => d.id.toNat) = b.deposits.map fun d => d.id.toNat :=
    hout.deposits.map_eq fun _ _ => rfl
  rw [exists_validateDeposits, hids, hout.deposits.length_eq, hout.oldDepositCursor, hout.config,
    h.config, h.deposits, h.oldDepositCursor]
  refine ⟨hentries.depositIds, hentries.depositCursor, fun d hd => ?_⟩
  rcases hout.deposits.exists_of_mem hd with ⟨d', hd', _, _, rfl⟩
  rw [h.deposits] at hd'
  exact hentries.depositsValid d' hd'

omit [Secp256k1 B256] [DecidableEq B256] in
/-- The requests of the batch are the next ones. -/
theorem validateForcedWithdrawals_eq (h : RoundBuilder tree config domain batchId depositCursor
    requestCursor deposits requests b) (hout : BatchBuilder.Output b input)
    (hentries : BatchBuilder.QueueEntries config depositCursor requestCursor deposits requests) :
    validateForcedWithdrawals input.forcedWithdrawals input.oldForcedWithdrawalCursor =
      .ok () := by
  have hids : input.forcedWithdrawals.map (fun r => r.id.toNat) =
      b.forcedWithdrawals.map fun r => r.id.toNat := hout.forcedWithdrawals.map_eq fun _ _ => rfl
  rw [exists_validateForcedWithdrawals, hids, hout.forcedWithdrawals.length_eq,
    hout.oldForcedWithdrawalCursor, h.forcedWithdrawals, h.oldForcedWithdrawalCursor]
  refine ⟨hentries.requestIds, hentries.requestCursor, fun r hr => ?_⟩
  rcases hout.forcedWithdrawals.exists_of_mem hr with ⟨r', hr', _, _, rfl⟩
  rw [h.forcedWithdrawals] at hr'
  exact hentries.requestsValid r' hr'

omit [Secp256k1 B256] [DecidableEq B256] in
/-- The totals of the batch are a part of those of the tree and the deposits. -/
theorem totals_le (h : RoundBuilder tree config domain batchId depositCursor requestCursor deposits
    requests b) (hout : BatchBuilder.Output b input)
    (hsorted : AccountTree.StateSorted tree.state) (x : AssetId) :
    supply input.state.accounts x +
        tally (fun d => d.asset = x) (fun d => d.amount.toNat) input.deposits ≤
      supply tree.state.accounts x +
        tally (fun d => d.asset = x) (fun d => d.amount.toNat) deposits := by
  have hamounts : input.deposits.map (fun d => (d.asset, d.amount)) =
      b.deposits.map fun d => (d.asset, d.amount) := hout.deposits.map_eq fun _ _ => rfl
  have htally := congrArg (tally (fun p : AssetId × U128 => p.1 = x) fun p => p.2.toNat) hamounts
  rw [tally_map, tally_map, h.deposits] at htally
  have hpicked := State.lookup_perm hsorted b.touchedAccounts.keys_nodup
  rw [← (State.witnessFor_eq_ok (h.witnessFor hout)).1] at hpicked
  have hpart := supply_filter_le tree.state.accounts
    (fun a => decide (a.id ∈ b.touchedAccounts.keys)) x
  rw [← supply_perm hpicked x] at hpart
  exact Nat.add_le_add hpart htally.le

end RoundBuilder

/-- The guest accepts the batch that the host builds of the next queue entries, when the totals
fit. -/
theorem exists_queueRound (htree : tree.Coherent)
    (hcanonical : ∀ account ∈ tree.state.accounts, account.Canonical)
    (hconfig : validateConfig config tree.state.accounts = .ok ())
    (hassets : config.assets.length ≤ MAX_ASSETS) (hmarkets : config.markets.length ≤ MAX_MARKETS)
    (hentries : BatchBuilder.QueueEntries config depositCursor requestCursor deposits requests)
    (hfits : ∀ x, supply tree.state.accounts x +
      tally (fun d => d.asset = x) (fun d => d.amount.toNat) deposits < 2 ^ 128)
    (domain : SigningDomain) (batchId : U64) :
    ∃ (input : BatchInput B256) (output : BatchOutput B256), QueueRound tree config domain batchId
      depositCursor requestCursor deposits requests input output := by
  rcases exists_roundBuilder hentries tree domain batchId with ⟨b, hround⟩
  have hcoherent : b.state.Coherent := hround.state ▸ htree
  rcases BatchBuilder.exists_build B256 hround.inv hcoherent.sorted hround.nonces hround.books
    hround.orders hround.withdrawals with ⟨input, hinput⟩
  have hout := BatchBuilder.build_output hinput
  have hnodup := b.touchedAccounts.keys_nodup
  have hne := hround.inv.touched_ne_nil
  have hwitness := hround.witnessFor hout
  have hcan : AccountsCanonical input.state.accounts :=
    State.witness_canonical ⟨htree.sorted, hcanonical⟩ b.touchedAccounts.keys_sorted hwitness
  have hvalid : validateConfig input.config input.state.accounts = .ok () := by
    apply hout.validateConfig_eq hcoherent hround.inv
    rw [hround.state, hround.config]
    exact hconfig
  have hroot : input.state.root = .ok input.expectedOldStateRoot := by
    rcases State.root_of_witness htree.sorted hne hnodup hwitness with ⟨root, hroot, hwhole⟩
    have hexpected := hout.oldRoot
    simp only [hround.state, AccountTree.root, State.root, hwhole, Except.ok.injEq] at hexpected
    rw [hroot, hexpected]
  have hhints : ∀ d ∈ input.deposits, d.accountIndex.isSome := by
    intro d hd
    rcases hout.deposits.exists_of_mem hd with ⟨_, _, _, _, rfl⟩
    rfl
  have hdeposited : ∀ d ∈ input.deposits, d.account ∈ b.touchedAccounts.keys := by
    intro d hd
    rcases hout.deposits.exists_of_mem hd with ⟨d', hd', _, _, rfl⟩
    rw [hround.inv.mem_touched, BatchBuilder.participants]
    simp only [List.mem_cons, List.mem_append, List.mem_map]
    exact Or.inr (Or.inl (Or.inl (Or.inl ⟨d', hd', rfl⟩)))
  have hroom : b.touchedAccounts.keys.length ≤ MAX_TOUCHED_ACCOUNTS_PER_BATCH := by
    rw [OrderedMap.keys, List.length_map]
    exact hround.inv.bounded
  have haccepted := (hround.queuesOnly hout).exists_output hcan
    (hround.validateLimits_eq hout hassets hmarkets hentries.fits) hvalid hroot
    (hround.validateDeposits_eq hout hentries) (hround.validateForcedWithdrawals_eq hout hentries)
    hhints htree.sorted hne hnodup hroom hwitness hdeposited
    fun x => (hround.totals_le hout htree.sorted x).trans_lt (hfits x)
  rcases haccepted with ⟨output, houtput⟩
  refine ⟨input, output, ?_, houtput⟩
  rw [hround.run]
  exact hinput

namespace QueueRound

/-- The builder of a round and what it put into the batch. -/
theorem exists_builder
    (h : QueueRound tree config domain batchId depositCursor requestCursor deposits requests input
      output)
    (hentries : BatchBuilder.QueueEntries config depositCursor requestCursor deposits requests) :
    ∃ b, RoundBuilder tree config domain batchId depositCursor requestCursor deposits requests b ∧
      b.build = .ok input := by
  rcases exists_roundBuilder hentries tree domain batchId with ⟨b, hround⟩
  have hbuilt := h.built
  rw [hround.run] at hbuilt
  exact ⟨b, hround, hbuilt⟩

/-- The requests are served, each with what it asks for up to what its account holds, when all their
accounts are known; a single request is served in any case. -/
theorem served (hfree : CollisionFree B256) (htree : tree.Coherent)
    (h : QueueRound tree config domain batchId depositCursor requestCursor deposits requests input
      output)
    (hentries : BatchBuilder.QueueEntries config depositCursor requestCursor deposits requests)
    (hconfig : validateConfig config tree.state.accounts = .ok ())
    (hrequests : requests.length ≤ 1 ∨ ∀ r ∈ requests,
      r.account ∈ tree.state.accounts.map Account.id ∨
        r.account ∈ deposits.map Deposit.account) :
    Served tree.state.accounts input output := by
  rcases exists_settlement h.accepted with ⟨s⟩
  rcases h.exists_builder hentries with ⟨b, hround, hbuild⟩
  have hout := BatchBuilder.build_output hbuild
  have hbuilt := BatchBuilder.build_spec hbuild
  have hA : Commits tree.state.accounts input.expectedOldStateRoot := by
    have hwitness := hout.state
    rw [hround.state] at hwitness
    exact Commits.of_computeRoot (s.updatedAccounts_root htree.sorted b.touchedAccounts.keys_nodup
      hround.inv.touched_ne_nil hwitness).1
  apply served_of_reached hfree s hA
  by_cases hall : ∀ r ∈ requests, b.Known r.account
  · -- everyone is known, so that the ranks are the positions
    have htouched : ∀ id ∈ b.touchedAccounts.keys, b.Known id := by
      intro id hid
      rw [hround.inv.mem_touched, BatchBuilder.participants, hround.orders,
        hround.withdrawals] at hid
      simp only [List.map_nil, List.append_nil, List.mem_cons, List.mem_append, List.mem_map] at hid
      rcases hid with rfl | ⟨d, hd, rfl⟩ | ⟨r, hr, rfl⟩
      · left
        rw [hround.state, hround.config]
        exact (validateConfig_spec hconfig).recipient
      · exact Or.inr (List.mem_map_of_mem hd)
      · rw [hround.forcedWithdrawals] at hr
        exact hall r hr
    have hparticipants : participants input = b.touchedAccounts.keys := by
      rw [BatchBuilder.participants_eq (hround.state ▸ htree.sorted) hround.inv hbuilt]
      exact List.filter_eq_self.mpr fun id hid => decide_eq_true (htouched id hid)
    rw [hparticipants]
    apply reached_of_indexed
    intro r hr
    rcases hout.forcedWithdrawals.exists_of_mem hr with ⟨r', _, i, hi, rfl⟩
    exact ⟨i, rfl, BatchBuilder.accountIndex_eq_ok hround.inv hi⟩
  · -- a single request for an account that is not known has nothing to drain
    push Not at hall
    rcases hall with ⟨r, hr, hunknown⟩
    have habsent : r.account ∉ tree.state.accounts.map Account.id ∧
        r.account ∉ input.deposits.map Deposit.account := by
      rw [BatchBuilder.Known, hround.state, ← hbuilt.deposits] at hunknown
      exact not_or.mp hunknown
    rcases hrequests with hone | hknown
    · have hsingle : requests = [r] := by
        rcases List.length_eq_one_iff.mp (le_antisymm hone (List.length_pos_of_mem hr)) with
          ⟨r', rfl⟩
        rw [List.mem_singleton.mp hr]
      have hattached := hout.forcedWithdrawals
      rw [hround.forcedWithdrawals, hsingle] at hattached
      rcases List.forall₂_cons_left_iff.mp hattached with ⟨_, rest, ⟨i, _, rfl⟩, hrest, hlisted⟩
      rw [hlisted, List.forall₂_nil_left_iff.mp hrest]
      exact ⟨Or.inr (afterDeposits_eq_zero habsent.1 habsent.2 r.asset), trivial⟩
    · rw [← hround.deposits, ← hbuilt.deposits] at hknown
      rcases hknown r hr with hheld | hdeposited
      · exact absurd hheld habsent.1
      · exact absurd hdeposited habsent.2

end QueueRound

end

end ZkClob
