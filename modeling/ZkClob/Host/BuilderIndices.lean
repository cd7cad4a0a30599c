import ZkClob.Host.BuilderCalls
import ZkClob.Host.TreeUpdates
import ZkClob.Settlement.LedgerEquation
import ZkClob.Settlement.Withdrawals

/-!
# The indices attached by the builder

The builder attaches to every operation the rank of its account among the touched
accounts.  The guest holds the touched accounts that exist or receive a deposit.
The two positions agree as long as no account that is touched in vain comes first;
a forced withdrawal may name such an account.

Main results:

- Theorem {lit}`BatchBuilder.run_inv`: the touched accounts are the fee recipient and
  those of the accepted calls.
- Theorem {lit}`builder_indices_exact_iff`: the attached indices are the positions in the
  guest exactly when no touched account that the guest does not hold is smaller than
  the account of an operation.
- Theorem {lit}`builder_indices_not_exact`: a request of an unknown account shifts the
  indices of the others.
-/

namespace ZkClob

open Foundations Patricia

namespace BatchBuilder

/-- The accounts that a builder has seen: the fee recipient and those of the accepted calls. -/
def participants (self : BatchBuilder) : List AccountId :=
  self.config.fees.recipient :: (self.deposits.map Deposit.account ++
    self.forcedWithdrawals.map ForcedWithdrawal.account ++ self.orders.map SequencedOrder.trader ++
    self.withdrawals.map SignedOperation.account)

/-- The accounts of the operations that get an index. -/
def operationAccounts (self : BatchBuilder) : List AccountId :=
  self.orders.map SequencedOrder.trader ++ self.withdrawals.map SignedOperation.account ++
    self.forcedWithdrawals.map ForcedWithdrawal.account

/-- The account exists in the tree or receives a deposit in the batch. -/
def Known (self : BatchBuilder) (account : AccountId) : Prop :=
  account ∈ self.state.state.accounts.map Account.id ∨ account ∈ self.deposits.map Deposit.account

instance (self : BatchBuilder) : DecidablePred self.Known := fun account =>
  inferInstanceAs (Decidable (account ∈ self.state.state.accounts.map Account.id ∨
    account ∈ self.deposits.map Deposit.account))

/-! ## Runs -/

/-- An accepted call touches the account of its item. -/
structure Touches (b b' : BatchBuilder) (account : AccountId) : Prop where
  state : b'.state = b.state
  participants : ∀ x, x ∈ b'.participants ↔ x = account ∨ x ∈ b.participants
  touched : b'.touchedAccounts = b.touchedAccounts.add account
  room : b.touchedAccounts.contains account = true ∨
    b.touchedAccounts.len < MAX_TOUCHED_ACCOUNTS_PER_BATCH

/-- The participants with one more item. -/
theorem mem_map_append_singleton {α : Type} {f : α → AccountId} {l : List α} {a : α}
    {x : AccountId} :
    x ∈ (l ++ [a]).map f ↔ x = f a ∨ x ∈ l.map f := by
  rw [List.map_append, List.mem_append, List.map_singleton, List.mem_singleton, or_comm]

/-- What an accepted call does. -/
theorem call_touches {b b' : BatchBuilder} {c : Call} (h : b.call c = .ok b') :
    ∃ account, Touches b b' account := by
  cases c with
  | deposit d =>
      rcases deposit_eq_ok h with ⟨_, hroom, rfl⟩
      refine ⟨d.account, rfl, ?_, rfl, checkTouched_eq_ok.mp hroom⟩
      intro x
      simp only [participants, List.mem_cons, List.mem_append, mem_map_append_singleton, or_assoc,
        or_left_comm]
  | forcedWithdraw r =>
      rcases forcedWithdraw_eq_ok h with ⟨_, hroom, rfl⟩
      refine ⟨r.account, rfl, ?_, rfl, checkTouched_eq_ok.mp hroom⟩
      intro x
      simp only [participants, List.mem_cons, List.mem_append, mem_map_append_singleton, or_assoc,
        or_left_comm]
  | order o =>
      rcases order_eq_ok h with ⟨_, hroom, _, _, rfl⟩
      refine ⟨o.trader, rfl, ?_, rfl, checkTouched_eq_ok.mp hroom⟩
      intro x
      simp only [participants, List.mem_cons, List.mem_append, mem_map_append_singleton, or_assoc,
        or_left_comm]
  | withdraw w =>
      rcases withdraw_eq_ok h with ⟨_, hroom, rfl⟩
      refine ⟨w.account, rfl, ?_, rfl, checkTouched_eq_ok.mp hroom⟩
      intro x
      simp only [participants, List.mem_cons, List.mem_append, mem_map_append_singleton, or_assoc,
        or_left_comm]

/-- The touched accounts are the participants, and there are not too many of them. -/
structure Inv (b : BatchBuilder) : Prop where
  mem_touched : ∀ x, x ∈ b.touchedAccounts.keys ↔ x ∈ b.participants
  bounded : b.touchedAccounts.len ≤ MAX_TOUCHED_ACCOUNTS_PER_BATCH

theorem new_inv (state : AccountTree) (config : ExchangeConfig) (domain : SigningDomain)
    (batchId cursor cursor' : U64) : Inv (new state config domain batchId cursor cursor') := by
  refine ⟨fun x => ?_, ?_⟩
  · simp only [new, participants, OrderedSet.mem_keys_add]
    simp [OrderedMap.keys, OrderedMap.empty]
  · refine (OrderedMap.len_insert_le _ _ _).trans ?_
    simp [OrderedMap.len, OrderedMap.empty, MAX_TOUCHED_ACCOUNTS_PER_BATCH]

theorem Inv.touches {b b' : BatchBuilder} {account : AccountId} (h : Inv b)
    (ht : Touches b b' account) : Inv b' := by
  refine ⟨fun x => ?_, ?_⟩
  · rw [ht.touched, OrderedSet.mem_keys_add, h.mem_touched, ht.participants]
  · rw [ht.touched]
    rcases ht.room with hroom | hroom
    · exact (OrderedMap.len_insert_of_contains hroom).le.trans h.bounded
    · exact (OrderedMap.len_insert_le _ _ _).trans hroom

/-- The invariant holds after every sequence of calls, over the tree of the start. -/
theorem run_inv {b : BatchBuilder} (h : Inv b) (calls : List Call) :
    Inv (b.run calls) ∧ (b.run calls).state = b.state := by
  refine run_keeps (P := fun b' => Inv b' ∧ b'.state = b.state) ?_ ⟨h, rfl⟩ calls
  rintro before c after ⟨hinv, hstate⟩ hcall
  rcases call_touches hcall with ⟨account, ht⟩
  exact ⟨hinv.touches ht, ht.state.trans hstate⟩

/-! ## Attached indices -/

/-- Items with the ranks of their accounts attached. -/
def Attached {α : Type} (account : α → AccountId) (attach : α → U32 → α)
    (sortedAccounts : List AccountId) (l m : List α) : Prop :=
  List.Forall₂
    (fun a o => ∃ i, accountIndex sortedAccounts (account a) = .ok i ∧ o = attach a i) l m

section

variable {α : Type} {account : α → AccountId} {attach : α → U32 → α}
  {sortedAccounts : List AccountId}
  {l m : List α}

theorem attached_of_mapM (h : (l.mapM fun a => do
    let i ← accountIndex sortedAccounts (account a)
    .ok (attach a i)) = .ok m) : Attached account attach sortedAccounts l m := by
  apply (Outcome.mapM_eq_ok.mp h).imp
  intro a o ho
  simp only [Outcome.bind_eq_ok, Except.ok.injEq] at ho
  rcases ho with ⟨i, hi, ho⟩
  exact ⟨i, hi, ho.symm⟩

/-- What the index does not change. -/
theorem Attached.map_eq (h : Attached account attach sortedAccounts l m) {γ : Type} {f : α → γ}
    (hf : ∀ a i, f (attach a i) = f a) : m.map f = l.map f := by
  apply map_eq_of_forall₂
  apply h.imp
  rintro a o ⟨i, _, rfl⟩
  exact hf a i

theorem Attached.length_eq (h : Attached account attach sortedAccounts l m) : m.length = l.length :=
  (List.Forall₂.length_eq h).symm

/-- Every item of the output is an accepted item with the rank of its account. -/
theorem Attached.exists_of_mem (h : Attached account attach sortedAccounts l m) {o : α}
    (ho : o ∈ m) :
    ∃ a ∈ l, ∃ i, accountIndex sortedAccounts (account a) = .ok i ∧ o = attach a i := by
  rcases List.mem_iff_getElem?.mp ho with ⟨n, hn⟩
  have hlt : n < l.length := by
    rw [← h.length_eq]
    exact (List.getElem?_eq_some_iff.mp hn).1
  have hat := List.getElem?_eq_getElem hlt
  exact ⟨l[n], List.getElem_mem hlt, getElem?_of_forall₂ h hat hn⟩

end

end BatchBuilder

/-- The indices of the operations of a batch, each with its account. -/
def operationIndices {B256 : Type} (input : BatchInput B256) : List (Option U32 × AccountId) :=
  input.orders.map (fun o => (o.accountIndex, o.trader)) ++
    input.withdrawals.map (fun w => (w.accountIndex, w.account)) ++
    input.forcedWithdrawals.map (fun r => (r.accountIndex, r.account))

namespace BatchBuilder

/-! ## What is built -/

variable {B256 : Type} [Sha256 B256] {b builder : BatchBuilder} {input : BatchInput B256}

/-- What a successful build has checked and put into the batch. -/
structure Output (b : BatchBuilder) (input : BatchInput B256) : Prop where
  nonces : ∀ entry ∈ b.nonces.entries, ∃ next, b.checkNonces entry.1 entry.2 = .ok next
  state : b.state.witness b.touchedAccounts = .ok input.state
  oldRoot : b.state.root = .ok input.expectedOldStateRoot
  deposits : Attached Deposit.account Deposit.withAccountIndex b.touchedAccounts.keys b.deposits
    input.deposits
  forcedWithdrawals : Attached ForcedWithdrawal.account ForcedWithdrawal.withAccountIndex
    b.touchedAccounts.keys b.forcedWithdrawals input.forcedWithdrawals
  orders : Attached SequencedOrder.trader SequencedOrder.withAccountIndex b.touchedAccounts.keys
    b.orders input.orders
  withdrawals : Attached SignedOperation.account SignedOperation.withAccountIndex
    b.touchedAccounts.keys b.withdrawals input.withdrawals
  orderBooks : List.Forall₂ (fun entry book => book.marketId = entry.1 ∧
    sortBook .Buy input.orders entry.2.1 = .ok book.buyIndices ∧
    sortBook .Sell input.orders entry.2.2 = .ok book.sellIndices) b.books.entries input.orderBooks
  config : input.config = b.config
  oldDepositCursor : input.oldDepositCursor = b.oldDepositCursor
  oldForcedWithdrawalCursor : input.oldForcedWithdrawalCursor = b.oldForcedWithdrawalCursor

theorem build_output (h : b.build = .ok input) : Output b input := by
  simp only [build, Outcome.bind_eq_ok, Except.ok.injEq] at h
  rcases h with ⟨_, hnonces, witness, hwitness, deposits, hdeposits, forced, hforced, orders,
    horders, withdrawals, hwithdrawals, books, hbooks, root, hroot, rfl⟩
  refine ⟨?_, hwitness, hroot, attached_of_mapM hdeposits, attached_of_mapM hforced,
    attached_of_mapM horders, attached_of_mapM hwithdrawals, ?_, rfl, rfl, rfl⟩
  · intro entry hentry
    have hcheck := Outcome.forM_eq_ok.mp hnonces entry hentry
    simp only [Outcome.bind_eq_ok] at hcheck
    rcases hcheck with ⟨next, hnext, _⟩
    exact ⟨next, hnext⟩
  · apply (Outcome.mapM_eq_ok.mp hbooks).imp
    rintro ⟨marketId, buys, sells⟩ book hbook
    simp only [Outcome.bind_eq_ok, Except.ok.injEq] at hbook
    rcases hbook with ⟨buyIndices, hbuys, sellIndices, hsells, rfl⟩
    exact ⟨rfl, hbuys, hsells⟩

/-- A built batch: the witness of the touched accounts, the deposits, and the operations
with the ranks of their accounts. -/
structure Built (builder : BatchBuilder) (input : BatchInput B256) : Prop where
  witness : builder.state.witness builder.touchedAccounts = .ok input.state
  deposits : input.deposits.map Deposit.account = builder.deposits.map Deposit.account
  operations : (operationIndices input).map Prod.snd = builder.operationAccounts
  ranks : ∀ p ∈ operationIndices input,
    ∃ i, accountIndex builder.touchedAccounts.keys p.2 = .ok i ∧ p.1 = some i

theorem build_spec (h : builder.build = .ok input) : Built builder input := by
  have houtput := build_output h
  refine ⟨houtput.state, houtput.deposits.map_eq fun _ _ => rfl, ?_, ?_⟩
  · rw [operationAccounts, ← houtput.orders.map_eq fun _ _ => rfl,
      ← houtput.withdrawals.map_eq fun _ _ => rfl,
      ← houtput.forcedWithdrawals.map_eq fun _ _ => rfl]
    simp [operationIndices, Function.comp_def]
  · intro p hp
    simp only [operationIndices, List.mem_append, List.mem_map] at hp
    rcases hp with (⟨o, hmem, rfl⟩ | ⟨w, hmem, rfl⟩) | ⟨r, hmem, rfl⟩
    · rcases houtput.orders.exists_of_mem hmem with ⟨a, _, i, hi, rfl⟩
      exact ⟨i, hi, rfl⟩
    · rcases houtput.withdrawals.exists_of_mem hmem with ⟨a, _, i, hi, rfl⟩
      exact ⟨i, hi, rfl⟩
    · rcases houtput.forcedWithdrawals.exists_of_mem hmem with ⟨a, _, i, hi, rfl⟩
      exact ⟨i, hi, rfl⟩

/-- The witness holds the touched accounts that exist. -/
theorem witness_ids {tree : AccountTree} {ids : OrderedSet AccountId} {witness : StateWitness B256}
    (hsorted : AccountTree.StateSorted tree.state) (h : tree.witness ids = .ok witness) :
    witness.accounts.map Account.id =
      ids.keys.filter fun id => id ∈ tree.state.accounts.map Account.id := by
  simp only [AccountTree.witness, Outcome.mapError_eq_ok, State.witnessFor, Outcome.bind_eq_ok,
    Except.ok.injEq] at h
  rcases h with ⟨_, _, rfl⟩
  generalize ids.keys = keys
  induction keys with
  | nil => rfl
  | cons k keys ih =>
      cases hsearch : binarySearchByKey Account.id k tree.state.accounts with
      | ok index =>
          rcases hsorted.search_ok_iff.mp hsearch with ⟨a, ha, hid⟩
          have hmem : k ∈ tree.state.accounts.map Account.id :=
            hid ▸ List.mem_map_of_mem (List.mem_of_getElem? ha)
          rw [List.filter_cons_of_pos (by simpa using hmem), ← ih]
          simp [hsearch, ha, hid]
      | error index =>
          have hmem : k ∉ tree.state.accounts.map Account.id := by
            intro hmem
            rcases List.mem_map.mp hmem with ⟨a, ha, hid⟩
            exact (hsorted.search_error_iff.mp ⟨index, hsearch⟩) a ha hid
          rw [List.filter_cons_of_neg (by simpa using hmem), ← ih]
          simp [hsearch]

/-- After the deposits the guest holds the touched accounts that are known. -/
theorem deposited_ids (hsorted : AccountTree.StateSorted builder.state.state) (hinv : Inv builder)
    (hbuilt : Built builder input) {accounts : List Account}
    (h : applyDeposits input.state.accounts input.deposits = .ok accounts) :
    accounts.map Account.id = builder.touchedAccounts.keys.filter fun id => builder.Known id := by
  have hwitness := witness_ids hsorted hbuilt.witness
  have hkeys : builder.touchedAccounts.keys.Pairwise (· < ·) := builder.touchedAccounts.keys_sorted
  have hstart : SortedBy Account.id input.state.accounts := by
    refine List.pairwise_map.mp ?_
    rw [hwitness]
    exact hkeys.filter _
  rcases applyDeposits_ids hstart h with ⟨hfinal, hids⟩
  have hleft : SortedBy id (accounts.map Account.id) := List.pairwise_map.mpr hfinal
  have hright : SortedBy id (builder.touchedAccounts.keys.filter fun id => builder.Known id) :=
    hkeys.filter _
  refine hleft.eq_of_perm hright ?_
  refine (List.perm_ext_iff_of_nodup (hleft.imp fun hab => hab.ne)
    (hright.imp fun hab => hab.ne)).mpr fun id => ?_
  have hdeposit : id ∈ builder.deposits.map Deposit.account →
      id ∈ builder.touchedAccounts.keys := by
    intro hmem
    rw [hinv.mem_touched, participants]
    simp only [List.mem_cons, List.mem_append]
    tauto
  have hknown : builder.Known id ↔ id ∈ builder.state.state.accounts.map Account.id ∨
      id ∈ builder.deposits.map Deposit.account := Iff.rfl
  rw [hids, hwitness, hbuilt.deposits, List.mem_filter, List.mem_filter, decide_eq_true_eq,
    decide_eq_true_eq, hknown]
  tauto

/-- The rank attached to an account. -/
theorem accountIndex_eq_ok {b : BatchBuilder} (hinv : Inv b) {account : AccountId} {i : U32}
    (h : accountIndex b.touchedAccounts.keys account = .ok i) :
    b.touchedAccounts.keys[i.toNat]? = some account := by
  unfold accountIndex at h
  split at h
  · rename_i index hindex
    cases h
    rcases binarySearchBy_ok hindex with ⟨a, ha, hkey⟩
    have hlt : index < b.touchedAccounts.keys.length := (List.getElem?_eq_some_iff.mp ha).1
    have hbound := hinv.bounded
    have hlen : b.touchedAccounts.keys.length = b.touchedAccounts.len := List.length_map _
    have hmax : MAX_TOUCHED_ACCOUNTS_PER_BATCH < 2 ^ 32 := by decide
    rw [BitVec.toNat_ofNat, Nat.mod_eq_of_lt (by omega), ha, Option.some.injEq]
    exact compare_eq_iff_eq.mp hkey
  · cases h

/-- The rank of a known account is its position in the guest exactly when everything in front of it
is known. -/
theorem indexed_iff (hinv : Inv builder) (hbuilt : Built builder input)
    {p : Option U32 × AccountId} (hp : p ∈ operationIndices input) (hknown : builder.Known p.2) :
    IndexedIn (builder.touchedAccounts.keys.filter fun id => builder.Known id) p.1 p.2 ↔
      ∀ ghost ∈ builder.participants, ¬ builder.Known ghost → p.2 < ghost := by
  have hkeys := builder.touchedAccounts.keys_sorted
  rcases hbuilt.ranks p hp with ⟨i, hi, hpi⟩
  have hat := accountIndex_eq_ok hinv hi
  have hposition := getElem?_filter_eq_iff (p := fun id => decide (builder.Known id))
    builder.touchedAccounts.keys_nodup hat (by simpa using hknown)
  have hindexed :
      IndexedIn (builder.touchedAccounts.keys.filter fun id => builder.Known id) p.1 p.2 ↔
      (builder.touchedAccounts.keys.filter fun id => builder.Known id)[i.toNat]? = some p.2 := by
    constructor
    · rintro ⟨j, hj, hget⟩
      rw [hpi, Option.some.injEq] at hj
      rw [hj]
      exact hget
    · exact fun hget => ⟨i, hpi, hget⟩
  rw [hindexed, hposition]
  have hsplit := eq_take_append_cons_drop hat
  rw [hsplit] at hkeys
  rcases List.pairwise_append.mp hkeys with ⟨_, hafter, hcross⟩
  constructor
  · intro hfront ghost hghost hunknown
    rw [← hinv.mem_touched, hsplit, List.mem_append, List.mem_cons] at hghost
    rcases hghost with hghost | rfl | hghost
    · exact absurd (of_decide_eq_true (hfront ghost hghost)) hunknown
    · exact absurd hknown hunknown
    · exact (List.pairwise_cons.mp hafter).1 ghost hghost
  · intro hghosts id hid
    by_contra hunknown
    have hmem : id ∈ builder.participants :=
      (hinv.mem_touched id).mp (List.mem_of_mem_take hid)
    exact lt_asymm (hghosts id hmem (by simpa using hunknown)) (hcross id hid p.2 (by simp))

end BatchBuilder

/-- The attached indices are the positions of the accounts in the guest exactly when, for
every operation on a known account, no participant that is not known is smaller. -/
theorem builder_indices_exact_iff {B256 : Type} [Sha256 B256] {tree : AccountTree}
    (htree : tree.Reachable) (config : ExchangeConfig) (domain : SigningDomain)
    (batchId oldDepositCursor oldForcedWithdrawalCursor : U64) (calls : List BatchBuilder.Call)
    {builder : BatchBuilder} {input : BatchInput B256} {accounts : List Account}
    (hbuilder : builder = (BatchBuilder.new tree config domain batchId oldDepositCursor
      oldForcedWithdrawalCursor).run calls)
    (hbuild : builder.build = .ok input)
    (hdeposits : applyDeposits input.state.accounts input.deposits = .ok accounts) :
    (∀ p ∈ operationIndices input, builder.Known p.2 →
        IndexedIn (accounts.map Account.id) p.1 p.2) ↔
      ∀ account ∈ builder.operationAccounts, builder.Known account →
        ∀ ghost ∈ builder.participants, ¬ builder.Known ghost → account < ghost := by
  obtain ⟨hinv, hstate⟩ := BatchBuilder.run_inv (BatchBuilder.new_inv tree config domain batchId
    oldDepositCursor oldForcedWithdrawalCursor) calls
  rw [← hbuilder] at hinv hstate
  have hsorted : AccountTree.StateSorted builder.state.state := by
    rw [hstate]
    exact htree.sorted
  have hbuilt := BatchBuilder.build_spec hbuild
  rw [BatchBuilder.deposited_ids hsorted hinv hbuilt hdeposits]
  rw [← hbuilt.operations]
  simp only [List.forall_mem_map]
  constructor
  · intro hexact p hp hknown
    exact (BatchBuilder.indexed_iff hinv hbuilt hp hknown).mp (hexact p hp hknown)
  · intro hghosts p hp hknown
    exact (BatchBuilder.indexed_iff hinv hbuilt hp hknown).mpr (hghosts p hp hknown)

/-! ## A small market -/

/-- The tree of the small market. -/
def marketTree : AccountTree :=
  (AccountTree.new marketAccounts).toOption.getD ⟨⟨[]⟩, .empty⟩

/-- Calls that create an account and use it, fill a gap in the nonces late and share the nonces of
an account between orders and withdrawals.  The second buy order is rejected. -/
def marketCalls : List BatchBuilder.Call :=
  [.deposit ⟨0, FixedBytes.replicate 20 4, FixedBytes.replicate 20 8, 6, none⟩,
    .order (marketOrder .Sell 2 4 2 0 7),
    .order (marketOrder .Buy 3 0 4 0 8),
    .order (marketOrder .Buy 3 0 4 0 9),
    .withdraw ⟨⟨FixedBytes.replicate 20 7, 1, FixedBytes.replicate 20 6, 3⟩,
      FixedBytes.replicate 20 2,
      ⟨FixedBytes.replicate 32 2, FixedBytes.replicate 32 0, 0⟩, none⟩,
    .forcedWithdraw ⟨0, FixedBytes.replicate 20 3, FixedBytes.replicate 20 8, 5, none⟩]

/-- The builder of the small market after the calls. -/
def marketBuilder : BatchBuilder :=
  (BatchBuilder.new marketTree marketConfig ⟨1, 1, FixedBytes.replicate 20 9⟩ 0 0 0).run marketCalls

theorem marketTree_reachable : marketTree.Reachable :=
  (AccountTree.inUse_of_isSome (by decide +kernel) _).reachable

/-- The indices of two orders, a withdrawal and a forced withdrawal; the second order is that of an
account which the batch creates. -/
theorem builder_indices_exact_market :
    ∃ (input : BatchInput IdealDigest) (accounts : List Account),
      marketBuilder.build = .ok input ∧
      applyDeposits input.state.accounts input.deposits = .ok accounts ∧
      (operationIndices input).map Prod.snd = [FixedBytes.replicate 20 2,
        FixedBytes.replicate 20 4, FixedBytes.replicate 20 2, FixedBytes.replicate 20 3] ∧
      ((∀ p ∈ operationIndices input, marketBuilder.Known p.2 →
          IndexedIn (accounts.map Account.id) p.1 p.2) ↔
        ∀ account ∈ marketBuilder.operationAccounts, marketBuilder.Known account →
          ∀ ghost ∈ marketBuilder.participants, ¬ marketBuilder.Known ghost → account < ghost) := by
  obtain ⟨input, hbuild⟩ : ∃ input : BatchInput IdealDigest, marketBuilder.build = .ok input :=
    Outcome.exists_of_isOk (by decide +kernel)
  have hchecked : (marketBuilder.build.toOption.map fun input : BatchInput IdealDigest =>
      ((operationIndices input).map Prod.snd,
        (applyDeposits input.state.accounts input.deposits).isOk)) =
      some ([FixedBytes.replicate 20 2, FixedBytes.replicate 20 4, FixedBytes.replicate 20 2,
        FixedBytes.replicate 20 3], true) := by
    decide +kernel
  rw [hbuild] at hchecked
  rcases Prod.mk.inj (Option.some.inj hchecked) with ⟨hoperations, hok⟩
  rcases Outcome.exists_of_isOk hok with ⟨accounts, hdeposits⟩
  refine ⟨input, accounts, hbuild, hdeposits, hoperations, ?_⟩
  exact builder_indices_exact_iff marketTree_reachable marketConfig _ 0 0 0 marketCalls rfl hbuild
    hdeposits

/-! ## A request of an unknown account -/

/-- The tree of the small exchange. -/
def testTree : AccountTree :=
  (AccountTree.new testAccounts).toOption.getD ⟨⟨[]⟩, .empty⟩

/-- An account that the small exchange does not hold, between the two that it holds. -/
def unknownAccount : AccountId :=
  ⟨1 :: List.replicate 19 2, rfl⟩

/-- Requests for three units, one for each of the accounts. -/
def testRequests (accounts : List AccountId) : List BatchBuilder.Call :=
  accounts.zipIdx.map fun (account, id) =>
    .forcedWithdraw ⟨BitVec.ofNat 64 id, account, FixedBytes.replicate 20 7, 3, none⟩

/-- The builder of the small exchange after the requests. -/
def testBuilder (accounts : List AccountId) : BatchBuilder :=
  (BatchBuilder.new testTree testConfig ⟨1, 1, FixedBytes.replicate 20 9⟩ 0 0 0).run
    (testRequests accounts)

theorem testTree_inUse : testTree.InUse :=
  AccountTree.inUse_of_isSome (by decide +kernel) _

theorem testTree_reachable : testTree.Reachable :=
  testTree_inUse.reachable

/-- A request of an unknown account takes the place of the user behind it. -/
theorem builder_indices_not_exact :
    ¬ ∀ (tree : AccountTree) (config : ExchangeConfig) (domain : SigningDomain)
      (batchId oldDepositCursor oldForcedWithdrawalCursor : U64) (calls : List BatchBuilder.Call)
      (builder : BatchBuilder) (input : BatchInput IdealDigest) (accounts : List Account),
      tree.Reachable →
      builder = (BatchBuilder.new tree config domain batchId oldDepositCursor
        oldForcedWithdrawalCursor).run calls →
      builder.build = .ok input →
      applyDeposits input.state.accounts input.deposits = .ok accounts →
      ∀ p ∈ operationIndices input, builder.Known p.2 →
        IndexedIn (accounts.map Account.id) p.1 p.2 := by
  intro hexact
  have hbuilt : ((testBuilder [unknownAccount, FixedBytes.replicate 20 2]).build.toOption.map
      fun input : BatchInput IdealDigest => (operationIndices input,
        (applyDeposits input.state.accounts input.deposits).toOption.map (List.map Account.id))) =
      some ([(some 1, unknownAccount), (some 2, FixedBytes.replicate 20 2)],
        some [FixedBytes.replicate 20 1, FixedBytes.replicate 20 2]) := by
    decide +kernel
  have hknown : (testBuilder [unknownAccount, FixedBytes.replicate 20 2]).Known
      (FixedBytes.replicate 20 2) := by
    decide +kernel
  cases hbuild : ((testBuilder [unknownAccount, FixedBytes.replicate 20 2]).build :
      Outcome BatchBuildError (BatchInput IdealDigest)) with
  | error e =>
      rw [hbuild] at hbuilt
      cases hbuilt
  | ok input =>
      rw [hbuild] at hbuilt
      rcases Prod.mk.inj (Option.some.inj hbuilt) with ⟨hindices, hids⟩
      cases hdeposits : applyDeposits input.state.accounts input.deposits with
      | error e =>
          rw [hdeposits] at hids
          cases hids
      | ok accounts =>
          rw [hdeposits] at hids
          obtain ⟨index, hindex, hat⟩ :=
            hexact _ _ _ _ _ _ _ _ input accounts testTree_reachable rfl
            hbuild hdeposits (some 2, FixedBytes.replicate 20 2) (by rw [hindices]; simp) hknown
          have hids : accounts.map Account.id =
              [FixedBytes.replicate 20 1, FixedBytes.replicate 20 2] :=
            Option.some.inj hids
          rw [hids, ← Option.some.inj hindex] at hat
          cases hat

end ZkClob
