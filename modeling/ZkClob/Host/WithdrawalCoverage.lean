import ZkClob.Host.BuilderOutput
import ZkClob.Settlement.BookUniqueness
import ZkClob.Settlement.WithdrawalSteps
import Mathlib.Algebra.Order.BigOperators.Group.List

/-!
# Admitted withdrawals and what is left for them

The builder admits the withdrawals of an account up to its committed balance.  The guest debits
them only after the forced withdrawals of the batch have been served, and these the builder never
weighs against the withdrawals.

Main results:

- Theorem {lit}`BatchBuilder.run_funded`: the admitted withdrawals of an account never exceed its
  committed balance.
- Theorem {lit}`withdrawals_executable_iff`: they can be executed exactly when the forced
  withdrawals leave enough.
- Theorem {lit}`withdrawals_not_executable`: a request for the whole balance makes the batch of an
  admitted withdrawal fail.
-/

namespace ZkClob

open Foundations

namespace BatchBuilder

/-- What the admitted withdrawals take of an asset out of an account. -/
def withdrawing (self : BatchBuilder) (id : AccountId) (asset : AssetId) : Nat :=
  tally (fun w => w.account = id ∧ w.asset = asset) (fun w => w.amount.toNat) self.withdrawals

/-- What the forced withdrawals ask for of an asset out of an account. -/
def requested (self : BatchBuilder) (id : AccountId) (asset : AssetId) : Nat :=
  tally (fun r => r.account = id ∧ r.asset = asset) (fun r => r.amount.toNat) self.forcedWithdrawals

/-- What the tree and the deposits give an account of an asset. -/
def funds (self : BatchBuilder) (id : AccountId) (asset : AssetId) : Nat :=
  holding self.state.state.accounts id asset +
    tally (fun d => d.account = id ∧ d.asset = asset) (fun d => d.amount.toNat) self.deposits

/-- No participant that the guest will not hold is in front of the account. -/
def Located (self : BatchBuilder) (id : AccountId) : Prop :=
  ∀ ghost ∈ self.participants, ¬ self.Known ghost → id < ghost

instance (self : BatchBuilder) : DecidablePred self.Located := fun id =>
  List.decidableBAll (fun ghost => ¬ self.Known ghost → id < ghost) self.participants

/-- What is left of the funds after the forced withdrawals.  The index attached to a request finds
only an account that is located. -/
def left (self : BatchBuilder) (id : AccountId) (asset : AssetId) : Nat :=
  if self.Located id then self.funds id asset - self.requested id asset else self.funds id asset

variable {b b' : BatchBuilder}

/-! ## What the builder admits -/

/-- The admitted withdrawals of every account are within its committed balance. -/
def Funded (b : BatchBuilder) : Prop :=
  ∀ id asset, b.withdrawing id asset ≤ holding b.state.state.accounts id asset

theorem new_funded (state : AccountTree) (config : ExchangeConfig) (domain : SigningDomain)
    (batchId cursor cursor' : U64) : Funded (new state config domain batchId cursor cursor') :=
  fun _ _ => Nat.zero_le _

/-- A successful checked sum is the sum. -/
theorem foldlM_checkedAdd {α : Type} {amount : α → U128} {l : List α} {start total : U128}
    (h : l.foldlM (fun total a => Outcome.okOr (FixedWidth.checkedAdd total (amount a))
      BatchBuildError.ArithmeticOverflow) start = .ok total) :
    total.toNat = start.toNat + (l.map fun a => (amount a).toNat).sum := by
  induction l generalizing start with
  | nil =>
      simp only [List.foldlM_nil, Outcome.pure_eq_ok] at h
      subst h
      simp
  | cons a l ih =>
      simp only [List.foldlM_cons, Outcome.bind_eq_ok, Outcome.okOr_eq_ok,
        FixedWidth.checkedAdd_eq_some] at h
      rcases h with ⟨next, hnext, hrest⟩
      rw [ih hrest, hnext, List.map_cons, List.sum_cons, Nat.add_assoc]

theorem alreadyWithdrawing_eq_ok {account : AccountId} {asset : AssetId} {total : U128}
    (h : b.alreadyWithdrawing account asset = .ok total) :
    total.toNat = b.withdrawing account asset := by
  rw [foldlM_checkedAdd h, sum_map_filter]
  simp [withdrawing]

/-- An admitted withdrawal stays within the committed balance. -/
theorem withdraw_funded {w : SignedWithdrawal} (hstate : b.state.Coherent)
    (hcanonical : ∀ account ∈ b.state.state.accounts, account.Canonical) (h : Funded b)
    (hcall : b.withdraw w = .ok b') : Funded b' := by
  rcases withdraw_covered hcall with ⟨account, already, haccount, halready, hcovered⟩
  rcases hstate.account_eq_some_iff.mp haccount with ⟨hmem, hid⟩
  rw [alreadyWithdrawing_eq_ok halready, (hcanonical account hmem).balance_eq_total,
    ← holding_eq_total hstate.sorted.nodup_map hmem, hid] at hcovered
  rcases withdraw_eq_ok hcall with ⟨_, _, rfl⟩
  intro id asset
  have hbefore := h id asset
  simp only [withdrawing, tally_append, tally_cons, tally_nil, decide_eq_true_eq] at hbefore ⊢
  by_cases hentry : w.account = id ∧ w.asset = asset
  · rcases hentry with ⟨rfl, rfl⟩
    simpa [withdrawing] using hcovered
  · simpa [hentry] using hbefore

/-- An accepted call keeps the admitted withdrawals within the committed balances. -/
theorem call_funded {c : Call} (hstate : b.state.Coherent)
    (hcanonical : ∀ account ∈ b.state.state.accounts, account.Canonical) (h : Funded b)
    (hcall : b.call c = .ok b') : Funded b' := by
  cases c with
  | deposit d =>
      rcases deposit_eq_ok hcall with ⟨_, _, rfl⟩
      exact h
  | forcedWithdraw r =>
      rcases forcedWithdraw_eq_ok hcall with ⟨_, _, rfl⟩
      exact h
  | order o =>
      rcases order_eq_ok hcall with ⟨_, _, _, _, rfl⟩
      exact h
  | withdraw w => exact withdraw_funded hstate hcanonical h hcall

/-- After every sequence of calls the admitted withdrawals are within the committed balances. -/
theorem run_funded (hstate : b.state.Coherent)
    (hcanonical : ∀ account ∈ b.state.state.accounts, account.Canonical) (h : Funded b)
    (calls : List Call) : Funded (b.run calls) := by
  have hrun : Funded (b.run calls) ∧ (b.run calls).state = b.state := by
    refine run_keeps (P := fun b' => Funded b' ∧ b'.state = b.state) ?_ ⟨h, rfl⟩ calls
    rintro before c after ⟨hfunded, hsame⟩ hcall
    rw [← hsame] at hstate hcanonical
    exact ⟨call_funded hstate hcanonical hfunded hcall, (call_sameSetup hcall).state.trans hsame⟩
  exact hrun.1

/-! ## The ledger of a built batch -/

section

variable {B256 : Type} [Sha256 B256] {input : BatchInput B256}

/-- The index does not change what is tallied. -/
theorem Attached.tally_eq {α : Type} {account : α → AccountId} {attach : α → U32 → α}
    {sortedAccounts : List AccountId} {l m : List α}
    (h : Attached account attach sortedAccounts l m) {p : α → Bool} {f : α → Nat}
    (hp : ∀ a i, p (attach a i) = p a) (hf : ∀ a i, f (attach a i) = f a) :
    tally p f m = tally p f l := by
  unfold tally
  rw [h.map_eq fun a i => by rw [hp, hf]]

/-- The witness holds of a touched account what the tree holds. -/
theorem Output.holding_eq (h : Output b input) (hsorted : AccountTree.StateSorted b.state.state)
    {id : AccountId} (hid : id ∈ b.touchedAccounts.keys) (asset : AssetId) :
    holding input.state.accounts id asset = holding b.state.state.accounts id asset := by
  have hwitness := holding_perm (State.lookup_perm hsorted b.touchedAccounts.keys_nodup) id asset
  have hsplit := holding_perm (List.filter_append_perm
    (fun a : Account => decide (a.id ∈ b.touchedAccounts.keys)) b.state.state.accounts) id asset
  have hothers : holding (b.state.state.accounts.filter
      fun a => !decide (a.id ∈ b.touchedAccounts.keys)) id asset = 0 := by
    apply holding_eq_zero
    rintro account haccount rfl
    have hnot := (List.mem_filter.mp haccount).2
    simp [hid] at hnot
  rw [holding_append, hothers, Nat.add_zero] at hsplit
  rw [h.accounts_eq, hwitness, hsplit]

/-- After the deposits a touched account holds its funds. -/
theorem Output.funds_eq (h : Output b input) (hsorted : AccountTree.StateSorted b.state.state)
    {deposited : List Account}
    (hdeposited : Deposited input.state.accounts deposited input.deposits) {id : AccountId}
    (hid : id ∈ b.touchedAccounts.keys) (asset : AssetId) :
    holding deposited id asset = b.funds id asset := by
  rw [hdeposited.holding, h.holding_eq hsorted hid, funds,
    h.deposits.tally_eq (fun _ _ => rfl) (fun _ _ => rfl)]

/-- The supply of the accounts of a batch, account by account. -/
theorem supply_eq_sum_touched {accounts : List Account}
    (hids : ∀ a ∈ accounts, a.id ∈ b.touchedAccounts.keys) (asset : AssetId) :
    supply accounts asset = (b.touchedAccounts.keys.map fun id => holding accounts id asset).sum :=
  (sum_map_tally b.touchedAccounts.keys_nodup hids).symm

/-- After the forced withdrawals a touched account holds what is left. -/
theorem Output.left_eq (h : Output b input) (hsorted : AccountTree.StateSorted b.state.state)
    (hinv : Inv b) (hbuilt : Built b input) (hcanonical : AccountsCanonical input.state.accounts)
    {deposited drained : List Account} {executed : List ForcedWithdrawal}
    (hdeposited : applyDeposits input.state.accounts input.deposits = .ok deposited)
    (hdrained : applyForcedWithdrawals deposited input.forcedWithdrawals = .ok (drained, executed))
    {id : AccountId} (hid : id ∈ b.touchedAccounts.keys) (asset : AssetId) :
    holding drained id asset = b.left id asset := by
  have hspec := applyDeposits_spec hcanonical hdeposited
  have hids := deposited_ids hsorted hinv hbuilt hdeposited
  have hlocated : ∀ r ∈ input.forcedWithdrawals, r.account ∈ deposited.map Account.id →
      (IndexedIn (deposited.map Account.id) r.accountIndex r.account ↔ b.Located r.account) := by
    intro r hr hmem
    rw [hids] at hmem ⊢
    have hknown : b.Known r.account := of_decide_eq_true (List.mem_filter.mp hmem).2
    have hoperation : (r.accountIndex, r.account) ∈ operationIndices input :=
      List.mem_append_right _ (List.mem_map.mpr ⟨r, hr, rfl⟩)
    exact indexed_iff hinv hbuilt hoperation hknown
  rw [applyForcedWithdrawals_holding hspec.accountsCanonical hlocated hdrained,
    h.funds_eq hsorted hspec hid, left, requested,
    h.forcedWithdrawals.tally_eq (fun _ _ => rfl) (fun _ _ => rfl)]

/-- All accounts together hold what is left of the funds. -/
theorem Output.supply_left (h : Output b input)
    (hsorted : AccountTree.StateSorted b.state.state) (hinv : Inv b) (hbuilt : Built b input)
    (hcanonical : AccountsCanonical input.state.accounts)
    {deposited drained : List Account} {executed : List ForcedWithdrawal}
    (hdeposited : applyDeposits input.state.accounts input.deposits = .ok deposited)
    (hdrained : applyForcedWithdrawals deposited input.forcedWithdrawals = .ok (drained, executed))
    (asset : AssetId) :
    supply drained asset = (b.touchedAccounts.keys.map fun id => b.left id asset).sum := by
  have hspec := applyDeposits_spec hcanonical hdeposited
  have hsame := (applyForcedWithdrawals_spec hspec.accountsCanonical hdrained).1
  have hids : ∀ a ∈ drained, a.id ∈ b.touchedAccounts.keys := by
    intro a ha
    have hmem : a.id ∈ drained.map Account.id := List.mem_map_of_mem ha
    rw [hsame.ids, deposited_ids hsorted hinv hbuilt hdeposited] at hmem
    exact (List.mem_filter.mp hmem).1
  rw [supply_eq_sum_touched hids]
  congr 1
  apply List.map_congr_left
  intro id hid
  exact h.left_eq hsorted hinv hbuilt hcanonical hdeposited hdrained hid asset

/-- The account of an admitted withdrawal is touched. -/
theorem touched_of_withdrawal (hinv : Inv b) : ∀ w ∈ b.withdrawals,
    w.account ∈ b.touchedAccounts.keys := by
  intro w hw
  rw [hinv.mem_touched, participants]
  simp only [List.mem_cons, List.mem_append, List.mem_map]
  exact Or.inr (Or.inr ⟨w, hw, rfl⟩)

theorem withdrawing_eq_zero (hinv : Inv b) {id : AccountId} (hid : id ∉ b.touchedAccounts.keys)
    (asset : AssetId) : b.withdrawing id asset = 0 := by
  apply tally_eq_zero
  intro w hw
  apply decide_eq_false
  rintro ⟨rfl, _⟩
  exact hid (touched_of_withdrawal hinv w hw)

/-- The drained accounts cover their withdrawals when what is left does: an account that is not
touched has none. -/
theorem Output.covers_iff (h : Output b input) (hsorted : AccountTree.StateSorted b.state.state)
    (hinv : Inv b) (hbuilt : Built b input) (hcanonical : AccountsCanonical input.state.accounts)
    {deposited drained : List Account} {executed : List ForcedWithdrawal}
    (hdeposited : applyDeposits input.state.accounts input.deposits = .ok deposited)
    (hdrained : applyForcedWithdrawals deposited input.forcedWithdrawals =
      .ok (drained, executed)) :
    (∀ id x, b.withdrawing id x ≤ holding drained id x) ↔
      ∀ id x, b.withdrawing id x ≤ b.left id x := by
  refine forall_congr' fun id => forall_congr' fun x => ?_
  by_cases hid : id ∈ b.touchedAccounts.keys
  · rw [h.left_eq hsorted hinv hbuilt hcanonical hdeposited hdrained hid]
  · simp [withdrawing_eq_zero hinv hid]

/-- The withdrawals of an asset are within the funds when those of every account are. -/
theorem Funded.sum_le (h : Funded b) (hinv : Inv b) (asset : AssetId) :
    tally (fun w => w.asset = asset) (fun w => w.amount.toNat) b.withdrawals ≤
      (b.touchedAccounts.keys.map fun id => b.funds id asset).sum := by
  rw [← sum_map_tally_and b.touchedAccounts.keys_nodup (touched_of_withdrawal hinv)]
  apply List.sum_le_sum
  intro id _
  exact (h id asset).trans (Nat.le_add_right _ _)

/-- The accounts and the deposits of a batch are the funds of the touched accounts. -/
theorem Output.sum_funds (h : Output b input) (hsorted : AccountTree.StateSorted b.state.state)
    (hinv : Inv b) (asset : AssetId) :
    (b.touchedAccounts.keys.map fun id => b.funds id asset).sum =
      supply input.state.accounts asset +
      tally (fun d => d.asset = asset) (fun d => d.amount.toNat) input.deposits := by
  have hwitnessed : ∀ a ∈ input.state.accounts, a.id ∈ b.touchedAccounts.keys := by
    intro a ha
    rw [h.accounts_eq, List.mem_filterMap] at ha
    rcases ha with ⟨id, hid, hfound⟩
    exact ((State.lookup_eq_some_iff hsorted).mp hfound).2 ▸ hid
  have hdeposited : ∀ d ∈ b.deposits, d.account ∈ b.touchedAccounts.keys := by
    intro d hd
    rw [hinv.mem_touched, participants]
    simp only [List.mem_cons, List.mem_append, List.mem_map]
    exact Or.inr (Or.inl (Or.inl (Or.inl ⟨d, hd, rfl⟩)))
  rw [supply_eq_sum_touched hwitnessed, h.deposits.tally_eq (fun _ _ => rfl) (fun _ _ => rfl),
    ← sum_map_tally_and b.touchedAccounts.keys_nodup hdeposited, ← List.sum_map_add]
  congr 1
  apply List.map_congr_left
  intro id hid
  rw [funds, h.holding_eq hsorted hid]

end

/-! ## When the withdrawals can be executed -/

/-- What the withdrawals of a batch that passes its checks find.  The first part matters only in a
tree that has outgrown its index: everywhere else the builder has seen to it. -/
structure Covered {B256 : Type} [Sha256 B256] [Secp256k1 B256] (builder : BatchBuilder)
    (input : BatchInput B256) : Prop where
  tracked : 2 ^ 32 < builder.state.state.accounts.length → (∃ t, ReachesTracker input t) → ∀ x,
    tally (fun w => w.asset = x) (fun w => w.amount.toNat) builder.withdrawals ≤
      (builder.touchedAccounts.keys.map fun id => builder.funds id x).sum
  drained : ∀ deposited, ChecksPass input deposited → ∀ x,
    tally (fun w => w.asset = x) (fun w => w.amount.toNat) builder.withdrawals ≤
      (builder.touchedAccounts.keys.map fun id => builder.left id x).sum
  debited : ∀ deposited, ChecksPass input deposited → OperationsPass input deposited →
    ∀ id x, builder.withdrawing id x ≤ builder.left id x

end BatchBuilder

/-- The withdrawals that a builder has admitted can be executed exactly when they are covered by
what the forced withdrawals leave. -/
theorem withdrawals_executable_iff {B256 : Type} [Sha256 B256] [Secp256k1 B256] {tree : AccountTree}
    (htree : tree.Reachable) (hcanonical : ∀ account ∈ tree.state.accounts, account.Canonical)
    (config : ExchangeConfig) (domain : SigningDomain)
    (batchId oldDepositCursor oldForcedWithdrawalCursor : U64) (calls : List BatchBuilder.Call)
    {builder : BatchBuilder} {input : BatchInput B256}
    (hbuilder : builder = (BatchBuilder.new tree config domain batchId oldDepositCursor
      oldForcedWithdrawalCursor).run calls)
    (hbuild : builder.build = .ok input) :
    WithdrawalsExecutable input ↔ builder.Covered input := by
  rcases BatchBuilder.run_inv (BatchBuilder.new_inv tree config domain batchId oldDepositCursor
    oldForcedWithdrawalCursor) calls with ⟨hinv, hstate⟩
  rw [← hbuilder] at hinv hstate
  have hstate : builder.state = tree := hstate
  have hsorted : AccountTree.StateSorted builder.state.state := by
    rw [hstate]
    exact htree.sorted
  have hbuilt := BatchBuilder.build_spec hbuild
  have houtput := BatchBuilder.build_output hbuild
  -- the withdrawals of the batch are those of the builder
  have hwithdrawals : ∀ x,
      tally (fun w => w.asset = x) (fun w => w.amount.toNat) input.withdrawals =
      tally (fun w => w.asset = x) (fun w => w.amount.toNat) builder.withdrawals :=
    fun x => houtput.withdrawals.tally_eq (fun _ _ => rfl) (fun _ _ => rfl)
  have hwithdrawing : ∀ id x, tally (fun w => w.account = id ∧ w.asset = x)
      (fun w => w.amount.toNat) input.withdrawals = builder.withdrawing id x :=
    fun id x => houtput.withdrawals.tally_eq (fun _ _ => rfl) (fun _ _ => rfl)
  -- a tree within the range of its index covers them itself
  have hfunded : builder.state.state.accounts.length ≤ 2 ^ 32 → builder.Funded := by
    intro hbounded
    rw [hstate] at hbounded
    rw [hbuilder]
    exact BatchBuilder.run_funded (htree.coherent hbounded) hcanonical
      (BatchBuilder.new_funded tree config domain batchId oldDepositCursor
        oldForcedWithdrawalCursor) calls
  -- what the drained accounts hold is what the requests leave
  have hleft : ∀ deposited drained executed, ChecksPass input deposited →
      applyForcedWithdrawals deposited input.forcedWithdrawals = .ok (drained, executed) →
      (∀ x, supply drained x = (builder.touchedAccounts.keys.map fun id => builder.left id x).sum) ∧
      ((∀ id x, builder.withdrawing id x ≤ holding drained id x) ↔
        ∀ id x, builder.withdrawing id x ≤ builder.left id x) := by
    intro deposited drained executed hchecks hdrained
    have hwitness := hchecks.canonical
    have hdeposited := hchecks.applyDeposits
    exact ⟨houtput.supply_left hsorted hinv hbuilt hwitness hdeposited hdrained,
      houtput.covers_iff hsorted hinv hbuilt hwitness hdeposited hdrained⟩
  rw [withdrawalsExecutable_iff]
  simp only [hwithdrawals, hwithdrawing, ← houtput.sum_funds hsorted hinv]
  constructor
  · rintro ⟨htracked, hrest⟩
    -- the requests can always be served
    have hserved : ∀ deposited, ChecksPass input deposited →
        (∀ x, tally (fun w => w.asset = x) (fun w => w.amount.toNat) builder.withdrawals ≤
          (builder.touchedAccounts.keys.map fun id => builder.left id x).sum) ∧
        (OperationsPass input deposited → ∀ id x,
          builder.withdrawing id x ≤ builder.left id x) := by
      intro deposited hchecks
      have hspec := applyDeposits_spec hchecks.canonical hchecks.applyDeposits
      rcases exists_applyForcedWithdrawals hspec.accountsCanonical input.forcedWithdrawals with
        ⟨drained, executed, hdrained⟩
      rcases hleft deposited drained executed hchecks hdrained with ⟨hsupply, hheld⟩
      rcases hrest deposited drained executed hchecks hdrained with ⟨hall, heach⟩
      simp only [hsupply] at hall
      exact ⟨hall, fun hoperations => hheld.mp (heach hoperations)⟩
    exact ⟨fun _ => htracked, fun deposited hchecks => (hserved deposited hchecks).1,
      fun deposited hchecks => (hserved deposited hchecks).2⟩
  · intro hcovered
    refine ⟨fun hreached => ?_, fun deposited drained executed hchecks hdrained => ?_⟩
    · rcases Nat.lt_or_ge (2 ^ 32) builder.state.state.accounts.length with hlarge | hbounded
      · exact hcovered.tracked hlarge hreached
      · exact fun x => (hfunded hbounded).sum_le hinv x
    · rcases hleft deposited drained executed hchecks hdrained with ⟨hsupply, hheld⟩
      simp only [hsupply]
      exact ⟨hcovered.drained deposited hchecks,
        fun hoperations => hheld.mpr (hcovered.debited deposited hchecks hoperations)⟩

/-! ## A withdrawal against a request -/

/-- The user of the small exchange withdraws three of five units and asks for some of them at the
contract, too. -/
def contestedCalls (requested : U128) : List BatchBuilder.Call :=
  [.withdraw ⟨⟨FixedBytes.replicate 20 7, 3, FixedBytes.replicate 20 6, 3⟩,
      FixedBytes.replicate 20 2,
      ⟨FixedBytes.replicate 32 2, FixedBytes.replicate 32 0, 0⟩, none⟩,
    .forcedWithdraw ⟨0, FixedBytes.replicate 20 2, FixedBytes.replicate 20 7, requested, none⟩]

/-- The builder of the small exchange after both calls. -/
def contestedBuilder (requested : U128) : BatchBuilder :=
  (BatchBuilder.new testTree testConfig ⟨1, 1, FixedBytes.replicate 20 9⟩ 0 0 0).run
    (contestedCalls requested)

/-- The batch that it builds. -/
def contestedBatch (requested : U128) : BatchInput IdealDigest where
  domain := ⟨1, 1, FixedBytes.replicate 20 9⟩
  batchId := 0
  expectedOldStateRoot := testRoot
  state := ⟨testAccounts, ⟨testAccounts.map Account.id, []⟩⟩
  oldDepositCursor := 0
  deposits := []
  oldForcedWithdrawalCursor := 0
  forcedWithdrawals :=
    [⟨0, FixedBytes.replicate 20 2, FixedBytes.replicate 20 7, requested, some 1⟩]
  orders := []
  withdrawals := [⟨⟨FixedBytes.replicate 20 7, 3, FixedBytes.replicate 20 6, 3⟩,
    FixedBytes.replicate 20 2,
    ⟨FixedBytes.replicate 32 2, FixedBytes.replicate 32 0, 0⟩, some 1⟩]
  orderBooks := []
  config := testConfig

theorem testTree_canonical : ∀ account ∈ testTree.state.accounts, account.Canonical := by
  have haccounts : validateAccounts testTree.state.accounts = .ok () := by decide +kernel
  exact (validateAccounts_spec haccounts).canonical

/-- A request for two units leaves enough for the withdrawal. -/
theorem withdrawals_executable_contested :
    ∃ output, (contestedBuilder 2).build = .ok (contestedBatch 2) ∧
      @settleBatch IdealDigest _ testSecp256k1 _ (contestedBatch 2) = .ok output ∧
      @BatchBuilder.Covered IdealDigest _ testSecp256k1 (contestedBuilder 2)
        (contestedBatch 2) := by
  have hbuild : (contestedBuilder 2).build = .ok (contestedBatch 2) := by decide +kernel
  rcases Outcome.exists_of_isOk (show (@settleBatch IdealDigest _ testSecp256k1 _
    (contestedBatch 2)).isOk = true by decide +kernel) with ⟨output, hsettled⟩
  refine ⟨output, hbuild, hsettled, ?_⟩
  apply (@withdrawals_executable_iff IdealDigest _ testSecp256k1 testTree testTree_reachable
    testTree_canonical testConfig _ 0 0 0 (contestedCalls 2) _ _ rfl hbuild).mp
  -- the batch goes through, so none of the steps fails
  by_contra hfails
  rcases @exists_error_of_not_executable IdealDigest _ _ testSecp256k1 _ hfails with ⟨fault, hfault⟩
  cases hsettled.symm.trans hfault

/-- The checks of the batch pass when all five units are asked for. -/
theorem checksPass_contestedBatch : ChecksPass (contestedBatch 5) testAccounts := by
  rcases Outcome.exists_of_isOk (show (AssetTracker.default.addAccounts testAccounts).isOk = true by
    decide +kernel) with ⟨t, ht⟩
  refine ⟨⟨t, ?_⟩, by decide +kernel, by decide +kernel⟩
  exact {
    limits := by decide +kernel
    config := by decide +kernel
    accounts := by decide +kernel
    deposits := ⟨0, by decide +kernel⟩
    oldRoot := by decide +kernel
    tracked := ⟨t, ht, rfl⟩ }

/-- A request for all five units leaves nothing for the withdrawal, which the builder has admitted
all the same. -/
theorem withdrawals_not_executable :
    ¬ ∀ (secp : Secp256k1 IdealDigest) (tree : AccountTree) (config : ExchangeConfig)
      (domain : SigningDomain) (batchId oldDepositCursor oldForcedWithdrawalCursor : U64)
      (calls : List BatchBuilder.Call) (builder : BatchBuilder) (input : BatchInput IdealDigest),
      tree.Reachable → (∀ account ∈ tree.state.accounts, account.Canonical) →
      builder = (BatchBuilder.new tree config domain batchId oldDepositCursor
        oldForcedWithdrawalCursor).run calls →
      builder.build = .ok input →
      (∀ o ∈ input.orders, @SignedOperation.hasValidSignature IdealDigest _ _ _ secp o.signedOrder
        (hash input.domain) = true) →
      (∀ w ∈ input.withdrawals, @SignedOperation.hasValidSignature IdealDigest _ _ _ secp w
        (hash input.domain) = true) →
      @WithdrawalsExecutable IdealDigest _ secp input := by
  intro hclaim
  have hsigned : ∀ w ∈ (contestedBatch 5).withdrawals,
      @SignedOperation.hasValidSignature IdealDigest _ _ _ testSecp256k1 w
        (hash (contestedBatch 5).domain) = true := by
    decide +kernel
  have hexecutable := hclaim testSecp256k1 testTree testConfig ⟨1, 1, FixedBytes.replicate 20 9⟩
    0 0 0 (contestedCalls 5) (contestedBuilder 5) (contestedBatch 5) testTree_reachable
    testTree_canonical rfl (by decide +kernel) (fun _ ho => by cases ho) hsigned
  have hdrained : applyForcedWithdrawals testAccounts (contestedBatch 5).forcedWithdrawals =
      .ok ([⟨FixedBytes.replicate 20 1, [], 0⟩, ⟨FixedBytes.replicate 20 2, [], 3⟩],
        (contestedBatch 5).forcedWithdrawals) := by
    decide +kernel
  have hcovered := ((@withdrawalsExecutable_iff IdealDigest _ _ testSecp256k1).mp hexecutable).2 _ _
    _ checksPass_contestedBatch hdrained
  have hlacks : ¬ tally (fun w => w.asset = FixedBytes.replicate 20 7) (fun w => w.amount.toNat)
      (contestedBatch 5).withdrawals ≤
      supply [⟨FixedBytes.replicate 20 1, [], 0⟩, ⟨FixedBytes.replicate 20 2, [], 3⟩]
        (FixedBytes.replicate 20 7) := by
    decide +kernel
  exact hlacks (hcovered.1 _)

end ZkClob
