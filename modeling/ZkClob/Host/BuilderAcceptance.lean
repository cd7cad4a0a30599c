import ZkClob.Host.BuilderOutput
import ZkClob.Host.Synchrony

/-!
# The guest accepts how the builder builds

The rules of a batch are implemented twice, once by the builder for one call after the other and
once by the guest for the complete batch.  A batch that the builder builds can still fail in the
guest, for a bad signature or because a balance does not suffice, but never for how it is put
together.  The accounts must fit the index of the tree: an update that overflows it leaves accounts
behind that the tree no longer finds, and takes their next nonce to be zero.

Main results:

- Theorem {lit}`built_passes_checks`: a built batch never fails with a structural error.
- Theorem {lit}`built_fails_checks`: in a tree that has outgrown its index it does.
-/

namespace ZkClob

open Foundations Patricia

/-- What the builder builds out of any calls, accepted or rejected, never fails in the guest for how
it is put together. -/
theorem built_passes_checks {B256 : Type} [Sha256 B256] [Secp256k1 B256] [DecidableEq B256]
    {tree : AccountTree} (htree : tree.Reachable) (hbounded : tree.state.accounts.length ≤ 2 ^ 32)
    (hcanonical : ∀ account ∈ tree.state.accounts, account.Canonical) (config : ExchangeConfig)
    (hconfig : validateConfig config tree.state.accounts = .ok ())
    (hassets : config.assets.length ≤ MAX_ASSETS) (hmarkets : config.markets.length ≤ MAX_MARKETS)
    (domain : SigningDomain) (batchId oldDepositCursor oldForcedWithdrawalCursor : U64)
    (calls : List BatchBuilder.Call) {builder : BatchBuilder} {input : BatchInput B256}
    (hbuilder : builder = (BatchBuilder.new tree config domain batchId oldDepositCursor
      oldForcedWithdrawalCursor).run calls)
    (hdepositIds : ∀ d ∈ builder.deposits, d.id.toNat < 2 ^ 64 - 1)
    (hforcedIds : ∀ r ∈ builder.forcedWithdrawals, r.id.toNat < 2 ^ 64 - 1)
    (hforced : ∀ r ∈ builder.forcedWithdrawals, builder.Known r.account)
    (hbuild : builder.build = .ok input) :
    ∀ e, settleBatch input = .error (.error e) → e.structural = false := by
  have hcoherent := htree.coherent hbounded
  have hstart : (BatchBuilder.new tree config domain batchId oldDepositCursor
      oldForcedWithdrawalCursor).state.Coherent := hcoherent
  have hinv := (BatchBuilder.run_inv (BatchBuilder.new_inv tree config domain batchId
    oldDepositCursor oldForcedWithdrawalCursor) calls).1
  rcases BatchBuilder.run_accepted hstart (BatchBuilder.new_accepted tree config domain batchId
    oldDepositCursor oldForcedWithdrawalCursor) calls with ⟨haccepted, hsame⟩
  rw [← hbuilder] at hinv haccepted hsame
  have hstate : builder.state = tree := hsame.state
  have hsetup : builder.config = config := hsame.config
  have hwell : WellFormed input builder.touchedAccounts.keys := by
    apply BatchBuilder.wellFormed_of_build _ _ _ _ _ hinv haccepted hdepositIds hforcedIds hforced
      hbuild
    · rw [hstate]
      exact hcoherent
    · rw [hstate]
      exact ⟨htree.sorted, hcanonical⟩
    · rw [hstate, hsetup]
      exact hconfig
    · rw [hsetup]
      exact hassets
    · rw [hsetup]
      exact hmarkets
  intro e he
  exact hwell.settleBatch_failsWith (.error e) he e rfl

/-! ## A batch whose signatures are refused -/

/-- A signature scheme that refuses all signatures. -/
@[reducible]
def refusingSecp256k1 : Secp256k1 IdealDigest where
  fromCompact _ _ _ := false
  isNormalized _ _ := false
  recoverEcdsa _ _ _ _ := none
  keccak256 _ := FixedBytes.replicate 32 0

/-- With that scheme the batch of the small market fails for a signature. -/
theorem built_passes_checks_market :
    ∃ input : BatchInput IdealDigest, marketBuilder.build = .ok input ∧
      @settleBatch IdealDigest _ refusingSecp256k1 _ input =
        .error (.error .InvalidWithdrawalSignature) ∧
      SettlementError.InvalidWithdrawalSignature.structural = false := by
  rcases Outcome.exists_of_isOk (show (marketBuilder.build :
    Outcome BatchBuildError (BatchInput IdealDigest)).isOk = true by decide +kernel) with
    ⟨input, hbuild⟩
  have hrefused : (marketBuilder.build.toOption.map fun input : BatchInput IdealDigest =>
      (@settleBatch IdealDigest _ refusingSecp256k1 _ input).map fun _ => ()) =
      some (.error (.error .InvalidWithdrawalSignature)) := by
    decide +kernel
  rw [hbuild] at hrefused
  have hsettled : @settleBatch IdealDigest _ refusingSecp256k1 _ input =
      .error (.error .InvalidWithdrawalSignature) := by
    have hmapped : (@settleBatch IdealDigest _ refusingSecp256k1 _ input).map (fun _ => ()) =
      .error (.error .InvalidWithdrawalSignature) := Option.some.inj hrefused
    cases hresult : @settleBatch IdealDigest _ refusingSecp256k1 _ input with
    | ok output =>
        rw [hresult] at hmapped
        cases hmapped
    | error fault =>
        rw [hresult] at hmapped
        cases hmapped
        rfl
  have haccounts : validateAccounts marketTree.state.accounts = .ok () := by decide +kernel
  refine ⟨input, hbuild, hsettled, ?_⟩
  exact @built_passes_checks IdealDigest _ refusingSecp256k1 _ marketTree marketTree_reachable
    (by decide +kernel) (validateAccounts_spec haccounts).canonical marketConfig
    (by decide +kernel) (by decide) (by decide) ⟨1, 1, FixedBytes.replicate 20 9⟩ 0 0 0
    marketCalls _ input rfl (by decide +kernel) (by decide +kernel) (by decide +kernel) hbuild _
    hsettled

/-! ## A tree that has outgrown its index -/

/-- An account behind all others. -/
def lastAccount : Account := ⟨FixedBytes.replicate 20 255, [], 1⟩

theorem le_lastAccount (id : AccountId) : id ≤ lastAccount.id := by
  apply le_of_not_gt
  intro hlt
  have hvalue := FixedBytes.lt_iff_beValue_lt.mp hlt
  have hmax : lastAccount.id.beValue = 256 ^ 20 - 1 := by
    with_unfolding_all rfl
  have hbound := id.beValue_lt
  omega

/-- A failed update leaves a tree with an account that it does not find. -/
theorem exists_outgrown : ∃ tree : AccountTree, tree.Reachable ∧
    tree.state.accounts.Perm (lastAccount :: crowd (2 ^ 32 - 1)) ∧
    tree.account lastAccount.id = none := by
  have hnodup : ((crowd (2 ^ 32 - 1)).map Account.id).Nodup := crowd_nodup (by omega)
  have hlength := length_crowd (2 ^ 32 - 1)
  have hstranger : lastAccount.id ∉ (crowd (2 ^ 32 - 1)).map Account.id := by
    rw [crowd, List.map_cons, List.mem_cons, List.map_map]
    rintro (heq | hmem)
    · exact absurd heq (by decide)
    · exact crowd_ids_ne (by decide) hmem
  generalize crowd (2 ^ 32 - 1) = accounts at hnodup hlength hstranger ⊢
  rcases AccountTree.exists_new hnodup (by omega) with ⟨tree, hnew, hstate⟩
  have hperm : tree.state.accounts.Perm accounts := hstate ▸ sortByKey_perm Account.id accounts
  have hcoherent := AccountTree.new_coherent hnew
  have hreachable : (tree.apply [lastAccount]).2.Reachable := .apply (.new hnew) [lastAccount]
  have hsingle : ([lastAccount].map Account.id).Nodup := List.nodup_singleton _
  rcases hcoherent.apply_eq hsingle with
    ⟨state, hsorted, hupdated, happly⟩
  -- the update adds the account
  have hothers : tree.state.accounts.filter (fun a => a.id ∉ [lastAccount].map Account.id) =
      tree.state.accounts := by
    apply List.filter_eq_self.mpr
    intro account haccount
    apply decide_eq_true
    rw [List.map_singleton, List.mem_singleton]
    intro hid
    exact hstranger ((hperm.map Account.id).mem_iff.mp (hid ▸ List.mem_map_of_mem haccount))
  have hall : state.accounts.Perm (lastAccount :: accounts) := by
    rw [AccountTree.updatedAccounts, hothers] at hupdated
    exact (hupdated.trans (List.perm_append_singleton _ _)).trans (hperm.cons lastAccount)
  have hcount : state.accounts.length = 2 ^ 32 + 1 := by
    rw [hall.length_eq, List.length_cons, hlength]
    omega
  -- it stands behind all others, out of the range of the index
  have hlast : (state.accounts.map Account.id)[2 ^ 32]? = some lastAccount.id := by
    have hmem : lastAccount ∈ state.accounts := hall.mem_iff.mpr List.mem_cons_self
    rcases List.mem_iff_getElem?.mp hmem with ⟨position, hposition⟩
    have hlt := (List.getElem?_eq_some_iff.mp hposition).1
    have hend : position = 2 ^ 32 := by
      by_contra hne
      have hbehind : state.accounts[position + 1]? = some state.accounts[position + 1] :=
        List.getElem?_eq_getElem (by omega)
      have hless := List.pairwise_iff_getElem.mp hsorted position (position + 1) hlt (by omega)
        (Nat.lt_succ_self _)
      rw [(List.getElem?_eq_some_iff.mp hposition).2] at hless
      exact absurd hless (not_lt.mpr (le_lastAccount _))
    rw [List.getElem?_map, ← hend, hposition, Option.map_some]
  refine ⟨(tree.apply [lastAccount]).2, hreachable, ?_, ?_⟩
  · rw [happly]
    exact hall
  · rw [happly]
    unfold AccountTree.account
    rw [AccountTree.reindex_get_of_late hsorted.nodup_map hlast le_rfl, OrderedMap.get_empty]
    rfl

/-- A deposit for the last account, and an order with its lowest nonce. -/
def lateCalls : List BatchBuilder.Call :=
  [.deposit ⟨0, FixedBytes.replicate 20 255, FixedBytes.replicate 20 7, 4, none⟩,
    .order (marketOrder .Sell 1 0 255 0 0)]

/-- The builder after the deposit for the last account. -/
def lateDepositBuilder (tree : AccountTree) : BatchBuilder :=
  { BatchBuilder.new tree marketConfig ⟨1, 1, FixedBytes.replicate 20 9⟩ 0 0 0 with
    touchedAccounts := OrderedSet.add (OrderedSet.add .empty (FixedBytes.replicate 20 1))
      (FixedBytes.replicate 20 255)
    deposits := [⟨0, FixedBytes.replicate 20 255, FixedBytes.replicate 20 7, 4, none⟩] }

/-- The builder after both calls. -/
def lateBuilder (tree : AccountTree) : BatchBuilder :=
  { lateDepositBuilder tree with
    orders := [marketOrder .Sell 1 0 255 0 0]
    sequences := OrderedSet.add .empty 0
    nonces := OrderedMap.insert .empty (FixedBytes.replicate 20 255) (OrderedSet.add .empty 0)
    books := OrderedMap.insert .empty (FixedBytes.replicate 32 5) ([], [0]) }

theorem run_lateCalls {tree : AccountTree} (hnone : tree.account lastAccount.id = none) :
    (BatchBuilder.new tree marketConfig ⟨1, 1, FixedBytes.replicate 20 9⟩ 0 0 0).run lateCalls =
      lateBuilder tree := by
  have hdeposit : (BatchBuilder.new tree marketConfig ⟨1, 1, FixedBytes.replicate 20 9⟩ 0 0 0).step
      (.deposit ⟨0, FixedBytes.replicate 20 255, FixedBytes.replicate 20 7, 4, none⟩) =
      lateDepositBuilder tree := by
    with_unfolding_all rfl
  have horder : (lateDepositBuilder tree).order (marketOrder .Sell 1 0 255 0 0) =
      .ok (lateBuilder tree) := by
    have hheld : (lateDepositBuilder tree).state.account
        (marketOrder .Sell 1 0 255 0 0).trader = none := hnone
    have hnext : (lateDepositBuilder tree).nextNonce
        (marketOrder .Sell 1 0 255 0 0).trader = 0 := by
      rw [BatchBuilder.nextNonce, hheld]
    simp only [BatchBuilder.order, hheld, hnext]
    with_unfolding_all rfl
  rw [lateCalls, BatchBuilder.run, List.foldl_cons, List.foldl_cons, List.foldl_nil, hdeposit]
  unfold BatchBuilder.step
  rw [BatchBuilder.call, horder]

/-- The batch of the two calls. -/
def lateBatch (root : IdealDigest) (proof : StateMultiproof IdealDigest) :
    BatchInput IdealDigest where
  domain := ⟨1, 1, FixedBytes.replicate 20 9⟩
  batchId := 0
  expectedOldStateRoot := root
  state := ⟨[⟨FixedBytes.replicate 20 1, [], 0⟩, lastAccount], proof⟩
  oldDepositCursor := 0
  deposits := [⟨0, FixedBytes.replicate 20 255, FixedBytes.replicate 20 7, 4, some 1⟩]
  oldForcedWithdrawalCursor := 0
  forcedWithdrawals := []
  orders := [marketOrder .Sell 1 0 255 1 0]
  withdrawals := []
  orderBooks := [⟨FixedBytes.replicate 32 5, [], [0]⟩]
  config := marketConfig

/-- In the guest the next nonce of the last account is one. -/
theorem settleBatch_lateBatch {root : IdealDigest} {proof : StateMultiproof IdealDigest}
    (hroot : (lateBatch root proof).state.root = .ok root) :
    @settleBatch IdealDigest _ testSecp256k1 _ (lateBatch root proof) =
      .error (.error .InvalidNonce) := by
  have hlimits : validateLimits (lateBatch root proof) = .ok () := by
    with_unfolding_all rfl
  have hconfig : validateConfig (lateBatch root proof).config
      (lateBatch root proof).state.accounts =
      .ok () := by
    with_unfolding_all rfl
  have haccounts : validateAccounts (lateBatch root proof).state.accounts = .ok () := by
    with_unfolding_all rfl
  have hdeposits : validateDeposits (lateBatch root proof).deposits
      (lateBatch root proof).oldDepositCursor (lateBatch root proof).config = .ok 1 := by
    with_unfolding_all rfl
  have hmatches : Outcome.rejectIf (root ≠ (lateBatch root proof).expectedOldStateRoot)
      SettlementError.OldStateRootMismatch = .ok () := by
    rw [Outcome.rejectIf_eq_ok, not_not]
    rfl
  unfold settleBatch
  rw [hlimits, Outcome.ok_bind]
  dsimp only
  rw [hconfig, Outcome.ok_bind, haccounts, Outcome.ok_bind, hdeposits, Outcome.ok_bind, hroot,
    Outcome.ok_bind, hmatches, Outcome.ok_bind]
  with_unfolding_all rfl

/-- In a tree that does not find the last account the batch is built. -/
theorem exists_lateBatch {tree : AccountTree} (hsorted : AccountTree.StateSorted tree.state)
    (hrecipient : ⟨FixedBytes.replicate 20 1, [], 0⟩ ∈ tree.state.accounts)
    (hlast : lastAccount ∈ tree.state.accounts) (hnone : tree.account lastAccount.id = none) :
    ∃ (root : IdealDigest) (proof : StateMultiproof IdealDigest),
      (lateBuilder tree).build = .ok (lateBatch root proof) ∧
      (lateBatch root proof).state.root = .ok root := by
  have hkeys : (lateBuilder tree).touchedAccounts.keys =
      [FixedBytes.replicate 20 1, FixedBytes.replicate 20 255] := by
    with_unfolding_all rfl
  have hne : (lateBuilder tree).touchedAccounts.keys ≠ [] := by
    simp [hkeys]
  have hfirst : tree.state.lookup (FixedBytes.replicate 20 1) =
      some ⟨FixedBytes.replicate 20 1, [], 0⟩ :=
    (State.lookup_eq_some_iff hsorted).mpr ⟨hrecipient, rfl⟩
  have hsecond : tree.state.lookup (FixedBytes.replicate 20 255) = some lastAccount :=
    (State.lookup_eq_some_iff hsorted).mpr ⟨hlast, rfl⟩
  rcases AccountTree.exists_witness IdealDigest hsorted hne with
    ⟨root, ⟨accounts, proof⟩, _, htreeWitness, htreeRoot, hroot, hpicked⟩
  rw [hkeys, List.filterMap_cons_some hfirst, List.filterMap_cons_some hsecond,
    List.filterMap_nil] at hpicked
  have hpicked : accounts = [⟨FixedBytes.replicate 20 1, [], 0⟩, lastAccount] := hpicked
  subst hpicked
  refine ⟨root, proof, ?_, hroot⟩
  have hnext : (lateBuilder tree).nextNonce (FixedBytes.replicate 20 255) = 0 := by
    have hheld : (lateBuilder tree).state.account (FixedBytes.replicate 20 255) = none := hnone
    rw [BatchBuilder.nextNonce, hheld]
  have hchecked : (lateBuilder tree).checkNonces (FixedBytes.replicate 20 255)
      (OrderedSet.add .empty 0) = .ok 1 := by
    rw [BatchBuilder.checkNonces, hnext]
    with_unfolding_all rfl
  have hnonces : (lateBuilder tree).nonces.entries =
      [(FixedBytes.replicate 20 255, OrderedSet.add .empty 0)] := by
    with_unfolding_all rfl
  simp only [BatchBuilder.build, Outcome.bind_eq_ok]
  refine ⟨(), ?_, (lateBatch root proof).state, htreeWitness,
    (lateBatch root proof).deposits, ?_, [], rfl,
    (lateBatch root proof).orders, ?_, [], rfl, (lateBatch root proof).orderBooks, ?_, root,
    htreeRoot, rfl⟩
  · rw [hnonces]
    apply Outcome.forM_eq_ok.mpr
    intro entry hentry
    rw [List.mem_singleton.mp hentry, hchecked]
    rfl
  · with_unfolding_all rfl
  · with_unfolding_all rfl
  · with_unfolding_all rfl

/-- In a tree that has outgrown its index, a built batch can fail for a nonce. -/
theorem built_fails_checks :
    ¬ ∀ (secp : Secp256k1 IdealDigest) (tree : AccountTree) (config : ExchangeConfig)
      (domain : SigningDomain) (batchId oldDepositCursor oldForcedWithdrawalCursor : U64)
      (calls : List BatchBuilder.Call) (builder : BatchBuilder) (input : BatchInput IdealDigest),
      tree.Reachable → (∀ account ∈ tree.state.accounts, account.Canonical) →
      validateConfig config tree.state.accounts = .ok () →
      config.assets.length ≤ MAX_ASSETS → config.markets.length ≤ MAX_MARKETS →
      builder = (BatchBuilder.new tree config domain batchId oldDepositCursor
        oldForcedWithdrawalCursor).run calls →
      (∀ d ∈ builder.deposits, d.id.toNat < 2 ^ 64 - 1) →
      (∀ r ∈ builder.forcedWithdrawals, r.id.toNat < 2 ^ 64 - 1) →
      (∀ r ∈ builder.forcedWithdrawals, builder.Known r.account) →
      builder.build = .ok input →
      ∀ e, @settleBatch IdealDigest _ secp _ input = .error (.error e) → e.structural = false := by
  intro hclaim
  rcases exists_outgrown with ⟨tree, hreachable, hperm, hnone⟩
  have hempty : ∀ account ∈ lastAccount :: crowd (2 ^ 32 - 1), account.balances = [] := by
    intro account haccount
    rcases List.mem_cons.mp haccount with rfl | haccount
    · rfl
    · rcases List.mem_cons.mp haccount with rfl | haccount
      · rfl
      · rcases List.mem_map.mp haccount with ⟨_, _, rfl⟩
        rfl
  have hfirst : ⟨FixedBytes.replicate 20 1, [], 0⟩ ∈ lastAccount :: crowd (2 ^ 32 - 1) :=
    List.mem_cons_of_mem _ (List.mem_cons_self ..)
  generalize crowd (2 ^ 32 - 1) = others at hperm hempty hfirst
  have hrecipient := hperm.mem_iff.mpr hfirst
  rcases exists_lateBatch hreachable.sorted hrecipient
    (hperm.mem_iff.mpr List.mem_cons_self) hnone with
    ⟨root, proof, hbuild, hroot⟩
  have hcanonical : ∀ account ∈ tree.state.accounts, account.Canonical := by
    intro account haccount
    have hbalances := hempty account (hperm.mem_iff.mp haccount)
    refine ⟨?_, ?_⟩
    · rw [hbalances]
      exact SortedBy.nil
    · rw [hbalances]
      simp
  have hconfig : validateConfig marketConfig tree.state.accounts = .ok () := by
    have hsmall : validateConfig marketConfig [⟨FixedBytes.replicate 20 1, [], 0⟩] = .ok () := by
      decide +kernel
    exact validateConfig_of_mem hsmall (List.mem_map.mpr ⟨_, hrecipient, rfl⟩)
  have hids : ∀ d ∈ (lateBuilder tree).deposits, d.id.toNat < 2 ^ 64 - 1 := by
    intro d hd
    rw [List.mem_singleton.mp hd]
    decide
  have hstructural := hclaim testSecp256k1 tree marketConfig ⟨1, 1, FixedBytes.replicate 20 9⟩ 0 0 0
    lateCalls (lateBuilder tree) (lateBatch root proof) hreachable hcanonical hconfig (by decide)
    (by decide) (run_lateCalls hnone).symm hids (fun _ hr => by cases hr) (fun _ hr => by cases hr)
    hbuild .InvalidNonce (settleBatch_lateBatch hroot)
  cases hstructural

end ZkClob
