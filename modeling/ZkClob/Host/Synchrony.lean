import ZkClob.Host.BuilderIndices
import ZkClob.Host.TreeUpdates
import ZkClob.Settlement.ForcedQueue

/-!
# Host and guest stay in step

The guest computes the new root from the touched accounts and the side nodes of the witness.  The
host puts the same accounts into its tree, where they replace and shift others, and computes the
root of everything.  The two roots agree.

The host must find room for the accounts that the deposits create: the index of its tree counts
them with 32 bits.

Main results:

- Theorem {lit}`Settlement.updatedAccounts_root`: the accounts of the output, put into the complete
  state, have the new root.
- Theorem {lit}`apply_in_step`: the host applies the output of a batch that it built and arrives at
  the new root, and it succeeds exactly when its index has room.
-/

namespace ZkClob

open Foundations Patricia

variable {B256 : Type} [Sha256 B256]

/-- The accounts that deposits create in a tree. -/
def createdAccounts (tree : AccountTree) (deposits : List Deposit) : List AccountId :=
  (deposits.map Deposit.account).dedup.filter fun id => (tree.account id).isNone

section

variable [Secp256k1 B256] {tree : AccountTree} {ids : OrderedSet AccountId}
  {input : BatchInput B256}
  {output : BatchOutput B256}

namespace Settlement

/-- The accounts of the output are among those that the host asked the witness for. -/
theorem mem_keys_of_updated (s : Settlement input output)
    (hsorted : AccountTree.StateSorted tree.state) (hnodup : ids.keys.Nodup) (hne : ids.keys ≠ [])
    (hwitness : tree.witness ids = .ok input.state) {id : AccountId}
    (hid : id ∈ output.updatedAccounts.map Account.id) : id ∈ ids.keys := by
  have hstate := Outcome.mapError_eq_ok.mp hwitness
  rcases buildMultiproof_eq_ok B256 hsorted.nodup_map hne hnodup with ⟨proof, _, hproof, hkeys, _⟩
  rw [(State.witnessFor_eq_ok hstate).2, Except.ok.injEq] at hproof
  rw [← hproof] at hkeys
  exact hkeys.mem_iff.mp (s.mem_leafKeys hid)

/-- An account of the complete state is listed in the witness exactly when the output updates it. -/
theorem mem_listed_iff (s : Settlement input output) (hsorted : AccountTree.StateSorted tree.state)
    (hnodup : ids.keys.Nodup) (hne : ids.keys ≠ []) (hwitness : tree.witness ids = .ok input.state)
    {account : Account} (haccount : account ∈ tree.state.accounts) :
    account.id ∈ ids.keys ↔ account.id ∈ output.updatedAccounts.map Account.id := by
  have hstate := Outcome.mapError_eq_ok.mp hwitness
  have hperm := State.lookup_perm hsorted hnodup
  rw [← (State.witnessFor_eq_ok hstate).1] at hperm
  constructor
  · intro hid
    rw [s.mem_updated_ids]
    left
    apply List.mem_map_of_mem
    exact hperm.mem_iff.mpr (List.mem_filter.mpr ⟨haccount, decide_eq_true hid⟩)
  · exact s.mem_keys_of_updated hsorted hnodup hne hwitness

/-- The complete state has the old root, and with the accounts of the output put in it has the new
one. -/
theorem updatedAccounts_root (s : Settlement input output)
    (hsorted : AccountTree.StateSorted tree.state) (hnodup : ids.keys.Nodup) (hne : ids.keys ≠ [])
    (hwitness : tree.witness ids = .ok input.state) :
    computeRoot tree.state.accounts = .ok input.expectedOldStateRoot ∧
      computeRoot (tree.updatedAccounts output.updatedAccounts) =
        .ok output.publicOutput.newStateRoot := by
  have hstate := Outcome.mapError_eq_ok.mp hwitness
  have hupdatedNodup := s.updated_canonical.sorted.nodup_map
  constructor
  · rcases State.root_of_witness hsorted hne hnodup hstate with ⟨root, hroot, htree⟩
    rw [s.oldRoot, Except.ok.injEq] at hroot
    rw [htree, hroot]
  · have hlisted : ∀ a ∈ output.updatedAccounts, a.id ∈ ids.keys := by
      intro a ha
      exact s.mem_keys_of_updated hsorted hnodup hne hwitness (List.mem_map_of_mem ha)
    rcases State.root_of_witnessFor hsorted hne hnodup hstate hupdatedNodup hlisted with
      ⟨root, hroot, htree⟩
    rw [s.newRoot, Except.ok.injEq] at hroot
    -- what is not listed is what is not updated
    have hkept : (tree.state.accounts.filter fun a => a.id ∉ ids.keys) =
        tree.state.accounts.filter fun a => a.id ∉ output.updatedAccounts.map Account.id := by
      apply List.filter_congr
      intro a ha
      rw [decide_eq_decide, s.mem_listed_iff hsorted hnodup hne hwitness ha]
    rw [hkept, ← hroot] at htree
    exact htree

/-- The output brings the created accounts into the tree, and nothing else. -/
theorem length_updatedAccounts (s : Settlement input output) (htree : tree.Coherent)
    (hnodup : ids.keys.Nodup) (hwitness : tree.witness ids = .ok input.state) :
    (tree.updatedAccounts output.updatedAccounts).length =
      tree.state.accounts.length + (createdAccounts tree input.deposits).length := by
  have hpicked := (State.witnessFor_eq_ok (Outcome.mapError_eq_ok.mp hwitness)).1
  have hperm := State.lookup_perm htree.sorted hnodup
  rw [← hpicked] at hperm
  have hwitnessed : ∀ id, id ∈ input.state.accounts.map Account.id →
      id ∈ tree.state.accounts.map Account.id := by
    intro id hid
    rcases List.mem_map.mp hid with ⟨a, ha, rfl⟩
    exact List.mem_map_of_mem (List.mem_filter.mp (hperm.mem_iff.mp ha)).1
  have hunknown : ∀ id, (tree.account id).isNone = true ↔
      id ∉ tree.state.accounts.map Account.id := by
    intro id
    rw [Option.isNone_iff_eq_none, Option.eq_none_iff_forall_not_mem]
    simp only [Option.mem_def, htree.account_eq_some_iff, List.mem_map]
    push Not
    rfl
  have hids : ((tree.updatedAccounts output.updatedAccounts).map Account.id).Perm
      (tree.state.accounts.map Account.id ++ createdAccounts tree input.deposits) := by
    apply (List.perm_ext_iff_of_nodup (AccountTree.updatedAccounts_nodup htree.sorted
      s.updated_canonical.sorted.nodup_map) ?_).mpr
    · intro id
      have hmem : id ∈ (tree.updatedAccounts output.updatedAccounts).map Account.id ↔
          id ∈ tree.state.accounts.map Account.id ∨ id ∈ output.updatedAccounts.map Account.id := by
        rw [AccountTree.updatedAccounts, List.map_append, List.mem_append]
        constructor
        · rintro (hkept | hupdated)
          · rcases List.mem_map.mp hkept with ⟨a, ha, rfl⟩
            exact Or.inl (List.mem_map_of_mem (List.mem_filter.mp ha).1)
          · exact Or.inr hupdated
        · rintro (hstate | hupdated)
          · by_cases hupdated : id ∈ output.updatedAccounts.map Account.id
            · exact Or.inr hupdated
            · rcases List.mem_map.mp hstate with ⟨a, ha, rfl⟩
              exact Or.inl (List.mem_map_of_mem
                (List.mem_filter.mpr ⟨ha, decide_eq_true hupdated⟩))
          · exact Or.inr hupdated
      have hwitnessedId := hwitnessed id
      rw [hmem, s.mem_updated_ids, List.mem_append, createdAccounts, List.mem_filter,
        List.mem_dedup, hunknown]
      tauto
    · rw [List.nodup_append]
      refine ⟨htree.sorted.nodup_map, (List.nodup_dedup _).filter _, ?_⟩
      intro id hid id' hid' heq
      rw [createdAccounts, List.mem_filter, hunknown] at hid'
      exact hid'.2 (heq ▸ hid)
  have hlength := hids.length_eq
  simpa only [List.length_append, List.length_map] using hlength

end Settlement

/-- The touched accounts of a builder, the fee recipient at least. -/
theorem BatchBuilder.Inv.touched_ne_nil {builder : BatchBuilder} (h : BatchBuilder.Inv builder) :
    builder.touchedAccounts.keys ≠ [] := by
  have hmem : builder.config.fees.recipient ∈ builder.touchedAccounts.keys := by
    rw [h.mem_touched, BatchBuilder.participants]
    exact List.mem_cons_self ..
  exact List.ne_nil_of_mem hmem

end

/-- The host and the guest stay in step: the old root is that of the tree; the tree takes over the
updated accounts and has the new root; and this succeeds, with all other accounts found as before,
exactly when the index of the tree has room for the accounts that the deposits create. -/
theorem apply_in_step [Secp256k1 B256] [DecidableEq B256] {tree : AccountTree} (htree : tree.InUse)
    (config : ExchangeConfig) (domain : SigningDomain)
    (batchId oldDepositCursor oldForcedWithdrawalCursor : U64) (calls : List BatchBuilder.Call)
    {builder : BatchBuilder} {input : BatchInput B256} {output : BatchOutput B256}
    (hbuilder : builder = (BatchBuilder.new tree config domain batchId oldDepositCursor
      oldForcedWithdrawalCursor).run calls)
    (hbuild : builder.build = .ok input) (hsettle : settleBatch input = .ok output) :
    tree.root = .ok output.publicOutput.oldStateRoot ∧
      (tree.apply output.updatedAccounts).2.root = .ok output.publicOutput.newStateRoot ∧
      (if tree.state.accounts.length + (createdAccounts tree input.deposits).length ≤ 2 ^ 32 then
        (tree.apply output.updatedAccounts).1 = .ok () ∧
          ∀ id, id ∉ output.updatedAccounts.map Account.id →
            (tree.apply output.updatedAccounts).2.account id = tree.account id
      else (tree.apply output.updatedAccounts).1 = .error (.error .AccountIndexOverflow)) := by
  have hcoherent := htree.coherent
  rcases exists_settlement hsettle with ⟨s⟩
  rcases BatchBuilder.run_inv (BatchBuilder.new_inv tree config domain batchId oldDepositCursor
    oldForcedWithdrawalCursor) calls with ⟨hinv, hstate⟩
  rw [← hbuilder] at hinv hstate
  have hstate : builder.state = tree := hstate
  have hwitness := (BatchBuilder.build_spec hbuild).witness
  rw [hstate] at hwitness
  have hkeys := builder.touchedAccounts.keys_nodup
  have hupdated := s.updated_canonical.sorted.nodup_map
  rcases s.updatedAccounts_root hcoherent.sorted hkeys hinv.touched_ne_nil hwitness with
    ⟨holdRoot, hnewRoot⟩
  rcases hcoherent.apply_accounts hupdated with ⟨_, hperm⟩
  rcases hcoherent.apply_ok_iff hupdated with ⟨hok, hresult⟩
  rw [s.length_updatedAccounts hcoherent hkeys hwitness] at hok
  refine ⟨?_, ?_, ?_⟩
  · have hpublic : output.publicOutput.oldStateRoot = input.expectedOldStateRoot := by
      rw [s.output_eq]
      rfl
    rw [AccountTree.root, State.root, holdRoot, hpublic]
  · have hroot := (computeRoot_perm (AccountTree.updatedAccounts_nodup hcoherent.sorted hupdated)
      hperm.symm).symm.trans hnewRoot
    rw [AccountTree.root, State.root, hroot]
  · split
    · rename_i hroom
      have happlied := hok.mpr hroom
      exact ⟨happlied, (hcoherent.account_apply happlied).2⟩
    · rename_i hroom
      rcases hresult with happlied | hover
      · exact absurd (hok.mp happlied) hroom
      · exact hover

/-! ## A full tree -/

/-- A deposit for a third account of the small exchange. -/
def testDepositCalls : List BatchBuilder.Call :=
  [.deposit ⟨0, FixedBytes.replicate 20 3, FixedBytes.replicate 20 7, 4, none⟩]

/-- The host of the small exchange takes over a batch that creates an account. -/
theorem apply_in_step_testTree :
    ∃ (input : BatchInput IdealDigest) (output : BatchOutput IdealDigest),
      ((BatchBuilder.new testTree testConfig ⟨1, 1, FixedBytes.replicate 20 9⟩ 0 0 0).run
        testDepositCalls).build = .ok input ∧ settleBatch input = .ok output ∧
      testTree.root = .ok output.publicOutput.oldStateRoot ∧
      (testTree.apply output.updatedAccounts).2.root = .ok output.publicOutput.newStateRoot ∧
      (if testTree.state.accounts.length + (createdAccounts testTree input.deposits).length ≤
          2 ^ 32 then
        (testTree.apply output.updatedAccounts).1 = .ok () ∧
          ∀ id, id ∉ output.updatedAccounts.map Account.id →
            (testTree.apply output.updatedAccounts).2.account id = testTree.account id
      else (testTree.apply output.updatedAccounts).1 = .error (.error .AccountIndexOverflow)) := by
  rcases Outcome.exists_of_isOk (show (((BatchBuilder.new testTree testConfig
    ⟨1, 1, FixedBytes.replicate 20 9⟩ 0 0 0).run testDepositCalls).build :
    Outcome BatchBuildError (BatchInput IdealDigest)).isOk = true by decide +kernel) with
    ⟨input, hbuild⟩
  have hsettled : (((BatchBuilder.new testTree testConfig
      ⟨1, 1, FixedBytes.replicate 20 9⟩ 0 0 0).run
      testDepositCalls).build.toOption.map fun input : BatchInput IdealDigest =>
        (settleBatch input).isOk) = some true := by
    decide +kernel
  rw [hbuild] at hsettled
  rcases Outcome.exists_of_isOk (Option.some.inj hsettled) with ⟨output, houtput⟩
  exact ⟨input, output, hbuild, houtput,
    apply_in_step testTree_inUse testConfig _ 0 0 0 testDepositCalls rfl hbuild houtput⟩

/-- The fee recipient of the small exchange and {lit}`n` further accounts. -/
def crowd (n : Nat) : List Account :=
  ⟨FixedBytes.replicate 20 1, [], 0⟩ ::
    (List.range n).map fun i => ⟨⟨toBeBytes 19 i ++ [0], by simp⟩, [], 0⟩

theorem length_crowd (n : Nat) : (crowd n).length = n + 1 := by
  simp [crowd]

/-- The further accounts end with a zero byte. -/
theorem crowd_ids_ne {n : Nat} {b : UInt8} (hb : b ≠ 0) :
    FixedBytes.replicate 20 b ∉ (List.range n).map fun i =>
      (⟨toBeBytes 19 i ++ [0], by simp⟩ : AccountId) := by
  intro hmem
  rcases List.mem_map.mp hmem with ⟨i, _, hid⟩
  have hlast := congrArg (fun id : AccountId => id.toList.getLast?) hid
  simp only [FixedBytes.replicate, List.getLast?_append, List.getLast?_singleton, Option.some_or,
    List.getLast?_replicate] at hlast
  norm_num at hlast
  exact hb hlast.symm

theorem crowd_nodup {n : Nat} (hn : n ≤ 2 ^ 32) : ((crowd n).map Account.id).Nodup := by
  rw [crowd, List.map_cons, List.map_map, List.nodup_cons]
  refine ⟨crowd_ids_ne (by decide), ?_⟩
  apply List.nodup_range.map_on
  intro i hi j hj heq
  simp only [Function.comp_apply, FixedBytes.mk.injEq, List.append_cancel_right_eq] at heq
  have hmod := mod_eq_of_toBeBytes_eq heq
  rw [List.mem_range] at hi hj
  have hbig : 2 ^ 32 ≤ 256 ^ 19 := by norm_num
  rw [Nat.mod_eq_of_lt (by omega), Nat.mod_eq_of_lt (by omega)] at hmod
  exact hmod

/-- The builder after the deposit. -/
def depositBuilder (tree : AccountTree) : BatchBuilder :=
  { BatchBuilder.new tree testConfig ⟨1, 1, FixedBytes.replicate 20 9⟩ 0 0 0 with
    touchedAccounts := OrderedSet.add (OrderedSet.add .empty (FixedBytes.replicate 20 1))
      (FixedBytes.replicate 20 3)
    deposits := [⟨0, FixedBytes.replicate 20 3, FixedBytes.replicate 20 7, 4, none⟩] }

theorem run_testDepositCalls (tree : AccountTree) :
    (BatchBuilder.new tree testConfig
      ⟨1, 1, FixedBytes.replicate 20 9⟩ 0 0 0).run testDepositCalls =
      depositBuilder tree := by
  with_unfolding_all rfl

/-- The batch of the deposit, with the index of the new account. -/
def depositBatch (root : IdealDigest) (witness : StateWitness IdealDigest) :
    BatchInput IdealDigest where
  domain := ⟨1, 1, FixedBytes.replicate 20 9⟩
  batchId := 0
  expectedOldStateRoot := root
  state := witness
  oldDepositCursor := 0
  deposits := [⟨0, FixedBytes.replicate 20 3, FixedBytes.replicate 20 7, 4, some 1⟩]
  oldForcedWithdrawalCursor := 0
  forcedWithdrawals := []
  orders := []
  withdrawals := []
  orderBooks := []
  config := testConfig

/-- The intermediate values of the batch of the deposit. -/
def depositStages : Stages where
  deposited := [⟨FixedBytes.replicate 20 1, [], 0⟩,
    ⟨FixedBytes.replicate 20 3, [⟨FixedBytes.replicate 20 7, 4⟩], 0⟩]
  drained := [⟨FixedBytes.replicate 20 1, [], 0⟩,
    ⟨FixedBytes.replicate 20 3, [⟨FixedBytes.replicate 20 7, 4⟩], 0⟩]
  executed := []
  withdrawn := [⟨FixedBytes.replicate 20 1, [], 0⟩,
    ⟨FixedBytes.replicate 20 3, [⟨FixedBytes.replicate 20 7, 4⟩], 0⟩]
  consumed := [⟨FixedBytes.replicate 20 1, [], 0⟩,
    ⟨FixedBytes.replicate 20 3, [⟨FixedBytes.replicate 20 7, 4⟩], 0⟩]
  books := []
  settled := [⟨FixedBytes.replicate 20 1, [], 0⟩,
    ⟨FixedBytes.replicate 20 3, [⟨FixedBytes.replicate 20 7, 4⟩], 0⟩]
  trades := []

theorem stepsSucceed_depositBatch {root : IdealDigest} {proof : StateMultiproof IdealDigest}
    (hroot : StateWitness.root ⟨[⟨FixedBytes.replicate 20 1, [], 0⟩], proof⟩ = .ok root) :
    StepsSucceed (depositBatch root ⟨[⟨FixedBytes.replicate 20 1, [], 0⟩], proof⟩)
      depositStages where
  limits := by with_unfolding_all rfl
  config := by with_unfolding_all rfl
  accounts := by with_unfolding_all rfl
  deposits := ⟨1, by with_unfolding_all rfl⟩
  oldRoot := hroot
  applyDeposits := by with_unfolding_all rfl
  forcedWithdrawals := rfl
  applyForcedWithdrawals := rfl
  withdrawals := rfl
  orders := rfl
  nonces := rfl
  applyWithdrawals := rfl
  consumeNonces := by with_unfolding_all rfl
  books := rfl
  matchAndSettle := by with_unfolding_all rfl

/-- The tree has a witness of any ids, with its own root. -/
theorem AccountTree.exists_witness (B256 : Type) [Sha256 B256] {tree : AccountTree}
    (hsorted : StateSorted tree.state) {accountIds : OrderedSet AccountId}
    (hne : accountIds.keys ≠ []) :
    ∃ (root : B256) (witness : StateWitness B256),
      tree.state.witnessFor accountIds.keys = .ok witness ∧
      tree.witness accountIds = .ok witness ∧ tree.root = .ok root ∧ witness.root = .ok root ∧
      witness.accounts = accountIds.keys.filterMap tree.state.lookup := by
  have hnodup := accountIds.keys_nodup
  rcases @State.exists_witnessFor _ _ B256 _ hsorted hne hnodup with ⟨witness, hwitness⟩
  rcases State.root_of_witness hsorted hne hnodup hwitness with ⟨root, hroot, hwhole⟩
  refine ⟨root, witness, hwitness, ?_, ?_, hroot, (State.witnessFor_eq_ok hwitness).1⟩
  · rw [AccountTree.witness, Outcome.mapError_eq_ok]
    exact hwitness
  · rw [AccountTree.root, State.root, hwhole]

/-- In every tree that holds the fee recipient and not the account of the deposit, the batch is
built and accepted. -/
theorem exists_depositBatch {tree : AccountTree} (htree : tree.Coherent)
    (hrecipient : ⟨FixedBytes.replicate 20 1, [], 0⟩ ∈ tree.state.accounts)
    (hnew : FixedBytes.replicate 20 3 ∉ tree.state.accounts.map Account.id) :
    ∃ (root : IdealDigest) (witness : StateWitness IdealDigest) (output : BatchOutput IdealDigest),
      (depositBuilder tree).build = .ok (depositBatch root witness) ∧
      settleBatch (depositBatch root witness) = .ok output := by
  have hkeys : (depositBuilder tree).touchedAccounts.keys =
      [FixedBytes.replicate 20 1, FixedBytes.replicate 20 3] := by
    with_unfolding_all rfl
  have hne : (depositBuilder tree).touchedAccounts.keys ≠ [] := by
    simp [hkeys]
  have hnodup := (depositBuilder tree).touchedAccounts.keys_nodup
  have hfound : tree.state.lookup (FixedBytes.replicate 20 1) =
      some ⟨FixedBytes.replicate 20 1, [], 0⟩ :=
    (State.lookup_eq_some_iff htree.sorted).mpr ⟨hrecipient, rfl⟩
  have hmissing : tree.state.lookup (FixedBytes.replicate 20 3) = none := by
    apply Option.eq_none_iff_forall_not_mem.mpr
    intro account haccount
    rw [Option.mem_def, State.lookup_eq_some_iff htree.sorted] at haccount
    exact hnew (haccount.2 ▸ List.mem_map_of_mem haccount.1)
  rcases AccountTree.exists_witness IdealDigest htree.sorted hne with
    ⟨root, ⟨accounts, proof⟩, hwitness, htreeWitness, htreeRoot, hroot, hpicked⟩
  rw [hkeys, List.filterMap_cons_some hfound, List.filterMap_cons_none hmissing,
    List.filterMap_nil] at hpicked
  have hpicked : accounts = [⟨FixedBytes.replicate 20 1, [], 0⟩] := hpicked
  subst hpicked
  have hsteps := stepsSucceed_depositBatch hroot
  rcases Outcome.exists_of_isOk (show ((AssetTracker.default.addAccounts
    [⟨FixedBytes.replicate 20 1, [], 0⟩]).isOk = true) by decide +kernel) with ⟨t₁, h₁⟩
  have hadded : (do
      let tracker ← AssetTracker.default.addAccounts [⟨FixedBytes.replicate 20 1, [], 0⟩]
      tracker.addDeposits (depositBatch root ⟨[], proof⟩).deposits).isOk = true := by
    with_unfolding_all rfl
  rw [h₁, Outcome.ok_bind] at hadded
  rcases Outcome.exists_of_isOk hadded with ⟨t₂, h₂⟩
  have hdeposited :
      ∀ d ∈ (depositBatch root ⟨[⟨FixedBytes.replicate 20 1, [], 0⟩], proof⟩).deposits,
      d.account ∈ (depositBuilder tree).touchedAccounts.keys := by
    simp [depositBatch, hkeys]
  rcases hsteps.exists_output h₁ h₂ htree.sorted hne hnodup hwitness hdeposited with
    ⟨output, houtput⟩
  refine ⟨root, _, output, ?_, houtput⟩
  simp only [BatchBuilder.build, Outcome.bind_eq_ok]
  refine ⟨(), rfl, _, htreeWitness, (depositBatch root ⟨[], proof⟩).deposits, ?_, [],
    rfl, [], rfl, [],
    rfl, [], rfl, root, htreeRoot, rfl⟩
  with_unfolding_all rfl

/-- A full tree has no room for the account that a deposit creates. -/
theorem apply_not_in_step :
    ¬ ∀ (tree : AccountTree) (config : ExchangeConfig) (domain : SigningDomain)
      (batchId oldDepositCursor oldForcedWithdrawalCursor : U64) (calls : List BatchBuilder.Call)
      (builder : BatchBuilder) (input : BatchInput IdealDigest) (output : BatchOutput IdealDigest),
      tree.InUse → (∀ account ∈ tree.state.accounts, account.Canonical) →
      builder = (BatchBuilder.new tree config domain batchId oldDepositCursor
        oldForcedWithdrawalCursor).run calls →
      builder.build = .ok input → settleBatch input = .ok output →
      tree.root = .ok output.publicOutput.oldStateRoot ∧
        (tree.apply output.updatedAccounts).1 = .ok () ∧
        (tree.apply output.updatedAccounts).2.root = .ok output.publicOutput.newStateRoot ∧
        ∀ id, id ∉ output.updatedAccounts.map Account.id →
          (tree.apply output.updatedAccounts).2.account id = tree.account id := by
  intro hclaim
  have hnodup : ((crowd (2 ^ 32 - 1)).map Account.id).Nodup := crowd_nodup (by omega)
  have hlength := length_crowd (2 ^ 32 - 1)
  have hstranger : FixedBytes.replicate 20 3 ∉ (crowd (2 ^ 32 - 1)).map Account.id := by
    rw [crowd, List.map_cons, List.mem_cons, List.map_map]
    rintro (heq | hmem)
    · exact absurd heq (by decide)
    · exact crowd_ids_ne (by decide) hmem
  have hempty : ∀ account ∈ crowd (2 ^ 32 - 1), account.balances = [] := by
    intro account haccount
    rcases List.mem_cons.mp haccount with rfl | haccount
    · rfl
    · rcases List.mem_map.mp haccount with ⟨_, _, rfl⟩
      rfl
  have hfirst : ⟨FixedBytes.replicate 20 1, [], 0⟩ ∈ crowd (2 ^ 32 - 1) := List.mem_cons_self ..
  generalize crowd (2 ^ 32 - 1) = accounts at hnodup hlength hstranger hempty hfirst
  rcases AccountTree.exists_new hnodup (by omega) with ⟨tree, hnew, hstate⟩
  have hperm : tree.state.accounts.Perm accounts := hstate ▸ sortByKey_perm Account.id accounts
  have hcoherent := AccountTree.new_coherent hnew
  have hmissing : FixedBytes.replicate 20 3 ∉ tree.state.accounts.map Account.id := by
    rw [(hperm.map Account.id).mem_iff]
    exact hstranger
  rcases exists_depositBatch hcoherent (hperm.mem_iff.mpr hfirst) hmissing with
    ⟨root, witness, output, hbuild, hsettle⟩
  have hcanonical : ∀ account ∈ tree.state.accounts, account.Canonical := by
    intro account haccount
    have hbalances := hempty account (hperm.mem_iff.mp haccount)
    refine ⟨?_, ?_⟩
    · rw [hbalances]
      exact SortedBy.nil
    · rw [hbalances]
      simp
  rcases hclaim tree testConfig ⟨1, 1, FixedBytes.replicate 20 9⟩ 0 0 0 testDepositCalls
    (depositBuilder tree) _ output (.new hnew) hcanonical
    (run_testDepositCalls tree).symm hbuild hsettle
    with ⟨_, happlied, _⟩
  -- the deposit creates one account more than the index can count
  rcases exists_settlement hsettle with ⟨s⟩
  have hroom := (hcoherent.apply_ok_iff s.updated_canonical.sorted.nodup_map).1.mp happlied
  have hkeys := (depositBuilder tree).touchedAccounts.keys_nodup
  rw [s.length_updatedAccounts hcoherent hkeys (BatchBuilder.build_spec hbuild).witness,
    hperm.length_eq, hlength] at hroom
  have hunknown : tree.account (FixedBytes.replicate 20 3) = none := by
    apply Option.eq_none_iff_forall_not_mem.mpr
    intro account haccount
    rw [Option.mem_def, hcoherent.account_eq_some_iff] at haccount
    exact hmissing (haccount.2 ▸ List.mem_map_of_mem haccount.1)
  have hcreated : (createdAccounts tree (depositBatch root witness).deposits).length = 1 := by
    simp [createdAccounts, depositBatch, hunknown]
  omega

end ZkClob
