import Mathlib.Logic.Relation
import ZkClob.Contracts.SettleAcceptance
import ZkClob.Contracts.SettledChain
import ZkClob.Host.QueueRounds

/-!
# The operator and the contract

The operator keeps all accounts in its tree.  It builds a batch over them, has it proven and
settled, and puts the output into the tree; meanwhile everybody else calls the contract, but settles
no batch.  Through all of this the tree has the root that the contract commits to, so that its
balances are the ones that the contract covers, and it stays fit for the next batch.

Main results:

- Theorem {lit}`Contract.InStep.batch`: a settled and applied batch keeps the tree in step.
- Theorem {lit}`Contract.Idle.run`: what a run without settled batches leaves alone.
- Theorem {lit}`Contract.operator_in_step`: in every session the tree is in step with the contract.
-/

namespace ZkClob

open Foundations Patricia

namespace Contract

variable {B256 : Type} {self : Immutables B256} {context : Context} {world world' : World B256}
  {tree tree' : AccountTree}

/-! ## Batches -/

section

variable [Sha256 B256]

/-- The tree of the operator holds the accounts that the contract commits to. -/
structure InStep (world : World B256) (tree : AccountTree) : Prop where
  coherent : tree.Coherent
  canonical : ∀ account ∈ tree.state.accounts, account.Canonical
  root : tree.root = .ok world.storage.stateRoot

/-- The root of a tree is that of its accounts. -/
theorem root_eq_ok {root : B256} :
    tree.root = .ok root ↔ computeRoot tree.state.accounts = .ok root := by
  unfold AccountTree.root State.root
  cases (computeRoot tree.state.accounts : Outcome PatriciaError B256) with
  | ok root' => simp
  | error e => simp

/-- The accounts of a tree are committed by its root. -/
theorem commits_of_root {root : B256} (h : tree.root = .ok root) :
    Commits tree.state.accounts root :=
  Commits.of_computeRoot (root_eq_ok.mp h)

/-- A new tree holds the given accounts. -/
theorem new_perm {A₀ : List Account} (h : AccountTree.new A₀ = .ok tree) :
    tree.state.accounts.Perm A₀ := by
  simp only [AccountTree.new, Outcome.bind_eq_ok, Except.ok.injEq] at h
  rcases h with ⟨indices, _, rfl⟩
  exact sortByKey_perm Account.id A₀

theorem InStep.commits (h : InStep world tree) :
    Commits tree.state.accounts world.storage.stateRoot :=
  commits_of_root h.root

variable [Secp256k1 B256] {input : BatchInput B256} {output : BatchOutput B256}

/-- What the operator makes of its tree when a batch has been accepted. -/
structure Applied (tree : AccountTree) (input : BatchInput B256) (output : BatchOutput B256)
    (tree' : AccountTree) : Prop where
  coherent : tree'.Coherent
  oldRoot : tree.root = .ok input.expectedOldStateRoot
  newRoot : tree'.root = .ok output.publicOutput.newStateRoot
  accounts : tree'.state.accounts.Perm (tree.updatedAccounts output.updatedAccounts)
  length : tree'.state.accounts.length =
    tree.state.accounts.length + (createdAccounts tree input.deposits).length

/-- A batch that was built over a coherent tree and accepted is applied when the index of the tree
has room for the created accounts. -/
theorem Applied.of_built {b : BatchBuilder} (htree : tree.Coherent) (hinv : BatchBuilder.Inv b)
    (hstate : b.state = tree) (hbuild : b.build = .ok input) (s : Settlement input output) :
    ((tree.apply output.updatedAccounts).1 = .ok () ↔
      tree.state.accounts.length + (createdAccounts tree input.deposits).length ≤ 2 ^ 32) ∧
    ((tree.apply output.updatedAccounts).1 = .ok () →
      Applied tree input output (tree.apply output.updatedAccounts).2) := by
  have hwitness := (BatchBuilder.build_spec hbuild).witness
  rw [hstate] at hwitness
  have hkeys := b.touchedAccounts.keys_nodup
  have hupdated := s.updated_canonical.sorted.nodup_map
  rcases s.updatedAccounts_root htree.sorted hkeys hinv.touched_ne_nil hwitness with
    ⟨hold, hnew⟩
  have hperm := (htree.apply_accounts hupdated).2
  have hok := (htree.apply_ok_iff hupdated).1
  have hlength := s.length_updatedAccounts htree hkeys hwitness
  rw [hlength] at hok
  refine ⟨hok, fun happlied => ⟨htree.apply_coherent happlied, ?_, ?_, hperm, ?_⟩⟩
  · exact root_eq_ok.mpr hold
  · rw [root_eq_ok, ← hnew]
    exact (computeRoot_perm (AccountTree.updatedAccounts_nodup htree.sorted hupdated)
      hperm.symm).symm
  · rw [hperm.length_eq, hlength]

namespace Applied

/-- The tree stays canonical. -/
theorem canonical (h : Applied tree input output tree') (s : Settlement input output)
    (hcanonical : ∀ account ∈ tree.state.accounts, account.Canonical) :
    ∀ account ∈ tree'.state.accounts, account.Canonical := by
  intro account haccount
  rw [h.accounts.mem_iff, AccountTree.updatedAccounts, List.mem_append] at haccount
  rcases haccount with hkept | hupdated
  · exact hcanonical account (List.mem_filter.mp hkept).1
  · exact s.updated_canonical.canonical account hupdated

omit [Secp256k1 B256] in
/-- Nobody leaves the tree. -/
theorem mem_ids (h : Applied tree input output tree') {id : AccountId}
    (hid : id ∈ tree.state.accounts.map Account.id) :
    id ∈ tree'.state.accounts.map Account.id := by
  rw [(h.accounts.map Account.id).mem_iff, AccountTree.updatedAccounts, List.map_append,
    List.mem_append]
  by_cases hupdated : id ∈ output.updatedAccounts.map Account.id
  · exact Or.inr hupdated
  · left
    rcases List.mem_map.mp hid with ⟨account, haccount, rfl⟩
    exact List.mem_map_of_mem (List.mem_filter.mpr ⟨haccount, decide_eq_true hupdated⟩)

/-- The balances of the tree grow at most by the deposits. -/
theorem supply_le (hfree : CollisionFree B256) (h : Applied tree input output tree')
    (s : Settlement input output) (asset : AssetId) :
    supply tree'.state.accounts asset ≤ supply tree.state.accounts asset +
      tally (fun d => d.asset = asset) (fun d => d.amount.toNat) input.deposits := by
  have hA := commits_of_root h.oldRoot
  have hnext := (commits_of_root h.newRoot).perm hfree (s.nextState_root hfree hA)
  have hsupply := supply_nextState hfree s hA asset
  rw [supply_perm hnext]
  omega

end Applied

variable [DecidableEq B256] [Bytes32 B256] [ISP1Verifier B256]

/-- A batch that was settled and applied keeps the tree in step. -/
theorem InStep.batch (h : InStep world tree) (s : Settlement input output)
    (happlied : Applied tree input output tree') {proof : Bytes} {withdrawals : List Withdrawal}
    {forcedWithdrawals : List ForcedWithdrawal} {outcomes : Nat → Delivery B256}
    (hsettled : settle self context (abiEncode output.publicOutput) proof withdrawals
      forcedWithdrawals outcomes world = .ok world') : InStep world' tree' := by
  rcases settle_spec hsettled with ⟨publicOutput, cursor, hmade⟩
  have hpublic : output.publicOutput = publicOutput := by
    have hdecoded := hmade.decoded
    rw [abiDecode_abiEncode, Except.ok.injEq] at hdecoded
    exact hdecoded
  refine ⟨happlied.coherent, happlied.canonical s h.canonical, ?_⟩
  have hroot : world'.storage.stateRoot = publicOutput.newStateRoot := hmade.paid.kept.stateRoot
  rw [hroot, ← hpublic]
  exact happlied.newRoot

end

/-! ## The others -/

theorem QueuesGrow.trans {storage storage' storage'' : Storage B256}
    (h : QueuesGrow storage storage') (h' : QueuesGrow storage' storage'') :
    QueuesGrow storage storage'' where
  nextDepositId := h.nextDepositId.trans h'.nextDepositId
  deposits n hn := (h'.deposits n (hn.trans_le h.nextDepositId)).trans (h.deposits n hn)
  nextForcedWithdrawalId := h.nextForcedWithdrawalId.trans h'.nextForcedWithdrawalId
  requests n hn := (h'.requests n (hn.trans_le h.nextForcedWithdrawalId)).trans (h.requests n hn)

/-- What is left alone while no batch is settled: the root, the cursors and the batch number; the
queues only grow. -/
structure Idle (storage storage' : Storage B256) : Prop where
  stateRoot : storage'.stateRoot = storage.stateRoot
  nextBatchId : storage'.nextBatchId = storage.nextBatchId
  nextUnprocessedDeposit : storage'.nextUnprocessedDeposit = storage.nextUnprocessedDeposit
  nextUnprocessedForcedWithdrawal :
    storage'.nextUnprocessedForcedWithdrawal = storage.nextUnprocessedForcedWithdrawal
  grow : QueuesGrow storage storage'

namespace Idle

variable {storage storage' storage'' : Storage B256}

theorem refl (storage : Storage B256) : Idle storage storage :=
  ⟨rfl, rfl, rfl, rfl, (Kept.refl storage).queuesGrow⟩

theorem trans (h : Idle storage storage') (h' : Idle storage' storage'') :
    Idle storage storage'' where
  stateRoot := h'.stateRoot.trans h.stateRoot
  nextBatchId := h'.nextBatchId.trans h.nextBatchId
  nextUnprocessedDeposit := h'.nextUnprocessedDeposit.trans h.nextUnprocessedDeposit
  nextUnprocessedForcedWithdrawal :=
    h'.nextUnprocessedForcedWithdrawal.trans h.nextUnprocessedForcedWithdrawal
  grow := h.grow.trans h'.grow

end Idle

section

variable [DecidableEq B256] [Bytes32 B256] [Sha256 B256] [MathLibrary] [ISP1Verifier B256]

omit [DecidableEq B256] in
/-- A transaction that settles nothing. -/
theorem Effect.idle {escaped : List Address} (h : Effect self world world' [] escaped) :
    Idle world.storage world'.storage := by
  have hgrow := h.queuesGrow
  cases h with
  | undisturbed h =>
      exact ⟨h.kept.stateRoot, h.kept.nextBatchId, h.kept.nextUnprocessedDeposit,
        h.kept.nextUnprocessedForcedWithdrawal, hgrow⟩
  | deposit h =>
      exact ⟨h.kept.stateRoot, h.kept.nextBatchId, h.kept.nextUnprocessedDeposit,
        h.kept.nextUnprocessedForcedWithdrawal, hgrow⟩
  | claim h =>
      exact ⟨h.kept.stateRoot, h.kept.nextBatchId, h.kept.nextUnprocessedDeposit,
        h.kept.nextUnprocessedForcedWithdrawal, hgrow⟩
  | escape h =>
      exact ⟨h.paid.kept.stateRoot, h.paid.kept.nextBatchId, h.paid.kept.nextUnprocessedDeposit,
        h.paid.kept.nextUnprocessedForcedWithdrawal, hgrow⟩

/-- Transactions that settle nothing. -/
theorem Idle.run {transactions : List (Context × Call B256)}
    (h : settlements self world transactions = []) :
    Idle world.storage (run self world transactions).storage := by
  induction transactions generalizing world with
  | nil => exact Idle.refl _
  | cons transaction transactions ih =>
      rw [settlements, history, List.append_eq_nil_iff] at h
      have hstep := step_effect self world transaction
      rw [h.1] at hstep
      exact hstep.idle.trans (ih h.2)

theorem InStep.others (h : InStep world tree) {transactions : List (Context × Call B256)}
    (hidle : settlements self world transactions = []) :
    InStep (run self world transactions) tree :=
  ⟨h.coherent, h.canonical, h.root.trans (congrArg Except.ok (Idle.run hidle).stateRoot.symm)⟩

/-! ## Sessions -/

variable [Secp256k1 B256]

/-- One thing that happens: others call the contract without settling a batch, or the operator
builds a batch over its tree, from any operations, has it settled, and applies its output. -/
inductive Turn (contract : Immutables B256) (config : ExchangeConfig) (domain : SigningDomain) :
    World B256 × AccountTree → World B256 × AccountTree → Prop
  | others {world : World B256} {tree : AccountTree} (transactions : List (Context × Call B256))
      (hidle : settlements contract world transactions = []) :
      Turn contract config domain (world, tree) (run contract world transactions, tree)
  | batch {world world' : World B256} {tree : AccountTree} (calls : List BatchBuilder.Call)
      {input : BatchInput B256} {output : BatchOutput B256} {context : Context} {proof : Bytes}
      {withdrawals : List Withdrawal} {forcedWithdrawals : List ForcedWithdrawal}
      {outcomes : Nat → Delivery B256}
      (built : ((BatchBuilder.new tree config domain world.storage.nextBatchId
        world.storage.nextUnprocessedDeposit world.storage.nextUnprocessedForcedWithdrawal).run
        calls).build = .ok input)
      (accepted : settleBatch input = .ok output)
      (settled : settle contract context (abiEncode output.publicOutput) proof withdrawals
        forcedWithdrawals outcomes world = .ok world')
      (applied : (tree.apply output.updatedAccounts).1 = .ok ()) :
      Turn contract config domain (world, tree) (world', (tree.apply output.updatedAccounts).2)

/-- Any sequence of turns. -/
def Session (contract : Immutables B256) (config : ExchangeConfig) (domain : SigningDomain) :
    World B256 × AccountTree → World B256 × AccountTree → Prop :=
  Relation.ReflTransGen (Turn contract config domain)

variable {config : ExchangeConfig} {domain : SigningDomain}

/-- A turn is a run of the contract. -/
theorem Turn.exists_run (h : Turn self config domain (world, tree) (world', tree')) :
    ∃ transactions, world' = run self world transactions := by
  cases h with
  | others transactions _ => exact ⟨transactions, rfl⟩
  | @batch _ _ _ _ _ output context proof withdrawals forcedWithdrawals outcomes _ _ settled _ =>
      refine ⟨[(context, .settle (abiEncode output.publicOutput) proof withdrawals
        forcedWithdrawals outcomes)], ?_⟩
      simp only [run, List.foldl_cons, List.foldl_nil, step, exec, nonReentrant_notEntered,
        settled]

/-- A session is a run of the contract. -/
theorem Session.exists_run (h : Session self config domain (world, tree) (world', tree')) :
    ∃ transactions, world' = run self world transactions := by
  apply Relation.ReflTransGen.head_induction_on
    (motive := fun state _ => ∃ transactions, world' = run self state.1 transactions) h
  · exact ⟨[], rfl⟩
  · rintro ⟨world₁, tree₁⟩ ⟨world₂, tree₂⟩ hturn _ ⟨rest, hrest⟩
    rcases hturn.exists_run with ⟨transactions, rfl⟩
    refine ⟨transactions ++ rest, hrest.trans ?_⟩
    simp only [run, List.foldl_append]

/-- A turn keeps the tree in step. -/
theorem InStep.turn (h : InStep world tree)
    (hturn : Turn self config domain (world, tree) (world', tree')) : InStep world' tree' := by
  cases hturn with
  | others transactions hidle => exact h.others hidle
  | batch calls built accepted settled applied =>
      rcases exists_settlement accepted with ⟨s⟩
      rcases BatchBuilder.run_inv (BatchBuilder.new_inv tree config domain
        world.storage.nextBatchId world.storage.nextUnprocessedDeposit
        world.storage.nextUnprocessedForcedWithdrawal) calls with ⟨hinv, hstate⟩
      have happlied := (Applied.of_built h.coherent hinv hstate built s).2 applied
      exact h.batch s happlied settled

/-- A session keeps the tree in step. -/
theorem InStep.session (h : InStep world tree)
    (hsession : Session self config domain (world, tree) (world', tree')) :
    InStep world' tree' := by
  apply Relation.ReflTransGen.trans_induction_on
    (motive := fun {state state'} _ => InStep state.1 state.2 → InStep state'.1 state'.2) hsession
  · exact fun _ hstart => hstart
  · exact fun hturn hstart => hstart.turn hturn
  · exact fun _ _ hfirst hsecond hstart => hsecond (hfirst hstart)
  · exact h

/-- In every session, whatever is built and whatever others call in between short of settling a
batch, the tree of the operator has the root that the contract commits to and is in canonical form;
and the contract holds in each asset the balances of the tree that have not escaped, with all that
is queued and credited. -/
theorem operator_in_step (hfree : CollisionFree B256) (hverifier : VerifierSound self)
    {A₀ : List Account} {tree₀ : AccountTree} (hnew : AccountTree.new A₀ = .ok tree₀)
    (hcanonical : ∀ account ∈ A₀, account.Canonical) {initialStateRoot : B256}
    (hroot : tree₀.root = .ok initialStateRoot) {holdings : Address → U256}
    (hcovered : ∀ asset, supply A₀ asset ≤ (holdings asset).toNat) (initialBatchId : U64)
    (config : ExchangeConfig) (domain : SigningDomain) {world : World B256} {tree : AccountTree}
    (hsession : Session self config domain
      (genesis initialStateRoot initialBatchId holdings, tree₀) (world, tree)) :
    tree.Coherent ∧ AccountsCanonical tree.state.accounts ∧
      tree.root = .ok world.storage.stateRoot ∧
      ∀ asset, supply (unescaped world.storage tree.state.accounts) asset +
        queuedTotal world.storage asset + pendingTotal world.storage asset ≤
          (world.holdings asset).toNat := by
  have hperm := new_perm hnew
  have hgenesis : computeRoot A₀ = .ok initialStateRoot := by
    rw [← computeRoot_perm (commits_of_root hroot).nodup hperm]
    exact root_eq_ok.mp hroot
  have hstart : InStep (genesis initialStateRoot initialBatchId holdings) tree₀ :=
    ⟨AccountTree.new_coherent hnew, fun account haccount => hcanonical account
      (hperm.mem_iff.mp haccount), hroot⟩
  have hstep := hstart.session hsession
  rcases hsession.exists_run with ⟨transactions, rfl⟩
  refine ⟨hstep.coherent, ⟨hstep.coherent.sorted, hstep.canonical⟩, hstep.root, ?_⟩
  have howed := owed_run hfree hverifier hgenesis hcovered initialBatchId transactions
  rcases howed with ⟨A, hA, hheld⟩
  intro asset
  have hsame := (hstep.commits.perm hfree hA.commits).filter fun account =>
    !(run self (genesis initialStateRoot initialBatchId holdings)
      transactions).storage.escaped account.id
  have hx := hheld asset
  rw [unescaped, ← supply_perm hsame] at hx
  exact hx

end

/-- What is there was computed. -/
theorem eq_ok_of_toOption {ε α : Type} {x : Except ε α} {a : α} (h : x.toOption = some a) :
    x = .ok a := by
  cases x with
  | ok b => exact congrArg Except.ok (Option.some.inj h)
  | error e => cases h

/-- The operator of the small exchange builds a batch of the deposit and the request. -/
def testCalls : List BatchBuilder.Call :=
  [.deposit ⟨0, FixedBytes.replicate 20 3, FixedBytes.replicate 20 7, 4, none⟩,
    .forcedWithdraw ⟨0, FixedBytes.replicate 20 2, FixedBytes.replicate 20 7, 3, none⟩]

/-- Others queue the deposit and the request, and the operator has its batch settled. -/
theorem operator_in_step_testTransactions :
    ∃ (world : World IdealDigest) (tree : AccountTree),
      Session testContract testConfig ⟨1, 1, FixedBytes.replicate 20 9⟩
        (genesis testRoot 0 testHoldings, testTree) (world, tree) ∧
      world.storage.nextBatchId = 1 ∧ tree.Coherent ∧ AccountsCanonical tree.state.accounts ∧
      tree.root = .ok world.storage.stateRoot ∧
      ∀ asset, supply (unescaped world.storage tree.state.accounts) asset +
        queuedTotal world.storage asset + pendingTotal world.storage asset ≤
          (world.holdings asset).toNat := by
  let queued : World IdealDigest :=
    run testContract (genesis testRoot 0 testHoldings) (testTransactions.take 2)
  let b : BatchBuilder := (BatchBuilder.new testTree testConfig
    ⟨1, 1, FixedBytes.replicate 20 9⟩ 0 0 0).run testCalls
  have hnew : AccountTree.new testAccounts = .ok testTree := by with_unfolding_all rfl
  have hbuilds : ((b.build : Outcome BatchBuildError (BatchInput IdealDigest))).isOk = true := by
    decide +kernel
  rcases Outcome.exists_of_isOk hbuilds with ⟨input, hbuild⟩
  have haccepts : (b.build.toOption.map fun input : BatchInput IdealDigest =>
      (settleBatch input).toOption.map fun output =>
        (abiEncode output.publicOutput, (testTree.apply output.updatedAccounts).1)) =
      some (some (testPublicValues, .ok ())) := by decide +kernel
  rw [hbuild] at haccepts
  rcases Option.map_eq_some_iff.mp (Option.some.inj haccepts) with ⟨output, houtput, hvalues⟩
  have haccepted : settleBatch input = .ok output := eq_ok_of_toOption houtput
  have hpublic : abiEncode output.publicOutput = testPublicValues := congrArg Prod.fst hvalues
  have happlied : (testTree.apply output.updatedAccounts).1 = .ok () := congrArg Prod.snd hvalues
  have hsettles : (settle testContract (testContext 4 30) testPublicValues [] []
      [⟨0, FixedBytes.replicate 20 2, FixedBytes.replicate 20 7, 3⟩] (fun _ => .failed [])
      queued).toOption.map (fun world => world.storage.nextBatchId) = some 1 := by decide +kernel
  rcases Option.map_eq_some_iff.mp hsettles with ⟨world, hworld, hnumber⟩
  have hsettled := eq_ok_of_toOption hworld
  rw [← hpublic] at hsettled
  have hidle : settlements testContract (genesis testRoot 0 testHoldings)
      (testTransactions.take 2) = [] := by decide +kernel
  have hsession : Session testContract testConfig ⟨1, 1, FixedBytes.replicate 20 9⟩
      (genesis testRoot 0 testHoldings, testTree)
      (world, (testTree.apply output.updatedAccounts).2) := by
    refine Relation.ReflTransGen.tail (Relation.ReflTransGen.single (.others _ hidle)) ?_
    exact .batch testCalls hbuild haccepted hsettled happlied
  have hcan : AccountsCanonical testAccounts :=
    validateAccounts_spec (show validateAccounts testAccounts = .ok () by decide +kernel)
  have hroot : testTree.root = .ok testRoot := by decide +kernel
  exact ⟨world, _, hsession, hnumber, operator_in_step IdealDigest.collisionFree
    verifierSound_testContract hnew hcan.canonical hroot supply_testAccounts 0 testConfig _
    hsession⟩

end Contract

end ZkClob
