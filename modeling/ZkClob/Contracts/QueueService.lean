import ZkClob.Contracts.DepositQueue
import ZkClob.Contracts.EventLog
import ZkClob.Contracts.Operator

/-!
# The operator can always serve the queues

Whatever has happened before, an operator in step with the contract can empty the queues: it builds
a batch of the next entries, the guest accepts it, and no call of others short of settling another
batch takes the settlement away from it, unless escape mode is activated.  Every request that it
takes over is served with what its account holds.  The deposits must be ones that the operator can
take over: in configured assets, with room in its tree, and within the bound on the balances.

Main results:

- Theorem {lit}`Contract.Ready.exists_round`: the next batch of queue entries.
- Theorem {lit}`Contract.Ready.settled`: the operator is ready again after it.
- Theorem {lit}`Contract.queues_drain`: the operator can bring both queues to their present ends.
- Theorem {lit}`Contract.deposits_blocked`: a deposit in an unknown asset blocks the queue for good.
-/

namespace ZkClob

open Foundations Patricia

namespace Contract

variable {B256 : Type} {self : Immutables B256} {context : Context} {world world' : World B256}
  {tree tree' : AccountTree} {config : ExchangeConfig} {domain : SigningDomain}

/-! ## What can be taken over -/

/-- The next deposits can be taken over: they are in configured assets, the tree has room for their
accounts, and the totals fit. -/
structure Servable (config : ExchangeConfig) (storage : Storage B256) (tree : AccountTree)
    (count : Nat) : Prop where
  queued : storage.nextUnprocessedDeposit.toNat + count ≤ storage.nextDepositId.toNat
  assets : ∀ d ∈ queuedDeposits storage storage.nextUnprocessedDeposit.toNat count,
    (config.asset d.asset).isSome
  room : tree.state.accounts.length + count ≤ 2 ^ 32
  fits : ∀ x, supply tree.state.accounts x + tally (fun d => d.asset = x)
    (fun d => d.amount.toNat)
    (queuedDeposits storage storage.nextUnprocessedDeposit.toNat count) < 2 ^ 128

/-- Deposits create at most one account each. -/
theorem length_createdAccounts_le (tree : AccountTree) (deposits : List ZkClob.Deposit) :
    (createdAccounts tree deposits).length ≤ deposits.length := by
  have hdedup := (List.dedup_sublist (deposits.map ZkClob.Deposit.account)).length_le
  rw [List.length_map] at hdedup
  exact (List.length_filter_le _ _).trans hdedup

/-- Entries below the ends of the queues are the same in both storages. -/
theorem QueuesGrow.queuedDeposits_eq {storage storage' : Storage B256}
    (h : QueuesGrow storage storage') {start count : Nat}
    (hle : start + count ≤ storage.nextDepositId.toNat) :
    queuedDeposits storage' start count = queuedDeposits storage start count := by
  apply List.map_congr_left
  intro n hn
  rw [List.mem_range'_1] at hn
  rw [h.deposits n (by omega)]

theorem QueuesGrow.queuedRequests_eq {storage storage' : Storage B256}
    (h : QueuesGrow storage storage') {start count : Nat}
    (hle : start + count ≤ storage.nextForcedWithdrawalId.toNat) :
    queuedRequests storage' start count = queuedRequests storage start count := by
  apply List.map_congr_left
  intro n hn
  rw [List.mem_range'_1] at hn
  rw [h.requests n (by omega)]

/-- The entries of the queues that a builder can take. -/
theorem Servable.queueEntries {count : Nat} (h : Servable config world.storage tree count)
    (hdeposits : QueuePositive world.storage)
    (hrequests : ∀ id : U64, id.toNat < world.storage.nextForcedWithdrawalId.toNat →
      (world.storage.forcedWithdrawalRequests id).amount ≠ 0)
    {deposits requests : Nat} (hcount : deposits ≤ count)
    (hqueued : world.storage.nextUnprocessedForcedWithdrawal.toNat + requests ≤
      world.storage.nextForcedWithdrawalId.toNat)
    (hfits : deposits + requests ≤ 1000) :
    BatchBuilder.QueueEntries config world.storage.nextUnprocessedDeposit
      world.storage.nextUnprocessedForcedWithdrawal
      (queuedDeposits world.storage world.storage.nextUnprocessedDeposit.toNat deposits)
      (queuedRequests world.storage world.storage.nextUnprocessedForcedWithdrawal.toNat
        requests) := by
  have hend := h.queued
  have hdepositEnd := world.storage.nextDepositId.isLt
  have hrequestEnd := world.storage.nextForcedWithdrawalId.isLt
  constructor
  · rw [length_queuedDeposits]
    exact ids_queuedDeposits world.storage (by omega)
  · intro d hd
    constructor
    · rcases List.mem_map.mp hd with ⟨n, hn, rfl⟩
      rw [List.mem_range'_1] at hn
      exact hdeposits n (by omega)
    · apply h.assets
      rw [show count = deposits + (count - deposits) by omega, queuedDeposits_add]
      exact List.mem_append_left _ hd
  · rw [length_queuedDeposits]
    omega
  · rw [length_queuedRequests]
    exact ids_queuedRequests world.storage (by omega)
  · intro r hr
    rcases List.mem_map.mp hr with ⟨n, hn, rfl⟩
    rw [List.mem_range'_1] at hn
    apply hrequests
    rw [BitVec.toNat_ofNat, Nat.mod_eq_of_lt (by omega)]
    omega
  · rw [length_queuedRequests]
    omega
  · rw [length_queuedDeposits, length_queuedRequests]
    exact hfits

/-! ## The next batch -/

section

variable [Sha256 B256] [Secp256k1 B256]

/-- The domain and the configuration of an operator are those of the contract. -/
structure Deployment (contract : Immutables B256) (config : ExchangeConfig)
    (domain : SigningDomain) : Prop where
  protocolVersion : domain.protocolVersion = contract.PROTOCOL_VERSION
  exchangeId : domain.exchangeId = contract.EXCHANGE_ID
  configHash : hash config = contract.CONFIG_HASH
  assets : config.assets.length ≤ MAX_ASSETS
  markets : config.markets.length ≤ MAX_MARKETS

/-- The operator is in step, and can take over the next deposits. -/
structure Ready (config : ExchangeConfig) (world : World B256) (tree : AccountTree) (count : Nat) :
    Prop where
  inStep : InStep world tree
  validConfig : validateConfig config tree.state.accounts = .ok ()
  servable : Servable config world.storage tree count

/-- The drained amounts of a batch, as the calldata lists them. -/
def answersOf (output : BatchOutput B256) : List ForcedWithdrawal :=
  output.forcedWithdrawals.map fun w => ⟨w.id, w.account, w.asset, w.amount⟩

variable {input : BatchInput B256} {output : BatchOutput B256} {withdrawals : List Withdrawal}
  {forcedWithdrawals : List ForcedWithdrawal} {chainId : U256}

omit [Secp256k1 B256] in
/-- The next batch stays the next one while others call the contract. -/
theorem NextBatch.of_idle {storage storage' : Storage B256}
    (h : NextBatch self chainId storage input output withdrawals forcedWithdrawals)
    (hidle : Idle storage storage') (hrunning : storage'.escapeMode = false) :
    NextBatch self chainId storage' input output withdrawals forcedWithdrawals where
  running := hrunning
  protocolVersion := h.protocolVersion
  chainId := h.chainId
  exchangeId := h.exchangeId
  config := h.config
  batchId := h.batchId.trans hidle.nextBatchId.symm
  stateRoot := h.stateRoot.trans hidle.stateRoot.symm
  depositCursor := h.depositCursor.trans hidle.nextUnprocessedDeposit.symm
  depositsQueued := by
    rw [hidle.nextUnprocessedDeposit]
    exact h.depositsQueued.trans hidle.grow.nextDepositId
  deposits := by
    have hsame := hidle.grow.queuedDeposits_eq h.depositsQueued
    have hfields := congrArg (List.map ZkClob.Deposit.fields) hsame
    rw [fields_queuedDeposits, fields_queuedDeposits] at hfields
    rw [hidle.nextUnprocessedDeposit, hfields]
    exact h.deposits
  requestCursor := h.requestCursor.trans hidle.nextUnprocessedForcedWithdrawal.symm
  requestsQueued := by
    rw [hidle.nextUnprocessedForcedWithdrawal]
    exact h.requestsQueued.trans hidle.grow.nextForcedWithdrawalId
  requests := by
    have hsame := hidle.grow.queuedRequests_eq h.requestsQueued
    have hfields := congrArg (List.map ZkClob.ForcedWithdrawal.fields) hsame
    rw [fields_queuedRequests, fields_queuedRequests] at hfields
    rw [hidle.nextUnprocessedForcedWithdrawal, hfields]
    exact h.requests
  withdrawals := h.withdrawals
  forcedWithdrawals := h.forcedWithdrawals

variable [DecidableEq B256]

/-- A batch of the next queue entries, and what the operator has of it. -/
structure Round (contract : Immutables B256) (config : ExchangeConfig) (domain : SigningDomain)
    (world : World B256) (tree : AccountTree) (deposits requests : Nat) (input : BatchInput B256)
    (output : BatchOutput B256) : Prop where
  built : QueueRound tree config domain world.storage.nextBatchId
    world.storage.nextUnprocessedDeposit world.storage.nextUnprocessedForcedWithdrawal
    (queuedDeposits world.storage world.storage.nextUnprocessedDeposit.toNat deposits)
    (queuedRequests world.storage world.storage.nextUnprocessedForcedWithdrawal.toNat requests)
    input output
  served : Served tree.state.accounts input output
  applied : (tree.apply output.updatedAccounts).1 = .ok ()
  kept : Applied tree input output (tree.apply output.updatedAccounts).2
  next : NextBatch contract (domain.chainId.setWidth 256) world.storage input output
    output.withdrawals (answersOf output)
  deposits : input.deposits.map ZkClob.Deposit.fields =
    (queuedDeposits world.storage world.storage.nextUnprocessedDeposit.toNat deposits).map
      ZkClob.Deposit.fields
  requests : input.forcedWithdrawals.length = requests

/-- The operator builds a batch of the next entries of the queues, and the guest accepts it. -/
theorem Ready.exists_round (hfree : CollisionFree B256) (hdeployed : Deployment self config domain)
    {count : Nat} (h : Ready config world tree count)
    (hrunning : world.storage.escapeMode = false)
    {deposits requests : Nat} (hcount : deposits ≤ count)
    (hqueued : world.storage.nextUnprocessedForcedWithdrawal.toNat + requests ≤
      world.storage.nextForcedWithdrawalId.toNat) (hone : requests ≤ 1)
    (hentries : BatchBuilder.QueueEntries config world.storage.nextUnprocessedDeposit
      world.storage.nextUnprocessedForcedWithdrawal
      (queuedDeposits world.storage world.storage.nextUnprocessedDeposit.toNat deposits)
      (queuedRequests world.storage world.storage.nextUnprocessedForcedWithdrawal.toNat
        requests)) :
    ∃ input output, Round self config domain world tree deposits requests input output := by
  have htree := h.inStep.coherent
  have hall : queuedDeposits world.storage world.storage.nextUnprocessedDeposit.toNat count =
      queuedDeposits world.storage world.storage.nextUnprocessedDeposit.toNat deposits ++
        queuedDeposits world.storage (world.storage.nextUnprocessedDeposit.toNat + deposits)
          (count - deposits) := by
    rw [← queuedDeposits_add, Nat.add_sub_cancel' hcount]
  have hfits : ∀ x, supply tree.state.accounts x + tally (fun d => d.asset = x)
      (fun d => d.amount.toNat)
      (queuedDeposits world.storage world.storage.nextUnprocessedDeposit.toNat deposits) <
        2 ^ 128 := by
    intro x
    have hx := h.servable.fits x
    rw [hall, tally_append] at hx
    omega
  have hbuilt : ∃ (input : BatchInput B256) (output : BatchOutput B256), QueueRound _ _ _ _ _ _ _ _
      input output := exists_queueRound htree h.inStep.canonical h.validConfig hdeployed.assets
    hdeployed.markets hentries hfits domain world.storage.nextBatchId
  rcases hbuilt with ⟨input, output, hround⟩
  rcases exists_settlement hround.accepted with ⟨s⟩
  rcases hround.exists_builder hentries with ⟨b, hbuilder, hbuild⟩
  have hout := BatchBuilder.build_output hbuild
  have hheader := BatchBuilder.build_header hbuild
  have hdeposited : input.deposits.map ZkClob.Deposit.fields =
      (queuedDeposits world.storage world.storage.nextUnprocessedDeposit.toNat deposits).map
        ZkClob.Deposit.fields := by
    rw [← hbuilder.deposits]
    exact hout.deposits.map_eq fun _ _ => rfl
  have hrequested : input.forcedWithdrawals.map ZkClob.ForcedWithdrawal.fields =
      (queuedRequests world.storage world.storage.nextUnprocessedForcedWithdrawal.toNat
        requests).map ZkClob.ForcedWithdrawal.fields := by
    rw [← hbuilder.forcedWithdrawals]
    exact hout.forcedWithdrawals.map_eq fun _ _ => rfl
  have hdepositCount : input.deposits.length = deposits := by
    have hlength := congrArg List.length hdeposited
    rwa [List.length_map, List.length_map, length_queuedDeposits] at hlength
  have hrequestCount : input.forcedWithdrawals.length = requests := by
    have hlength := congrArg List.length hrequested
    rwa [List.length_map, List.length_map, length_queuedRequests] at hlength
  have happly := Applied.of_built htree hbuilder.inv hbuilder.state hbuild s
  have happlied : (tree.apply output.updatedAccounts).1 = .ok () := by
    rw [happly.1]
    have hcreated := length_createdAccounts_le tree input.deposits
    have hroom := h.servable.room
    omega
  have hkept := happly.2 happlied
  refine ⟨input, output, hround, ?_, happlied, hkept, ?_, hdeposited, hrequestCount⟩
  · apply hround.served hfree htree hentries h.validConfig
    left
    rw [length_queuedRequests]
    exact hone
  · have hend := h.servable.queued
    constructor
    · exact hrunning
    · rw [hheader.1, hbuilder.domain]
      exact hdeployed.protocolVersion
    · rw [hheader.1, hbuilder.domain]
    · rw [hheader.1, hbuilder.domain]
      exact hdeployed.exchangeId
    · rw [hout.config, hbuilder.config]
      exact hdeployed.configHash
    · rw [hheader.2, hbuilder.batchId]
    · exact Except.ok.inj (hkept.oldRoot.symm.trans h.inStep.root)
    · rw [hout.oldDepositCursor, hbuilder.oldDepositCursor]
    · omega
    · rw [hdeposited, fields_queuedDeposits, hdepositCount]
    · rw [hout.oldForcedWithdrawalCursor, hbuilder.oldForcedWithdrawalCursor]
    · omega
    · rw [hrequested, fields_queuedRequests, hrequestCount]
    · rfl
    · rw [answersOf, List.map_map]
      rfl

/-! ## After the batch -/

variable [Bytes32 B256] [ISP1Verifier B256] {deposits requests count : Nat} {proof : Bytes}
  {outcomes : Nat → Delivery B256}

/-- A settled round has moved the cursors over its entries. -/
theorem Round.advanced (hfree : CollisionFree B256)
    (h : Round self config domain world tree deposits requests input output) {middle : World B256}
    (hidle : Idle world.storage middle.storage)
    (hsettled : settle self context (abiEncode output.publicOutput) proof output.withdrawals
      (answersOf output) outcomes middle = .ok world') :
    world'.storage.nextUnprocessedDeposit.toNat =
        world.storage.nextUnprocessedDeposit.toNat + deposits ∧
      world'.storage.nextUnprocessedForcedWithdrawal.toNat =
        world.storage.nextUnprocessedForcedWithdrawal.toNat + requests ∧
      QueuesGrow world.storage world'.storage := by
  rcases exists_settlement h.built.accepted with ⟨s⟩
  rcases settle_spec hsettled with ⟨publicOutput, cursor, hmade⟩
  have hpublic : output.publicOutput = publicOutput := by
    have hdecoded := hmade.decoded
    rw [abiDecode_abiEncode, Except.ok.injEq] at hdecoded
    exact hdecoded
  have hagree := hmade.agreement hfree s hpublic
  have hkept := hmade.paid.kept
  have hgrow := hkept.queuesGrow
  have hcount := congrArg List.length h.deposits
  rw [List.length_map, List.length_map, length_queuedDeposits] at hcount
  refine ⟨?_, ?_, hidle.grow.trans ⟨hgrow.1, hgrow.2, hgrow.3, hgrow.4⟩⟩
  · rw [hkept.nextUnprocessedDeposit]
    exact hagree.depositCursor.trans (by rw [hidle.nextUnprocessedDeposit, hcount])
  · rw [hkept.nextUnprocessedForcedWithdrawal]
    exact hagree.forcedWithdrawalCursor.trans
      (by rw [hidle.nextUnprocessedForcedWithdrawal, h.requests])

/-- After a settled round the operator is ready for the rest. -/
theorem Ready.settled (hfree : CollisionFree B256) (h : Ready config world tree count)
    (hround : Round self config domain world tree deposits requests input output)
    (hcount : deposits ≤ count) {middle : World B256} (hidle : Idle world.storage middle.storage)
    (hsettled : settle self context (abiEncode output.publicOutput) proof output.withdrawals
      (answersOf output) outcomes middle = .ok world') :
    Ready config world' (tree.apply output.updatedAccounts).2 (count - deposits) := by
  rcases exists_settlement hround.built.accepted with ⟨s⟩
  rcases hround.advanced hfree hidle hsettled with ⟨hcursor, _, hgrow⟩
  have hmiddle : InStep middle tree :=
    ⟨h.inStep.coherent, h.inStep.canonical,
      h.inStep.root.trans (congrArg Except.ok hidle.stateRoot.symm)⟩
  have hend := h.servable.queued
  -- the deposits that are left
  have hrest : queuedDeposits world'.storage world'.storage.nextUnprocessedDeposit.toNat
      (count - deposits) = queuedDeposits world.storage
        (world.storage.nextUnprocessedDeposit.toNat + deposits) (count - deposits) := by
    rw [hcursor]
    exact hgrow.queuedDeposits_eq (by omega)
  have hall : queuedDeposits world.storage world.storage.nextUnprocessedDeposit.toNat count =
      queuedDeposits world.storage world.storage.nextUnprocessedDeposit.toNat deposits ++
        queuedDeposits world.storage (world.storage.nextUnprocessedDeposit.toNat + deposits)
          (count - deposits) := by
    rw [← queuedDeposits_add, Nat.add_sub_cancel' hcount]
  refine ⟨hmiddle.batch s hround.kept hsettled, ?_, ?_, ?_, ?_, fun x => ?_⟩
  · apply validateConfig_of_mem h.validConfig
    exact hround.kept.mem_ids (validateConfig_spec h.validConfig).recipient
  · have hnext := hgrow.nextDepositId
    omega
  · intro d hd
    apply h.servable.assets
    rw [hall]
    exact List.mem_append_right _ (hrest ▸ hd)
  · have hlength := hround.kept.length
    have hcreated := length_createdAccounts_le tree input.deposits
    have hroom := h.servable.room
    have hlisted := congrArg List.length hround.deposits
    rw [List.length_map, List.length_map, length_queuedDeposits] at hlisted
    omega
  · have hx := h.servable.fits x
    have hsupply := hround.kept.supply_le hfree s x
    rw [tally_deposits_fields, hround.deposits, ← tally_deposits_fields] at hsupply
    rw [hall, tally_append] at hx
    rw [hrest]
    omega

/-! ## Emptying the queues -/

/-- There is a proof of every batch that the guest accepts. -/
def VerifierComplete (contract : Immutables B256) : Prop :=
  ∀ (input : BatchInput B256) (output : BatchOutput B256), settleBatch input = .ok output →
    ∃ proof, ISP1Verifier.verifyProof contract.VERIFIER contract.PROGRAM_VKEY
      (abiEncode output.publicOutput) proof = true

variable [MathLibrary]

/-- The operator can bring the contract to a goal, whatever others call short of settling a batch
and however the transfers end: round by round it has a batch of the next entries of the queues that
serves the requests, which can be settled after these calls, unless they have activated escape
mode. -/
inductive CanReach (contract : Immutables B256) (config : ExchangeConfig) (domain : SigningDomain)
    (goal : World B256 → Prop) : World B256 → AccountTree → Prop
  | reached {world : World B256} {tree : AccountTree} (h : goal world) :
      CanReach contract config domain goal world tree
  | round {world : World B256} {tree : AccountTree} {deposits requests : Nat}
      {input : BatchInput B256} {output : BatchOutput B256} (proof : Bytes)
      (round : Round contract config domain world tree deposits requests input output)
      (settles : ∀ others context outcomes, settlements contract world others = [] →
        context.chainId = domain.chainId.setWidth 256 →
        (run contract world others).storage.escapeMode = true ∨
          ∃ world', settle contract context (abiEncode output.publicOutput) proof
            output.withdrawals (answersOf output) outcomes (run contract world others) =
              .ok world')
      (rest : ∀ others context outcomes world', settlements contract world others = [] →
        settle contract context (abiEncode output.publicOutput) proof output.withdrawals
          (answersOf output) outcomes (run contract world others) = .ok world' →
        CanReach contract config domain goal world' (tree.apply output.updatedAccounts).2) :
      CanReach contract config domain goal world tree

/-- Both queues have been served up to given ends, or escape mode is active. -/
def ServedUpTo (depositEnd requestEnd : Nat) (world : World B256) : Prop :=
  world.storage.escapeMode = true ∨
    depositEnd ≤ world.storage.nextUnprocessedDeposit.toNat ∧
      requestEnd ≤ world.storage.nextUnprocessedForcedWithdrawal.toNat

/-- A round of a run can be settled after any calls of others that leave the contract running. -/
theorem Round.settles (hfree : CollisionFree B256) (hverifier : VerifierSound self)
    {A₀ : List Account} {initialStateRoot : B256} (hgenesis : computeRoot A₀ = .ok initialStateRoot)
    {holdings : Address → U256} (hcovered : ∀ asset, supply A₀ asset ≤ (holdings asset).toNat)
    {initialBatchId : U64} {transactions : List (Context × Call B256)}
    (h : Round self config domain (run self (genesis initialStateRoot initialBatchId holdings)
      transactions) tree deposits requests input output)
    (hproof : ISP1Verifier.verifyProof self.VERIFIER self.PROGRAM_VKEY
      (abiEncode output.publicOutput) proof = true) {others : List (Context × Call B256)}
    (hidle : settlements self (run self (genesis initialStateRoot initialBatchId holdings)
      transactions) others = []) (hchain : context.chainId = domain.chainId.setWidth 256)
    (outcomes : Nat → Delivery B256) :
    let middle := run self (run self (genesis initialStateRoot initialBatchId holdings)
      transactions) others
    middle.storage.escapeMode = true ∨ ∃ world', settle self context
      (abiEncode output.publicOutput) proof output.withdrawals (answersOf output) outcomes middle =
        .ok world' := by
  intro middle
  by_cases hactive : middle.storage.escapeMode = true
  · exact Or.inl hactive
  · right
    rcases exists_settlement h.built.accepted with ⟨s⟩
    have howed := owed_run hfree hverifier hgenesis hcovered initialBatchId (transactions ++ others)
    have hrun : run self (genesis initialStateRoot initialBatchId holdings)
        (transactions ++ others) = middle := by
      simp only [middle, run, List.foldl_append]
    rw [hrun] at howed
    rcases howed with ⟨A, hA, hheld⟩
    have hnext := h.next.of_idle (Idle.run hidle) (Bool.not_eq_true _ ▸ hactive)
    rw [← hchain] at hnext
    exact hnext.settle hfree hA hheld s hproof

/-- The operator can serve what is left of the queues up to given ends. -/
theorem Ready.canReach (hfree : CollisionFree B256) (hverifier : VerifierSound self)
    (hcomplete : VerifierComplete self) (hdeployed : Deployment self config domain)
    {A₀ : List Account} {initialStateRoot : B256} (hgenesis : computeRoot A₀ = .ok initialStateRoot)
    {holdings : Address → U256} (hcovered : ∀ asset, supply A₀ asset ≤ (holdings asset).toNat)
    {initialBatchId : U64} {transactions : List (Context × Call B256)}
    (hworld : world = run self (genesis initialStateRoot initialBatchId holdings) transactions)
    (hready : Ready config world tree count) {depositEnd requestEnd : Nat}
    (hdeposits : world.storage.nextUnprocessedDeposit.toNat + count = depositEnd)
    (hrequests : world.storage.nextUnprocessedForcedWithdrawal.toNat + requests = requestEnd)
    (hqueued : requestEnd ≤ world.storage.nextForcedWithdrawalId.toNat) :
    CanReach self config domain (ServedUpTo depositEnd requestEnd) world tree := by
  -- fewer entries are left after every round
  induction hleft : count + requests using Nat.strong_induction_on
    generalizing world tree transactions count requests with
  | _ left ih =>
      by_cases hactive : world.storage.escapeMode = true
      · exact .reached (Or.inl hactive)
      · by_cases hnone : count = 0 ∧ requests = 0
        · exact .reached (Or.inr ⟨by omega, by omega⟩)
        · rw [Bool.not_eq_true] at hactive
          have hpositive : QueuePositive world.storage := by
            rw [hworld]
            exact queue_positive initialStateRoot initialBatchId holdings transactions
          have hasked : ∀ id : U64, id.toNat < world.storage.nextForcedWithdrawalId.toNat →
              (world.storage.forcedWithdrawalRequests id).amount ≠ 0 := by
            rw [hworld]
            exact requests_positive self initialStateRoot initialBatchId holdings transactions
          have hentries := hready.servable.queueEntries hpositive hasked
            (show min count 999 ≤ count by omega)
            (show world.storage.nextUnprocessedForcedWithdrawal.toNat + min requests 1 ≤ _ by omega)
            (by omega)
          rcases hready.exists_round hfree hdeployed hactive (by omega) (by omega) (by omega)
            hentries with ⟨input, output, hround⟩
          rcases hcomplete input output hround.built.accepted with ⟨proof, hproof⟩
          refine .round proof hround ?_ ?_
          · intro others context outcomes hidle hchain
            subst hworld
            exact hround.settles hfree hverifier hgenesis hcovered hproof hidle hchain outcomes
          · intro others context outcomes world' hidle hsettled
            have hsame := Idle.run hidle
            have hnext := hready.settled hfree hround (by omega) hsame hsettled
            rcases hround.advanced hfree hsame hsettled with ⟨hdeposit, hrequest, hgrow⟩
            have hworld' : world' = run self (genesis initialStateRoot initialBatchId holdings)
                (transactions ++ others ++ [(context, .settle (abiEncode output.publicOutput) proof
                  output.withdrawals (answersOf output) outcomes)]) := by
              simp only [run, List.foldl_append, List.foldl_cons, List.foldl_nil]
              rw [hworld] at hsettled
              simp only [run] at hsettled
              simp only [step, exec, nonReentrant_notEntered, hsettled]
            have hgrown := hgrow.nextForcedWithdrawalId
            exact ih (count - min count 999 + (requests - min requests 1)) (by omega) hworld' hnext
              (by omega) (by omega) (by omega) rfl

/-- From every run in which the operator is in step with the contract and can take over some of the
pending deposits, it can serve both queues, up to the last of these deposits and up to the last
request: whatever others call in the meantime short of settling a batch, and however the payouts
end, only escape mode can keep it from doing so. -/
theorem queues_drain (hfree : CollisionFree B256) (hverifier : VerifierSound self)
    (hcomplete : VerifierComplete self) (hdeployed : Deployment self config domain)
    {A₀ : List Account} {initialStateRoot : B256} (hgenesis : computeRoot A₀ = .ok initialStateRoot)
    {holdings : Address → U256} (hcovered : ∀ asset, supply A₀ asset ≤ (holdings asset).toNat)
    (initialBatchId : U64) (transactions : List (Context × Call B256)) {tree : AccountTree}
    {count : Nat} :
    let world := run self (genesis initialStateRoot initialBatchId holdings) transactions
    Ready config world tree count →
      CanReach self config domain (ServedUpTo (world.storage.nextUnprocessedDeposit.toNat + count)
        world.storage.nextForcedWithdrawalId.toNat) world tree := by
  intro world hready
  rcases exists_batches hverifier (genesis initialStateRoot initialBatchId holdings) transactions
    with ⟨batches, hbatches⟩
  have hcursor := (consumed_run hfree hbatches).requestCursor
  exact hready.canReach hfree hverifier hcomplete hdeployed hgenesis hcovered rfl rfl
    (Nat.add_sub_cancel' hcursor) le_rfl

/-! ## Deposits that no batch takes -/

omit [Bytes32 B256] [ISP1Verifier B256] [MathLibrary] in
/-- An accepted batch takes deposits of its own configuration only. -/
theorem configured_of_accepted (h : settleBatch input = .ok output) :
    (∀ d ∈ input.deposits, (input.config.asset d.asset).isSome) ∧
      input.config.assets.length ≤ MAX_ASSETS ∧ input.config.markets.length ≤ MAX_MARKETS := by
  simp only [settleBatch, Outcome.bind_eq_ok] at h
  rcases h with ⟨_, hlimits, _, _, _, _, newCursor, hdeposits, _⟩
  simp only [validateLimits, Outcome.bind_eq_ok, Outcome.rejectIf_eq_ok, not_lt] at hlimits
  rcases hlimits with ⟨_, _, _, _, _, _, _, _, _, _, _, hassets, _, hmarkets, _⟩
  have hall := (exists_validateDeposits.mp ⟨newCursor, hdeposits⟩).2.2
  exact ⟨fun d hd => (hall d hd).2, hassets, hmarkets⟩

/-- In every run only deposits in configured assets are consumed: a deposit in any other asset stays
in the queue, and so does everything behind it. -/
theorem consumed_configured (hfree : CollisionFree B256) (hverifier : VerifierSound self)
    (hconfig : hash config = self.CONFIG_HASH) (hassets : config.assets.length ≤ MAX_ASSETS)
    (hmarkets : config.markets.length ≤ MAX_MARKETS) (initialStateRoot : B256)
    (initialBatchId : U64) (holdings : Address → U256)
    (transactions : List (Context × Call B256)) :
    let storage :=
      (run self (genesis initialStateRoot initialBatchId holdings) transactions).storage
    ∀ id : U64, (config.asset (storage.deposits id).asset).isNone →
      storage.nextUnprocessedDeposit.toNat ≤ id.toNat := by
  intro storage id hunknown
  by_contra hlt
  rw [not_le] at hlt
  rcases exists_batches hverifier (genesis initialStateRoot initialBatchId holdings) transactions
    with ⟨batches, hbatches⟩
  have hconsumed := (consumed_run hfree hbatches).deposits
  have hentry : depositAt storage id.toNat ∈
      (batches.flatMap fun batch => batch.1.deposits).map ZkClob.Deposit.fields := by
    rw [hconsumed]
    exact List.mem_map_of_mem (List.mem_range.mpr hlt)
  rcases List.mem_map.mp hentry with ⟨d, hd, hfields⟩
  rcases List.mem_flatMap.mp hd with ⟨batch, hbatch, hdeposit⟩
  have hmade := madeFor_run hbatches batch hbatch
  rcases exists_of_mem_forall₂ hbatches hbatch with ⟨_, _, hproved⟩
  rcases configured_of_accepted hproved.1 with ⟨hknown, hassets', hmarkets'⟩
  -- the batch was made with the same configuration
  have hsame : batch.1.config = config := by
    have hbound : MAX_ASSETS < 2 ^ 64 ∧ MAX_MARKETS < 2 ^ 64 := by decide
    apply ExchangeConfig.eq_of_updateHash_eq
    · exact hassets'.trans_lt hbound.1
    · exact hmarkets'.trans_lt hbound.2
    · exact hassets.trans_lt hbound.1
    · exact hmarkets.trans_lt hbound.2
    · exact updateHash_eq_of_hash_eq hfree (hmade.config.trans hconfig.symm)
  have hasset := congrArg (fun fields : QueueFields => fields.2.2.1) hfields
  have hid : BitVec.ofNat 64 id.toNat = id := by simp
  simp only [depositAt, hid] at hasset
  have hsome := hknown d hdeposit
  change d.asset = (storage.deposits id).asset at hasset
  rw [hsame, hasset] at hsome
  rw [Option.isNone_iff_eq_none] at hunknown
  rw [hunknown] at hsome
  cases hsome

omit [Secp256k1 B256] in
/-- Queues only grow over a run. -/
theorem queuesGrow_run (world : World B256) (transactions : List (Context × Call B256)) :
    QueuesGrow world.storage (run self world transactions).storage := by
  apply run_invariant (P := fun world' : World B256 => QueuesGrow world.storage world'.storage)
  · intro world' transaction h
    exact h.trans (step_effect self world' transaction).queuesGrow
  · exact (Kept.refl world.storage).queuesGrow

/-- A deposit in an asset that the exchange does not trade blocks the queue: after everything that
can happen from then on, it is still there, and nothing from it on has been consumed. -/
theorem deposits_blocked (hfree : CollisionFree B256) (hverifier : VerifierSound self)
    (hconfig : hash config = self.CONFIG_HASH) (hassets : config.assets.length ≤ MAX_ASSETS)
    (hmarkets : config.markets.length ≤ MAX_MARKETS) (initialStateRoot : B256)
    (initialBatchId : U64) (holdings : Address → U256)
    (before after : List (Context × Call B256)) (id : U64) :
    let start := genesis initialStateRoot initialBatchId holdings
    let queued := (run self start before).storage
    let storage := (run self start (before ++ after)).storage
    id.toNat < queued.nextDepositId.toNat →
      (config.asset (queued.deposits id).asset).isNone →
        storage.deposits id = queued.deposits id ∧
          storage.nextUnprocessedDeposit.toNat ≤ id.toNat ∧
          id.toNat < storage.nextDepositId.toNat := by
  intro start queued storage hid hunknown
  have hrun : run self start (before ++ after) = run self (run self start before) after := by
    simp only [run, List.foldl_append]
  have hgrow : QueuesGrow queued storage := by
    simp only [storage, hrun]
    exact queuesGrow_run (run self start before) after
  have hentry := hgrow.deposits id.toNat hid
  have hnumber : BitVec.ofNat 64 id.toNat = id := by simp
  simp only [depositAt, hnumber, Prod.mk.injEq, true_and] at hentry
  have hsame : storage.deposits id = queued.deposits id := by
    cases hafter : storage.deposits id with
    | mk account asset amount =>
        cases hbefore : queued.deposits id with
        | mk account' asset' amount' =>
            rw [hafter, hbefore] at hentry
            rcases hentry with ⟨rfl, rfl, rfl⟩
            rfl
  refine ⟨hsame, ?_, hid.trans_le hgrow.nextDepositId⟩
  apply consumed_configured hfree hverifier hconfig hassets hmarkets initialStateRoot
    initialBatchId holdings (before ++ after) id
  change (config.asset (storage.deposits id).asset).isNone = true
  rw [hsame]
  exact hunknown

end

/-- A verifier with a proof of every batch that the guest accepts. -/
@[reducible]
noncomputable def idealVerifier : ISP1Verifier IdealDigest where
  verifyProof _ _ publicValues _ := @decide
    (∃ (input : BatchInput IdealDigest) (output : BatchOutput IdealDigest),
      settleBatch input = .ok output ∧ publicValues = abiEncode output.publicOutput)
    (Classical.propDecidable _)

/-- The operator of the small exchange can serve the deposit and the request. -/
theorem queues_drain_testTransactions :
    letI : ISP1Verifier IdealDigest := idealVerifier
    let world := run testContract (genesis testRoot 0 testHoldings) (testTransactions.take 2)
    world.storage.nextDepositId = 1 ∧ world.storage.nextForcedWithdrawalId = 1 ∧
      CanReach testContract testConfig ⟨1, 1, FixedBytes.replicate 20 9⟩ (ServedUpTo 1 1) world
        testTree := by
  let _ : ISP1Verifier IdealDigest := idealVerifier
  intro world
  have hcan : AccountsCanonical testAccounts :=
    validateAccounts_spec (show validateAccounts testAccounts = .ok () by decide +kernel)
  have hqueued : queuedDeposits world.storage 0 1 =
      [⟨0, FixedBytes.replicate 20 3, FixedBytes.replicate 20 7, 4, none⟩] := by decide +kernel
  have hready : Ready testConfig world testTree 1 := by
    refine ⟨⟨testTree_inUse.coherent, hcan.canonical, by decide +kernel⟩, by decide +kernel, ?_⟩
    constructor
    · decide +kernel
    · change ∀ d ∈ queuedDeposits world.storage 0 1, (testConfig.asset d.asset).isSome
      rw [hqueued]
      decide +kernel
    · decide +kernel
    · intro x
      change supply testAccounts x + tally _ _ (queuedDeposits world.storage 0 1) < 2 ^ 128
      have hsupply := supply_testAccounts x
      have hheld : (testHoldings x).toNat ≤ 5 := by
        unfold testHoldings
        split <;> decide
      rw [hqueued, tally_cons, tally_nil]
      split
      · change supply testAccounts x + (4 + 0) < 2 ^ 128
        omega
      · omega
  have hsound : VerifierSound testContract := by
    intro publicValues proof hverified
    exact @of_decide_eq_true _ (Classical.propDecidable _) hverified
  have hcomplete : VerifierComplete testContract := by
    intro input output haccepted
    exact ⟨[], @decide_eq_true _ (Classical.propDecidable _) ⟨input, output, haccepted, rfl⟩⟩
  have hdeployed : Deployment testContract testConfig ⟨1, 1, FixedBytes.replicate 20 9⟩ :=
    ⟨rfl, rfl, rfl, by decide, by decide⟩
  have hroot : computeRoot testAccounts = .ok testRoot := by decide +kernel
  exact ⟨by decide +kernel, by decide +kernel, queues_drain IdealDigest.collisionFree hsound
    hcomplete hdeployed hroot supply_testAccounts 0 (testTransactions.take 2) hready⟩

/-- The first deposit of the small exchange is in no asset that it trades, and blocks the second
one, which is in one, also when the batch is sent to the contract. -/
theorem deposits_blocked_testDeposits :
    let start := genesis testRoot 0 testHoldings
    let queued := (run testContract start testDeposits).storage
    let storage := (run testContract start (testDeposits ++ testTransactions)).storage
    queued.nextDepositId = 2 ∧ storage.deposits 0 = queued.deposits 0 ∧
      storage.nextUnprocessedDeposit = 0 := by
  intro start queued
  have hblocked : ∀ after : List (Context × Call IdealDigest),
      let storage := (run testContract start (testDeposits ++ after)).storage
      storage.deposits 0 = queued.deposits 0 ∧ storage.nextUnprocessedDeposit = 0 := by
    intro after storage
    have h := deposits_blocked IdealDigest.collisionFree verifierSound_testContract
      (show hash testConfig = testContract.CONFIG_HASH from rfl) (by decide) (by decide) testRoot 0
      testHoldings testDeposits after 0 (by decide +kernel) (by decide +kernel)
    refine ⟨h.1, ?_⟩
    apply BitVec.eq_of_toNat_eq
    exact Nat.le_zero.mp h.2.1
  exact ⟨by decide +kernel, hblocked testTransactions⟩

end Contract

end ZkClob
