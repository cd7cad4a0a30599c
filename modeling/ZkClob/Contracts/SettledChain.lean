import ZkClob.Contracts.SettleAcceptance
import ZkClob.Settlement.NonceChain

/-!
# The chain of settled batches

The batches that a contract settles form a chain from the genesis root to the committed root,
and carry consecutive numbers.  What is known of chains of the guest is therefore known of every
run of the contract: no signed operation is executed twice, and the committed balances are those
of genesis with all deposits, trades and withdrawals of the run booked on them.

Main results:

- Theorem {lit}`Contract.batches_numbered`: batch numbers are consecutive, and nothing is settled
  twice.
- Theorem {lit}`Contract.operations_authorized_once`: every executed operation was signed for this
  contract, and is executed once.
- Theorem {lit}`Contract.ledger_run`: the committed balances against the queues and the calldata of
  a whole run.
-/

namespace ZkClob

open Foundations Patricia

/-! ## Chains of the guest -/

section

variable {B256 : Type} [Sha256 B256] [Secp256k1 B256] [DecidableEq B256]

/-- A chain goes on with a batch that starts at its final root. -/
theorem Chain.snoc {root root' : B256} {batches : List (BatchInput B256 × BatchOutput B256)}
    (h : Chain root batches root') {input : BatchInput B256} {output : BatchOutput B256}
    (accepted : settleBatch input = .ok output) (hroot : input.expectedOldStateRoot = root') :
    Chain root (batches ++ [(input, output)]) output.publicOutput.newStateRoot := by
  induction h with
  | nil root =>
      subst hroot
      exact Chain.cons accepted (Chain.nil _)
  | cons first _ ih => exact Chain.cons first (ih hroot)

/-- What a batch adds to the balance of an account in an asset. -/
def BatchInput.credited (input : BatchInput B256) (output : BatchOutput B256) (id : AccountId)
    (asset : AssetId) : Nat :=
  tally (fun d => d.account = id ∧ d.asset = asset) (fun d => d.amount.toNat) input.deposits +
    boughtBase input.config output.trades id asset +
    receivedQuote input.config output.trades id asset +
    receivedFees input.config output.trades id asset

/-- What a batch takes from the balance of an account in an asset. -/
def BatchInput.debited (input : BatchInput B256) (output : BatchOutput B256) (id : AccountId)
    (asset : AssetId) : Nat :=
  tally (fun w => w.account = id ∧ w.asset = asset) (fun w => w.amount.toNat)
      output.forcedWithdrawals +
    tally (fun w => w.account = id ∧ w.asset = asset) (fun w => w.amount.toNat)
      output.withdrawals +
    paidQuote input.config output.trades id asset + soldBase input.config output.trades id asset

omit [DecidableEq B256] in
/-- A batch books its credits and debits on the whole account set. -/
theorem Settlement.holding_nextState_eq (hfree : CollisionFree B256) {input : BatchInput B256}
    {output : BatchOutput B256} {A : List Account} (s : Settlement input output)
    (hA : Commits A input.expectedOldStateRoot) (id : AccountId) (asset : AssetId) :
    holding (nextState A input output) id asset + input.debited output id asset =
      holding A id asset + input.credited output id asset := by
  have hnext := s.holding_nextState hfree hA id asset
  have hledger := s.holding_eq id asset
  have hwithdrawals : tally (fun w : ExecutedWithdrawal => w.account = id ∧ w.asset = asset)
      (fun w => w.amount.toNat) output.withdrawals =
      tally (fun w => w.account = id ∧ w.asset = asset) (fun w => w.amount.toNat)
        input.withdrawals := by
    have hlisted : output.withdrawals = input.withdrawals.map ExecutedWithdrawal.from := by
      rw [s.output_eq]
      rfl
    rw [hlisted, tally_map]
    rfl
  rw [BatchInput.debited, BatchInput.credited, hwithdrawals]
  omega

/-- A chain books the credits and debits of all its batches. -/
theorem Chain.holding_eq (hfree : CollisionFree B256) {root root' : B256}
    {batches : List (BatchInput B256 × BatchOutput B256)} (h : Chain root batches root')
    {A A' : List Account} (hA : Commits A root) (hA' : Commits A' root') (id : AccountId)
    (asset : AssetId) :
    holding A' id asset + (batches.map fun b => b.1.debited b.2 id asset).sum =
      holding A id asset + (batches.map fun b => b.1.credited b.2 id asset).sum := by
  induction h generalizing A with
  | nil root =>
      have hsame := holding_perm (hA'.perm hfree hA) id asset
      simp [hsame]
  | @cons input output batches root accepted rest ih =>
      rcases exists_settlement accepted with ⟨s⟩
      have hnext := s.holding_nextState_eq hfree hA id asset
      have hrest := ih (s.nextState_root hfree hA) hA'
      simp only [List.map_cons, List.sum_cons]
      omega

/-! ## Signed operations -/

/-- The signers and nonces of the operations of a batch. -/
def BatchInput.operations (input : BatchInput B256) : List (AccountId × Nat) :=
  input.orders.map (fun order => (order.trader, order.nonce.toNat)) ++
    input.withdrawals.map fun withdrawal => (withdrawal.account, withdrawal.nonce.toNat)

omit [Sha256 B256] [Secp256k1 B256] [DecidableEq B256] in
/-- The nonces of one account are those of the operations that it signed. -/
theorem BatchInput.noncesOf_eq (input : BatchInput B256) (id : AccountId) :
    noncesOf input.orders input.withdrawals id =
      (input.operations.filter fun operation => operation.1 = id).map Prod.snd := by
  simp only [noncesOf, operations, List.filter_append, List.filter_map, List.map_append,
    List.map_map, Function.comp_def]

/-- Pairs are distinct when those with one first part are. -/
theorem nodup_of_filter_fst {α β : Type} [DecidableEq α] {l : List (α × β)}
    (h : ∀ a, ((l.filter fun p => p.1 = a).map Prod.snd).Nodup) : l.Nodup := by
  induction l with
  | nil => exact List.nodup_nil
  | cons p l ih =>
      rw [List.nodup_cons]
      constructor
      · intro hmem
        have hp := h p.1
        rw [List.filter_cons_of_pos (by simp), List.map_cons, List.nodup_cons] at hp
        exact hp.1 (List.mem_map_of_mem (List.mem_filter.mpr ⟨hmem, by simp⟩))
      · refine ih fun a => ?_
        exact (((List.sublist_cons_self p l).filter _).map _).nodup (h a)

/-- Over a chain no operation is repeated, and none is older than the account set at its start. -/
theorem Chain.operations_nodup (hfree : CollisionFree B256) {root root' : B256}
    {batches : List (BatchInput B256 × BatchOutput B256)} (h : Chain root batches root')
    {A : List Account} (hA : Commits A root) :
    (batches.flatMap fun b => b.1.operations).Nodup ∧
      ∀ operation ∈ batches.flatMap fun b => b.1.operations,
        nonceOf A operation.1 ≤ operation.2 := by
  rcases h.exists_final hfree hA with ⟨_, _, _, hconsecutive, _⟩
  have hnonces : ∀ id, ((batches.flatMap fun b => b.1.operations).filter
      fun operation => operation.1 = id).map Prod.snd = (chainNonces batches id).flatten := by
    intro id
    rw [List.filter_flatMap, List.map_flatMap, chainNonces, List.flatMap_def]
    congr 1
    apply List.map_congr_left
    intro b _
    exact (b.1.noncesOf_eq id).symm
  have hperm := fun id => (hconsecutive id).perm_range
  refine ⟨nodup_of_filter_fst fun id => ?_, fun operation hoperation => ?_⟩
  · rw [hnonces]
    exact (hperm id).nodup_iff.mpr List.nodup_range'
  · have hmem : operation.2 ∈ (chainNonces batches operation.1).flatten := by
      rw [← hnonces]
      exact List.mem_map_of_mem (List.mem_filter.mpr ⟨hoperation, by simp⟩)
    rw [(hperm _).mem_iff, List.mem_range'_1] at hmem
    exact hmem.1

end

/-! ## Runs of the contract -/

namespace Contract

variable {B256 : Type} {self : Immutables B256} {context : Context} {world world' : World B256}
  {calls : List (SettleCall B256)} {batches : List (BatchInput B256 × BatchOutput B256)}

section

variable [DecidableEq B256] [Bytes32 B256] [Sha256 B256] [MathLibrary] [ISP1Verifier B256]

/-- The public values of a settled call, and what they were checked against. -/
theorem settledCalls_spec {transaction : Context × Call B256} {call : SettleCall B256}
    (h : call ∈ settledCalls self world transaction) :
    settledCalls self world transaction = [call] ∧ ∃ output : PublicOutput B256,
      abiDecode call.publicValues = .ok output ∧
        output.domain.protocolVersion = self.PROTOCOL_VERSION ∧
        output.domain.exchangeId = self.EXCHANGE_ID ∧
        output.configHash = self.CONFIG_HASH ∧ output.batchId = world.storage.nextBatchId := by
  rcases transaction with ⟨context, request⟩
  cases request with
  | settle publicValues proof withdrawals forcedWithdrawals outcomes =>
      simp only [settledCalls] at h ⊢
      split at h
      · rename_i hok
        rw [List.mem_singleton] at h
        subst h
        rcases Outcome.exists_of_isOk hok with ⟨world', hworld'⟩
        rcases settle_eq_ok.mp hworld' with ⟨_, output, houtput, _⟩
        rcases decodeAndValidatePublicOutput_eq_ok.mp houtput with
          ⟨_, hdecoded, hversion, _, hexchange, hconfig, hbatch, _⟩
        exact ⟨if_pos hok, output, hdecoded, hversion, hexchange, hconfig, hbatch⟩
      · cases h
  | _ => cases h

/-- The number of the batch that a call settles. -/
def SettleCall.batchId (call : SettleCall B256) : Option U64 :=
  match (abiDecode call.publicValues : Outcome (ContractError B256) (PublicOutput B256)) with
  | .ok output => some output.batchId
  | .error _ => none

omit [DecidableEq B256] in
/-- What a transaction does to the batch number. -/
theorem Effect.nextBatchId_eq {escaped : List Address}
    (h : Effect self world world' calls escaped) :
    world'.storage.nextBatchId = world.storage.nextBatchId + BitVec.ofNat 64 calls.length := by
  cases h with
  | undisturbed h => simpa using h.kept.nextBatchId
  | deposit h => simpa using h.kept.nextBatchId
  | claim h => simpa using h.kept.nextBatchId
  | escape h => simpa using h.paid.kept.nextBatchId
  | settle h => simpa using h.paid.kept.nextBatchId

/-- The numbers of settled batches go up one by one from the initial one. -/
structure Numbered (initialBatchId : U64) (world : World B256) (calls : List (SettleCall B256)) :
    Prop where
  ids : calls.map SettleCall.batchId =
    (List.range calls.length).map fun n => some (initialBatchId + BitVec.ofNat 64 n)
  next : world.storage.nextBatchId = initialBatchId + BitVec.ofNat 64 calls.length

/-- A transaction keeps the numbers. -/
theorem Numbered.step {initialBatchId : U64} (h : Numbered initialBatchId world calls)
    (transaction : Context × Call B256) :
    Numbered initialBatchId (Contract.step self world transaction)
      (calls ++ settledCalls self world transaction) := by
  have hnext := (step_effect self world transaction).nextBatchId_eq
  cases hsettled : settledCalls self world transaction with
  | nil =>
      rw [hsettled] at hnext
      rw [List.append_nil]
      refine ⟨h.ids, ?_⟩
      rw [hnext, h.next]
      simp
  | cons call rest =>
      have hmem : call ∈ settledCalls self world transaction := by
        rw [hsettled]
        exact List.mem_cons_self
      rcases settledCalls_spec hmem with ⟨hone, output, hdecoded, _, _, _, hbatch⟩
      have hrest : rest = [] := by
        rw [hsettled] at hone
        exact (List.cons.inj hone).2
      subst hrest
      have hid : call.batchId = some (initialBatchId + BitVec.ofNat 64 calls.length) := by
        rw [SettleCall.batchId, hdecoded]
        exact congrArg some (hbatch.trans h.next)
      rw [hsettled] at hnext
      refine ⟨?_, ?_⟩
      · rw [List.map_append, h.ids, List.length_append, List.length_singleton,
          List.range_succ, List.map_append, List.map_singleton, List.map_singleton, hid]
      · rw [hnext, h.next, List.length_append, List.length_singleton, BitVec.ofNat_add,
          BitVec.add_assoc]

/-- In every run the settled batches carry the consecutive numbers from the initial one on, and the
contract waits for the next one; so no public values are settled twice before the numbers run
out. -/
theorem batches_numbered (self : Immutables B256) (initialStateRoot : B256) (initialBatchId : U64)
    (holdings : Address → U256) (transactions : List (Context × Call B256)) :
    let start := genesis initialStateRoot initialBatchId holdings
    let calls := settlements self start transactions
    calls.map SettleCall.batchId =
        (List.range calls.length).map (fun n => some (initialBatchId + BitVec.ofNat 64 n)) ∧
      (run self start transactions).storage.nextBatchId =
        initialBatchId + BitVec.ofNat 64 calls.length ∧
      (calls.length ≤ 2 ^ 64 → (calls.map SettleCall.publicValues).Nodup) := by
  intro start calls
  have h : Numbered initialBatchId (run self start transactions) calls := by
    apply history_invariant (Contract.step self) (settledCalls self)
      (P := fun (world : World B256) calls => Numbered initialBatchId world calls)
    · intro world calls transaction h
      exact h.step transaction
    · exact ⟨rfl, by simp [start, genesis, initialStorage]⟩
  refine ⟨h.ids, h.next, fun hlength => ?_⟩
  -- equal public values have equal numbers
  have hids : (calls.map SettleCall.batchId).Nodup := by
    rw [h.ids]
    apply (List.nodup_map_iff_inj_on List.nodup_range).mpr
    intro m hm n hn heq
    rw [List.mem_range] at hm hn
    have hsum := (BitVec.add_right_inj initialBatchId).mp (Option.some.inj heq)
    have hnat := congrArg BitVec.toNat hsum
    rwa [BitVec.toNat_ofNat, BitVec.toNat_ofNat, Nat.mod_eq_of_lt (by omega),
      Nat.mod_eq_of_lt (by omega)] at hnat
  have hvalues : calls.map SettleCall.batchId = (calls.map SettleCall.publicValues).map
      fun values => SettleCall.batchId ⟨values, [], []⟩ := by
    rw [List.map_map]
    rfl
  rw [hvalues] at hids
  exact hids.of_map

end

/-- The small market settles its two batches. -/
theorem settlements_marketTransactions :
    (settlements marketContract (genesis openingBatch.expectedOldStateRoot 0 marketHoldings)
      marketTransactions).map SettleCall.publicValues =
      [publicValuesOf openingBatch, publicValuesOf closingBatch] := by
  decide +kernel

/-- Two batches, numbered zero and one, are settled in the small market. -/
theorem batches_numbered_marketTransactions :
    let start := genesis openingBatch.expectedOldStateRoot 0 marketHoldings
    let calls := settlements marketContract start marketTransactions
    calls.length = 2 ∧ calls.map SettleCall.batchId =
        (List.range calls.length).map (fun n => some (0 + BitVec.ofNat 64 n)) ∧
      (run marketContract start marketTransactions).storage.nextBatchId = 2 ∧
      (calls.length ≤ 2 ^ 64 ∧ (calls.map SettleCall.publicValues).Nodup) := by
  intro start calls
  have htwo : calls.length = 2 := by
    rw [← List.length_map (f := SettleCall.publicValues), settlements_marketTransactions]
    rfl
  have hle : calls.length ≤ 2 ^ 64 := by
    rw [htwo]
    norm_num
  have h := batches_numbered marketContract openingBatch.expectedOldStateRoot 0 marketHoldings
    marketTransactions
  refine ⟨htwo, h.1, ?_, hle, h.2.2 hle⟩
  rw [h.2.1, htwo]
  rfl

section

variable [DecidableEq B256] [Bytes32 B256] [Sha256 B256] [MathLibrary] [ISP1Verifier B256]
  [Secp256k1 B256]

/-- A transaction carries the chain on with the batches behind its calls. -/
theorem Effect.chain {root : B256} {calls' : List (SettleCall B256)}
    {batches' : List (BatchInput B256 × BatchOutput B256)} {escaped : List Address}
    (h : Effect self world world' calls' escaped) (hproves : List.Forall₂ Proves calls' batches')
    (hchain : Chain root batches world.storage.stateRoot) :
    Chain root (batches ++ batches') world'.storage.stateRoot := by
  have hkeep : world'.storage.stateRoot = world.storage.stateRoot → batches' = [] →
      Chain root (batches ++ batches') world'.storage.stateRoot := by
    intro hroot hnone
    rw [hroot, hnone, List.append_nil]
    exact hchain
  cases h with
  | undisturbed h => exact hkeep h.kept.stateRoot (List.forall₂_nil_left_iff.mp hproves)
  | deposit h => exact hkeep h.kept.stateRoot (List.forall₂_nil_left_iff.mp hproves)
  | claim h => exact hkeep h.kept.stateRoot (List.forall₂_nil_left_iff.mp hproves)
  | escape h => exact hkeep h.paid.kept.stateRoot (List.forall₂_nil_left_iff.mp hproves)
  | @settle call publicOutput cursor h =>
      rcases hproves with _ | ⟨hproved, hnil⟩
      cases hnil
      rename_i batch
      rcases exists_settlement hproved.1 with ⟨s⟩
      have hpublic := h.publicOutput_eq hproved
      have hroot : batch.1.expectedOldStateRoot = world.storage.stateRoot := by
        rw [← h.oldStateRoot, ← hpublic, s.output_eq]
        rfl
      have hnew : world'.storage.stateRoot = batch.2.publicOutput.newStateRoot := by
        rw [hpublic]
        exact h.paid.kept.stateRoot
      rw [hnew]
      exact hchain.snoc hproved.1 hroot

/-- The batches of a run form a chain from the genesis root to the committed root. -/
theorem chain_run {initialStateRoot : B256} {initialBatchId : U64} {holdings : Address → U256}
    {transactions : List (Context × Call B256)}
    (hbatches : List.Forall₂ Proves (settlements self
      (genesis initialStateRoot initialBatchId holdings) transactions) batches) :
    let world := run self (genesis initialStateRoot initialBatchId holdings) transactions
    Chain initialStateRoot batches world.storage.stateRoot := by
  revert batches
  apply history_invariant (Contract.step self) (settledCalls self)
    (P := fun (world : World B256) calls => ∀ batches, List.Forall₂ Proves calls batches →
      Chain initialStateRoot batches world.storage.stateRoot)
  · intro world calls transaction hbefore batches hbatches
    rcases exists_of_forall₂_append hbatches with ⟨before, batch, rfl, hcalls, hcall⟩
    exact (step_effect self world transaction).chain hcall (hbefore before hcalls)
  · intro batches hbatches
    cases hbatches
    exact Chain.nil _

/-- What the batches of a run have consumed. -/
theorem consumed_run (hfree : CollisionFree B256) {initialStateRoot : B256} {initialBatchId : U64}
    {holdings : Address → U256} {transactions : List (Context × Call B256)}
    (hbatches : List.Forall₂ Proves (settlements self
      (genesis initialStateRoot initialBatchId holdings) transactions) batches) :
    Consumed (run self (genesis initialStateRoot initialBatchId holdings) transactions)
      (settlements self (genesis initialStateRoot initialBatchId holdings) transactions)
      batches := by
  revert batches
  apply history_invariant (Contract.step self) (settledCalls self)
    (P := fun world calls => ∀ batches, List.Forall₂ Proves calls batches →
      Consumed world calls batches)
  · intro world calls transaction hbefore batches hbatches
    rcases exists_of_forall₂_append hbatches with ⟨before, batch, rfl, hcalls, hcall⟩
    exact (step_effect self world transaction).consumed hfree hcall (hbefore before hcalls)
  · intro batches hbatches
    cases hbatches
    exact ⟨le_rfl, le_rfl, rfl, rfl, .nil⟩

/-- A batch was made for a contract: its domain and its configuration. -/
structure MadeFor (contract : Immutables B256) (batch : BatchInput B256 × BatchOutput B256) :
    Prop where
  protocolVersion : batch.1.domain.protocolVersion = contract.PROTOCOL_VERSION
  exchangeId : batch.1.domain.exchangeId = contract.EXCHANGE_ID
  config : hash batch.1.config = contract.CONFIG_HASH

/-- The batches of a run were made for the contract. -/
theorem madeFor_run {initialStateRoot : B256} {initialBatchId : U64} {holdings : Address → U256}
    {transactions : List (Context × Call B256)}
    (hbatches : List.Forall₂ Proves (settlements self
      (genesis initialStateRoot initialBatchId holdings) transactions) batches) :
    ∀ batch ∈ batches, MadeFor self batch := by
  have hchecked : ∀ call ∈ settlements self (genesis initialStateRoot initialBatchId holdings)
      transactions, ∃ output : PublicOutput B256, abiDecode call.publicValues = .ok output ∧
        output.domain.protocolVersion = self.PROTOCOL_VERSION ∧
        output.domain.exchangeId = self.EXCHANGE_ID ∧ output.configHash = self.CONFIG_HASH := by
    apply history_invariant (Contract.step self) (settledCalls self)
      (P := fun (_ : World B256) calls => ∀ call ∈ calls, ∃ output : PublicOutput B256,
        abiDecode call.publicValues = .ok output ∧
        output.domain.protocolVersion = self.PROTOCOL_VERSION ∧
        output.domain.exchangeId = self.EXCHANGE_ID ∧ output.configHash = self.CONFIG_HASH)
    · intro world calls transaction hbefore call hcall
      rcases List.mem_append.mp hcall with hold | hnew
      · exact hbefore call hold
      · rcases settledCalls_spec hnew with ⟨_, output, hdecoded, hversion, hexchange, hconfig, _⟩
        exact ⟨output, hdecoded, hversion, hexchange, hconfig⟩
    · intro call hcall
      cases hcall
  intro batch hbatch
  rcases exists_of_mem_forall₂ hbatches hbatch with ⟨call, hcall, hproved⟩
  rcases hchecked call hcall with ⟨output, hdecoded, hversion, hexchange, hconfig⟩
  rcases exists_settlement hproved.1 with ⟨s⟩
  rw [hproved.2, abiDecode_abiEncode, Except.ok.injEq] at hdecoded
  subst hdecoded
  rw [s.output_eq] at hversion hexchange hconfig
  exact ⟨hversion, hexchange, hconfig⟩

/-- In every run with a sound verifier, every order and every withdrawal behind the settled batches
was signed by its account for this contract, and none of them is executed twice; nor is one that is
older than the accounts of the genesis root. -/
theorem operations_authorized_once (hfree : CollisionFree B256) (hverifier : VerifierSound self)
    {A₀ : List Account} {initialStateRoot : B256} (hgenesis : computeRoot A₀ = .ok initialStateRoot)
    (initialBatchId : U64) (holdings : Address → U256) (transactions : List (Context × Call B256)) :
    let calls := settlements self (genesis initialStateRoot initialBatchId holdings) transactions
    (∃ batches, List.Forall₂ Proves calls batches) ∧
    ∀ batches, List.Forall₂ Proves calls batches →
      (batches.flatMap fun batch => batch.1.operations).Nodup ∧
      (∀ operation ∈ batches.flatMap fun batch => batch.1.operations,
        nonceOf A₀ operation.1 ≤ operation.2) ∧
      ∀ batch ∈ batches, batch.1.domain.protocolVersion = self.PROTOCOL_VERSION ∧
        batch.1.domain.exchangeId = self.EXCHANGE_ID ∧
        (∀ order ∈ batch.1.orders,
          order.signedOrder.hasValidSignature (hash batch.1.domain : B256) = true) ∧
        ∀ withdrawal ∈ batch.1.withdrawals,
          withdrawal.hasValidSignature (hash batch.1.domain : B256) = true := by
  intro calls
  refine ⟨exists_batches hverifier _ transactions, fun batches hbatches => ?_⟩
  rcases (chain_run hbatches).operations_nodup hfree (Commits.of_computeRoot hgenesis) with
    ⟨hnodup, hfirst⟩
  refine ⟨hnodup, hfirst, fun batch hbatch => ?_⟩
  have hmade := madeFor_run hbatches batch hbatch
  rcases exists_of_mem_forall₂ hbatches hbatch with ⟨_, _, hproved⟩
  rcases exists_settlement hproved.1 with ⟨s⟩
  exact ⟨hmade.protocolVersion, hmade.exchangeId,
    fun order horder => (s.validOrders order horder).signature,
    fun withdrawal hwithdrawal => (s.validWithdrawals withdrawal hwithdrawal).signature⟩

/-- What the batches of a run credit and debit besides deposits and withdrawals. -/
def traded (batches : List (BatchInput B256 × BatchOutput B256))
    (part : ExchangeConfig → List Trade → AccountId → AssetId → Nat) (id : AccountId)
    (asset : AssetId) : Nat :=
  (batches.map fun batch => part batch.1.config batch.2.trades id asset).sum

/-- The calldata of a transaction lists what the batches behind it executed. -/
theorem Effect.calldata (hfree : CollisionFree B256) {escaped : List Address}
    (h : Effect self world world' calls escaped) (hproves : List.Forall₂ Proves calls batches) :
    calls.flatMap SettleCall.withdrawals = (batches.flatMap fun b => b.2.withdrawals) ∧
      (calls.flatMap SettleCall.forcedWithdrawals).map ForcedWithdrawal.fields =
        (batches.flatMap fun b => b.2.forcedWithdrawals).map ZkClob.ForcedWithdrawal.fields := by
  have hnone : calls = [] → calls.flatMap SettleCall.withdrawals =
        (batches.flatMap fun b => b.2.withdrawals) ∧
      (calls.flatMap SettleCall.forcedWithdrawals).map ForcedWithdrawal.fields =
        (batches.flatMap fun b => b.2.forcedWithdrawals).map ZkClob.ForcedWithdrawal.fields := by
    rintro rfl
    cases hproves
    exact ⟨rfl, rfl⟩
  cases h with
  | undisturbed h => exact hnone rfl
  | deposit h => exact hnone rfl
  | claim h => exact hnone rfl
  | escape h => exact hnone rfl
  | @settle call publicOutput cursor h =>
      rcases hproves with _ | ⟨hproved, hnil⟩
      cases hnil
      rename_i batch
      rcases exists_settlement hproved.1 with ⟨s⟩
      have hagree := h.agreement hfree s (h.publicOutput_eq hproved)
      simp only [List.flatMap_singleton]
      exact ⟨hagree.withdrawals, hagree.forcedWithdrawals⟩

/-- The calldata of a run lists what its batches executed. -/
theorem calldata_run (hfree : CollisionFree B256) {start : World B256}
    {transactions : List (Context × Call B256)}
    (hbatches : List.Forall₂ Proves (settlements self start transactions) batches) :
    (settlements self start transactions).flatMap SettleCall.withdrawals =
        (batches.flatMap fun b => b.2.withdrawals) ∧
      ((settlements self start transactions).flatMap SettleCall.forcedWithdrawals).map
          ForcedWithdrawal.fields =
        (batches.flatMap fun b => b.2.forcedWithdrawals).map ZkClob.ForcedWithdrawal.fields := by
  revert batches
  apply history_invariant (Contract.step self) (settledCalls self)
    (P := fun (_ : World B256) calls => ∀ batches, List.Forall₂ Proves calls batches →
      calls.flatMap SettleCall.withdrawals = (batches.flatMap fun b => b.2.withdrawals) ∧
      (calls.flatMap SettleCall.forcedWithdrawals).map ForcedWithdrawal.fields =
        (batches.flatMap fun b => b.2.forcedWithdrawals).map ZkClob.ForcedWithdrawal.fields)
  · intro world calls transaction hbefore batches hbatches
    rcases exists_of_forall₂_append hbatches with ⟨before, batch, rfl, hcalls, hcall⟩
    have hold := hbefore before hcalls
    have hnew := (step_effect self world transaction).calldata hfree hcall
    simp only [List.flatMap_append, List.map_append, hold.1, hold.2, hnew.1, hnew.2, and_self]
  · intro batches hbatches
    cases hbatches
    exact ⟨rfl, rfl⟩

/-- In every run with a sound verifier, the committed balance of every account in every asset is the
one of genesis, with the consumed entries of the deposit queue and the trades of the settled batches
booked on it, and with the withdrawals and forced withdrawals of the calldata taken from it. -/
theorem ledger_run (hfree : CollisionFree B256) (hverifier : VerifierSound self)
    {A₀ : List Account} {initialStateRoot : B256} (hgenesis : computeRoot A₀ = .ok initialStateRoot)
    (initialBatchId : U64) (holdings : Address → U256) (transactions : List (Context × Call B256)) :
    let start := genesis initialStateRoot initialBatchId holdings
    let world := run self start transactions
    let calls := settlements self start transactions
    (∃ batches, List.Forall₂ Proves calls batches) ∧
    ∀ batches, List.Forall₂ Proves calls batches →
      ∀ A, computeRoot A = .ok world.storage.stateRoot → ∀ id asset,
        holding A id asset +
            tally (fun w => w.account = id ∧ w.asset = asset) (fun w => w.amount.toNat)
              (calls.flatMap SettleCall.withdrawals) +
            tally (fun w => w.account = id ∧ w.asset = asset) (fun w => w.amount.toNat)
              (calls.flatMap SettleCall.forcedWithdrawals) +
            traded batches paidQuote id asset + traded batches soldBase id asset =
          holding A₀ id asset +
            tally (fun d => d.2.1 = id ∧ d.2.2.1 = asset) (fun d => d.2.2.2.toNat)
              (entriesBelow world.storage.nextUnprocessedDeposit (depositAt world.storage)) +
            traded batches boughtBase id asset + traded batches receivedQuote id asset +
            traded batches receivedFees id asset := by
  intro start world calls
  refine ⟨exists_batches hverifier start transactions, fun batches hbatches A hA id asset => ?_⟩
  have hledger := (chain_run hbatches).holding_eq hfree (Commits.of_computeRoot hgenesis)
    (Commits.of_computeRoot hA) id asset
  have hconsumed := (consumed_run hfree hbatches).deposits
  rcases calldata_run hfree hbatches with ⟨hwithdrawals, hforced⟩
  have hdeposits : (batches.map fun b => tally (fun d => d.account = id ∧ d.asset = asset)
      (fun d => d.amount.toNat) b.1.deposits).sum =
      tally (fun d => d.2.1 = id ∧ d.2.2.1 = asset) (fun d => d.2.2.2.toNat)
        (entriesBelow world.storage.nextUnprocessedDeposit (depositAt world.storage)) := by
    rw [sum_map_tally_flatMap, ← hconsumed, tally_map]
    rfl
  have hdrained : (batches.map fun b => tally (fun w => w.account = id ∧ w.asset = asset)
      (fun w => w.amount.toNat) b.2.forcedWithdrawals).sum =
      tally (fun w => w.account = id ∧ w.asset = asset) (fun w => w.amount.toNat)
        (calls.flatMap SettleCall.forcedWithdrawals) := by
    have hfields := congrArg (tally (fun fields : QueueFields =>
      fields.2.1 = id ∧ fields.2.2.1 = asset) fun fields => fields.2.2.2.toNat) hforced
    rw [tally_map, tally_map] at hfields
    rw [sum_map_tally_flatMap]
    exact hfields.symm
  have hpaid : (batches.map fun b => tally (fun w => w.account = id ∧ w.asset = asset)
      (fun w => w.amount.toNat) b.2.withdrawals).sum =
      tally (fun w => w.account = id ∧ w.asset = asset) (fun w => w.amount.toNat)
        (calls.flatMap SettleCall.withdrawals) := by
    rw [sum_map_tally_flatMap]
    exact congrArg _ hwithdrawals.symm
  simp only [BatchInput.credited, BatchInput.debited, List.sum_map_add, hdeposits, hdrained,
    hpaid] at hledger
  simp only [traded]
  omega

end

/-- The genesis accounts of the small market have the root at which its first batch starts. -/
theorem computeRoot_marketAccounts :
    computeRoot marketAccounts = .ok openingBatch.expectedOldStateRoot := by
  decide +kernel

/-- Behind the run of the small market are its two batches. -/
theorem exists_marketBatches : ∃ output output', settleBatch openingBatch = .ok output ∧
    settleBatch closingBatch = .ok output' ∧ List.Forall₂ Proves
      (settlements marketContract (genesis openingBatch.expectedOldStateRoot 0 marketHoldings)
        marketTransactions) [(openingBatch, output), (closingBatch, output')] := by
  rcases exists_openingOutput with ⟨output, h, _⟩
  rcases exists_closingOutput with ⟨output', h'⟩
  rcases List.map_eq_cons_iff.mp settlements_marketTransactions with
    ⟨call, rest, hcalls, hcall, hrest⟩
  rcases List.map_eq_cons_iff.mp hrest with ⟨call', none, rfl, hcall', hnone⟩
  rw [List.map_eq_nil_iff.mp hnone] at hcalls
  rw [publicValuesOf, h] at hcall
  rw [publicValuesOf, h'] at hcall'
  refine ⟨output, output', h, h', ?_⟩
  rw [hcalls]
  exact .cons ⟨h, hcall⟩ (.cons ⟨h', hcall'⟩ .nil)

/-- The six orders and withdrawals behind the batches of the small market were signed by their
accounts and are executed once. -/
theorem operations_authorized_once_marketTransactions :
    ∃ batches, List.Forall₂ Proves (settlements marketContract
        (genesis openingBatch.expectedOldStateRoot 0 marketHoldings) marketTransactions) batches ∧
      (batches.flatMap fun batch => batch.1.operations).length = 6 ∧
      (batches.flatMap fun batch => batch.1.operations).Nodup ∧
      (∀ operation ∈ batches.flatMap fun batch => batch.1.operations,
        nonceOf marketAccounts operation.1 ≤ operation.2) ∧
      ∀ batch ∈ batches,
        (∀ order ∈ batch.1.orders,
          order.signedOrder.hasValidSignature (hash batch.1.domain : IdealDigest) = true) ∧
        ∀ withdrawal ∈ batch.1.withdrawals,
          withdrawal.hasValidSignature (hash batch.1.domain : IdealDigest) = true := by
  rcases exists_marketBatches with ⟨output, output', _, _, hbatches⟩
  have h := operations_authorized_once IdealDigest.collisionFree (verifierSound_test marketContract)
    computeRoot_marketAccounts 0 marketHoldings marketTransactions
  rcases h.2 _ hbatches with ⟨hnodup, hfirst, hsigned⟩
  refine ⟨_, hbatches, rfl, hnodup, hfirst, ?_⟩
  intro batch hbatch
  exact (hsigned batch hbatch).2.2

/-- The committed balances of the small market after its batches, one trade in each of them. -/
theorem ledger_run_marketTransactions :
    let start := genesis openingBatch.expectedOldStateRoot 0 marketHoldings
    let world := run marketContract start marketTransactions
    let calls := settlements marketContract start marketTransactions
    ∃ batches, List.Forall₂ Proves calls batches ∧
      traded batches soldBase (FixedBytes.replicate 20 2) (FixedBytes.replicate 20 7) = 2 ∧
      ∀ A, computeRoot A = .ok world.storage.stateRoot → ∀ id asset,
        holding A id asset +
            tally (fun w => w.account = id ∧ w.asset = asset) (fun w => w.amount.toNat)
              (calls.flatMap SettleCall.withdrawals) +
            tally (fun w => w.account = id ∧ w.asset = asset) (fun w => w.amount.toNat)
              (calls.flatMap SettleCall.forcedWithdrawals) +
            traded batches paidQuote id asset + traded batches soldBase id asset =
          holding marketAccounts id asset +
            tally (fun d => d.2.1 = id ∧ d.2.2.1 = asset) (fun d => d.2.2.2.toNat)
              (entriesBelow world.storage.nextUnprocessedDeposit (depositAt world.storage)) +
            traded batches boughtBase id asset + traded batches receivedQuote id asset +
            traded batches receivedFees id asset := by
  intro start world calls
  rcases exists_marketBatches with ⟨output, output', haccepted, haccepted', hbatches⟩
  have h := ledger_run IdealDigest.collisionFree (verifierSound_test marketContract)
    computeRoot_marketAccounts 0 marketHoldings marketTransactions
  refine ⟨_, hbatches, ?_, h.2 _ hbatches⟩
  have hsold : (settleBatch openingBatch).toOption.map (fun output => soldBase
      openingBatch.config output.trades (FixedBytes.replicate 20 2) (FixedBytes.replicate 20 7)) =
      some 1 := by
    decide +kernel
  have hsold' : (settleBatch closingBatch).toOption.map (fun output => soldBase
      closingBatch.config output.trades (FixedBytes.replicate 20 2) (FixedBytes.replicate 20 7)) =
      some 1 := by
    decide +kernel
  rw [haccepted] at hsold
  rw [haccepted'] at hsold'
  have hone := Option.some.inj hsold
  have hone' := Option.some.inj hsold'
  simp only [traded, List.map_cons, List.map_nil, List.sum_cons, List.sum_nil] at hone hone' ⊢
  omega

end Contract

end ZkClob
