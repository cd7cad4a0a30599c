import ZkClob.Settlement.QueueBatches
import ZkClob.Settlement.WitnessSimulation

/-!
# The verdict on a batch

Whether the guest accepts a batch is decided by the batch.  Take an accepted input that serves its
requests and another private input for its batch that is put together well: any honest witness that
lists enough accounts, indices that name them, arranged books and valid signatures.  Accounts that
both witness hold the same at every step, so that every step succeeds with the other input as well.

Main results:

- Theorem {lit}`Rewitnessed.exists_steps`: the steps of a batch with another witness.
- Theorem {lit}`WellFormed.exists_output`: a well-formed batch that goes through its steps is
  accepted.
- Theorem {lit}`accepted_with_other_witness`: acceptance and the public values do not depend on the
  private input.
-/

namespace ZkClob

open Foundations Outcome Patricia

/-! ## Signed operations that pass -/

section

variable {B256 : Type} [Sha256 B256] [Secp256k1 B256] {accounts : List Account}
  {config : ExchangeConfig} {domainHash : B256}

/-- Withdrawals in order with valid signatures pass. -/
theorem validateWithdrawals_of_signed {withdrawals : List SignedWithdrawal}
    (hvalid : ∀ w ∈ withdrawals, w.amount ≠ 0 ∧ (config.asset w.asset).isSome)
    (hindexed : ∀ w ∈ withdrawals, IndexedIn (accounts.map Account.id) w.accountIndex w.account)
    (hsigned : ∀ w ∈ withdrawals, w.hasValidSignature domainHash = true) :
    validateWithdrawals withdrawals accounts config domainHash = .ok () := by
  apply forM_eq_ok.mpr
  intro w hw
  obtain ⟨hamount, hasset⟩ := hvalid w hw
  have hknown : ¬ (config.asset w.asset).isNone = true := by
    rw [Option.isNone_iff_eq_none]
    exact Option.isSome_iff_ne_none.mp hasset
  simp only [validateWithdrawal, rejectIf, if_neg hamount, hsigned w hw, not_true_eq_false,
    if_false, ok_bind, validateAccountIndex_of_indexed (hindexed w hw), if_neg hknown]

/-- Orders in order with valid signatures pass. -/
theorem validateOrders_of_signed {orders : List SequencedOrder}
    (hvalid : ∀ o ∈ orders, o.price ≠ 0 ∧ o.quantity ≠ 0 ∧ (config.market o.marketId).isSome)
    (hindexed : ∀ o ∈ orders, IndexedIn (accounts.map Account.id) o.accountIndex o.trader)
    (hsequences : (orders.map SequencedOrder.sequence).Nodup)
    (hsigned : ∀ o ∈ orders, o.signedOrder.hasValidSignature domainHash = true) :
    validateOrders orders accounts config domainHash = .ok () := by
  have hloop : forM orders (validateOrder accounts config domainHash) = .ok () := by
    apply forM_eq_ok.mpr
    intro o ho
    obtain ⟨hprice, hquantity, hmarket⟩ := hvalid o ho
    have hknown : ¬ (config.market o.marketId).isNone = true := by
      rw [Option.isNone_iff_eq_none]
      exact Option.isSome_iff_ne_none.mp hmarket
    simp only [validateOrder, rejectIf, if_neg hprice, if_neg hquantity, hsigned o ho,
      not_true_eq_false, if_false, ok_bind, validateAccountIndex_of_indexed (hindexed o ho),
      if_neg hknown]
  rw [validateOrders, hloop, ok_bind, rejectIf_eq_ok, anyAdjacent_sequences hsequences]
  exact Bool.false_ne_true

end

/-! ## Steps that keep two witnesses in agreement -/

/-- A withdrawal and its copy under another witness. -/
structure SameWithdrawal (ids ids' : List AccountId) (withdrawal withdrawal' : SignedWithdrawal) :
    Prop where
  executed : ExecutedWithdrawal.from withdrawal = ExecutedWithdrawal.from withdrawal'
  indexed : IndexedIn ids withdrawal.accountIndex withdrawal.account
  indexed' : IndexedIn ids' withdrawal'.accountIndex withdrawal'.account

namespace Agree

variable {ids ids' : List AccountId} {accounts accounts' next next' : List Account}

/-- Withdrawals. -/
theorem applyWithdrawals (h : Agree ids ids' accounts accounts')
    {withdrawals withdrawals' : List SignedWithdrawal}
    (hpairs : List.Forall₂ (SameWithdrawal ids ids') withdrawals withdrawals') :
    Simulates (Agree ids ids') (applyWithdrawals accounts withdrawals)
      (ZkClob.applyWithdrawals accounts' withdrawals') := by
  apply Simulates.foldlM hpairs _ h
  intro accounts accounts' w w' hagree hpair
  obtain ⟨index, hindex, hat⟩ := hpair.indexed
  obtain ⟨index', hindex', hat'⟩ := hpair.indexed'
  have haccount : w.account = w'.account := congrArg ExecutedWithdrawal.account hpair.executed
  have hasset : w.asset = w'.asset := congrArg ExecutedWithdrawal.asset hpair.executed
  have hamount : w.amount = w'.amount := congrArg ExecutedWithdrawal.amount hpair.executed
  rw [applyWithdrawal, applyWithdrawal, hindex, hindex', expect_some, expect_some, ok_bind, ok_bind,
    ← hasset, ← hamount]
  exact hagree.debit hat (haccount ▸ hat')

/-- Forced withdrawals that drain the same amounts. -/
theorem applyForcedWithdrawals (h : Agree ids ids' accounts accounts')
    {requests requests' executed executed' : List ForcedWithdrawal}
    (hdrained : applyForcedWithdrawals accounts requests = .ok (next, executed))
    (hdrained' : ZkClob.applyForcedWithdrawals accounts' requests' = .ok (next', executed'))
    (hfields : executed.map ForcedWithdrawal.fields = executed'.map ForcedWithdrawal.fields) :
    Agree ids ids' next next' := by
  obtain ⟨hsame, hholding, -⟩ := applyForcedWithdrawals_spec h.canonical hdrained
  obtain ⟨hsame', hholding', -⟩ := applyForcedWithdrawals_spec h.canonical' hdrained'
  refine ⟨hsame.ids.trans h.mapId, hsame'.ids.trans h.mapId', hsame.accountsCanonical h.canonical,
    hsame'.accountsCanonical h.canonical', ?_⟩
  intro id hid hid' asset
  have hbefore := h.holding id hid hid' asset
  have htaken : tally (fun e => e.account = id ∧ e.asset = asset) (fun e => e.amount.toNat)
      executed = tally (fun e => e.account = id ∧ e.asset = asset) (fun e => e.amount.toNat)
        executed' :=
    tally_eq_of_map (fun f : QueueFields => f.2.1 = id ∧ f.2.2.1 = asset)
      (fun f => f.2.2.2.toNat) hfields
  rw [hholding, hholding', htaken] at hbefore
  exact Nat.add_right_cancel hbefore

/-- Nonces that are consumed in both. -/
theorem consumed (h : Agree ids ids' accounts accounts') {orders orders' : List SequencedOrder}
    {withdrawals withdrawals' : List SignedWithdrawal}
    (hconsumed : NoncesConsumed accounts next orders withdrawals)
    (hconsumed' : NoncesConsumed accounts' next' orders' withdrawals') :
    Agree ids ids' next next' := by
  refine ⟨hconsumed.ids.trans h.mapId, hconsumed'.ids.trans h.mapId',
    hconsumed.accountsCanonical h.canonical, hconsumed'.accountsCanonical h.canonical', ?_⟩
  intro id hid hid' asset
  rw [hconsumed.holding_eq, hconsumed'.holding_eq]
  exact h.holding id hid hid' asset

end Agree

/-! ## The steps of a batch with another witness -/

section

variable {B256 : Type} [Sha256 B256] [Secp256k1 B256] {input input' : BatchInput B256}
  {ids : List AccountId}

/-- Another input for the batch of an accepted one: it is put together well, and its operations
are signed. -/
structure Rewitnessed (input input' : BatchInput B256) (ids : List AccountId) : Prop where
  batch : SameBatch input input'
  wellFormed : WellFormed input' ids
  orders : ∀ o ∈ input'.orders,
    o.signedOrder.hasValidSignature (hash input'.domain : B256) = true
  withdrawals : ∀ w ∈ input'.withdrawals, w.hasValidSignature (hash input'.domain : B256) = true

variable {stages : Stages} {deposited' drained' : List Account} {executed' : List ForcedWithdrawal}

/-- Where the witnesses agree after the forced withdrawals, every step of the batch succeeds with
the other one, and the trades are the same. -/
theorem Rewitnessed.exists_steps (h : Rewitnessed input input' ids)
    (hsteps : StepsSucceed input stages)
    (hdeposited : applyDeposits input'.state.accounts input'.deposits = .ok deposited')
    (hdrained : applyForcedWithdrawals deposited' input'.forcedWithdrawals =
      .ok (drained', executed'))
    (hagree : Agree (stages.drained.map Account.id) (drained'.map Account.id) stages.drained
      drained') :
    ∃ stages', StepsSucceed input' stages' ∧ stages'.trades = stages.trades ∧
      stages'.executed = executed' := by
  have hwell := h.wellFormed
  have hready := (hwell.ready hdeposited).of_same
    (applyForcedWithdrawals_spec (hwell.ready hdeposited).canonical hdrained).1
  have hwithdrawals : List.Forall₂
      (SameWithdrawal (stages.drained.map Account.id) (drained'.map Account.id))
      input.withdrawals input'.withdrawals :=
    (forall₂_of_map_eq h.batch.withdrawals hsteps.withdrawal_indexed hready.withdrawals).imp
      fun _ _ hpair => ⟨hpair.1, hpair.2.1, hpair.2.2⟩
  obtain ⟨withdrawn', hwithdrawn, hagree⟩ :=
    hagree.applyWithdrawals hwithdrawals _ hsteps.applyWithdrawals
  have hreadyDebited := hready.of_same (applyWithdrawals_spec hready.withdrawals hwithdrawn).1
  obtain ⟨consumed', hconsumed⟩ := hwell.exists_consumed hreadyDebited
  have hadvanced := consumeNonces_spec hreadyDebited.canonical.sorted.nodup_map hreadyDebited.orders
    hreadyDebited.withdrawals hconsumed
  have hagree := hagree.consumed hsteps.noncesConsumed.2 hadvanced
  obtain ⟨books', hbooks⟩ := exists_buildValidatedBooks hwell.books
  -- the books are the same, up to hints and signatures, and so are the trades
  have hpinned := buildValidatedBooks_pinned hsteps.books
  rw [h.batch.config] at hpinned
  have hbare := hpinned.bare_eq (buildValidatedBooks_pinned hbooks) h.batch.orders
  have hsides := buildValidatedBooks_spec hsteps.books
  have hsides' := buildValidatedBooks_spec hbooks
  have hsame := SameBook.of_bare hbare
    (fun book hbook o ho => hsteps.order_indexed o ((List.mem_append.mp ho).elim
      (fun ho => ((hsides book hbook).buys o ho).1) fun ho => ((hsides book hbook).sells o ho).1))
    (fun book hbook o ho => hready.orders o ((List.mem_append.mp ho).elim
      (fun ho => ((hsides' book hbook).buys o ho).1) fun ho => ((hsides' book hbook).sells o ho).1))
  have hrecipient : input'.config.fees.recipient ∈ drained'.map Account.id :=
    (hready.mem_ids _).mpr (Or.inl (validateConfig_spec hwell.config).recipient)
  have hrecipient' : input'.config.fees.recipient ∈ stages.drained.map Account.id := by
    rw [← h.batch.config, (applyForcedWithdrawals_spec hsteps.deposited.accountsCanonical
      hsteps.applyForcedWithdrawals).1.ids, hsteps.deposited.mem_ids]
    exact Or.inl (validateConfig_spec hsteps.config).recipient
  have hmatched := hsteps.matchAndSettle
  rw [h.batch.config] at hmatched
  obtain ⟨⟨settled', trades'⟩, hsettled, -, htrades⟩ :=
    hagree.matchAndSettle hsame hrecipient' hrecipient _ hmatched
  refine ⟨⟨deposited', drained', executed', withdrawn', consumed', books', settled', trades'⟩, ?_,
    htrades.symm, rfl⟩
  exact {
    limits := hwell.limits
    config := hwell.config
    accounts := validateAccounts_of_canonical hwell.canonical
    deposits := exists_validateDeposits.mpr hwell.deposits
    oldRoot := hwell.oldRoot
    applyDeposits := hdeposited
    forcedWithdrawals := exists_validateForcedWithdrawals.mpr hwell.forcedWithdrawals
    applyForcedWithdrawals := hdrained
    withdrawals := validateWithdrawals_of_signed hwell.withdrawals hready.withdrawals h.withdrawals
    orders := validateOrders_of_signed hwell.orders hready.orders hwell.sequences h.orders
    nonces := hwell.validateNonces_eq_ok hready
    applyWithdrawals := hwithdrawn
    consumeNonces := hconsumed
    books := hbooks
    matchAndSettle := hsettled }

/-! ## The verdict -/

omit [Secp256k1 B256] in
/-- An honest witness that lists an account says what it holds after the deposits. -/
theorem holding_deposited_of_root (hfree : CollisionFree B256) {A : List Account}
    (hA : Commits A input.expectedOldStateRoot)
    (hroot : input.state.root = .ok input.expectedOldStateRoot)
    (hcanonical : AccountsCanonical input.state.accounts) {deposited : List Account}
    (hspec : Deposited input.state.accounts deposited input.deposits) {id : AccountId}
    (hid : id ∈ input.state.multiproof.leafKeys) (asset : AssetId) :
    afterDeposits A input.deposits id asset = holding deposited id asset := by
  have hwitness := StateWitness.root_membership hfree hA.nodup hA.root_eq hroot
  have hbalance : balanceOf A id asset = holding input.state.accounts id asset := by
    rw [← balanceOf_eq_holding hcanonical, balanceOf_eq_tally hA.nodup,
      balanceOf_eq_tally hcanonical.sorted.nodup_map, tally_perm hwitness, tally_filter]
    apply tally_congr
    · intro account _
      by_cases hsame : account.id = id
      · simp [hsame, hid]
      · simp [hsame]
    · exact fun _ _ _ => rfl
  rw [afterDeposits, hspec.holding, hbalance]

/-- The accounts after the deposits are listed when any accounts of the batch have a root. -/
theorem Rewitnessed.listed (h : Rewitnessed input input' ids) {deposited : List Account}
    (hdeposited : applyDeposits input'.state.accounts input'.deposits = .ok deposited) :
    ∀ id ∈ deposited.map Account.id, id ∈ input'.state.multiproof.leafKeys := by
  have hready := h.wellFormed.ready hdeposited
  obtain ⟨root, hroot⟩ := h.wellFormed.exists_newRoot hready rfl
  intro id hid
  obtain ⟨account, haccount, rfl⟩ := List.mem_map.mp hid
  exact (StateWitness.root_eq_ok hroot).2 account haccount

variable {A : List Account}

/-- The accounts of an accepted batch are listed. -/
theorem StepsSucceed.listed (hsteps : StepsSucceed input stages) {root : B256}
    (hroot : (⟨stages.settled, input.state.multiproof⟩ : StateWitness B256).root = .ok root) :
    ∀ id ∈ stages.deposited.map Account.id, id ∈ input.state.multiproof.leafKeys := by
  intro id hid
  rw [hsteps.deposited.mem_ids, ← hsteps.mem_settled_ids] at hid
  obtain ⟨account, haccount, rfl⟩ := List.mem_map.mp hid
  exact (StateWitness.root_eq_ok hroot).2 account haccount

/-- After the deposits two honest witnesses agree. -/
theorem Rewitnessed.agree_deposited (hfree : CollisionFree B256)
    (h : Rewitnessed input input' ids) (hA : Commits A input.expectedOldStateRoot)
    (hsteps : StepsSucceed input stages) {root : B256}
    (hroot : (⟨stages.settled, input.state.multiproof⟩ : StateWitness B256).root = .ok root)
    (hdeposited : applyDeposits input'.state.accounts input'.deposits = .ok deposited') :
    Agree (stages.deposited.map Account.id) (deposited'.map Account.id) stages.deposited
      deposited' := by
  have hspec := applyDeposits_spec h.wellFormed.canonical hdeposited
  have hA' : Commits A input'.expectedOldStateRoot := h.batch.oldStateRoot ▸ hA
  refine ⟨rfl, rfl, hsteps.deposited.accountsCanonical, hspec.accountsCanonical, ?_⟩
  intro id hid hid' asset
  rw [← holding_deposited_of_root hfree hA hsteps.oldRoot hsteps.canonical hsteps.deposited
      (hsteps.listed hroot id hid),
    ← holding_deposited_of_root hfree hA' h.wellFormed.oldRoot h.wellFormed.canonical hspec
      (h.listed hdeposited id hid'), h.batch.afterDeposits_eq A]

variable [DecidableEq B256] {output : BatchOutput B256}

/-- A well-formed batch that goes through every step is accepted. -/
theorem WellFormed.exists_output (h : WellFormed input ids) (hsteps : StepsSucceed input stages)
    (hfits : ∀ x, supply input.state.accounts x +
      tally (fun d => d.asset = x) (fun d => d.amount.toNat) input.deposits < 2 ^ 128) :
    ∃ output, settleBatch input = .ok output ∧ output.trades = stages.trades ∧
      output.forcedWithdrawals = stages.executed := by
  have htracked : ∀ x, AssetTracker.default.total x + supply input.state.accounts x <
      2 ^ 128 := by
    intro x
    have hx := hfits x
    rw [AssetTracker.total_default]
    omega
  obtain ⟨tracker, htracker⟩ := AssetTracker.exists_addAccounts htracked
  have htotal : ∀ x, tracker.total x +
      tally (fun d => d.asset = x) (fun d => d.amount.toNat) input.deposits < 2 ^ 128 := by
    intro x
    have hx := hfits x
    rw [AssetTracker.addAccounts_total htracker, AssetTracker.total_default]
    omega
  obtain ⟨tracker', htracker'⟩ := AssetTracker.exists_foldlM_add htotal
  obtain ⟨newDepositCursor, hcursor⟩ := hsteps.deposits
  have hready := h.ready hsteps.applyDeposits
  have hids : stages.settled.map Account.id = stages.deposited.map Account.id := by
    rw [hsteps.tradesSettled.same.ids, hsteps.noncesConsumed.2.ids, hsteps.withdrawn_same.ids,
      (applyForcedWithdrawals_spec hsteps.deposited.accountsCanonical
        hsteps.applyForcedWithdrawals).1.ids]
  obtain ⟨newRoot, hnewRoot⟩ := h.exists_newRoot hready hids
  have hresult := hsteps.settleBatch_eq htracker htracker' hcursor
  rw [hnewRoot, ok_bind] at hresult
  exact ⟨_, hresult, rfl, rfl⟩

/-- An accepted batch that serves its requests is accepted with every other private input for it
that is put together well, and its public values stay the same. -/
theorem accepted_with_other_witness (hfree : CollisionFree B256)
    (hA : computeRoot A = .ok input.expectedOldStateRoot)
    (haccepted : settleBatch input = .ok output) (hserved : Served A input output)
    (h : Rewitnessed input input' ids) (hhints : ∀ d ∈ input'.deposits, d.accountIndex.isSome)
    (hrequests : ∀ deposited, applyDeposits input'.state.accounts input'.deposits =
      .ok deposited → ∀ r ∈ input'.forcedWithdrawals,
        IndexedIn (deposited.map Account.id) r.accountIndex r.account)
    (hfits : ∀ x, supply input'.state.accounts x +
      tally (fun d => d.asset = x) (fun d => d.amount.toNat) input'.deposits < 2 ^ 128) :
    ∃ output', settleBatch input' = .ok output' ∧ output'.trades = output.trades ∧
      output'.publicOutput = output.publicOutput := by
  have hcommits := Commits.of_computeRoot hA
  have hcommits' : Commits A input'.expectedOldStateRoot := h.batch.oldStateRoot ▸ hcommits
  have hwell := h.wellFormed
  obtain ⟨s⟩ := exists_settlement haccepted
  obtain ⟨stages, hsteps, htrades, -, hexecuted, hroot⟩ := exists_steps haccepted
  obtain ⟨deposited', hdeposited⟩ := exists_applyDeposits hwell.canonical hhints hwell.witnessed
    hwell.deposited hwell.room hfits
  have hspec := applyDeposits_spec hwell.canonical hdeposited
  obtain ⟨drained', executed', hdrained⟩ :=
    exists_applyForcedWithdrawals hspec.accountsCanonical input'.forcedWithdrawals
  obtain ⟨hsame, -, hrecords⟩ := applyForcedWithdrawals_spec hsteps.deposited.accountsCanonical
    hsteps.applyForcedWithdrawals
  obtain ⟨hsame', -, hrecords'⟩ := applyForcedWithdrawals_spec hspec.accountsCanonical hdrained
  -- both drain what the requests ask for, up to what the accounts hold
  have hledger : ∀ id ∈ deposited'.map Account.id, ∀ asset,
      afterDeposits A input'.deposits id asset = holding deposited' id asset :=
    fun id hid asset => holding_deposited_of_root hfree hcommits' hwell.oldRoot hwell.canonical
      hspec (h.listed hdeposited id hid) asset
  have hserved' := (applyForcedWithdrawals_iff hspec.accountsCanonical hledger
    hwell.forcedWithdrawals.2.2 hdrained).mpr (reached_of_indexed (hrequests deposited' hdeposited))
  rw [Served, hexecuted] at hserved
  have hfields := h.batch.executed_eq hrecords hrecords' hserved hserved'
  have hagree := (h.agree_deposited hfree hcommits hsteps hroot hdeposited).applyForcedWithdrawals
    hsteps.applyForcedWithdrawals hdrained hfields
  rw [← hsame.ids, ← hsame'.ids] at hagree
  obtain ⟨stages', hsteps', htrades', hexecuted'⟩ :=
    h.exists_steps hsteps hdeposited hdrained hagree
  obtain ⟨output', haccepted', htraded', hforced'⟩ := hwell.exists_output hsteps' hfits
  obtain ⟨s'⟩ := exists_settlement haccepted'
  have htraded : output.trades = output'.trades := by
    rw [htrades, htraded', htrades']
  have hforced : output.forcedWithdrawals.map ForcedWithdrawal.fields =
      output'.forcedWithdrawals.map ForcedWithdrawal.fields := by
    rw [hexecuted, hforced', hexecuted', hfields]
  exact ⟨output', haccepted', htraded.symm, (h.batch.publicOutput_eq hfree s s' hcommits htraded
    hforced (h.batch.sameStatement s s')).symm⟩

end

/-! ## A bystander -/

/-- An account that takes no part in the batch. -/
def bystander : Account :=
  ⟨⟨1 :: List.replicate 19 9, rfl⟩, [⟨FixedBytes.replicate 20 7, 6⟩], 2⟩

/-- The accounts of the small market and the bystander, who comes second. -/
def crowdedAccounts : List Account :=
  [⟨FixedBytes.replicate 20 1, [], 0⟩,
    bystander,
    ⟨FixedBytes.replicate 20 2, [⟨FixedBytes.replicate 20 7, 5⟩], 3⟩,
    ⟨FixedBytes.replicate 20 3, [⟨FixedBytes.replicate 20 8, 9⟩], 0⟩]

/-- The batch of the small market with a witness that leaves the bystander out. -/
def narrowBatch : BatchInput IdealDigest :=
  { openingBatch with
    expectedOldStateRoot := (computeRoot crowdedAccounts).toOption.getD ⟨[]⟩
    state := ((State.new crowdedAccounts).witnessFor
      (marketAccounts.map Account.id ++ [FixedBytes.replicate 20 4])).toOption.getD
        ⟨[], ⟨[], []⟩⟩ }

/-- The accounts that the other witness lists. -/
def wideIds : List AccountId :=
  crowdedAccounts.map Account.id ++ [FixedBytes.replicate 20 4]

/-- The same batch with a witness that opens the account of the bystander: every operation has
another index, and the hint of the deposit is wrong. -/
def wideBatch : BatchInput IdealDigest :=
  { openingBatch with
    expectedOldStateRoot := (computeRoot crowdedAccounts).toOption.getD ⟨[]⟩
    state := ⟨crowdedAccounts, ⟨wideIds, []⟩⟩
    deposits := [⟨0, FixedBytes.replicate 20 4, FixedBytes.replicate 20 7, 4, some 0⟩]
    forcedWithdrawals := [⟨0, FixedBytes.replicate 20 3, FixedBytes.replicate 20 8, 2, some 3⟩]
    orders := [marketOrder .Sell 2 3 2 2 0, marketOrder .Buy 3 0 3 3 1]
    withdrawals := [marketWithdrawal 7 2 4 2] }

/-- Its deposit opens the last account. -/
theorem applyDeposits_wideBatch :
    applyDeposits wideBatch.state.accounts wideBatch.deposits =
      .ok (crowdedAccounts ++
        [⟨FixedBytes.replicate 20 4, [⟨FixedBytes.replicate 20 7, 4⟩], 0⟩]) := by
  decide +kernel

/-- Only the seller and the buyer sign, with their next nonces. -/
theorem nonces_wideBatch (id : AccountId) :
    (noncesOf wideBatch.orders wideBatch.withdrawals id).Perm
        (List.range' (nonceOf crowdedAccounts id)
          (noncesOf wideBatch.orders wideBatch.withdrawals id).length) ∧
      nonceOf crowdedAccounts id +
        (noncesOf wideBatch.orders wideBatch.withdrawals id).length < 2 ^ 64 := by
  by_cases hseller : FixedBytes.replicate 20 2 = id
  · subst hseller
    decide +kernel
  · by_cases hbuyer : FixedBytes.replicate 20 3 = id
    · subst hbuyer
      decide +kernel
    · have hnone : noncesOf wideBatch.orders wideBatch.withdrawals id = [] := by
        simp [noncesOf, wideBatch, marketOrder, marketWithdrawal, SequencedOrder.trader,
          SignedOperation.account, hseller, hbuyer]
      rw [hnone]
      exact ⟨List.Perm.refl _, nonceOf_lt crowdedAccounts id⟩

theorem booksArranged_wideBatch :
    BooksArranged wideBatch.orders wideBatch.config wideBatch.orderBooks where
  sorted := List.pairwise_singleton _ _
  nonempty := by decide +kernel
  known := by
    intro book hbook
    rw [List.mem_singleton.mp hbook]
    exact ⟨⟨FixedBytes.replicate 32 5, FixedBytes.replicate 20 7, FixedBytes.replicate 20 8⟩,
      by decide +kernel, by decide +kernel⟩
  buys := by
    intro book hbook
    rw [List.mem_singleton.mp hbook]
    exact ⟨[marketOrder .Buy 3 0 3 3 1], .cons rfl .nil,
      ⟨List.pairwise_singleton _ _, by decide +kernel⟩⟩
  sells := by
    intro book hbook
    rw [List.mem_singleton.mp hbook]
    exact ⟨[marketOrder .Sell 2 3 2 2 0], .cons rfl .nil,
      ⟨List.pairwise_singleton _ _, by decide +kernel⟩⟩
  once := by decide +kernel

theorem wideBatch_wellFormed : WellFormed wideBatch wideIds := by
  have hwitness : (State.new crowdedAccounts).witnessFor wideIds = .ok wideBatch.state := by
    decide +kernel
  have hchecked : validateAccounts (State.new crowdedAccounts).accounts = .ok () := by
    decide +kernel
  have hcanonical := validateAccounts_spec hchecked
  exact {
    limits := by decide +kernel
    config := by decide +kernel
    canonical := hcanonical
    room := by decide
    witnessed := by decide +kernel
    deposited := by decide +kernel
    oldRoot := by decide +kernel
    newRoot := by
      intro accounts hnodup hlisted
      obtain ⟨root, hroot, -⟩ := State.root_of_witnessFor hcanonical.sorted (by decide) (by decide)
        hwitness hnodup hlisted
      exact ⟨root, hroot⟩
    deposits := by decide +kernel
    forcedWithdrawals := by decide +kernel
    withdrawals := by decide +kernel
    orders := by decide +kernel
    sequences := by decide +kernel
    indexed := by
      intro accounts happlied
      rw [applyDeposits_wideBatch, Except.ok.injEq] at happlied
      subst happlied
      constructor
      · intro o ho
        cases ho with
        | head => exact ⟨2, rfl, rfl⟩
        | tail _ ho =>
            rw [List.mem_singleton.mp ho]
            exact ⟨3, rfl, rfl⟩
      · intro w hw
        rw [List.mem_singleton.mp hw]
        exact ⟨2, rfl, rfl⟩
    nonces := fun id => (nonces_wideBatch id).1
    nonceRoom := fun id => (nonces_wideBatch id).2
    books := booksArranged_wideBatch }

/-- Nothing of this changes the public values. -/
theorem accepted_with_other_witness_wideBatch :
    ∃ output output', settleBatch narrowBatch = .ok output ∧
      settleBatch wideBatch = .ok output' ∧ output'.trades = output.trades ∧
        output'.publicOutput = output.publicOutput := by
  obtain ⟨output, h⟩ : ∃ output, settleBatch narrowBatch = .ok output :=
    Outcome.exists_of_isOk (by decide +kernel)
  have hroot : computeRoot crowdedAccounts = .ok narrowBatch.expectedOldStateRoot := by
    decide +kernel
  have hdrained : (settleBatch narrowBatch).map
      (fun output => output.forcedWithdrawals.map fun e => e.amount.toNat) = .ok [2] := by
    decide +kernel
  rw [h] at hdrained
  have hserved : Served crowdedAccounts narrowBatch output :=
    (Except.ok.inj hdrained).trans (by decide +kernel)
  have hother : Rewitnessed narrowBatch wideBatch wideIds :=
    { batch := ⟨rfl, rfl, rfl, rfl, rfl, rfl, rfl, rfl, rfl, rfl⟩
      wellFormed := wideBatch_wellFormed
      orders := by decide +kernel
      withdrawals := by decide +kernel }
  have hindexed : ∀ deposited, applyDeposits wideBatch.state.accounts wideBatch.deposits =
      .ok deposited → ∀ r ∈ wideBatch.forcedWithdrawals,
        IndexedIn (deposited.map Account.id) r.accountIndex r.account := by
    intro deposited happlied r hr
    rw [applyDeposits_wideBatch, Except.ok.injEq] at happlied
    rw [← happlied, List.mem_singleton.mp hr]
    exact ⟨3, rfl, rfl⟩
  have hfits : ∀ x, supply wideBatch.state.accounts x +
      tally (fun d => d.asset = x) (fun d => d.amount.toNat) wideBatch.deposits < 2 ^ 128 := by
    intro x
    by_cases hbase : FixedBytes.replicate 20 7 = x
    · subst hbase
      decide +kernel
    · by_cases hquote : FixedBytes.replicate 20 8 = x
      · subst hquote
        decide +kernel
      · have hsupply : supply wideBatch.state.accounts x = 0 := by
          simp [supply, wideBatch, crowdedAccounts, bystander, Account.total, Account.entryTotal,
            hbase, hquote]
        have htally : tally (fun d => d.asset = x) (fun d => d.amount.toNat)
            wideBatch.deposits = 0 := by
          simp [wideBatch, tally, hbase]
        rw [hsupply, htally]
        exact Nat.two_pow_pos 128
  obtain ⟨output', h', hsame⟩ := accepted_with_other_witness IdealDigest.collisionFree hroot h
    hserved hother (by decide) hindexed hfits
  exact ⟨output, output', h, h', hsame⟩

end ZkClob
