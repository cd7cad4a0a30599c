import ZkClob.Settlement.BookUniqueness
import ZkClob.Settlement.ForcedService
import ZkClob.Settlement.HashDomains
import ZkClob.Settlement.HeadMatches

/-!
# What the public statement determines

The guest proves its public values for some private input: accounts with a proof,
order books, index hints, signatures.  A host may pick another private input for the
same statement.  Six of the public values fix what the batch is about: the commitment
to the batch, the queue entries that it consumes and the withdrawals that it executes.
Whatever the private input, they leave nothing open but the amounts that the forced
withdrawals drain.

Main results:

- Theorem {lit}`SameStatement.sameBatch`: equal statements are about the same batch, apart
  from hints and signatures.
- Theorem {lit}`SameBatch.trades_eq`: the same batch has the same trades.
- Theorem {lit}`SameBatch.newStateRoot_eq`: with the same drained amounts it has the same
  new root, whatever part of the accounts is witnessed.
- Theorem {lit}`public_output_determined`: the public values of a statement.
-/

namespace ZkClob

open Foundations Patricia

/-! ## Canonical accounts are their totals -/

namespace Account

variable {self self' : Account}

/-- The balances of a canonical account are its totals that are not zero. -/
theorem Canonical.mem_balances (h : self.Canonical) {balance : AssetBalance} :
    balance ∈ self.balances ↔
      balance.available ≠ 0 ∧ self.total balance.asset = balance.available.toNat := by
  rw [← h.balance_eq_total, Account.balance]
  constructor
  · intro hmem
    rw [find?_key_eq h.sorted.nodup_map hmem]
    exact ⟨h.nonzero balance hmem, rfl⟩
  · intro htotal
    obtain ⟨hne, heq⟩ := htotal
    cases hfind : self.balances.find? fun b => b.asset = balance.asset with
    | none =>
        rw [hfind] at heq
        exact absurd (FixedWidth.eq_zero_iff.mpr heq.symm) hne
    | some found =>
        rw [hfind] at heq
        have hasset : found.asset = balance.asset := by simpa using List.find?_some hfind
        have hsame : found = balance := by
          cases found
          cases balance
          cases hasset
          cases BitVec.eq_of_toNat_eq heq
          rfl
        exact hsame ▸ List.mem_of_find?_eq_some hfind

/-- Canonical accounts with the same totals are equal. -/
theorem Canonical.eq_of_total (h : self.Canonical) (h' : self'.Canonical)
    (hid : self.id = self'.id) (hnonce : self.nextNonce = self'.nextNonce)
    (htotal : ∀ asset, self.total asset = self'.total asset) : self = self' := by
  have hperm : self.balances.Perm self'.balances := by
    rw [List.perm_ext_iff_of_nodup h.sorted.nodup_map.of_map h'.sorted.nodup_map.of_map]
    intro balance
    rw [h.mem_balances, h'.mem_balances, htotal]
  have hbalances := h.sorted.eq_of_perm h'.sorted hperm
  cases self
  cases self'
  cases hid
  cases hnonce
  cases hbalances
  rfl

end Account

/-! ## Orders without hints and signatures -/

/-- An order with nothing but hashed fields. -/
def SequencedOrder.ofFields (f : OrderFields) : SequencedOrder where
  signedOrder :=
    { operation := f.1
      signer := f.2.1
      signature := ⟨FixedBytes.replicate 32 0, FixedBytes.replicate 32 0, 0⟩
      accountIndex := none }
  sequence := f.2.2

/-- The order without its hint and its signature. -/
def SequencedOrder.bare (self : SequencedOrder) : SequencedOrder :=
  ofFields self.fields

/-- The book without hints and signatures. -/
def ValidatedMarketBook.bare (self : ValidatedMarketBook) : ValidatedMarketBook :=
  { self with
    buys := self.buys.map SequencedOrder.bare
    sells := self.sells.map SequencedOrder.bare }

/-- The match without hints and signatures. -/
def HeadMatch.bare (self : HeadMatch) : HeadMatch :=
  ⟨self.buy.bare, self.sell.bare, self.quantity⟩

section

variable {orders orders' : List SequencedOrder} {config : ExchangeConfig}
  {books books' : List ValidatedMarketBook} {book : ValidatedMarketBook}

theorem map_bare_eq (h : orders.map SequencedOrder.fields = orders'.map SequencedOrder.fields) :
    orders.map SequencedOrder.bare = orders'.map SequencedOrder.bare := by
  have hmap : ∀ l : List SequencedOrder, l.map SequencedOrder.bare =
      (l.map SequencedOrder.fields).map SequencedOrder.ofFields := by
    intro l
    rw [List.map_map]
    rfl
  rw [hmap, hmap, h]

theorem PinnedSide.bare {marketId : MarketId} {side : Side} (h : PinnedSide marketId side orders) :
    PinnedSide marketId side (orders.map SequencedOrder.bare) where
  sorted := List.pairwise_map.mpr h.sorted
  members := List.forall_mem_map.mpr h.members

theorem PinnedBook.bare (h : PinnedBook config book) : PinnedBook config book.bare where
  market := h.market
  baseAsset := h.baseAsset
  buys := h.buys.bare
  sells := h.sells.bare
  nonempty := by
    have hne := h.nonempty
    simp only [ValidatedMarketBook.bare, ← List.map_append, ne_eq, List.map_eq_nil_iff]
    exact hne

/-- Accepted books stay accepted books. -/
theorem PinnedBooks.bare (h : PinnedBooks orders config books) :
    PinnedBooks (orders.map SequencedOrder.bare) config (books.map ValidatedMarketBook.bare) where
  sorted := List.pairwise_map.mpr h.sorted
  book := by
    intro book hbook
    obtain ⟨b, hb, rfl⟩ := List.mem_map.mp hbook
    exact (h.book b hb).bare
  perm := by
    have hperm := h.perm.map SequencedOrder.bare
    rw [List.map_flatMap] at hperm
    rw [List.flatMap_map]
    simpa only [ValidatedMarketBook.bare, List.map_append] using hperm

theorem advance_bare (remaining : U128) (order : SequencedOrder) (rest : List SequencedOrder) :
    advance remaining order.bare (rest.map SequencedOrder.bare) =
      (advance remaining order rest).map SequencedOrder.bare := by
  unfold advance
  by_cases hzero : remaining = 0
  · rw [if_pos hzero, if_pos hzero]
  · rw [if_neg hzero, if_neg hzero, List.map_cons]

/-- Matching looks at no hint and no signature. -/
theorem headMatches_bare {buys sells : List SequencedOrder} {buyRemaining sellRemaining : U128} :
    headMatches (buys.map SequencedOrder.bare) (sells.map SequencedOrder.bare) buyRemaining
        sellRemaining =
      (headMatches buys sells buyRemaining sellRemaining).map HeadMatch.bare := by
  induction buys, sells, buyRemaining, sellRemaining using headMatches.induct with
  | case1 _ _ buy buys sell sells hprice =>
      have hbare : buy.bare.price < sell.bare.price := hprice
      rw [List.map_cons, List.map_cons, headMatches, headMatches, if_pos hprice, if_pos hbare]
      rfl
  | case2 _ _ buy buys sell sells _ _ hprice _ ih =>
      have hbare : ¬ buy.bare.price < sell.bare.price := hprice
      rw [← advance_bare, ← advance_bare] at ih
      rw [List.map_cons, List.map_cons, headMatches, headMatches, if_neg hprice, if_neg hbare,
        List.map_cons]
      exact congrArg _ ih
  | case3 buys sells _ _ hdone =>
      cases buys with
      | nil =>
          rw [List.map_nil, headMatches, headMatches]
          · rfl
          · exact hdone
          · intro buy buys sell sells hnil
            cases hnil
      | cons buy buys =>
          cases sells with
          | nil =>
              rw [List.map_nil, headMatches, headMatches]
              · rfl
              · exact hdone
              · intro buy buys sell sells _ hnil
                cases hnil
          | cons sell sells => exact (hdone buy buys sell sells rfl rfl).elim

/-- Neither do the trades that record the matches. -/
theorem settledMatches_bare (feeConfig : FeeConfig) (books : List ValidatedMarketBook) :
    (settledMatches feeConfig (books.map ValidatedMarketBook.bare)).map Prod.snd =
      (settledMatches feeConfig books).map Prod.snd := by
  have hbook : ∀ book : ValidatedMarketBook,
      (headMatches book.bare.buys book.bare.sells 0 0).map
          (fun m => m.trade book.bare.market book.bare.baseAsset feeConfig) =
        (headMatches book.buys book.sells 0 0).map
          (fun m => m.trade book.market book.baseAsset feeConfig) := by
    intro book
    rw [ValidatedMarketBook.bare, headMatches_bare, List.map_map]
    rfl
  simp only [settledMatches, List.flatMap_map, List.map_flatMap, List.map_map, Function.comp_def,
    hbook]

/-- Orders with the same hashed fields have the same books. -/
theorem PinnedBooks.bare_eq (h : PinnedBooks orders config books)
    (h' : PinnedBooks orders' config books')
    (hfields : orders.map SequencedOrder.fields = orders'.map SequencedOrder.fields) :
    books.map ValidatedMarketBook.bare = books'.map ValidatedMarketBook.bare := by
  have hbare := h.bare
  rw [map_bare_eq hfields] at hbare
  exact hbare.unique h'.bare (List.Perm.refl _)

/-- They are traded alike. -/
theorem PinnedBooks.trades_eq (h : PinnedBooks orders config books)
    (h' : PinnedBooks orders' config books')
    (hfields : orders.map SequencedOrder.fields = orders'.map SequencedOrder.fields) :
    (settledMatches config.fees books).map Prod.snd =
      (settledMatches config.fees books').map Prod.snd := by
  rw [← settledMatches_bare, h.bare_eq h' hfields, settledMatches_bare]

end

/-! ## Entries that agree in their fields -/

section

variable {α φ : Type} {l m : List α}

/-- Tallies look at the fields of the entries. -/
theorem tally_eq_of_map {fields : α → φ} (p : φ → Bool) (f : φ → Nat)
    (h : l.map fields = m.map fields) :
    tally (fun a => p (fields a)) (fun a => f (fields a)) l =
      tally (fun a => p (fields a)) (fun a => f (fields a)) m := by
  have hmap : ∀ k : List α,
      tally (fun a => p (fields a)) (fun a => f (fields a)) k = tally p f (k.map fields) :=
    fun k => (tally_map fields k).symm
  rw [hmap, hmap, h]

/-- What requests drain depends on their hashed fields. -/
theorem drains_congr {requests requests' : List ForcedWithdrawal}
    (ledger : AccountId → AssetId → Nat)
    (h : requests.map ForcedWithdrawal.fields = requests'.map ForcedWithdrawal.fields) :
    drains ledger requests = drains ledger requests' := by
  induction requests generalizing requests' ledger with
  | nil =>
      cases requests' with
      | nil => rfl
      | cons request' requests' => cases h
  | cons request requests ih =>
      cases requests' with
      | nil => cases h
      | cons request' requests' =>
          obtain ⟨hfields, hrest⟩ := List.cons.inj h
          simp only [ForcedWithdrawal.fields, Prod.mk.injEq] at hfields
          obtain ⟨-, haccount, hasset, hamount⟩ := hfields
          simp only [drains, haccount, hasset, hamount, ih _ hrest]

/-- The records of forced withdrawals are the requests with other amounts. -/
theorem executed_fields {requests executed : List ForcedWithdrawal}
    (h : List.Forall₂ (fun r e => e = r.setAmount e.amount ∧ e.amount.toNat ≤ r.amount.toNat)
      requests executed) :
    executed.map ForcedWithdrawal.fields =
      List.zipWith (fun (f : QueueFields) (amount : Nat) =>
          (f.1, f.2.1, f.2.2.1, BitVec.ofNat 128 amount))
        (requests.map ForcedWithdrawal.fields) (executed.map fun e => e.amount.toNat) := by
  induction h with
  | nil => rfl
  | @cons r e requests executed hrecord _ ih =>
      have hfields : e.fields =
          (r.fields.1, r.fields.2.1, r.fields.2.2.1, BitVec.ofNat 128 e.amount.toNat) := by
        rw [BitVec.ofNat_toNat, BitVec.setWidth_eq]
        exact congrArg ForcedWithdrawal.fields hrecord.1
      rw [List.map_cons, List.map_cons, List.map_cons, List.zipWith_cons_cons, ← ih, hfields]

end

/-! ## The batch behind a statement -/

section

variable {B256 : Type} [Sha256 B256]

/-- Public values about one batch: they agree in the commitment to the batch, in the queue entries
that it consumes and from where, and in the withdrawals that it executes. -/
structure SameStatement (o o' : PublicOutput B256) : Prop where
  batchHash : o.batchHash = o'.batchHash
  oldDepositCursor : o.oldDepositCursor = o'.oldDepositCursor
  consumedDepositsHash : o.consumedDepositsHash = o'.consumedDepositsHash
  oldForcedWithdrawalCursor : o.oldForcedWithdrawalCursor = o'.oldForcedWithdrawalCursor
  consumedForcedWithdrawalsHash :
    o.consumedForcedWithdrawalsHash = o'.consumedForcedWithdrawalsHash
  withdrawalsHash : o.withdrawalsHash = o'.withdrawalsHash

/-- Inputs with the same batch: everything but the witness, the order books, the hints and the
signatures. -/
structure SameBatch (input input' : BatchInput B256) : Prop where
  domain : input.domain = input'.domain
  batchId : input.batchId = input'.batchId
  oldStateRoot : input.expectedOldStateRoot = input'.expectedOldStateRoot
  config : input.config = input'.config
  orders : input.orders.map SequencedOrder.fields = input'.orders.map SequencedOrder.fields
  oldDepositCursor : input.oldDepositCursor = input'.oldDepositCursor
  deposits : input.deposits.map Deposit.fields = input'.deposits.map Deposit.fields
  oldForcedWithdrawalCursor : input.oldForcedWithdrawalCursor = input'.oldForcedWithdrawalCursor
  forcedWithdrawals : input.forcedWithdrawals.map ForcedWithdrawal.fields =
    input'.forcedWithdrawals.map ForcedWithdrawal.fields
  withdrawals :
    input.withdrawals.map ExecutedWithdrawal.from = input'.withdrawals.map ExecutedWithdrawal.from

variable [Secp256k1 B256] {input input' : BatchInput B256} {output output' : BatchOutput B256}
  {A : List Account}

/-- The public values in terms of the input and of the results. -/
theorem Settlement.publicOutput_eq (s : Settlement input output) : output.publicOutput =
    { domain := input.domain
      batchId := input.batchId
      oldStateRoot := input.expectedOldStateRoot
      newStateRoot := output.publicOutput.newStateRoot
      configHash := hash input.config
      batchHash := input.batchHash input.expectedOldStateRoot
      tradesHash := hash output.trades
      oldDepositCursor := input.oldDepositCursor
      newDepositCursor := output.publicOutput.newDepositCursor
      consumedDepositsHash := hash input.deposits
      oldForcedWithdrawalCursor := input.oldForcedWithdrawalCursor
      consumedForcedWithdrawalsHash := hash input.forcedWithdrawals
      withdrawalsHash := hash (input.withdrawals.map ExecutedWithdrawal.from)
      forcedWithdrawalsHash := hash output.forcedWithdrawals } :=
  congrArg BatchOutput.publicOutput s.output_eq

omit [Sha256 B256] [Secp256k1 B256] in
/-- Accepted lists are so short that their lengths are hashed in full. -/
theorem short_of_validateLimits (h : validateLimits input = .ok ()) :
    input.orders.length < 2 ^ 64 ∧ input.config.assets.length < 2 ^ 64 ∧
      input.config.markets.length < 2 ^ 64 := by
  simp only [validateLimits, Outcome.bind_eq_ok, Outcome.rejectIf_eq_ok, gt_iff_lt, not_lt] at h
  obtain ⟨_, _, _, horders, _, _, _, _, _, _, _, hassets, _, hmarkets, _⟩ := h
  have hsmall : (1000 : Nat) < 2 ^ 64 := by norm_num
  exact ⟨horders.trans_lt hsmall, hassets.trans_lt hsmall, hmarkets.trans_lt hsmall⟩

/-- Without collisions equal statements are about the same batch. -/
theorem SameStatement.sameBatch (hfree : CollisionFree B256) (s : Settlement input output)
    (s' : Settlement input' output') (hlimits : validateLimits input = .ok ())
    (hlimits' : validateLimits input' = .ok ())
    (h : SameStatement output.publicOutput output'.publicOutput) : SameBatch input input' := by
  rw [s.publicOutput_eq, s'.publicOutput_eq] at h
  obtain ⟨horders, hassets, hmarkets⟩ := short_of_validateLimits hlimits
  obtain ⟨horders', hassets', hmarkets'⟩ := short_of_validateLimits hlimits'
  have hcontent : Sha256.bytes (hash input.domain : B256) ++ beBytes input.batchId ++
      Sha256.bytes input.expectedOldStateRoot ++ Sha256.bytes (hash input.config : B256) ++
        updateHashList input.orders =
      Sha256.bytes (hash input'.domain : B256) ++ beBytes input'.batchId ++
        Sha256.bytes input'.expectedOldStateRoot ++ Sha256.bytes (hash input'.config : B256) ++
          updateHashList input'.orders := updateHash_eq_of_hash_eq hfree h.batchHash
  simp only [List.append_assoc] at hcontent
  obtain ⟨hdomain, hcontent⟩ := Sha256.bytes_prefixFree hcontent
  obtain ⟨hbatchId, hcontent⟩ := prefixFree_u64 hcontent
  obtain ⟨hroot, hcontent⟩ := Sha256.bytes_prefixFree hcontent
  obtain ⟨hconfig, hcontent⟩ := Sha256.bytes_prefixFree hcontent
  exact {
    domain := SigningDomain.updateHash_prefixFree.injective
      (updateHash_eq_of_hash_eq hfree hdomain)
    batchId := hbatchId
    oldStateRoot := hroot
    config := ExchangeConfig.eq_of_updateHash_eq hassets hmarkets hassets' hmarkets'
      (updateHash_eq_of_hash_eq hfree hconfig)
    orders := ordersHash_fields horders horders' hcontent
    oldDepositCursor := h.oldDepositCursor
    deposits := depositsHash_injective (updateHash_eq_of_hash_eq hfree h.consumedDepositsHash)
    oldForcedWithdrawalCursor := h.oldForcedWithdrawalCursor
    forcedWithdrawals := forcedWithdrawalsHash_injective
      (updateHash_eq_of_hash_eq hfree h.consumedForcedWithdrawalsHash)
    withdrawals := executedWithdrawalsHash_injective
      (updateHash_eq_of_hash_eq hfree h.withdrawalsHash) }

/-! ## The results of a batch -/

omit [Sha256 B256] [Secp256k1 B256] in
/-- The operations of an account are counted without hints and signatures. -/
theorem length_noncesOf (orders : List SequencedOrder) (withdrawals : List SignedWithdrawal)
    (id : AccountId) : (noncesOf orders withdrawals id).length =
      ((orders.map SequencedOrder.fields).filter fun f => f.2.1 = id).length +
        ((withdrawals.map ExecutedWithdrawal.from).filter fun w => w.account = id).length := by
  rw [noncesOf, List.length_append, List.length_map, List.length_map, List.filter_map,
    List.filter_map, List.length_map, List.length_map]
  rfl

namespace SameBatch

variable (h : SameBatch input input')

include h

/-- The same batch has the same trades. -/
theorem trades_eq {stages stages' : Stages} (hsteps : StepsSucceed input stages)
    (hsteps' : StepsSucceed input' stages') : stages.trades = stages'.trades := by
  have hpinned := buildValidatedBooks_pinned hsteps.books
  rw [h.config] at hpinned
  rw [(matchAndSettle_trades hsteps.matchAndSettle).1,
    (matchAndSettle_trades hsteps'.matchAndSettle).1, h.config]
  exact hpinned.trades_eq (buildValidatedBooks_pinned hsteps'.books) h.orders

/-- It moves the deposit cursor as far. -/
theorem newDepositCursor_eq (s : Settlement input output) (s' : Settlement input' output') :
    output.publicOutput.newDepositCursor = output'.publicOutput.newDepositCursor := by
  have hlength := congrArg List.length h.deposits
  rw [List.length_map, List.length_map] at hlength
  apply BitVec.eq_of_toNat_eq
  rw [s.newDepositCursor, s'.newDepositCursor, h.oldDepositCursor, hlength]

/-- The accounts after it have the same ids. -/
theorem mem_ids_iff (hfree : CollisionFree B256) (s : Settlement input output)
    (s' : Settlement input' output') (hA : Commits A input.expectedOldStateRoot)
    (hA' : Commits A input'.expectedOldStateRoot) (id : AccountId) :
    id ∈ (nextState A input output).map Account.id ↔
      id ∈ (nextState A input' output').map Account.id := by
  have hmap : ∀ l : List Deposit,
      l.map Deposit.account = (l.map Deposit.fields).map fun f => f.2.1 := by
    intro l
    rw [List.map_map]
    rfl
  rw [s.mem_nextState_ids hfree hA, s'.mem_nextState_ids hfree hA', hmap, hmap, h.deposits]

/-- Their next nonces are the same. -/
theorem nonceOf_eq (hfree : CollisionFree B256) (s : Settlement input output)
    (s' : Settlement input' output') (hA : Commits A input.expectedOldStateRoot)
    (hA' : Commits A input'.expectedOldStateRoot) (id : AccountId) :
    nonceOf (nextState A input output) id = nonceOf (nextState A input' output') id := by
  rw [s.nonceOf_nextState hfree hA, s'.nonceOf_nextState hfree hA', length_noncesOf,
    length_noncesOf, h.orders, h.withdrawals]

/-- With the same trades and the same drained amounts they hold the same. -/
theorem holding_eq (hfree : CollisionFree B256) (s : Settlement input output)
    (s' : Settlement input' output') (hA : Commits A input.expectedOldStateRoot)
    (hA' : Commits A input'.expectedOldStateRoot) (htrades : output.trades = output'.trades)
    (hforced : output.forcedWithdrawals.map ForcedWithdrawal.fields =
      output'.forcedWithdrawals.map ForcedWithdrawal.fields) (id : AccountId) (asset : AssetId) :
    holding (nextState A input output) id asset =
      holding (nextState A input' output') id asset := by
  have hdeposits : tally (fun d => d.account = id ∧ d.asset = asset) (fun d => d.amount.toNat)
      input.deposits = tally (fun d => d.account = id ∧ d.asset = asset)
        (fun d => d.amount.toNat) input'.deposits :=
    tally_eq_of_map (fun f : QueueFields => f.2.1 = id ∧ f.2.2.1 = asset)
      (fun f => f.2.2.2.toNat) h.deposits
  have hdrained : tally (fun w => w.account = id ∧ w.asset = asset) (fun w => w.amount.toNat)
      output.forcedWithdrawals = tally (fun w => w.account = id ∧ w.asset = asset)
        (fun w => w.amount.toNat) output'.forcedWithdrawals :=
    tally_eq_of_map (fun f : QueueFields => f.2.1 = id ∧ f.2.2.1 = asset)
      (fun f => f.2.2.2.toNat) hforced
  have hwithdrawals : tally (fun w => w.account = id ∧ w.asset = asset)
      (fun w => w.amount.toNat) input.withdrawals =
        tally (fun w => w.account = id ∧ w.asset = asset) (fun w => w.amount.toNat)
          input'.withdrawals :=
    tally_eq_of_map (fun w : ExecutedWithdrawal => w.account = id ∧ w.asset = asset)
      (fun w => w.amount.toNat) h.withdrawals
  have hnext := s.holding_nextState hfree hA id asset
  have hnext' := s'.holding_nextState hfree hA' id asset
  have hledger := s.holding_eq id asset
  have hledger' := s'.holding_eq id asset
  rw [htrades, h.config, hdeposits, hdrained, hwithdrawals] at hledger
  omega

end SameBatch

/-- An account that one batch witnessed and another one left alone is in canonical form. -/
theorem Settlement.canonical_of_mem (hfree : CollisionFree B256) (s : Settlement input output)
    (hA : Commits A input.expectedOldStateRoot) {account account' : Account}
    (hkept : account ∈ A) (hupdated : account' ∈ output.updatedAccounts)
    (hid : account.id = account'.id) : account.Canonical := by
  apply s.canonical.canonical
  apply (s.witness_perm hfree hA).mem_iff.mpr
  have hlisted := s.mem_leafKeys (List.mem_map_of_mem hupdated)
  exact List.mem_filter.mpr ⟨hkept, decide_eq_true (hid ▸ hlisted)⟩

/-- Accounts after two batches from one set are told apart by what the ledger says. -/
theorem eq_of_mem_nextStates (hfree : CollisionFree B256) (s : Settlement input output)
    (s' : Settlement input' output') (hA : Commits A input.expectedOldStateRoot)
    (hA' : Commits A input'.expectedOldStateRoot) {account account' : Account}
    (hmem : account ∈ nextState A input output) (hmem' : account' ∈ nextState A input' output')
    (hid : account.id = account'.id) (hnonce : account.nextNonce = account'.nextNonce)
    (htotal : ∀ asset, account.total asset = account'.total asset) : account = account' := by
  rcases List.mem_append.mp hmem with hkept | hupdated
  · have hkept := (List.mem_filter.mp hkept).1
    rcases List.mem_append.mp hmem' with hkept' | hupdated'
    · exact List.inj_on_of_nodup_map hA.nodup hkept (List.mem_filter.mp hkept').1 hid
    · exact (s'.canonical_of_mem hfree hA' hkept hupdated' hid).eq_of_total
        (s'.updated_canonical.canonical _ hupdated') hid hnonce htotal
  · have hcanonical := s.updated_canonical.canonical _ hupdated
    rcases List.mem_append.mp hmem' with hkept' | hupdated'
    · exact hcanonical.eq_of_total
        (s.canonical_of_mem hfree hA (List.mem_filter.mp hkept').1 hupdated hid.symm) hid hnonce
        htotal
    · exact hcanonical.eq_of_total (s'.updated_canonical.canonical _ hupdated') hid hnonce htotal

/-- An account after one batch is there after another one with the same ids, nonces and
holdings. -/
theorem mem_nextState_of_mem (hfree : CollisionFree B256) (s : Settlement input output)
    (s' : Settlement input' output') (hA : Commits A input.expectedOldStateRoot)
    (hA' : Commits A input'.expectedOldStateRoot)
    (hids : ∀ id, id ∈ (nextState A input output).map Account.id →
      id ∈ (nextState A input' output').map Account.id)
    (hnonces : ∀ id,
      nonceOf (nextState A input output) id = nonceOf (nextState A input' output') id)
    (hholdings : ∀ id asset, holding (nextState A input output) id asset =
      holding (nextState A input' output') id asset)
    {account : Account} (hmem : account ∈ nextState A input output) :
    account ∈ nextState A input' output' := by
  have hnodup := (s.nextState_root hfree hA).nodup
  have hnodup' := (s'.nextState_root hfree hA').nodup
  obtain ⟨account', hmem', hid⟩ := List.mem_map.mp (hids _ (List.mem_map_of_mem hmem))
  have hnonce : account.nextNonce = account'.nextNonce := by
    apply BitVec.eq_of_toNat_eq
    rw [← nonceOf_eq_nextNonce hnodup hmem, ← nonceOf_eq_nextNonce hnodup' hmem', hid, hnonces]
  have htotal : ∀ asset, account.total asset = account'.total asset := by
    intro asset
    rw [← holding_eq_total hnodup hmem, ← holding_eq_total hnodup' hmem', hid, hholdings]
  rw [eq_of_mem_nextStates hfree s s' hA hA' hmem hmem' hid.symm hnonce htotal]
  exact hmem'

namespace SameBatch

variable (h : SameBatch input input')

include h

/-- With the same trades and the same drained amounts the same batch has the same new root. -/
theorem newStateRoot_eq (hfree : CollisionFree B256) (s : Settlement input output)
    (s' : Settlement input' output') (hA : Commits A input.expectedOldStateRoot)
    (htrades : output.trades = output'.trades)
    (hforced : output.forcedWithdrawals.map ForcedWithdrawal.fields =
      output'.forcedWithdrawals.map ForcedWithdrawal.fields) :
    output.publicOutput.newStateRoot = output'.publicOutput.newStateRoot := by
  have hA' : Commits A input'.expectedOldStateRoot := h.oldStateRoot ▸ hA
  have hroot := s.nextState_root hfree hA
  have hroot' := s'.nextState_root hfree hA'
  have hids := h.mem_ids_iff hfree s s' hA hA'
  have hnonces := h.nonceOf_eq hfree s s' hA hA'
  have hholdings := h.holding_eq hfree s s' hA hA' htrades hforced
  have hperm : (nextState A input output).Perm (nextState A input' output') := by
    rw [List.perm_ext_iff_of_nodup hroot.nodup.of_map hroot'.nodup.of_map]
    intro account
    constructor
    · exact mem_nextState_of_mem hfree s s' hA hA' (fun id => (hids id).mp) hnonces hholdings
    · exact mem_nextState_of_mem hfree s' s hA' hA (fun id => (hids id).mpr)
        (fun id => (hnonces id).symm) fun id asset => (hholdings id asset).symm
  have hsame : (computeRoot (nextState A input output) : Outcome PatriciaError B256) =
      computeRoot (nextState A input' output') := computeRoot_perm hroot.nodup hperm
  rw [hroot.root_eq, hroot'.root_eq] at hsame
  exact Except.ok.inj hsame

omit [Sha256 B256] [Secp256k1 B256] in
/-- It deposits the same. -/
theorem afterDeposits_eq (A : List Account) :
    afterDeposits A input.deposits = afterDeposits A input'.deposits := by
  funext id asset
  have hdeposits : tally (fun d => d.account = id ∧ d.asset = asset) (fun d => d.amount.toNat)
      input.deposits = tally (fun d => d.account = id ∧ d.asset = asset)
        (fun d => d.amount.toNat) input'.deposits :=
    tally_eq_of_map (fun f : QueueFields => f.2.1 = id ∧ f.2.2.1 = asset)
      (fun f => f.2.2.2.toNat) h.deposits
  rw [afterDeposits, afterDeposits, hdeposits]

omit [Sha256 B256] [Secp256k1 B256] in
/-- Records of requests that drain the same amounts are the same. -/
theorem executed_eq_of_amounts {executed executed' : List ForcedWithdrawal}
    (hrecords : List.Forall₂ (fun r e => e = r.setAmount e.amount ∧
      e.amount.toNat ≤ r.amount.toNat) input.forcedWithdrawals executed)
    (hrecords' : List.Forall₂ (fun r e => e = r.setAmount e.amount ∧
      e.amount.toNat ≤ r.amount.toNat) input'.forcedWithdrawals executed')
    (hamounts : executed.map (fun e => e.amount.toNat) =
      executed'.map fun e => e.amount.toNat) :
    executed.map ForcedWithdrawal.fields = executed'.map ForcedWithdrawal.fields := by
  rw [executed_fields hrecords, executed_fields hrecords', hamounts, h.forcedWithdrawals]

omit [Sha256 B256] [Secp256k1 B256] in
/-- So are records of requests that are served in full. -/
theorem executed_eq {executed executed' : List ForcedWithdrawal}
    (hrecords : List.Forall₂ (fun r e => e = r.setAmount e.amount ∧
      e.amount.toNat ≤ r.amount.toNat) input.forcedWithdrawals executed)
    (hrecords' : List.Forall₂ (fun r e => e = r.setAmount e.amount ∧
      e.amount.toNat ≤ r.amount.toNat) input'.forcedWithdrawals executed')
    (hserved : executed.map (fun e => e.amount.toNat) =
      drains (afterDeposits A input.deposits) input.forcedWithdrawals)
    (hserved' : executed'.map (fun e => e.amount.toNat) =
      drains (afterDeposits A input'.deposits) input'.forcedWithdrawals) :
    executed.map ForcedWithdrawal.fields = executed'.map ForcedWithdrawal.fields := by
  rw [h.afterDeposits_eq A, drains_congr _ h.forcedWithdrawals] at hserved
  exact h.executed_eq_of_amounts hrecords hrecords' (hserved.trans hserved'.symm)

/-- Requests that are served in full drain the same amounts. -/
theorem executed_eq_of_served (s : Settlement input output) (s' : Settlement input' output')
    (hserved : Served A input output) (hserved' : Served A input' output') :
    output.forcedWithdrawals.map ForcedWithdrawal.fields =
      output'.forcedWithdrawals.map ForcedWithdrawal.fields :=
  h.executed_eq s.forced_records s'.forced_records hserved hserved'

/-- Accepted inputs for one batch have one statement. -/
theorem sameStatement (s : Settlement input output) (s' : Settlement input' output') :
    SameStatement output.publicOutput output'.publicOutput := by
  have hbatch : input.batchHash input.expectedOldStateRoot =
      input'.batchHash input'.expectedOldStateRoot := by
    rw [BatchInput.batchHash, BatchInput.batchHash, h.domain, h.batchId, h.oldStateRoot, h.config]
    have hmessage : (Hashed.batch (hash input'.domain : B256) input'.batchId
        input'.expectedOldStateRoot (hash input'.config) input.orders :
          Hashed B256 Account).message = (Hashed.batch (hash input'.domain) input'.batchId
            input'.expectedOldStateRoot (hash input'.config) input'.orders).message :=
      (Hashed.SameFields.batch _ _ _ _ h.orders).message_eq
    exact congrArg Sha256.sha256 hmessage
  have hdeposits : (Hashed.deposits input.deposits : Hashed B256 Account).message =
      (Hashed.deposits input'.deposits : Hashed B256 Account).message :=
    (Hashed.SameFields.deposits h.deposits).message_eq
  have hrequests : (Hashed.forcedWithdrawals input.forcedWithdrawals :
      Hashed B256 Account).message =
        (Hashed.forcedWithdrawals input'.forcedWithdrawals : Hashed B256 Account).message :=
    (Hashed.SameFields.forcedWithdrawals h.forcedWithdrawals).message_eq
  rw [s.publicOutput_eq, s'.publicOutput_eq]
  exact {
    batchHash := hbatch
    oldDepositCursor := h.oldDepositCursor
    consumedDepositsHash := congrArg Sha256.sha256 hdeposits
    oldForcedWithdrawalCursor := h.oldForcedWithdrawalCursor
    consumedForcedWithdrawalsHash := congrArg Sha256.sha256 hrequests
    withdrawalsHash := congrArg (fun l => (hash l : B256)) h.withdrawals }

/-- The same batch with the same trades and the same drained amounts has the same public
values. -/
theorem publicOutput_eq (hfree : CollisionFree B256) (s : Settlement input output)
    (s' : Settlement input' output') (hA : Commits A input.expectedOldStateRoot)
    (htrades : output.trades = output'.trades)
    (hforced : output.forcedWithdrawals.map ForcedWithdrawal.fields =
      output'.forcedWithdrawals.map ForcedWithdrawal.fields)
    (hsame : SameStatement output.publicOutput output'.publicOutput) :
    output.publicOutput = output'.publicOutput := by
  have hroot := h.newStateRoot_eq hfree s s' hA htrades hforced
  have hcursor := h.newDepositCursor_eq s s'
  have hmessage :
      (Hashed.forcedWithdrawals output.forcedWithdrawals : Hashed B256 Account).message =
        (Hashed.forcedWithdrawals output'.forcedWithdrawals : Hashed B256 Account).message :=
    (Hashed.SameFields.forcedWithdrawals hforced).message_eq
  have hexecuted : (hash output.forcedWithdrawals : B256) = hash output'.forcedWithdrawals :=
    congrArg Sha256.sha256 hmessage
  rw [s.publicOutput_eq, s'.publicOutput_eq] at hsame ⊢
  cases hsame
  simp_all [h.domain, h.batchId, h.oldStateRoot, h.config]

end SameBatch

/-! ## The guarantee -/

omit [Secp256k1 B256] in
/-- What was drained can be read off the committed hash. -/
theorem amounts_of_hash_eq (hfree : CollisionFree B256) {executed executed' : List ForcedWithdrawal}
    (h : (hash executed : B256) = hash executed') :
    executed.map (fun e => e.amount.toNat) = executed'.map fun e => e.amount.toNat := by
  have hfields := forcedWithdrawalsHash_injective (updateHash_eq_of_hash_eq hfree h)
  have hmap : ∀ l : List ForcedWithdrawal, l.map (fun e => e.amount.toNat) =
      (l.map ForcedWithdrawal.fields).map fun f => f.2.2.2.toNat := by
    intro l
    rw [List.map_map]
    rfl
  rw [hmap, hmap, hfields]

variable [DecidableEq B256]

/-- Two accepted batches with one statement, from whatever private inputs, have the same trades and
withdrawals.  They have the same public values exactly when they drain the same amounts for the
forced withdrawals, which is when they commit to the same forced withdrawals, and so they do when
both serve them in full. -/
theorem public_output_determined (hfree : CollisionFree B256)
    (hA : computeRoot A = .ok input.expectedOldStateRoot)
    (haccepted : settleBatch input = .ok output)
    (haccepted' : settleBatch input' = .ok output')
    (hsame : SameStatement output.publicOutput output'.publicOutput) :
    output.trades = output'.trades ∧ output.withdrawals = output'.withdrawals ∧
      (output.publicOutput = output'.publicOutput ↔
        output.forcedWithdrawals.map (fun e => e.amount.toNat) =
          output'.forcedWithdrawals.map fun e => e.amount.toNat) ∧
      (output.publicOutput = output'.publicOutput ↔
        output.publicOutput.forcedWithdrawalsHash = output'.publicOutput.forcedWithdrawalsHash) ∧
      (Served A input output → Served A input' output' →
        output.publicOutput = output'.publicOutput) := by
  obtain ⟨s⟩ := exists_settlement haccepted
  obtain ⟨s'⟩ := exists_settlement haccepted'
  obtain ⟨stages, hsteps, htrades, -⟩ := exists_steps haccepted
  obtain ⟨stages', hsteps', htrades', -⟩ := exists_steps haccepted'
  have hcommits := Commits.of_computeRoot hA
  have h := hsame.sameBatch hfree s s' hsteps.limits hsteps'.limits
  have htraded : output.trades = output'.trades := by
    rw [htrades, htrades', h.trades_eq hsteps hsteps']
  have hdrained : output.publicOutput.forcedWithdrawalsHash =
      output'.publicOutput.forcedWithdrawalsHash →
        output.forcedWithdrawals.map (fun e => e.amount.toNat) =
          output'.forcedWithdrawals.map fun e => e.amount.toNat := by
    intro hhash
    rw [s.publicOutput_eq, s'.publicOutput_eq] at hhash
    exact amounts_of_hash_eq hfree hhash
  have hpublic : output.forcedWithdrawals.map (fun e => e.amount.toNat) =
      output'.forcedWithdrawals.map (fun e => e.amount.toNat) →
        output.publicOutput = output'.publicOutput := by
    intro hamounts
    exact h.publicOutput_eq hfree s s' hcommits htraded
      (h.executed_eq_of_amounts s.forced_records s'.forced_records hamounts) hsame
  have hcommitted : output.publicOutput = output'.publicOutput →
      output.publicOutput.forcedWithdrawalsHash = output'.publicOutput.forcedWithdrawalsHash :=
    fun heq => congrArg PublicOutput.forcedWithdrawalsHash heq
  refine ⟨htraded, ?_, ⟨fun heq => hdrained (hcommitted heq), hpublic⟩,
    ⟨hcommitted, fun hhash => hpublic (hdrained hhash)⟩, ?_⟩
  · have hwithdrawals := congrArg BatchOutput.withdrawals s.output_eq
    have hwithdrawals' := congrArg BatchOutput.withdrawals s'.output_eq
    exact hwithdrawals.trans (h.withdrawals.trans hwithdrawals'.symm)
  · intro hserved hserved'
    exact h.publicOutput_eq hfree s s' hcommits htraded
      (h.executed_eq_of_served s s' hserved hserved') hsame

end

/-- The small exchange accepts its batch with and without the index of the user: one statement,
two new roots. -/
theorem public_output_determined_testBatch :
    ∃ output output', settleBatch (testBatch (some 1)) = .ok output ∧
      settleBatch (testBatch none) = .ok output' ∧
      output.trades = output'.trades ∧ output.withdrawals = output'.withdrawals ∧
        (output.publicOutput = output'.publicOutput ↔
          output.forcedWithdrawals.map (fun e => e.amount.toNat) =
            output'.forcedWithdrawals.map fun e => e.amount.toNat) ∧
        (output.publicOutput = output'.publicOutput ↔
          output.publicOutput.forcedWithdrawalsHash =
            output'.publicOutput.forcedWithdrawalsHash) ∧
        (Served testAccounts (testBatch (some 1)) output →
          Served testAccounts (testBatch none) output' →
            output.publicOutput = output'.publicOutput) := by
  obtain ⟨output, h⟩ := exists_testOutput
  obtain ⟨output', h'⟩ : ∃ output', settleBatch (testBatch none) = .ok output' :=
    Outcome.exists_of_isOk (by decide +kernel)
  obtain ⟨s⟩ := exists_settlement h
  obtain ⟨s'⟩ := exists_settlement h'
  have hroot : computeRoot testAccounts = .ok testRoot := by decide +kernel
  have hsame : SameStatement output.publicOutput output'.publicOutput := by
    rw [s.publicOutput_eq, s'.publicOutput_eq]
    constructor <;> rfl
  exact ⟨output, output', h, h',
    public_output_determined IdealDigest.collisionFree hroot h h' hsame⟩

end ZkClob
