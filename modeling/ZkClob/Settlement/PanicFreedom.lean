import ZkClob.Settlement.WellFormed

/-!
# No batch makes the guest panic

The guest indexes vectors, inserts into them, divides by the scale of an asset and expects values
to be there, all without checks of its own at these places: an earlier step has checked what is
needed.  A prover can feed it anything, so that the checks have to cover every witness, order book
and amount.  The only thing that no step checks is that the host has attached an account index to
every deposit, order and withdrawal; whatever the index is, the guest returns a value or an error.

Main results:

- Theorem {lit}`Patricia.neverPanics_computeRootFromProof`: no proof makes the root computation
  panic.
- Theorem {lit}`neverPanics_matchAndSettle`: with indices in range and scales that are not zero, the
  matching never panics.
- Theorem {lit}`settleBatch_never_panics`: a batch whose operations carry account indices is
  accepted or rejected with an error.
-/

namespace ZkClob

open Foundations Outcome

/-! ## Computing roots -/

namespace Patricia

variable {B256 K L : Type} [Sha256 B256] [PatriciaKey K] [PatriciaLeaf L K]

theorem neverPanics_branch (left right : Commitment B256 K) : NeverPanics (branch left right) := by
  unfold branch
  apply neverPanics_rejectIf.bind
  intro _ _
  apply neverPanics_okOr.bind
  intro depth _
  apply neverPanics_rejectIf.bind
  intro _ _
  exact failsWith_ok _

theorem neverPanics_combine (nodes : List (Commitment B256 K)) : NeverPanics (combine nodes) := by
  fun_induction combine nodes with
  | case1 => exact failsWith_ok _
  | case2 => exact failsWith_ok _
  | case3 first second rest nodes ih₁ ih₂ =>
      apply neverPanics_okOr.bind
      intro depth _
      dsimp only
      split
      · exact neverPanics_error _
      · rename_i hsplit
        apply (ih₁ depth hsplit).bind
        intro left _
        apply neverPanics_okOr.bind
        intro left _
        apply (ih₂ depth hsplit).bind
        intro right _
        apply neverPanics_okOr.bind
        intro right _
        apply (neverPanics_branch left right).bind
        intro node _
        exact failsWith_ok _

theorem neverPanics_sorted (values : List L) :
    NeverPanics (sorted values : Outcome PatriciaError (List L)) := by
  unfold sorted
  apply neverPanics_rejectIf.bind
  intro _ _
  exact failsWith_ok _

/-- No proof makes the root computation panic. -/
theorem neverPanics_computeRootFromProof (values : List L) (proof : PatriciaMultiproof B256 K) :
    NeverPanics (computeRootFromProof values proof) := by
  unfold computeRootFromProof
  apply neverPanics_rejectIf.bind
  intro _ _
  apply (neverPanics_sorted values).bind
  intro values _
  apply neverPanics_rejectIf.bind
  intro _ _
  apply neverPanics_rejectIf.bind
  intro _ _
  apply (neverPanics_combine _).bind
  intro node _
  exact failsWith_ok _

end Patricia

theorem StateWitness.neverPanics_root {B256 : Type} [Sha256 B256] (self : StateWitness B256) :
    NeverPanics self.root :=
  neverPanics_mapError (Patricia.neverPanics_computeRootFromProof self.accounts self.multiproof)

/-! ## Checks that precede the operations -/

theorem neverPanics_validateLimits {B256 : Type} (input : BatchInput B256) :
    NeverPanics (validateLimits input) := by
  unfold validateLimits
  iterate 7
    apply neverPanics_rejectIf.bind
    intro _ _
  exact neverPanics_rejectIf

/-- A loop whose steps never panic never panics. -/
theorem neverPanics_foldlM {ε σ α : Type} {f : σ → α → Outcome ε σ} {l : List α} {s : σ}
    (hf : ∀ s a, NeverPanics (f s a)) : NeverPanics (l.foldlM f s) :=
  failsWith_foldlM (P := fun _ => True) (fun _ _ _ _ _ _ => trivial) (fun s a _ _ => hf s a) trivial

theorem neverPanics_rejectUnsorted {κ : Type} [LinearOrder κ] (previous : Option κ) (id : κ)
    (duplicate unsorted : SettlementError) :
    NeverPanics (rejectUnsorted previous id duplicate unsorted) := by
  apply neverPanics_rejectIf.bind
  intro _ _
  exact neverPanics_rejectIf

theorem neverPanics_validateConfig (config : ExchangeConfig) (accounts : List Account) :
    NeverPanics (validateConfig config accounts) := by
  have hasset : ∀ previous asset, NeverPanics (validateAsset previous asset) := by
    intro previous asset
    unfold validateAsset
    apply neverPanics_rejectIf.bind
    intro _ _
    apply (neverPanics_rejectUnsorted _ _ _ _).bind
    intro _ _
    exact failsWith_ok _
  have hmarket : ∀ previous market, NeverPanics (validateMarket config previous market) := by
    intro previous market
    unfold validateMarket
    apply (neverPanics_rejectUnsorted _ _ _ _).bind
    intro _ _
    apply neverPanics_rejectIf.bind
    intro _ _
    apply neverPanics_rejectIf.bind
    intro _ _
    exact failsWith_ok _
  unfold validateConfig
  apply (neverPanics_foldlM hasset).bind
  intro _ _
  apply (neverPanics_foldlM hmarket).bind
  intro _ _
  apply neverPanics_rejectIf.bind
  intro _ _
  exact neverPanics_rejectIf

theorem neverPanics_validateAccounts (accounts : List Account) :
    NeverPanics (validateAccounts accounts) := by
  have haccount : ∀ account, NeverPanics (validateAccount account) := by
    intro account
    unfold validateAccount
    apply neverPanics_rejectIf.bind
    intro _ _
    split
    · apply neverPanics_rejectIf.bind
      intro _ _
      exact neverPanics_error _
    · exact failsWith_ok _
  unfold validateAccounts
  split
  · apply neverPanics_rejectIf.bind
    intro _ _
    exact neverPanics_error _
  · exact failsWith_forM fun account _ => haccount account

theorem neverPanics_validateDeposits (deposits : List Deposit) (oldCursor : U64)
    (config : ExchangeConfig) : NeverPanics (validateDeposits deposits oldCursor config) := by
  apply neverPanics_foldlM
  intro expected deposit
  unfold validateDeposit
  iterate 3
    apply neverPanics_rejectIf.bind
    intro _ _
  exact neverPanics_okOr

theorem neverPanics_validateForcedWithdrawals (requests : List ForcedWithdrawal)
    (oldCursor : U64) : NeverPanics (validateForcedWithdrawals requests oldCursor) := by
  unfold validateForcedWithdrawals
  refine FailsWith.bind (neverPanics_foldlM fun expected request => ?_) fun _ _ => failsWith_ok _
  unfold validateForcedWithdrawal
  iterate 2
    apply neverPanics_rejectIf.bind
    intro _ _
  exact neverPanics_okOr

/-! ## Deposits -/

/-- The position of a deposit is that of an account, or at most behind the last one. -/
theorem locateDepositAccount_le {accounts : List Account} {deposit : Deposit}
    {place : Except Nat Nat} (h : locateDepositAccount accounts deposit = .ok place) :
    (∀ index, place = .ok index → index < accounts.length) ∧
      ∀ index, place = .error index → index ≤ accounts.length := by
  simp only [locateDepositAccount, bind_eq_ok, expect_eq_ok] at h
  rcases h with ⟨hint, _, h⟩
  split at h
  · rename_i hat
    cases h
    refine ⟨?_, fun index hindex => nomatch hindex⟩
    rintro index ⟨⟩
    rcases (Option.any_eq_true _ _).mp hat with ⟨account, haccount, _⟩
    exact (List.getElem?_eq_some_iff.mp haccount).1
  · split at h
    · rename_i hbetween
      cases h
      refine ⟨fun index hindex => (nomatch hindex), ?_⟩
      rintro index ⟨⟩
      rcases hbetween.1 with hzero | hbefore
      · omega
      · rcases (Option.any_eq_true _ _).mp hbefore with ⟨account, haccount, _⟩
        have hlt := (List.getElem?_eq_some_iff.mp haccount).1
        omega
    · cases h
      constructor
      · intro index hindex
        rcases binarySearchBy_ok hindex with ⟨a, ha, _⟩
        exact (List.getElem?_eq_some_iff.mp ha).1
      · intro index hindex
        exact binarySearchBy_error_le hindex

theorem neverPanics_credit (account : Account) (asset : AssetId) (amount : U128) :
    NeverPanics (account.credit asset amount) :=
  failsWith_credit fun hpanic => nomatch hpanic

theorem neverPanics_debit (account : Account) (asset : AssetId) (amount : U128) :
    NeverPanics (account.debit asset amount) :=
  failsWith_debit fun _ hpanic => nomatch hpanic

/-- Deposits with indices, right or wrong, are applied without a panic. -/
theorem neverPanics_applyDeposits {accounts : List Account} {deposits : List Deposit}
    (hindices : ∀ d ∈ deposits, d.accountIndex.isSome) :
    NeverPanics (applyDeposits accounts deposits) := by
  refine failsWith_foldlM (P := fun _ => True) (fun _ _ _ _ _ _ => trivial) ?_ trivial
  intro accounts deposit hdeposit _
  have hlocate : NeverPanics (locateDepositAccount accounts deposit) := by
    unfold locateDepositAccount
    refine FailsWith.bind (failsWith_expect_of_isSome (hindices deposit hdeposit)) ?_
    intro hint _
    dsimp only
    split
    · exact failsWith_ok _
    · split <;> exact failsWith_ok _
  unfold applyDeposit
  apply hlocate.bind
  intro place hplace
  rcases locateDepositAccount_le hplace with ⟨hfound, hfree⟩
  cases place with
  | ok index =>
      exact failsWith_modifyAt_of_lt (hfound index rfl)
        fun account => neverPanics_credit account _ _
  | error index =>
      have hle := hfree index rfl
      apply neverPanics_rejectIf.bind
      intro _ _
      refine FailsWith.bind (failsWith_insertAt hle) ?_
      intro inserted hinserted
      rw [insertAt, if_pos hle, Except.ok.injEq] at hinserted
      refine failsWith_modifyAt_of_lt ?_ fun account => neverPanics_credit account _ _
      rw [← hinserted, List.length_insertIdx_of_le_length hle]
      omega

/-! ## Forced withdrawals and withdrawals -/

/-- No request makes the drains panic, whatever its index is. -/
theorem neverPanics_applyForcedWithdrawals (accounts : List Account)
    (requests : List ForcedWithdrawal) :
    NeverPanics (applyForcedWithdrawals accounts requests) := by
  induction requests generalizing accounts with
  | nil => exact failsWith_ok _
  | cons request requests ih =>
      have hone : NeverPanics (applyForcedWithdrawal accounts request) := by
        unfold applyForcedWithdrawal
        split
        · exact failsWith_ok _
        · rename_i index _
          split
          · exact failsWith_ok _
          · rename_i account haccount
            have hlt := (List.getElem?_eq_some_iff.mp haccount).1
            split
            · dsimp only
              split
              · apply (failsWith_modifyAt_of_lt hlt fun account =>
                  neverPanics_debit account _ _).bind
                intro accounts _
                exact failsWith_ok _
              · exact failsWith_ok _
            · exact failsWith_ok _
      apply hone.bind
      intro served _
      apply (ih served.1).bind
      intro rest _
      exact failsWith_ok _

/-- The account index of an operation is within the accounts. -/
def InRange (accountIndex : Option U32) (n : Nat) : Prop :=
  ∃ index, accountIndex = some index ∧ index.toNat < n

/-- An index that names an account is within the accounts. -/
theorem IndexedIn.inRange {accounts : List Account} {accountIndex : Option U32} {id : AccountId}
    (h : IndexedIn (accounts.map Account.id) accountIndex id) :
    InRange accountIndex accounts.length := by
  rcases h with ⟨index, hindex, hat⟩
  have hlt := (List.getElem?_eq_some_iff.mp hat).1
  rw [List.length_map] at hlt
  exact ⟨index, hindex, hlt⟩

theorem neverPanics_applyWithdrawals {accounts : List Account}
    {withdrawals : List SignedWithdrawal}
    (hrange : ∀ w ∈ withdrawals, InRange w.accountIndex accounts.length) :
    NeverPanics (applyWithdrawals accounts withdrawals) := by
  refine failsWith_foldlM (P := fun current => current.length = accounts.length) ?_ ?_ rfl
  · intro current w current' _ hlength hstep
    simp only [applyWithdrawal, bind_eq_ok] at hstep
    rcases hstep with ⟨_, _, hmodified⟩
    rw [length_modifyAt hmodified, hlength]
  · intro current w hw hlength
    rcases hrange w hw with ⟨index, hindex, hlt⟩
    unfold applyWithdrawal
    rw [hindex, expect_some, ok_bind]
    exact failsWith_modifyAt_of_lt (hlength ▸ hlt) fun account => neverPanics_debit account _ _

/-! ## Signed operations -/

section

variable {B256 : Type} [Sha256 B256] [Secp256k1 B256] {accounts : List Account}
  {config : ExchangeConfig} {domainHash : B256} {orders : List SequencedOrder}
  {withdrawals : List SignedWithdrawal}

theorem neverPanics_validateAccountIndex {accountIndex : Option U32} {id : AccountId}
    (h : accountIndex.isSome = true) :
    NeverPanics (validateAccountIndex accountIndex accounts id) := by
  unfold validateAccountIndex
  refine FailsWith.bind (failsWith_expect_of_isSome h) ?_
  intro index _
  exact neverPanics_rejectIf

theorem neverPanics_validateWithdrawals (hindices : ∀ w ∈ withdrawals, w.accountIndex.isSome) :
    NeverPanics (validateWithdrawals withdrawals accounts config domainHash) := by
  apply failsWith_forM
  intro w hw
  unfold validateWithdrawal
  iterate 2
    apply neverPanics_rejectIf.bind
    intro _ _
  apply (neverPanics_validateAccountIndex (hindices w hw)).bind
  intro _ _
  exact neverPanics_rejectIf

theorem neverPanics_validateOrders (hindices : ∀ o ∈ orders, o.accountIndex.isSome) :
    NeverPanics (validateOrders orders accounts config domainHash) := by
  have hloop : NeverPanics (forM orders (validateOrder accounts config domainHash)) := by
    apply failsWith_forM
    intro o ho
    unfold validateOrder
    iterate 3
      apply neverPanics_rejectIf.bind
      intro _ _
    apply (neverPanics_validateAccountIndex (hindices o ho)).bind
    intro _ _
    exact neverPanics_rejectIf
  unfold validateOrders
  apply hloop.bind
  intro _ _
  exact neverPanics_rejectIf

end

/-! ## Nonces -/

variable {accounts : List Account} {orders : List SequencedOrder}
  {withdrawals : List SignedWithdrawal}

/-- A run of nonces with one index, which is within the accounts. -/
theorem neverPanics_validateAccountNonces {run : List (Nat × U64)} (hne : run ≠ [])
    (hrange : ∀ n ∈ run, n.1 < accounts.length) :
    NeverPanics (validateAccountNonces accounts run) := by
  rcases List.exists_cons_of_ne_nil hne with ⟨first, rest, rfl⟩
  unfold validateAccountNonces
  refine FailsWith.bind (failsWith_expect_of_isSome rfl) ?_
  intro first' hfirst
  rw [List.head?_cons, expect_some, Except.ok.injEq] at hfirst
  have hlt : first'.1 < accounts.length := hfirst ▸ hrange first (List.mem_cons_self ..)
  refine FailsWith.bind (failsWith_expect_of_isSome (by simp [hlt])) ?_
  intro account _
  refine FailsWith.bind (neverPanics_foldlM fun expected nonce => ?_) fun _ _ => failsWith_ok _
  unfold validateNonce
  apply neverPanics_rejectIf.bind
  intro _ _
  exact neverPanics_okOr

theorem neverPanics_validateNonces
    (horders : ∀ o ∈ orders, IndexedIn (accounts.map Account.id) o.accountIndex o.trader)
    (hwithdrawals : ∀ w ∈ withdrawals,
      IndexedIn (accounts.map Account.id) w.accountIndex w.account) :
    NeverPanics (validateNonces orders withdrawals accounts) := by
  rcases exists_operationNonces horders hwithdrawals with ⟨nonces, hcollected, hnamed⟩
  unfold validateNonces
  rw [hcollected, ok_bind]
  have hperm := sortByKey_perm (fun n : Nat × U64 => toLex (n.1, n.2.toNat)) nonces
  have hindices := sortByKey_lex_pairwise Prod.fst (fun n : Nat × U64 => n.2.toNat) nonces
  dsimp only
  generalize sortByKey (fun n : Nat × U64 => toLex (n.1, n.2.toNat)) nonces = sorted
    at hperm hindices
  rcases chunkBy_eq_map_filter hindices with ⟨indices, _, hmem, hchunks⟩
  apply failsWith_forM
  intro run hrun
  rw [hchunks] at hrun
  rcases List.mem_map.mp hrun with ⟨index, hindex, rfl⟩
  rcases (hmem index).mp hindex with ⟨first, hfirst, rfl⟩
  apply neverPanics_validateAccountNonces
  · exact List.ne_nil_of_mem (List.mem_filter.mpr ⟨hfirst, decide_eq_true rfl⟩)
  · intro n hn
    rcases hnamed n (hperm.mem_iff.mp (List.mem_filter.mp hn).1) with ⟨id, hat⟩
    have hlt := (List.getElem?_eq_some_iff.mp hat).1
    rwa [List.length_map] at hlt

/-- Counting operations whose indices are within the counts. -/
theorem neverPanics_countOperations {α : Type} (accountIndex : α → Option U32) {l : List α}
    {counts : List U64} (hrange : ∀ a ∈ l, InRange (accountIndex a) counts.length) :
    NeverPanics (l.foldlM (fun counts a => countOperation counts (accountIndex a)) counts) ∧
      ∀ counts', l.foldlM (fun counts a => countOperation counts (accountIndex a)) counts =
        .ok counts' → counts'.length = counts.length := by
  have hkeep : ∀ (current : List U64) (a : α) (current' : List U64), a ∈ l →
      current.length = counts.length →
      countOperation current (accountIndex a) = .ok current' →
      current'.length = counts.length := by
    intro current a current' _ hlength hstep
    simp only [countOperation, bind_eq_ok] at hstep
    rcases hstep with ⟨_, _, hmodified⟩
    rw [length_modifyAt hmodified, hlength]
  constructor
  · refine failsWith_foldlM (P := fun current => current.length = counts.length) hkeep ?_ rfl
    intro current a ha hlength
    rcases hrange a ha with ⟨index, hindex, hlt⟩
    unfold countOperation
    rw [hindex, expect_some, ok_bind]
    exact failsWith_modifyAt_of_lt (hlength ▸ hlt) fun _ => neverPanics_okOr
  · intro counts' hcounts
    exact foldlM_invariant (P := fun current => current.length = counts.length) hkeep rfl hcounts

theorem neverPanics_consumeNonces
    (horders : ∀ o ∈ orders, InRange o.accountIndex accounts.length)
    (hwithdrawals : ∀ w ∈ withdrawals, InRange w.accountIndex accounts.length) :
    NeverPanics (consumeNonces accounts orders withdrawals) := by
  have hstart : (List.replicate accounts.length (0 : U64)).length = accounts.length :=
    List.length_replicate
  rcases neverPanics_countOperations SequencedOrder.accountIndex (hstart.symm ▸ horders) with
    ⟨hcounted, hlength⟩
  unfold consumeNonces
  apply hcounted.bind
  intro counts hcounts
  have hcountsLength := (hlength counts hcounts).trans hstart
  apply (neverPanics_countOperations SignedOperation.accountIndex
    (hcountsLength.symm ▸ hwithdrawals)).1.bind
  intro counts' _
  apply failsWith_mapM
  rintro ⟨account, count⟩ _
  apply neverPanics_okOr.bind
  intro nextNonce _
  exact failsWith_ok _

/-! ## Order books -/

variable {config : ExchangeConfig}

/-- The marks of the seen orders stay as many as the orders. -/
theorem neverPanics_validateBookOrders (marketId : MarketId) (indices : List U32) (side : Side)
    {seenIndices : List Bool} (hlength : seenIndices.length = orders.length) :
    NeverPanics (validateBookOrders marketId indices side orders seenIndices) := by
  refine failsWith_foldlM
    (P := fun state : List Bool × List SequencedOrder => state.1.length = orders.length) ?_ ?_
    hlength
  · rintro ⟨seen, validated⟩ index ⟨seen', validated'⟩ _ hseen hstep
    simp only [validateBookOrder, bind_eq_ok, Except.ok.injEq, Prod.mk.injEq] at hstep
    rcases hstep with ⟨_, _, _, _, _, _, _, _, _, _, _, _, rfl, _⟩
    rw [List.length_set]
    exact hseen
  · rintro ⟨seen, validated⟩ index _ hseen
    unfold validateBookOrder
    apply neverPanics_okOr.bind
    intro order horder
    have hlt := (List.getElem?_eq_some_iff.mp (okOr_eq_ok.mp horder)).1
    have hmarked : (seen[index.toNat]?).isSome = true := by
      have hseenLt : index.toNat < seen.length := hseen.symm ▸ hlt
      rw [List.getElem?_eq_getElem hseenLt]
      rfl
    refine FailsWith.bind (failsWith_expect_of_isSome hmarked) ?_
    intro _ _
    iterate 4
      apply neverPanics_rejectIf.bind
      intro _ _
    exact failsWith_ok _

theorem neverPanics_buildValidatedBooks (orders : List SequencedOrder)
    (orderBooks : List MarketOrderBook) (config : ExchangeConfig) :
    NeverPanics (buildValidatedBooks orders orderBooks config) := by
  have hloop : NeverPanics (orderBooks.foldlM (validateBook orders config)
      ⟨[], none, List.replicate orders.length false⟩) := by
    refine failsWith_foldlM (P := BooksPinned orders config) ?_ ?_ ?_
    · exact fun state book state' _ hstate hstep => hstate.step hstep
    · intro state book _ hstate
      unfold validateBook
      apply neverPanics_rejectIf.bind
      intro _ _
      apply (neverPanics_rejectUnsorted _ _ _ _).bind
      intro _ _
      apply neverPanics_okOr.bind
      intro market _
      apply neverPanics_okOr.bind
      intro baseAsset _
      apply (neverPanics_validateBookOrders _ _ _ hstate.length).bind
      rintro ⟨seen, buys⟩ hbuys
      have hlength := (validateBookOrders_pinned hstate.length hbuys).1.length
      apply (neverPanics_validateBookOrders _ _ _ hlength).bind
      rintro ⟨seen', sells⟩ _
      exact failsWith_ok _
    · exact BooksPinned.start orders config
  unfold buildValidatedBooks
  apply hloop.bind
  intro state _
  apply neverPanics_rejectIf.bind
  intro _ _
  exact failsWith_ok _

/-! ## Matching -/

variable {market : MarketConfig} {baseAsset : AssetConfig} {feeConfig : FeeConfig}
  {feeRecipientIndex : Nat} {buy sell : SequencedOrder} {quantity price : U128}

/-- Settling a trade keeps the number of accounts. -/
theorem length_settleTrade {accounts' : List Account} {trade : Trade}
    (h : settleTrade accounts market baseAsset feeConfig feeRecipientIndex buy sell quantity price =
      .ok (accounts', trade)) : accounts'.length = accounts.length := by
  simp only [settleTrade, bind_eq_ok, Except.ok.injEq, Prod.mk.injEq] at h
  rcases h with ⟨_, _, _, _, _, _, _, _, _, _, _, _, _, _, _, _, _, _, a₁, h₁, a₂, h₂, a₃, h₃, a₄,
    h₄, a₅, h₅, rfl, _⟩
  rw [length_modifyAt h₅, length_modifyAt h₄, length_modifyAt h₃, length_modifyAt h₂,
    length_modifyAt h₁]

/-- A trade between accounts that exist, of an asset with a scale. -/
theorem neverPanics_settleTrade (hscale : baseAsset.scale ≠ 0)
    (hfee : feeRecipientIndex < accounts.length) (hbuy : InRange buy.accountIndex accounts.length)
    (hsell : InRange sell.accountIndex accounts.length) :
    NeverPanics (settleTrade accounts market baseAsset feeConfig feeRecipientIndex buy sell quantity
      price) := by
  rcases hbuy with ⟨buyerIndex, hbuyer, hbuyerLt⟩
  rcases hsell with ⟨sellerIndex, hseller, hsellerLt⟩
  unfold settleTrade
  apply neverPanics_rejectIf.bind
  intro _ _
  rw [hbuyer, hseller, expect_some, expect_some, ok_bind, ok_bind]
  apply neverPanics_okOr.bind
  intro product _
  have hdivided : (FixedWidth.checkedDiv product baseAsset.scale).isSome = true := by
    rw [FixedWidth.checkedDiv, if_neg hscale]
    rfl
  refine FailsWith.bind (failsWith_expect_of_isSome hdivided) ?_
  intro quoteAmount _
  apply neverPanics_rejectIf.bind
  intro _ _
  apply neverPanics_okOr.bind
  intro charged _
  have hcharged : (FixedWidth.checkedDiv charged BPS_DENOMINATOR).isSome = true := by
    rw [FixedWidth.checkedDiv, if_neg (by decide)]
    rfl
  refine FailsWith.bind (failsWith_expect_of_isSome hcharged) ?_
  intro quoteFee _
  apply neverPanics_okOr.bind
  intro buyerDebit _
  apply (failsWith_modifyAt_of_lt hbuyerLt fun account => neverPanics_debit account _ _).bind
  intro a₁ h₁
  have hlength₁ := length_modifyAt h₁
  apply (failsWith_modifyAt_of_lt (by omega) fun account => neverPanics_credit account _ _).bind
  intro a₂ h₂
  have hlength₂ := length_modifyAt h₂
  apply (failsWith_modifyAt_of_lt (by omega) fun account => neverPanics_debit account _ _).bind
  intro a₃ h₃
  have hlength₃ := length_modifyAt h₃
  apply (failsWith_modifyAt_of_lt (by omega) fun account => neverPanics_credit account _ _).bind
  intro a₄ h₄
  have hlength₄ := length_modifyAt h₄
  apply (failsWith_modifyAt_of_lt (by omega) fun account => neverPanics_credit account _ _).bind
  intro a₅ _
  exact failsWith_ok _

theorem neverPanics_matchLoop {buys sells : List SequencedOrder} (buyRemaining sellRemaining : U128)
    (hscale : baseAsset.scale ≠ 0) (hfee : feeRecipientIndex < accounts.length)
    (hbuys : ∀ o ∈ buys, InRange o.accountIndex accounts.length)
    (hsells : ∀ o ∈ sells, InRange o.accountIndex accounts.length) :
    NeverPanics (matchLoop market baseAsset feeConfig feeRecipientIndex accounts buys sells
      buyRemaining sellRemaining) ∧
      ∀ accounts' trades, matchLoop market baseAsset feeConfig feeRecipientIndex accounts buys sells
        buyRemaining sellRemaining = .ok (accounts', trades) →
        accounts'.length = accounts.length := by
  induction accounts, buys, sells, buyRemaining, sellRemaining using matchLoop.induct with
  | case1 accounts _ _ buy buys sell sells hprice =>
      rw [matchLoop, if_pos hprice]
      refine ⟨failsWith_ok _, ?_⟩
      rintro accounts' trades ⟨⟩
      rfl
  | case2 accounts _ _ buy buys sell sells _ _ hprice =>
      rename_i ih
      rw [matchLoop, if_neg hprice]
      have hafter : ∀ mid : List Account, mid.length = accounts.length → _ := fun mid hmid =>
        ih mid (hmid ▸ hfee) (fun o ho => hmid ▸ hbuys o (mem_of_mem_advance ho))
          (fun o ho => hmid ▸ hsells o (mem_of_mem_advance ho))
      constructor
      · apply (neverPanics_settleTrade hscale hfee (hbuys buy (List.mem_cons_self ..))
          (hsells sell (List.mem_cons_self ..))).bind
        rintro ⟨mid, trade⟩ htrade
        apply (hafter mid (length_settleTrade htrade)).1.bind
        rintro ⟨accounts', trades⟩ _
        exact failsWith_ok _
      · intro accounts' trades h
        simp only [bind_eq_ok, Prod.exists, Except.ok.injEq, Prod.mk.injEq] at h
        rcases h with ⟨mid, trade, htrade, _, rest, hrest, rfl, rfl⟩
        have hmid := length_settleTrade htrade
        exact ((hafter mid hmid).2 _ _ hrest).trans hmid
  | case3 accounts buys sells _ _ hdone =>
      rw [matchLoop]
      · refine ⟨failsWith_ok _, ?_⟩
        rintro accounts' trades ⟨⟩
        rfl
      · exact hdone

/-- With indices in range and scales that are not zero, the matching never panics. -/
theorem neverPanics_matchAndSettle {books : List ValidatedMarketBook}
    (hscales : ∀ book ∈ books, book.baseAsset.scale ≠ 0)
    (hbuys : ∀ book ∈ books, ∀ o ∈ book.buys, InRange o.accountIndex accounts.length)
    (hsells : ∀ book ∈ books, ∀ o ∈ book.sells, InRange o.accountIndex accounts.length) :
    NeverPanics (matchAndSettle accounts books config) := by
  unfold matchAndSettle
  split
  · exact neverPanics_error _
  · rename_i index hindex
    rcases binarySearchBy_ok hindex with ⟨recipient, hrecipient, _⟩
    have hfee := (List.getElem?_eq_some_iff.mp hrecipient).1
    clear hindex hrecipient
    induction books generalizing accounts with
    | nil => exact failsWith_ok _
    | cons book books ih =>
        rcases neverPanics_matchLoop 0 0
          (hscales book (List.mem_cons_self ..)) hfee (hbuys book (List.mem_cons_self ..))
          (hsells book (List.mem_cons_self ..)) with ⟨hmatched, hlength⟩
        apply hmatched.bind
        rintro ⟨mid, trades⟩ hmid
        have hmidLength := hlength mid trades hmid
        apply (ih ?_ ?_ ?_ ?_).bind
        · rintro ⟨accounts', rest⟩ _
          exact failsWith_ok _
        · exact fun b hb => hscales b (List.mem_cons_of_mem _ hb)
        · exact fun b hb o ho => hmidLength ▸ hbuys b (List.mem_cons_of_mem _ hb) o ho
        · exact fun b hb o ho => hmidLength ▸ hsells b (List.mem_cons_of_mem _ hb) o ho
        · exact hmidLength ▸ hfee

/-! ## Whole batches -/

/-- What the guest does without a check at places whose panics the model does not carry: it looks
up what a search has found, subtracts a matched quantity from what remained, and converts the depth
of a branch. -/
structure UncheckedSteps (config : ExchangeConfig) : Prop where
  asset : ∀ id index, binarySearchByKey AssetConfig.id id config.assets = .ok index →
    index < config.assets.length
  market : ∀ id index, binarySearchByKey MarketConfig.id id config.markets = .ok index →
    index < config.markets.length
  remaining : ∀ buyRemaining sellRemaining : U128,
    let quantity := FixedWidth.min buyRemaining sellRemaining
    FixedWidth.checkedSub buyRemaining quantity = some (buyRemaining - quantity) ∧
      FixedWidth.checkedSub sellRemaining quantity = some (sellRemaining - quantity)
  depth : ∀ (left right : AccountId) (depth : Nat), BitKey.differingBit left right = some depth →
    depth < 160

theorem uncheckedSteps (config : ExchangeConfig) : UncheckedSteps config := by
  refine ⟨?_, ?_, ?_, ?_⟩
  · intro id index h
    rcases binarySearchBy_ok h with ⟨asset, hasset, _⟩
    exact (List.getElem?_eq_some_iff.mp hasset).1
  · intro id index h
    rcases binarySearchBy_ok h with ⟨market, hmarket, _⟩
    exact (List.getElem?_eq_some_iff.mp hmarket).1
  · intro buyRemaining sellRemaining quantity
    have hquantity : quantity.toNat = Nat.min buyRemaining.toNat sellRemaining.toNat :=
      FixedWidth.toNat_min buyRemaining sellRemaining
    have hbuy : quantity.toNat ≤ buyRemaining.toNat := hquantity ▸ Nat.min_le_left _ _
    have hsell : quantity.toNat ≤ sellRemaining.toNat := hquantity ▸ Nat.min_le_right _ _
    constructor
    · rw [FixedWidth.checkedSub_eq_some, BitVec.toNat_sub_of_le (BitVec.le_def.mpr hbuy)]
      omega
    · rw [FixedWidth.checkedSub_eq_some, BitVec.toNat_sub_of_le (BitVec.le_def.mpr hsell)]
      omega
  · intro left right depth h
    exact (BitKey.differingBit_eq_some.mp h).1

variable {B256 : Type} [Sha256 B256] [Secp256k1 B256] [DecidableEq B256]

/-- After the checks of the operations nothing panics: their indices name accounts, and these stay
where they are. -/
theorem neverPanics_settleBatch {input : BatchInput B256}
    (hdeposits : ∀ d ∈ input.deposits, d.accountIndex.isSome)
    (horders : ∀ o ∈ input.orders, o.accountIndex.isSome)
    (hwithdrawals : ∀ w ∈ input.withdrawals, w.accountIndex.isSome) :
    NeverPanics (settleBatch input) := by
  have hoverflow : (Fault.error SettlementError.ArithmeticOverflow) ≠ .panic := fun h => nomatch h
  have hviolation : (Fault.error SettlementError.AssetConservationViolation) ≠ .panic :=
    fun h => nomatch h
  unfold settleBatch
  apply (neverPanics_validateLimits input).bind
  intro _ _
  apply (neverPanics_validateConfig input.config input.state.accounts).bind
  intro _ hconfig
  apply (neverPanics_validateAccounts input.state.accounts).bind
  intro _ haccounts
  apply (neverPanics_validateDeposits _ _ _).bind
  intro newDepositCursor _
  apply input.state.neverPanics_root.bind
  intro oldStateRoot _
  apply neverPanics_rejectIf.bind
  intro _ _
  refine FailsWith.bind (AssetTracker.failsWith_addAccounts hoverflow _ _) ?_
  intro tracker _
  refine FailsWith.bind (AssetTracker.failsWith_addDeposits hoverflow _ _) ?_
  intro tracker _
  refine FailsWith.bind (AssetTracker.failsWith_subtractWithdrawals hviolation _ _) ?_
  intro tracker _
  apply (neverPanics_applyDeposits hdeposits).bind
  intro deposited hdeposited
  have hdepositedCanonical :=
    (applyDeposits_spec (validateAccounts_spec haccounts) hdeposited).accountsCanonical
  apply (neverPanics_validateForcedWithdrawals _ _).bind
  intro _ _
  apply (neverPanics_applyForcedWithdrawals _ _).bind
  rintro ⟨drained, executed⟩ hdrained
  have hcanonical := (applyForcedWithdrawals_spec hdepositedCanonical
    hdrained).1.accountsCanonical hdepositedCanonical
  refine FailsWith.bind (AssetTracker.failsWith_subtractForcedWithdrawals hviolation _ _) ?_
  intro tracker _
  apply (neverPanics_validateWithdrawals hwithdrawals).bind
  intro _ hvalidWithdrawals
  apply (neverPanics_validateOrders horders).bind
  intro _ hvalidOrders
  -- from here on the indices name accounts
  have horderIndexed : ∀ o ∈ input.orders,
      IndexedIn (drained.map Account.id) o.accountIndex o.trader :=
    fun o ho => ((validateOrders_spec hvalidOrders).1 o ho).indexed
  have hwithdrawalIndexed : ∀ w ∈ input.withdrawals,
      IndexedIn (drained.map Account.id) w.accountIndex w.account :=
    fun w hw => (validateWithdrawals_spec hvalidWithdrawals w hw).indexed
  apply (neverPanics_validateNonces horderIndexed hwithdrawalIndexed).bind
  intro _ _
  apply (neverPanics_applyWithdrawals fun w hw => (hwithdrawalIndexed w hw).inRange).bind
  intro withdrawn hwithdrawn
  have hwithdrawnIds := (applyWithdrawals_spec hwithdrawalIndexed hwithdrawn).1.ids
  rw [← hwithdrawnIds] at horderIndexed hwithdrawalIndexed
  apply (neverPanics_consumeNonces (fun o ho => (horderIndexed o ho).inRange)
    fun w hw => (hwithdrawalIndexed w hw).inRange).bind
  intro consumed hconsumed
  have hconsumedIds := (consumeNonces_spec (hwithdrawnIds ▸ hcanonical.sorted.nodup_map)
    horderIndexed hwithdrawalIndexed hconsumed).ids
  rw [← hconsumedIds] at horderIndexed
  apply (neverPanics_buildValidatedBooks _ _ _).bind
  intro books hbooks
  have hvalidBooks := buildValidatedBooks_spec hbooks
  have hmatched : NeverPanics (matchAndSettle consumed books input.config) := by
    apply neverPanics_matchAndSettle
    · intro book hbook
      have hasset := ExchangeConfig.asset_eq_some (hvalidBooks book hbook).baseAsset
      exact (validateConfig_spec hconfig).scales _ hasset.1
    · exact fun book hbook o ho =>
        (horderIndexed o ((hvalidBooks book hbook).buys o ho).1).inRange
    · exact fun book hbook o ho =>
        (horderIndexed o ((hvalidBooks book hbook).sells o ho).1).inRange
  apply hmatched.bind
  rintro ⟨settled, trades⟩ _
  refine FailsWith.bind (AssetTracker.failsWith_subtractAccounts hviolation _ _) ?_
  intro tracker _
  apply neverPanics_rejectIf.bind
  intro _ _
  apply (StateWitness.neverPanics_root _).bind
  intro newStateRoot _
  exact failsWith_ok _

/-- A batch whose deposits, orders and withdrawals carry account indices, right or wrong, is
accepted or rejected with an error, whatever else it contains. -/
theorem settleBatch_never_panics (input : BatchInput B256)
    (hdeposits : ∀ d ∈ input.deposits, d.accountIndex.isSome)
    (horders : ∀ o ∈ input.orders, o.accountIndex.isSome)
    (hwithdrawals : ∀ w ∈ input.withdrawals, w.accountIndex.isSome) :
    UncheckedSteps input.config ∧
      ((∃ output, settleBatch input = .ok output) ∨
        ∃ e, settleBatch input = .error (.error e)) :=
  ⟨uncheckedSteps input.config,
    neverPanics_iff.mp (neverPanics_settleBatch hdeposits horders hwithdrawals)⟩

/-- The deposit, the orders and the withdrawal of the small market carry indices. -/
theorem settleBatch_never_panics_openingBatch :
    UncheckedSteps marketConfig ∧ ((∃ output, settleBatch openingBatch = .ok output) ∨
      ∃ e, settleBatch openingBatch = .error (.error e)) :=
  settleBatch_never_panics openingBatch (by decide) (by decide) (by decide)

end ZkClob
