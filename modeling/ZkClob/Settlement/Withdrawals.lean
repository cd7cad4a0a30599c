import ZkClob.Settlement.Validation

/-!
# Withdrawals and nonces

Withdrawals are debited through the validated indices; then a counting pass
advances the next nonce of every account by the number of its operations.

Main results:

- Theorem {lit}`applyWithdrawals_spec`: withdrawn amounts leave the ledger.
- Theorem {lit}`consumeNonces_spec`: next nonces grow by the number of operations and
  balances stay.
-/

namespace ZkClob

open Foundations

/-- One iteration of {lit}`apply_withdrawals`. -/
def applyWithdrawal (accounts : List Account) (withdrawal : SignedWithdrawal) :
    Outcome SettlementError (List Account) := do
  let index ← Outcome.expect withdrawal.accountIndex
  Outcome.modifyAt accounts index.toNat (·.debit withdrawal.asset withdrawal.amount)

/-- {lit}`apply_withdrawals`. -/
def applyWithdrawals (accounts : List Account) (withdrawals : List SignedWithdrawal) :
    Outcome SettlementError (List Account) :=
  withdrawals.foldlM applyWithdrawal accounts

/-- Count one operation of the account at an index. -/
def countOperation (operationCounts : List U64) (accountIndex : Option U32) :
    Outcome SettlementError (List U64) := do
  let index ← Outcome.expect accountIndex
  Outcome.modifyAt operationCounts index.toNat fun count =>
    Outcome.okOr (FixedWidth.checkedAdd count 1) .NonceOverflow

/-- {lit}`consume_nonces`. -/
def consumeNonces (accounts : List Account) (orders : List SequencedOrder)
    (withdrawals : List SignedWithdrawal) : Outcome SettlementError (List Account) := do
  let operationCounts := List.replicate accounts.length 0
  let operationCounts ← orders.foldlM
    (fun counts order => countOperation counts order.accountIndex) operationCounts
  let operationCounts ← withdrawals.foldlM
    (fun counts withdrawal => countOperation counts withdrawal.accountIndex) operationCounts
  (accounts.zip operationCounts).mapM fun (account, count) => do
    let nextNonce ← Outcome.okOr (FixedWidth.checkedAdd account.nextNonce count) .NonceOverflow
    .ok (account.setNextNonce nextNonce)

/-! ## What withdrawals do -/

variable {accounts accounts' : List Account} {orders : List SequencedOrder}
  {withdrawals : List SignedWithdrawal}

/-- Withdrawn amounts leave the ledger. -/
theorem applyWithdrawals_spec
    (hindexed : ∀ w ∈ withdrawals, IndexedIn (accounts.map Account.id) w.accountIndex w.account)
    (h : applyWithdrawals accounts withdrawals = .ok accounts') :
    SameAccounts accounts accounts' ∧ ∀ id asset, holding accounts id asset =
      holding accounts' id asset +
        tally (fun w => w.account = id ∧ w.asset = asset)
          (fun w => w.amount.toNat) withdrawals := by
  induction withdrawals generalizing accounts with
  | nil =>
      simp only [applyWithdrawals, List.foldlM_nil, Outcome.pure_eq_ok] at h
      subst h
      exact ⟨SameAccounts.refl _, by simp⟩
  | cons w withdrawals ih =>
      simp only [applyWithdrawals, List.foldlM_cons, Outcome.bind_eq_ok, applyWithdrawal,
        Outcome.expect_eq_ok] at h
      rcases h with ⟨mid, ⟨index, hindex, hmid⟩, hrest⟩
      rcases hindexed w (by simp) with ⟨index', hindex', hid⟩
      rw [hindex, Option.some.injEq] at hindex'
      subst hindex'
      rcases modifyAt_debit hmid hid with ⟨hsame, hholding⟩
      rcases ih (fun w hw => hsame.ids ▸ hindexed w (List.mem_cons_of_mem _ hw)) hrest with
        ⟨hsame', hholding'⟩
      refine ⟨hsame.trans hsame', fun id asset => ?_⟩
      rw [hholding id asset, hholding' id asset]
      simp only [tally_cons, decide_eq_true_eq]
      omega

/-! ## What counting does -/

/-- A counting pass adds to each count the number of operations with its index. -/
theorem foldlM_countOperation {α : Type} {accountIndex : α → Option U32} {l : List α}
    {counts counts' : List U64}
    (h : l.foldlM (fun counts a => countOperation counts (accountIndex a)) counts = .ok counts') :
    counts'.length = counts.length ∧ ∀ i c, counts[i]? = some c → ∃ c', counts'[i]? = some c' ∧
      c'.toNat = c.toNat + l.countP fun a => (accountIndex a).map BitVec.toNat = some i := by
  induction l generalizing counts with
  | nil =>
      simp only [List.foldlM_nil, Outcome.pure_eq_ok] at h
      subst h
      exact ⟨rfl, fun i c hc => ⟨c, hc, by simp⟩⟩
  | cons a l ih =>
      simp only [List.foldlM_cons, Outcome.bind_eq_ok, countOperation, Outcome.expect_eq_ok] at h
      rcases h with ⟨mid, ⟨index, hindex, hmid⟩, hrest⟩
      rcases Outcome.modifyAt_eq_ok.mp hmid with ⟨xs, c, ys, c', rfl, hlen, hc', rfl⟩
      rw [Outcome.okOr_eq_ok, FixedWidth.checkedAdd_eq_some] at hc'
      rcases ih hrest with ⟨hlength, hcounts⟩
      refine ⟨by simpa using hlength, fun i b hb => ?_⟩
      rcases eq_or_ne i index.toNat with rfl | hne
      · rw [← hlen] at hb ⊢
        simp only [List.getElem?_append_right (Nat.le_refl _), Nat.sub_self,
          List.getElem?_cons_zero, Option.some.injEq] at hb
        subst hb
        rcases hcounts xs.length c' (by simp) with ⟨d, hd, hdval⟩
        refine ⟨d, hd, ?_⟩
        rw [hdval, hc', List.countP_cons, hlen, hindex]
        simp
        omega
      · have hget : (xs ++ c' :: ys)[i]? = some b := by
          rw [← hb]
          rcases Nat.lt_or_ge i xs.length with hlt | hge
          · rw [List.getElem?_append_left hlt, List.getElem?_append_left hlt]
          · rw [List.getElem?_append_right hge, List.getElem?_append_right hge]
            obtain ⟨k, hk⟩ : ∃ k, i - xs.length = k + 1 := ⟨i - xs.length - 1, by omega⟩
            rw [hk, List.getElem?_cons_succ, List.getElem?_cons_succ]
        rcases hcounts i b hget with ⟨d, hd, hdval⟩
        refine ⟨d, hd, ?_⟩
        rw [hdval, List.countP_cons, hindex]
        simp [Ne.symm hne]

/-- The operations with the index of an account are the operations of the account. -/
theorem countP_index_eq {α : Type} {ids : List AccountId} (hids : ids.Nodup)
    {accountIndex : α → Option U32} {id : α → AccountId} {l : List α}
    (hindexed : ∀ a ∈ l, IndexedIn ids (accountIndex a) (id a))
    {index : Nat} {account : AccountId} (hindex : ids[index]? = some account) :
    (l.countP fun a => (accountIndex a).map BitVec.toNat = some index) =
      (l.filter fun a => id a = account).length := by
  rw [List.countP_eq_length_filter]
  congr 1
  refine List.filter_congr fun a ha => ?_
  rcases hindexed a ha with ⟨i, hi, hat⟩
  have hiff : (accountIndex a).map BitVec.toNat = some index ↔ id a = account := by
    rw [hi, Option.map_some, Option.some.injEq]
    constructor
    · rintro rfl
      rw [hat, Option.some.injEq] at hindex
      exact hindex
    · intro heq
      rw [heq] at hat
      exact (List.getElem?_inj (List.getElem?_eq_some_iff.mp hat).1 hids).mp (hat.trans hindex.symm)
  simp only [hiff]

/-- Lists related entry by entry through equal fields have equal lists of fields. -/
theorem map_eq_of_forall₂ {α β γ : Type} {f : α → γ} {g : β → γ} {l : List α} {m : List β}
    (h : List.Forall₂ (fun a b => g b = f a) l m) : m.map g = l.map f := by
  induction h with
  | nil => rfl
  | cons hab _ ih => rw [List.map_cons, List.map_cons, hab, ih]

/-- Lists related entry by entry are related at every position. -/
theorem getElem?_of_forall₂ {α β : Type} {R : α → β → Prop} {l : List α} {m : List β}
    (h : List.Forall₂ R l m) {i : Nat} {a : α} {b : β} (ha : l[i]? = some a) (hb : m[i]? = some b) :
    R a b := by
  rcases List.getElem?_eq_some_iff.mp ha with ⟨hi, rfl⟩
  rcases List.getElem?_eq_some_iff.mp hb with ⟨hi', rfl⟩
  exact (List.forall₂_iff_get.mp h).2 i hi hi'

theorem map_zip_fst {α β γ : Type} {l : List α} {m : List β} (h : l.length = m.length)
    {f : α → γ} : (l.zip m).map (fun p => f p.1) = l.map f := by
  rw [show (fun p : α × β => f p.1) = f ∘ Prod.fst from rfl, ← List.map_map, List.map_fst_zip h.le]

/-- The accounts after their nonces have been advanced: the same ids and balances, and
each next nonce advanced by the number of operations of the account. -/
structure NoncesConsumed (accounts accounts' : List Account) (orders : List SequencedOrder)
    (withdrawals : List SignedWithdrawal) : Prop where
  ids : accounts'.map Account.id = accounts.map Account.id
  balances : accounts'.map Account.balances = accounts.map Account.balances
  nonces : ∀ id, nonceOf accounts' id =
    nonceOf accounts id + (noncesOf orders withdrawals id).length

/-- One account of the last pass. -/
theorem advance_eq_ok {account account' : Account} {count : U64}
    (h : (do
      let nextNonce ← Outcome.okOr (FixedWidth.checkedAdd account.nextNonce count) .NonceOverflow
      .ok (account.setNextNonce nextNonce)) = (.ok account' : Outcome SettlementError Account)) :
    account'.id = account.id ∧ account'.balances = account.balances ∧
      account'.nextNonce.toNat = account.nextNonce.toNat + count.toNat := by
  simp only [Outcome.bind_eq_ok, Outcome.okOr_eq_ok, FixedWidth.checkedAdd_eq_some,
    Except.ok.injEq] at h
  rcases h with ⟨n, hn, rfl⟩
  exact ⟨rfl, rfl, hn⟩

/-- After both passes the count at the position of an account is the number of its operations. -/
theorem exists_count {counts counts' : List U64} (hids : (accounts.map Account.id).Nodup)
    (horders : ∀ o ∈ orders, IndexedIn (accounts.map Account.id) o.accountIndex o.trader)
    (hwithdrawals : ∀ w ∈ withdrawals, IndexedIn (accounts.map Account.id) w.accountIndex w.account)
    (hcounts : orders.foldlM (fun counts order => countOperation counts order.accountIndex)
      (List.replicate accounts.length 0) = .ok counts)
    (hcounts' : withdrawals.foldlM
      (fun counts withdrawal => countOperation counts withdrawal.accountIndex) counts = .ok counts')
    {index : Nat} {account : Account} (haccount : accounts[index]? = some account) :
    ∃ c, counts'[index]? = some c ∧ c.toNat = (noncesOf orders withdrawals account.id).length := by
  have hindex : (accounts.map Account.id)[index]? = some account.id := by
    rw [List.getElem?_map, haccount, Option.map_some]
  have hzero : (List.replicate accounts.length (0 : U64))[index]? = some 0 := by
    rw [List.getElem?_replicate, if_pos (List.getElem?_eq_some_iff.mp haccount).1]
  rcases (foldlM_countOperation hcounts).2 index 0 hzero with ⟨c, hc, hcval⟩
  rcases (foldlM_countOperation hcounts').2 index c hc with ⟨c', hc', hcval'⟩
  rw [countP_index_eq hids horders hindex] at hcval
  rw [countP_index_eq hids hwithdrawals hindex] at hcval'
  refine ⟨c', hc', ?_⟩
  rw [hcval', hcval, noncesOf, List.length_append, List.length_map, List.length_map]
  simp

/-- Next nonces grow by the number of operations, and balances stay. -/
theorem consumeNonces_spec (hids : (accounts.map Account.id).Nodup)
    (horders : ∀ o ∈ orders, IndexedIn (accounts.map Account.id) o.accountIndex o.trader)
    (hwithdrawals : ∀ w ∈ withdrawals, IndexedIn (accounts.map Account.id) w.accountIndex w.account)
    (h : consumeNonces accounts orders withdrawals = .ok accounts') :
    NoncesConsumed accounts accounts' orders withdrawals := by
  simp only [consumeNonces, Outcome.bind_eq_ok] at h
  rcases h with ⟨counts, hcounts, counts', hcounts', h⟩
  rcases foldlM_countOperation hcounts with ⟨hlength, _⟩
  rcases foldlM_countOperation hcounts' with ⟨hlength', _⟩
  have hlen : accounts.length = counts'.length := by
    rw [hlength', hlength, List.length_replicate]
  rw [Outcome.mapM_eq_ok] at h
  have hforall := h.imp fun (_ : Account × U64) (_ : Account) hp => advance_eq_ok hp
  have hids' : accounts'.map Account.id = accounts.map Account.id := by
    rw [map_eq_of_forall₂ (hforall.imp fun _ _ hp => hp.1), map_zip_fst hlen]
  refine ⟨hids', ?_, fun id => ?_⟩
  · rw [map_eq_of_forall₂ (hforall.imp fun _ _ hp => hp.2.1), map_zip_fst hlen]
  · by_cases hmem : id ∈ accounts.map Account.id
    · rcases List.mem_iff_getElem?.mp hmem with ⟨index, hindex⟩
      obtain ⟨account, haccount, hid⟩ : ∃ a, accounts[index]? = some a ∧ a.id = id := by
        rwa [List.getElem?_map, Option.map_eq_some_iff] at hindex
      obtain ⟨account', haccount', hid'⟩ : ∃ a, accounts'[index]? = some a ∧ a.id = id := by
        rwa [← hids', List.getElem?_map, Option.map_eq_some_iff] at hindex
      -- the count of this account after both passes
      rcases exists_count hids horders hwithdrawals hcounts hcounts' haccount with ⟨c', hc', hcount⟩
      have hadvance : account'.nextNonce.toNat = account.nextNonce.toNat + c'.toNat := by
        have hzip : (accounts.zip counts')[index]? = some (account, c') := by
          rw [List.getElem?_zip_eq_some]
          exact ⟨haccount, hc'⟩
        exact (getElem?_of_forall₂ hforall hzip haccount').2.2
      have hnonce : nonceOf accounts' id = account'.nextNonce.toNat := by
        rw [← hid']
        exact nonceOf_eq_nextNonce (hids' ▸ hids) (List.mem_of_getElem? haccount')
      have hnonce' : nonceOf accounts id = account.nextNonce.toNat := by
        rw [← hid]
        exact nonceOf_eq_nextNonce hids (List.mem_of_getElem? haccount)
      rw [hnonce, hnonce', hadvance, hcount, hid]
    · have hnot : ∀ a ∈ accounts, a.id ≠ id := fun a ha heq =>
        hmem (heq ▸ List.mem_map_of_mem ha)
      have hnot' : ∀ a ∈ accounts', a.id ≠ id := fun a ha heq =>
        hmem (hids' ▸ heq ▸ List.mem_map_of_mem ha)
      rw [nonceOf_eq_zero hnot, nonceOf_eq_zero hnot', noncesOf_eq_nil hmem horders hwithdrawals,
        List.length_nil]

namespace NoncesConsumed

/-- Balances stay as they are. -/
theorem holding_eq (h : NoncesConsumed accounts accounts' orders withdrawals)
    (id : AccountId) (asset : AssetId) :
      holding accounts' id asset = holding accounts id asset := by
  have hids := h.ids
  have hbalances := h.balances
  clear h
  unfold holding
  induction accounts generalizing accounts' with
  | nil =>
      have hnil : accounts' = [] := by simpa using hids
      rw [hnil]
  | cons a accounts ih =>
      cases accounts' with
      | nil => simp at hids
      | cons b accounts' =>
          simp only [List.map_cons, List.cons.injEq] at hids hbalances
          rw [tally_cons, tally_cons, ih hids.2 hbalances.2, hids.1, Account.total, Account.total,
            hbalances.1]

/-- Canonical accounts stay canonical. -/
theorem accountsCanonical (h : NoncesConsumed accounts accounts' orders withdrawals)
    (hcan : AccountsCanonical accounts) : AccountsCanonical accounts' := by
  refine ⟨hcan.sorted.of_map_eq h.ids, fun account haccount => ?_⟩
  have hmem : account.balances ∈ accounts.map Account.balances :=
    h.balances ▸ List.mem_map_of_mem haccount
  rcases List.mem_map.mp hmem with ⟨a, ha, heq⟩
  have hacan := hcan.canonical a ha
  exact ⟨heq ▸ hacan.1, heq ▸ hacan.2⟩

end NoncesConsumed

end ZkClob
