import ZkClob.Core.Account
import ZkClob.Foundations.Tally

/-!
# The accounts as a ledger

Settlement updates a vector of accounts in place.  Read as a ledger, the vector
says how much every account id holds of every asset and what its next nonce is;
an update in place moves one entry of one account and leaves the ids alone.

Main results:

- Theorems {lit}`modifyAt_debit` and {lit}`modifyAt_credit`: an update in place moves
  exactly its amount in the ledger.
- Theorem {lit}`balanceOf_eq_holding`: on canonical accounts the ledger entry is the
  balance that the account reports.
-/

namespace ZkClob

open Foundations

/-- What the accounts with an id hold of an asset. -/
def holding (accounts : List Account) (id : AccountId) (asset : AssetId) : Nat :=
  tally (fun account => account.id = id) (fun account => account.total asset) accounts

/-- The balance of an asset reported for an id, zero when there is no such account. -/
def balanceOf (accounts : List Account) (id : AccountId) (asset : AssetId) : Nat :=
  match accounts.find? fun account => account.id = id with
  | some account => (account.balance asset).toNat
  | none => 0

/-- The next nonce of an id, zero when there is no such account. -/
def nonceOf (accounts : List Account) (id : AccountId) : Nat :=
  match accounts.find? fun account => account.id = id with
  | some account => account.nextNonce.toNat
  | none => 0

/-- Accounts in strict id order, each in canonical form. -/
structure AccountsCanonical (accounts : List Account) : Prop where
  sorted : SortedBy Account.id accounts
  canonical : ∀ account ∈ accounts, account.Canonical

/-- Of canonical accounts the ledger entry is the reported balance. -/
theorem balanceOf_eq_holding {accounts : List Account} (h : AccountsCanonical accounts)
    (id : AccountId) (asset : AssetId) :
    balanceOf accounts id asset = holding accounts id asset := by
  rw [holding, tally_eq_find h.sorted.nodup_map, balanceOf]
  cases hfind : accounts.find? fun account => decide (account.id = id) with
  | none => rfl
  | some account =>
      exact (h.canonical account (List.mem_of_find?_eq_some hfind)).balance_eq_total asset

/-- An id that no account has holds nothing. -/
theorem holding_eq_zero {accounts : List Account} {id : AccountId}
    (h : ∀ account ∈ accounts, account.id ≠ id) (asset : AssetId) :
    holding accounts id asset = 0 :=
  tally_eq_zero fun account haccount => decide_eq_false (h account haccount)

/-- Ledgers do not depend on the order of the accounts. -/
theorem holding_perm {accounts accounts' : List Account} (h : accounts.Perm accounts')
    (id : AccountId) (asset : AssetId) :
    holding accounts id asset = holding accounts' id asset :=
  tally_perm h

theorem holding_append (accounts accounts' : List Account) (id : AccountId) (asset : AssetId) :
    holding (accounts ++ accounts') id asset =
      holding accounts id asset + holding accounts' id asset :=
  tally_append _ _

/-- With distinct ids the next nonce is a tally as well. -/
theorem nonceOf_eq_tally {accounts : List Account} (h : (accounts.map Account.id).Nodup)
    (id : AccountId) :
    nonceOf accounts id =
      tally (fun account => account.id = id) (fun account => account.nextNonce.toNat) accounts := by
  rw [tally_eq_find h, nonceOf]
  cases accounts.find? fun account => decide (account.id = id) <;> rfl

/-- With distinct ids the reported balance is a tally as well. -/
theorem balanceOf_eq_tally {accounts : List Account} (h : (accounts.map Account.id).Nodup)
    (id : AccountId) (asset : AssetId) :
    balanceOf accounts id asset =
      tally (fun account => account.id = id) (fun account => (account.balance asset).toNat)
        accounts := by
  rw [tally_eq_find h, balanceOf]
  cases accounts.find? fun account => decide (account.id = id) <;> rfl

theorem nonceOf_eq_zero {accounts : List Account} {id : AccountId}
    (h : ∀ account ∈ accounts, account.id ≠ id) : nonceOf accounts id = 0 := by
  have hnone : accounts.find? (fun a => decide (a.id = id)) = none := by
    simpa using h
  rw [nonceOf, hnone]

/-- What a single account holds is what the ledger says of its id. -/
theorem holding_eq_total {accounts : List Account} (h : (accounts.map Account.id).Nodup)
    {account : Account} (hmem : account ∈ accounts) (asset : AssetId) :
    holding accounts account.id asset = account.total asset := by
  rw [holding, tally_eq_find h, find?_key_eq h hmem]

/-- Next nonces are numbers of 64 bits. -/
theorem nonceOf_lt (accounts : List Account) (id : AccountId) : nonceOf accounts id < 2 ^ 64 := by
  unfold nonceOf
  split
  · exact BitVec.isLt _
  · exact Nat.two_pow_pos 64

/-- The next nonce of a single account is that of its id. -/
theorem nonceOf_eq_nextNonce {accounts : List Account} (h : (accounts.map Account.id).Nodup)
    {account : Account} (hmem : account ∈ accounts) :
    nonceOf accounts account.id = account.nextNonce.toNat := by
  rw [nonceOf, find?_key_eq h hmem]

/-- A host-supplied index names the account with an id. -/
def IndexedIn (ids : List AccountId) (accountIndex : Option U32) (id : AccountId) : Prop :=
  ∃ index, accountIndex = some index ∧ ids[index.toNat]? = some id

theorem IndexedIn.mem {ids : List AccountId} {accountIndex : Option U32} {id : AccountId}
    (h : IndexedIn ids accountIndex id) : id ∈ ids := by
  rcases h with ⟨index, _, hid⟩
  exact List.mem_of_getElem? hid

/-! ## Updates in place -/

/-- The same accounts with the same nonces in the same places, canonical if they were. -/
structure SameAccounts (accounts accounts' : List Account) : Prop where
  ids : accounts'.map Account.id = accounts.map Account.id
  nonces : accounts'.map Account.nextNonce = accounts.map Account.nextNonce
  canonical : (∀ account ∈ accounts, account.Canonical) → ∀ account ∈ accounts', account.Canonical

namespace SameAccounts

variable {accounts accounts' accounts'' : List Account}

theorem refl (accounts : List Account) : SameAccounts accounts accounts :=
  ⟨rfl, rfl, fun h => h⟩

theorem trans (h : SameAccounts accounts accounts') (h' : SameAccounts accounts' accounts'') :
    SameAccounts accounts accounts'' :=
  ⟨h'.ids.trans h.ids, h'.nonces.trans h.nonces, fun hcan => h'.canonical (h.canonical hcan)⟩

/-- Accounts in id order stay in id order. -/
theorem sorted (h : SameAccounts accounts accounts') (hsorted : SortedBy Account.id accounts) :
    SortedBy Account.id accounts' :=
  hsorted.of_map_eq h.ids

theorem accountsCanonical (h : SameAccounts accounts accounts')
    (hcan : AccountsCanonical accounts) : AccountsCanonical accounts' :=
  ⟨h.sorted hcan.sorted, h.canonical hcan.canonical⟩

/-- Ids keep their next nonce. -/
theorem nonceOf_eq (h : SameAccounts accounts accounts') (id : AccountId) :
    nonceOf accounts' id = nonceOf accounts id := by
  have hids := h.ids
  have hnonces := h.nonces
  clear h
  unfold nonceOf
  induction accounts generalizing accounts' with
  | nil =>
      have hnil : accounts' = [] := by simpa using hids
      rw [hnil]
  | cons a accounts ih =>
      cases accounts' with
      | nil => simp at hids
      | cons b accounts' =>
          simp only [List.map_cons, List.cons.injEq] at hids hnonces
          by_cases hid : a.id = id
          · have hid' : b.id = id := hids.1.trans hid
            simp [hid, hid', hnonces.1]
          · have hid' : b.id ≠ id := fun heq => hid (hids.1.symm.trans heq)
            simpa [hid, hid'] using ih hids.2 hnonces.2

end SameAccounts

/-- An update in place of an account that keeps its id, nonce and canonical form. -/
theorem modifyAt_same {accounts accounts' : List Account} {index : Nat}
    {f : Account → Outcome SettlementError Account}
    (h : Outcome.modifyAt accounts index f = .ok accounts')
    (hf : ∀ a a', f a = .ok a' →
      a'.id = a.id ∧ a'.nextNonce = a.nextNonce ∧ (a.Canonical → a'.Canonical)) :
    SameAccounts accounts accounts' := by
  rcases Outcome.modifyAt_eq_ok.mp h with ⟨xs, a, ys, a', rfl, _, ha', rfl⟩
  rcases hf a a' ha' with ⟨hid, hnonce, hcan⟩
  refine ⟨by simp [hid], by simp [hnonce], fun hall account haccount => ?_⟩
  rcases List.mem_append.mp haccount with hmem | hmem
  · exact hall account (List.mem_append_left _ hmem)
  · rcases List.mem_cons.mp hmem with rfl | hmem
    · exact hcan (hall a (by simp))
    · exact hall account (by simp [hmem])

/-- A debit in place takes its amount out of the entry of one account and asset. -/
theorem modifyAt_debit {accounts accounts' : List Account} {index : Nat} {asset : AssetId}
    {amount : U128} (h : Outcome.modifyAt accounts index (·.debit asset amount) = .ok accounts')
    {id : AccountId} (hid : (accounts.map Account.id)[index]? = some id) :
    SameAccounts accounts accounts' ∧ ∀ i x, holding accounts i x =
      holding accounts' i x + if id = i ∧ asset = x then amount.toNat else 0 := by
  refine ⟨modifyAt_same h fun a a' ha => Account.debit_spec ha, fun i x => ?_⟩
  rcases Outcome.modifyAt_eq_ok.mp h with ⟨xs, a, ys, a', rfl, rfl, ha', rfl⟩
  have haid : a.id = id := by simpa using hid
  have hid' : a'.id = id := (Account.debit_spec ha').1.trans haid
  have htotal := Account.debit_total ha' x
  by_cases hi : id = i <;> by_cases hx : asset = x
  · subst hi hx
    simp [holding, haid, hid', htotal]
    omega
  · subst hi
    simp [holding, haid, hid', htotal, hx, Ne.symm hx]
  · simp [holding, haid, hid', hi]
  · simp [holding, haid, hid', hi]

/-- A credit in place adds its amount to the entry of one account and asset. -/
theorem modifyAt_credit {accounts accounts' : List Account} {index : Nat} {asset : AssetId}
    {amount : U128} (h : Outcome.modifyAt accounts index (·.credit asset amount) = .ok accounts')
    {id : AccountId} (hid : (accounts.map Account.id)[index]? = some id) :
    SameAccounts accounts accounts' ∧ ∀ i x, holding accounts' i x =
      holding accounts i x + if id = i ∧ asset = x then amount.toNat else 0 := by
  refine ⟨modifyAt_same h fun a a' ha => Account.credit_spec ha, fun i x => ?_⟩
  rcases Outcome.modifyAt_eq_ok.mp h with ⟨xs, a, ys, a', rfl, rfl, ha', rfl⟩
  have haid : a.id = id := by simpa using hid
  have hid' : a'.id = id := (Account.credit_spec ha').1.trans haid
  have htotal := Account.credit_total ha' x
  by_cases hi : id = i <;> by_cases hx : asset = x
  · subst hi hx
    simp [holding, haid, hid', htotal]
    omega
  · subst hi
    simp [holding, haid, hid', htotal, hx, Ne.symm hx]
  · simp [holding, haid, hid', hi]
  · simp [holding, haid, hid', hi]

end ZkClob
