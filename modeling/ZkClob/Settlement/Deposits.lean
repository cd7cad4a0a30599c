import ZkClob.Settlement.Batch
import ZkClob.Settlement.Ledger

/-!
# Deposits

Deposits credit existing accounts and create missing ones.  The host attaches the
index at which it expects the account; a wrong hint falls back to a search, so
the resulting accounts do not depend on the hints.

Main results:

- Theorem {lit}`locateDepositAccount_eq_ok`: on sorted accounts the located index is
  that of the account, or the one at which it belongs.
- Theorem {lit}`applyDeposits_spec`: deposits add their amounts to the ledger, keep
  every nonce, and leave canonical accounts with exactly the old and the
  deposited-to ids.
-/

namespace ZkClob

open Foundations

/-- {lit}`locate_deposit_account`: the index of the account, or the index at which
it belongs. -/
def locateDepositAccount (accounts : List Account) (deposit : Deposit) :
    Outcome SettlementError (Except Nat Nat) := do
  let index := (← Outcome.expect deposit.accountIndex).toNat
  let atIndex := accounts[index]?
  if atIndex.any fun account => account.id = deposit.account then .ok (.ok index)
  else
    let beforeOk := index = 0 ∨ (accounts[index - 1]?).any fun a => a.id < deposit.account
    let afterOk := atIndex.all fun a => deposit.account < a.id
    if beforeOk ∧ afterOk then .ok (.error index)
    else .ok (binarySearchByKey Account.id deposit.account accounts)

/-- One iteration of {lit}`apply_deposits`. -/
def applyDeposit (accounts : List Account) (deposit : Deposit) :
    Outcome SettlementError (List Account) := do
  match ← locateDepositAccount accounts deposit with
  | .ok index => Outcome.modifyAt accounts index (·.credit deposit.asset deposit.amount)
  | .error index =>
      Outcome.rejectIf (accounts.length ≥ MAX_TOUCHED_ACCOUNTS_PER_BATCH) .TooManyAccounts
      let accounts ← Outcome.insertAt accounts index ⟨deposit.account, [], 0⟩
      Outcome.modifyAt accounts index (·.credit deposit.asset deposit.amount)

/-- {lit}`apply_deposits`. -/
def applyDeposits (accounts : List Account) (deposits : List Deposit) :
    Outcome SettlementError (List Account) :=
  deposits.foldlM applyDeposit accounts

/-! ## What deposits do -/

variable {accounts accounts' : List Account} {deposit : Deposit} {deposits : List Deposit}

/-- The located position: that of the account, or the one between the smaller and the
larger ids. -/
theorem locateDepositAccount_eq_ok {place : Except Nat Nat} (hsorted : SortedBy Account.id accounts)
    (h : locateDepositAccount accounts deposit = .ok place) :
    (∃ index, place = .ok index ∧ (accounts.map Account.id)[index]? = some deposit.account) ∨
      ∃ index, place = .error index ∧ index ≤ accounts.length ∧
        (∀ a ∈ accounts.take index, a.id < deposit.account) ∧
        ∀ a ∈ accounts.drop index, deposit.account < a.id := by
  simp only [locateDepositAccount, Outcome.bind_eq_ok, Outcome.expect_eq_ok] at h
  rcases h with ⟨hint, _, h⟩
  generalize hint.toNat = index at h
  split at h
  · rename_i hat
    cases h
    rcases (Option.any_eq_true _ _).mp hat with ⟨a, ha, hid⟩
    refine Or.inl ⟨index, rfl, ?_⟩
    rw [List.getElem?_map, ha, Option.map_some, of_decide_eq_true hid]
  · split at h
    · rename_i hplace
      cases h
      rcases hplace with ⟨hbefore, hafter⟩
      refine Or.inr ⟨index, rfl, hsorted.split_at ?_ ?_⟩
      · rcases hbefore with hzero | hbefore
        · exact Or.inl hzero
        · rcases (Option.any_eq_true _ _).mp hbefore with ⟨a, ha, hlt⟩
          exact Or.inr ⟨a, ha, of_decide_eq_true hlt⟩
      · intro a ha
        rw [ha] at hafter
        exact of_decide_eq_true hafter
    · cases h
      cases hs : binarySearchByKey Account.id deposit.account accounts with
      | ok index =>
          rcases hsorted.search_ok_iff.mp hs with ⟨a, ha, hid⟩
          exact Or.inl ⟨index, rfl, by rw [List.getElem?_map, ha, Option.map_some, hid]⟩
      | error index => exact Or.inr ⟨index, rfl, hsorted.search_error hs⟩

/-- What one deposit, and a sequence of them, does to the accounts. -/
structure Deposited (accounts accounts' : List Account) (deposits : List Deposit) : Prop where
  accountsCanonical : AccountsCanonical accounts'
  mem_ids : ∀ id, id ∈ accounts'.map Account.id ↔
    id ∈ accounts.map Account.id ∨ id ∈ deposits.map Deposit.account
  holding : ∀ id asset, holding accounts' id asset = holding accounts id asset +
    tally (fun d => d.account = id ∧ d.asset = asset) (fun d => d.amount.toNat) deposits
  nonces : ∀ id, nonceOf accounts' id = nonceOf accounts id

/-- A deposit into an existing account. -/
theorem deposited_credit {index : Nat} (hcan : AccountsCanonical accounts)
    (hid : (accounts.map Account.id)[index]? = some deposit.account)
    (h : Outcome.modifyAt accounts index (·.credit deposit.asset deposit.amount) = .ok accounts') :
    Deposited accounts accounts' [deposit] := by
  rcases modifyAt_credit h hid with ⟨hsame, hholding⟩
  have hmem : deposit.account ∈ accounts.map Account.id := List.mem_of_getElem? hid
  refine ⟨hsame.accountsCanonical hcan, fun id => ?_, fun id asset => ?_, hsame.nonceOf_eq⟩
  · rw [hsame.ids]
    constructor
    · exact Or.inl
    · rintro (h | h)
      · exact h
      · rw [List.map_singleton, List.mem_singleton] at h
        exact h ▸ hmem
  · rw [hholding]
    simp

/-- Inserting an account at the place of its id keeps the id order. -/
theorem sorted_insert {index : Nat} {account : Account} (hsorted : SortedBy Account.id accounts)
    (hle : index ≤ accounts.length) (hlow : ∀ a ∈ accounts.take index, a.id < account.id)
    (hhigh : ∀ a ∈ accounts.drop index, account.id < a.id) :
    SortedBy Account.id (accounts.insertIdx index account) := by
  rw [insertIdx_eq_take_append_cons_drop hle]
  rw [← List.take_append_drop index accounts] at hsorted
  rcases List.pairwise_append.mp hsorted with ⟨htake, hdrop, hcross⟩
  refine List.pairwise_append.mpr ⟨htake, List.pairwise_cons.mpr ⟨hhigh, hdrop⟩, ?_⟩
  intro a ha b hb
  rcases List.mem_cons.mp hb with rfl | hb
  · exact hlow a ha
  · exact hcross a ha b hb

/-- Inserting an empty account at the place of its id. -/
theorem accountsCanonical_insert {index : Nat} {id : AccountId} (hcan : AccountsCanonical accounts)
    (hle : index ≤ accounts.length) (hlow : ∀ a ∈ accounts.take index, a.id < id)
    (hhigh : ∀ a ∈ accounts.drop index, id < a.id) :
    AccountsCanonical (accounts.insertIdx index ⟨id, [], 0⟩) := by
  refine ⟨sorted_insert hcan.sorted hle hlow hhigh, ?_⟩
  rw [insertIdx_eq_take_append_cons_drop hle]
  intro a ha
  rcases List.mem_append.mp ha with ha | ha
  · exact hcan.canonical a (List.mem_of_mem_take ha)
  · rcases List.mem_cons.mp ha with rfl | ha
    · exact ⟨SortedBy.nil, by simp⟩
    · exact hcan.canonical a (List.mem_of_mem_drop ha)

/-- An insertion adds its account. -/
theorem insertIdx_perm (account : Account) {index : Nat} (hle : index ≤ accounts.length) :
    (accounts.insertIdx index account).Perm (account :: accounts) := by
  rw [insertIdx_eq_take_append_cons_drop hle]
  refine List.perm_middle.trans ?_
  rw [List.take_append_drop]

/-- A deposit that creates its account. -/
theorem deposited_insert {index : Nat} (hcan : AccountsCanonical accounts)
    (hle : index ≤ accounts.length) (hlow : ∀ a ∈ accounts.take index, a.id < deposit.account)
    (hhigh : ∀ a ∈ accounts.drop index, deposit.account < a.id)
    (h : Outcome.modifyAt (accounts.insertIdx index ⟨deposit.account, [], 0⟩) index
      (·.credit deposit.asset deposit.amount) = .ok accounts') :
    Deposited accounts accounts' [deposit] := by
  have hcan' := accountsCanonical_insert hcan hle hlow hhigh
  have hperm := insertIdx_perm ⟨deposit.account, [], 0⟩ hle
  have hid : ((accounts.insertIdx index ⟨deposit.account, [], 0⟩).map Account.id)[index]? =
      some deposit.account := by
    rw [List.getElem?_map, List.getElem?_insertIdx_self]
    simp [hle]
  rcases modifyAt_credit h hid with ⟨hsame, hholding⟩
  refine ⟨hsame.accountsCanonical hcan', fun id => ?_, fun id asset => ?_, fun id => ?_⟩
  · rw [hsame.ids, (hperm.map Account.id).mem_iff]
    simp [or_comm]
  · rw [hholding, holding_perm hperm]
    simp [holding, Account.total]
  · rw [hsame.nonceOf_eq, nonceOf_eq_tally hcan'.sorted.nodup_map,
      nonceOf_eq_tally hcan.sorted.nodup_map, tally_perm hperm]
    simp

/-- One deposit. -/
theorem applyDeposit_spec (hcan : AccountsCanonical accounts)
    (h : applyDeposit accounts deposit = .ok accounts') :
    Deposited accounts accounts' [deposit] := by
  simp only [applyDeposit, Outcome.bind_eq_ok] at h
  rcases h with ⟨place, hplace, h⟩
  rcases locateDepositAccount_eq_ok hcan.sorted hplace with
    ⟨index, rfl, hid⟩ | ⟨index, rfl, hle, hlow, hhigh⟩
  · exact deposited_credit hcan hid h
  · simp only [Outcome.bind_eq_ok, Outcome.insertAt, if_pos hle, Except.ok.injEq] at h
    rcases h with ⟨_, _, _, rfl, h⟩
    exact deposited_insert hcan hle hlow hhigh h

theorem Deposited.append {accounts'' : List Account} {deposits' : List Deposit}
    (h : Deposited accounts accounts' deposits) (h' : Deposited accounts' accounts'' deposits') :
    Deposited accounts accounts'' (deposits ++ deposits') := by
  refine ⟨h'.accountsCanonical, fun id => ?_, fun id asset => ?_, fun id => ?_⟩
  · rw [h'.mem_ids, h.mem_ids, List.map_append, List.mem_append, or_assoc]
  · rw [h'.holding, h.holding, tally_append, Nat.add_assoc]
  · rw [h'.nonces, h.nonces]

/-- Deposits add their amounts to the ledger, keep every nonce, and leave exactly the
old and the deposited-to accounts. -/
theorem applyDeposits_spec (hcan : AccountsCanonical accounts)
    (h : applyDeposits accounts deposits = .ok accounts') :
    Deposited accounts accounts' deposits := by
  induction deposits generalizing accounts with
  | nil =>
      simp only [applyDeposits, List.foldlM_nil, Outcome.pure_eq_ok] at h
      subst h
      exact ⟨hcan, by simp, by simp, fun _ => rfl⟩
  | cons d deposits ih =>
      simp only [applyDeposits, List.foldlM_cons, Outcome.bind_eq_ok] at h
      rcases h with ⟨mid, hmid, h⟩
      have hstep := applyDeposit_spec hcan hmid
      exact hstep.append (ih hstep.accountsCanonical h)

/-- Whatever the balances, deposits keep the id order and leave exactly the old and the
deposited-to ids. -/
theorem applyDeposits_ids (hsorted : SortedBy Account.id accounts)
    (h : applyDeposits accounts deposits = .ok accounts') :
    SortedBy Account.id accounts' ∧ ∀ id, id ∈ accounts'.map Account.id ↔
      id ∈ accounts.map Account.id ∨ id ∈ deposits.map Deposit.account := by
  induction deposits generalizing accounts with
  | nil =>
      simp only [applyDeposits, List.foldlM_nil, Outcome.pure_eq_ok] at h
      subst h
      exact ⟨hsorted, by simp⟩
  | cons d deposits ih =>
      simp only [applyDeposits, List.foldlM_cons, Outcome.bind_eq_ok, applyDeposit] at h
      rcases h with ⟨mid, ⟨place, hplace, hmid⟩, h⟩
      obtain ⟨hmidSorted, hmidIds⟩ : SortedBy Account.id mid ∧ ∀ id, id ∈ mid.map Account.id ↔
          id = d.account ∨ id ∈ accounts.map Account.id := by
        rcases locateDepositAccount_eq_ok hsorted hplace with
          ⟨index, rfl, hid⟩ | ⟨index, rfl, hle, hlow, hhigh⟩
        · have hsame := modifyAt_same hmid fun a a' ha => Account.credit_spec ha
          have hmem : d.account ∈ accounts.map Account.id := List.mem_of_getElem? hid
          refine ⟨hsame.sorted hsorted, fun id => ?_⟩
          rw [hsame.ids]
          exact ⟨Or.inr, fun h => h.elim (fun heq => heq ▸ hmem) fun hmem => hmem⟩
        · simp only [Outcome.bind_eq_ok, Outcome.insertAt, if_pos hle, Except.ok.injEq] at hmid
          obtain ⟨_, _, _, rfl, hmid⟩ := hmid
          have hsame := modifyAt_same hmid fun a a' ha => Account.credit_spec ha
          refine ⟨hsame.sorted (sorted_insert hsorted hle hlow hhigh), fun id => ?_⟩
          rw [hsame.ids, ((insertIdx_perm _ hle).map Account.id).mem_iff, List.map_cons,
            List.mem_cons]
      rcases ih hmidSorted h with ⟨hsorted', hids⟩
      refine ⟨hsorted', fun id => ?_⟩
      rw [hids, hmidIds, List.map_cons, List.mem_cons]
      tauto

end ZkClob
