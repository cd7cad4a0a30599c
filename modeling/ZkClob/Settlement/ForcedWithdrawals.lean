import ZkClob.Settlement.Batch
import ZkClob.Settlement.Ledger

/-!
# Forced withdrawals

A forced withdrawal drains what it asks for, up to the available balance, but only
when the index attached by the host names its account; otherwise the request is
consumed with nothing drained.

Main results:

- Theorem {lit}`applyForcedWithdrawals_spec`: drained amounts leave the ledger.
- Theorem {lit}`applyForcedWithdrawals_iff`: the requests are served in full, up to
  what their accounts hold, exactly when every index names its account or there
  is nothing to drain.
-/

namespace ZkClob

open Foundations

/-- One iteration of {lit}`apply_forced_withdrawals`: the accounts and the drained
amount. -/
def applyForcedWithdrawal (accounts : List Account) (request : ForcedWithdrawal) :
    Outcome SettlementError (List Account × U128) :=
  match request.accountIndex with
  | none => .ok (accounts, 0)
  | some index =>
      match accounts[index.toNat]? with
      | none => .ok (accounts, 0)
      | some account =>
          if account.id = request.account then do
            let available := account.balance request.asset
            let drained := FixedWidth.min request.amount available
            if drained > 0 then do
              let accounts ← Outcome.modifyAt accounts index.toNat (·.debit request.asset drained)
              .ok (accounts, drained)
            else .ok (accounts, drained)
          else .ok (accounts, 0)

/-- {lit}`apply_forced_withdrawals`: the accounts and the requests with their amounts
set to what was drained. -/
def applyForcedWithdrawals (accounts : List Account) (requests : List ForcedWithdrawal) :
    Outcome SettlementError (List Account × List ForcedWithdrawal) :=
  match requests with
  | [] => .ok (accounts, [])
  | request :: requests => do
      let (accounts, drained) ← applyForcedWithdrawal accounts request
      let (accounts, executed) ← applyForcedWithdrawals accounts requests
      .ok (accounts, request.setAmount drained :: executed)

/-! ## What a request drains -/

variable {accounts accounts' : List Account} {request : ForcedWithdrawal}
  {requests executed : List ForcedWithdrawal} {drained : U128}

/-- What one request does: the drained amount leaves the ledger, and it is the requested
amount up to what the account holds when the index names the account, and nothing
otherwise. -/
structure Drained (accounts : List Account) (request : ForcedWithdrawal)
    (accounts' : List Account) (drained : U128) : Prop where
  same : SameAccounts accounts accounts'
  holding : ∀ id asset, holding accounts id asset = holding accounts' id asset +
    if request.account = id ∧ request.asset = asset then drained.toNat else 0
  indexed : IndexedIn (accounts.map Account.id) request.accountIndex request.account →
    drained.toNat = Nat.min request.amount.toNat
      (ZkClob.holding accounts request.account request.asset)
  unindexed : ¬ IndexedIn (accounts.map Account.id) request.accountIndex request.account →
    drained.toNat = 0

theorem applyForcedWithdrawal_spec (hcan : AccountsCanonical accounts)
    (h : applyForcedWithdrawal accounts request = .ok (accounts', drained)) :
    Drained accounts request accounts' drained := by
  have hmiss : ¬ IndexedIn (accounts.map Account.id) request.accountIndex request.account →
      (.ok (accounts, 0) : Outcome SettlementError _) = .ok (accounts', drained) →
      Drained accounts request accounts' drained := by
    intro hnot heq
    cases heq
    exact ⟨SameAccounts.refl _, by simp, fun hidx => absurd hidx hnot, by simp⟩
  unfold applyForcedWithdrawal at h
  split at h
  · rename_i hnone
    refine hmiss ?_ h
    rintro ⟨index, hindex, _⟩
    rw [hnone] at hindex
    cases hindex
  · rename_i index hindex
    split at h
    · rename_i hget
      refine hmiss ?_ h
      rintro ⟨index', hindex', hid⟩
      rw [hindex, Option.some.injEq] at hindex'
      subst hindex'
      rw [List.getElem?_map, hget] at hid
      cases hid
    · rename_i account hget
      split at h
      · rename_i hid
        have hat : (accounts.map Account.id)[index.toNat]? = some request.account := by
          rw [List.getElem?_map, hget, Option.map_some, hid]
        have hindexed : IndexedIn (accounts.map Account.id) request.accountIndex request.account :=
          ⟨index, hindex, hat⟩
        have hmem : account ∈ accounts := List.mem_of_getElem? hget
        have havailable : (account.balance request.asset).toNat =
            holding accounts request.account request.asset := by
          rw [← hid, holding_eq_total hcan.sorted.nodup_map hmem]
          exact (hcan.canonical account hmem).balance_eq_total _
        have hmin : (FixedWidth.min request.amount (account.balance request.asset)).toNat =
            Nat.min request.amount.toNat (holding accounts request.account request.asset) := by
          rw [FixedWidth.toNat_min, havailable]
        dsimp only at h
        split at h
        · simp only [Outcome.bind_eq_ok, Except.ok.injEq, Prod.mk.injEq] at h
          rcases h with ⟨_, hmodify, rfl, rfl⟩
          rcases modifyAt_debit hmodify hat with ⟨hsame, hholding⟩
          exact ⟨hsame, hholding, fun _ => hmin, fun hnot => absurd hindexed hnot⟩
        · rename_i hzero
          simp only [Except.ok.injEq, Prod.mk.injEq] at h
          rcases h with ⟨rfl, rfl⟩
          have hdrained : (FixedWidth.min request.amount (account.balance request.asset)).toNat =
              0 := by
            simp only [gt_iff_lt, BitVec.lt_def, not_lt] at hzero
            simpa using hzero
          exact ⟨SameAccounts.refl _, by simp [hdrained], fun _ => hmin, fun _ => hdrained⟩
      · rename_i hid
        refine hmiss ?_ h
        rintro ⟨index', hindex', hid'⟩
        rw [hindex, Option.some.injEq] at hindex'
        subst hindex'
        rw [List.getElem?_map, hget, Option.map_some, Option.some.injEq] at hid'
        exact hid hid'

/-- Drained amounts leave the ledger, and the records repeat the requests. -/
theorem applyForcedWithdrawals_spec (hcan : AccountsCanonical accounts)
    (h : applyForcedWithdrawals accounts requests = .ok (accounts', executed)) :
    SameAccounts accounts accounts' ∧
      (∀ id asset, holding accounts id asset = holding accounts' id asset +
        tally (fun e => e.account = id ∧ e.asset = asset) (fun e => e.amount.toNat) executed) ∧
      List.Forall₂ (fun r e => e = r.setAmount e.amount ∧ e.amount.toNat ≤ r.amount.toNat)
        requests executed := by
  induction requests generalizing accounts executed with
  | nil =>
      rw [applyForcedWithdrawals] at h
      cases h
      exact ⟨SameAccounts.refl _, by simp, List.Forall₂.nil⟩
  | cons request requests ih =>
      simp only [applyForcedWithdrawals, Outcome.bind_eq_ok, Prod.exists, Except.ok.injEq,
        Prod.mk.injEq] at h
      rcases h with ⟨mid, drained, hmid, _, rest, hrest, rfl, rfl⟩
      rcases applyForcedWithdrawal_spec hcan hmid with ⟨hsame, hholding, hin, hout⟩
      rcases ih (hsame.accountsCanonical hcan) hrest with ⟨hsame', hholding', hforall⟩
      refine ⟨hsame.trans hsame', fun id asset => ?_, List.Forall₂.cons ⟨rfl, ?_⟩ hforall⟩
      · rw [hholding id asset, hholding' id asset]
        simp only [ForcedWithdrawal.setAmount, tally_cons, decide_eq_true_eq]
        omega
      · by_cases hindexed : IndexedIn (accounts.map Account.id) request.accountIndex request.account
        · simp only [ForcedWithdrawal.setAmount, hin hindexed]
          exact Nat.min_le_left _ _
        · simp only [ForcedWithdrawal.setAmount, hout hindexed]
          exact Nat.zero_le _

/-! ## Serving requests in full -/

/-- A ledger after an amount has been taken out of one entry. -/
def takeOut (ledger : AccountId → AssetId → Nat) (id : AccountId) (asset : AssetId) (amount : Nat) :
    AccountId → AssetId → Nat := fun i x =>
  ledger i x - if id = i ∧ asset = x then amount else 0

/-- The amounts that a sequence of requests drains from a ledger when each is served up
to what its account holds at its turn. -/
def drains (ledger : AccountId → AssetId → Nat) : List ForcedWithdrawal → List Nat
  | [] => []
  | request :: requests =>
      let drained := Nat.min request.amount.toNat (ledger request.account request.asset)
      drained :: drains (takeOut ledger request.account request.asset drained) requests

/-- At its turn, every request either has an index that names its account, or its
account holds nothing. -/
def Reached (ids : List AccountId) (ledger : AccountId → AssetId → Nat) :
    List ForcedWithdrawal → Prop
  | [] => True
  | request :: requests =>
      (IndexedIn ids request.accountIndex request.account ∨
        ledger request.account request.asset = 0) ∧
      Reached ids (takeOut ledger request.account request.asset
        (Nat.min request.amount.toNat (ledger request.account request.asset))) requests

/-- The requests are served in full exactly when each is reached. -/
theorem applyForcedWithdrawals_iff {ledger : AccountId → AssetId → Nat}
    (hcan : AccountsCanonical accounts)
    (hledger : ∀ id ∈ accounts.map Account.id, ∀ asset, ledger id asset = holding accounts id asset)
    (hpos : ∀ r ∈ requests, r.amount ≠ 0)
    (h : applyForcedWithdrawals accounts requests = .ok (accounts', executed)) :
    executed.map (fun e => e.amount.toNat) = drains ledger requests ↔
      Reached (accounts.map Account.id) ledger requests := by
  induction requests generalizing accounts executed ledger with
  | nil =>
      rw [applyForcedWithdrawals] at h
      cases h
      simp [drains, Reached]
  | cons request requests ih =>
      simp only [applyForcedWithdrawals, Outcome.bind_eq_ok, Prod.exists, Except.ok.injEq,
        Prod.mk.injEq] at h
      rcases h with ⟨mid, drained, hmid, _, rest, hrest, rfl, rfl⟩
      rcases applyForcedWithdrawal_spec hcan hmid with ⟨hsame, hholding, hin, hout⟩
      simp only [List.map_cons, drains, List.cons.injEq, Reached, ForcedWithdrawal.setAmount]
      have hrequest : request.amount.toNat ≠ 0 := fun h0 =>
        hpos request (by simp) (FixedWidth.eq_zero_iff.mpr h0)
      have hhead : drained.toNat =
          Nat.min request.amount.toNat (ledger request.account request.asset) ↔
          IndexedIn (accounts.map Account.id) request.accountIndex request.account ∨
            ledger request.account request.asset = 0 := by
        by_cases hindexed : IndexedIn (accounts.map Account.id) request.accountIndex request.account
        · rw [hin hindexed, hledger _ hindexed.mem]
          simp [hindexed]
        · rw [hout hindexed]
          simp only [hindexed, false_or]
          constructor
          · intro h0
            have hmin := Nat.min_eq_zero_iff.mp h0.symm
            omega
          · intro h0
            rw [h0]
            simp
      rw [← hhead]
      refine and_congr_right fun hdrained => ?_
      rw [← hsame.ids]
      refine ih (hsame.accountsCanonical hcan) ?_
        (fun r hr => hpos r (List.mem_cons_of_mem _ hr)) hrest
      intro id hid asset
      rw [hsame.ids] at hid
      rw [takeOut, hledger id hid, hholding id asset, hdrained]
      omega

end ZkClob
