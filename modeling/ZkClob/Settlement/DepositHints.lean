import ZkClob.Settlement.LedgerEquation

/-!
# Hints of deposits

A deposit carries the index that its account has once all deposits are applied.  While they are
being applied some accounts are still missing, so that the index may point before, at or beyond the
place of its account.  The guest therefore uses it as a hint only.

Main results:

- Theorem {lit}`locateDepositAccount_eq_search`: whatever the hint, the account is located where a
  binary search locates it.
- Theorem {lit}`hints_irrelevant`: deposits with hints are applied as deposits without them.
-/

namespace ZkClob

open Foundations

/-- One iteration of {lit}`apply_deposits` that searches for the account. -/
def applyDepositUnhinted (accounts : List Account) (deposit : Deposit) :
    Outcome SettlementError (List Account) :=
  match binarySearchByKey Account.id deposit.account accounts with
  | .ok index => Outcome.modifyAt accounts index (·.credit deposit.asset deposit.amount)
  | .error index => do
      Outcome.rejectIf (accounts.length ≥ MAX_TOUCHED_ACCOUNTS_PER_BATCH) .TooManyAccounts
      let accounts ← Outcome.insertAt accounts index ⟨deposit.account, [], 0⟩
      Outcome.modifyAt accounts index (·.credit deposit.asset deposit.amount)

/-- {lit}`apply_deposits` without hints. -/
def applyDepositsUnhinted (accounts : List Account) (deposits : List Deposit) :
    Outcome SettlementError (List Account) :=
  deposits.foldlM applyDepositUnhinted accounts

variable {accounts : List Account} {deposit : Deposit} {deposits : List Deposit}

/-- Whatever the hint, an account is located where a binary search locates it. -/
theorem locateDepositAccount_eq_search (hsorted : SortedBy Account.id accounts)
    (hhint : deposit.accountIndex.isSome) :
    locateDepositAccount accounts deposit =
      .ok (binarySearchByKey Account.id deposit.account accounts) := by
  rcases Option.isSome_iff_exists.mp hhint with ⟨hint, hhint⟩
  have hlocated : ∃ place, locateDepositAccount accounts deposit = .ok place := by
    unfold locateDepositAccount
    rw [hhint, Outcome.expect_some, Outcome.ok_bind]
    dsimp only
    split
    · exact ⟨_, rfl⟩
    · split
      · exact ⟨_, rfl⟩
      · exact ⟨_, rfl⟩
  rcases hlocated with ⟨place, hplace⟩
  rw [hplace]
  -- a hit and a miss are each at one place only
  rcases locateDepositAccount_eq_ok hsorted hplace with
    ⟨index, rfl, hat⟩ | ⟨index, rfl, hle, hlow, hhigh⟩
  · rw [List.getElem?_map, Option.map_eq_some_iff] at hat
    rw [hsorted.search_ok_iff.mpr hat]
  · rw [hsorted.search_eq_error hle hlow hhigh]

theorem applyDeposit_eq_unhinted (hsorted : SortedBy Account.id accounts)
    (hhint : deposit.accountIndex.isSome) :
    applyDeposit accounts deposit = applyDepositUnhinted accounts deposit := by
  unfold applyDeposit
  rw [locateDepositAccount_eq_search hsorted hhint]
  rfl

/-- Deposits with hints are applied as deposits without them. -/
theorem applyDeposits_eq_unhinted (hsorted : SortedBy Account.id accounts)
    (hhints : ∀ d ∈ deposits, d.accountIndex.isSome) :
    applyDeposits accounts deposits = applyDepositsUnhinted accounts deposits := by
  induction deposits generalizing accounts with
  | nil => rfl
  | cons deposit deposits ih =>
      unfold applyDeposits applyDepositsUnhinted
      rw [List.foldlM_cons, List.foldlM_cons,
        applyDeposit_eq_unhinted hsorted (hhints deposit (by simp))]
      cases hfirst : applyDepositUnhinted accounts deposit with
      | error fault => rfl
      | ok mid =>
          have happlied : applyDeposits accounts [deposit] = .ok mid := by
            rw [applyDeposits, List.foldlM_cons, applyDeposit_eq_unhinted hsorted
              (hhints deposit (by simp)), hfirst]
            rfl
          exact ih (applyDeposits_ids hsorted happlied).1
            fun d hd => hhints d (List.mem_cons_of_mem _ hd)

/-- Hints neither change where a deposit is located nor what the deposits do. -/
theorem hints_irrelevant (hsorted : SortedBy Account.id accounts) :
    (∀ deposit : Deposit, deposit.accountIndex.isSome → locateDepositAccount accounts deposit =
      .ok (binarySearchByKey Account.id deposit.account accounts)) ∧
    ∀ deposits : List Deposit, (∀ d ∈ deposits, d.accountIndex.isSome) →
      applyDeposits accounts deposits = applyDepositsUnhinted accounts deposits :=
  ⟨fun _ => locateDepositAccount_eq_search hsorted, fun _ => applyDeposits_eq_unhinted hsorted⟩

/-- Deposits with an index beyond the accounts inserted so far, with one out of range, and with
the index of another account. -/
def testHints : List Deposit :=
  [⟨0, FixedBytes.replicate 20 4, FixedBytes.replicate 20 7, 4, some 3⟩,
    ⟨1, FixedBytes.replicate 20 3, FixedBytes.replicate 20 7, 4, some 9⟩,
    ⟨2, FixedBytes.replicate 20 2, FixedBytes.replicate 20 7, 1, some 0⟩]

theorem hints_irrelevant_testHints :
    applyDeposits testAccounts testHints = applyDepositsUnhinted testAccounts testHints ∧
      (applyDeposits testAccounts testHints).isOk = true :=
  ⟨(hints_irrelevant (show SortedBy Account.id testAccounts by unfold SortedBy; decide)).2
    testHints (by decide), by decide +kernel⟩

end ZkClob
