import ZkClob.Settlement.Batch
import ZkClob.Settlement.Ledger
import ZkClob.Foundations.OrderedMap

/-!
# Asset conservation

A second accounting, kept apart from the updates of the accounts: one running total
for each asset.  Everything that enters a batch is added, everything that leaves it
is subtracted, and the final accounts must bring every total to zero.

Main results:

- Theorem {lit}`AssetTracker.add_total` and {lit}`AssetTracker.subtract_total`: an
  entry moves the total of its asset by exactly its amount.
- Theorem {lit}`AssetTracker.conservation`: an accepted accounting balances what
  entered and what left, asset by asset.
-/

namespace ZkClob

open Foundations

/-- The total of an asset over all accounts. -/
def supply (accounts : List Account) (asset : AssetId) : Nat :=
  (accounts.map fun account => account.total asset).sum

/-- {lit}`AssetTracker`. -/
structure AssetTracker where
  totals : OrderedMap AssetId U128

namespace AssetTracker

/-- {lit}`AssetTracker::default`. -/
def default : AssetTracker := ⟨OrderedMap.empty⟩

/-- {lit}`AssetTracker::add`. -/
def add (self : AssetTracker) (asset : AssetId) (amount : U128) :
    Outcome SettlementError AssetTracker := do
  let total := (self.totals.get asset).getD 0
  let total ← Outcome.okOr (FixedWidth.checkedAdd total amount) .ArithmeticOverflow
  .ok ⟨self.totals.insert asset total⟩

/-- {lit}`AssetTracker::subtract`. -/
def subtract (self : AssetTracker) (asset : AssetId) (amount : U128) :
    Outcome SettlementError AssetTracker :=
  if amount = 0 then .ok self
  else do
    let total ← Outcome.okOr (self.totals.get asset) .AssetConservationViolation
    let total ← Outcome.okOr (FixedWidth.checkedSub total amount) .AssetConservationViolation
    if total = 0 then .ok ⟨self.totals.erase asset⟩ else .ok ⟨self.totals.insert asset total⟩

/-- {lit}`AssetTracker::add_accounts`. -/
def addAccounts (self : AssetTracker) (accounts : List Account) :
    Outcome SettlementError AssetTracker :=
  accounts.foldlM (fun tracker account => account.balances.foldlM
    (fun tracker balance => tracker.add balance.asset balance.available) tracker) self

/-- {lit}`AssetTracker::add_deposits`. -/
def addDeposits (self : AssetTracker) (deposits : List Deposit) :
    Outcome SettlementError AssetTracker :=
  deposits.foldlM (fun tracker deposit => tracker.add deposit.asset deposit.amount) self

/-- {lit}`AssetTracker::subtract_withdrawals`. -/
def subtractWithdrawals (self : AssetTracker) (withdrawals : List SignedWithdrawal) :
    Outcome SettlementError AssetTracker :=
  withdrawals.foldlM (fun tracker w => tracker.subtract w.asset w.amount) self

/-- {lit}`AssetTracker::subtract_forced_withdrawals`. -/
def subtractForcedWithdrawals (self : AssetTracker) (withdrawals : List ForcedWithdrawal) :
    Outcome SettlementError AssetTracker :=
  withdrawals.foldlM (fun tracker w => tracker.subtract w.asset w.amount) self

/-- {lit}`AssetTracker::subtract_accounts`. -/
def subtractAccounts (self : AssetTracker) (accounts : List Account) :
    Outcome SettlementError AssetTracker :=
  accounts.foldlM (fun tracker account => account.balances.foldlM
    (fun tracker balance => tracker.subtract balance.asset balance.available) tracker) self

/-- {lit}`AssetTracker::is_empty`. -/
def isEmpty (self : AssetTracker) : Bool := self.totals.isEmpty

/-! ## Totals -/

/-- The running total of an asset. -/
def total (self : AssetTracker) (asset : AssetId) : Nat :=
  ((self.totals.get asset).getD 0).toNat

variable {self self' : AssetTracker} {asset : AssetId} {amount : U128}

@[simp]
theorem total_default (x : AssetId) : default.total x = 0 := by
  simp [total, default]

/-- An added amount raises the total of its asset. -/
theorem add_total (h : self.add asset amount = .ok self') (x : AssetId) :
    self'.total x = self.total x + if asset = x then amount.toNat else 0 := by
  simp only [add, Outcome.bind_eq_ok, Outcome.okOr_eq_ok, FixedWidth.checkedAdd_eq_some,
    Except.ok.injEq] at h
  rcases h with ⟨sum, hsum, rfl⟩
  simp only [total, OrderedMap.get_insert]
  by_cases hx : asset = x
  · subst hx
    simp [hsum]
  · simp [hx, Ne.symm hx]

/-- A subtracted amount lowers the total of its asset. -/
theorem subtract_total (h : self.subtract asset amount = .ok self') (x : AssetId) :
    self.total x = self'.total x + if asset = x then amount.toNat else 0 := by
  unfold subtract at h
  split at h
  · rename_i hzero
    cases h
    simp [hzero]
  · simp only [Outcome.bind_eq_ok, Outcome.okOr_eq_ok, FixedWidth.checkedSub_eq_some] at h
    rcases h with ⟨before, hbefore, after, hafter, h⟩
    by_cases hx : asset = x
    · subst hx
      have htotal : self.total asset = before.toNat := by simp [total, hbefore]
      rw [htotal, hafter, if_pos rfl, Nat.add_comm]
      split at h
      · rename_i hzero
        cases h
        simp [total, OrderedMap.get_erase, hzero]
      · cases h
        simp [total, OrderedMap.get_insert]
    · split at h <;> cases h
      · simp [total, OrderedMap.get_erase, hx, Ne.symm hx]
      · simp [total, OrderedMap.get_insert, hx, Ne.symm hx]

/-- An empty tracker has no totals. -/
theorem total_of_isEmpty (h : self.isEmpty = true) (x : AssetId) : self.total x = 0 := by
  simp [total, OrderedMap.isEmpty_iff.mp h x]

section

variable {α : Type} {assetOf : α → AssetId} {amountOf : α → U128} {l : List α}

/-- Adding a sequence of entries. -/
theorem foldlM_add_total
    (h : l.foldlM (fun (tracker : AssetTracker) a => tracker.add (assetOf a) (amountOf a)) self =
      .ok self') (x : AssetId) :
    self'.total x = self.total x + tally (fun a => assetOf a = x)
      (fun a => (amountOf a).toNat) l := by
  induction l generalizing self with
  | nil =>
      simp only [List.foldlM_nil, Outcome.pure_eq_ok] at h
      subst h
      simp
  | cons a l ih =>
      simp only [List.foldlM_cons, Outcome.bind_eq_ok] at h
      rcases h with ⟨mid, hmid, hrest⟩
      rw [ih hrest, add_total hmid x]
      simp only [tally_cons, decide_eq_true_eq]
      omega

/-- Subtracting a sequence of entries. -/
theorem foldlM_subtract_total
    (h : l.foldlM (fun (tracker : AssetTracker) a =>
      tracker.subtract (assetOf a) (amountOf a)) self =
      .ok self') (x : AssetId) :
    self.total x = self'.total x + tally (fun a => assetOf a = x)
      (fun a => (amountOf a).toNat) l := by
  induction l generalizing self with
  | nil =>
      simp only [List.foldlM_nil, Outcome.pure_eq_ok] at h
      subst h
      simp
  | cons a l ih =>
      simp only [List.foldlM_cons, Outcome.bind_eq_ok] at h
      rcases h with ⟨mid, hmid, hrest⟩
      rw [subtract_total hmid x, ih hrest]
      simp only [tally_cons, decide_eq_true_eq]
      omega

end

/-- The entries of an account add up to its total. -/
theorem tally_balances (account : Account) (x : AssetId) :
    tally (fun b : AssetBalance => b.asset = x) (fun b => b.available.toNat) account.balances =
      account.total x := by
  simp only [tally, decide_eq_true_eq]
  rfl

variable {accounts : List Account}

/-- Adding accounts adds their supply. -/
theorem addAccounts_total (h : self.addAccounts accounts = .ok self') (x : AssetId) :
    self'.total x = self.total x + supply accounts x := by
  induction accounts generalizing self with
  | nil =>
      simp only [addAccounts, List.foldlM_nil, Outcome.pure_eq_ok] at h
      subst h
      simp [supply]
  | cons account accounts ih =>
      simp only [addAccounts, List.foldlM_cons, Outcome.bind_eq_ok] at h
      rcases h with ⟨mid, hmid, hrest⟩
      rw [ih hrest, foldlM_add_total hmid x, tally_balances]
      simp [supply, Nat.add_assoc]

/-- Subtracting accounts subtracts their supply. -/
theorem subtractAccounts_total (h : self.subtractAccounts accounts = .ok self') (x : AssetId) :
    self.total x = self'.total x + supply accounts x := by
  induction accounts generalizing self with
  | nil =>
      simp only [subtractAccounts, List.foldlM_nil, Outcome.pure_eq_ok] at h
      subst h
      simp [supply]
  | cons account accounts ih =>
      simp only [subtractAccounts, List.foldlM_cons, Outcome.bind_eq_ok] at h
      rcases h with ⟨mid, hmid, hrest⟩
      rw [foldlM_subtract_total hmid x, ih hrest, tally_balances]
      simp only [supply, List.map_cons, List.sum_cons]
      omega

/-- An accounting that ends empty balances what entered and what left. -/
theorem conservation {accounts accounts' : List Account} {deposits : List Deposit}
    {withdrawals : List SignedWithdrawal} {forcedWithdrawals : List ForcedWithdrawal}
    {t₁ t₂ t₃ t₄ t₅ : AssetTracker} (h₁ : default.addAccounts accounts = .ok t₁)
    (h₂ : t₁.addDeposits deposits = .ok t₂) (h₃ : t₂.subtractWithdrawals withdrawals = .ok t₃)
    (h₄ : t₃.subtractForcedWithdrawals forcedWithdrawals = .ok t₄)
    (h₅ : t₄.subtractAccounts accounts' = .ok t₅) (hempty : t₅.isEmpty = true) (x : AssetId) :
    supply accounts x + tally (fun d => d.asset = x) (fun d => d.amount.toNat) deposits =
      supply accounts' x + tally (fun w => w.asset = x) (fun w => w.amount.toNat) withdrawals +
        tally (fun w => w.asset = x) (fun w => w.amount.toNat) forcedWithdrawals := by
  have e₁ := addAccounts_total h₁ x
  have e₂ := foldlM_add_total h₂ x
  have e₃ := foldlM_subtract_total h₃ x
  have e₄ := foldlM_subtract_total h₄ x
  have e₅ := subtractAccounts_total h₅ x
  have e₆ := total_of_isEmpty hempty x
  rw [total_default] at e₁
  omega

end AssetTracker

end ZkClob
