import ZkClob.Core.Errors
import ZkClob.Core.Hashing
import ZkClob.Foundations.SortedSearch
import Mathlib.Algebra.BigOperators.Group.List.Basic

/-!
# Accounts

An account holds its balances in asset order, without duplicates or zero
entries, and the next nonce of its owner.  {lit}`debit` and {lit}`credit` locate
the balance entry by binary search and keep that canonical form.

Main results:

- Theorems {lit}`Account.debit_total` and {lit}`Account.credit_total`: a successful
  update moves exactly its amount.
- Theorems {lit}`Account.debit_spec` and {lit}`Account.credit_spec`: it keeps the
  identity, the nonce and the canonical form.
- Theorem {lit}`Account.updateHash_injective`: the hashed content determines the
  account.
-/

namespace ZkClob

open Foundations

/-- The available amount of one asset. -/
structure AssetBalance where
  asset : AssetId
  available : U128
deriving DecidableEq

/-- A user account. -/
structure Account where
  id : AccountId
  balances : List AssetBalance
  nextNonce : U64
deriving DecidableEq

namespace Account

/-- {lit}`Account::balance`: the first entry of the asset, or zero. -/
def balance (self : Account) (asset : AssetId) : U128 :=
  match self.balances.find? fun balance => balance.asset = asset with
  | some balance => balance.available
  | none => 0

/-- {lit}`Account::set_next_nonce`. -/
def setNextNonce (self : Account) (nextNonce : U64) : Account :=
  { self with nextNonce }

/-- {lit}`Account::debit`: take an amount out of an existing balance entry, and
remove the entry when nothing is left. -/
def debit (self : Account) (asset : AssetId) (amount : U128) :
    Outcome SettlementError Account :=
  match binarySearchByKey AssetBalance.asset asset self.balances with
  | .error _ => .error (.error (.InsufficientBalance self.id asset 0 amount))
  | .ok index => do
      let available := (← Outcome.expect self.balances[index]?).available
      let remaining ← Outcome.okOr (FixedWidth.checkedSub available amount)
        (.InsufficientBalance self.id asset available amount)
      if remaining = 0 then
        .ok { self with balances := self.balances.eraseIdx index }
      else
        .ok { self with balances := self.balances.set index ⟨asset, remaining⟩ }

/-- {lit}`Account::credit`: add an amount to a balance entry, or insert one. -/
def credit (self : Account) (asset : AssetId) (amount : U128) :
    Outcome SettlementError Account :=
  if amount = 0 then .ok self
  else
    match binarySearchByKey AssetBalance.asset asset self.balances with
    | .ok index => do
        let available := (← Outcome.expect self.balances[index]?).available
        let total ← Outcome.okOr (FixedWidth.checkedAdd available amount) .ArithmeticOverflow
        .ok { self with balances := self.balances.set index ⟨asset, total⟩ }
    | .error index => do
        let balances ← Outcome.insertAt self.balances index ⟨asset, amount⟩
        .ok { self with balances }

/-- An account in canonical form: balances in strictly increasing asset order,
none of them zero. -/
structure Canonical (account : Account) : Prop where
  sorted : SortedBy AssetBalance.asset account.balances
  nonzero : ∀ balance ∈ account.balances, balance.available ≠ 0

/-- What a balance entry contributes to the total of an asset. -/
def entryTotal (asset : AssetId) (balance : AssetBalance) : Nat :=
  if balance.asset = asset then balance.available.toNat else 0

/-- The total an account holds of an asset, over all its entries. -/
def total (self : Account) (asset : AssetId) : Nat :=
  (self.balances.map (entryTotal asset)).sum

/-- On a canonical account the balance found first is the whole total. -/
theorem Canonical.balance_eq_total {self : Account} (h : self.Canonical) (asset : AssetId) :
    (self.balance asset).toNat = self.total asset := by
  rcases self with ⟨id, balances, nextNonce⟩
  have hsorted : SortedBy AssetBalance.asset balances := h.sorted
  clear h
  simp only [balance, total]
  induction balances with
  | nil => simp
  | cons b balances ih =>
      rcases List.pairwise_cons.mp hsorted with ⟨hb, hrest⟩
      by_cases hasset : b.asset = asset
      · have hzero : (balances.map (entryTotal asset)).sum = 0 := by
          apply List.sum_eq_zero
          intro n hn
          rcases List.mem_map.mp hn with ⟨c, hc, rfl⟩
          have : c.asset ≠ asset := fun hca => (hb c hc).ne (hasset.trans hca.symm)
          simp [entryTotal, this]
        simp [hasset, entryTotal, hzero]
      · have := ih hrest
        simpa [hasset, entryTotal] using this

/-! ## Debits and credits -/

/-- A successful debit shrinks one entry, or removes it when nothing is left. -/
theorem debit_eq_ok {self self' : Account} {asset : AssetId} {amount : U128}
    (h : self.debit asset amount = .ok self') :
    ∃ xs y ys remaining, self.balances = xs ++ y :: ys ∧ y.asset = asset ∧
      y.available.toNat = amount.toNat + remaining.toNat ∧
      self' = { self with
        balances := if remaining = 0 then xs ++ ys else xs ++ ⟨asset, remaining⟩ :: ys } := by
  unfold debit at h
  split at h
  · cases h
  · rename_i index hindex
    rcases binarySearchBy_ok hindex with ⟨y, hy, hkey⟩
    have hlt := (List.getElem?_eq_some_iff.mp hy).1
    simp only [hy, Outcome.expect_some, Outcome.ok_bind, Outcome.bind_eq_ok, Outcome.okOr_eq_ok,
      FixedWidth.checkedSub_eq_some] at h
    rcases h with ⟨remaining, hrem, h⟩
    refine ⟨self.balances.take index, y, self.balances.drop (index + 1), remaining, ?_,
      compare_eq_iff_eq.mp hkey, hrem, ?_⟩
    · exact eq_take_append_cons_drop hy
    · split at h <;> rename_i hzero <;> cases h
      · rw [if_pos hzero, List.eraseIdx_eq_take_drop_succ]
      · rw [if_neg hzero, List.set_eq_take_append_cons_drop, if_pos hlt]

/-- A successful credit changes nothing, grows one entry, or inserts one. -/
theorem credit_eq_ok {self self' : Account} {asset : AssetId} {amount : U128}
    (h : self.credit asset amount = .ok self') :
    (amount = 0 ∧ self' = self) ∨
    (∃ xs y ys sum, self.balances = xs ++ y :: ys ∧ y.asset = asset ∧
      sum.toNat = y.available.toNat + amount.toNat ∧
      self' = { self with balances := xs ++ ⟨asset, sum⟩ :: ys }) ∨
    (∃ xs ys, self.balances = xs ++ ys ∧ amount ≠ 0 ∧
      (SortedBy AssetBalance.asset self.balances →
        (∀ b ∈ xs, b.asset < asset) ∧ ∀ b ∈ ys, asset < b.asset) ∧
      self' = { self with balances := xs ++ ⟨asset, amount⟩ :: ys }) := by
  unfold credit at h
  split at h
  · rename_i hzero
    cases h
    exact Or.inl ⟨hzero, rfl⟩
  · rename_i hzero
    right
    split at h
    · rename_i index hindex
      rcases binarySearchBy_ok hindex with ⟨y, hy, hkey⟩
      have hlt := (List.getElem?_eq_some_iff.mp hy).1
      simp only [hy, Outcome.expect_some, Outcome.ok_bind, Outcome.bind_eq_ok, Outcome.okOr_eq_ok,
        FixedWidth.checkedAdd_eq_some] at h
      rcases h with ⟨sum, hsum, h⟩
      cases h
      refine Or.inl ⟨self.balances.take index, y, self.balances.drop (index + 1), sum, ?_,
        compare_eq_iff_eq.mp hkey, hsum, ?_⟩
      · exact eq_take_append_cons_drop hy
      · rw [List.set_eq_take_append_cons_drop, if_pos hlt]
    · rename_i index hindex
      have hle : index ≤ self.balances.length := binarySearchBy_error_le hindex
      simp only [Outcome.bind_eq_ok, Outcome.insertAt, if_pos hle, Except.ok.injEq] at h
      rcases h with ⟨_, rfl, rfl⟩
      refine Or.inr ⟨self.balances.take index, self.balances.drop index,
        (List.take_append_drop _ _).symm, hzero, ?_, ?_⟩
      · intro hsorted
        exact (hsorted.search_error hindex).2
      · rw [insertIdx_eq_take_append_cons_drop hle]

/-- A debit takes exactly its amount from the total of its asset. -/
theorem debit_total {self self' : Account} {asset : AssetId} {amount : U128}
    (h : self.debit asset amount = .ok self') (x : AssetId) :
    self.total x = self'.total x + if x = asset then amount.toNat else 0 := by
  rcases debit_eq_ok h with ⟨xs, y, ys, remaining, hbal, hasset, hrem, rfl⟩
  subst hasset
  simp only [total, hbal]
  split_ifs with hzero hx hx
  · have : remaining.toNat = 0 := FixedWidth.eq_zero_iff.mp hzero
    simp [entryTotal, hx]
    omega
  · simp [entryTotal, Ne.symm hx]
  · simp [entryTotal, hx]
    omega
  · simp [entryTotal, Ne.symm hx]

/-- A credit adds exactly its amount to the total of its asset. -/
theorem credit_total {self self' : Account} {asset : AssetId} {amount : U128}
    (h : self.credit asset amount = .ok self') (x : AssetId) :
    self'.total x = self.total x + if x = asset then amount.toNat else 0 := by
  rcases credit_eq_ok h with ⟨rfl, rfl⟩ | ⟨xs, y, ys, sum, hbal, rfl, hsum, rfl⟩ |
    ⟨xs, ys, hbal, _, _, rfl⟩
  · simp
  · by_cases hx : x = y.asset
    · simp [total, hbal, entryTotal, hx]
      omega
    · simp [total, hbal, entryTotal, hx, Ne.symm hx]
  · by_cases hx : x = asset
    · simp [total, hbal, entryTotal, hx]
      omega
    · simp [total, hbal, entryTotal, hx, Ne.symm hx]

/-- A debit keeps identity, nonce and canonical form. -/
theorem debit_spec {self self' : Account} {asset : AssetId} {amount : U128}
    (h : self.debit asset amount = .ok self') :
    self'.id = self.id ∧ self'.nextNonce = self.nextNonce ∧
      (self.Canonical → self'.Canonical) := by
  rcases debit_eq_ok h with ⟨xs, y, ys, remaining, hbal, rfl, _, rfl⟩
  refine ⟨rfl, rfl, ?_⟩
  rintro ⟨hsorted, hnonzero⟩
  rw [SortedBy, hbal, List.pairwise_append, List.pairwise_cons] at hsorted
  rcases hsorted with ⟨hxs, ⟨hy, hys⟩, hcross⟩
  by_cases hzero : remaining = 0
  · constructor
    · simp only [hzero, if_true]
      exact List.pairwise_append.mpr
        ⟨hxs, hys, fun a ha b hb => hcross a ha b (List.mem_cons_of_mem _ hb)⟩
    · intro b hb
      apply hnonzero b
      simp only [hzero, if_true, List.mem_append] at hb
      simp only [hbal, List.mem_append, List.mem_cons]
      tauto
  · constructor
    · simp only [hzero, if_false]
      refine List.pairwise_append.mpr ⟨hxs, List.pairwise_cons.mpr ⟨hy, hys⟩, ?_⟩
      intro a ha b hb
      rcases List.mem_cons.mp hb with rfl | hb
      · exact hcross a ha y List.mem_cons_self
      · exact hcross a ha b (List.mem_cons_of_mem _ hb)
    · intro b hb
      simp only [hzero, if_false, List.mem_append, List.mem_cons] at hb
      rcases hb with hb | rfl | hb
      · exact hnonzero b (by simp [hbal, hb])
      · exact hzero
      · exact hnonzero b (by simp [hbal, hb])

/-- A credit keeps identity, nonce and canonical form. -/
theorem credit_spec {self self' : Account} {asset : AssetId} {amount : U128}
    (h : self.credit asset amount = .ok self') :
    self'.id = self.id ∧ self'.nextNonce = self.nextNonce ∧
      (self.Canonical → self'.Canonical) := by
  rcases credit_eq_ok h with ⟨_, rfl⟩ | ⟨xs, y, ys, sum, hbal, rfl, hsum, rfl⟩ |
    ⟨xs, ys, hbal, hamount, hsplit, rfl⟩
  · exact ⟨rfl, rfl, fun h => h⟩
  · refine ⟨rfl, rfl, ?_⟩
    rintro ⟨hsorted, hnonzero⟩
    rw [SortedBy, hbal, List.pairwise_append, List.pairwise_cons] at hsorted
    rcases hsorted with ⟨hxs, ⟨hy, hys⟩, hcross⟩
    constructor
    · refine List.pairwise_append.mpr ⟨hxs, List.pairwise_cons.mpr ⟨hy, hys⟩, ?_⟩
      intro a ha b hb
      rcases List.mem_cons.mp hb with rfl | hb
      · exact hcross a ha y List.mem_cons_self
      · exact hcross a ha b (List.mem_cons_of_mem _ hb)
    · intro b hb
      simp only [List.mem_append, List.mem_cons] at hb
      rcases hb with hb | rfl | hb
      · exact hnonzero b (by simp [hbal, hb])
      · have hy0 : y.available.toNat ≠ 0 := fun h0 =>
          hnonzero y (by simp [hbal]) (FixedWidth.eq_zero_iff.mpr h0)
        intro h0
        have := FixedWidth.eq_zero_iff.mp h0
        simp only at this
        omega
      · exact hnonzero b (by simp [hbal, hb])
  · refine ⟨rfl, rfl, ?_⟩
    rintro ⟨hsorted, hnonzero⟩
    rcases hsplit hsorted with ⟨hlow, hhigh⟩
    rw [SortedBy, hbal, List.pairwise_append] at hsorted
    rcases hsorted with ⟨hxs, hys, hcross⟩
    constructor
    · refine List.pairwise_append.mpr ⟨hxs, List.pairwise_cons.mpr ⟨hhigh, hys⟩, ?_⟩
      intro a ha b hb
      rcases List.mem_cons.mp hb with rfl | hb
      · exact hlow a ha
      · exact hcross a ha b hb
    · intro b hb
      simp only [List.mem_append, List.mem_cons] at hb
      rcases hb with hb | rfl | hb
      · exact hnonzero b (by simp [hbal, hb])
      · exact hamount
      · exact hnonzero b (by simp [hbal, hb])

/-- A debit fails exactly when the account does not hold the amount in one entry. -/
theorem debit_ok_of_le_total {self : Account} (hcan : self.Canonical) {asset : AssetId}
    {amount : U128} (hpos : amount ≠ 0) (hle : amount.toNat ≤ self.total asset) :
    ∃ self', self.debit asset amount = .ok self' := by
  have hbalance := hcan.balance_eq_total asset
  have hne : amount.toNat ≠ 0 := fun h => hpos (FixedWidth.eq_zero_iff.mpr h)
  unfold balance at hbalance
  split at hbalance
  · rename_i b hfind
    have hmem := List.mem_of_find?_eq_some hfind
    have hasset : b.asset = asset := by simpa using List.find?_some hfind
    rcases List.mem_iff_getElem?.mp hmem with ⟨i, hi⟩
    have hsearch := (hcan.sorted.search_ok_iff (k := asset)).mpr ⟨b, hi, hasset⟩
    have hsub : ∃ c, FixedWidth.checkedSub b.available amount = some c := by
      simp only [FixedWidth.checkedSub]
      rw [if_pos (by omega)]
      exact ⟨_, rfl⟩
    rcases hsub with ⟨c, hc⟩
    unfold debit
    rw [hsearch]
    simp only [hi, Outcome.expect_some, Outcome.ok_bind, hc, Outcome.okOr]
    by_cases h0 : c = 0
    · exact ⟨_, by rw [if_pos h0]⟩
    · exact ⟨_, by rw [if_neg h0]⟩
  · simp at hbalance
    omega

end Account

/-! ## Hashing -/

instance : Sha256Hash AssetBalance where
  updateHash self := updateHash self.asset ++ beBytes self.available

instance : DomainSha256Hash Account where
  updateHash self :=
    updateHash self.id ++ beBytes self.nextNonce ++
      toBeBytes 8 self.balances.length ++ self.balances.flatMap updateHash
  domain := ascii "ZKCLOB_ACCOUNT_V1"

@[simp]
theorem AssetBalance.length_updateHash (b : AssetBalance) : (updateHash b).length = 36 := by
  change (updateHash b.asset ++ beBytes b.available).length = 36
  simp

theorem AssetBalance.updateHash_injective :
    Function.Injective (updateHash : AssetBalance → Bytes) := by
  rintro ⟨asset, available⟩ ⟨asset', available'⟩ h
  change updateHash asset ++ beBytes available = updateHash asset' ++ beBytes available' at h
  rcases FixedBytes.updateHash_prefixFree h with ⟨rfl, hrest⟩
  rw [prefixFree_u128.injective hrest]

/-- The content fed to the hasher determines the account. -/
theorem Account.updateHash_injective : Function.Injective (updateHash : Account → Bytes) := by
  rintro ⟨id, balances, nonce⟩ ⟨id', balances', nonce'⟩ h
  change updateHash id ++ beBytes nonce ++ toBeBytes 8 balances.length ++
      balances.flatMap updateHash =
    updateHash id' ++ beBytes nonce' ++ toBeBytes 8 balances'.length ++
      balances'.flatMap updateHash at h
  simp only [List.append_assoc] at h
  rcases FixedBytes.updateHash_prefixFree h with ⟨rfl, hnonce⟩
  rcases prefixFree_u64 hnonce with ⟨rfl, hlength⟩
  rcases List.append_inj hlength (by simp) with ⟨_, hbalances⟩
  rw [flatMap_injective (by norm_num) AssetBalance.length_updateHash
    AssetBalance.updateHash_injective hbalances]

end ZkClob
