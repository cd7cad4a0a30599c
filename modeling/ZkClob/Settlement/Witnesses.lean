import ZkClob.Settlement.Ledger
import ZkClob.Settlement.State

/-!
# The witnesses of the host

The host picks the accounts that a batch touches out of the complete state and proves them
against its root.  The guest accepts that proof, and any accounts with the same ids can be put
in their place.

Main results:

- Theorem {lit}`State.exists_witnessFor`: distinct ids have a witness, which holds their accounts
  and has the root of the state.
- Theorem {lit}`State.root_of_witnessFor`: accounts put in the place of the witnessed ones have a
  root, that of the state in which they replace them.
-/

namespace ZkClob

open Foundations Patricia

namespace State

/-- The account that the host finds under an id. -/
def lookup (self : State) (accountId : AccountId) : Option Account :=
  match binarySearchByKey Account.id accountId self.accounts with
  | .ok index => self.accounts[index]?
  | .error _ => none

variable {self : State} {accountIds : List AccountId}

/-- In a state in order the search finds every account. -/
theorem lookup_eq_some_iff (hsorted : SortedBy Account.id self.accounts) {accountId : AccountId}
    {account : Account} :
    self.lookup accountId = some account ↔ account ∈ self.accounts ∧ account.id = accountId := by
  unfold lookup
  cases hsearch : binarySearchByKey Account.id accountId self.accounts with
  | ok index =>
      rcases hsorted.search_ok_iff.mp hsearch with ⟨found, hfound, hid⟩
      simp only [hfound, Option.some.injEq]
      constructor
      · rintro rfl
        exact ⟨List.mem_of_getElem? hfound, hid⟩
      · rintro ⟨hmem, haccount⟩
        exact hsorted.eq_of_key_eq (List.mem_of_getElem? hfound) hmem (hid.trans haccount.symm)
  | error index =>
      have habsent := hsorted.search_error_iff.mp ⟨index, hsearch⟩
      simp only [reduceCtorEq, false_iff]
      rintro ⟨hmem, hid⟩
      exact habsent account hmem hid

/-- Distinct ids pick exactly their accounts. -/
theorem lookup_perm (hsorted : SortedBy Account.id self.accounts) (hids : accountIds.Nodup) :
    (accountIds.filterMap self.lookup).Perm (self.accounts.filter fun a => a.id ∈ accountIds) := by
  have hpicked : (accountIds.filterMap self.lookup).Nodup := by
    apply hids.filterMap
    intro id id' account h h'
    rw [Option.mem_def, lookup_eq_some_iff hsorted] at h h'
    exact h.2.symm.trans h'.2
  have hfiltered : (self.accounts.filter fun a => a.id ∈ accountIds).Nodup :=
    hsorted.nodup_map.of_map.filter _
  apply (List.perm_ext_iff_of_nodup hpicked hfiltered).mpr
  intro account
  simp only [List.mem_filterMap, lookup_eq_some_iff hsorted, List.mem_filter, decide_eq_true_eq]
  constructor
  · rintro ⟨id, hid, hmem, rfl⟩
    exact ⟨hmem, hid⟩
  · rintro ⟨hmem, hid⟩
    exact ⟨account.id, hid, hmem, rfl⟩

/-- Ids in order pick accounts in order. -/
theorem lookup_sorted (hsorted : SortedBy Account.id self.accounts)
    (hids : accountIds.Pairwise (· < ·)) :
    SortedBy Account.id (accountIds.filterMap self.lookup) := by
  apply List.pairwise_filterMap.mpr
  apply hids.imp
  intro id id' hlt account h account' h'
  rw [lookup_eq_some_iff hsorted] at h h'
  rw [h.2, h'.2]
  exact hlt

section

variable {B256 : Type} [Sha256 B256] {witness : StateWitness B256}

/-- A witness holds the accounts of its ids and proves these ids. -/
theorem witnessFor_eq_ok (h : self.witnessFor accountIds = .ok witness) :
    witness.accounts = accountIds.filterMap self.lookup ∧
      buildMultiproof self.accounts accountIds = .ok witness.multiproof := by
  simp only [witnessFor, Outcome.bind_eq_ok, Outcome.mapError_eq_ok, Except.ok.injEq] at h
  rcases h with ⟨multiproof, hmultiproof, rfl⟩
  exact ⟨rfl, hmultiproof⟩

/-- Accounts put in the place of the witnessed ones have a root: that of the state in which they
replace them. -/
theorem root_of_witnessFor (hsorted : SortedBy Account.id self.accounts) (hne : accountIds ≠ [])
    (hids : accountIds.Nodup) (h : self.witnessFor accountIds = .ok witness)
    {accounts : List Account}
    (hnodup : (accounts.map Account.id).Nodup) (hlisted : ∀ a ∈ accounts, a.id ∈ accountIds) :
    ∃ root, (⟨accounts, witness.multiproof⟩ : StateWitness B256).root = .ok root ∧
      computeRoot ((self.accounts.filter fun a => a.id ∉ accountIds) ++ accounts) = .ok root := by
  rcases witnessFor_eq_ok h with ⟨_, hproof⟩
  rcases computeRootFromProof_complete hsorted.nodup_map hne hids hproof hnodup hlisted with
    ⟨root, hroot, hstate⟩
  refine ⟨root, ?_, hstate⟩
  rw [StateWitness.root, Outcome.mapError_eq_ok]
  exact hroot

/-- The witnessed accounts have the root of the state. -/
theorem root_of_witness (hsorted : SortedBy Account.id self.accounts) (hne : accountIds ≠ [])
    (hids : accountIds.Nodup) (h : self.witnessFor accountIds = .ok witness) :
    ∃ root, witness.root = .ok root ∧ computeRoot self.accounts = .ok root := by
  have hperm : witness.accounts.Perm (self.accounts.filter fun a => a.id ∈ accountIds) := by
    rw [(witnessFor_eq_ok h).1]
    exact lookup_perm hsorted hids
  have hnodup : (witness.accounts.map Account.id).Nodup :=
    (hperm.map Account.id).nodup_iff.mpr
    ((List.filter_sublist.map Account.id).nodup hsorted.nodup_map)
  have hlisted : ∀ a ∈ witness.accounts, a.id ∈ accountIds := by
    intro a ha
    exact of_decide_eq_true (List.mem_filter.mp (hperm.mem_iff.mp ha)).2
  rcases root_of_witnessFor hsorted hne hids h hnodup hlisted with ⟨root, hroot, hstate⟩
  refine ⟨root, hroot, ?_⟩
  rw [← hstate]
  apply computeRoot_perm hsorted.nodup_map
  -- the state is what is listed and what is not
  have hsplit := List.filter_append_perm
      (fun a : Account => decide (a.id ∉ accountIds)) self.accounts
  refine hsplit.symm.trans (List.Perm.append_left _ ?_)
  simpa only [decide_not, Bool.not_not] using hperm.symm

/-- Distinct ids have a witness. -/
theorem exists_witnessFor (hsorted : SortedBy Account.id self.accounts) (hne : accountIds ≠ [])
    (hids : accountIds.Nodup) :
    ∃ witness : StateWitness B256, self.witnessFor accountIds = .ok witness := by
  rcases buildMultiproof_eq_ok B256 hsorted.nodup_map hne hids with ⟨proof, _, hproof, _⟩
  refine ⟨⟨accountIds.filterMap self.lookup, proof⟩, ?_⟩
  have hmapped : Outcome.mapError SettlementError.ofPatricia
      (buildMultiproof self.accounts accountIds : Outcome PatriciaError (StateMultiproof B256)) =
      .ok proof :=
    Outcome.mapError_eq_ok.mpr hproof
  rw [witnessFor, hmapped]
  rfl

/-- The witness of ids in order holds canonical accounts when the state does. -/
theorem witness_canonical (hcan : AccountsCanonical self.accounts)
    (hids : accountIds.Pairwise (· < ·))
    (h : self.witnessFor accountIds = .ok witness) : AccountsCanonical witness.accounts := by
  rw [(witnessFor_eq_ok h).1]
  refine ⟨lookup_sorted hcan.sorted hids, ?_⟩
  intro account haccount
  rcases List.mem_filterMap.mp haccount with ⟨id, _, hfound⟩
  exact hcan.canonical account ((lookup_eq_some_iff hcan.sorted).mp hfound).1

end

end State

end ZkClob
