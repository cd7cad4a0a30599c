import ZkClob.Core.Account
import ZkClob.Trees.PatriciaCompleteness

/-!
# Account state

The complete account state is held by the host; the guest sees the touched
accounts and a multiproof against the complete state.

Main results:

- Theorem {lit}`StateWitness.root_membership`: a witness accepted against the root
  of an account set holds exactly the listed accounts of the set.
- Theorem {lit}`StateWitness.root_update`: the accounts put in their place give the
  root of the updated set.
-/

namespace ZkClob

open Foundations Patricia

/-- Accounts are the leaves of the state tree. -/
instance : PatriciaLeaf Account AccountId where
  key := Account.id

/-- Keys of accounts in the state tree. -/
@[simp]
theorem Account.key_eq (account : Account) : PatriciaLeaf.key account = account.id := rfl

/-- The shared proof of a batch. -/
abbrev StateMultiproof (B256 : Type) := PatriciaMultiproof B256 AccountId

/-- {lit}`SettlementError::from(PatriciaError)`. -/
def SettlementError.ofPatricia (_ : PatriciaError) : SettlementError :=
  .InvalidStateMultiproof

/-- Touched accounts and their proof against the complete account state. -/
structure StateWitness (B256 : Type) where
  accounts : List Account
  multiproof : StateMultiproof B256
deriving DecidableEq

/-- Complete account state held by the host. -/
structure State where
  accounts : List Account
deriving DecidableEq

namespace State

/-- {lit}`State::new`. -/
def new (accounts : List Account) : State :=
  ⟨sortByKey Account.id accounts⟩

/-- {lit}`State::account`. -/
def account (self : State) (index : U32) : Option Account :=
  self.accounts[index.toNat]?

/-- {lit}`State::replace_account`: whether the account was replaced, and the state. -/
def replaceAccount (self : State) (index : U32) (account : Account) : Bool × State :=
  match self.accounts[index.toNat]? with
  | none => (false, self)
  | some existing =>
      if existing.id ≠ account.id then (false, self)
      else (true, ⟨self.accounts.set index.toNat account⟩)

/-- {lit}`State::insert_account`: whether the account was inserted, and the state. -/
def insertAccount (self : State) (account : Account) : Bool × State :=
  match binarySearchByKey Account.id account.id self.accounts with
  | .ok _ => (false, self)
  | .error index => (true, ⟨self.accounts.insertIdx index account⟩)

section

variable {B256 : Type} [Sha256 B256]

/-- {lit}`State::root`: the complete state must not contain duplicate ids. -/
def root (self : State) : Outcome SettlementError B256 :=
  match computeRoot self.accounts with
  | .ok root => .ok root
  | .error _ => .error .panic

/-- {lit}`State::witness_for`. -/
def witnessFor (self : State) (accountIds : List AccountId) :
    Outcome SettlementError (StateWitness B256) := do
  let multiproof ← Outcome.mapError .ofPatricia (buildMultiproof self.accounts accountIds)
  let accounts := accountIds.filterMap fun accountId =>
    match binarySearchByKey Account.id accountId self.accounts with
    | .ok index => self.accounts[index]?
    | .error _ => none
  .ok ⟨accounts, multiproof⟩

end

end State

namespace StateWitness

variable {B256 : Type} [Sha256 B256]

/-- {lit}`StateWitness::root`. -/
def root (self : StateWitness B256) : Outcome SettlementError B256 :=
  Outcome.mapError .ofPatricia (computeRootFromProof self.accounts self.multiproof)

variable {A : List Account} {accounts accounts' : List Account} {proof : StateMultiproof B256}
  {root root' : B256}

/-- A witness accepted against the root of an account set holds exactly the accounts
of the set whose ids the proof lists. -/
theorem root_membership (hfree : CollisionFree B256) (hA : (A.map Account.id).Nodup)
    (hroot : computeRoot A = .ok root)
    (h : (⟨accounts, proof⟩ : StateWitness B256).root = .ok root) :
    accounts.Perm (A.filter fun a => a.id ∈ proof.leafKeys) := by
  simp only [StateWitness.root, Outcome.mapError_eq_ok] at h
  exact computeRootFromProof_membership hfree Account.updateHash_injective hA (h.trans hroot.symm)

/-- The accounts put in the place of the witnessed ones give the root of the updated
set. -/
theorem root_update (hfree : CollisionFree B256) (hA : (A.map Account.id).Nodup)
    (hroot : computeRoot A = .ok root) (h : (⟨accounts, proof⟩ : StateWitness B256).root = .ok root)
    (h' : (⟨accounts', proof⟩ : StateWitness B256).root = .ok root') :
    computeRoot ((A.filter fun a => a.id ∉ proof.leafKeys) ++ accounts') = .ok root' := by
  simp only [StateWitness.root, Outcome.mapError_eq_ok] at h h'
  exact computeRootFromProof_update hfree hA (h.trans hroot.symm) h'

/-- The accounts of an accepted witness have distinct ids, all of them listed. -/
theorem root_eq_ok {self : StateWitness B256} (h : self.root = .ok root) :
    (self.accounts.map Account.id).Nodup ∧
      ∀ a ∈ self.accounts, a.id ∈ self.multiproof.leafKeys := by
  simp only [StateWitness.root, Outcome.mapError_eq_ok] at h
  rcases computeRootFromProof_eq_ok_iff.mp h with ⟨_, vs, hperm, hsorted, hkeys, _⟩
  refine ⟨(hperm.map Account.id).nodup_iff.mp hsorted.nodup_map, fun a ha => ?_⟩
  exact hkeys a (hperm.mem_iff.mpr ha)

end StateWitness

end ZkClob
