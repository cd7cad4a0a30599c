import ZkClob.Settlement.LedgerEquation

/-!
# Chains of batches

Batches form a chain through their state roots.  Each batch is checked against its
own witness only; since a root commits one account set, the nonces of an account
still run on from batch to batch without a gap or a repetition.

Main results:

- Theorem {lit}`Chain.exists_final`: a chain takes a committed account set to a
  committed account set.
- Theorem {lit}`nonces_consecutive`: over a chain the operations of every account use
  exactly the consecutive nonces from its next nonce on.
-/

namespace ZkClob

open Foundations Patricia

variable {B256 : Type} [Sha256 B256] [Secp256k1 B256] [DecidableEq B256]

/-- Accepted batches, each starting from the root at which the one before it ended. -/
inductive Chain : B256 → List (BatchInput B256 × BatchOutput B256) → B256 → Prop
  | nil (root : B256) : Chain root [] root
  | cons {input : BatchInput B256} {output : BatchOutput B256}
      {batches : List (BatchInput B256 × BatchOutput B256)} {root : B256}
      (accepted : settleBatch input = .ok output)
      (rest : Chain output.publicOutput.newStateRoot batches root) :
      Chain input.expectedOldStateRoot ((input, output) :: batches) root

/-- The nonces that the operations of an account use, batch by batch. -/
def chainNonces (batches : List (BatchInput B256 × BatchOutput B256)) (id : AccountId) :
    List (List Nat) :=
  batches.map fun batch => noncesOf batch.1.orders batch.1.withdrawals id

/-- Group after group uses exactly the consecutive numbers from the start on, in some order
within the group. -/
def Consecutive (start : Nat) : List (List Nat) → Prop
  | [] => True
  | group :: groups =>
      group.Perm (List.range' start group.length) ∧ Consecutive (start + group.length) groups

/-- All groups together use each number of a range once. -/
theorem Consecutive.perm_range {start : Nat} {groups : List (List Nat)}
    (h : Consecutive start groups) :
    groups.flatten.Perm (List.range' start groups.flatten.length) := by
  induction groups generalizing start with
  | nil => exact List.Perm.refl _
  | cons group groups ih =>
      rcases h with ⟨hgroup, hgroups⟩
      rw [List.flatten_cons, List.length_append, ← List.range'_append_1]
      exact hgroup.append (ih hgroups)

/-- What a chain does to a committed account set. -/
structure ChainResult (A A' : List Account) (batches : List (BatchInput B256 × BatchOutput B256)) :
    Prop where
  mem_ids : ∀ id, id ∈ A'.map Account.id ↔
    id ∈ A.map Account.id ∨ ∃ batch ∈ batches, id ∈ batch.1.deposits.map Deposit.account
  consecutive : ∀ id, Consecutive (nonceOf A id) (chainNonces batches id)
  nonceOf_eq : ∀ id, nonceOf A' id = nonceOf A id + (chainNonces batches id).flatten.length

/-- A chain takes a committed account set to a committed account set: no account is lost,
and nonces run on. -/
theorem Chain.exists_final (hfree : CollisionFree B256) {root root' : B256}
    {batches : List (BatchInput B256 × BatchOutput B256)} (h : Chain root batches root')
    {A : List Account} (hA : Commits A root) :
    ∃ A', Commits A' root' ∧ ChainResult A A' batches := by
  induction h generalizing A with
  | nil root => exact ⟨A, hA, by simp, fun _ => trivial, fun _ => rfl⟩
  | @cons input output batches root accepted rest ih =>
      rcases exists_settlement accepted with ⟨s⟩
      rcases ih (s.nextState_root hfree hA) with ⟨A', hA', hids, hconsecutive, hnonces⟩
      have hnext := s.nonceOf_nextState hfree hA
      refine ⟨A', hA', fun id => ?_, fun id => ?_, fun id => ?_⟩
      · rw [hids, s.mem_nextState_ids hfree hA, or_assoc]
        simp only [List.exists_mem_cons_iff]
      · refine ⟨s.nonces_perm_of_commits hfree hA id, ?_⟩
        rw [← hnext id]
        exact hconsecutive id
      · rw [hnonces, hnext id, chainNonces, chainNonces, List.map_cons, List.flatten_cons,
          List.length_append, Nat.add_assoc]

/-- Over a chain of accepted batches, the operations of every account use, batch by batch,
exactly the consecutive nonces that start at its next nonce before the chain, each
once; the next nonce after the chain is behind them, in the one account set that the
final root commits. -/
theorem nonces_consecutive (hfree : CollisionFree B256) {root root' : B256}
    {batches : List (BatchInput B256 × BatchOutput B256)} {A : List Account}
    (hA : computeRoot A = .ok root) (hchain : Chain root batches root') (id : AccountId) :
    Consecutive (nonceOf A id) (chainNonces batches id) ∧
      (chainNonces batches id).flatten.Perm
        (List.range' (nonceOf A id) (chainNonces batches id).flatten.length) ∧
      (∃ A' : List Account, computeRoot A' = .ok root') ∧
      ∀ A' : List Account, computeRoot A' = .ok root' →
        nonceOf A' id = nonceOf A id + (chainNonces batches id).flatten.length ∧
        (id ∈ A'.map Account.id ↔ id ∈ A.map Account.id ∨
          ∃ batch ∈ batches, id ∈ batch.1.deposits.map Deposit.account) := by
  rcases hchain.exists_final hfree (Commits.of_computeRoot hA) with
    ⟨A', hA', hids, hconsecutive, hnonces⟩
  refine ⟨hconsecutive id, (hconsecutive id).perm_range, ⟨A', hA'.root_eq⟩, fun A'' hA'' => ?_⟩
  have hcommits := Commits.of_computeRoot hA''
  have hperm := hcommits.perm hfree hA'
  refine ⟨?_, ?_⟩
  · rw [nonceOf_eq_tally hcommits.nodup, tally_perm hperm, ← nonceOf_eq_tally hA'.nodup]
    exact hnonces id
  · rw [(hperm.map Account.id).mem_iff]
    exact hids id

/-- Over the two batches of the small market the seller uses its nonces from three to six, in each
batch one for an order and one for a withdrawal. -/
theorem nonces_consecutive_marketChain :
    ∃ output output', settleBatch openingBatch = .ok output ∧
      settleBatch closingBatch = .ok output' ∧
      ∀ batches, batches = [(openingBatch, output), (closingBatch, output')] →
        chainNonces batches (FixedBytes.replicate 20 2) = [[3, 4], [6, 5]] ∧
        chainNonces batches (FixedBytes.replicate 20 3) = [[0], [1]] ∧
        ∀ id, Consecutive (nonceOf marketAccounts id) (chainNonces batches id) ∧
          (chainNonces batches id).flatten.Perm
            (List.range' (nonceOf marketAccounts id) (chainNonces batches id).flatten.length) ∧
          (∃ A' : List Account, computeRoot A' = .ok output'.publicOutput.newStateRoot) ∧
          ∀ A' : List Account, computeRoot A' = .ok output'.publicOutput.newStateRoot →
            nonceOf A' id = nonceOf marketAccounts id + (chainNonces batches id).flatten.length ∧
            (id ∈ A'.map Account.id ↔ id ∈ marketAccounts.map Account.id ∨
              ∃ batch ∈ batches, id ∈ batch.1.deposits.map Deposit.account) := by
  rcases exists_openingOutput with ⟨output, h, hnext, _⟩
  rcases exists_closingOutput with ⟨output', h'⟩
  have hroot : computeRoot marketAccounts = .ok openingBatch.expectedOldStateRoot := by
    decide +kernel
  have hrest : Chain output.publicOutput.newStateRoot [(closingBatch, output')]
      output'.publicOutput.newStateRoot := by
    rw [hnext]
    exact Chain.cons h' (Chain.nil _)
  refine ⟨output, output', h, h', ?_⟩
  intro batches hbatches
  subst hbatches
  refine ⟨by simp only [chainNonces, List.map_cons, List.map_nil]; decide +kernel,
    by simp only [chainNonces, List.map_cons, List.map_nil]; decide +kernel, ?_⟩
  intro id
  exact nonces_consecutive IdealDigest.collisionFree hroot (Chain.cons h hrest) id

end ZkClob
