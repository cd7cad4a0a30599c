import ZkClob.Settlement.Settle

/-!
# State transitions

An accepted batch turns the account set committed by its old root into the one
committed by its new root.  The guest never sees the accounts outside the witness;
without collisions the roots still fix what happens to all of them.

Main results:

- Theorem {lit}`Settlement.witness_perm`: the witness holds exactly the listed accounts
  of the committed set.
- Theorem {lit}`Settlement.nextState_root`: the new root commits the set in which the
  accounts of the output replace those of the witness.
- Theorems {lit}`Settlement.holding_nextState` and {lit}`Settlement.nonceOf_nextState`:
  balances and nonces of the new set against the old one.
-/

namespace ZkClob

open Foundations Patricia

variable {B256 : Type} [Sha256 B256]

/-- An account set that a root commits. -/
structure Commits (accounts : List Account) (root : B256) : Prop where
  nodup : (accounts.map Account.id).Nodup
  root_eq : computeRoot accounts = .ok root

/-- Two sets committed by one root have the same accounts. -/
theorem Commits.perm (hfree : CollisionFree B256) {A A' : List Account} {root : B256}
    (h : Commits A root) (h' : Commits A' root) : A.Perm A' :=
  perm_of_computeRoot_eq hfree Account.updateHash_injective h.nodup h'.nodup
    (h.root_eq.trans h'.root_eq.symm)

/-- A computed root commits its accounts. -/
theorem Commits.of_computeRoot {A : List Account} {root : B256} (h : computeRoot A = .ok root) :
    Commits A root := by
  refine ⟨?_, h⟩
  simp only [computeRoot, Outcome.bind_eq_ok] at h
  rcases h with ⟨l, hl, _⟩
  rcases sorted_eq_ok_iff.mp hl with ⟨hperm, hsorted⟩
  exact (hperm.map Account.id).nodup_iff.mp hsorted.nodup_map

/-- The account set after a batch: the accounts of the output in the place of those that
the proof lists. -/
def nextState (A : List Account) (input : BatchInput B256) (output : BatchOutput B256) :
    List Account :=
  (A.filter fun a => a.id ∉ input.state.multiproof.leafKeys) ++ output.updatedAccounts

namespace Settlement

variable [Secp256k1 B256] {input : BatchInput B256} {output : BatchOutput B256} {A : List Account}

/-- The witness holds exactly the listed accounts of the committed set. -/
theorem witness_perm (hfree : CollisionFree B256) (s : Settlement input output)
    (hA : Commits A input.expectedOldStateRoot) :
    input.state.accounts.Perm (A.filter fun a => a.id ∈ input.state.multiproof.leafKeys) :=
  StateWitness.root_membership hfree hA.nodup hA.root_eq s.oldRoot

/-- The committed set is the witness with the accounts that are not listed. -/
theorem split_perm (hfree : CollisionFree B256) (s : Settlement input output)
    (hA : Commits A input.expectedOldStateRoot) :
    A.Perm ((A.filter fun a => a.id ∉ input.state.multiproof.leafKeys) ++
      input.state.accounts) := by
  have hsplit := (List.filter_append_perm
    (fun a : Account => decide (a.id ∉ input.state.multiproof.leafKeys)) A).symm
  refine hsplit.trans (List.Perm.append_left _ ?_)
  have hwitness := (s.witness_perm hfree hA).symm
  simpa only [decide_not, Bool.not_not] using hwitness

/-- The new root commits the next state. -/
theorem nextState_root (hfree : CollisionFree B256) (s : Settlement input output)
    (hA : Commits A input.expectedOldStateRoot) :
    Commits (nextState A input output) output.publicOutput.newStateRoot :=
  Commits.of_computeRoot (StateWitness.root_update hfree hA.nodup hA.root_eq s.oldRoot s.newRoot)

/-- The accounts after a batch: those before it, and those that a deposit created. -/
theorem mem_nextState_ids (hfree : CollisionFree B256) (s : Settlement input output)
    (hA : Commits A input.expectedOldStateRoot) (id : AccountId) :
    id ∈ (nextState A input output).map Account.id ↔
      id ∈ A.map Account.id ∨ id ∈ input.deposits.map Deposit.account := by
  rw [((s.split_perm hfree hA).map Account.id).mem_iff, nextState, List.map_append, List.map_append,
    List.mem_append, List.mem_append, s.mem_updated_ids, or_assoc]

/-- The accounts of the output are listed in the proof. -/
theorem mem_leafKeys (s : Settlement input output) {id : AccountId}
    (h : id ∈ output.updatedAccounts.map Account.id) : id ∈ input.state.multiproof.leafKeys := by
  rcases List.mem_map.mp h with ⟨account, haccount, rfl⟩
  exact (StateWitness.root_eq_ok s.newRoot).2 account haccount

/-- For a listed id the witness says all that the committed set does. -/
theorem tally_witness (hfree : CollisionFree B256) (s : Settlement input output)
    (hA : Commits A input.expectedOldStateRoot) {id : AccountId}
    (hid : id ∈ input.state.multiproof.leafKeys) (f : Account → Nat) :
    tally (fun a => a.id = id) f A = tally (fun a => a.id = id) f input.state.accounts := by
  have hzero : tally (fun a => a.id = id) f
      (A.filter fun a => a.id ∉ input.state.multiproof.leafKeys) = 0 := by
    refine tally_eq_zero fun a ha => decide_eq_false ?_
    rintro rfl
    exact of_decide_eq_true (List.mem_filter.mp ha).2 hid
  rw [tally_perm (s.split_perm hfree hA), tally_append, hzero, Nat.zero_add]

/-- What is not listed stays; the rest changes with the ledger of the batch. -/
theorem holding_nextState (hfree : CollisionFree B256) (s : Settlement input output)
    (hA : Commits A input.expectedOldStateRoot) (id : AccountId) (asset : AssetId) :
    holding (nextState A input output) id asset + holding input.state.accounts id asset =
      holding A id asset + holding output.updatedAccounts id asset := by
  rw [holding_perm (s.split_perm hfree hA), nextState, holding_append, holding_append]
  omega

/-- The nonces after a batch: one more for every operation. -/
theorem nonceOf_nextState (hfree : CollisionFree B256) (s : Settlement input output)
    (hA : Commits A input.expectedOldStateRoot) (id : AccountId) :
    nonceOf (nextState A input output) id =
      nonceOf A id + (noncesOf input.orders input.withdrawals id).length := by
  have hnext := s.nonceOf_eq id
  rw [nonceOf_eq_tally s.updated_canonical.sorted.nodup_map,
    nonceOf_eq_tally s.canonical.sorted.nodup_map] at hnext
  rw [nonceOf_eq_tally (s.nextState_root hfree hA).nodup, nonceOf_eq_tally hA.nodup,
    tally_perm (s.split_perm hfree hA), nextState, tally_append, tally_append, hnext, Nat.add_assoc]

/-- A batch uses exactly the nonces from the next nonce of the committed set on: an account
with operations is in the witness or created by a deposit. -/
theorem nonces_perm_of_commits (hfree : CollisionFree B256) (s : Settlement input output)
    (hA : Commits A input.expectedOldStateRoot) (id : AccountId) :
    (noncesOf input.orders input.withdrawals id).Perm
      (List.range' (nonceOf A id) (noncesOf input.orders input.withdrawals id).length) := by
  by_cases hmem : id ∈ output.updatedAccounts.map Account.id
  · have hnonce : nonceOf A id = nonceOf input.state.accounts id := by
      rw [nonceOf_eq_tally hA.nodup, nonceOf_eq_tally s.canonical.sorted.nodup_map,
        s.tally_witness hfree hA (s.mem_leafKeys hmem)]
    rw [hnonce]
    exact s.nonces_perm id
  · rw [s.updated_ids] at hmem
    rw [noncesOf_eq_nil hmem (fun o ho => (s.validOrders o ho).indexed)
      (fun w hw => (s.validWithdrawals w hw).indexed)]
    exact List.Perm.refl _

end Settlement

end ZkClob
