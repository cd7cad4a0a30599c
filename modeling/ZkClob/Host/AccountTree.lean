import ZkClob.Foundations.OrderedMap
import ZkClob.Settlement.Deposits

/-!
# The account tree of the host

The host keeps the complete account state together with an index of the accounts.
Updates run in place, so a failed update says in which state it leaves the tree.

Main results:

- Theorem {lit}`AccountTree.Reachable.sorted`: in every tree that a run can produce the
  accounts are in strict id order.
-/

namespace ZkClob

open Foundations

/-- Reasons for which the host fails to build a batch or update its tree. -/
inductive BatchBuildError where
  | AccountIndexOverflow
  | ArithmeticOverflow
  | DuplicateAccount (account : AccountId)
  | DuplicateNonce (account : AccountId) (nonce : U64)
  | DuplicateSequence (sequence : U64)
  | DepositCursorOverflow
  | ForcedWithdrawalCursorOverflow
  | InvalidDepositCursor (expected actual : U64)
  | InvalidForcedWithdrawalCursor (expected actual : U64)
  | InvalidNonce (account : AccountId)
  | InvalidStateProof
  | InsufficientBalance (account : AccountId) (asset : AssetId) (available required : U128)
  | OrderIndexOverflow
  | TooManyAccounts
  | TooManyDeposits
  | TooManyOrders
  | TooManyWithdrawals
  | TooManyForcedWithdrawals
  | UnknownAccount (account : AccountId)
  | UnknownAsset (asset : AssetId)
  | UnknownMarket (market : MarketId)
  | ZeroPrice
  | ZeroQuantity
  | ZeroWithdrawalAmount
  | ZeroDepositAmount
  | ZeroForcedWithdrawalAmount
deriving DecidableEq

/-- {lit}`AccountTree`. -/
structure AccountTree where
  state : State
  indices : OrderedMap AccountId U32

namespace AccountTree

/-- One iteration of the loop of {lit}`AccountTree::new`. -/
def indexAccount (state : State) (indices : OrderedMap AccountId U32) (index : Nat) :
    Outcome BatchBuildError (OrderedMap AccountId U32) := do
  let index ← Outcome.okOr (FixedWidth.ofNat? 32 index) .AccountIndexOverflow
  let account ← Outcome.expect (state.account index)
  Outcome.rejectIf (indices.contains account.id) (.DuplicateAccount account.id)
  .ok (indices.insert account.id index)

/-- {lit}`AccountTree::new`. -/
def new (accounts : List Account) : Outcome BatchBuildError AccountTree := do
  let state := State.new accounts
  let indices ← (List.range state.accounts.length).foldlM (indexAccount state) .empty
  .ok ⟨state, indices⟩

/-- {lit}`AccountTree::account`. -/
def account (self : AccountTree) (id : AccountId) : Option Account :=
  (self.indices.get id).bind self.state.account

/-- {lit}`AccountTree::root`: the root of a state with duplicates does not exist. -/
def root {B256 : Type} [Sha256 B256] (self : AccountTree) : Outcome BatchBuildError B256 :=
  match (self.state.root : Outcome SettlementError B256) with
  | .ok root => .ok root
  | .error _ => .error .panic

/-- {lit}`AccountTree::witness`. -/
def witness {B256 : Type} [Sha256 B256] (self : AccountTree) (accountIds : OrderedSet AccountId) :
    Outcome BatchBuildError (StateWitness B256) :=
  Outcome.mapError (fun _ => .InvalidStateProof) (self.state.witnessFor accountIds.keys)

/-- The first loop of {lit}`AccountTree::apply`: the accounts with their current indices. -/
def collectReplacements (indices : OrderedMap AccountId U32) (seen : OrderedSet AccountId) :
    List Account → Outcome BatchBuildError (List (Option U32 × Account))
  | [] => .ok []
  | account :: rest => do
      Outcome.rejectIf (seen.contains account.id) (.DuplicateAccount account.id)
      let replacements ← collectReplacements indices (seen.add account.id) rest
      .ok ((indices.get account.id, account) :: replacements)

/-- The second loop: replace the accounts that have an index, and collect the others. -/
def replaceAccounts (state : State) :
    List (Option U32 × Account) → Outcome BatchBuildError (List Account) × State
  | [] => (.ok [], state)
  | (some index, account) :: rest =>
      let (replaced, state) := state.replaceAccount index account
      if replaced then replaceAccounts state rest
      else (.error (.error (.UnknownAccount account.id)), state)
  | (none, account) :: rest =>
      let (insertions, state) := replaceAccounts state rest
      (insertions.map (account :: ·), state)

/-- The third loop: insert the accounts that are new. -/
def insertAccounts (state : State) : List Account → Outcome BatchBuildError Unit × State
  | [] => (.ok (), state)
  | account :: rest =>
      let (inserted, state) := state.insertAccount account
      if inserted then insertAccounts state rest
      else (.error (.error (.DuplicateAccount account.id)), state)

/-- The last loop: index all accounts anew. -/
def reindex (state : State) (indices : OrderedMap AccountId U32) :
    List Nat → Outcome BatchBuildError Unit × OrderedMap AccountId U32
  | [] => (.ok (), indices)
  | index :: rest =>
      match FixedWidth.ofNat? 32 index with
      | none => (.error (.error .AccountIndexOverflow), indices)
      | some index =>
          match state.account index with
          | none => (.error .panic, indices)
          | some account => reindex state (indices.insert account.id index) rest

/-- {lit}`AccountTree::apply`: the result, and the tree it leaves behind. -/
def apply (self : AccountTree) (updatedAccounts : List Account) :
    Outcome BatchBuildError Unit × AccountTree :=
  match collectReplacements self.indices .empty updatedAccounts with
  | .error e => (.error e, self)
  | .ok replacements =>
      match replaceAccounts self.state replacements with
      | (.error e, state) => (.error e, ⟨state, self.indices⟩)
      | (.ok insertions, state) =>
          match insertAccounts state insertions with
          | (.error e, state) => (.error e, ⟨state, self.indices⟩)
          | (.ok _, state) =>
              let (result, indices) := reindex state .empty (List.range state.accounts.length)
              (result, ⟨state, indices⟩)

/-- The trees of all runs: a new tree after any updates, accepted or failed. -/
inductive Reachable : AccountTree → Prop
  | new {accounts : List Account} {tree : AccountTree} (h : new accounts = .ok tree) :
        Reachable tree
  | apply {tree : AccountTree} (h : Reachable tree) (updatedAccounts : List Account) :
      Reachable (tree.apply updatedAccounts).2

/-! ## The accounts stay in order -/

/-- The accounts of a state in strict id order. -/
def StateSorted (state : State) : Prop :=
  SortedBy Account.id state.accounts

/-- Indexing every account of a state succeeds only when the ids are distinct. -/
theorem indexAccount_foldlM {state : State} {n : Nat} {indices : OrderedMap AccountId U32}
    (h : (List.range n).foldlM (indexAccount state) .empty = .ok indices)
    (hn : n ≤ state.accounts.length) :
    ((state.accounts.take n).map Account.id).Nodup ∧
      ∀ id, (indices.get id).isSome ↔ id ∈ (state.accounts.take n).map Account.id := by
  induction n generalizing indices with
  | zero =>
      simp only [List.range_zero, List.foldlM_nil, Outcome.pure_eq_ok] at h
      subst h
      simp
  | succ n ih =>
      rw [List.range_succ, List.foldlM_append] at h
      simp only [List.foldlM_cons, List.foldlM_nil, Outcome.bind_eq_ok, indexAccount,
        Outcome.okOr_eq_ok, Outcome.expect_eq_ok, Outcome.rejectIf_eq_ok, Outcome.pure_eq_ok,
        Except.ok.injEq, FixedWidth.ofNat?_eq_some] at h
      rcases h with ⟨before, hbefore, _, ⟨index, hindex, account, haccount, _, hnew, rfl⟩, rfl⟩
      rcases ih hbefore (by omega) with ⟨hnodup, hids⟩
      rw [State.account, hindex] at haccount
      have htake : state.accounts.take (n + 1) = state.accounts.take n ++ [account] := by
        rw [List.take_add_one, haccount]
        rfl
      have hfresh : account.id ∉ (state.accounts.take n).map Account.id := by
        rw [← hids]
        exact hnew
      rw [htake, List.map_append, List.map_singleton]
      refine ⟨?_, fun id => ?_⟩
      · rw [List.nodup_append]
        refine ⟨hnodup, List.nodup_singleton _, ?_⟩
        intro a ha b hb heq
        rw [List.mem_singleton.mp hb] at heq
        exact hfresh (heq ▸ ha)
      · rw [OrderedMap.get_insert, List.mem_append, List.mem_singleton, ← hids]
        by_cases hid : id = account.id <;> simp [hid]

/-- A new tree is in order. -/
theorem new_sorted {accounts : List Account} {tree : AccountTree} (h : new accounts = .ok tree) :
    StateSorted tree.state := by
  simp only [new, Outcome.bind_eq_ok, Except.ok.injEq] at h
  rcases h with ⟨indices, hindices, rfl⟩
  rcases indexAccount_foldlM hindices le_rfl with ⟨hnodup, _⟩
  rw [List.take_length] at hnodup
  exact SortedBy.of_nodup (sortByKey_pairwise Account.id accounts) hnodup

/-- A replaced account keeps its id. -/
theorem replaceAccount_ids (state : State) (index : U32) (account : Account) :
    (state.replaceAccount index account).2.accounts.map Account.id =
      state.accounts.map Account.id := by
  unfold State.replaceAccount
  split
  · rfl
  · rename_i existing hexisting
    split
    · rfl
    · rename_i hid
      rcases List.getElem?_eq_some_iff.mp hexisting with ⟨hlt, hget⟩
      have hself := congrArg (List.map Account.id) (List.set_getElem_self hlt)
      rw [List.map_set, hget, not_not.mp hid] at hself
      rw [List.map_set]
      exact hself

theorem replaceAccounts_sorted {state : State} (h : StateSorted state)
    (replacements : List (Option U32 × Account)) :
    StateSorted (replaceAccounts state replacements).2 := by
  induction replacements generalizing state with
  | nil => exact h
  | cons replacement rest ih =>
      rcases replacement with ⟨index, account⟩
      cases index with
      | none => exact ih h
      | some index =>
          have hnext : StateSorted (state.replaceAccount index account).2 :=
            h.of_map_eq (replaceAccount_ids state index account)
          simp only [replaceAccounts]
          split
          · exact ih hnext
          · exact hnext

/-- An inserted account goes to its place. -/
theorem insertAccount_sorted {state : State} (h : StateSorted state) (account : Account) :
    StateSorted (state.insertAccount account).2 := by
  unfold State.insertAccount
  split
  · exact h
  · rename_i index hindex
    rcases h.search_error hindex with ⟨hle, hlow, hhigh⟩
    exact sorted_insert h hle hlow hhigh

theorem insertAccounts_sorted {state : State} (h : StateSorted state) (accounts : List Account) :
    StateSorted (insertAccounts state accounts).2 := by
  induction accounts generalizing state with
  | nil => exact h
  | cons account rest ih =>
      have hnext := insertAccount_sorted h account
      simp only [insertAccounts]
      split
      · exact ih hnext
      · exact hnext

/-- An update keeps the order, whether it succeeds or fails. -/
theorem apply_sorted {tree : AccountTree} (h : StateSorted tree.state)
    (updatedAccounts : List Account) :
    StateSorted (tree.apply updatedAccounts).2.state := by
  unfold apply
  split
  · exact h
  · rename_i replacements _
    have hreplaced := replaceAccounts_sorted h replacements
    split
    · rename_i heq
      rw [heq] at hreplaced
      exact hreplaced
    · rename_i insertions state heq
      rw [heq] at hreplaced
      have hinserted := insertAccounts_sorted hreplaced insertions
      split
      · rename_i heq'
        rw [heq'] at hinserted
        exact hinserted
      · rename_i heq'
        rw [heq'] at hinserted
        exact hinserted

/-- In every tree of a run the accounts are in strict id order. -/
theorem Reachable.sorted {tree : AccountTree} (h : tree.Reachable) : StateSorted tree.state := by
  induction h with
  | new h => exact new_sorted h
  | apply _ updatedAccounts ih => exact apply_sorted ih updatedAccounts

end AccountTree

end ZkClob
