import ZkClob.Contracts.Agreement
import ZkClob.Contracts.Totals
import Mathlib.Algebra.Order.BigOperators.Group.Finset

/-!
# Escapes are sound

The side nodes of an escape are chosen by its sender, and the contract only tests the
bits at which two ranges meet.  Without collisions this is enough: what is joined to the
committed root is a part of the committed tree, so that the leaf at the bottom is one of
its accounts.  Every account escapes at most once, and so all escapes together pay no
more than the committed accounts hold.

Main results:

- Theorem {lit}`PatriciaProof.verifyAccount_sound`: only committed accounts pass the check.
- Theorem {lit}`Contract.escape_sound`: what escapes in a run are committed accounts, once
  each, with their balances.
-/

namespace ZkClob

open Foundations Patricia

/-! ## The membership check -/

namespace PatriciaProof

variable {B256 : Type} [Sha256 B256] [MathLibrary]

/-- Nodes that are joined to a committed tree are its parts. -/
theorem subtree_of_foldNode (hfree : CollisionFree B256) {current : Commitment B256 Address}
    {entry : U256 × SideNode B256} {t : Trie Account}
    (h : foldNode current entry = .ok (commit B256 t)) :
    ∃ s : Trie Account, current = commit B256 s ∧ ∀ a ∈ s.leaves, a ∈ t.leaves := by
  unfold foldNode at h
  split at h
  · rw [combine_eq_ok, branch_eq_ok] at h
    rcases h with ⟨d, _, _, _, _, _, hjoined⟩
    rcases joined_eq_commit hfree hjoined.symm with ⟨e, left, right, rfl, _, hright⟩
    exact ⟨right, hright, fun a ha => List.mem_append_right _ ha⟩
  · rw [combine_eq_ok, branch_eq_ok] at h
    rcases h with ⟨d, _, _, _, _, _, hjoined⟩
    rcases joined_eq_commit hfree hjoined.symm with ⟨e, left, right, rfl, hleft, _⟩
    exact ⟨left, hleft, fun a ha => List.mem_append_left _ ha⟩

/-- What side nodes complete to a committed tree is a part of it, in whatever order they are
joined. -/
theorem subtree_of_fold (hfree : CollisionFree B256) {start : Commitment B256 Address}
    {order : List (U256 × SideNode B256)} {t : Trie Account}
    (h : order.foldlM foldNode start = .ok (commit B256 t)) :
    ∃ s : Trie Account, start = commit B256 s ∧ ∀ a ∈ s.leaves, a ∈ t.leaves := by
  induction order generalizing start with
  | nil =>
      rw [List.foldlM_nil] at h
      cases h
      exact ⟨t, rfl, fun a ha => ha⟩
  | cons entry order ih =>
      rw [List.foldlM_cons, Outcome.bind_eq_ok] at h
      rcases h with ⟨current, hcurrent, h⟩
      rcases ih h with ⟨s, rfl, hleaves⟩
      rcases subtree_of_foldNode hfree hcurrent with ⟨s', hs', hleaves'⟩
      exact ⟨s', hs', fun a ha => hleaves a (hleaves' a ha)⟩

/-- Only the committed accounts pass the check of the contract, with any side nodes. -/
theorem verifyAccount_sound (hfree : CollisionFree B256) {A : List Account} {root : B256}
    (hA : Commits A root) {id : Address} {nextNonce : U64} {balances : List AssetBalance}
    {sides : List (SideNode B256)} (h : verifyAccount id nextNonce balances sides = .ok root) :
    ⟨id, balances, nextNonce⟩ ∈ A := by
  let account : Account := ⟨id, balances, nextNonce⟩
  have haccepted : verifyAccount account.id account.nextNonce account.balances sides = .ok root := h
  rw [verifyAccount_eq_ok] at haccepted
  rcases haccepted with ⟨_, c, order, horder, hroot⟩
  rcases computeRoot_eq B256 hA.nodup with ⟨_, hempty⟩ | ⟨t, _, _, hperm, htree⟩
  · -- the empty set has a root of its own
    rw [hA.root_eq, Except.ok.injEq, hroot] at hempty
    exact absurd hempty.symm (finalize_none_ne_some hfree c)
  · rw [hA.root_eq, Except.ok.injEq, hroot] at htree
    have hc : c = commit B256 t := finalize_injective hfree htree
    have hfold := horder.fold
    rw [hc] at hfold
    rcases subtree_of_fold hfree hfold with ⟨s, hstart, hleaves⟩
    rcases leaf_eq_commit hfree hstart with ⟨value, rfl, _, hvalue⟩
    have haccount : account = value :=
      Account.updateHash_injective (updateHash_eq_of_hash_eq hfree hvalue)
    have hmem : value ∈ t.leaves := hleaves value (by simp [Trie.leaves])
    rw [← haccount] at hmem
    exact hperm.mem_iff.mp hmem

end PatriciaProof

/-! ## Escapes over runs -/

namespace Contract

section

variable {B256 : Type} [Bytes32 B256] [Sha256 B256] [MathLibrary] [ISP1Verifier B256]
  {self : Immutables B256} {world world' : World B256} {ids : List Address}

/-- The accounts that have escaped are marked, escaped once, in escape mode, and were paid what
the committed set says. -/
structure EscapesSound (world : World B256) (ids : List Address) : Prop where
  nodup : ids.Nodup
  marked : ∀ id, world.storage.escaped id = true ↔ id ∈ ids
  inactive : world.storage.escapeMode = false → ids = []
  unpaid : ∀ id ∉ ids, ∀ asset, transferred world .escape id asset = 0
  paid : ∀ A, Commits A world.storage.stateRoot →
    ∀ id ∈ ids, ∀ asset, transferred world .escape id asset = holding A id asset

omit [Bytes32 B256] [MathLibrary] [ISP1Verifier B256] in
/-- What neither escapes nor changes the root. -/
theorem EscapesSound.of_same (h : EscapesSound world ids)
    (hroot : world'.storage.stateRoot = world.storage.stateRoot)
    (hescaped : world'.storage.escaped = world.storage.escaped)
    (hmode : world'.storage.escapeMode = false → world.storage.escapeMode = false)
    (htransfers : ∀ id asset, transferred world' .escape id asset =
      transferred world .escape id asset) :
    EscapesSound world' ids where
  nodup := h.nodup
  marked id := by rw [hescaped, h.marked]
  inactive hinactive := h.inactive (hmode hinactive)
  unpaid id hid asset := by rw [htransfers, h.unpaid id hid]
  paid A hA id hid asset := by
    rw [hroot] at hA
    rw [htransfers, h.paid A hA id hid]

omit [MathLibrary] in
/-- Batches are settled only while nothing has escaped. -/
theorem EscapesSound.settle [DecidableEq B256] (h : EscapesSound world ids) {call : SettleCall B256}
    {output : PublicOutput B256} {cursor : U64}
    (hmade : BatchMade self world world' call output cursor) :
    EscapesSound world' ids := by
  have hids : ids = [] := h.inactive hmade.running
  have hkept := hmade.paid.kept
  subst hids
  refine ⟨h.nodup, ?_, fun _ => rfl, ?_, ?_⟩
  · intro id
    rw [hkept.escaped]
    exact h.marked id
  · intro id hid asset
    rw [hmade.paid.escapes]
    exact h.unpaid id hid asset
  · intro A hA id hid
    cases hid

omit [Bytes32 B256] [ISP1Verifier B256] in
/-- An escape pays a committed account, which had not escaped before. -/
theorem EscapesSound.escape (hfree : CollisionFree B256) (h : EscapesSound world ids) {id : Address}
    {nextNonce : U64} {balances : List AssetBalance}
    {sideNodes : List (PatriciaProof.SideNode B256)}
    (hmade : EscapeMade world world' id nextNonce balances sideNodes) :
    EscapesSound world' (ids ++ [id]) := by
  have hkept := hmade.paid.kept
  have hfresh : id ∉ ids := by
    rw [← h.marked, hmade.first]
    simp
  have htransfers : ∀ party asset, transferred world' .escape party asset =
      transferred world .escape party asset + escapedBalances id balances party asset :=
    hmade.paid.escapes
  refine ⟨?_, ?_, ?_, ?_, ?_⟩
  · apply List.Nodup.append h.nodup (List.nodup_singleton id)
    simpa using hfresh
  · intro party
    rw [hkept.escaped, List.mem_append, List.mem_singleton, ← h.marked]
    by_cases hparty : party = id
    · simp [hparty]
    · simp [hparty]
  · intro hmode
    rw [hkept.escapeMode hmade.active] at hmode
    cases hmode
  · intro party hparty asset
    rw [List.mem_append, List.mem_singleton, not_or] at hparty
    rw [htransfers, h.unpaid party hparty.1, escapedBalances, if_neg (Ne.symm hparty.2)]
  · intro A hA party hparty asset
    have hroot : world'.storage.stateRoot = world.storage.stateRoot := hkept.stateRoot
    rw [hroot] at hA
    rw [htransfers]
    rcases List.mem_append.mp hparty with hparty | hparty
    · have hne : id ≠ party := by
        rintro rfl
        exact hfresh hparty
      rw [h.paid A hA party hparty, escapedBalances, if_neg hne, Nat.add_zero]
    · rw [List.mem_singleton] at hparty
      subst hparty
      have hmem := PatriciaProof.verifyAccount_sound hfree hA hmade.proof
      have hholding := holding_eq_total hA.nodup hmem asset
      rw [h.unpaid _ hfresh, Nat.zero_add, escapedBalances, if_pos rfl, hholding]
      simp only [tally, Account.total, decide_eq_true_eq]
      rfl

/-- A transaction lets accounts escape soundly. -/
theorem Effect.escapesSound [DecidableEq B256] (hfree : CollisionFree B256)
    {calls : List (SettleCall B256)} {escaped : List Address}
    (heffect : Effect self world world' calls escaped) (h : EscapesSound world ids) :
    EscapesSound world' (ids ++ escaped) := by
  cases heffect with
  | undisturbed heffect =>
      rw [List.append_nil]
      have hkept := heffect.kept
      apply h.of_same hkept.stateRoot hkept.escaped hkept.inactive
      intro id asset
      rw [transferred, transferred, heffect.transfers]
  | deposit heffect =>
      rw [List.append_nil]
      have hkept := heffect.kept
      apply h.of_same hkept.stateRoot hkept.escaped hkept.inactive
      intro id asset
      simp [transferred, heffect.transfers]
  | claim heffect =>
      rw [List.append_nil]
      have hkept := heffect.kept
      apply h.of_same hkept.stateRoot hkept.escaped hkept.inactive
      intro id asset
      exact heffect.escapes id asset
  | escape heffect => exact h.escape hfree heffect
  | settle heffect =>
      rw [List.append_nil]
      exact h.settle heffect

/-- In every run the escapes are sound. -/
theorem escapesSound_run [DecidableEq B256] (hfree : CollisionFree B256) (initialStateRoot : B256)
    (initialBatchId : U64) (holdings : Address → U256) (transactions : List (Context × Call B256)) :
    EscapesSound (run self (genesis initialStateRoot initialBatchId holdings) transactions)
      (escapes self (genesis initialStateRoot initialBatchId holdings) transactions) := by
  apply history_invariant (step self) (escapedAccounts self) (P := EscapesSound)
  · intro world ids transaction h
    exact (step_effect self world transaction).escapesSound hfree h
  · refine ⟨List.nodup_nil, ?_, fun _ => rfl, fun _ _ _ => rfl, ?_⟩
    · simp [genesis, initialStorage]
    · intro A _ id hid
      cases hid

/-- In every reachable state only the accounts that the state root commits pass the check of
{lit}`escapeWithdraw`.  Every account escapes at most once, with what the committed set
says, so that escapes pay at most the committed balances. -/
theorem escape_sound [DecidableEq B256] (hfree : CollisionFree B256) (self : Immutables B256)
    (initialStateRoot : B256) (initialBatchId : U64) (holdings : Address → U256)
    (transactions : List (Context × Call B256)) :
    let start := genesis initialStateRoot initialBatchId holdings
    let world := run self start transactions
    (escapes self start transactions).Nodup ∧
      ∀ A : List Account, computeRoot A = .ok world.storage.stateRoot →
        (∀ id nextNonce balances sideNodes,
          PatriciaProof.verifyAccount id nextNonce balances sideNodes =
            .ok world.storage.stateRoot →
            ⟨id, balances, nextNonce⟩ ∈ A) ∧
        (∀ id asset, transferred world .escape id asset =
          if id ∈ escapes self start transactions then holding A id asset else 0) ∧
        ∀ asset, transferredTotal world .escape asset ≤ supply A asset := by
  intro start world
  have h : EscapesSound world (escapes self start transactions) :=
    escapesSound_run hfree initialStateRoot initialBatchId holdings transactions
  refine ⟨h.nodup, fun A hA => ?_⟩
  have hcommits : Commits A world.storage.stateRoot := Commits.of_computeRoot hA
  have hpaid : ∀ id asset, transferred world .escape id asset =
      if id ∈ escapes self start transactions then holding A id asset else 0 := by
    intro id asset
    by_cases hid : id ∈ escapes self start transactions
    · rw [if_pos hid, h.paid A hcommits id hid]
    · rw [if_neg hid, h.unpaid id hid]
  refine ⟨fun id nextNonce balances sideNodes hproof => ?_, hpaid, fun asset => ?_⟩
  · exact PatriciaProof.verifyAccount_sound hfree hcommits hproof
  · rw [transferredTotal_eq_sum, supply_eq_sum_holding]
    apply Finset.sum_le_sum
    intro id _
    rw [hpaid]
    split
    · exact le_rfl
    · exact Nat.zero_le _

end

/-- The user requests a forced withdrawal, which nobody serves, and escapes after the deadline. -/
def testEscape : List (Context × Call IdealDigest) :=
  [(testContext 2 10, .requestForcedWithdrawal (FixedBytes.replicate 20 7) 3),
    (testContext 4 200, .activateEscapeMode),
    (testContext 2 210, .escapeWithdraw (FixedBytes.replicate 20 2) 3
      [⟨FixedBytes.replicate 20 7, 5⟩]
      [(leaf (⟨FixedBytes.replicate 20 1, [], 0⟩ : Account) :
        Commitment IdealDigest Address).toSubtree] fun _ => .delivered [])]

/-- The user of the small exchange escapes with its balance. -/
theorem escape_sound_testEscape :
    let start := genesis testRoot 0 testHoldings
    let world := run testContract start testEscape
    world.storage.escapeMode = true ∧
      escapes testContract start testEscape = [FixedBytes.replicate 20 2] ∧
      transferred world .escape (FixedBytes.replicate 20 2) (FixedBytes.replicate 20 7) =
        if FixedBytes.replicate 20 2 ∈ escapes testContract start testEscape then
          holding testAccounts (FixedBytes.replicate 20 2) (FixedBytes.replicate 20 7) else 0 := by
  intro start world
  have h := escape_sound IdealDigest.collisionFree testContract testRoot 0 testHoldings testEscape
  have hroot : computeRoot testAccounts = .ok world.storage.stateRoot := by decide +kernel
  exact ⟨by decide +kernel, by decide +kernel, (h.2 testAccounts hroot).2.1 _ _⟩

end Contract

end ZkClob
