import ZkClob.Host.AccountTree

/-!
# Updates of the account tree

The tree finds its accounts through an index of their positions.  An update replaces accounts
in place, inserts the new ones, which shifts the positions behind them, and indexes all accounts
anew.  Only the range of the index limits how many accounts there can be.

Main results:

- Theorem {lit}`AccountTree.InUse.coherent`: as long as no call reports an overflow of the index,
  the index names the position of every account.
- Theorem {lit}`AccountTree.Coherent.apply_accounts`: an update leaves exactly the updated accounts
  and those that it does not mention.
- Theorem {lit}`AccountTree.Coherent.apply_ok_iff`: an update of distinct accounts succeeds exactly
  when the index has room for all accounts.
-/

namespace ZkClob

open Foundations

namespace AccountTree

/-! ## The index -/

/-- An index names the positions of the first {lit}`n` ids. -/
def Indexed (ids : List AccountId) (n : Nat) (indices : OrderedMap AccountId U32) : Prop :=
  ∀ id index, indices.get id = some index ↔ index.toNat < n ∧ ids[index.toNat]? = some id

theorem indexed_empty (ids : List AccountId) : Indexed ids 0 .empty := by
  intro id index
  rw [OrderedMap.get_empty]
  simp

/-- The next id takes the next position. -/
theorem Indexed.insert {ids : List AccountId} {n : Nat} {indices : OrderedMap AccountId U32}
    (h : Indexed ids n indices) (hnodup : ids.Nodup) {id : AccountId} {index : U32}
    (hindex : index.toNat = n) (hid : ids[n]? = some id) :
    Indexed ids (n + 1) (indices.insert id index) := by
  intro id' index'
  rw [OrderedMap.get_insert]
  by_cases hsame : id' = id
  · rw [if_pos hsame, Option.some.injEq, hsame]
    constructor
    · rintro rfl
      rw [hindex]
      exact ⟨Nat.lt_succ_self n, hid⟩
    · rintro ⟨_, hat⟩
      have hlt := (List.getElem?_eq_some_iff.mp hat).1
      have hposition := (List.getElem?_inj hlt hnodup).mp (hat.trans hid.symm)
      exact BitVec.eq_of_toNat_eq (hindex.trans hposition.symm)
  · rw [if_neg hsame, h id' index']
    constructor
    · rintro ⟨hlt, hat⟩
      exact ⟨Nat.lt_succ_of_lt hlt, hat⟩
    · rintro ⟨hlt, hat⟩
      refine ⟨?_, hat⟩
      -- the new position belongs to the new id
      rcases Nat.lt_succ_iff_lt_or_eq.mp hlt with hlt | heq
      · exact hlt
      · rw [heq, hid, Option.some.injEq] at hat
        exact absurd hat.symm hsame

/-- The ids that are indexed are those at the indexed positions. -/
theorem Indexed.isNone_iff {ids : List AccountId} {indices : OrderedMap AccountId U32}
    (h : Indexed ids ids.length indices) (hbound : ids.length ≤ 2 ^ 32) {id : AccountId} :
    indices.get id = none ↔ id ∉ ids := by
  constructor
  · intro hnone hmem
    rcases List.mem_iff_getElem?.mp hmem with ⟨n, hn⟩
    have hlt := (List.getElem?_eq_some_iff.mp hn).1
    have hget : indices.get id = some (BitVec.ofNat 32 n) := by
      apply (h id _).mpr
      rw [BitVec.toNat_ofNat, Nat.mod_eq_of_lt (by omega)]
      exact ⟨hlt, hn⟩
    rw [hnone] at hget
    cases hget
  · intro hnot
    cases hget : indices.get id with
    | none => rfl
    | some index => exact absurd (List.mem_of_getElem? ((h id index).mp hget).2) hnot

/-- The loop of {lit}`AccountTree::new` indexes distinct ids as long as the positions fit. -/
theorem exists_indexAccount_foldlM {state : State} (hnodup : (state.accounts.map Account.id).Nodup)
    {n : Nat} (hn : n ≤ state.accounts.length) (hbound : n ≤ 2 ^ 32) :
    ∃ indices, (List.range n).foldlM (indexAccount state) .empty = .ok indices ∧
      Indexed (state.accounts.map Account.id) n indices := by
  induction n with
  | zero => exact ⟨.empty, rfl, indexed_empty _⟩
  | succ n ih =>
      rcases ih (by omega) (by omega) with ⟨indices, hindices, hindexed⟩
      have hlt : n < state.accounts.length := by omega
      let index : U32 := BitVec.ofNat 32 n
      have hindex : index.toNat = n := by
        rw [BitVec.toNat_ofNat, Nat.mod_eq_of_lt (by omega)]
      have hid : (state.accounts.map Account.id)[n]? = some (state.accounts[n]).id := by
        rw [List.getElem?_map, List.getElem?_eq_getElem hlt, Option.map_some]
      have hfresh : indices.get (state.accounts[n]).id = none := by
        cases hget : indices.get (state.accounts[n]).id with
        | none => rfl
        | some other =>
            rcases (hindexed _ _).mp hget with ⟨hbefore, hat⟩
            have hltOther := (List.getElem?_eq_some_iff.mp hat).1
            have hposition := (List.getElem?_inj hltOther hnodup).mp (hat.trans hid.symm)
            omega
      refine ⟨indices.insert (state.accounts[n]).id index, ?_, hindexed.insert hnodup hindex hid⟩
      rw [List.range_succ, List.foldlM_append, hindices, Outcome.ok_bind, List.foldlM_cons]
      have hstep : indexAccount state indices n =
          .ok (indices.insert (state.accounts[n]).id index) := by
        simp only [indexAccount, Outcome.bind_eq_ok, Outcome.okOr_eq_ok, FixedWidth.ofNat?_eq_some,
          Outcome.expect_eq_ok, Outcome.rejectIf_eq_ok]
        refine ⟨index, hindex, state.accounts[n], ?_, (), ?_, rfl⟩
        · rw [State.account, hindex, List.getElem?_eq_getElem hlt]
        · rw [OrderedMap.contains, hfresh]
          simp
      rw [hstep]
      rfl

/-- The last loop of {lit}`AccountTree::apply` indexes all accounts when their positions fit. -/
theorem exists_reindex {state : State} (hnodup : (state.accounts.map Account.id).Nodup) {k n : Nat}
    {indices : OrderedMap AccountId U32} (hlength : k + n = state.accounts.length)
    (hfits : k + n ≤ 2 ^ 32) (h : Indexed (state.accounts.map Account.id) k indices) :
    ∃ indices', reindex state indices (List.range' k n) = (.ok (), indices') ∧
      Indexed (state.accounts.map Account.id) (k + n) indices' := by
  induction n generalizing k indices with
  | zero => exact ⟨indices, rfl, h⟩
  | succ n ih =>
      have hlt : k < state.accounts.length := by omega
      have hindex : (BitVec.ofNat 32 k).toNat = k := by
        rw [BitVec.toNat_ofNat, Nat.mod_eq_of_lt (by omega)]
      have haccount : state.accounts[k]? = some state.accounts[k] := List.getElem?_eq_getElem hlt
      have hid : (state.accounts.map Account.id)[k]? = some (state.accounts[k]).id := by
        rw [List.getElem?_map, haccount, Option.map_some]
      rcases ih (k := k + 1) (by omega) (by omega) (h.insert hnodup hindex hid) with
        ⟨indices', hrest, hindexed⟩
      refine ⟨indices', ?_, ?_⟩
      · rw [List.range'_succ, reindex, FixedWidth.ofNat?, if_pos (by omega)]
        simp only [State.account, hindex, haccount]
        exact hrest
      · rw [show k + (n + 1) = k + 1 + n by omega]
        exact hindexed

/-- When the positions do not fit, the loop reports the overflow. -/
theorem reindex_overflow {state : State} {k n : Nat} {indices : OrderedMap AccountId U32}
    (hlength : k + n = state.accounts.length) (hk : k ≤ 2 ^ 32) (hover : 2 ^ 32 < k + n) :
    (reindex state indices (List.range' k n)).1 = .error (.error .AccountIndexOverflow) := by
  induction n generalizing k indices with
  | zero => omega
  | succ n ih =>
      rw [List.range'_succ, reindex, FixedWidth.ofNat?]
      by_cases hfits : k < 2 ^ 32
      · rw [if_pos hfits]
        have hindex : (BitVec.ofNat 32 k).toNat = k := by
          rw [BitVec.toNat_ofNat, Nat.mod_eq_of_lt hfits]
        have haccount : state.accounts[k]? = some state.accounts[k] :=
          List.getElem?_eq_getElem (by omega)
        simp only [State.account, hindex, haccount]
        exact ih (by omega) (by omega) (by omega)
      · rw [if_neg hfits]

/-- An account beyond the range of the index gets no position. -/
theorem reindex_get_of_late {state : State} (hnodup : (state.accounts.map Account.id).Nodup)
    {id : AccountId} {position : Nat} (hat : (state.accounts.map Account.id)[position]? = some id)
    (hlate : 2 ^ 32 ≤ position) (indices : OrderedMap AccountId U32) (positions : List Nat) :
    (reindex state indices positions).2.get id = indices.get id := by
  induction positions generalizing indices with
  | nil => rfl
  | cons k positions ih =>
      unfold reindex
      split
      · rfl
      · rename_i index _
        split
        · rfl
        · rename_i account haccount
          rw [ih, OrderedMap.get_insert]
          have hne : id ≠ account.id := by
            intro hsame
            have hother : (state.accounts.map Account.id)[index.toNat]? = some id := by
              rw [List.getElem?_map, show state.accounts[index.toNat]? = some account from haccount,
                Option.map_some, hsame]
            have hlt := (List.getElem?_eq_some_iff.mp hat).1
            have hposition := (List.getElem?_inj hlt hnodup).mp (hat.trans hother.symm)
            have hindex := index.isLt
            omega
          rw [if_neg hne]

/-! ## The loops of an update -/

/-- The accounts with their indices are collected exactly when they are distinct and new. -/
theorem collectReplacements_eq_ok {indices : OrderedMap AccountId U32} {seen : OrderedSet AccountId}
    {updated : List Account} {replacements : List (Option U32 × Account)} :
    collectReplacements indices seen updated = .ok replacements ↔
      (updated.map Account.id).Nodup ∧ (∀ a ∈ updated, a.id ∉ seen.keys) ∧
        replacements = updated.map fun a => (indices.get a.id, a) := by
  induction updated generalizing seen replacements with
  | nil =>
      simp [collectReplacements, eq_comm]
  | cons account updated ih =>
      simp only [collectReplacements, Outcome.bind_eq_ok, Outcome.rejectIf_eq_ok, ih,
        OrderedSet.contains_iff, Except.ok.injEq]
      constructor
      · rintro ⟨_, hfresh, rest, ⟨hnodup, hrest, rfl⟩, rfl⟩
        refine ⟨?_, ?_, rfl⟩
        · rw [List.map_cons, List.nodup_cons]
          refine ⟨?_, hnodup⟩
          intro hmem
          rcases List.mem_map.mp hmem with ⟨a, ha, hid⟩
          exact hrest a ha (OrderedSet.mem_keys_add.mpr (Or.inl hid))
        · intro a ha
          rcases List.mem_cons.mp ha with rfl | ha
          · exact hfresh
          · exact fun hmem => hrest a ha (OrderedSet.mem_keys_add.mpr (Or.inr hmem))
      · rintro ⟨hnodup, hall, rfl⟩
        rw [List.map_cons, List.nodup_cons] at hnodup
        refine ⟨(), hall account (by simp), _, ⟨hnodup.2, ?_, rfl⟩, rfl⟩
        intro a ha hmem
        rcases OrderedSet.mem_keys_add.mp hmem with hid | hmem
        · exact hnodup.1 (hid ▸ List.mem_map_of_mem ha)
        · exact hall a (List.mem_cons_of_mem _ ha) hmem

/-- An update in place: the account takes the place of the one with its id. -/
theorem mem_replaceAccount {state : State} (hnodup : (state.accounts.map Account.id).Nodup)
    {index : U32} {account : Account}
    (hat : (state.accounts.map Account.id)[index.toNat]? = some account.id) :
    (state.replaceAccount index account).1 = true ∧
      ∀ b, b ∈ (state.replaceAccount index account).2.accounts ↔
        b = account ∨ (b ∈ state.accounts ∧ b.id ≠ account.id) := by
  rw [List.getElem?_map, Option.map_eq_some_iff] at hat
  rcases hat with ⟨existing, hexisting, hid⟩
  have hreplaced : state.replaceAccount index account =
      (true, ⟨state.accounts.set index.toNat account⟩) := by
    unfold State.replaceAccount
    rw [hexisting]
    simp [hid]
  rw [hreplaced]
  refine ⟨rfl, ?_⟩
  have hlt := (List.getElem?_eq_some_iff.mp hexisting).1
  have hsplit := eq_take_append_cons_drop hexisting
  intro b
  rw [List.set_eq_take_append_cons_drop, if_pos hlt]
  rw [hsplit, List.map_append, List.map_cons, List.nodup_append, List.nodup_cons] at hnodup
  rcases hnodup with ⟨_, ⟨hafter, _⟩, hcross⟩
  have hbefore : ∀ c ∈ state.accounts.take index.toNat, c.id ≠ account.id := by
    intro c hc
    rw [← hid]
    exact hcross c.id (List.mem_map_of_mem hc) existing.id (by simp)
  have hbehind : ∀ c ∈ state.accounts.drop (index.toNat + 1), c.id ≠ account.id := by
    intro c hc heq
    rw [← hid] at heq
    exact hafter (heq ▸ List.mem_map_of_mem hc)
  have hmem : b ∈ state.accounts ↔ b ∈ state.accounts.take index.toNat ∨ b = existing ∨
      b ∈ state.accounts.drop (index.toNat + 1) := by
    conv_lhs => rw [hsplit]
    rw [List.mem_append, List.mem_cons]
  rw [hmem]
  simp only [List.mem_append, List.mem_cons]
  constructor
  · rintro (hb | rfl | hb)
    · exact Or.inr ⟨Or.inl hb, hbefore b hb⟩
    · exact Or.inl rfl
    · exact Or.inr ⟨Or.inr (Or.inr hb), hbehind b hb⟩
  · rintro (rfl | ⟨hb | rfl | hb, hne⟩)
    · exact Or.inr (Or.inl rfl)
    · exact Or.inl hb
    · exact absurd hid hne
    · exact Or.inr (Or.inr hb)

/-- The accounts that have a position are replaced, and the others are left to be inserted. -/
theorem exists_replaceAccounts {state : State} {ids : List AccountId}
    {indices : OrderedMap AccountId U32} {updated : List Account}
    (hids : state.accounts.map Account.id = ids) (hnodup : ids.Nodup) (hbound : ids.length ≤ 2 ^ 32)
    (hindexed : Indexed ids ids.length indices) (hupdated : (updated.map Account.id).Nodup) :
    ∃ state', replaceAccounts state (updated.map fun a => (indices.get a.id, a)) =
        (.ok (updated.filter fun a => a.id ∉ ids), state') ∧
      state'.accounts.map Account.id = ids ∧
      ∀ b, b ∈ state'.accounts ↔
        (b ∈ updated ∧ b.id ∈ ids) ∨ (b ∈ state.accounts ∧ b.id ∉ updated.map Account.id) := by
  induction updated generalizing state with
  | nil => exact ⟨state, rfl, hids, by simp⟩
  | cons account updated ih =>
      rw [List.map_cons, List.nodup_cons] at hupdated
      rcases hupdated with ⟨hfresh, hupdated⟩
      cases hget : indices.get account.id with
      | none =>
          have hnot : account.id ∉ ids := (hindexed.isNone_iff hbound).mp hget
          rcases ih hids hupdated with ⟨state', hrest, hids', hmem⟩
          refine ⟨state', ?_, hids', ?_⟩
          · rw [List.map_cons, hget, replaceAccounts, hrest,
              List.filter_cons_of_pos (by simpa using hnot)]
            rfl
          · intro b
            rw [hmem b]
            have hstate : b ∈ state.accounts → b.id ≠ account.id := by
              intro hb heq
              exact hnot (heq ▸ hids ▸ List.mem_map_of_mem hb)
            have hself : b = account → b.id ∉ ids := by
              rintro rfl
              exact hnot
            simp only [List.mem_cons, List.map_cons]
            tauto
      | some index =>
          have hat := ((hindexed account.id index).mp hget).2
          rcases mem_replaceAccount (hids ▸ hnodup) (hids ▸ hat) with ⟨hreplaced, hmid⟩
          have hmidIds := (replaceAccount_ids state index account).trans hids
          rcases ih hmidIds hupdated with ⟨state', hrest, hids', hmem⟩
          refine ⟨state', ?_, hids', ?_⟩
          · rw [List.map_cons, hget, replaceAccounts]
            simp only [hreplaced, if_true]
            rw [hrest, List.filter_cons_of_neg (by simpa using List.mem_of_getElem? hat)]
          · intro b
            rw [hmem b, hmid b]
            have hself : b = account → b.id ∈ ids ∧ b.id ∉ updated.map Account.id := by
              rintro rfl
              exact ⟨List.mem_of_getElem? hat, hfresh⟩
            simp only [List.mem_cons, List.map_cons]
            tauto

/-- Distinct new accounts are inserted. -/
theorem exists_insertAccounts {state : State} {insertions : List Account}
    (hsorted : StateSorted state)
    (hnodup : (insertions.map Account.id).Nodup)
    (hnew : ∀ a ∈ insertions, a.id ∉ state.accounts.map Account.id) :
    ∃ state', insertAccounts state insertions = (.ok (), state') ∧ StateSorted state' ∧
      state'.accounts.Perm (insertions ++ state.accounts) := by
  induction insertions generalizing state with
  | nil => exact ⟨state, rfl, hsorted, List.Perm.refl _⟩
  | cons account insertions ih =>
      rw [List.map_cons, List.nodup_cons] at hnodup
      cases hsearch : binarySearchByKey Account.id account.id state.accounts with
      | ok index =>
          rcases hsorted.search_ok_iff.mp hsearch with ⟨found, hfound, hid⟩
          exact absurd (hid ▸ List.mem_map_of_mem (List.mem_of_getElem? hfound))
            (hnew account (by simp))
      | error index =>
          have hinserted : state.insertAccount account =
              (true, ⟨state.accounts.insertIdx index account⟩) := by
            rw [State.insertAccount, hsearch]
          have hmidSorted := insertAccount_sorted hsorted account
          rw [hinserted] at hmidSorted
          have hperm := insertIdx_perm account (hsorted.search_error hsearch).1
          have hmidNew : ∀ a ∈ insertions,
              a.id ∉ (state.accounts.insertIdx index account).map Account.id := by
            intro a ha
            rw [(hperm.map Account.id).mem_iff, List.map_cons, List.mem_cons]
            rintro (heq | hmem)
            · exact hnodup.1 (heq ▸ List.mem_map_of_mem ha)
            · exact hnew a (List.mem_cons_of_mem _ ha) hmem
          rcases ih hmidSorted hnodup.2 hmidNew with ⟨state', hrest, hsorted', hperm'⟩
          refine ⟨state', ?_, hsorted', ?_⟩
          · rw [insertAccounts, hinserted]
            exact hrest
          · exact hperm'.trans ((List.Perm.append_left _ hperm).trans List.perm_middle)

/-! ## Whole updates -/

/-- The index of a tree names the position of every account. -/
structure Coherent (tree : AccountTree) : Prop where
  sorted : StateSorted tree.state
  bounded : tree.state.accounts.length ≤ 2 ^ 32
  indexed : Indexed (tree.state.accounts.map Account.id) tree.state.accounts.length tree.indices

/-- The accounts after an update: the updated ones and those that the update does not mention. -/
def updatedAccounts (tree : AccountTree) (updated : List Account) : List Account :=
  (tree.state.accounts.filter fun a => a.id ∉ updated.map Account.id) ++ updated

variable {tree : AccountTree} {updated : List Account}

theorem updatedAccounts_nodup (hsorted : StateSorted tree.state)
    (hupdated : (updated.map Account.id).Nodup) :
    ((tree.updatedAccounts updated).map Account.id).Nodup := by
  rw [updatedAccounts, List.map_append, List.nodup_append]
  refine ⟨(List.filter_sublist.map Account.id).nodup hsorted.nodup_map, hupdated, ?_⟩
  intro id hid id' hid' heq
  rcases List.mem_map.mp hid with ⟨a, ha, rfl⟩
  exact of_decide_eq_true (List.mem_filter.mp ha).2 (heq ▸ hid')

/-- An update that succeeds mentions every account once. -/
theorem nodup_of_apply (hok : (tree.apply updated).1 = .ok ()) :
    (updated.map Account.id).Nodup := by
  unfold apply at hok
  split at hok
  · cases hok
  · rename_i hcollected
    exact (collectReplacements_eq_ok.mp hcollected).1

namespace Coherent

/-- Lookups in a coherent tree find the accounts of its state. -/
theorem account_eq_some_iff (h : tree.Coherent) {id : AccountId} {account : Account} :
    tree.account id = some account ↔ account ∈ tree.state.accounts ∧ account.id = id := by
  have hbound : (tree.state.accounts.map Account.id).length ≤ 2 ^ 32 := by
    rw [List.length_map]
    exact h.bounded
  have hindexed : Indexed (tree.state.accounts.map Account.id)
      (tree.state.accounts.map Account.id).length tree.indices := by
    rw [List.length_map]
    exact h.indexed
  unfold AccountTree.account
  cases hget : tree.indices.get id with
  | none =>
      have hnot := (hindexed.isNone_iff hbound).mp hget
      simp only [Option.bind_none, reduceCtorEq, false_iff]
      rintro ⟨hmem, rfl⟩
      exact hnot (List.mem_map_of_mem hmem)
  | some index =>
      have hat := ((hindexed id index).mp hget).2
      rw [List.getElem?_map, Option.map_eq_some_iff] at hat
      rcases hat with ⟨found, hfound, hid⟩
      simp only [Option.bind_some, State.account, hfound, Option.some.injEq]
      constructor
      · rintro rfl
        exact ⟨List.mem_of_getElem? hfound, hid⟩
      · rintro ⟨hmem, haccount⟩
        exact h.sorted.eq_of_key_eq (List.mem_of_getElem? hfound) hmem (hid.trans haccount.symm)

/-- An update of distinct accounts changes the state and then indexes all accounts anew. -/
theorem apply_eq (h : tree.Coherent) (hupdated : (updated.map Account.id).Nodup) :
    ∃ state, StateSorted state ∧ state.accounts.Perm (tree.updatedAccounts updated) ∧
      tree.apply updated =
        ((reindex state .empty (List.range state.accounts.length)).1,
          ⟨state, (reindex state .empty (List.range state.accounts.length)).2⟩) := by
  have hnodup := h.sorted.nodup_map
  have hindexed : Indexed (tree.state.accounts.map Account.id)
      (tree.state.accounts.map Account.id).length tree.indices := by
    rw [List.length_map]
    exact h.indexed
  have hbound : (tree.state.accounts.map Account.id).length ≤ 2 ^ 32 := by
    rw [List.length_map]
    exact h.bounded
  have hcollected : collectReplacements tree.indices .empty updated =
      .ok (updated.map fun a => (tree.indices.get a.id, a)) :=
    collectReplacements_eq_ok.mpr ⟨hupdated, by simp [OrderedMap.empty, OrderedMap.keys], rfl⟩
  rcases exists_replaceAccounts rfl hnodup hbound hindexed hupdated with
    ⟨mid, hreplaced, hmidIds, hmid⟩
  have hmidSorted : StateSorted mid := h.sorted.of_map_eq hmidIds
  have hinsertNodup : ((updated.filter fun a =>
      a.id ∉ tree.state.accounts.map Account.id).map Account.id).Nodup :=
    (List.filter_sublist.map Account.id).nodup hupdated
  have hinsertNew : ∀ a ∈ updated.filter fun a => a.id ∉ tree.state.accounts.map Account.id,
      a.id ∉ mid.accounts.map Account.id := by
    intro a ha
    rw [hmidIds]
    exact of_decide_eq_true (List.mem_filter.mp ha).2
  rcases exists_insertAccounts hmidSorted hinsertNodup hinsertNew with
    ⟨state, hinserted, hsorted, hperm⟩
  refine ⟨state, hsorted, ?_, ?_⟩
  · apply (List.perm_ext_iff_of_nodup hsorted.nodup_map.of_map
      (updatedAccounts_nodup h.sorted hupdated).of_map).mpr
    intro b
    rw [hperm.mem_iff, List.mem_append, hmid, List.mem_filter, updatedAccounts, List.mem_append,
      List.mem_filter, decide_eq_true_eq, decide_eq_true_eq]
    tauto
  · unfold apply
    rw [hcollected]
    simp only [hreplaced, hinserted]

/-- The index has room for all accounts exactly when an update of distinct accounts succeeds;
otherwise it reports the overflow. -/
theorem apply_ok_iff (h : tree.Coherent) (hupdated : (updated.map Account.id).Nodup) :
    ((tree.apply updated).1 = .ok () ↔ (tree.updatedAccounts updated).length ≤ 2 ^ 32) ∧
      ((tree.apply updated).1 = .ok () ∨
        (tree.apply updated).1 = .error (.error .AccountIndexOverflow)) := by
  rcases h.apply_eq hupdated with ⟨state, hsorted, hperm, happly⟩
  rw [happly, ← hperm.length_eq, List.range_eq_range']
  by_cases hfits : state.accounts.length ≤ 2 ^ 32
  · rcases exists_reindex hsorted.nodup_map (Nat.zero_add _) (by omega) (indexed_empty _) with
      ⟨indices, hindices, _⟩
    rw [hindices]
    exact ⟨⟨fun _ => hfits, fun _ => rfl⟩, Or.inl rfl⟩
  · have hover : (reindex state .empty (List.range' 0 state.accounts.length)).1 =
        .error (.error .AccountIndexOverflow) :=
      reindex_overflow (Nat.zero_add _) (by omega) (by omega)
    dsimp only
    rw [hover]
    exact ⟨⟨fun hok => (nomatch hok), fun hle => absurd hle hfits⟩, Or.inr rfl⟩

/-- Whether or not the index has room, the state is updated. -/
theorem apply_accounts (h : tree.Coherent) (hupdated : (updated.map Account.id).Nodup) :
    StateSorted (tree.apply updated).2.state ∧
      (tree.apply updated).2.state.accounts.Perm (tree.updatedAccounts updated) := by
  rcases h.apply_eq hupdated with ⟨state, hsorted, hperm, happly⟩
  rw [happly]
  exact ⟨hsorted, hperm⟩

/-- A tree in which all accounts have room is coherent after an update. -/
theorem apply_coherent (h : tree.Coherent) (hok : (tree.apply updated).1 = .ok ()) :
    (tree.apply updated).2.Coherent := by
  have hupdated := nodup_of_apply hok
  have hfits := (h.apply_ok_iff hupdated).1.mp hok
  rcases h.apply_eq hupdated with ⟨state, hsorted, hperm, happly⟩
  rw [← hperm.length_eq] at hfits
  rcases exists_reindex hsorted.nodup_map (Nat.zero_add _) (by omega) (indexed_empty _) with
    ⟨indices, hindices, hindexed⟩
  rw [Nat.zero_add] at hindexed
  rw [happly, List.range_eq_range', hindices]
  exact ⟨hsorted, hfits, hindexed⟩

/-- After a successful update, the mentioned ids have their new accounts and every other id is found
as before. -/
theorem account_apply (h : tree.Coherent) (hok : (tree.apply updated).1 = .ok ()) :
    (∀ a ∈ updated, (tree.apply updated).2.account a.id = some a) ∧
      ∀ id, id ∉ updated.map Account.id → (tree.apply updated).2.account id = tree.account id := by
  have hcoherent' := h.apply_coherent hok
  have hperm := (h.apply_accounts (nodup_of_apply hok)).2
  constructor
  · intro a ha
    rw [hcoherent'.account_eq_some_iff, hperm.mem_iff, updatedAccounts, List.mem_append]
    exact ⟨Or.inr ha, rfl⟩
  · intro id hid
    apply Option.ext
    intro account
    rw [hcoherent'.account_eq_some_iff, h.account_eq_some_iff, hperm.mem_iff, updatedAccounts,
      List.mem_append, List.mem_filter, decide_eq_true_eq]
    constructor
    · rintro ⟨hkept | hnew, rfl⟩
      · exact ⟨hkept.1, rfl⟩
      · exact absurd (List.mem_map_of_mem hnew) hid
    · rintro ⟨hmem, rfl⟩
      exact ⟨Or.inl ⟨hmem, hid⟩, rfl⟩

end Coherent

/-- The trees that the host works with: a new one, and its updates as long as none of them reports
an overflow of the index. -/
inductive InUse : AccountTree → Prop
  | new {accounts : List Account} {tree : AccountTree} (h : new accounts = .ok tree) : InUse tree
  | apply {tree : AccountTree} (h : InUse tree) {updatedAccounts : List Account}
      (hresult : (tree.apply updatedAccounts).1 ≠ .error (.error .AccountIndexOverflow)) :
      InUse (tree.apply updatedAccounts).2

/-- The loop of {lit}`AccountTree::new` succeeds only when the positions fit. -/
theorem le_of_indexAccount_foldlM {state : State} {n : Nat} {indices : OrderedMap AccountId U32}
    (h : (List.range n).foldlM (indexAccount state) .empty = .ok indices) : n ≤ 2 ^ 32 := by
  cases n with
  | zero => omega
  | succ n =>
      rw [List.range_succ, List.foldlM_append] at h
      simp only [List.foldlM_cons, List.foldlM_nil, Outcome.bind_eq_ok, indexAccount,
        Outcome.okOr_eq_ok, FixedWidth.ofNat?_eq_some] at h
      rcases h with ⟨_, _, _, ⟨index, hindex, _⟩, _⟩
      have hlt := index.isLt
      omega

/-- A new tree is coherent. -/
theorem new_coherent {accounts : List Account} (h : new accounts = .ok tree) : tree.Coherent := by
  have hsorted := new_sorted h
  simp only [new, Outcome.bind_eq_ok, Except.ok.injEq] at h
  rcases h with ⟨indices, hindices, rfl⟩
  have hbounded := le_of_indexAccount_foldlM hindices
  rcases exists_indexAccount_foldlM hsorted.nodup_map le_rfl hbounded with
    ⟨indices', hindices', hindexed⟩
  rw [hindices, Except.ok.injEq] at hindices'
  rw [← hindices'] at hindexed
  exact ⟨hsorted, hbounded, hindexed⟩

/-- Distinct accounts whose positions fit make a tree. -/
theorem exists_new {accounts : List Account} (hnodup : (accounts.map Account.id).Nodup)
    (hbounded : accounts.length ≤ 2 ^ 32) :
    ∃ tree, new accounts = .ok tree ∧ tree.state = State.new accounts := by
  have hperm : (State.new accounts).accounts.Perm accounts := sortByKey_perm Account.id accounts
  have hnodup' : ((State.new accounts).accounts.map Account.id).Nodup :=
    (hperm.map Account.id).nodup_iff.mpr hnodup
  rcases exists_indexAccount_foldlM hnodup' le_rfl (hperm.length_eq ▸ hbounded) with
    ⟨indices, hindices, _⟩
  refine ⟨⟨State.new accounts, indices⟩, ?_, rfl⟩
  simp only [new, hindices, Outcome.ok_bind]

/-- An update that mentions an account twice leaves the tree as it was. -/
theorem apply_of_not_nodup (tree : AccountTree) (hupdated : ¬ (updated.map Account.id).Nodup) :
    (tree.apply updated).2 = tree := by
  unfold apply
  split
  · rfl
  · rename_i hcollected
    exact absurd (collectReplacements_eq_ok.mp hcollected).1 hupdated

/-- An update that fails for another reason than the index leaves the tree as it was. -/
theorem Coherent.apply_duplicate (h : tree.Coherent) (hfailed : (tree.apply updated).1 ≠ .ok ())
    (hresult : (tree.apply updated).1 ≠ .error (.error .AccountIndexOverflow)) :
    (tree.apply updated).2 = tree := by
  by_cases hupdated : (updated.map Account.id).Nodup
  · rcases (h.apply_ok_iff hupdated).2 with hok | hover
    · exact absurd hok hfailed
    · exact absurd hover hresult
  · exact apply_of_not_nodup tree hupdated

/-- A new tree that is evaluated. -/
theorem inUse_of_isSome {accounts : List Account} (hok : (new accounts).toOption.isSome = true)
    (default : AccountTree) : ((new accounts).toOption.getD default).InUse := by
  cases hnew : new accounts with
  | error e =>
      rw [hnew] at hok
      cases hok
  | ok tree => exact .new hnew

/-- As long as no call reports an overflow of the index, the index names the position of every
account. -/
theorem InUse.coherent (h : tree.InUse) : tree.Coherent := by
  induction h with
  | new h => exact new_coherent h
  | @apply tree _ updated hresult ih =>
      by_cases hok : (tree.apply updated).1 = .ok ()
      · exact ih.apply_coherent hok
      · rw [ih.apply_duplicate hok hresult]
        exact ih

theorem replaceAccounts_length (state : State) (replacements : List (Option U32 × Account)) :
    (replaceAccounts state replacements).2.accounts.length = state.accounts.length := by
  induction replacements generalizing state with
  | nil => rfl
  | cons replacement rest ih =>
      rcases replacement with ⟨index, account⟩
      cases index with
      | none => exact ih state
      | some index =>
          have hone := congrArg List.length (replaceAccount_ids state index account)
          rw [List.length_map, List.length_map] at hone
          simp only [replaceAccounts]
          split
          · rw [ih, hone]
          · exact hone

theorem insertAccounts_length (state : State) (accounts : List Account) :
    state.accounts.length ≤ (insertAccounts state accounts).2.accounts.length := by
  induction accounts generalizing state with
  | nil => exact le_rfl
  | cons account rest ih =>
      have hone : state.accounts.length ≤ (state.insertAccount account).2.accounts.length := by
        unfold State.insertAccount
        split
        · exact le_rfl
        · rename_i index hindex
          rw [List.length_insertIdx]
          split
          · exact Nat.le_succ _
          · exact le_rfl
      simp only [insertAccounts]
      split
      · exact hone.trans (ih _)
      · exact hone

/-- No update removes an account, whether it succeeds or fails. -/
theorem apply_length (tree : AccountTree) (updated : List Account) :
    tree.state.accounts.length ≤ (tree.apply updated).2.state.accounts.length := by
  unfold apply
  split
  · exact le_rfl
  · rename_i replacements _
    have hreplaced := replaceAccounts_length tree.state replacements
    split
    · rename_i heq
      rw [heq] at hreplaced
      exact hreplaced.ge
    · rename_i insertions state heq
      rw [heq] at hreplaced
      have hinserted := insertAccounts_length state insertions
      rw [hreplaced] at hinserted
      split
      · rename_i heq'
        rw [heq'] at hinserted
        exact hinserted
      · rename_i heq'
        rw [heq'] at hinserted
        exact hinserted

/-- In every run, a tree whose accounts fit the index has an index that names the position of every
account. -/
theorem Reachable.coherent (h : tree.Reachable) (hbounded : tree.state.accounts.length ≤ 2 ^ 32) :
    tree.Coherent := by
  induction h with
  | new h => exact new_coherent h
  | @apply tree _ updated ih =>
      have hcoherent := ih ((apply_length tree updated).trans hbounded)
      by_cases hupdated : (updated.map Account.id).Nodup
      · have hperm := (hcoherent.apply_accounts hupdated).2
        rw [hperm.length_eq] at hbounded
        exact hcoherent.apply_coherent ((hcoherent.apply_ok_iff hupdated).1.mpr hbounded)
      · rw [apply_of_not_nodup tree hupdated]
        exact hcoherent

/-- The trees in use are among those of all runs. -/
theorem InUse.reachable (h : tree.InUse) : tree.Reachable := by
  induction h with
  | new h => exact .new h
  | apply _ _ ih => exact ih.apply _

end AccountTree

end ZkClob
