import Mathlib.Data.List.Basic
import Mathlib.Order.Lattice

/-!
# Ordered maps and sets

A {lit}`BTreeMap` is modelled by its entries in increasing key order.  The order
is part of the structure, so every map that can be built iterates in key order
and holds each key once.

Main results:

- Theorems {lit}`OrderedMap.get_insert` and {lit}`OrderedMap.get_erase`: an
  update changes the value of one key.
- Theorem {lit}`OrderedMap.isEmpty_iff`: a map is empty when no key has a value.
- Theorem {lit}`OrderedMap.mem_keys`: the keys of a map are those that have a
  value.
-/

namespace Foundations

/-- A finite map with its entries in strictly increasing key order. -/
structure OrderedMap (κ ν : Type) [LinearOrder κ] where
  entries : List (κ × ν)
  sorted : entries.Pairwise fun a b => a.1 < b.1

namespace OrderedMap

variable {κ ν : Type} [LinearOrder κ]

/-- {lit}`BTreeMap::new`. -/
def empty : OrderedMap κ ν := ⟨[], List.Pairwise.nil⟩

instance : Inhabited (OrderedMap κ ν) := ⟨empty⟩

/-- The value of a key in a sequence of entries. -/
def lookup (k : κ) : List (κ × ν) → Option ν
  | [] => none
  | e :: l => if e.1 = k then some e.2 else lookup k l

/-- {lit}`BTreeMap::get`. -/
def get (m : OrderedMap κ ν) (k : κ) : Option ν :=
  lookup k m.entries

/-- {lit}`BTreeMap::contains_key`. -/
def contains (m : OrderedMap κ ν) (k : κ) : Bool :=
  (m.get k).isSome

/-- {lit}`BTreeMap::len`. -/
def len (m : OrderedMap κ ν) : Nat :=
  m.entries.length

/-- {lit}`BTreeMap::is_empty`. -/
def isEmpty (m : OrderedMap κ ν) : Bool :=
  m.entries.isEmpty

/-- {lit}`BTreeMap::keys`, in increasing order. -/
def keys (m : OrderedMap κ ν) : List κ :=
  m.entries.map Prod.fst

/-- Insert or replace one entry, keeping the key order. -/
def insertEntry (k : κ) (v : ν) : List (κ × ν) → List (κ × ν)
  | [] => [(k, v)]
  | e :: l =>
      if k < e.1 then (k, v) :: e :: l
      else if e.1 = k then (k, v) :: l
      else e :: insertEntry k v l

theorem mem_insertEntry {k : κ} {v : ν} {l : List (κ × ν)} {e : κ × ν}
    (h : e ∈ insertEntry k v l) : e = (k, v) ∨ e ∈ l := by
  induction l with
  | nil => simpa [insertEntry] using h
  | cons d l ih =>
      simp only [insertEntry] at h
      split at h
      · simpa using h
      · split at h
        · rcases List.mem_cons.mp h with h | h
          · exact Or.inl h
          · exact Or.inr (List.mem_cons_of_mem d h)
        · rcases List.mem_cons.mp h with h | h
          · exact Or.inr (h ▸ List.mem_cons_self)
          · rcases ih h with h | h
            · exact Or.inl h
            · exact Or.inr (List.mem_cons_of_mem d h)

theorem pairwise_insertEntry {k : κ} {v : ν} {l : List (κ × ν)}
    (h : l.Pairwise fun a b => a.1 < b.1) :
    (insertEntry k v l).Pairwise fun a b => a.1 < b.1 := by
  induction l with
  | nil => simp [insertEntry]
  | cons e l ih =>
      rcases List.pairwise_cons.mp h with ⟨he, hl⟩
      simp only [insertEntry]
      split <;> rename_i hlt
      · refine List.pairwise_cons.mpr ⟨?_, h⟩
        intro d hd
        rcases List.mem_cons.mp hd with rfl | hd
        · exact hlt
        · exact hlt.trans (he d hd)
      · split <;> rename_i heq
        · exact List.pairwise_cons.mpr ⟨fun d hd => heq ▸ he d hd, hl⟩
        · refine List.pairwise_cons.mpr ⟨?_, ih hl⟩
          intro d hd
          rcases mem_insertEntry hd with rfl | hd
          · exact lt_of_le_of_ne (le_of_not_gt hlt) heq
          · exact he d hd

/-- {lit}`BTreeMap::insert`. -/
def insert (m : OrderedMap κ ν) (k : κ) (v : ν) : OrderedMap κ ν :=
  ⟨insertEntry k v m.entries, pairwise_insertEntry m.sorted⟩

/-- {lit}`BTreeMap::remove`. -/
def erase (m : OrderedMap κ ν) (k : κ) : OrderedMap κ ν :=
  ⟨m.entries.filter fun e => !decide (e.1 = k), m.sorted.filter _⟩

/-! ## Reading after writing -/

theorem lookup_insertEntry (k j : κ) (v : ν) (l : List (κ × ν)) :
    lookup j (insertEntry k v l) = if j = k then some v else lookup j l := by
  induction l with
  | nil =>
      by_cases h : j = k
      · simp [insertEntry, lookup, h]
      · simp [insertEntry, lookup, h, Ne.symm h]
  | cons e l ih =>
      simp only [insertEntry]
      split <;> rename_i hlt
      · by_cases h : j = k
        · simp [lookup, h]
        · simp [lookup, h, Ne.symm h]
      · split <;> rename_i heq
        · by_cases h : j = k
          · simp [lookup, h]
          · have hne : e.1 ≠ j := fun hej => h (hej.symm.trans heq)
            simp [lookup, h, Ne.symm h, hne]
        · by_cases hej : e.1 = j
          · have hne : j ≠ k := fun hjk => heq (hej.trans hjk)
            simp [lookup, hej, hne]
          · simp [lookup, hej, ih]

@[simp]
theorem get_empty (k : κ) : (empty : OrderedMap κ ν).get k = none := rfl

/-- Inserting changes the value of the inserted key only. -/
theorem get_insert (m : OrderedMap κ ν) (k j : κ) (v : ν) :
    (m.insert k v).get j = if j = k then some v else m.get j :=
  lookup_insertEntry k j v m.entries

theorem lookup_filter_ne (k j : κ) (l : List (κ × ν)) :
    lookup j (l.filter fun e => !decide (e.1 = k)) = if j = k then none else lookup j l := by
  induction l with
  | nil => simp [lookup]
  | cons e l ih =>
      by_cases hek : e.1 = k
      · by_cases h : j = k
        · subst h
          simpa [hek] using ih
        · have hne : ¬ e.1 = j := fun hej => h (hej.symm.trans hek)
          have hkj : ¬ k = j := fun hkj => h hkj.symm
          simp [hek, ih, h, lookup, hkj]
      · by_cases hej : e.1 = j
        · have hjk : ¬ j = k := fun hjk => hek (hej.trans hjk)
          simp [lookup, hej, hjk]
        · simp [hek, lookup, hej, ih]

/-- Erasing removes the value of the erased key only. -/
theorem get_erase (m : OrderedMap κ ν) (k j : κ) :
    (m.erase k).get j = if j = k then none else m.get j :=
  lookup_filter_ne k j m.entries

theorem lookup_eq_some {l : List (κ × ν)} (hl : l.Pairwise fun a b => a.1 < b.1)
    {k : κ} {v : ν} : lookup k l = some v ↔ (k, v) ∈ l := by
  induction l with
  | nil => simp [lookup]
  | cons e l ih =>
      rcases List.pairwise_cons.mp hl with ⟨he, htail⟩
      rcases e with ⟨ek, ev⟩
      by_cases hek : ek = k
      · subst hek
        have hnot : (ek, v) ∉ l := fun hmem => (he _ hmem).ne rfl
        simp only [lookup, if_true, Option.some.injEq, List.mem_cons, Prod.mk.injEq, true_and, hnot,
          or_false]
        exact eq_comm
      · simp [lookup, hek, ih htail, Ne.symm hek]

/-- A key has a value exactly when the entry is in the map. -/
theorem get_eq_some {m : OrderedMap κ ν} {k : κ} {v : ν} :
    m.get k = some v ↔ (k, v) ∈ m.entries :=
  lookup_eq_some m.sorted

theorem mem_keys {m : OrderedMap κ ν} {k : κ} : k ∈ m.keys ↔ (m.get k).isSome := by
  rw [Option.isSome_iff_exists]
  simp only [get_eq_some, keys, List.mem_map, Prod.exists, exists_and_right, exists_eq_right]

/-- The keys are listed in strictly increasing order. -/
theorem keys_sorted (m : OrderedMap κ ν) : m.keys.Pairwise (· < ·) :=
  List.pairwise_map.mpr m.sorted

/-- No key is listed twice. -/
theorem keys_nodup (m : OrderedMap κ ν) : m.keys.Nodup :=
  m.keys_sorted.imp fun hlt => hlt.ne

/-- A map is empty when no key has a value. -/
theorem isEmpty_iff {m : OrderedMap κ ν} : m.isEmpty = true ↔ ∀ k, m.get k = none := by
  rcases m with ⟨entries, sorted⟩
  cases entries with
  | nil => simp [isEmpty, get, lookup]
  | cons e l =>
      simp only [isEmpty, List.isEmpty_cons, Bool.false_eq_true, false_iff, not_forall]
      exact ⟨e.1, by simp [get, lookup]⟩

theorem length_insertEntry_le (k : κ) (v : ν) (l : List (κ × ν)) :
    (insertEntry k v l).length ≤ l.length + 1 := by
  induction l with
  | nil => simp [insertEntry]
  | cons e l ih =>
      simp only [insertEntry]
      split
      · simp
      · split
        · simp
        · simpa using ih

/-- An insertion adds at most one entry. -/
theorem len_insert_le (m : OrderedMap κ ν) (k : κ) (v : ν) : (m.insert k v).len ≤ m.len + 1 :=
  length_insertEntry_le k v m.entries

theorem length_insertEntry_of_lookup {k : κ} {v : ν} {l : List (κ × ν)}
    (hl : l.Pairwise fun a b => a.1 < b.1) (h : (lookup k l).isSome) :
    (insertEntry k v l).length = l.length := by
  induction l with
  | nil => simp [lookup] at h
  | cons e l ih =>
      rcases List.pairwise_cons.mp hl with ⟨he, htail⟩
      simp only [insertEntry]
      by_cases hek : e.1 = k
      · simp [hek]
      · simp only [lookup, hek, if_false] at h
        have hlt : ¬ k < e.1 := by
          rcases Option.isSome_iff_exists.mp h with ⟨v', hv'⟩
          exact (he _ ((lookup_eq_some htail).mp hv')).not_gt
        simp [hek, hlt, ih htail h]

/-- Inserting a key that is there adds no entry. -/
theorem len_insert_of_contains {m : OrderedMap κ ν} {k : κ} {v : ν} (h : m.contains k = true) :
    (m.insert k v).len = m.len :=
  length_insertEntry_of_lookup m.sorted h

end OrderedMap

/-! ## Sets -/

/-- A {lit}`BTreeSet`: an ordered map to the one-element type. -/
abbrev OrderedSet (κ : Type) [LinearOrder κ] := OrderedMap κ Unit

namespace OrderedSet

variable {κ : Type} [LinearOrder κ]

/-- {lit}`BTreeSet::insert`. -/
def add (s : OrderedSet κ) (k : κ) : OrderedSet κ :=
  s.insert k ()

theorem contains_iff {s : OrderedSet κ} {k : κ} : s.contains k = true ↔ k ∈ s.keys :=
  OrderedMap.mem_keys.symm

/-- Adding a key adds exactly that key. -/
theorem mem_keys_add {s : OrderedSet κ} {k j : κ} :
    j ∈ (add s k).keys ↔ j = k ∨ j ∈ s.keys := by
  rw [OrderedMap.mem_keys, OrderedMap.mem_keys, add, OrderedMap.get_insert]
  by_cases h : j = k <;> simp [h]

/-- A new key is one more key. -/
theorem keys_add_perm {s : OrderedSet κ} {k : κ} (h : k ∉ s.keys) :
    (add s k).keys.Perm (k :: s.keys) := by
  have hnext := List.nodup_cons.mpr ⟨h, OrderedMap.keys_nodup s⟩
  apply (List.perm_ext_iff_of_nodup (OrderedMap.keys_nodup _) hnext).mpr
  intro j
  rw [mem_keys_add, List.mem_cons]

end OrderedSet

end Foundations
