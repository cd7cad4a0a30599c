import Mathlib.Order.Defs.LinearOrder
import Mathlib.Order.Basic
import Mathlib.Data.Nat.Find
import Mathlib.Data.Nat.Bitwise
import Mathlib.Data.List.Basic
import Mathlib.Tactic.Ring

/-!
# Keys ordered by their bits

A key of a binary trie has a fixed number of bits, and its order is the
lexicographic order of the bits read from bit zero.  Everything a path-compressed
trie needs about its keys follows from that one law: where two keys first
differ, and what the keys between two given keys have in common.

Main results:

- Theorem {lit}`differingBit_eq_some`: the first differing bit, characterised.
- Theorem {lit}`exists_differingBit_of_lt`: of two ordered keys the smaller one
  has a zero where they first differ.
- Theorem {lit}`AgreeBelow.of_between`: keys between two keys share their common
  prefix.
- Theorem {lit}`bit_mono`: below a common prefix the next bit grows with the key.
- Theorem {lit}`index_lt_index`: the order is that of the numbers with these bits.
-/

namespace Foundations

/-- A linear order that is the lexicographic order of finitely many bits. -/
class BitKey (K : Type) extends LinearOrder K where
  /-- Number of bits of a key. -/
  BITS : Nat
  /-- Bit of a key, bit zero being the most significant. -/
  bit : K → Nat → Bool
  /-- The order compares the first bit in which two keys differ. -/
  lt_iff_bit : ∀ a b : K, a < b ↔
    ∃ d < BITS, (∀ i < d, bit a i = bit b i) ∧ bit a d = false ∧ bit b d = true

namespace BitKey

variable {K : Type} [BitKey K] {a b c x : K} {d e : Nat}

/-- Two keys have the same first `d` bits. -/
def AgreeBelow (d : Nat) (a b : K) : Prop :=
  ∀ i < d, bit a i = bit b i

/-- The first bit in which two keys differ. -/
def differingBit (a b : K) : Option Nat :=
  (List.range (BITS K)).find? fun i => bit a i != bit b i

namespace AgreeBelow

theorem refl (d : Nat) (a : K) : AgreeBelow d a a := fun _ _ => rfl

theorem symm (h : AgreeBelow d a b) : AgreeBelow d b a :=
  fun i hi => (h i hi).symm

theorem trans (hab : AgreeBelow d a b) (hbc : AgreeBelow d b c) : AgreeBelow d a c :=
  fun i hi => (hab i hi).trans (hbc i hi)

theorem mono (h : AgreeBelow d a b) (hed : e ≤ d) : AgreeBelow e a b :=
  fun i hi => h i (Nat.lt_of_lt_of_le hi hed)

end AgreeBelow

/-- A zero against a one after a common prefix decides the order. -/
theorem lt_of_bit (hd : d < BITS K) (hab : AgreeBelow d a b) (ha : bit a d = false)
    (hb : bit b d = true) : a < b :=
  (lt_iff_bit a b).mpr ⟨d, hd, hab, ha, hb⟩

theorem differingBit_eq_some :
    differingBit a b = some d ↔ d < BITS K ∧ AgreeBelow d a b ∧ bit a d ≠ bit b d := by
  unfold differingBit
  rw [List.find?_range_eq_some]
  simp only [bne_iff_ne, ne_eq, List.mem_range, Bool.not_eq_eq_eq_not, Bool.not_true,
    bne_eq_false_iff_eq]
  constructor
  · rintro ⟨hne, hd, hagree⟩
    exact ⟨hd, hagree, hne⟩
  · rintro ⟨hd, hagree, hne⟩
    exact ⟨hne, hd, hagree⟩

/-- Of two ordered keys the smaller one has a zero where they first differ. -/
theorem exists_differingBit_of_lt (h : a < b) :
    ∃ d, differingBit a b = some d ∧ bit a d = false ∧ bit b d = true := by
  rcases (lt_iff_bit a b).mp h with ⟨d, hd, hagree, ha, hb⟩
  refine ⟨d, differingBit_eq_some.mpr ⟨hd, hagree, ?_⟩, ha, hb⟩
  simp [ha, hb]

theorem differingBit_comm (a b : K) : differingBit a b = differingBit b a := by
  unfold differingBit
  congr 1
  funext i
  exact bne_comm

@[simp]
theorem differingBit_self (a : K) : differingBit a a = none := by
  simp [differingBit]

/-- Only equal keys have no differing bit. -/
theorem differingBit_eq_none : differingBit a b = none ↔ a = b := by
  constructor
  · intro h
    rcases lt_trichotomy a b with hlt | heq | hgt
    · rcases exists_differingBit_of_lt hlt with ⟨d, hd, _⟩
      rw [h] at hd
      cases hd
    · exact heq
    · rcases exists_differingBit_of_lt hgt with ⟨d, hd, _⟩
      rw [differingBit_comm, h] at hd
      cases hd
  · rintro rfl
    exact differingBit_self a

theorem differingBit_lt_bits (h : differingBit a b = some d) : d < BITS K :=
  (differingBit_eq_some.mp h).1

theorem agreeBelow_of_differingBit (h : differingBit a b = some d) : AgreeBelow d a b :=
  (differingBit_eq_some.mp h).2.1

/-- The bits at the first difference, read off the order. -/
theorem bits_of_differingBit (h : differingBit a b = some d) (hab : a < b) :
    bit a d = false ∧ bit b d = true := by
  rcases exists_differingBit_of_lt hab with ⟨e, he, ha, hb⟩
  rw [h, Option.some.injEq] at he
  exact he ▸ ⟨ha, hb⟩

/-- A common prefix followed by a zero against a one locates the difference. -/
theorem differingBit_of_agreeBelow (hd : d < BITS K) (hab : AgreeBelow d a b)
    (ha : bit a d = false) (hb : bit b d = true) : differingBit a b = some d :=
  differingBit_eq_some.mpr ⟨hd, hab, by simp [ha, hb]⟩

/-- A key is smaller exactly when it has a zero where the two first differ. -/
theorem lt_iff_differingBit : a < b ↔
    ∃ d, differingBit a b = some d ∧ bit a d = false ∧ bit b d = true := by
  constructor
  · exact exists_differingBit_of_lt
  · intro h
    obtain ⟨d, hd, ha, hb⟩ := h
    exact lt_of_bit (differingBit_lt_bits hd) (agreeBelow_of_differingBit hd) ha hb

/-- A key agrees with another one up to their first difference and no further. -/
theorem agreeBelow_iff_le (h : differingBit a b = some d) :
    AgreeBelow e a b ↔ e ≤ d := by
  rcases differingBit_eq_some.mp h with ⟨_, hagree, hne⟩
  constructor
  · intro he
    by_contra hlt
    exact hne (he d (by omega))
  · exact hagree.mono

/-- Keys between two keys share the prefix these have in common. -/
theorem AgreeBelow.of_between (h : AgreeBelow d a b) (hd : d ≤ BITS K) (hax : a ≤ x)
    (hxb : x ≤ b) : AgreeBelow d a x := by
  by_contra hnot
  -- the first bit at which `x` leaves the common prefix
  have hex : ∃ i, i < d ∧ bit a i ≠ bit x i := by
    unfold AgreeBelow at hnot
    push Not at hnot
    exact hnot
  rcases Nat.find_spec hex with ⟨hi, hne⟩
  have hbelow : AgreeBelow (Nat.find hex) a x := by
    intro j hj
    have := Nat.find_min hex hj
    push Not at this
    exact this (by omega)
  generalize Nat.find hex = i at hi hne hbelow
  cases hbit : bit a i with
  | true =>
      have hx : bit x i = false := by
        cases hx : bit x i
        · rfl
        · exact absurd (hbit.trans hx.symm) hne
      exact absurd hax (not_le_of_gt (lt_of_bit (by omega) hbelow.symm hx hbit))
  | false =>
      have hx : bit x i = true := by
        cases hx : bit x i
        · exact absurd (hbit.trans hx.symm) hne
        · rfl
      have hb : bit b i = false := (h i hi).symm.trans hbit
      have hbx : AgreeBelow i b x := ((h.mono hi.le).symm).trans hbelow
      exact absurd hxb (not_le_of_gt (lt_of_bit (by omega) hbx hb hx))

/-- After a common prefix the next bit grows with the key. -/
theorem bit_mono (h : AgreeBelow d a b) (hd : d < BITS K) (hab : a ≤ b)
    (ha : bit a d = true) : bit b d = true := by
  cases hb : bit b d with
  | true => rfl
  | false => exact absurd hab (not_le_of_gt (lt_of_bit hd h.symm hb ha))

/-- After a common prefix the next bit shrinks with the key. -/
theorem bit_anti (h : AgreeBelow d a b) (hd : d < BITS K) (hab : a ≤ b)
    (hb : bit b d = false) : bit a d = false := by
  cases ha : bit a d with
  | false => rfl
  | true => exact absurd (bit_mono h hd hab ha) (by simp [hb])

/-! ## The number of a key -/

/-- The number whose binary digits are the bits of a key, most significant first. -/
def index (a : K) : Nat :=
  Nat.ofBits fun i : Fin (BITS K) => bit a (BITS K - 1 - i)

theorem index_lt (a : K) : index a < 2 ^ BITS K :=
  Nat.ofBits_lt_two_pow _

theorem testBit_index (a : K) (hd : d < BITS K) :
    (index a).testBit (BITS K - 1 - d) = bit a d := by
  rw [index, Nat.testBit_ofBits_lt _ _ (by omega)]
  congr 1
  change BITS K - 1 - (BITS K - 1 - d) = d
  omega

/-- Keys are ordered as their numbers are. -/
theorem index_lt_index : index a < index b ↔ a < b := by
  have hlt : ∀ {a b : K}, a < b → index a < index b := by
    intro a b hab
    obtain ⟨d, hd, hagree, ha, hb⟩ := (lt_iff_bit a b).mp hab
    refine Nat.lt_of_testBit (BITS K - 1 - d) ?_ ?_ ?_
    · rw [testBit_index a hd, ha]
    · rw [testBit_index b hd, hb]
    · intro j hj
      by_cases hin : j < BITS K
      · have h := hagree (BITS K - 1 - j) (by omega)
        rw [← testBit_index a (by omega), ← testBit_index b (by omega)] at h
        rwa [show BITS K - 1 - (BITS K - 1 - j) = j by omega] at h
      · rw [index, index, Nat.testBit_ofBits_ge _ _ (by omega),
          Nat.testBit_ofBits_ge _ _ (by omega)]
  constructor
  · intro h
    by_contra hnot
    rcases eq_or_lt_of_le (not_lt.mp hnot) with heq | hba
    · exact absurd h (heq ▸ lt_irrefl _)
    · exact absurd h (hlt hba).not_gt
  · exact hlt

theorem index_injective : Function.Injective (index : K → Nat) := by
  intro a b h
  by_contra hne
  rcases lt_or_gt_of_ne hne with hab | hab
  · exact absurd h (index_lt_index.mpr hab).ne
  · exact absurd h (index_lt_index.mpr hab).ne'

/-- Within a subtree the next bit tells the halves apart. -/
theorem bit_eq_decide {h s : Nat} (hd : d + h + 1 = BITS K) (hs : 2 ^ (h + 1) ∣ s)
    (hle : s ≤ index a) (hlt : index a < s + 2 ^ (h + 1)) :
    bit a d = decide (s + 2 ^ h ≤ index a) := by
  obtain ⟨q, rfl⟩ := hs
  obtain ⟨y, hy⟩ := Nat.exists_eq_add_of_le hle
  have hpow : 2 ^ (h + 1) = 2 * 2 ^ h := by ring
  have hdiv : index a / 2 ^ h = 2 * q + y / 2 ^ h := by
    rw [hy, hpow, show 2 * 2 ^ h * q + y = y + 2 ^ h * (2 * q) by ring,
      Nat.add_mul_div_left _ _ (Nat.two_pow_pos h), Nat.add_comm]
  have hbit : bit a d = (index a).testBit h := by
    rw [← testBit_index a (by omega), show BITS K - 1 - d = h by omega]
  have hlow : y / 2 ^ h < 2 := Nat.div_lt_of_lt_mul (by omega)
  have hiff : 1 ≤ y / 2 ^ h ↔ 2 ^ h ≤ y := Nat.one_le_div_iff (Nat.two_pow_pos h)
  rw [hbit, Nat.testBit_eq_decide_div_mod_eq, hdiv, decide_eq_decide, hy]
  generalize y / 2 ^ h = z at hlow hiff ⊢
  omega

end BitKey

end Foundations
