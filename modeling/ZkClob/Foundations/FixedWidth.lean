import Mathlib.Algebra.Group.Nat.Defs
import Mathlib.Data.List.Basic

/-!
# Checked arithmetic on fixed-width unsigned integers

Unsigned machine integers are bit vectors.  The checked operations return
{lit}`none` exactly when the mathematical result does not fit, so each of them
is characterised by one equation between natural numbers.
-/

namespace Foundations

/-- Unsigned integers of eight, sixteen, thirty-two, sixty-four, 128 and 256 bits. -/
abbrev U8 := BitVec 8
abbrev U16 := BitVec 16
abbrev U32 := BitVec 32
abbrev U64 := BitVec 64
abbrev U128 := BitVec 128
abbrev U256 := BitVec 256

namespace FixedWidth

variable {w : Nat}

/-- The value of that width equal to `n`, when there is one. -/
def ofNat? (w n : Nat) : Option (BitVec w) :=
  if n < 2 ^ w then some (BitVec.ofNat w n) else none

/-- {lit}`checked_add`. -/
def checkedAdd (a b : BitVec w) : Option (BitVec w) :=
  ofNat? w (a.toNat + b.toNat)

/-- {lit}`checked_sub`. -/
def checkedSub (a b : BitVec w) : Option (BitVec w) :=
  if b.toNat ≤ a.toNat then some (BitVec.ofNat w (a.toNat - b.toNat)) else none

/-- {lit}`checked_mul`. -/
def checkedMul (a b : BitVec w) : Option (BitVec w) :=
  ofNat? w (a.toNat * b.toNat)

/-- {lit}`checked_div`: there is no quotient by zero. -/
def checkedDiv (a b : BitVec w) : Option (BitVec w) :=
  if b = 0 then none else some (a.udiv b)

theorem ofNat?_eq_some {n : Nat} {c : BitVec w} :
    ofNat? w n = some c ↔ c.toNat = n := by
  unfold ofNat?
  by_cases h : n < 2 ^ w
  · simp only [h, if_true, Option.some.injEq]
    constructor
    · rintro rfl
      simp [Nat.mod_eq_of_lt h]
    · rintro rfl
      simp
  · simp only [h, if_false, reduceCtorEq, false_iff]
    rintro rfl
    exact h c.isLt

/-- A checked sum is the exact sum. -/
theorem checkedAdd_eq_some {a b c : BitVec w} :
    checkedAdd a b = some c ↔ c.toNat = a.toNat + b.toNat :=
  ofNat?_eq_some

/-- A checked difference is the exact difference. -/
theorem checkedSub_eq_some {a b c : BitVec w} :
    checkedSub a b = some c ↔ a.toNat = b.toNat + c.toNat := by
  unfold checkedSub
  by_cases h : b.toNat ≤ a.toNat
  · have hlt : a.toNat - b.toNat < 2 ^ w := by have := a.isLt; omega
    simp only [h, if_true, Option.some.injEq]
    constructor
    · rintro rfl
      rw [BitVec.toNat_ofNat, Nat.mod_eq_of_lt hlt]
      omega
    · intro hc
      apply BitVec.eq_of_toNat_eq
      rw [BitVec.toNat_ofNat, Nat.mod_eq_of_lt hlt]
      omega
  · simp only [h, if_false, reduceCtorEq, false_iff]
    omega

/-- A checked product is the exact product. -/
theorem checkedMul_eq_some {a b c : BitVec w} :
    checkedMul a b = some c ↔ c.toNat = a.toNat * b.toNat :=
  ofNat?_eq_some

/-- A checked quotient is the exact quotient, rounded down. -/
theorem checkedDiv_eq_some {a b c : BitVec w} :
    checkedDiv a b = some c ↔ b ≠ 0 ∧ c.toNat = a.toNat / b.toNat := by
  unfold checkedDiv
  by_cases h : b = 0
  · simp [h]
  · simp only [h, if_false, Option.some.injEq, ne_eq, not_false_eq_true, true_and]
    rw [← BitVec.toNat_inj, BitVec.udiv_eq, BitVec.toNat_udiv]
    exact eq_comm

/-- A value is zero exactly when its number is. -/
theorem eq_zero_iff {a : BitVec w} : a = 0 ↔ a.toNat = 0 := by
  constructor
  · rintro rfl
    simp
  · intro h
    apply BitVec.eq_of_toNat_eq
    simpa using h

/-- The smaller of two values, as {lit}`Ord::min` returns it. -/
def min (a b : BitVec w) : BitVec w :=
  if a.toNat ≤ b.toNat then a else b

@[simp]
theorem toNat_min (a b : BitVec w) : (min a b).toNat = Nat.min a.toNat b.toNat := by
  unfold min
  split <;> rename_i h
  · exact (Nat.min_eq_left h).symm
  · exact (Nat.min_eq_right (Nat.le_of_not_le h)).symm

end FixedWidth

end Foundations
