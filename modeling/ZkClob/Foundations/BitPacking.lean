import Mathlib.Data.List.Basic
import Mathlib.Data.Nat.Bitwise

/-!
# Bits packed into bytes

A sequence of bits is stored in bytes, most significant bit first; the last byte
is filled up with zeros.  A writer that knows how many bits it has written adds
one bit at a time, a reader reads the bit at a position.

Main results:

- Theorem {lit}`testBit_byte`: masking with a shifted one reads a binary digit.
- Theorem {lit}`Packs.push`: writing a bit appends it to the packed sequence.
- Theorem {lit}`Packs.padding`: the rest of the last byte is zero.
-/

namespace Foundations

namespace BitPacking

/-- The byte in which only bit `r` is set. -/
def mask (r : Nat) : UInt8 :=
  1 <<< UInt8.ofNat (7 - r)

/-- The bit at a position; there are only zeros behind the end. -/
def readBit (bytes : List UInt8) (i : Nat) : Bool :=
  bytes.getD (i / 8) 0 &&& mask (i % 8) != 0

/-- Begin a new byte when the last one is full. -/
def openByte (bytes : List UInt8) (count : Nat) : List UInt8 :=
  if count % 8 = 0 then bytes ++ [0] else bytes

/-- Write a bit behind `count` others. -/
def pushBit (bytes : List UInt8) (count : Nat) (value : Bool) : List UInt8 :=
  let bytes := openByte bytes count
  if value then bytes.modify (count / 8) fun byte => byte ||| mask (count % 8) else bytes

/-! ## Bytes -/

theorem toNat_mask {r : Nat} (hr : r < 8) : (mask r).toNat = 2 ^ (7 - r) := by
  have hall : ∀ r : Fin 8, (mask r).toNat = 2 ^ (7 - r.val) := by decide
  exact hall ⟨r, hr⟩

/-- Masking a byte with a shifted one reads one binary digit. -/
theorem testBit_byte (byte : UInt8) {r : Nat} (hr : r < 8) :
    (byte &&& mask r != 0) = byte.toNat.testBit (7 - r) := by
  have hand : (byte &&& mask r).toNat = (byte.toNat.testBit (7 - r)).toNat * 2 ^ (7 - r) := by
    rw [UInt8.toNat_and, toNat_mask hr, Nat.and_two_pow]
  rw [Bool.eq_iff_iff, bne_iff_ne, ne_eq, ← UInt8.toNat_inj, hand]
  cases byte.toNat.testBit (7 - r)
  · simp
  · simp

/-- Setting a bit changes no other. -/
theorem testBit_or_mask (byte : UInt8) {q r : Nat} (hq : q < 8) (hr : r < 8) :
    (byte ||| mask r).toNat.testBit (7 - q) = (decide (q = r) || byte.toNat.testBit (7 - q)) := by
  rw [UInt8.toNat_or, Nat.testBit_or, toNat_mask hr, Nat.testBit_two_pow, Bool.or_comm]
  congr 1
  rw [decide_eq_decide]
  omega

/-- A byte whose last bits are zero, masked. -/
theorem and_low_eq_zero {byte : UInt8} {r : Nat} (hr : 0 < r) (hr8 : r < 8)
    (h : ∀ q, r ≤ q → q < 8 → byte.toNat.testBit (7 - q) = false) :
    byte &&& (1 <<< UInt8.ofNat (8 - r)) - 1 = 0 := by
  have hmask : ((1 <<< UInt8.ofNat (8 - r)) - 1 : UInt8).toNat = 2 ^ (8 - r) - 1 := by
    have hall : ∀ r : Fin 8, 0 < r →
        ((1 <<< UInt8.ofNat (8 - r)) - 1 : UInt8).toNat = 2 ^ (8 - r.val) - 1 := by decide
    exact hall ⟨r, hr8⟩ hr
  rw [← UInt8.toNat_inj, UInt8.toNat_and, hmask, Nat.and_two_pow_sub_one_eq_mod]
  apply Nat.eq_of_testBit_eq
  intro i
  rw [Nat.testBit_mod_two_pow]
  by_cases hi : i < 8 - r
  · have hzero := h (7 - i) (by omega) (by omega)
    rw [show 7 - (7 - i) = i by omega] at hzero
    simp [hzero]
  · simp [hi]

theorem readBit_eq (bytes : List UInt8) (i : Nat) :
    readBit bytes i = (bytes.getD (i / 8) 0).toNat.testBit (7 - i % 8) :=
  testBit_byte _ (Nat.mod_lt i (by decide))

/-! ## Packed sequences -/

/-- The bytes hold the bits, and zeros behind them. -/
structure Packs (bytes : List UInt8) (bits : List Bool) : Prop where
  length : bytes.length = (bits.length + 7) / 8
  bit : ∀ i, readBit bytes i = bits.getD i false

variable {bytes : List UInt8} {bits : List Bool} {count : Nat}

theorem length_openByte (h : bytes.length = (count + 7) / 8) :
    (openByte bytes count).length = (count + 1 + 7) / 8 := by
  unfold openByte
  by_cases hfull : count % 8 = 0
  · rw [if_pos hfull, List.length_append, List.length_singleton]
    omega
  · rw [if_neg hfull]
    omega

/-- The bits written fill their bytes up to the last one. -/
theorem length_pushBit {value : Bool} (h : bytes.length = (count + 7) / 8) :
    (pushBit bytes count value).length = (count + 1 + 7) / 8 := by
  cases value
  · exact length_openByte h
  · simpa [pushBit] using length_openByte h

/-- A new byte holds zeros. -/
theorem readBit_openByte (bytes : List UInt8) (count i : Nat) :
    readBit (openByte bytes count) i = readBit bytes i := by
  have hbyte : (bytes ++ [0]).getD (i / 8) 0 = bytes.getD (i / 8) 0 := by
    rw [List.getD_eq_getElem?_getD, List.getD_eq_getElem?_getD]
    by_cases hi : i / 8 < bytes.length
    · rw [List.getElem?_append_left hi]
    · rw [List.getElem?_append_right (Nat.le_of_not_lt hi),
        List.getElem?_eq_none (Nat.le_of_not_lt hi)]
      cases i / 8 - bytes.length
      · rfl
      · rfl
  unfold openByte
  by_cases hfull : count % 8 = 0
  · rw [if_pos hfull, readBit, readBit, hbyte]
  · rw [if_neg hfull]

/-- Setting one bit of a byte changes no other bit. -/
theorem readBit_modify {j : Nat} (hj : j / 8 < bytes.length) (i : Nat) :
    readBit (bytes.modify (j / 8) fun byte => byte ||| mask (j % 8)) i =
      (decide (i = j) || readBit bytes i) := by
  rw [readBit_eq, readBit_eq, List.getD_eq_getElem?_getD, List.getD_eq_getElem?_getD,
    List.getElem?_modify]
  by_cases hbyte : j / 8 = i / 8
  · have hset := testBit_or_mask bytes[j / 8] (Nat.mod_lt i (by decide : 0 < 8))
      (Nat.mod_lt j (by decide : 0 < 8))
    have hiff : i % 8 = j % 8 ↔ i = j := by omega
    rw [← hbyte, List.getElem?_eq_getElem hj]
    simpa [hiff] using hset
  · have hne : i ≠ j := fun heq => hbyte (heq ▸ rfl)
    simp [hbyte, hne]

/-- A bit that is written is found at its position, and the others where they were. -/
theorem readBit_pushBit {value : Bool} (h : bytes.length = (count + 7) / 8) (i : Nat) :
    readBit (pushBit bytes count value) i =
      ((decide (i = count) && value) || readBit bytes i) := by
  cases value with
  | false => simpa [pushBit] using readBit_openByte bytes count i
  | true =>
      have hroom : count / 8 < (openByte bytes count).length := by
        rw [length_openByte h]
        omega
      rw [← readBit_openByte bytes count i, Bool.and_true]
      exact readBit_modify hroom i

namespace Packs

theorem nil : Packs [] [] := ⟨rfl, fun i => by simp [readBit]⟩

/-- Writing a bit appends it to the packed sequence. -/
theorem push (h : Packs bytes bits) (value : Bool) :
    Packs (pushBit bytes bits.length value) (bits ++ [value]) := by
  refine ⟨?_, fun i => ?_⟩
  · rw [List.length_append, List.length_singleton]
    exact length_pushBit h.length
  · rw [readBit_pushBit h.length, h.bit]
    rcases Nat.lt_trichotomy i bits.length with hlt | rfl | hgt
    · simp [List.getElem?_append_left hlt, hlt.ne]
    · simp
    · have hnone : (bits ++ [value])[i]? = none := List.getElem?_eq_none (by simp; omega)
      simp [hnone, hgt.ne', hgt.le]

/-- A bit in the middle is found at its position. -/
theorem readBit_append {done rest : List Bool} {value : Bool}
    (h : Packs bytes (done ++ value :: rest)) : readBit bytes done.length = value := by
  rw [h.bit]
  simp

/-- The rest of the last byte is zero. -/
theorem padding (h : Packs bytes bits) (hr : bits.length % 8 ≠ 0) :
    bytes.getD (bits.length / 8) 0 &&& (1 <<< UInt8.ofNat (8 - bits.length % 8)) - 1 = 0 := by
  refine and_low_eq_zero (by omega) (Nat.mod_lt _ (by decide)) fun q hrq hq => ?_
  have hzero := h.bit (8 * (bits.length / 8) + q)
  rw [readBit_eq, Nat.mul_add_mod, Nat.mod_eq_of_lt hq,
    show (8 * (bits.length / 8) + q) / 8 = bits.length / 8 by omega] at hzero
  rw [hzero]
  exact List.getD_eq_default _ _ (by omega)

end Packs

end BitPacking

end Foundations
