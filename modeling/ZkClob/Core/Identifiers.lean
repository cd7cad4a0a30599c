import Mathlib.Data.List.Basic
import Mathlib.Data.List.Lex
import Mathlib.Tactic.NormNum
import Mathlib.Tactic.Ring
import Mathlib.Data.Nat.Bitwise
import ZkClob.Foundations.BitOrder
import ZkClob.Foundations.BitPacking
import ZkClob.Foundations.PrefixCode

/-!
# Identifiers

Account and asset identifiers are addresses of twenty bytes, market identifiers
are thirty-two bytes.  They are ordered lexicographically by their bytes, and
account identifiers are read bit by bit as tree keys, most significant bit first.

Main results:

- Theorem {lit}`FixedBytes.lt_iff_beValue_lt`: the byte order is the order of the
  big-endian values.
- Theorem {lit}`FixedBytes.bit_eq_testBit`: the bits read by the tree are the
  binary digits of the big-endian value.
- Instance {lit}`FixedBytes.bitKey`: the byte order is the order of those bits.
-/

namespace ZkClob

open Foundations

/-- An array of exactly `N` bytes, {lit}`[u8; N]`. -/
structure FixedBytes (N : Nat) where
  toList : List UInt8
  length_eq : toList.length = N

namespace FixedBytes

variable {N : Nat}

@[ext]
theorem ext {a b : FixedBytes N} (h : a.toList = b.toList) : a = b := by
  cases a
  cases b
  simpa using h

/-- The array {lit}`[byte; N]`. -/
def replicate (N : Nat) (byte : UInt8) : FixedBytes N :=
  ⟨List.replicate N byte, by simp⟩

/-- The numbers compared by the lexicographic order of the bytes. -/
def digits (a : FixedBytes N) : List Nat :=
  a.toList.map UInt8.toNat

theorem digits_injective : Function.Injective (digits : FixedBytes N → List Nat) := by
  intro a b h
  exact ext (List.map_injective_iff.mpr (fun _ _ => UInt8.toNat_inj.mp) h)

/-- Arrays of bytes are compared lexicographically. -/
instance linearOrder : LinearOrder (FixedBytes N) :=
  LinearOrder.lift' digits digits_injective

theorem lt_iff_digits {a b : FixedBytes N} : a < b ↔ a.digits < b.digits := Iff.rfl

@[simp]
theorem length_digits (a : FixedBytes N) : a.digits.length = N := by
  simp [digits, a.length_eq]

/-- Bit `index` of an array of bytes, counted from the most significant bit of
the first byte. -/
def bit (a : FixedBytes N) (index : Nat) : Bool :=
  a.toList.getD (index / 8) 0 &&& (1 <<< UInt8.ofNat (7 - index % 8)) != 0

/-! ## The big-endian value -/

/-- The number with the given base-256 digits, most significant first. -/
def beDigits : List Nat → Nat
  | [] => 0
  | d :: l => d * 256 ^ l.length + beDigits l

/-- The big-endian value of an array of bytes. -/
def beValue (a : FixedBytes N) : Nat :=
  beDigits a.digits

theorem beDigits_lt {l : List Nat} (hl : ∀ d ∈ l, d < 256) : beDigits l < 256 ^ l.length := by
  induction l with
  | nil => simp [beDigits]
  | cons d l ih =>
      have hd : d < 256 := hl d (by simp)
      have hrest := ih fun e he => hl e (by simp [he])
      calc
        beDigits (d :: l) < d * 256 ^ l.length + 256 ^ l.length := by
          simp only [beDigits]
          omega
        _ = (d + 1) * 256 ^ l.length := by ring
        _ ≤ 256 * 256 ^ l.length := Nat.mul_le_mul_right _ hd
        _ = 256 ^ (d :: l).length := by rw [List.length_cons, Nat.pow_succ, Nat.mul_comm]

theorem digits_lt (a : FixedBytes N) : ∀ d ∈ a.digits, d < 256 := by
  intro d hd
  rcases List.mem_map.mp hd with ⟨b, _, rfl⟩
  exact b.toNat_lt

theorem beValue_lt (a : FixedBytes N) : a.beValue < 256 ^ N := by
  have := beDigits_lt a.digits_lt
  rwa [length_digits] at this

/-- Digit sequences of one length compare lexicographically as their values do. -/
theorem lt_iff_beDigits_lt {l m : List Nat} (hlen : l.length = m.length)
    (hl : ∀ d ∈ l, d < 256) (hm : ∀ d ∈ m, d < 256) : l < m ↔ beDigits l < beDigits m := by
  induction l generalizing m with
  | nil =>
      have : m = [] := List.eq_nil_of_length_eq_zero hlen.symm
      subst this
      simp [beDigits]
  | cons d l ih =>
      cases m with
      | nil => simp at hlen
      | cons e m =>
          have hlen' : l.length = m.length := by simpa using hlen
          have hl' := beDigits_lt fun x hx => hl x (List.mem_cons_of_mem d hx)
          have hm' := beDigits_lt fun x hx => hm x (List.mem_cons_of_mem e hx)
          have hrest := ih hlen' (fun x hx => hl x (List.mem_cons_of_mem d hx))
            (fun x hx => hm x (List.mem_cons_of_mem e hx))
          rw [List.cons_lt_cons_iff, hrest]
          simp only [beDigits, hlen'] at hl' ⊢
          generalize 256 ^ m.length = p at hl' hm' ⊢
          rcases Nat.lt_trichotomy d e with hde | rfl | hde
          · have : d * p + p ≤ e * p := by
              rw [← Nat.succ_mul]
              exact Nat.mul_le_mul_right p hde
            simp only [hde, true_or, true_iff]
            omega
          · simp
          · have : e * p + p ≤ d * p := by
              rw [← Nat.succ_mul]
              exact Nat.mul_le_mul_right p hde
            simp only [hde.not_gt, hde.ne', false_and, or_false, false_iff]
            omega

/-- The byte order is the order of the big-endian values. -/
theorem lt_iff_beValue_lt {a b : FixedBytes N} : a < b ↔ a.beValue < b.beValue := by
  rw [lt_iff_digits]
  exact lt_iff_beDigits_lt (by simp) a.digits_lt b.digits_lt

/-- The big-endian bytes of a value are the bytes that it was read from. -/
theorem toBeBytes_beDigits (l : List UInt8) :
    toBeBytes l.length (beDigits (l.map UInt8.toNat)) = l := by
  induction l with
  | nil => rfl
  | cons b l ih =>
      have hlt : beDigits (l.map UInt8.toNat) < 256 ^ l.length := by
        have hbytes : ∀ d ∈ l.map UInt8.toNat, d < 256 := fun d hd => by
          rcases List.mem_map.mp hd with ⟨c, _, rfl⟩
          exact c.toNat_lt
        simpa using beDigits_lt hbytes
      have hdiv : (b.toNat * 256 ^ l.length + beDigits (l.map UInt8.toNat)) / 256 ^ l.length =
          b.toNat := by
        rw [Nat.add_comm, Nat.add_mul_div_right _ _ (Nat.pow_pos (by norm_num)),
          Nat.div_eq_of_lt hlt, Nat.zero_add]
      have hmod : (b.toNat * 256 ^ l.length + beDigits (l.map UInt8.toNat)) % 256 ^ l.length =
          beDigits (l.map UInt8.toNat) := by
        rw [Nat.add_comm, Nat.add_mul_mod_self_right, Nat.mod_eq_of_lt hlt]
      rw [List.length_cons, List.map_cons, beDigits, List.length_map, toBeBytes, hdiv,
        ← toBeBytes_mod (le_refl l.length), hmod, ih]
      simp

/-- The big-endian bytes of the value of an array are the array. -/
theorem toBeBytes_beValue (a : FixedBytes N) : toBeBytes N a.beValue = a.toList := by
  have h := toBeBytes_beDigits a.toList
  rwa [a.length_eq] at h

theorem beValue_injective : Function.Injective (beValue : FixedBytes N → Nat) := by
  intro a b h
  rcases lt_trichotomy a b with hlt | heq | hgt
  · exact absurd h (lt_iff_beValue_lt.mp hlt).ne
  · exact heq
  · exact absurd h (lt_iff_beValue_lt.mp hgt).ne'

/-! ## Bits -/

/-- A binary digit of a big-endian number is one of the byte that holds it. -/
theorem testBit_beDigits {l : List Nat} (hl : ∀ d ∈ l, d < 256) {q r : Nat}
    (hq : q < l.length) (hr : r < 8) :
    (beDigits l).testBit (8 * (l.length - 1 - q) + r) = (l.getD q 0).testBit r := by
  induction l generalizing q with
  | nil => simp at hq
  | cons d l ih =>
      have hrest := beDigits_lt fun x hx => hl x (List.mem_cons_of_mem d hx)
      have hpow : 256 ^ l.length = 2 ^ (8 * l.length) := by
        rw [show 256 = 2 ^ 8 by norm_num, ← Nat.pow_mul]
      rw [hpow] at hrest
      simp only [beDigits, hpow, Nat.mul_comm d]
      cases q with
      | zero =>
          rw [Nat.testBit_two_pow_mul_add _ hrest]
          simp
      | succ q =>
          have hq' : q < l.length := by simpa using hq
          rw [Nat.testBit_two_pow_mul_add _ hrest, if_pos (by simp; omega)]
          have := ih (fun x hx => hl x (List.mem_cons_of_mem d hx)) hq'
          simp only [List.length_cons, Nat.add_sub_cancel, List.getD_cons_succ]
          rw [show l.length - (q + 1) = l.length - 1 - q by omega]
          exact this

/-- The bits of an array of bytes are the binary digits of its value. -/
theorem bit_eq_testBit (a : FixedBytes N) {i : Nat} (hi : i < 8 * N) :
    a.bit i = a.beValue.testBit (8 * N - 1 - i) := by
  have hq : i / 8 < a.digits.length := by
    rw [length_digits]
    omega
  have hr : 7 - i % 8 < 8 := by omega
  have hbit := testBit_beDigits a.digits_lt hq hr
  rw [length_digits, show 8 * (N - 1 - i / 8) + (7 - i % 8) = 8 * N - 1 - i by omega] at hbit
  have hread : a.bit i = BitPacking.readBit a.toList i := rfl
  rw [beValue, hbit, hread, BitPacking.readBit_eq]
  rw [List.getD_eq_getElem?_getD, List.getD_eq_getElem?_getD, digits, List.getElem?_map]
  cases a.toList[i / 8]? <;> rfl

/-- Bits that agree everywhere belong to one number. -/
theorem exists_bit_ne {a b : FixedBytes N} (h : a ≠ b) : ∃ i < 8 * N, a.bit i ≠ b.bit i := by
  by_contra hnot
  push Not at hnot
  apply h
  apply beValue_injective
  apply Nat.eq_of_testBit_eq
  intro j
  have hpow : 256 ^ N = 2 ^ (8 * N) := by rw [show 256 = 2 ^ 8 by norm_num, ← Nat.pow_mul]
  rcases Nat.lt_or_ge j (8 * N) with hj | hj
  · have := hnot (8 * N - 1 - j) (by omega)
    rw [bit_eq_testBit a (by omega), bit_eq_testBit b (by omega)] at this
    rwa [show 8 * N - 1 - (8 * N - 1 - j) = j by omega] at this
  · have hbound : ∀ c : FixedBytes N, c.beValue.testBit j = false := fun c =>
      Nat.testBit_lt_two_pow (Nat.lt_of_lt_of_le (hpow ▸ c.beValue_lt)
        (Nat.pow_le_pow_right (by norm_num) hj))
    rw [hbound a, hbound b]

/-- A zero against a one after a common prefix decides the byte order. -/
theorem lt_of_bit {a b : FixedBytes N} {d : Nat} (hd : d < 8 * N)
    (hagree : ∀ i < d, a.bit i = b.bit i) (ha : a.bit d = false) (hb : b.bit d = true) :
    a < b := by
  rw [lt_iff_beValue_lt]
  rw [bit_eq_testBit _ hd] at ha hb
  refine Nat.lt_of_testBit (8 * N - 1 - d) ha hb ?_
  intro j hj
  have hpow : 256 ^ N = 2 ^ (8 * N) := by rw [show 256 = 2 ^ 8 by norm_num, ← Nat.pow_mul]
  rcases Nat.lt_or_ge j (8 * N) with hjN | hjN
  · have := hagree (8 * N - 1 - j) (by omega)
    rw [bit_eq_testBit a (by omega), bit_eq_testBit b (by omega)] at this
    rwa [show 8 * N - 1 - (8 * N - 1 - j) = j by omega] at this
  · have hbound : ∀ c : FixedBytes N, c.beValue.testBit j = false := fun c =>
      Nat.testBit_lt_two_pow (Nat.lt_of_lt_of_le (hpow ▸ c.beValue_lt)
        (Nat.pow_le_pow_right (by norm_num) hjN))
    rw [hbound a, hbound b]

/-- The byte order compares the first bit in which two arrays differ. -/
theorem lt_iff_bit (a b : FixedBytes N) : a < b ↔
    ∃ d < 8 * N, (∀ i < d, a.bit i = b.bit i) ∧ a.bit d = false ∧ b.bit d = true := by
  constructor
  · intro hab
    have hex := exists_bit_ne hab.ne
    rcases Nat.find_spec hex with ⟨hd, hne⟩
    have hagree : ∀ i < Nat.find hex, a.bit i = b.bit i := by
      intro i hi
      have := Nat.find_min hex hi
      push Not at this
      exact this (by omega)
    refine ⟨Nat.find hex, hd, hagree, ?_⟩
    generalize Nat.find hex = d at hd hne hagree
    cases ha : a.bit d <;> cases hb : b.bit d
    · exact absurd (ha.trans hb.symm) hne
    · exact ⟨rfl, rfl⟩
    · have hba : b < a := lt_of_bit hd (fun i hi => (hagree i hi).symm) hb ha
      exact absurd hab hba.not_gt
    · exact absurd (ha.trans hb.symm) hne
  · rintro ⟨d, hd, hagree, ha, hb⟩
    exact lt_of_bit hd hagree ha hb

/-- Byte arrays are tree keys of eight bits a byte. -/
instance bitKey : BitKey (FixedBytes N) where
  BITS := 8 * N
  bit := bit
  lt_iff_bit := lt_iff_bit

end FixedBytes

/-- An Ethereum address. -/
abbrev Address := FixedBytes 20

instance Address.lawfulBEq : LawfulBEq Address := inferInstance

/-- Identifier of an account, the newtype {lit}`AccountId(Address)`. -/
abbrev AccountId := Address

/-- Identifier of an asset, the newtype {lit}`AssetId(Address)`; native ETH is the
zero address. -/
abbrev AssetId := Address

/-- Identifier of a market, the newtype {lit}`MarketId(B256)`. -/
abbrev MarketId := FixedBytes 32

end ZkClob
