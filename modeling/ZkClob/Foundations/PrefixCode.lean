import Mathlib.Algebra.Group.Nat.Defs
import Mathlib.Data.List.Basic
import Mathlib.Data.Nat.Basic

/-!
# Prefix-free byte encodings

A hashed message is a concatenation of encoded fields.  It determines its fields
when every field but the last has a prefix-free encoding: no encoding of a value
can be continued into a message that starts with the encoding of another value.

Main results:

- Theorem {lit}`PrefixFree.of_length`: an injective encoding of fixed length is
  prefix-free.
- Theorem {lit}`PrefixFree.append`: two prefix-free fields in a row are
  prefix-free.
- Theorem {lit}`flatMap_injective`: a sequence of fixed-length encodings
  determines the sequence.
- Theorem {lit}`PrefixFree.counted`: so does a sequence of any prefix-free encodings behind
  its length, whatever follows it.
- Theorem {lit}`append_ne_append_of_take_ne`: messages with different tags differ.
-/

namespace Foundations

/-- A string of bytes. -/
abbrev Bytes := List UInt8

variable {α β γ : Type}

/-- No encoding of a value can be continued into a message that begins with the
encoding of another value. -/
def PrefixFree (enc : α → List γ) : Prop :=
  ∀ ⦃a b : α⦄ ⦃s t : List γ⦄, enc a ++ s = enc b ++ t → a = b ∧ s = t

namespace PrefixFree

/-- A prefix-free encoding is injective. -/
theorem injective {enc : α → List γ} (h : PrefixFree enc) : Function.Injective enc := by
  intro a b hab
  exact (h (s := []) (t := []) (by simpa using hab)).1

/-- An injective encoding whose values all have one length is prefix-free. -/
theorem of_length {enc : α → List γ} {n : Nat} (hlen : ∀ a, (enc a).length = n)
    (hinj : Function.Injective enc) : PrefixFree enc := by
  intro a b s t h
  rcases List.append_inj h ((hlen a).trans (hlen b).symm) with ⟨henc, hrest⟩
  exact ⟨hinj henc, hrest⟩

/-- Two prefix-free fields in a row form a prefix-free field. -/
theorem append {e₁ : α → List γ} {e₂ : β → List γ} (h₁ : PrefixFree e₁)
    (h₂ : PrefixFree e₂) : PrefixFree fun p : α × β => e₁ p.1 ++ e₂ p.2 := by
  rintro ⟨a₁, a₂⟩ ⟨b₁, b₂⟩ s t h
  simp only [List.append_assoc] at h
  rcases h₁ h with ⟨rfl, hrest⟩
  rcases h₂ hrest with ⟨rfl, hst⟩
  exact ⟨rfl, hst⟩

/-- Encodings of which none begins another are prefix-free. -/
theorem of_not_prefix {enc : α → List γ} (h : ∀ a b, enc a <+: enc b → a = b) :
    PrefixFree enc := by
  intro a b s t hab
  have heq : a = b := by
    rcases List.prefix_or_prefix_of_prefix (List.prefix_append (enc a) s)
      (hab ▸ List.prefix_append (enc b) t) with hle | hle
    · exact h a b hle
    · exact (h b a hle).symm
  subst heq
  exact ⟨rfl, List.append_cancel_left hab⟩

/-- Equally long sequences of prefix-free encodings delimit themselves. -/
theorem flatMap {enc : α → List γ} (h : PrefixFree enc) {l m : List α} {s t : List γ}
    (hlength : l.length = m.length) (heq : l.flatMap enc ++ s = m.flatMap enc ++ t) :
    l = m ∧ s = t := by
  induction l generalizing m with
  | nil =>
      rcases List.length_eq_zero_iff.mp hlength.symm with rfl
      exact ⟨rfl, heq⟩
  | cons a l ih =>
      cases m with
      | nil => cases hlength
      | cons b m =>
          simp only [List.flatMap_cons, List.append_assoc] at heq
          rcases h heq with ⟨rfl, hrest⟩
          rcases ih (Nat.succ.inj hlength) hrest with ⟨rfl, hst⟩
          exact ⟨rfl, hst⟩

end PrefixFree

/-! ## Sequences -/

/-- A sequence of encodings of one positive length determines the sequence. -/
theorem flatMap_injective {enc : α → List γ} {n : Nat} (hn : 0 < n)
    (hlen : ∀ a, (enc a).length = n) (hinj : Function.Injective enc) :
    Function.Injective fun l : List α => l.flatMap enc := by
  have hcons : ∀ (a : α) (l : List α), (a :: l).flatMap enc ≠ [] := by
    intro a l h
    have := congrArg List.length h
    simp only [List.flatMap_cons, List.length_append, hlen, List.length_nil] at this
    omega
  intro l
  induction l with
  | nil =>
      intro m h
      cases m with
      | nil => rfl
      | cons b m => exact absurd h.symm (hcons b m)
  | cons a l ih =>
      intro m h
      cases m with
      | nil => exact absurd h (hcons a l)
      | cons b m =>
          simp only [List.flatMap_cons] at h
          rcases PrefixFree.of_length hlen hinj h with ⟨rfl, hrest⟩
          rw [ih hrest]

/-! ## Tags -/

/-- Messages that differ within their first `k` bytes differ. -/
theorem append_ne_append_of_take_ne {p q : List γ} (k : Nat) (hp : k ≤ p.length)
    (hq : k ≤ q.length) (hne : p.take k ≠ q.take k) (s t : List γ) : p ++ s ≠ q ++ t := by
  intro h
  apply hne
  have := congrArg (List.take k) h
  rwa [List.take_append_of_le_length hp, List.take_append_of_le_length hq] at this

/-- The bytes of an ASCII tag. -/
def ascii (tag : String) : Bytes :=
  tag.toList.map fun c => c.toNat.toUInt8

/-! ## Big-endian integers -/

/-- {lit}`to_be_bytes`: the `n` low-order bytes of a number, most significant first. -/
def toBeBytes : Nat → Nat → Bytes
  | 0, _ => []
  | n + 1, x => UInt8.ofNat (x / 256 ^ n) :: toBeBytes n x

@[simp]
theorem length_toBeBytes (n x : Nat) : (toBeBytes n x).length = n := by
  induction n with
  | zero => rfl
  | succ n ih => simp [toBeBytes, ih]

/-- The bytes of a number determine it up to the represented width. -/
theorem mod_eq_of_toBeBytes_eq {n x y : Nat} (h : toBeBytes n x = toBeBytes n y) :
    x % 256 ^ n = y % 256 ^ n := by
  induction n with
  | zero => simp [Nat.mod_one]
  | succ n ih =>
      simp only [toBeBytes, List.cons.injEq] at h
      rcases h with ⟨hhead, htail⟩
      have hbyte : x / 256 ^ n % 256 = y / 256 ^ n % 256 := by
        simpa using congrArg UInt8.toNat hhead
      rw [Nat.pow_succ, Nat.mod_mul, Nat.mod_mul, ih htail, hbyte]

/-- A sequence of prefix-free encodings behind its length delimits itself, when the length is
written in full. -/
theorem PrefixFree.counted {enc : α → Bytes} (h : PrefixFree enc) {n : Nat} {l m : List α}
    {s t : Bytes} (hl : l.length < 256 ^ n) (hm : m.length < 256 ^ n)
    (heq : toBeBytes n l.length ++ (l.flatMap enc ++ s) =
      toBeBytes n m.length ++ (m.flatMap enc ++ t)) : l = m ∧ s = t := by
  rcases List.append_inj heq (by simp) with ⟨hcount, hrest⟩
  have hlength := mod_eq_of_toBeBytes_eq hcount
  rw [Nat.mod_eq_of_lt hl, Nat.mod_eq_of_lt hm] at hlength
  exact h.flatMap hlength hrest

/-- The bytes of a number depend only on its value within the represented width. -/
theorem toBeBytes_mod {n m : Nat} (h : n ≤ m) (x : Nat) :
    toBeBytes n (x % 256 ^ m) = toBeBytes n x := by
  induction n with
  | zero => rfl
  | succ n ih =>
      have hpow : 256 ^ m = 256 ^ n * (256 * 256 ^ (m - n - 1)) := by
        rw [← Nat.pow_succ', ← Nat.pow_add]
        congr 1
        omega
      rw [toBeBytes, toBeBytes, ih (by omega)]
      congr 1
      rw [hpow, Nat.mod_mul_right_div_self, ← UInt8.toNat_inj]
      simp

/-- {lit}`to_be_bytes` of a fixed-width integer. -/
def beBytes {w : Nat} (x : BitVec w) : Bytes :=
  toBeBytes (w / 8) x.toNat

@[simp]
theorem length_beBytes {w : Nat} (x : BitVec w) : (beBytes x).length = w / 8 :=
  length_toBeBytes _ _

/-- The bytes of a number cut down to a fixed width. -/
theorem beBytes_ofNat {w : Nat} (hw : 8 ∣ w) (x : Nat) :
    beBytes (BitVec.ofNat w x) = toBeBytes (w / 8) x := by
  rcases hw with ⟨n, rfl⟩
  rw [beBytes, BitVec.toNat_ofNat, Nat.mul_div_cancel_left n (by decide), Nat.pow_mul]
  exact toBeBytes_mod le_rfl x

/-- Integers of a whole number of bytes delimit themselves. -/
theorem prefixFree_beBytes {w : Nat} (hw : 8 ∣ w) : PrefixFree (beBytes : BitVec w → Bytes) := by
  refine PrefixFree.of_length length_beBytes ?_
  rcases hw with ⟨n, rfl⟩
  intro x y h
  apply BitVec.eq_of_toNat_eq
  have hmod := mod_eq_of_toBeBytes_eq h
  have hpow : 256 ^ (8 * n / 8) = 2 ^ (8 * n) := by
    rw [Nat.mul_div_cancel_left n (by decide), show 256 = 2 ^ 8 by decide, ← Nat.pow_mul]
  rwa [hpow, Nat.mod_eq_of_lt x.isLt, Nat.mod_eq_of_lt y.isLt] at hmod

end Foundations
