import ZkClob.Core.Identifiers
import ZkClob.Foundations.FixedWidth

/-!
# Hashing

Every hashed value feeds its fields to SHA-256 as bytes, and every top-level
value puts a domain tag in front.  The hash function is a parameter: a type of
digests with the function itself and the bytes in which a digest enters another
message.  Thirty-two byte digests are the deployed case.

Collision freedom is the idealisation that the hash function is injective.  No
function to thirty-two bytes has that property, so the digest type stays
abstract; {lit}`IdealDigest` shows that the assumption can be met.
-/

namespace ZkClob

open Foundations

/-- SHA-256 with digests of type {lit}`B256`. -/
class Sha256 (B256 : Type) where
  /-- The digest of a message. -/
  sha256 : Bytes → B256
  /-- The bytes of a digest inside another message. -/
  bytes : B256 → Bytes
  /-- Digests delimit themselves; in the deployed code they all have 32 bytes. -/
  bytes_prefixFree : PrefixFree bytes

/-- Different messages have different digests. -/
def CollisionFree (B256 : Type) [Sha256 B256] : Prop :=
  Function.Injective (Sha256.sha256 : Bytes → B256)

/-- Any hash function to thirty-two bytes, in particular the deployed one. -/
abbrev Sha256.ofFixed (digest : Bytes → FixedBytes 32) : Sha256 (FixedBytes 32) where
  sha256 := digest
  bytes := FixedBytes.toList
  bytes_prefixFree :=
    PrefixFree.of_length (fun d => d.length_eq) fun _ _ h => FixedBytes.ext h

/-- Values that can be fed to a hasher. -/
class Sha256Hash (α : Type) where
  /-- The bytes a value feeds to the hasher. -/
  updateHash : α → Bytes

/-- Values hashed at top level behind their own domain tag. -/
class DomainSha256Hash (α : Type) extends Sha256Hash α where
  /-- The domain tag. -/
  domain : Bytes

export Sha256Hash (updateHash)

section

variable {α B256 : Type} [DomainSha256Hash α] [Sha256 B256]

/-- The message hashed for a top-level value: its domain tag and its content. -/
def hashInput (a : α) : Bytes :=
  DomainSha256Hash.domain α ++ updateHash a

/-- {lit}`DomainSha256Hash::hash`. -/
def hash (a : α) : B256 :=
  Sha256.sha256 (hashInput a)

/-- Without collisions, equal hashes come from equal messages. -/
theorem hashInput_eq_of_hash_eq {β : Type} [DomainSha256Hash β] (hfree : CollisionFree B256)
    {a : α} {b : β} (h : (hash a : B256) = hash b) : hashInput a = hashInput b :=
  hfree h

/-- Without collisions, equal hashes of one type come from equal contents. -/
theorem updateHash_eq_of_hash_eq (hfree : CollisionFree B256) {a b : α}
    (h : (hash a : B256) = hash b) : updateHash a = updateHash b :=
  List.append_cancel_left (hashInput_eq_of_hash_eq hfree h)

end

instance (N : Nat) : Sha256Hash (FixedBytes N) where
  updateHash := FixedBytes.toList

/-- Arrays of bytes are hashed as they are, so they delimit themselves. -/
theorem FixedBytes.updateHash_prefixFree {N : Nat} :
    PrefixFree (updateHash : FixedBytes N → Bytes) :=
  PrefixFree.of_length (fun a => a.length_eq) fun _ _ h => FixedBytes.ext h

@[simp]
theorem FixedBytes.length_updateHash {N : Nat} (a : FixedBytes N) :
    (updateHash a).length = N :=
  a.length_eq

/-- Sixty-four bit fields delimit themselves. -/
theorem prefixFree_u64 : PrefixFree (beBytes : U64 → Bytes) :=
  prefixFree_beBytes (by norm_num)

/-- 128-bit fields delimit themselves. -/
theorem prefixFree_u128 : PrefixFree (beBytes : U128 → Bytes) :=
  prefixFree_beBytes (by norm_num)

/-! ## An idealised hash function -/

/-- The idealised digest of a message: the message itself. -/
structure IdealDigest where
  message : Bytes
deriving DecidableEq

namespace IdealDigest

/-- A number in front of a message: as many bytes 255 as it contains 255, and the rest. -/
def lengthPrefix (n : Nat) : Bytes :=
  List.replicate (n / 255) 255 ++ [UInt8.ofNat (n % 255)]

/-- The byte that ends a prefix is smaller than the repeated one. -/
theorem ofNat_mod_ne (n : Nat) : UInt8.ofNat (n % 255) ≠ 255 := by
  intro h
  have := congrArg UInt8.toNat h
  simp only [UInt8.toNat_ofNat', UInt8.reduceToNat] at this
  omega

theorem lengthPrefix_prefixFree : PrefixFree lengthPrefix := by
  -- compare the runs of bytes 255 position by position
  have hrun : ∀ (m n : Nat) (a b : UInt8) (s t : Bytes), a ≠ 255 → b ≠ 255 →
      List.replicate m 255 ++ a :: s = List.replicate n 255 ++ b :: t →
      m = n ∧ a = b ∧ s = t := by
    intro m
    induction m with
    | zero =>
        intro n a b s t ha _ h
        cases n with
        | zero => simpa using h
        | succ n =>
            simp only [List.replicate_zero, List.nil_append, List.replicate_succ, List.cons_append,
              List.cons.injEq] at h
            exact absurd h.1 ha
    | succ m ih =>
        intro n a b s t ha hb h
        cases n with
        | zero =>
            simp only [List.replicate_zero, List.nil_append, List.replicate_succ, List.cons_append,
              List.cons.injEq] at h
            exact absurd h.1.symm hb
        | succ n =>
            simp only [List.replicate_succ, List.cons_append, List.cons.injEq, true_and] at h
            rcases ih n a b s t ha hb h with ⟨rfl, hrest⟩
            exact ⟨rfl, hrest⟩
  intro m n s t h
  simp only [lengthPrefix, List.append_assoc, List.singleton_append] at h
  rcases hrun _ _ _ _ _ _ (ofNat_mod_ne m) (ofNat_mod_ne n) h with ⟨hdiv, hbyte, hst⟩
  have hmod := congrArg UInt8.toNat hbyte
  simp only [UInt8.toNat_ofNat'] at hmod
  exact ⟨by omega, hst⟩

instance : Sha256 IdealDigest where
  sha256 := IdealDigest.mk
  bytes d := lengthPrefix d.message.length ++ d.message
  bytes_prefixFree := by
    rintro ⟨a⟩ ⟨b⟩ s t h
    simp only [List.append_assoc] at h
    rcases lengthPrefix_prefixFree h with ⟨hlength, hrest⟩
    rcases List.append_inj hrest hlength with ⟨rfl, hst⟩
    exact ⟨rfl, hst⟩

/-- The idealised hash function has no collisions. -/
theorem collisionFree : CollisionFree IdealDigest := fun _ _ h => by
  simpa [Sha256.sha256] using h

end IdealDigest

end ZkClob
