import Mathlib.Data.Nat.Digits.Lemmas
import Mathlib.Data.Nat.Size
import PegaFlow.Block

/-!
# The HyperLogLog sketch

`HyperLogLog` of `pegaflow-common/src/hll.rs`, without the estimate, which is floating point.  A
hash is a big-endian bit string: its first bits choose a register, and the zeros that follow are
counted from the first 32 bits as a word and from the bytes after them one by one.

Counters and registers are `u8`.  Arithmetic that leaves a `u8` is `none` here: a debug build
panics, and a release build goes on with a rank that wrapped around.  That happens exactly when the
rank does not fit, so only for hashes of more than 32 bytes.
-/

namespace PegaFlow.Common

open List

/-- A sum of type `u8`. -/
def u8 (n : Nat) : Option Nat := if n < 256 then some n else none

/-- `leading_zeros` of an unsigned integer of `width` bits. -/
def leadingZeros (width n : Nat) : Nat := width - n.size

/-- `from_be_bytes`. -/
def fromBeBytes (bytes : List UInt8) : Nat := Nat.ofDigits 256 (bytes.map UInt8.toNat).reverse

variable (hash : BlockHash) (bucketBits : Nat)

def byteOrZero (index : Nat) : UInt8 := hash[index]?.getD 0

def bucketIndex : Nat :=
  fromBeBytes [0, byteOrZero hash 0, byteOrZero hash 1, byteOrZero hash 2] >>> (24 - bucketBits)

/-- The loop of `count_leading_zeros` over the bytes after the first four. -/
def countBytes (count : Nat) : List UInt8 → Option Nat
  | [] => some count
  | byte :: rest =>
    if byte ≠ 0 then u8 (count + leadingZeros 8 byte.toNat)
    else (u8 (count + 8)).bind (countBytes · rest)

def countLeadingZeros (lzMask : Nat) : Option Nat :=
  let head :=
    fromBeBytes [byteOrZero hash 0, byteOrZero hash 1, byteOrZero hash 2, byteOrZero hash 3]
  let masked := head &&& lzMask
  if masked ≠ 0 then
    if bucketBits ≤ leadingZeros 32 masked then some (leadingZeros 32 masked - bucketBits) else none
  else countBytes (32 - bucketBits) (hash.drop 4)

/-- `new` asserts the bounds on `bucket_bits` and computes the mask. -/
structure HyperLogLog (bucketBits : Nat) where
  registers : Fin (2 ^ bucketBits) → Nat
  lzMask : Nat
  bits_mem : 4 ≤ bucketBits ∧ bucketBits ≤ 18
  lzMask_eq : lzMask = 2 ^ (32 - bucketBits) - 1

variable {b : Nat}

namespace HyperLogLog

def new (h : 4 ≤ b ∧ b ≤ 18) : HyperLogLog b := ⟨fun _ => 0, 2 ^ (32 - b) - 1, h, rfl⟩

variable (hll : HyperLogLog b)

/-- The end of `insert`. -/
def raise (index : Fin (2 ^ b)) (rho : Nat) : HyperLogLog b :=
  if hll.registers index < rho then
    { hll with registers := Function.update hll.registers index rho }
  else hll

def insert : Option (HyperLogLog b) :=
  (countLeadingZeros hash b hll.lzMask).bind fun zeros => (u8 (zeros + 1)).bind fun rho =>
    -- an index outside of the registers panics
    if h : bucketIndex hash b < 2 ^ b then some (hll.raise ⟨bucketIndex hash b, h⟩ rho) else none

end HyperLogLog

/-! ## The bit string of a hash -/

/-- The hash with zeros up to bit 32. -/
def extended : List UInt8 := hash ++ replicate (4 - hash.length) 0

/-- How many bits follow the bits of the bucket. -/
def restBits : Nat := 8 * (extended hash).length - bucketBits

/-- The first `bucketBits` bits. -/
def bucket : Nat := fromBeBytes (extended hash) / 2 ^ restBits hash bucketBits

/-- One more than the zeros between the bits of the bucket and the next one bit, or the end. -/
def rank : Nat :=
  1 + leadingZeros (restBits hash bucketBits)
    (fromBeBytes (extended hash) % 2 ^ restBits hash bucketBits)

variable {hash bucketBits} {l m : List UInt8} {n k t count : Nat}

theorem fromBeBytes_append :
    fromBeBytes (l ++ m) = fromBeBytes l * 2 ^ (8 * m.length) + fromBeBytes m := by
  rw [fromBeBytes, map_append, reverse_append, Nat.ofDigits_append, length_reverse, length_map,
    pow_mul, Nat.add_comm, Nat.mul_comm]
  rfl

theorem fromBeBytes_lt : fromBeBytes l < 2 ^ (8 * l.length) := by
  have h : fromBeBytes l < 256 ^ (l.map UInt8.toNat).reverse.length := by
    refine Nat.ofDigits_lt_base_pow_length (by decide) fun d hd => ?_
    obtain ⟨byte, -, rfl⟩ := mem_map.mp (mem_reverse.mp hd)
    exact byte.toNat_lt
  rwa [length_reverse, length_map, show 256 = 2 ^ 8 from rfl, ← pow_mul] at h

theorem size_mul_add (hn : n ≠ 0) (ht : t < 2 ^ k) : (n * 2 ^ k + t).size = n.size + k := by
  apply Nat.le_antisymm
  · rw [Nat.size_le, pow_add]
    calc n * 2 ^ k + t < (n + 1) * 2 ^ k := by rw [Nat.succ_mul]; omega
      _ ≤ 2 ^ n.size * 2 ^ k := Nat.mul_le_mul_right _ (Nat.lt_size_self n)
  · obtain ⟨j, hj⟩ := Nat.exists_eq_succ_of_ne_zero (mt Nat.size_eq_zero.mp hn)
    rw [hj, Nat.succ_add, Nat.succ_le_iff, Nat.lt_size, pow_add]
    exact Nat.le_add_right_of_le (Nat.mul_le_mul_right _ (Nat.lt_size.mp (by omega)))

/-- The zeros of a bit string in two parts: those of the first part, and if it has nothing else
those of the second. -/
theorem leadingZeros_mul_add (ht : t < 2 ^ k) :
    leadingZeros (count + k) (n * 2 ^ k + t) =
      if n = 0 then count + leadingZeros k t else leadingZeros count n := by
  have hs := Nat.size_le.mpr ht
  unfold leadingZeros
  split
  next h =>
    rw [h, Nat.zero_mul, Nat.zero_add]
    omega
  next h =>
    rw [size_mul_add h ht]
    omega

theorem countBytes_eq (h : count < 256) :
    countBytes count l = u8 (count + leadingZeros (8 * l.length) (fromBeBytes l)) := by
  induction l generalizing count with
  | nil => simp [countBytes, u8, leadingZeros, h]
  | cons byte rest ih =>
    have hbyte : fromBeBytes [byte] = byte.toNat := by simp [fromBeBytes]
    have hz : byte.toNat = 0 ↔ byte = 0 := UInt8.toNat_inj (b := 0)
    rw [← singleton_append, fromBeBytes_append, hbyte, length_append, length_singleton, Nat.mul_add,
      Nat.mul_one, leadingZeros_mul_add fromBeBytes_lt, singleton_append, countBytes, ite_not]
    simp only [hz]
    split
    · rw [← Nat.add_assoc]
      by_cases hlt : count + 8 < 256
      · rw [u8, if_pos hlt]
        exact ih hlt
      · rw [u8, if_neg hlt, u8, if_neg (mt (Nat.le_add_right _ _).trans_lt hlt)]
        rfl
    · rfl

theorem extended_eq : extended hash = [byteOrZero hash 0, byteOrZero hash 1, byteOrZero hash 2] ++
    (byteOrZero hash 3 :: hash.drop 4) := by
  match hash with
  | [] | [_] | [_, _] | [_, _, _] | _ :: _ :: _ :: _ :: _ => simp [extended, byteOrZero]

section

variable (hb : b ≤ 18)
include hb

theorem bucketIndex_eq : bucketIndex hash b = bucket hash b := by
  have hr : restBits hash b = 8 * (byteOrZero hash 3 :: hash.drop 4).length + (24 - b) := by
    rw [restBits, extended_eq]
    simp only [length_append, length_cons, length_nil]
    omega
  rw [bucket, hr, extended_eq, fromBeBytes_append, pow_add, ← Nat.div_div_eq_div_mul,
    Nat.mul_comm, Nat.mul_add_div (Nat.two_pow_pos _), Nat.div_eq_of_lt fromBeBytes_lt,
    bucketIndex, Nat.shiftRight_eq_div_pow]
  rfl

theorem bucket_lt : bucket hash b < 2 ^ b := by
  rw [← bucketIndex_eq hb, bucketIndex, Nat.shiftRight_eq_div_pow]
  apply Nat.div_lt_of_lt_mul
  rw [← pow_add, show 24 - b + b = 24 by omega, ← singleton_append, fromBeBytes_append]
  simpa [fromBeBytes] using fromBeBytes_lt (l := [byteOrZero hash 0, byteOrZero hash 1, byteOrZero hash 2])

theorem countLeadingZeros_eq :
    countLeadingZeros hash b (2 ^ (32 - b) - 1) = u8 (rank hash b - 1) := by
  have hr : restBits hash b = 32 - b + 8 * (hash.drop 4).length := by
    rw [restBits, extended_eq]
    simp only [length_append, length_cons, length_nil]
    omega
  rw [rank, Nat.add_sub_cancel_left, hr, extended_eq, append_cons, fromBeBytes_append, pow_add,
    Nat.mul_comm (2 ^ (32 - b)), Nat.mod_mul, Nat.mul_comm (fromBeBytes _), Nat.mul_add_mod,
    Nat.mod_eq_of_lt fromBeBytes_lt, Nat.mul_add_div (Nat.two_pow_pos _),
    Nat.div_eq_of_lt fromBeBytes_lt, Nat.add_zero, Nat.add_comm (fromBeBytes _),
    Nat.mul_comm (2 ^ _), leadingZeros_mul_add fromBeBytes_lt, countLeadingZeros]
  simp only [Nat.and_two_pow_sub_one_eq_mod, ite_not, cons_append, nil_append]
  split
  · exact countBytes_eq (by omega)
  have hs := Nat.size_le.mpr (Nat.mod_lt (fromBeBytes [byteOrZero hash 0, byteOrZero hash 1,
    byteOrZero hash 2, byteOrZero hash 3]) (Nat.two_pow_pos (32 - b)))
  rw [if_pos (by unfold leadingZeros; omega), u8, if_pos (by unfold leadingZeros; omega)]
  unfold leadingZeros
  congr 1
  omega

end

namespace HyperLogLog

variable {hll : HyperLogLog b}

theorem insert_eq :
    hll.insert hash =
      (u8 (rank hash b)).map (hll.raise ⟨bucket hash b, bucket_lt hll.bits_mem.2⟩) := by
  have hr : rank hash b - 1 + 1 = rank hash b := by
    rw [rank]
    omega
  simp only [insert, hll.lzMask_eq, countLeadingZeros_eq hll.bits_mem.2,
    bucketIndex_eq hll.bits_mem.2, dif_pos (bucket_lt hll.bits_mem.2)]
  by_cases hlt : rank hash b - 1 < 256
  · rw [u8, if_pos hlt, Option.bind_some, hr]
    exact (Option.map_eq_bind ..).symm
  · rw [u8, if_neg hlt, u8, if_neg (by omega)]
    rfl

/-- The rank of the hash in the register of its bucket. -/
def mark (hash : BlockHash) (i : Fin (2 ^ b)) : Nat := if i = bucket hash b then rank hash b else 0

theorem registers_raise {index : Fin (2 ^ b)} (h : (index : Nat) = bucket hash b) :
    (hll.raise index (rank hash b)).registers = hll.registers ⊔ mark hash := by
  funext i
  rw [raise, Pi.sup_apply, mark, ← h]
  by_cases hi : i = index
  · subst hi
    split
    next hlt => simp [hlt.le]
    next hle => simp [Nat.le_of_not_lt hle]
  · split <;> simp [hi, Fin.val_inj]

/-- For every hash, the index is in range, and the register of the index is raised to the rank, with
no overflow, exactly if the rank fits in a `u8`. -/
theorem insert_eq_iff (hll : HyperLogLog b) (hash : BlockHash) :
    bucketIndex hash b = bucket hash b ∧ bucket hash b < 2 ^ b ∧
      ((hll.insert hash).map (·.registers) = some (fun i => max (hll.registers i) (mark hash i)) ↔
        rank hash b ≤ 255) := by
  refine ⟨bucketIndex_eq hll.bits_mem.2, bucket_lt hll.bits_mem.2, ?_⟩
  rw [insert_eq, u8]
  split
  next hlt => exact iff_of_true (congrArg some (registers_raise rfl)) (Nat.le_of_lt_succ hlt)
  next hge => exact iff_of_false nofun (by omega)

/-- Thirty-three zero bytes have 260 zeros after four bits. -/
theorem long_hash_overflows :
    rank (replicate 33 0) 4 = 261 ∧ (new (b := 4) (by decide)).insert (replicate 33 0) = none :=
  ⟨by decide +kernel, rfl⟩

end HyperLogLog

end PegaFlow.Common
