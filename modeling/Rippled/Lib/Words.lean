import Mathlib.Data.Nat.Bitwise
import Rippled.Lib.Codec

/-!
# Bits of 64-bit words

Masks and shifts of machine words, read as arithmetic on the numbers they denote.
-/

namespace Rippled.Lib.Words

/-- A single bit of a word is clear or set. -/
theorem and_bit_cases (v : UInt64) {k : Nat} (hk : k < 64) :
    (v &&& UInt64.ofNat (2 ^ k) = 0 ∧ v.toNat / 2 ^ k % 2 = 0) ∨
      (v &&& UInt64.ofNat (2 ^ k) = UInt64.ofNat (2 ^ k) ∧ v.toNat / 2 ^ k % 2 = 1) := by
  have hbit := UInt64.toNat_ofNat_of_lt' (Nat.pow_lt_pow_right (a := 2) (by decide) hk)
  have hand : (v &&& UInt64.ofNat (2 ^ k)).toNat = (v.toNat.testBit k).toNat * 2 ^ k := by
    rw [UInt64.toNat_and, hbit, Nat.and_two_pow]
  have htest := Nat.testBit_eq_decide_div_mod_eq (x := v.toNat) (i := k)
  rcases Nat.mod_two_eq_zero_or_one (v.toNat / 2 ^ k) with h | h
  · refine .inl ⟨UInt64.toNat_inj.1 ?_, h⟩
    rw [hand, htest, h]
    simp
  · refine .inr ⟨UInt64.toNat_inj.1 ?_, h⟩
    rw [hand, htest, h, hbit]
    simp

theorem and_bit_eq_zero (v : UInt64) {k : Nat} (hk : k < 64) :
    v &&& UInt64.ofNat (2 ^ k) = 0 ↔ v.toNat / 2 ^ k % 2 = 0 := by
  rcases and_bit_cases v hk with ⟨hand, hbit⟩ | ⟨hand, hbit⟩
  · exact iff_of_true hand hbit
  · refine iff_of_false (fun h => ?_) (by omega)
    have hpow := congrArg UInt64.toNat (hand.symm.trans h)
    rw [UInt64.toNat_ofNat_of_lt' (Nat.pow_lt_pow_right (by decide) hk)] at hpow
    exact (Nat.pow_pos (by decide)).ne' hpow

theorem eq_of_bits {a b : UInt64} (h : ∀ i < 64, a.toBitVec.getLsbD i = b.toBitVec.getLsbD i) : a = b :=
  UInt64.toBitVec_inj.1 (BitVec.eq_of_getLsbD_eq h)

theorem bit_and {v m q : UInt64} (h : v &&& m = q) (i : Nat) :
    (v.toBitVec.getLsbD i && m.toBitVec.getLsbD i) = q.toBitVec.getLsbD i := by
  rw [← h, UInt64.toBitVec_and, BitVec.getLsbD_and]

section Masks
variable {v p m : UInt64} (hm : v &&& m = 0)
include hm

/-- Masking out two sets of bits, when one is clear and what the word has of the other is put back. -/
theorem mask_set {q : UInt64} (hp : v &&& p = q) : v &&& ~~~(p ||| m) ||| q = v := by
  refine eq_of_bits fun i hi => ?_
  have hmi := bit_and hm i
  have hpi := bit_and hp i
  cases hv : v.toBitVec.getLsbD i <;> cases hb : p.toBitVec.getLsbD i <;> simp_all

theorem mask_clear (hp : v &&& p = 0) : v &&& ~~~(p ||| m) = v := by
  have hset := mask_set hm hp
  rwa [UInt64.or_zero] at hset

/-- A set of bits that is put on a word in which it and another one are clear. -/
theorem mask_or (hp : v &&& p = 0) : (v ||| p) &&& ~~~(p ||| m) = v := by
  refine eq_of_bits fun i hi => ?_
  have hmi := bit_and hm i
  have hpi := bit_and hp i
  cases hv : v.toBitVec.getLsbD i <;> simp_all

end Masks

theorem or_and (v p m : UInt64) : (v ||| p) &&& m = (v &&& m) ||| (p &&& m) := by
  refine eq_of_bits fun i hi => ?_
  simp [Bool.and_or_distrib_right]

theorem and_or32 (v p m : UInt32) : v &&& (p ||| m) = (v &&& p) ||| (v &&& m) := by
  apply UInt32.toBitVec_inj.1
  ext i hi
  simp [Bool.and_or_distrib_left]

theorem toNat_shiftIn (v : UInt64) (b : UInt8) :
    ((v <<< 8) ||| b.toUInt64).toNat = v.toNat % 2 ^ 56 * 256 + b.toNat := by
  have hb : b.toNat < 2 ^ 8 := b.toNat_lt
  rw [UInt64.toNat_or, UInt64.toNat_shiftLeft, UInt8.toNat_toUInt64]
  have hshift : v.toNat <<< ((8 : UInt64).toNat % 64) % 2 ^ 64 = (v.toNat % 2 ^ 56) <<< 8 := by
    rw [Nat.shiftLeft_eq, Nat.shiftLeft_eq]
    have h8 : (8 : UInt64).toNat % 64 = 8 := rfl
    rw [h8]
    omega
  rw [hshift, ← Nat.shiftLeft_add_eq_or_of_lt hb, Nat.shiftLeft_eq]

/-- The low `k` bits and the bits above them, put together again. -/
theorem or_shiftLeft_toNat {lo hi : UInt64} {k : UInt64} (hk : k.toNat < 64) (hlo : lo.toNat < 2 ^ k.toNat)
    (hhi : hi.toNat * 2 ^ k.toNat < 2 ^ 64) : (lo ||| (hi <<< k)).toNat = hi.toNat * 2 ^ k.toNat + lo.toNat := by
  rw [UInt64.toNat_or, UInt64.toNat_shiftLeft, Nat.mod_eq_of_lt hk, Nat.shiftLeft_eq,
    Nat.mod_eq_of_lt hhi, Nat.lor_comm,
    ← Nat.shiftLeft_eq, ← Nat.shiftLeft_add_eq_or_of_lt hlo]

end Rippled.Lib.Words
