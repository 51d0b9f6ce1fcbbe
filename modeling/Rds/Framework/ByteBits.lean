import Mathlib.Data.Nat.Bitwise

/-!
# Bit sets in bytes

A set of 8-bit numbers as 32 bytes: `n` is bit `n % 8` of byte `n / 8`. Writing one bit leaves all others
(`bit_write`).
-/

namespace Framework

/-- 256 bits. -/
abbrev ByteBits := Fin 32 → UInt8

namespace ByteBits

/-- The byte of a number. -/
def byteOf (n : UInt8) : Fin 32 := ⟨n.toNat / 8, Nat.div_lt_of_lt_mul n.toNat_lt⟩

/-- The place of a number in its byte. -/
def mask (n : UInt8) : UInt8 := 1 <<< (n % 8)

/-- Is the bit set? -/
def bit (bits : ByteBits) (n : UInt8) : Bool := bits (byteOf n) &&& mask n ≠ 0

/-- Write a bit. -/
def write (bits : ByteBits) (n : UInt8) (on : Bool) : ByteBits :=
  Function.update bits (byteOf n) (if on then bits (byteOf n) ||| mask n else bits (byteOf n) &&& ~~~mask n)

theorem toNat_mask (n : UInt8) : (mask n).toNat = 2 ^ (n.toNat % 8) := by
  have hlt : n.toNat % 8 < 8 := Nat.mod_lt _ (by decide)
  have hpow : 2 ^ (n.toNat % 8) < 2 ^ 8 := Nat.pow_lt_pow_right (by decide) hlt
  have hshift : (n % 8).toNat % 8 = n.toNat % 8 := by
    exact Nat.mod_mod _ _
  rw [mask, UInt8.toNat_shiftLeft, hshift, Nat.shiftLeft_eq]
  show 1 * 2 ^ (n.toNat % 8) % 2 ^ 8 = _
  rw [Nat.one_mul, Nat.mod_eq_of_lt hpow]

theorem and_mask_ne_zero (b n : UInt8) : b &&& mask n ≠ 0 ↔ b.toNat.testBit (n.toNat % 8) = true := by
  rw [Ne, ← UInt8.toNat_inj, UInt8.toNat_and, toNat_mask, Nat.and_two_pow]
  cases b.toNat.testBit (n.toNat % 8) with
  | false => simp
  | true => simp

theorem testBit_or_mask (b n : UInt8) (j : ℕ) :
    (b ||| mask n).toNat.testBit j = (b.toNat.testBit j || decide (n.toNat % 8 = j)) := by
  rw [UInt8.toNat_or, toNat_mask, Nat.testBit_or, Nat.testBit_two_pow]

theorem testBit_and_not_mask (b n : UInt8) {j : ℕ} (hj : j < 8) :
    (b &&& ~~~mask n).toNat.testBit j = (b.toNat.testBit j && decide (n.toNat % 8 ≠ j)) := by
  have hnot : (~~~mask n).toNat.testBit j = !(mask n).toNat.testBit j := by
    show (~~~(mask n).toBitVec).getLsbD j = !(mask n).toBitVec.getLsbD j
    rw [BitVec.getLsbD_not, decide_eq_true hj, Bool.true_and]
  rw [UInt8.toNat_and, Nat.testBit_and, hnot, toNat_mask]
  by_cases h : n.toNat % 8 = j
  · simp [h]
  · simp [h]

/-- **A write changes one bit.** -/
theorem bit_write (bits : ByteBits) (n m : UInt8) (on : Bool) :
    bit (write bits n on) m = if m = n then on else bit bits m := by
  have hbyte : ∀ b : UInt8, decide (b &&& mask m ≠ 0) = b.toNat.testBit (m.toNat % 8) := by
    intro b
    rw [Bool.eq_iff_iff, decide_eq_true_eq]
    exact and_mask_ne_zero b m
  unfold bit write
  rw [hbyte, hbyte]
  by_cases hsame : byteOf m = byteOf n
  · have hdiv : m.toNat / 8 = n.toNat / 8 := congrArg Fin.val hsame
    have hplace : n.toNat % 8 = m.toNat % 8 ↔ m = n := by
      rw [← UInt8.toNat_inj]
      omega
    rw [hsame, Function.update_self]
    cases on with
    | true =>
      rw [if_pos rfl, testBit_or_mask]
      by_cases h : m = n
      · rw [if_pos h, decide_eq_true (hplace.mpr h), Bool.or_true]
      · rw [if_neg h, decide_eq_false (mt hplace.mp h), Bool.or_false]
    | false =>
      rw [if_neg Bool.false_ne_true, testBit_and_not_mask _ _ (Nat.mod_lt _ (by decide))]
      by_cases h : m = n
      · rw [if_pos h, decide_eq_false (not_not.mpr (hplace.mpr h)), Bool.and_false]
      · rw [if_neg h, decide_eq_true (mt hplace.mp h), Bool.and_true]
  · have hne : m ≠ n := fun h => hsame (congrArg byteOf h)
    rw [Function.update_of_ne hsame, if_neg hne]

end ByteBits

end Framework
