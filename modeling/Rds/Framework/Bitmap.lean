import Mathlib.Data.List.Basic
import Mathlib.Data.Nat.Bitwise

/-!
# Bitmaps

A bitmap is a list of 64-bit words; bit `i` is bit `i % 64` of word `i / 64`. Bits
outside of the list read as unset.
-/

namespace Framework

open List

/-- The word in which only bit `k` is set. -/
def bitMask (k : ℕ) : UInt64 := 1 <<< UInt64.ofNat k

/-- Set bit `i`. -/
def setBit (bits : List UInt64) (i : ℕ) : List UInt64 :=
  bits.modify (i / 64) fun w => w ||| bitMask (i % 64)

/-- Is bit `i` set? -/
def testBit (bits : List UInt64) (i : ℕ) : Bool :=
  bits[i / 64]?.any fun w => w &&& bitMask (i % 64) ≠ 0

/-! ### Words -/

theorem toNat_ofNat_mod {k : ℕ} (hk : k < 64) : (UInt64.ofNat k).toNat % 64 = k := by
  show k % 2 ^ 64 % 64 = k
  omega

theorem toNat_bitMask {k : ℕ} (hk : k < 64) : (bitMask k).toNat = 2 ^ k := by
  have hpow : 2 ^ k < 2 ^ 64 := Nat.pow_lt_pow_right (by decide) hk
  rw [bitMask, UInt64.toNat_shiftLeft, toNat_ofNat_mod hk, Nat.shiftLeft_eq]
  show 1 * 2 ^ k % 2 ^ 64 = 2 ^ k
  rw [Nat.one_mul, Nat.mod_eq_of_lt hpow]

theorem and_bitMask_ne_zero {k : ℕ} (hk : k < 64) (w : UInt64) :
    w &&& bitMask k ≠ 0 ↔ w.toNat.testBit k = true := by
  rw [Ne, ← UInt64.toNat_inj, UInt64.toNat_and, toNat_bitMask hk, Nat.and_two_pow]
  cases w.toNat.testBit k with
  | false => simp
  | true => simp

theorem testBit_or_bitMask {k : ℕ} (hk : k < 64) (w : UInt64) (j : ℕ) :
    (w ||| bitMask k).toNat.testBit j = (w.toNat.testBit j || decide (k = j)) := by
  rw [UInt64.toNat_or, toNat_bitMask hk, Nat.testBit_or, Nat.testBit_two_pow]

theorem shiftRight_eq_zero {r : ℕ} (hr : r < 64) {w : UInt64}
    (h : ∀ k, r ≤ k → k < 64 → w.toNat.testBit k = false) : w >>> UInt64.ofNat r = 0 := by
  have hlt : w.toNat < 2 ^ r := by
    refine Nat.lt_pow_two_of_testBit _ fun k hk => ?_
    by_cases hk64 : k < 64
    · exact h k hk hk64
    · exact Nat.testBit_lt_two_pow (w.toNat_lt.trans_le (Nat.pow_le_pow_right (by decide)
        (Nat.not_lt.mp hk64)))
  rw [← UInt64.toNat_inj, UInt64.toNat_shiftRight, toNat_ofNat_mod hr,
    Nat.shiftRight_eq_div_pow, Nat.div_eq_of_lt hlt]
  rfl

theorem testBit_eq_false_of_shiftRight {r : ℕ} (hr : r < 64) {w : UInt64} (h : w >>> UInt64.ofNat r = 0) {k : ℕ}
    (hk : r ≤ k) : w.toNat.testBit k = false := by
  rw [← UInt64.toNat_inj, UInt64.toNat_shiftRight, toNat_ofNat_mod hr] at h
  have hbit : (w.toNat >>> r).testBit (k - r) = false := by
    rw [h]
    exact Nat.zero_testBit _
  rwa [Nat.testBit_shiftRight, Nat.add_sub_cancel' hk] at hbit

/-! ### Bitmaps -/

section Bits

variable {bits : List UInt64} {i j : ℕ}

theorem testBit_eq_true :
    testBit bits i = true ↔ ∃ w, bits[i / 64]? = some w ∧ w.toNat.testBit (i % 64) = true := by
  have hlt : i % 64 < 64 := Nat.mod_lt i (by decide)
  unfold testBit
  cases hw : bits[i / 64]? with
  | none => simp
  | some w => simp [and_bitMask_ne_zero hlt]

@[simp] theorem length_setBit : (setBit bits i).length = bits.length := length_modify ..

theorem testBit_setBit (hi : i / 64 < bits.length) :
    testBit (setBit bits i) j = true ↔ testBit bits j = true ∨ i = j := by
  have hlt : i % 64 < 64 := Nat.mod_lt i (by decide)
  rw [testBit_eq_true, testBit_eq_true, setBit, getElem?_modify]
  by_cases hij : i / 64 = j / 64
  · -- the same word
    obtain ⟨w, hw⟩ : ∃ w, bits[j / 64]? = some w := ⟨_, getElem?_eq_getElem (hij ▸ hi)⟩
    have hsame : i % 64 = j % 64 ↔ i = j := by omega
    simp only [if_pos hij, hw, Option.map_eq_map, Option.map_some, Option.some.injEq,
      exists_eq_left', testBit_or_bitMask hlt, Bool.or_eq_true, decide_eq_true_eq, hsame]
  · have hne : i ≠ j := fun h => hij (h ▸ rfl)
    simp [hij, hne]

@[simp] theorem length_foldl_setBit (l : List ℕ) : (l.foldl setBit bits).length = bits.length := by
  induction l generalizing bits with
  | nil => rfl
  | cons i l ih => rw [foldl_cons, ih, length_setBit]

theorem testBit_foldl_setBit {l : List ℕ} (hl : ∀ i ∈ l, i / 64 < bits.length) :
    testBit (l.foldl setBit bits) j = true ↔ testBit bits j = true ∨ j ∈ l := by
  induction l generalizing bits with
  | nil => simp
  | cons i l ih =>
    have hrest : ∀ k ∈ l, k / 64 < (setBit bits i).length := by
      intro k hk
      rw [length_setBit]
      exact hl k (mem_cons_of_mem i hk)
    rw [foldl_cons, ih hrest, testBit_setBit (hl i mem_cons_self), mem_cons, or_assoc, @eq_comm _ i j]

theorem testBit_replicate_zero (n : ℕ) : testBit (List.replicate n 0) j = false := by
  rw [← Bool.not_eq_true, testBit_eq_true]
  rintro ⟨w, hw, hbit⟩
  obtain rfl : w = 0 := (mem_replicate.mp (mem_of_getElem? hw)).2
  simp at hbit

/-- Bitmaps of one length are their bits. -/
theorem ext_testBit {bits' : List UInt64} (hlen : bits.length = bits'.length)
    (h : ∀ i, testBit bits i = true ↔ testBit bits' i = true) : bits = bits' := by
  refine ext_getElem hlen fun n hn hn' => UInt64.toNat_inj.mp (Nat.eq_of_testBit_eq fun k => ?_)
  by_cases hk : k < 64
  · have hdiv : (64 * n + k) / 64 = n := by omega
    have hmod : (64 * n + k) % 64 = k := by omega
    have := h (64 * n + k)
    rw [testBit_eq_true, testBit_eq_true, hdiv, hmod, getElem?_eq_getElem hn, getElem?_eq_getElem hn'] at this
    simpa only [Option.some.injEq, exists_eq_left', ← Bool.eq_iff_iff] using this
  · have hpow : 2 ^ 64 ≤ 2 ^ k := Nat.pow_le_pow_right (by decide) (Nat.not_lt.mp hk)
    rw [Nat.testBit_lt_two_pow (bits[n].toNat_lt.trans_le hpow),
      Nat.testBit_lt_two_pow (bits'[n].toNat_lt.trans_le hpow)]

end Bits

end Framework
