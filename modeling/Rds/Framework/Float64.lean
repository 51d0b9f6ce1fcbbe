import Mathlib

/-!
# Nonnegative doubles

The values of IEEE 754 binary64 arithmetic that a program meets when it works with ratios of machine
words: nonnegative and in the normal range. A double is the rational number it stands for, an operation
is the exact operation followed by `nearest`, and `nearest` rounds to 53 significant bits, ties to even.
Everything computes.
-/

namespace Framework.Float64

/-- The natural number nearest to `n / d`, ties to even. -/
def roundEven (n d : ℕ) : ℕ :=
  if 2 * (n % d) < d ∨ (2 * (n % d) = d ∧ n / d % 2 = 0) then n / d else n / d + 1

/-- The exponent of the leading bit of `n / d`. -/
def exponent (n d : ℕ) : ℤ :=
  let e : ℤ := (Nat.log2 n : ℤ) - Nat.log2 d
  if n * 2 ^ (-e).toNat < d * 2 ^ e.toNat then e - 1 else e

/-- The double nearest to a nonnegative rational. -/
def nearest (q : ℚ) : ℚ :=
  if q.num.toNat = 0 then 0
  else
    -- the value of a unit in the last of 53 places
    let unit := exponent q.num.toNat q.den - 52
    roundEven (q.num.toNat * 2 ^ (-unit).toNat) (q.den * 2 ^ unit.toNat) * (2 : ℚ) ^ unit

/-- `x as f64` of a machine word. -/
def ofNat (n : ℕ) : ℚ := nearest n

/-- Division. -/
def div (a b : ℚ) : ℚ := nearest (a / b)

/-- Multiplication. -/
def mul (a b : ℚ) : ℚ := nearest (a * b)

/-- `x as u64`: the fraction is cut off, and what is too large becomes the largest word. -/
def toU64 (a : ℚ) : ℕ := min ⌊a⌋.toNat (2 ^ 64 - 1)

example : nearest (1 / 10) = 3602879701896397 / 36028797018963968 := by decide +kernel

end Framework.Float64
