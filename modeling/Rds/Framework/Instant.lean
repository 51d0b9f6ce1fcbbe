import Mathlib
import Rds.Framework.Duration

/-!
# Instants of a monotonic clock

`std::time::Instant` and the saturating arithmetic of `std::time::Duration`. An instant is a reading of
a monotonic clock, whose whole seconds are a non-negative `i64`. Hence the time between two instants is
a duration, and it stays below `Duration::MAX`: a deadline that saturates is never reached
(`le_sub_of_saturatingMul_le`).
-/

namespace Framework

open Duration

namespace Duration

/-- `Duration::MAX`. -/
def maxValue : Duration := ⟨durationLimit - 1, by decide⟩

/-- A duration of so many nanoseconds, or `Duration::MAX`. -/
def saturating (ns : ℕ) : Duration :=
  if h : ns < durationLimit then ⟨ns, h⟩ else maxValue

/-- `Duration::saturating_mul`. -/
def saturatingMul (d : Duration) (k : ℕ) : Duration := saturating (d.ns * k)

/-- `Duration::saturating_add`. -/
def saturatingAdd (a b : Duration) : Duration := saturating (a.ns + b.ns)

/-- `Duration::from_millis`, of a constant. -/
def fromMillis (millis : UInt32) : Duration :=
  ⟨millis.toNat * 1000000, by
    have h := millis.toNat_lt
    have hlimit : durationLimit = 18446744073709551616000000000 := rfl
    omega⟩

theorem ns_saturating (ns : ℕ) : (saturating ns).ns = min ns (durationLimit - 1) := by
  unfold saturating
  split
  next h => exact (Nat.min_eq_left (Nat.le_sub_one_of_lt h)).symm
  next h => exact (Nat.min_eq_right (Nat.le_trans (Nat.sub_le _ _) (Nat.le_of_not_lt h))).symm

theorem ns_max (a b : Duration) : (max a b).ns = max a.ns b.ns := by
  rcases le_total a b with h | h
  · rw [max_eq_right h, max_eq_right (le_def.mp h)]
  · rw [max_eq_left h, max_eq_left (le_def.mp h)]

end Duration

/-- The number of instants: `2 ^ 63` seconds, in nanoseconds. -/
def instantLimit : ℕ := 9223372036854775808000000000

/-- An instant, in nanoseconds since the clock started. -/
structure Instant where
  ns : ℕ
  lt : ns < instantLimit
  deriving DecidableEq

namespace Instant

theorem ext {a b : Instant} (h : a.ns = b.ns) : a = b := by
  cases a
  cases b
  cases h
  rfl

instance : LinearOrder Instant :=
  LinearOrder.lift' ns fun _ _ h => ext h

theorem le_def {a b : Instant} : a ≤ b ↔ a.ns ≤ b.ns := Iff.rfl

theorem lt_def {a b : Instant} : a < b ↔ a.ns < b.ns := Iff.rfl

/-- `Instant::saturating_duration_since`. -/
def saturatingDurationSince (now since : Instant) : Duration :=
  ⟨now.ns - since.ns, by
    have h := now.lt
    have hinstant : instantLimit = 9223372036854775808000000000 := rfl
    have hduration : durationLimit = 18446744073709551616000000000 := rfl
    omega⟩

variable {now since : Instant} {d floor : Duration} {k : ℕ}

theorem le_sub_of_saturatingMul_le (h : max (d.saturatingMul k) floor ≤ now.saturatingDurationSince since) :
    max (k * d.ns) floor.ns ≤ now.ns - since.ns := by
  have hle : (max (d.saturatingMul k) floor).ns ≤ now.ns - since.ns := h
  rw [ns_max, saturatingMul, ns_saturating, Nat.mul_comm] at hle
  have hnow := now.lt
  have hinstant : instantLimit = 9223372036854775808000000000 := rfl
  have hduration : durationLimit = 18446744073709551616000000000 := rfl
  omega

theorem sub_lt_of_lt_saturatingMul (h : now.saturatingDurationSince since < max (d.saturatingMul k) floor) :
    now.ns - since.ns < max (k * d.ns) floor.ns := by
  have hlt : now.ns - since.ns < (max (d.saturatingMul k) floor).ns := h
  rw [ns_max, saturatingMul, ns_saturating, Nat.mul_comm] at hlt
  omega

end Instant

end Framework
