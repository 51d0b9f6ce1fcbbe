import Mathlib
import Rds.Framework.Postcard

/-!
# Durations

`std::time::Duration`: a number of nanoseconds whose whole seconds fit in a `u64`.
Arithmetic on durations is checked, so it is total on the type; comparisons are those
of the nanoseconds.
-/

namespace Framework

/-- Nanoseconds in a second. -/
def nanosPerSec : ℕ := 1000000000

/-- The number of durations: `2 ^ 64` seconds, in nanoseconds. -/
def durationLimit : ℕ := 18446744073709551616000000000

theorem durationLimit_eq : durationLimit = 2 ^ 64 * nanosPerSec := by decide

/-- A duration, in nanoseconds. -/
structure Duration where
  ns : ℕ
  lt : ns < durationLimit
  deriving DecidableEq

namespace Duration

variable {a b : Duration}

theorem ext (h : a.ns = b.ns) : a = b := by
  cases a
  cases b
  cases h
  rfl

theorem ext_iff : a = b ↔ a.ns = b.ns := ⟨fun h => h ▸ rfl, ext⟩

instance : LinearOrder Duration :=
  LinearOrder.lift' ns fun _ _ h => ext h

theorem le_def : a ≤ b ↔ a.ns ≤ b.ns := Iff.rfl

theorem lt_def : a < b ↔ a.ns < b.ns := Iff.rfl

/-- `Duration::ZERO`. -/
def zero : Duration := ⟨0, by decide⟩

theorem zero_le (a : Duration) : zero ≤ a := Nat.zero_le a.ns

/-- `Duration::from_secs`. -/
def fromSecs (secs : UInt64) : Duration :=
  ⟨secs.toNat * nanosPerSec, by
    rw [durationLimit_eq]
    exact Nat.mul_lt_mul_of_pos_right secs.toNat_lt (by decide)⟩

/-- `Duration::as_secs`. -/
def asSecs (d : Duration) : UInt64 := UInt64.ofNat (d.ns / nanosPerSec)

/-- `Duration::subsec_nanos`. -/
def subsecNanos (d : Duration) : UInt32 := UInt32.ofNat (d.ns % nanosPerSec)

/-- `Duration::checked_sub`. -/
def checkedSub (a b : Duration) : Option Duration :=
  if b.ns ≤ a.ns then some ⟨a.ns - b.ns, Nat.lt_of_le_of_lt (Nat.sub_le _ _) a.lt⟩ else none

/-- `Duration::checked_add`. -/
def checkedAdd (a b : Duration) : Option Duration :=
  if h : a.ns + b.ns < durationLimit then some ⟨a.ns + b.ns, h⟩ else none

/-- `Duration::is_zero`. -/
def isZero (d : Duration) : Bool := d.ns == 0

theorem checkedSub_eq_some {a b c : Duration} :
    a.checkedSub b = some c ↔ b ≤ a ∧ c.ns = a.ns - b.ns := by
  unfold checkedSub
  split
  · next h =>
    rw [Option.some.injEq, ext_iff]
    exact ⟨fun hc => ⟨h, hc.symm⟩, fun hc => hc.2.symm⟩
  next h => exact ⟨fun hc => absurd hc (by simp), fun hc => absurd hc.1 h⟩

theorem checkedAdd_eq_some {a b c : Duration} :
    a.checkedAdd b = some c ↔ c.ns = a.ns + b.ns := by
  unfold checkedAdd
  split
  · next h =>
    rw [Option.some.injEq, ext_iff]
    exact eq_comm
  next h => exact ⟨fun hc => absurd hc (by simp), fun hc => absurd (hc ▸ c.lt) h⟩

theorem toNat_asSecs (d : Duration) : d.asSecs.toNat = d.ns / nanosPerSec := by
  refine UInt64.toNat_ofNat_of_lt' ?_
  refine Nat.div_lt_of_lt_mul ?_
  have hlt := d.lt
  exact hlt

theorem toNat_subsecNanos (d : Duration) : d.subsecNanos.toNat = d.ns % nanosPerSec := by
  refine UInt32.toNat_ofNat_of_lt' ?_
  exact Nat.lt_trans (Nat.mod_lt _ (by decide)) (by decide)

theorem asSecs_lt_iff {d : Duration} {secs : UInt64} : d.asSecs < secs ↔ d < fromSecs secs := by
  rw [UInt64.lt_iff_toNat_lt, toNat_asSecs, lt_def]
  exact Nat.div_lt_iff_lt_mul (by decide)

theorem asSecs_mono (h : a ≤ b) : a.asSecs ≤ b.asSecs := by
  rw [UInt64.le_iff_toNat_le, toNat_asSecs, toNat_asSecs]
  exact Nat.div_le_div_right h

/-! ### Formats -/

/-- A duration from its seconds and nanoseconds, if the nanoseconds are a fraction of
a second or carry into a second that still fits. -/
def ofParts (secs : UInt64) (nanos : UInt32) : Option Duration :=
  if h : secs.toNat * nanosPerSec + nanos.toNat < durationLimit then
    some ⟨secs.toNat * nanosPerSec + nanos.toNat, h⟩
  else none

theorem ofParts_self (d : Duration) : ofParts d.asSecs d.subsecNanos = some d := by
  have hns : d.asSecs.toNat * nanosPerSec + d.subsecNanos.toNat = d.ns := by
    rw [toNat_asSecs, toNat_subsecNanos]
    exact Nat.div_add_mod' _ _
  unfold ofParts
  rw [dif_pos (by rw [hns]; exact d.lt)]
  exact congrArg some (ext hns)

end Duration

/-- `Duration` in postcard: its seconds and its nanoseconds. -/
def Postcard.Codec.duration : Postcard.Codec Duration where
  encode d := word64.encode d.asSecs ++ word32.encode d.subsecNanos
  decode input :=
    ((word64.pair word32).decode input).bind fun r =>
      (Duration.ofParts r.1.1 r.1.2).map fun d => (d, r.2)
  Valid _ := True
  decode_encode d rest _ := by
    have hpair := (word64.pair word32).decode_encode (d.asSecs, d.subsecNanos) rest
      ⟨valid_word64 _, valid_word32 _⟩
    change (word64.pair word32).decode (word64.encode d.asSecs ++ word32.encode d.subsecNanos
      ++ rest) = _ at hpair
    rw [hpair, Option.bind_some, Duration.ofParts_self, Option.map_some]

end Framework
