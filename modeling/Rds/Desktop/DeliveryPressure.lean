import Mathlib.Data.List.Basic

/-!
# The pressure of the delivery

`DeliveryPressure` of `rds-desktop/src/session.rs` decides at each tick whether the bitrate is cut. A blockage
is to be penalised once, and then again only for a distinct hard failure. One flag remembers the penalty, and a
failure does not clear it: while nothing is delivered, no sample is true again (`answers_of_blocked`).
-/

namespace Rds.Desktop

/-- `MIN_SOFT_DELIVERY_LOAD_BYTES`. -/
def minSoftDeliveryLoadBytes : ℕ := 16 * 1024

/-- The arguments of a sample. -/
structure PressureSample where
  latePending : ℕ
  delayedFrames : ℕ
  delayedBytes : ℕ
  delivered : Bool
  failed : Bool

/-- `DeliveryPressure`. -/
structure DeliveryPressure where
  stalledTicks : ℕ := 0
  delayedTicks : ℕ := 0
  penalized : Bool := false

namespace DeliveryPressure

/-- The ticks with a substantial delayed payload, after a sample. -/
def nextDelayed (self : DeliveryPressure) (x : PressureSample) : ℕ :=
  if x.delayedFrames = 0 ∨ x.delayedBytes < minSoftDeliveryLoadBytes then 0 else min (self.delayedTicks + 1) 2

/-- The ticks without delivery, after a sample. -/
def nextStalled (self : DeliveryPressure) (x : PressureSample) : ℕ :=
  if x.latePending > 0 ∧ ¬ x.delivered then min (self.stalledTicks + 1) 2 else 0

/-- `impaired`. -/
def impaired (self : DeliveryPressure) (x : PressureSample) : Bool :=
  self.nextStalled x ≥ 2 ∨ self.nextDelayed x ≥ 2 ∨ x.failed

/-- `DeliveryPressure::sample`. -/
def sample (self : DeliveryPressure) (x : PressureSample) : Bool × DeliveryPressure :=
  let penalized := if x.delivered ∨ x.latePending = 0 then false else self.penalized
  if self.impaired x ∧ ¬ penalized then (true, ⟨self.nextStalled x, self.nextDelayed x, true⟩)
  else (false, ⟨self.nextStalled x, self.nextDelayed x, if self.impaired x then penalized else false⟩)

/-- What the samples return. -/
def answers (self : DeliveryPressure) : List PressureSample → List Bool
  | [] => []
  | x :: xs => (self.sample x).1 :: (self.sample x).2.answers xs

/-- The samples go on with a blockage: something is late, nothing is delivered, and the delivery is impaired. -/
def Blocked (self : DeliveryPressure) : List PressureSample → Prop
  | [] => True
  | x :: xs => x.latePending > 0 ∧ x.delivered = false ∧ self.impaired x = true ∧ (self.sample x).2.Blocked xs

theorem penalized_of_sample {s : DeliveryPressure} {x : PressureSample} (h : (s.sample x).1 = true) :
    (s.sample x).2.penalized = true := by
  unfold sample at h ⊢
  dsimp only at h ⊢
  generalize (if x.delivered = true ∨ x.latePending = 0 then false else s.penalized) = penalized at h ⊢
  split at h
  next hcut => rw [if_pos hcut]
  next => cases h

/-- **One sample** of a blockage that was penalised. -/
theorem sample_of_blocked {s : DeliveryPressure} {x : PressureSample} (hs : s.penalized = true)
    (hlate : x.latePending > 0) (hdelivered : x.delivered = false) (himpaired : s.impaired x = true) :
    (s.sample x).1 = false ∧ (s.sample x).2.penalized = true := by
  have hkept : ¬ (x.delivered = true ∨ x.latePending = 0) := by
    rintro (htrue | hnone)
    · cases hdelivered.symm.trans htrue
    · omega
  unfold sample
  simp [if_neg hkept, hs, himpaired]

/-- **The run**: no sample of the blockage is true again. -/
theorem answers_of_blocked {s : DeliveryPressure} {later : List PressureSample} (hs : s.penalized = true)
    (h : s.Blocked later) : s.answers later = later.map fun _ => false := by
  induction later generalizing s with
  | nil => rfl
  | cons x xs ih =>
    obtain ⟨hlate, hdelivered, himpaired, hrest⟩ := h
    obtain ⟨hfalse, hpenalized⟩ := sample_of_blocked hs hlate hdelivered himpaired
    rw [answers, hfalse, ih hpenalized hrest, List.map_cons]

end DeliveryPressure

/-- At which samples there is a failure that the sample before did not have. -/
def newFailures (previous : PressureSample) : List PressureSample → List Bool
  | [] => []
  | x :: xs => (x.failed && !previous.failed) :: newFailures x xs

theorem newFailures_eq_iff (previous : PressureSample) (later : List PressureSample) :
    (later.map fun _ => false) = newFailures previous later ↔
      (previous :: later).IsChain fun x y => y.failed = true → x.failed = true := by
  induction later generalizing previous with
  | nil => simp [newFailures]
  | cons x xs ih =>
    rw [newFailures, List.map_cons, List.cons.injEq, ih, List.isChain_cons_cons]
    refine and_congr_left fun _ => ?_
    cases x.failed <;> cases previous.failed <;> decide

/-- **One penalty for each blockage.** After a true sample, from any state, while the blockage goes on, no
sample is true. So the true samples are those with a new failure if and only if there is none. -/
theorem one_penalty (s : DeliveryPressure) (first : PressureSample) (later : List PressureSample)
    (hfirst : (s.sample first).1 = true) (hblocked : (s.sample first).2.Blocked later) :
    (s.sample first).2.answers later = (later.map fun _ => false) ∧
      ((s.sample first).2.answers later = newFailures first later ↔
        (first :: later).IsChain fun x y => y.failed = true → x.failed = true) := by
  have hfalse := DeliveryPressure.answers_of_blocked (DeliveryPressure.penalized_of_sample hfirst) hblocked
  rw [hfalse]
  exact ⟨rfl, newFailures_eq_iff first later⟩

/-- A sample of a blocked keyframe. -/
def lateFrame (failed : Bool) : PressureSample := ⟨1, 0, 0, false, failed⟩

theorem one_penalty_lateFrame :
    ((({} : DeliveryPressure).sample (lateFrame false)).2.sample (lateFrame false)).2.answers
      [lateFrame false, lateFrame false] = [false, false] :=
  (one_penalty (({} : DeliveryPressure).sample (lateFrame false)).2 (lateFrame false)
    [lateFrame false, lateFrame false] rfl ⟨by decide, rfl, rfl, by decide, rfl, rfl, trivial⟩).1

/-- **A failure that does not count.** A keyframe is blocked, the second sample is true, and the third has the
first failure. It is false. -/
theorem failure_ignored :
    ({} : DeliveryPressure).answers [lateFrame false, lateFrame false, lateFrame true] = [false, true, false] ∧
      ((({} : DeliveryPressure).sample (lateFrame false)).2.sample (lateFrame false)).2.Blocked [lateFrame true] ∧
      newFailures (lateFrame false) [lateFrame true] = [true] :=
  ⟨by decide, ⟨by decide, rfl, rfl, trivial⟩, rfl⟩

end Rds.Desktop
