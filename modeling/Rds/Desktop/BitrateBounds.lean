import Rds.Desktop.Bitrate

/-!
# Bounds of the encoder bitrate

The bitrate stays between the floor and the ceiling of its controller, loses at most three tenths
in one call, and grows only while delivery is healthy: not in an impaired call, not in the twenty
healthy calls after one, and not without a delivery. What `step` proposes is in the bounds
(`Stepped.bounds`), and receipts can only lower, keep or probe it (`called_applyDelivery`).
-/

namespace Rds.Desktop.BitrateController

/-- The condition of the delivery floor in `step_with_delivery_floor`: packet loss alone cut the
bitrate, deliveries are healthy, and a floor is given. -/
def FloorApplies (self : BitrateController) (held : Bool) (call : Sample) : Prop :=
  ¬ call.impaired ∧ ¬ held ∧ call.delivered ∧ self.deliveryHoldTicks = 0 ∧ ¬ self.rttReduction ∧
    self.rttRiseBaseline = none ∧ call.deadlineMisses = 0 ∧
    self.reductionReason = some .sampledPacketLoss ∧ ∃ floor, call.deliveryFloor = some floor

/-! ### One call -/

/-- The bitrate of a controller is between its bounds. -/
structure Bounded (c : BitrateController) : Prop where
  word : c.ceiling ≤ maxWord
  floor : c.floor ≤ c.current
  ceiling : c.current ≤ c.ceiling

theorem pathCut_eq (n : ℕ) : pathCut n = 7 * n / 10 := by
  unfold pathCut
  omega

theorem pathCut_le_deadlineCut (n : ℕ) : pathCut n ≤ deadlineCut n := by
  unfold pathCut deadlineCut
  omega

theorem Stepped.bounds {c c' : BitrateController} (h : Stepped c c') (hc : Bounded c) :
    max c.floor (pathCut c.current) ≤ c'.current ∧ c'.current ≤ c.ceiling := by
  obtain ⟨hword, hfloor, hceiling⟩ := hc
  have hdead := deadlineCut_le c.current
  have hlow := pathCut_le_deadlineCut c.current
  cases hreason : c'.reductionReason with
  | none =>
    rcases h.kept hreason with heq | heq <;> rw [heq]
    · omega
    · unfold satAdd
      omega
  | some reason => rcases h.cut (hreason ▸ rfl) with heq | heq <;> rw [heq] <;> omega

/-- **What a call does to the bitrate.** -/
structure Called (c c' : BitrateController) (call : Sample) : Prop where
  floor : c'.floor = c.floor
  ceiling : c'.ceiling = c.ceiling
  hold : c'.deliveryHoldTicks = if call.impaired then 20 else c.deliveryHoldTicks - 1
  lower : max c.floor (pathCut c.current) ≤ c'.current
  upper : c'.current ≤ c.ceiling
  kept : call.impaired = true ∨ 0 < c.deliveryHoldTicks ∨ call.delivered = false →
    c'.current ≤ c.current

/-- **Receipts** lower the proposed bitrate, keep it, or probe a hundredth above the previous. -/
theorem called_applyDelivery {c next : BitrateController} (hc : Bounded c) (h : Stepped c next)
    (call : Sample) :
    Called c (next.applyDelivery c.current call.impaired call.delivered) call ∧
      (next.applyDelivery c.current call.impaired call.delivered).current ≤
        c.current + max 1 (c.current / 100) := by
  obtain ⟨hlow, hhigh⟩ := h.bounds hc
  obtain ⟨hf, hce, -, hhold, -⟩ := h
  obtain ⟨hword, hfloor, hceiling⟩ := hc
  have hcut := pathCut_le c.current
  -- the smaller of the proposed and the previous bitrate
  have hmin : max c.floor (pathCut c.current) ≤ min next.current c.current ∧
      min next.current c.current ≤ c.ceiling ∧ min next.current c.current ≤ c.current := by omega
  have hsmall := hmin.2.2.trans (Nat.le_add_right _ (max 1 (c.current / 100)))
  obtain ⟨path, misses, impaired, delivered, floor⟩ := call
  unfold applyDelivery
  dsimp only
  cases impaired with
  | true =>
    rw [if_pos rfl]
    split
    · refine ⟨⟨hf, hce, rfl, ?_, ?_, fun _ => ?_⟩, ?_⟩ <;> dsimp only <;> omega
    · exact ⟨⟨hf, hce, rfl, hmin.1, hmin.2.1, fun _ => hmin.2.2⟩, hsmall⟩
  | false =>
    rw [if_neg Bool.false_ne_true]
    split
    · exact ⟨⟨hf, hce, congrArg (· - 1) hhold, hmin.1, hmin.2.1, fun _ => hmin.2.2⟩, hsmall⟩
    next hpos =>
    have hzero : next.deliveryHoldTicks = c.deliveryHoldTicks - 1 := by omega
    cases delivered with
    | false =>
      exact ⟨⟨hf, hce, hzero, hmin.1, hmin.2.1, fun _ => hmin.2.2⟩, hsmall⟩
    | true =>
      rw [if_neg (by simp)]
      have hprobe : c.current ≤ probe c.current ∧ probe c.current ≤ c.current + max 1 (c.current / 100) := by
        unfold probe satAdd
        omega
      have hno : ¬ (false = true ∨ 0 < c.deliveryHoldTicks ∨ true = false) := by
        simpa [hhold] using hpos
      refine ⟨⟨hf, hce, hzero, ?_, ?_, fun hkept => absurd hkept hno⟩, ?_⟩ <;> dsimp only <;>
        split <;> omega

variable {c : BitrateController}

theorem called_stepWithDeliveryFloor (hc : Bounded c) (call : Sample) :
    Called c (c.stepWithDeliveryFloor call) call := by
  have hcalled := (called_applyDelivery hc (stepped_step c call.path call.deadlineMisses) call).1
  unfold stepWithDeliveryFloor applyFloor
  split
  · next happlies =>
    obtain ⟨himpaired, hheld, hdelivered, -⟩ := happlies
    split
    · obtain ⟨hf, hce, hhold, hlow, hhigh, -⟩ := hcalled
      refine ⟨hf, hce, hhold, hlow.trans (le_max_left _ _), ?_, ?_⟩
      · exact max_le hhigh (hce ▸ min_le_right _ _)
      -- the branch is closed in each of the three cases
      rintro (h | h | h)
      · exact absurd h himpaired
      · exact absurd (decide_eq_true h) hheld
      · rw [h] at hdelivered
        cases hdelivered
    · exact hcalled
  · exact hcalled

theorem grown_of_not_floorApplies (hc : Bounded c) {call : Sample}
    (h : ¬ FloorApplies ((c.step call.path call.deadlineMisses).applyDelivery c.current
      call.impaired call.delivered) (c.deliveryHoldTicks > 0) call) :
    (c.stepWithDeliveryFloor call).current ≤ c.current + max 1 (c.current / 100) := by
  have hgrown := (called_applyDelivery hc (stepped_step c call.path call.deadlineMisses) call).2
  unfold stepWithDeliveryFloor applyFloor
  split
  next hguard =>
    split
    next floor hsome =>
      obtain ⟨himpaired, hheld, hdelivered, hhold, hrtt, hrise, hmisses, hreason⟩ := hguard
      exact absurd ⟨himpaired, hheld, hdelivered, hhold, hrtt, hrise, hmisses, hreason, floor, hsome⟩ h
    · exact hgrown
  · exact hgrown

/-! ### Runs -/

theorem Bounded.act (h : Bounded c) (command : Command) : Bounded (c.act command) := by
  cases command with
  | steer bps =>
    exact ⟨h.word, le_max_left _ _, max_le (h.floor.trans h.ceiling) (min_le_right _ _)⟩
  | step call =>
    have hcalled := called_stepWithDeliveryFloor h call
    refine ⟨hcalled.ceiling ▸ h.word, ?_, hcalled.ceiling ▸ hcalled.upper⟩
    exact hcalled.floor ▸ (le_max_left _ _).trans hcalled.lower

theorem Bounded.run (h : Bounded c) (commands : List Command) : Bounded (c.run commands) := by
  induction commands generalizing c with
  | nil => exact h
  | cons command commands ih => exact ih (h.act command)

/-- A healthy call. -/
def Command.healthy : Command → Bool
  | .steer _ => false
  | .step call => !call.impaired

/-- A hold loses one tick per healthy call. -/
theorem hold_run (hc : Bounded c) (commands : List Command) {hold : ℕ}
    (hmax : hold ≤ 20) (hhold : hold ≤ c.deliveryHoldTicks) :
    hold ≤ (c.run commands).deliveryHoldTicks + commands.countP Command.healthy := by
  induction commands generalizing c hold with
  | nil => exact hhold
  | cons command commands ih =>
    have hnext := hc.act command
    cases command with
    | steer bps => exact ih hnext hmax hhold
    | step call =>
      have hticks := (called_stepWithDeliveryFloor hc call).hold
      rw [List.countP_cons]
      cases himpaired : call.impaired with
      | true =>
        rw [himpaired] at hticks
        refine (ih hnext hmax ?_).trans (Nat.add_le_add_left (Nat.le_add_right _ _) _)
        exact hmax.trans hticks.ge
      | false =>
        rw [himpaired, if_neg Bool.false_ne_true] at hticks
        have hrest : hold - 1 ≤ _ := ih hnext (by omega) (by rw [act]; omega)
        have hone : (if Command.healthy (.step call) = true then 1 else 0) = 1 := by
          simp [Command.healthy, himpaired]
        rw [hone, ← Nat.add_assoc]
        exact Nat.sub_le_iff_le_add.mp hrest

/-- **Bitrate bounds.** After any calls the bitrate is between the bounds. The next call keeps at
least seven tenths and the floor; it does not raise the bitrate if it is impaired, if it is one of
twenty healthy calls after an impaired one, or if nothing was delivered; and unless the delivery
floor applies it raises it by at most a hundredth, or one. -/
theorem bitrate_bounds (initial ceiling : ℕ) (hword : ceiling ≤ maxWord)
    (hinitial : min 100000 ceiling ≤ initial) (commands : List Command) (call : Sample) :
    let c := (new initial ceiling).run commands
    let next := c.stepWithDeliveryFloor call
    (min 100000 ceiling ≤ c.current ∧ c.current ≤ ceiling) ∧
    max (min 100000 ceiling) (7 * c.current / 10) ≤ next.current ∧
    (call.impaired = true ∨ call.delivered = false ∨ (∃ before signal after,
        commands = before ++ .step signal :: after ∧ signal.impaired = true ∧
          after.countP Command.healthy < 20) → next.current ≤ c.current) ∧
    (¬ FloorApplies ((c.step call.path call.deadlineMisses).applyDelivery c.current call.impaired
        call.delivered) (c.deliveryHoldTicks > 0) call →
      next.current ≤ c.current + max 1 (c.current / 100)) := by
  have hnew : Bounded (new initial ceiling) :=
    ⟨hword, le_min hinitial (min_le_right _ _), min_le_right _ _⟩
  have hc := hnew.run commands
  obtain ⟨hfloor, hceiling⟩ := bounds_run (new initial ceiling) commands
  have hcalled := called_stepWithDeliveryFloor hc call
  have hlower := hcalled.lower
  rw [pathCut_eq, hfloor] at hlower
  refine ⟨⟨hfloor.ge.trans hc.floor, hc.ceiling.trans hceiling.le⟩, hlower, ?_, grown_of_not_floorApplies hc⟩
  rintro (h | h | ⟨before, signal, after, rfl, himpaired, hcount⟩)
  · exact hcalled.kept (.inl h)
  · exact hcalled.kept (.inr (.inr h))
  refine hcalled.kept (.inr (.inl ?_))
  -- the impaired call set the hold to twenty
  have hbefore := hnew.run before
  have hset := (called_stepWithDeliveryFloor hbefore signal).hold
  rw [himpaired] at hset
  have hafter := hold_run (hbefore.act (.step signal)) after
    (Nat.le_refl 20) hset.ge
  have hrun : (new initial ceiling).run (before ++ .step signal :: after) =
      (((new initial ceiling).run before).act (.step signal)).run after := List.foldl_append ..
  rw [hrun]
  omega

/-- A frame whose receipt is late. -/
def lateReceipt : Sample := ⟨some ⟨1, 0, 0, 0, 0⟩, 0, true, false, none⟩

/-- A session on a ceiling of eight megabits: after a late receipt the viewer asks for three megabits,
and a clean sample keeps them. -/
theorem bitrate_bounds_session :
    let c := (new 4000000 8000000).run [.step firstSample, .step lateReceipt, .steer 3000000]
    let next := c.stepWithDeliveryFloor firstSample
    (100000 ≤ c.current ∧ c.current ≤ 8000000) ∧ c.current = 3000000 ∧
      max 100000 (7 * c.current / 10) ≤ next.current ∧ next.current ≤ c.current ∧
      next.current ≤ c.current + max 1 (c.current / 100) := by
  obtain ⟨hrange, hlower, hkept, hgrown⟩ := bitrate_bounds 4000000 8000000 (by decide) (by decide)
    [.step firstSample, .step lateReceipt, .steer 3000000] firstSample
  refine ⟨hrange, by decide +kernel, hlower, hkept (.inr (.inr ?_)), hgrown ?_⟩
  · exact ⟨[.step firstSample], lateReceipt, [.steer 3000000], rfl, rfl, by decide⟩
  · rintro ⟨-, -, -, -, -, -, -, -, floor, hsome⟩
    cases hsome

end Rds.Desktop.BitrateController
