import Rds.Framework.Float64

/-!
# The bitrate controller

`BitrateController` (`rds-desktop/src/session.rs`) paces the encoder of a desktop session to the
measured quality of its path. A `step` takes one sample of the path's counters and the number of
deadlines the producer missed; `stepWithDeliveryFloor` adds what frame receipts say, and a floor
justified by recent goodput.

A sample that is classified as a reduction, or an impaired delivery, is a congestion signal
(`Signalled`). A signal should never raise the bitrate, and `signal_never_raises_iff` says exactly when
it does (`Raises`), in terms of the state before the call and of its inputs: the bitrate is below the
controller's floor, or at it while a moderate loss holds it, or below the delivery floor when packet
loss alone cut it. Each of the three happens (`signal_raises`).

The proof has three layers. `sample_of_known` says what the samplers find in a sample, `decided_step`
what `step` decides by it, and `signalled_raises_iff` what receipts and the delivery floor make of that.

Words are natural numbers; the operations that saturate say so.
-/

namespace Rds.Desktop

open Framework

/-- The largest `u64`. -/
def maxWord : ℕ := 2 ^ 64 - 1

/-- `u64::saturating_add`. -/
def satAdd (a b : ℕ) : ℕ := min (a + b) maxWord

/-- `LOSS_HOLD`. -/
def lossHoldRatio : ℚ := Float64.nearest (2 / 100)

/-- `LOSS_STEP_DOWN`. -/
def lossStepDown : ℚ := Float64.nearest (1 / 10)

/-- `LOSS_SAMPLE_MIN_SENT`. -/
def lossSampleMinSent : ℕ := 100

/-- `LOSS_FAST_MIN_LOST`. -/
def lossFastMinLost : ℕ := 5

/-- `LOSS_FAST_RATIO`. -/
def lossFastRatio : ℚ := Float64.nearest (1 / 10)

/-- `PATH_CUT_COOLDOWN_TICKS`. -/
def pathCutCooldownTicks : ℕ := 4

/-- `RTT_STEP_UP`. -/
def rttStepUp : ℚ := 3 / 2

/-- `RTT_MIN_INCREASE_MS`. -/
def rttMinIncreaseMs : ℕ := 10

/-- `RTT_SAMPLE_MIN_BYTES`. -/
def rttSampleMinBytes : ℕ := 32 * 1024

/-- The reasons of a reduction. -/
inductive Reduction where
  | sampledPacketLoss
  | sustainedRtt
  | producerDeadline
  | mediaDelivery
  deriving DecidableEq

/-- `PathStats`, as far as the controller reads it. -/
structure PathStats where
  pathId : ℕ
  /-- The round-trip time in milliseconds. -/
  rttMs : ℕ
  sent : ℕ
  lost : ℕ
  sentBytes : ℕ

/-- `BitrateController`. -/
structure BitrateController where
  current : ℕ
  floor : ℕ
  ceiling : ℕ
  previousRttMs : Option ℕ
  lastSent : ℕ
  lastSentBytes : ℕ
  lastLost : ℕ
  lossSampleSent : ℕ
  lossSampleLost : ℕ
  lossHold : Bool
  rttRiseBaseline : Option ℕ
  rttRiseBytes : ℕ
  pathCutCooldownTicks : ℕ
  reductionReason : Option Reduction
  primed : Bool
  lastPath : Option ℕ
  deliveryHoldTicks : ℕ
  deliveryCutCooldownTicks : ℕ
  rttReduction : Bool
  deriving DecidableEq

namespace BitrateController

/-- `BitrateController::new`. -/
def new (initial ceiling : ℕ) : BitrateController where
  current := min initial ceiling
  floor := min 100000 ceiling
  ceiling := ceiling
  previousRttMs := none
  lastSent := 0
  lastSentBytes := 0
  lastLost := 0
  lossSampleSent := 0
  lossSampleLost := 0
  lossHold := false
  rttRiseBaseline := none
  rttRiseBytes := 0
  pathCutCooldownTicks := 0
  reductionReason := none
  primed := false
  lastPath := none
  deliveryHoldTicks := 0
  deliveryCutCooldownTicks := 0
  rttReduction := false

/-- `BitrateController::steer`. -/
def steer (self : BitrateController) (bps : ℕ) : BitrateController :=
  { self with current := max self.floor (min bps self.ceiling) }

/-- The controller forgets the counters of another path. -/
def onPath (self : BitrateController) (pathId : ℕ) : BitrateController :=
  if self.lastPath ≠ some pathId then
    { self with
      lastPath := some pathId, previousRttMs := none, lastSent := 0, lastSentBytes := 0,
      lastLost := 0, lossSampleSent := 0, lossSampleLost := 0, lossHold := false,
      rttRiseBaseline := none, rttRiseBytes := 0, pathCutCooldownTicks := 0, primed := false }
  else self

/-- The loss ratio of the sample so far. -/
def loss (self : BitrateController) : ℚ :=
  if self.lossSampleSent > 0 then
    Float64.div (Float64.ofNat self.lossSampleLost) (Float64.ofNat self.lossSampleSent)
  else 0

/-- The counters of a path are added to the loss sample; the flag tells a severe loss. -/
def sampleLoss (self : BitrateController) (p : PathStats) : BitrateController × Bool :=
  let self :=
    if self.primed then
      { self with
        lossSampleSent := satAdd self.lossSampleSent (p.sent - self.lastSent)
        lossSampleLost := satAdd self.lossSampleLost (p.lost - self.lastLost) }
    else self
  let ready := self.lossSampleSent ≥ lossSampleMinSent ∨
    (self.lossSampleLost ≥ lossFastMinLost ∧ self.loss > lossFastRatio)
  let high : Bool := ready ∧ self.loss > lossStepDown
  if ready then
    ({ self with lossHold := self.loss > lossHoldRatio ∧ ¬ high, lossSampleSent := 0,
                 lossSampleLost := 0 }, high)
  else (self, high)

/-- The round-trip time has risen from a baseline. -/
def risesFrom (rttMs baseline : ℕ) : Bool :=
  rttMs - baseline ≥ rttMinIncreaseMs ∧
    rttMs > Float64.toU64 (Float64.mul (Float64.ofNat baseline) rttStepUp)

/-- The round-trip time of a path is compared with its baseline; the flag tells a rise that a second
observation has confirmed. -/
def sampleRtt (self : BitrateController) (p : PathStats) : BitrateController × Bool :=
  if p.rttMs > 0 then
    match self.rttRiseBaseline with
    | some baseline =>
      ({ self with rttRiseBaseline := none, rttRiseBytes := 0, previousRttMs := some p.rttMs },
        risesFrom p.rttMs baseline ∧ p.sentBytes - self.lastSentBytes > 0 ∧
          satAdd self.rttRiseBytes (p.sentBytes - self.lastSentBytes) ≥ rttSampleMinBytes)
    | none =>
      match self.previousRttMs.filter (risesFrom p.rttMs) with
      | some baseline =>
        ({ self with rttRiseBaseline := some baseline,
                     rttRiseBytes := p.sentBytes - self.lastSentBytes,
                     previousRttMs := some p.rttMs }, false)
      | none => ({ self with previousRttMs := some p.rttMs }, false)
  else (self, false)

/-- The counters of a path become the last ones. -/
def remember (self : BitrateController) (p : PathStats) : BitrateController :=
  { self with
    lastSent := p.sent, lastSentBytes := p.sentBytes, lastLost := p.lost
    pathCutCooldownTicks := self.pathCutCooldownTicks - 1 }

/-- Seven tenths. -/
def pathCut (n : ℕ) : ℕ := n / 10 * 7 + n % 10 * 7 / 10

/-- Eighty-five hundredths. -/
def deadlineCut (n : ℕ) : ℕ := n / 100 * 85 + n % 100 * 85 / 100

/-- A path burst, unless one was answered a second ago. -/
def cutPath (self : BitrateController) (lossHigh rttHigh : Bool) : BitrateController :=
  if self.pathCutCooldownTicks = 0 then
    { self with
      rttReduction := rttHigh
      current := max (pathCut self.current) self.floor
      pathCutCooldownTicks := Desktop.pathCutCooldownTicks
      reductionReason := some (if lossHigh then .sampledPacketLoss else .sustainedRtt) }
  else self

/-- Missed deadlines of the producer. -/
def cutDeadline (self : BitrateController) : BitrateController :=
  { self with
    reductionReason := some .producerDeadline
    current := max (deadlineCut self.current) self.floor }

/-- The sample of a path: whether its loss is severe, and whether its round-trip time has risen. -/
def sample (self : BitrateController) (p : PathStats) : BitrateController × Bool × Bool :=
  let loss := (self.onPath p.pathId).sampleLoss p
  let rtt := loss.1.sampleRtt p
  (rtt.1.remember p, loss.2, rtt.2)

/-- The answer to the sample of a path that has a baseline. -/
def answer (self : BitrateController) (lossHigh rttHigh : Bool) (deadlineMisses : ℕ) :
    BitrateController :=
  if lossHigh ∨ rttHigh then self.cutPath lossHigh rttHigh
  else if deadlineMisses > 0 then self.cutDeadline
  else if ¬ self.lossHold then
    { self with current := min (satAdd self.current (self.current / 10)) self.ceiling }
  else self

/-- `BitrateController::step`. -/
def step (self : BitrateController) (path : Option PathStats) (deadlineMisses : ℕ) :
    BitrateController :=
  let self := { self with reductionReason := none, rttReduction := false }
  match path with
  | some p =>
    let s := self.sample p
    -- the first sample only establishes the baseline
    let next := if s.1.primed then s.1.answer s.2.1 s.2.2 deadlineMisses else s.1
    { next with primed := true }
  | none => if deadlineMisses > 0 then self.cutDeadline else self

/-- What one call of `step_with_delivery_floor` is given. -/
structure Sample where
  path : Option PathStats
  deadlineMisses : ℕ
  impaired : Bool
  delivered : Bool
  deliveryFloor : Option ℕ

/-- One percent more. -/
def probe (n : ℕ) : ℕ := satAdd n (max (n / 100) 1)

/-- What frame receipts make of the bitrate `step` proposes. -/
def applyDelivery (self : BitrateController) (previous : ℕ) (impaired delivered : Bool) :
    BitrateController :=
  let proposed := self.current
  let self := { self with deliveryCutCooldownTicks := self.deliveryCutCooldownTicks - 1 }
  if impaired then
    let self := { self with deliveryHoldTicks := 20 }
    if self.deliveryCutCooldownTicks = 0 then
      -- loss and a delayed receipt may report one event: the stronger cut, once
      let mediaCut := max (pathCut previous) self.floor
      { self with
        deliveryCutCooldownTicks := 4
        pathCutCooldownTicks := Desktop.pathCutCooldownTicks
        reductionReason := if mediaCut ≤ proposed then some .mediaDelivery else self.reductionReason
        current := min proposed mediaCut }
    else { self with current := min proposed previous }
  else if self.deliveryHoldTicks > 0 then
    { self with deliveryHoldTicks := self.deliveryHoldTicks - 1, current := min proposed previous }
  else if ¬ delivered then { self with current := min proposed previous }
  else
    let proposed :=
      if self.lossHold ∧ proposed = previous then min (probe previous) self.ceiling else proposed
    { self with current := min proposed (probe previous) }

/-- The delivery floor under a cut that packet loss alone made. -/
def applyFloor (self : BitrateController) (held : Bool) (call : Sample) : BitrateController :=
  if ¬ call.impaired ∧ ¬ held ∧ call.delivered ∧ self.deliveryHoldTicks = 0 ∧ ¬ self.rttReduction ∧
      self.rttRiseBaseline = none ∧ call.deadlineMisses = 0 ∧
      self.reductionReason = some .sampledPacketLoss then
    match call.deliveryFloor with
    | some floor => { self with current := max self.current (min floor self.ceiling) }
    | none => self
  else self

/-- `BitrateController::step_with_delivery_floor`. -/
def stepWithDeliveryFloor (self : BitrateController) (call : Sample) : BitrateController :=
  ((self.step call.path call.deadlineMisses).applyDelivery self.current call.impaired
    call.delivered).applyFloor (self.deliveryHoldTicks > 0) call

/-! ### What a step changes -/

variable (c : BitrateController)

/-- What the samplers leave alone: the bitrate, its bounds and the reason of a reduction. -/
structure Sampled (c c' : BitrateController) : Prop where
  current : c'.current = c.current
  floor : c'.floor = c.floor
  ceiling : c'.ceiling = c.ceiling
  reason : c'.reductionReason = c.reductionReason
  hold : c'.deliveryHoldTicks = c.deliveryHoldTicks
  cooldown : c'.deliveryCutCooldownTicks = c.deliveryCutCooldownTicks

theorem Sampled.trans {c c₁ c₂ : BitrateController} (h₁ : Sampled c c₁) (h₂ : Sampled c₁ c₂) :
    Sampled c c₂ where
  current := h₂.current.trans h₁.current
  floor := h₂.floor.trans h₁.floor
  ceiling := h₂.ceiling.trans h₁.ceiling
  reason := h₂.reason.trans h₁.reason
  hold := h₂.hold.trans h₁.hold
  cooldown := h₂.cooldown.trans h₁.cooldown

theorem sampled_onPath (pathId : ℕ) : Sampled c (c.onPath pathId) := by
  unfold onPath
  split <;> exact ⟨rfl, rfl, rfl, rfl, rfl, rfl⟩

theorem sampled_sampleLoss (p : PathStats) : Sampled c (c.sampleLoss p).1 := by
  unfold sampleLoss
  dsimp only
  split_ifs <;> exact ⟨rfl, rfl, rfl, rfl, rfl, rfl⟩

theorem sampled_sampleRtt (p : PathStats) : Sampled c (c.sampleRtt p).1 := by
  unfold sampleRtt
  split
  · split
    · exact ⟨rfl, rfl, rfl, rfl, rfl, rfl⟩
    · split <;> exact ⟨rfl, rfl, rfl, rfl, rfl, rfl⟩
  · exact ⟨rfl, rfl, rfl, rfl, rfl, rfl⟩

theorem sampled_remember (p : PathStats) : Sampled c (c.remember p) := ⟨rfl, rfl, rfl, rfl, rfl, rfl⟩

/-- **What a step does to the bitrate.** A step that found a reason for a reduction has cut it, but
not below the floor; any other has kept it or raised it by a tenth. -/
structure Stepped (c c' : BitrateController) : Prop where
  floor : c'.floor = c.floor
  ceiling : c'.ceiling = c.ceiling
  cut : c'.reductionReason.isSome → c'.current = max (pathCut c.current) c.floor ∨
    c'.current = max (deadlineCut c.current) c.floor
  hold : c'.deliveryHoldTicks = c.deliveryHoldTicks
  cooldown : c'.deliveryCutCooldownTicks = c.deliveryCutCooldownTicks
  kept : c'.reductionReason = none → c'.current = c.current ∨
    c'.current = min (satAdd c.current (c.current / 10)) c.ceiling

theorem sampled_sample (p : PathStats) : Sampled c (c.sample p).1 :=
  (((sampled_onPath c p.pathId).trans (sampled_sampleLoss _ p)).trans
    (sampled_sampleRtt _ p)).trans (sampled_remember _ p)

theorem stepped_answer (hnone : c.reductionReason = none) (lossHigh rttHigh : Bool)
    (deadlineMisses : ℕ) : Stepped c (c.answer lossHigh rttHigh deadlineMisses) := by
  have hkept : ∀ h : c.reductionReason.isSome = true, False := by simp [hnone]
  unfold answer
  split_ifs
  · unfold cutPath
    split
    · exact ⟨rfl, rfl, fun _ => .inl rfl, rfl, rfl, nofun⟩
    · exact ⟨rfl, rfl, fun h => (hkept h).elim, rfl, rfl, fun _ => .inl rfl⟩
  · exact ⟨rfl, rfl, fun _ => .inr rfl, rfl, rfl, nofun⟩
  · exact ⟨rfl, rfl, fun h => (hkept h).elim, rfl, rfl, fun _ => .inl rfl⟩
  · exact ⟨rfl, rfl, fun h => (hkept h).elim, rfl, rfl, fun _ => .inr rfl⟩

theorem stepped_step (path : Option PathStats) (deadlineMisses : ℕ) :
    Stepped c (c.step path deadlineMisses) := by
  unfold step
  cases path with
  | none =>
    dsimp only
    split
    · exact ⟨rfl, rfl, fun _ => .inr rfl, rfl, rfl, nofun⟩
    · exact ⟨rfl, rfl, fun h => absurd h (by simp), rfl, rfl, fun _ => .inl rfl⟩
  | some p =>
    dsimp only
    have hsampled := sampled_sample { c with reductionReason := none, rttReduction := false } p
    generalize sample { c with reductionReason := none, rttReduction := false } p = s at hsampled
    have hnext : Stepped s.1 (if s.1.primed then s.1.answer s.2.1 s.2.2 deadlineMisses else s.1) := by
      split
      · exact stepped_answer s.1 hsampled.reason _ _ _
      · exact ⟨rfl, rfl, fun h => absurd h (by simp [hsampled.reason]), rfl, rfl, fun _ => .inl rfl⟩
    refine ⟨hnext.floor.trans hsampled.floor, hnext.ceiling.trans hsampled.ceiling, fun h => ?_,
      hnext.hold.trans hsampled.hold, hnext.cooldown.trans hsampled.cooldown, fun h => ?_⟩
    · have hcut := hnext.cut h
      rw [hsampled.current, hsampled.floor] at hcut
      exact hcut
    · have hkept := hnext.kept h
      rw [hsampled.current, hsampled.ceiling] at hkept
      exact hkept

/-! ### Congestion signals -/

theorem pathCut_le (n : ℕ) : pathCut n ≤ n := by
  unfold pathCut
  omega

theorem pathCut_lt {n : ℕ} (h : 0 < n) : pathCut n < n := by
  unfold pathCut
  omega

theorem deadlineCut_le (n : ℕ) : deadlineCut n ≤ n := by
  unfold deadlineCut
  omega

theorem deadlineCut_lt {n : ℕ} (h : 0 < n) : deadlineCut n < n := by
  unfold deadlineCut
  omega

variable {c}

/-- **A congestion signal**: the sample of a call is classified as a reduction, or delivery is
impaired. -/
def Signalled (c : BitrateController) (call : Sample) : Prop :=
  (c.step call.path call.deadlineMisses).reductionReason.isSome ∨ call.impaired = true

/-! ### What a sample tells

These definitions read a sample against the state before the call, without a run of the controller.
`sample_of_known` says that they are what the samplers of `step` find. -/

section Told

variable (c : BitrateController) (p : PathStats)

/-- The path of the sample is the one the controller has a baseline of. -/
def Known : Prop := c.lastPath = some p.pathId ∧ c.primed = true

/-- The packets sent in the loss sample, those since the last call included. -/
def sampledSent : ℕ := satAdd c.lossSampleSent (p.sent - c.lastSent)

/-- The packets lost in the loss sample. -/
def sampledLost : ℕ := satAdd c.lossSampleLost (p.lost - c.lastLost)

/-- The loss ratio of the sample. -/
def lossRatio : ℚ :=
  if sampledSent c p > 0 then
    Float64.div (Float64.ofNat (sampledLost c p)) (Float64.ofNat (sampledSent c p))
  else 0

/-- The loss sample is large enough, or enough of it is lost. -/
def SampleReady : Prop :=
  sampledSent c p ≥ lossSampleMinSent ∨
    (sampledLost c p ≥ lossFastMinLost ∧ lossRatio c p > lossFastRatio)

/-- The sample shows a severe loss. -/
def SevereLoss : Prop := SampleReady c p ∧ lossRatio c p > lossStepDown

/-- The sample confirms a rise of the round-trip time that an earlier one suspected. -/
def ConfirmedRise : Prop :=
  p.rttMs > 0 ∧ ∃ baseline, c.rttRiseBaseline = some baseline ∧ risesFrom p.rttMs baseline = true ∧
    p.sentBytes - c.lastSentBytes > 0 ∧
    satAdd c.rttRiseBytes (p.sentBytes - c.lastSentBytes) ≥ rttSampleMinBytes

/-- The sample leaves a rise suspected: it does not measure the time, or it is the first to show it. -/
def SuspectsRise : Prop :=
  if p.rttMs > 0 then c.rttRiseBaseline = none ∧
    ∃ baseline, c.previousRttMs = some baseline ∧ risesFrom p.rttMs baseline = true
  else c.rttRiseBaseline ≠ none

/-- A moderate loss holds the bitrate once the sample is read. -/
def Holds (path : Option PathStats) : Prop :=
  match path with
  | none => c.lossHold = true
  | some p => (SampleReady c p ∧ lossRatio c p > lossHoldRatio ∧ ¬ SevereLoss c p) ∨
      (¬ SampleReady c p ∧ c.lossHold = true)

end Told

instance (c : BitrateController) (p : PathStats) : Decidable (SampleReady c p) :=
  inferInstanceAs (Decidable (_ ∨ _))

instance (c : BitrateController) (p : PathStats) : Decidable (SevereLoss c p) :=
  inferInstanceAs (Decidable (_ ∧ _))

variable {c : BitrateController} {p : PathStats}

theorem sampleLoss_of_primed (hprimed : c.primed = true) :
    c.sampleLoss p = if SampleReady c p then
      ({ c with lossSampleSent := 0, lossSampleLost := 0,
                lossHold := decide (lossRatio c p > lossHoldRatio ∧ ¬ SevereLoss c p) },
        decide (SevereLoss c p))
    else ({ c with lossSampleSent := sampledSent c p, lossSampleLost := sampledLost c p },
      decide (SevereLoss c p)) := by
  unfold sampleLoss
  rw [if_pos hprimed]
  simp only [decide_eq_true_eq]
  rfl

theorem sampleRtt_spec (c : BitrateController) (p : PathStats) :
    ((c.sampleRtt p).2 = true ↔ ConfirmedRise c p) ∧
      ((c.sampleRtt p).1.rttRiseBaseline = none ↔ ¬ SuspectsRise c p) ∧
      (c.sampleRtt p).1.lossHold = c.lossHold ∧ (c.sampleRtt p).1.primed = c.primed ∧
      (c.sampleRtt p).1.pathCutCooldownTicks = c.pathCutCooldownTicks := by
  unfold sampleRtt ConfirmedRise SuspectsRise
  by_cases h : p.rttMs > 0
  · cases hb : c.rttRiseBaseline with
    | some baseline => simp [h]
    | none =>
      cases hprev : c.previousRttMs with
      | none => simp [h]
      | some b => cases hrise : risesFrom p.rttMs b <;> simp [h, hrise, Option.filter]
  · simp [h]

/-- What the samplers make of the sample of a path. -/
structure Read (c s : BitrateController) (p : PathStats) (lossHigh rttHigh : Bool) : Prop where
  loss : lossHigh = true ↔ SevereLoss c p
  rtt : rttHigh = true ↔ ConfirmedRise c p
  hold : s.lossHold = true ↔ Holds c (some p)
  rise : s.rttRiseBaseline = none ↔ ¬ SuspectsRise c p
  cooldown : s.pathCutCooldownTicks = c.pathCutCooldownTicks - 1

theorem sample_of_known (h : Known c p) :
    (c.sample p).1.primed = true ∧ Read c (c.sample p).1 p (c.sample p).2.1 (c.sample p).2.2 := by
  have hpath : c.onPath p.pathId = c := if_neg (not_not_intro h.1)
  unfold sample
  rw [hpath, sampleLoss_of_primed h.2]
  dsimp only [remember]
  -- what is read of the round-trip time does not depend on the loss sample
  by_cases hready : SampleReady c p
  · rw [if_pos hready]
    obtain ⟨hrtt, hrise, hhold, hprimed, hticks⟩ := sampleRtt_spec { c with
      lossSampleSent := 0, lossSampleLost := 0,
      lossHold := decide (lossRatio c p > lossHoldRatio ∧ ¬ SevereLoss c p) } p
    refine ⟨hprimed.trans h.2, decide_eq_true_iff, hrtt, ?_, hrise, congrArg (· - 1) hticks⟩
    rw [hhold]
    simp [Holds, hready]
  · rw [if_neg hready]
    obtain ⟨hrtt, hrise, hhold, hprimed, hticks⟩ := sampleRtt_spec { c with
      lossSampleSent := sampledSent c p, lossSampleLost := sampledLost c p } p
    refine ⟨hprimed.trans h.2, decide_eq_true_iff, hrtt, ?_, hrise, congrArg (· - 1) hticks⟩
    rw [hhold]
    simp [Holds, hready]

theorem sample_of_not_known (h : ¬ Known c p) : (c.sample p).1.primed = false := by
  have hpath : (c.onPath p.pathId).primed = false := by
    unfold onPath
    split
    · rfl
    next hsame => exact Bool.eq_false_iff.mpr fun hprimed => h ⟨not_not.mp hsame, hprimed⟩
  unfold sample sampleLoss
  rw [if_neg (c := (c.onPath p.pathId).primed = true) (by simp [hpath])]
  dsimp only [remember]
  split_ifs <;> exact (sampleRtt_spec _ p).2.2.2.1.trans hpath

/-! ### The calls that raise the bitrate -/

/-- The sample of a call is a reason for a reduction: a severe loss or a confirmed rise of the
round-trip time, unless one was answered in the last calls; or else a missed deadline. -/
def Cuts (c : BitrateController) (call : Sample) : Prop :=
  match call.path with
  | none => call.deadlineMisses > 0
  | some p => Known c p ∧ (((SevereLoss c p ∨ ConfirmedRise c p) ∧ c.pathCutCooldownTicks ≤ 1) ∨
      (¬ (SevereLoss c p ∨ ConfirmedRise c p) ∧ call.deadlineMisses > 0))

/-- The sample of a call lets the bitrate grow. -/
def Grows (c : BitrateController) (call : Sample) : Prop :=
  ∃ p, call.path = some p ∧ Known c p ∧ ¬ (SevereLoss c p ∨ ConfirmedRise c p) ∧
    call.deadlineMisses = 0 ∧ ¬ Holds c (some p)

/-- The sample of a call shows a loss and nothing else. -/
def OnlyLoss (c : BitrateController) (call : Sample) : Prop :=
  call.deadlineMisses = 0 ∧ ∃ p, call.path = some p ∧ SevereLoss c p ∧ ¬ ConfirmedRise c p ∧
    ¬ SuspectsRise c p

/-- **What a step decides**, by the sample it reads. -/
structure Decided (c c' : BitrateController) (call : Sample) : Prop where
  reason : c'.reductionReason.isSome = true ↔ Cuts c call
  hold : Cuts c call → (c'.lossHold = true ↔ Holds c call.path)
  loss : Cuts c call → ((c'.rttReduction = false ∧ c'.rttRiseBaseline = none ∧
    call.deadlineMisses = 0 ∧ c'.reductionReason = some .sampledPacketLoss) ↔ OnlyLoss c call)
  grown : Grows c call → c'.current = min (satAdd c.current (c.current / 10)) c.ceiling
  kept : ¬ Cuts c call → ¬ Grows c call → c'.current = c.current

/-- The verdict on a path that was known before, reason by reason. -/
theorem decided_answer {s : BitrateController} {lossHigh rttHigh : Bool} {call : Sample}
    (hpath : call.path = some p) (hknown : Known c p) (hread : Read c s p lossHigh rttHigh)
    (hsame : Sampled { c with reductionReason := none, rttReduction := false } s) :
    Decided c (s.answer lossHigh rttHigh call.deadlineMisses) call := by
  obtain ⟨hloss, hrise, hhold, hsuspects, hticks⟩ := hread
  obtain ⟨hcurrent, -, hceiling, hnone, -⟩ := hsame
  dsimp only at hcurrent hceiling hnone
  have hhigh : SevereLoss c p ∨ ConfirmedRise c p ↔ lossHigh = true ∨ rttHigh = true :=
    or_congr hloss.symm hrise.symm
  have hcuts : Cuts c call ↔ ((lossHigh = true ∨ rttHigh = true) ∧ s.pathCutCooldownTicks = 0) ∨
      (¬ (lossHigh = true ∨ rttHigh = true) ∧ call.deadlineMisses > 0) := by
    have hcool : c.pathCutCooldownTicks ≤ 1 ↔ s.pathCutCooldownTicks = 0 := by omega
    simp only [Cuts, hpath, hknown, true_and, hhigh, hcool]
  have hgrows : Grows c call ↔ ¬ (lossHigh = true ∨ rttHigh = true) ∧ call.deadlineMisses = 0 ∧
      ¬ s.lossHold = true := by
    simp only [Grows, hpath, Option.some.injEq, exists_eq_left', hknown, true_and, hhigh, hhold]
  have honly : OnlyLoss c call ↔ call.deadlineMisses = 0 ∧ lossHigh = true ∧ ¬ rttHigh = true ∧
      s.rttRiseBaseline = none := by
    simp only [OnlyLoss, hpath, Option.some.injEq, exists_eq_left', hloss, hrise, hsuspects]
  -- each condition is now one on what was sampled: split as the code does
  have hholds : Holds c call.path ↔ s.lossHold = true := by rw [hpath, hhold]
  unfold answer
  by_cases hh : lossHigh = true ∨ rttHigh = true
  · rw [if_pos hh]
    unfold cutPath
    split
    next hzero =>
      refine ⟨by simp [hcuts, hh, hzero], fun _ => hholds.symm, fun _ => ?_, ?_, ?_⟩
      · rw [honly]
        cases lossHigh <;> simp [and_comm, and_left_comm]
      · intro hg
        exact absurd hh (hgrows.mp hg).1
      · intro hno
        exact absurd (hcuts.mpr (.inl ⟨hh, hzero⟩)) hno
    next hbusy =>
      have hno : ¬ Cuts c call := by simp [hcuts, hh, hbusy]
      refine ⟨by simp [hnone, hno], fun h => absurd h hno, fun h => absurd h hno, ?_, fun _ _ => hcurrent⟩
      intro hg
      exact absurd hh (hgrows.mp hg).1
  · rw [if_neg hh]
    split
    next hmissed =>
      have hyes : Cuts c call := hcuts.mpr (.inr ⟨hh, hmissed⟩)
      refine ⟨by simp [hyes, cutDeadline], fun _ => hholds.symm, fun _ => ?_, ?_, fun hno => absurd hyes hno⟩
      · simp [cutDeadline, honly, hmissed.ne']
      · intro hg
        exact absurd (hgrows.mp hg).2.1 hmissed.ne'
    next hmet =>
      have hzero : call.deadlineMisses = 0 := by omega
      have hno : ¬ Cuts c call := by simp [hcuts, hh, hzero]
      split
      next hfree =>
        have hg : Grows c call := hgrows.mpr ⟨hh, hzero, hfree⟩
        refine ⟨by simp [hnone, hno], fun h => absurd h hno, fun h => absurd h hno, fun _ => ?_,
          fun _ h => absurd hg h⟩
        rw [hcurrent, hceiling]
      next hheld =>
        refine ⟨by simp [hnone, hno], fun h => absurd h hno, fun h => absurd h hno, fun hg => ?_,
          fun _ _ => hcurrent⟩
        exact absurd (hgrows.mp hg).2.2 hheld

/-- One step, against what its sample says: no path, a new path or a known one. -/
theorem decided_step (c : BitrateController) (call : Sample) :
    Decided c (c.step call.path call.deadlineMisses) call := by
  cases hpath : call.path with
  | none =>
    have hgrows : ¬ Grows c call := by simp [Grows, hpath]
    have honly : ¬ OnlyLoss c call := by simp [OnlyLoss, hpath]
    have hcuts : Cuts c call ↔ call.deadlineMisses > 0 := by simp [Cuts, hpath]
    unfold step
    dsimp only
    split
    next hmissed =>
      refine ⟨by simp [hcuts, hmissed, cutDeadline], fun _ => ?_, fun _ => ?_, fun h => absurd h hgrows,
        fun hno => absurd (hcuts.mpr hmissed) hno⟩
      · simp [hpath, Holds, cutDeadline]
      · simp [cutDeadline, honly]
    next hmet =>
      have hno : ¬ Cuts c call := mt hcuts.mp hmet
      exact ⟨by simp [hno], fun h => absurd h hno, fun h => absurd h hno, fun h => absurd h hgrows,
        fun _ _ => rfl⟩
  | some p =>
    have hsampled := sampled_sample { c with reductionReason := none, rttReduction := false } p
    unfold step
    dsimp only
    by_cases hknown : Known c p
    · obtain ⟨hprimed, hread⟩ :=
        sample_of_known (c := { c with reductionReason := none, rttReduction := false }) hknown
      rw [if_pos hprimed]
      have hdec := decided_answer hpath hknown
        ⟨hread.loss, hread.rtt, hread.hold, hread.rise, hread.cooldown⟩ hsampled
      exact ⟨hdec.reason, hdec.hold, hdec.loss, hdec.grown, hdec.kept⟩
    · have hprimed :=
        sample_of_not_known (c := { c with reductionReason := none, rttReduction := false }) hknown
      have hno : ¬ Cuts c call := by simp [Cuts, hpath, hknown]
      have hgrows : ¬ Grows c call := by simp [Grows, hpath, hknown]
      rw [if_neg (by simp [hprimed])]
      exact ⟨by simp [hsampled.reason, hno], fun h => absurd h hno, fun h => absurd h hno,
        fun h => absurd h hgrows, fun _ _ => hsampled.current⟩

/-- The exact condition under which a congestion signal raises the bitrate. An impaired delivery does
so if the bitrate is below the controller's floor, the cut cooldown is over and the sample of the call
raises it too. Any other signal needs a delivery and no delivery hold; the bitrate is then below the
controller's floor, or at it while a moderate loss holds it, or packet loss alone cut it and the
delivery floor is above it. -/
def Raises (c : BitrateController) (call : Sample) : Prop :=
  if call.impaired then
    c.current < c.floor ∧ c.deliveryCutCooldownTicks ≤ 1 ∧
      (Cuts c call ∨ (Grows c call ∧ 10 ≤ c.current))
  else
    c.deliveryHoldTicks = 0 ∧ call.delivered = true ∧ Cuts c call ∧
      (c.current < c.floor ∨
        (c.current = c.floor ∧ c.current < c.ceiling ∧ Holds c call.path) ∨
        (OnlyLoss c call ∧ ∃ floor, call.deliveryFloor = some floor ∧ c.current < min floor c.ceiling))

/-- A cut raises the bitrate only to a floor above it, and keeps it only at the floor. -/
theorem Stepped.cut_iff {c' : BitrateController} (h : Stepped c c')
    (hreason : c'.reductionReason.isSome = true) :
    (c.current < c'.current ↔ c.current < c.floor) ∧ (c'.current = c.current ↔ c.current = c.floor) := by
  have hpath := pathCut_le c.current
  have hdeadline := deadlineCut_le c.current
  have hless : 0 < c.current → pathCut c.current < c.current ∧ deadlineCut c.current < c.current :=
    fun hpos => ⟨pathCut_lt hpos, deadlineCut_lt hpos⟩
  rcases h.cut hreason with heq | heq <;> rw [heq] <;> omega

section Raised

variable {call : Sample} (hsmall : c.floor ≤ 100000) (hfloor : c.floor ≤ c.ceiling)

include hsmall hfloor in
/-- Below the floor, a step raises the bitrate by a cut to the floor, or by a tenth that is not zero. -/
theorem step_raises_iff (hlow : c.current < c.floor) :
    c.current < (c.step call.path call.deadlineMisses).current ↔
      Cuts c call ∨ (Grows c call ∧ 10 ≤ c.current) := by
  have hdec := decided_step c call
  by_cases hcuts : Cuts c call
  · have hcut := (stepped_step c call.path call.deadlineMisses).cut_iff (hdec.reason.mpr hcuts)
    exact iff_of_true (hcut.1.mpr hlow) (.inl hcuts)
  by_cases hgrows : Grows c call
  · rw [hdec.grown hgrows]
    unfold satAdd maxWord
    simp only [hcuts, hgrows, true_and, false_or]
    omega
  · rw [hdec.kept hcuts hgrows]
    simp [hcuts, hgrows]

include hsmall hfloor in
theorem raises_iff_of_impaired (himpaired : call.impaired = true) :
    c.current < (c.stepWithDeliveryFloor call).current ↔ Raises c call := by
  have hraises := @step_raises_iff c call hsmall hfloor
  have hstep := stepped_step c call.path call.deadlineMisses
  have hcut := pathCut_le c.current
  unfold stepWithDeliveryFloor applyFloor Raises
  rw [if_neg (by simp [himpaired]), if_pos himpaired]
  generalize c.step call.path call.deadlineMisses = next at hraises hstep
  rw [himpaired]
  unfold applyDelivery
  dsimp only
  rw [if_pos rfl, hstep.cooldown, hstep.floor]
  split
  next hcool =>
    have hmin : c.current < min next.current (max (pathCut c.current) c.floor) ↔
        c.current < c.floor ∧ c.current < next.current := by omega
    rw [hmin]
    constructor
    · rintro ⟨hlow, hnext⟩
      exact ⟨hlow, by omega, (hraises hlow).mp hnext⟩
    · rintro ⟨hlow, -, hcause⟩
      exact ⟨hlow, (hraises hlow).mpr hcause⟩
  next hbusy =>
    refine iff_of_false (Nat.not_lt.mpr (min_le_right _ _)) ?_
    rintro ⟨-, hcool, -⟩
    omega

include hsmall in
/-- What receipts make of a cut, once deliveries are healthy again. -/
theorem delivered_raises_iff {next : BitrateController} (hstep : Stepped c next)
    (hreason : next.reductionReason.isSome = true) :
    c.current < min (if next.lossHold = true ∧ next.current = c.current then
        min (probe c.current) c.ceiling else next.current) (probe c.current) ↔
      c.current < c.floor ∨ (c.current = c.floor ∧ c.current < c.ceiling ∧ next.lossHold = true) := by
  obtain ⟨hraised, hsame⟩ := hstep.cut_iff hreason
  have hprobe : c.current ≤ c.floor → c.current < probe c.current := by
    unfold probe satAdd maxWord
    omega
  split
  next hheld =>
    have hat := hsame.mp hheld.2
    simp only [hheld.1, and_true]
    omega
  next hfree =>
    rw [lt_min_iff, hraised]
    constructor
    · exact fun h => .inl h.1
    · rintro (hlow | ⟨hat, -, hhold⟩)
      · exact ⟨hlow, hprobe hlow.le⟩
      · exact absurd ⟨hhold, hsame.mpr hat⟩ hfree

include hsmall in
/-- The receipts bound what the cut left, and after a loss alone the delivery floor lifts it. -/
theorem raises_iff_of_delivered (himpaired : call.impaired = false) (hhold : c.deliveryHoldTicks = 0)
    (hdelivered : call.delivered = true) (hcuts : Cuts c call) :
    c.current < (c.stepWithDeliveryFloor call).current ↔ Raises c call := by
  have hdec := decided_step c call
  have hstep := stepped_step c call.path call.deadlineMisses
  have hreason := hdec.reason.mpr hcuts
  have hloss := hdec.loss hcuts
  have hreceipts := delivered_raises_iff hsmall hstep hreason
  unfold stepWithDeliveryFloor Raises
  rw [if_neg (by simp [himpaired]), ← hdec.hold hcuts]
  generalize c.step call.path call.deadlineMisses = next at hstep hreason hloss hreceipts
  have hfree : next.deliveryHoldTicks = 0 := hstep.hold.trans hhold
  have happlied : next.applyDelivery c.current call.impaired call.delivered =
      { next with
        deliveryCutCooldownTicks := next.deliveryCutCooldownTicks - 1
        current := min (if next.lossHold = true ∧ next.current = c.current then
          min (probe c.current) c.ceiling else next.current) (probe c.current) } := by
    unfold applyDelivery
    dsimp only
    rw [himpaired, hdelivered, if_neg Bool.false_ne_true, if_neg (by omega), if_neg (by simp), hstep.ceiling]
  rw [happlied]
  -- the guard of the delivery floor, in terms of the sample
  have hguard : (¬ call.impaired = true ∧ ¬ decide (c.deliveryHoldTicks > 0) = true ∧
      call.delivered = true ∧ next.deliveryHoldTicks = 0 ∧ ¬ next.rttReduction = true ∧
      next.rttRiseBaseline = none ∧ call.deadlineMisses = 0 ∧
      next.reductionReason = some .sampledPacketLoss) ↔ OnlyLoss c call := by
    rw [← hloss]
    simp [himpaired, hhold, hdelivered, hfree]
  unfold applyFloor
  dsimp only
  by_cases honly : OnlyLoss c call
  · rw [if_pos (hguard.mpr honly)]
    cases hsome : call.deliveryFloor with
    | none => simp [hhold, hdelivered, hcuts, honly, hreceipts]
    | some floor =>
      dsimp only
      rw [lt_max_iff, hreceipts, hstep.ceiling]
      simp [hhold, hdelivered, hcuts, honly, or_assoc]
  · rw [if_neg (mt hguard.mp honly)]
    simp [hhold, hdelivered, hcuts, honly, hreceipts]

/-- Without an impaired delivery, a bitrate that is held or not confirmed by a delivery stays. -/
theorem stepWithDeliveryFloor_le_of_held (himpaired : call.impaired = false)
    (hheld : 0 < c.deliveryHoldTicks ∨ call.delivered = false) :
    (c.stepWithDeliveryFloor call).current ≤ c.current := by
  have hhold := (stepped_step c call.path call.deadlineMisses).hold
  unfold stepWithDeliveryFloor applyFloor
  rw [if_neg (by rcases hheld with h | h <;> simp [h])]
  generalize c.step call.path call.deadlineMisses = next at hhold
  unfold applyDelivery
  dsimp only
  rw [himpaired, if_neg Bool.false_ne_true]
  split
  · exact min_le_right _ _
  next hfree =>
  rw [if_pos]
  · exact min_le_right _ _
  · rcases hheld with h | h
    · omega
    · simp [h]

include hsmall hfloor in
/-- **When a congestion signal raises the bitrate**, in one call. -/
theorem signalled_raises_iff :
    Signalled c call ∧ c.current < (c.stepWithDeliveryFloor call).current ↔ Raises c call := by
  cases himpaired : call.impaired with
  | true =>
    rw [← raises_iff_of_impaired hsmall hfloor himpaired]
    exact and_iff_right (.inr himpaired)
  | false =>
    have hsignal : Signalled c call ↔ Cuts c call := by
      simp [Signalled, himpaired, (decided_step c call).reason]
    rw [hsignal]
    by_cases hready : c.deliveryHoldTicks = 0 ∧ call.delivered = true ∧ Cuts c call
    · obtain ⟨hhold, hdelivered, hcuts⟩ := hready
      rw [← raises_iff_of_delivered hsmall himpaired hhold hdelivered hcuts]
      exact and_iff_right hcuts
    · refine iff_of_false ?_ ?_
      · rintro ⟨hcuts, hraised⟩
        refine hraised.not_ge (stepWithDeliveryFloor_le_of_held himpaired ?_)
        by_contra hnot
        rw [not_or, Nat.not_lt, Nat.le_zero, Bool.not_eq_false] at hnot
        exact hready ⟨hnot.1, hnot.2, hcuts⟩
      · unfold Raises
        rw [if_neg (by simp [himpaired])]
        exact fun h => hready ⟨h.1, h.2.1, h.2.2.1⟩

end Raised

/-! ### Runs -/

/-- A call to the controller. -/
inductive Command where
  | steer (bps : ℕ)
  | step (call : Sample)

/-- One call. -/
def act (self : BitrateController) : Command → BitrateController
  | .steer bps => self.steer bps
  | .step call => self.stepWithDeliveryFloor call

/-- The controller after calls. -/
def run (self : BitrateController) (commands : List Command) : BitrateController :=
  commands.foldl act self

theorem bounds_act (c : BitrateController) (command : Command) :
    (c.act command).floor = c.floor ∧ (c.act command).ceiling = c.ceiling := by
  cases command with
  | steer bps => exact ⟨rfl, rfl⟩
  | step call =>
    have hstep := stepped_step c call.path call.deadlineMisses
    rw [← hstep.floor, ← hstep.ceiling]
    unfold act stepWithDeliveryFloor applyFloor applyDelivery
    dsimp only
    split_ifs <;> first | exact ⟨rfl, rfl⟩ | (split <;> exact ⟨rfl, rfl⟩)

theorem bounds_run (c : BitrateController) (commands : List Command) :
    (c.run commands).floor = c.floor ∧ (c.run commands).ceiling = c.ceiling := by
  induction commands generalizing c with
  | nil => exact ⟨rfl, rfl⟩
  | cons command commands ih =>
    obtain ⟨hf, hce⟩ := bounds_act c command
    exact ⟨(ih _).1.trans hf, (ih _).2.trans hce⟩

/-- **When a congestion signal raises the bitrate**, exactly, for a controller that was made by `new`
and called in any way. -/
theorem signal_never_raises_iff (initial ceiling : ℕ) (commands : List Command) (call : Sample) :
    let c := (new initial ceiling).run commands
    (Signalled c call → (c.stepWithDeliveryFloor call).current ≤ c.current) ↔ ¬ Raises c call := by
  intro c
  obtain ⟨hf, hce⟩ := bounds_run (new initial ceiling) commands
  have hsmall : c.floor ≤ 100000 := hf.trans_le (min_le_left _ _)
  have hfloor : c.floor ≤ c.ceiling := (hf.trans_le (min_le_right _ _)).trans hce.ge
  rw [← signalled_raises_iff hsmall hfloor, not_and, Nat.not_lt]

/-- A producer that misses a deadline. -/
def missedDeadline : Sample := ⟨none, 1, false, true, none⟩

/-- The first sample of a path. -/
def firstSample : Sample := ⟨some ⟨1, 0, 0, 0, 0⟩, 0, false, true, none⟩

/-- A sample with severe loss, and a delivery floor. -/
def severeLoss : Sample := ⟨some ⟨1, 0, 100, 20, 0⟩, 0, false, true, some 3000000⟩

/-- A sample with moderate loss. -/
def moderateLoss : Sample := ⟨some ⟨1, 0, 100, 5, 0⟩, 0, false, false, none⟩

/-- A controller that was steered down. -/
def steeredDown : BitrateController :=
  (new 4000000 8000000).run [.step firstSample, .steer 1000000]

/-- A controller at its floor, where a moderate loss holds it. -/
def heldAtFloor : BitrateController :=
  (new 4000000 8000000).run [.step firstSample, .steer 0, .step moderateLoss]

/-- A controller that `new` set below its floor. -/
def startedLow : BitrateController := (new 50000 8000000).run []

/-- A signal raises the bitrate: packet loss is sampled while the bitrate is below the delivery floor;
or the producer misses a deadline while a moderate loss holds the bitrate at the floor; or while it is
below the floor. -/
theorem signal_raises :
    (Signalled steeredDown severeLoss ∧ steeredDown.current = 1000000 ∧
        (steeredDown.stepWithDeliveryFloor severeLoss).current = 3000000) ∧
      (Signalled heldAtFloor missedDeadline ∧ heldAtFloor.current = 100000 ∧
        (heldAtFloor.stepWithDeliveryFloor missedDeadline).current = 101000) ∧
      (Signalled startedLow missedDeadline ∧ startedLow.current = 50000 ∧
        (startedLow.stepWithDeliveryFloor missedDeadline).current = 50500) := by
  unfold Signalled
  decide +kernel

end BitrateController

end Rds.Desktop
