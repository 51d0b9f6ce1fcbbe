import Mathlib
import Rds.Framework.Instant

/-!
# Acknowledgement progress of a path

Every path of a connection has a congestion controller, and `rds-net/src/ack_progress.rs` wraps it to
keep two instants: since when data is outstanding without an acknowledgement (`pending_since`), and when
a byte was last acknowledged (`confirmed_at`). The engine clones a controller for a snapshot and to
migrate a path; the first callback of a clone that is live starts both anew.

The tracker sees only callbacks, so what its two instants mean is a statement about the callbacks so far.
`evidence_track` is that statement, for every sequence of callbacks in the order of their times.
-/

namespace Rds.Path

open Framework List

/-! ### The tracker -/

/-- `Progress`. -/
structure Progress where
  pendingSince : Option Instant := none
  confirmedAt : Option Instant := none
  deriving DecidableEq

namespace Progress

/-- `Progress::sent`. -/
def sent (p : Progress) (now : Instant) (bytes : UInt64) : Progress :=
  if 0 < bytes ∧ p.pendingSince.isNone then { p with pendingSince := some now } else p

/-- `Progress::ack`. -/
def ack (p : Progress) (now : Instant) (bytes : UInt64) : Progress :=
  if 0 < bytes then
    { confirmedAt := some now
      pendingSince := if p.pendingSince.isSome then some now else p.pendingSince }
  else p

/-- `Progress::end_acks`. -/
def endAcks (p : Progress) (now : Instant) (inFlight : UInt64) : Progress :=
  if inFlight = 0 then { p with pendingSince := none }
  else if p.pendingSince.isNone then { p with pendingSince := some now }
  else p

/-- `Progress::confirmed`. -/
def confirmed (p : Progress) (now : Instant) (rtt : Duration) : Bool :=
  let budget := max (rtt.saturatingMul 8) (Duration.fromSecs 2)
  p.confirmedAt.any fun since => now.saturatingDurationSince since < budget

/-- `Progress::needs_probe`. -/
def needsProbe (p : Progress) (now : Instant) : Bool :=
  p.confirmedAt.all fun since => Duration.fromSecs 1 ≤ now.saturatingDurationSince since

/-- `Progress::stalled`. -/
def stalled (p : Progress) (now : Instant) (rtt : Duration) : Bool :=
  let budget := max (rtt.saturatingMul 4) (Duration.fromMillis 500)
  p.pendingSince.any fun since => budget ≤ now.saturatingDurationSince since

end Progress

/-- `Observation`. -/
structure Observation where
  progress : Progress
  now : Instant
  deriving DecidableEq

namespace Observation

/-- `Observation::confirmed`. -/
def confirmed (o : Observation) (rtt : Duration) : Bool := o.progress.confirmed o.now rtt

/-- `Observation::stalled`. -/
def stalled (o : Observation) (rtt : Duration) : Bool := o.progress.stalled o.now rtt

/-- `Observation::needs_probe`. -/
def needsProbe (o : Observation) : Bool := o.progress.needsProbe o.now

/-- `Observation::can_replace`: the sibling was acknowledged during the failure. -/
def canReplace (o failed : Observation) (rtt : Duration) : Bool :=
  match failed.progress.pendingSince with
  | none => false
  | some pendingSince =>
    (o.progress.confirmedAt.any fun confirmedAt => pendingSince < confirmedAt)
      && o.confirmed rtt && !o.stalled rtt

end Observation

/-- A callback of the engine on the controller of a path, with the data that the tracker reads.
`cloneBox` stands for a migration: the clone of the controller takes its place. -/
inductive Callback where
  | sent
  | packetSent (now : Instant) (bytes : UInt16)
  | cwndLimited
  | ack (now : Instant) (bytes : UInt64)
  | endAcks (now : Instant) (inFlight : UInt64)
  | congestionEvent
  | packetLost
  | spuriousCongestionEvent
  | mtuUpdate
  | ackFrequencyUpdate
  | cloneBox
  deriving DecidableEq

/-- `Tracked`, without the controller that it wraps: every callback is passed on unchanged. -/
structure Tracked where
  progress : Progress := {}
  resetOnMutation : Bool := false
  deriving DecidableEq

namespace Tracked

/-- `Tracked::prepare`. -/
def prepare (c : Tracked) : Tracked := if c.resetOnMutation then {} else c

/-- The callbacks of `Tracked`. -/
def on (c : Tracked) : Callback → Tracked
  | .packetSent now bytes =>
    { c.prepare with progress := c.prepare.progress.sent now bytes.toUInt64 }
  | .ack now bytes => { c.prepare with progress := c.prepare.progress.ack now bytes }
  | .endAcks now inFlight => { c.prepare with progress := c.prepare.progress.endAcks now inFlight }
  | .cloneBox => { c with resetOnMutation := true }
  | _ => c.prepare

end Tracked

/-- The tracker after a sequence of callbacks, from `Factory::build`. -/
def track (h : List Callback) : Tracked := h.foldl Tracked.on {}

/-! ### What the callbacks tell -/

namespace Callback

/-- The time of a callback that moves the tracker. -/
def time : Callback → Option Instant
  | .packetSent now _ => some now
  | .ack now _ => some now
  | .endAcks now _ => some now
  | _ => none

/-- Data that asks for an acknowledgement is in flight. -/
def Loads : Callback → Prop
  | .packetSent _ bytes => 0 < bytes
  | .endAcks _ inFlight => inFlight ≠ 0
  | _ => False

/-- Nothing is left in flight. -/
def Empties : Callback → Prop
  | .endAcks _ inFlight => inFlight = 0
  | _ => False

/-- A byte is acknowledged at an instant. -/
def AcksAt (c : Callback) (t : Instant) : Prop := ∃ bytes, 0 < bytes ∧ c = .ack t bytes

theorem AcksAt.time_eq {c : Callback} {t : Instant} (h : c.AcksAt t) : c.time = some t := by
  obtain ⟨bytes, -, rfl⟩ := h
  rfl

end Callback

/-- The times of the callbacks do not decrease. -/
def InOrder (h : List Callback) : Prop := (h.filterMap Callback.time).Pairwise (· ≤ ·)

/-- **Outstanding data.** Data was in flight at `since` or before, the flight was never reported empty
afterwards, and no byte was acknowledged after `since`. A packet that is declared lost was not
acknowledged. -/
structure Outstanding (h : List Callback) (since : Instant) : Prop where
  loaded : ∃ before c after, h = before ++ c :: after ∧ c.Loads ∧ (∃ t ≤ since, c.time = some t) ∧
    ∀ d ∈ after, ¬ d.Empties
  silent : ∀ c ∈ h, ∀ t, c.AcksAt t → t ≤ since

/-- A byte was acknowledged at an instant. -/
def Acknowledged (h : List Callback) (t : Instant) : Prop := ∃ c ∈ h, c.AcksAt t

/-- What the two instants of a tracker mean after the callbacks `h`. -/
structure Evidence (h : List Callback) (p : Progress) : Prop where
  pending : ∀ since, p.pendingSince = some since →
    Outstanding h since ∧ ∃ c ∈ h, c.time = some since
  confirmed : ∀ t, p.confirmedAt = some t → Acknowledged h t

/-- An instant that no callback so far is after. -/
def Latest (h : List Callback) (now : Instant) : Prop := ∀ c ∈ h, ∀ t, c.time = some t → t ≤ now

/-! ### One callback -/

section Step

variable {h : List Callback} {c : Callback} {p : Progress} {since now : Instant}

theorem Acknowledged.snoc (hack : Acknowledged h now) : Acknowledged (h ++ [c]) now := by
  obtain ⟨d, hd, hat⟩ := hack
  exact ⟨d, mem_append_left _ hd, hat⟩

theorem Outstanding.snoc (hout : Outstanding h since) (hempty : ¬ c.Empties)
    (hack : ∀ t, c.AcksAt t → t ≤ since) : Outstanding (h ++ [c]) since := by
  obtain ⟨before, d, after, rfl, hloads, htime, hafter⟩ := hout.loaded
  refine ⟨⟨before, d, after ++ [c], ?_, hloads, htime, ?_⟩, ?_⟩
  · rw [append_assoc, cons_append]
  · intro e he
    rcases mem_append.mp he with he | he
    · exact hafter e he
    · rw [mem_singleton.mp he]
      exact hempty
  intro e he t hat
  rcases mem_append.mp he with he | he
  · exact hout.silent e he t hat
  · rw [mem_singleton.mp he] at hat
    exact hack t hat

theorem Outstanding.later (hout : Outstanding h since) (hlatest : Latest h now)
    (hle : since ≤ now) : Outstanding h now := by
  obtain ⟨before, d, after, heq, hloads, ⟨t, ht, htime⟩, hafter⟩ := hout.loaded
  refine ⟨⟨before, d, after, heq, hloads, ⟨t, le_trans ht hle, htime⟩, hafter⟩, ?_⟩
  intro e he u hat
  exact hlatest e he u hat.time_eq

theorem Outstanding.start (hlatest : Latest h now) (hloads : c.Loads) (htime : c.time = some now)
    (hack : ∀ t, ¬ c.AcksAt t) : Outstanding (h ++ [c]) now := by
  refine ⟨⟨h, c, [], rfl, hloads, ⟨now, le_refl now, htime⟩, ?_⟩, ?_⟩
  · intro d hd
    cases hd
  intro e he t hat
  rcases mem_append.mp he with he | he
  · exact hlatest e he t hat.time_eq
  · rw [mem_singleton.mp he] at hat
    exact absurd hat (hack t)

theorem evidence_reset : Evidence h {} where
  pending _ hs := nomatch hs
  confirmed _ ht := nomatch ht

theorem Evidence.skip (hev : Evidence h p) (hempty : ¬ c.Empties) (hack : ∀ t, ¬ c.AcksAt t) :
    Evidence (h ++ [c]) p where
  pending since hs := by
    obtain ⟨hout, d, hd, htime⟩ := hev.pending since hs
    exact ⟨hout.snoc hempty fun t hat => absurd hat (hack t), d, mem_append_left _ hd, htime⟩
  confirmed t ht := (hev.confirmed t ht).snoc

theorem Evidence.load (hev : Evidence h p) (hlatest : Latest h now) (hloads : c.Loads)
    (htime : c.time = some now) (hack : ∀ t, ¬ c.AcksAt t) :
    Evidence (h ++ [c]) { p with pendingSince := some now } where
  pending since hs := by
    cases hs
    exact ⟨.start hlatest hloads htime hack, c, by simp, htime⟩
  confirmed t ht := (hev.confirmed t ht).snoc

theorem Evidence.sent {bytes : UInt16} (hev : Evidence h p) (hlatest : Latest h now) :
    Evidence (h ++ [.packetSent now bytes]) (p.sent now bytes.toUInt64) := by
  have hack : ∀ t, ¬ (Callback.packetSent now bytes).AcksAt t := by
    rintro t ⟨_, _, heq⟩
    cases heq
  unfold Progress.sent
  split
  · next hopen =>
    have hbytes : 0 < bytes := by
      have hlt := UInt64.lt_iff_toNat_lt.mp hopen.1
      exact UInt16.lt_iff_toNat_lt.mpr hlt
    exact hev.load hlatest hbytes rfl hack
  · exact hev.skip id hack

theorem Evidence.ack {bytes : UInt64} (hev : Evidence h p) (hlatest : Latest h now) :
    Evidence (h ++ [.ack now bytes]) (p.ack now bytes) := by
  unfold Progress.ack
  split
  · next hbytes =>
    have hat : (Callback.ack now bytes).AcksAt now := ⟨bytes, hbytes, rfl⟩
    refine ⟨?_, ?_⟩
    · intro since hs
      cases hp : p.pendingSince with
      | none => simp [hp] at hs
      | some earlier =>
        have heq : now = since := by simpa [hp] using hs
        subst heq
        obtain ⟨hout, d, hd, htime⟩ := hev.pending earlier hp
        have hlater := hout.later hlatest (hlatest d hd earlier htime)
        refine ⟨hlater.snoc id ?_, .ack now bytes, by simp, rfl⟩
        intro t ht
        exact le_of_eq (Option.some.inj ht.time_eq).symm
    · intro t ht
      cases ht
      exact ⟨.ack now bytes, by simp, hat⟩
  · next hbytes =>
    refine hev.skip id ?_
    rintro t ⟨_, hpos, heq⟩
    cases heq
    exact hbytes hpos

theorem Evidence.endAcks {inFlight : UInt64} (hev : Evidence h p) (hlatest : Latest h now) :
    Evidence (h ++ [.endAcks now inFlight]) (p.endAcks now inFlight) := by
  have hack : ∀ t, ¬ (Callback.endAcks now inFlight).AcksAt t := by
    rintro t ⟨_, _, heq⟩
    cases heq
  unfold Progress.endAcks
  split
  · refine ⟨?_, fun t ht => (hev.confirmed t ht).snoc⟩
    intro since hs
    cases hs
  next hsome =>
  split
  · exact hev.load hlatest hsome rfl hack
  · exact hev.skip hsome hack

theorem Evidence.prepare {tr : Tracked} (hev : Evidence h tr.progress) :
    Evidence h tr.prepare.progress := by
  unfold Tracked.prepare
  split
  · exact evidence_reset
  · exact hev

/-- **One callback.** -/
theorem Evidence.on {tr : Tracked} (hev : Evidence h tr.progress)
    (hlatest : ∀ t, c.time = some t → Latest h t) : Evidence (h ++ [c]) (tr.on c).progress := by
  cases c with
  | packetSent now bytes => exact hev.prepare.sent (hlatest now rfl)
  | ack now bytes => exact hev.prepare.ack (hlatest now rfl)
  | endAcks now inFlight => exact hev.prepare.endAcks (hlatest now rfl)
  -- a clone keeps the evidence until its first callback
  | cloneBox => exact hev.skip id (by rintro t ⟨_, _, heq⟩; cases heq)
  | _ => exact hev.prepare.skip id (by rintro t ⟨_, _, heq⟩; cases heq)

end Step

/-! ### Every sequence of callbacks -/

variable {h : List Callback} {now : Instant}

theorem InOrder.latest {c : Callback} (hord : InOrder (h ++ [c]))
    (htime : c.time = some now) : Latest h now := by
  intro d hd t ht
  unfold InOrder at hord
  rw [filterMap_append, pairwise_append] at hord
  refine hord.2.2 t (mem_filterMap.mpr ⟨d, hd, ht⟩) now ?_
  exact mem_filterMap.mpr ⟨c, mem_singleton_self c, htime⟩

theorem InOrder.init {c : Callback} (hord : InOrder (h ++ [c])) :
    InOrder h := by
  unfold InOrder at hord ⊢
  rw [filterMap_append, pairwise_append] at hord
  exact hord.1

/-- **What a tracker shows.** -/
theorem evidence_track (hord : InOrder h) : Evidence h (track h).progress := by
  induction h using reverseRecOn with
  | nil => exact evidence_reset
  | append_singleton h c ih =>
    have hstep := (ih hord.init).on (c := c) fun t htime => hord.latest htime
    have htrack : track (h ++ [c]) = (track h).on c := foldl_append
    rw [htrack]
    exact hstep

/-! ### Stalls and replacements -/

/-- **A stall.** Data was outstanding without an acknowledgement for four round trips, and for half a
second. -/
theorem outstanding_of_stalled (hord : InOrder h)
    {rtt : Duration} (hstalled : (track h).progress.stalled now rtt = true) :
    ∃ since, (track h).progress.pendingSince = some since ∧ Outstanding h since ∧
      max (4 * rtt.ns) 500000000 ≤ now.ns - since.ns := by
  obtain ⟨since, hsince, hbudget⟩ := (Option.any_eq_true _ _).mp hstalled
  rw [decide_eq_true_eq] at hbudget
  have hle := Instant.le_sub_of_saturatingMul_le hbudget
  exact ⟨since, hsince, ((evidence_track hord).pending since hsince).1, hle⟩

/-- **A replacement.** The sibling was acknowledged after the period of the failed path began, within
eight round trips or two seconds, and is not stalled. -/
theorem acknowledged_of_canReplace (hord : InOrder h)
    {failed : Observation} {rtt : Duration} {since : Instant}
    (hfailed : failed.progress.pendingSince = some since)
    (hreplace : Observation.canReplace ⟨(track h).progress, now⟩ failed rtt = true) :
    ∃ t, Acknowledged h t ∧ since < t ∧ now.ns - t.ns < max (8 * rtt.ns) 2000000000 ∧
      (track h).progress.stalled now rtt = false := by
  unfold Observation.canReplace at hreplace
  rw [hfailed] at hreplace
  simp only [Bool.and_eq_true, Bool.not_eq_true'] at hreplace
  obtain ⟨⟨hlater, hconfirmed⟩, hstalled⟩ := hreplace
  obtain ⟨t, ht, hlt⟩ := (Option.any_eq_true _ _).mp hlater
  obtain ⟨t', ht', hbudget⟩ := (Option.any_eq_true _ _).mp hconfirmed
  rw [ht] at ht'
  cases ht'
  rw [decide_eq_true_eq] at hlt hbudget
  have hwithin := Instant.sub_lt_of_lt_saturatingMul hbudget
  exact ⟨t, (evidence_track hord).confirmed t ht, hlt, hwithin, hstalled⟩

end Rds.Path
