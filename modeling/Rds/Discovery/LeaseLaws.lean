import Rds.Discovery.Clock
import Rds.Framework.Instant

/-!
# How long a lease lasts

A reading is covered by a lease while each of its clocks is in an interval that starts where
the clock stood at acceptance (`validAt_iff`). `Lease::remaining_at` is the distance to the
nearer end, and since both conditions are intervals a lease that has ended along clocks that
only move forward never comes back.
-/

namespace Rds.Discovery

open Framework Duration

/-- The clocks of `later` stand where those of `earlier` did or ahead, in the same boot. -/
def Reading.Ahead (earlier later : Reading) : Prop :=
  later.boot = earlier.boot ∧ earlier.wall ≤ later.wall ∧ earlier.continuous ≤ later.continuous

instance : Trans Reading.Ahead Reading.Ahead Reading.Ahead :=
  ⟨fun h h' => ⟨h'.1.trans h.1, h.2.1.trans h'.2.1, h.2.2.trans h'.2.2⟩⟩

namespace Lease

/-- `Lease::remaining_at`. A difference of durations aborts below zero, which is `none`. -/
def remainingAt (self : Lease) (now : Reading) : Option Duration :=
  if !self.validAt now then some .zero
  else do
    let wall ← (Duration.fromSecs self.expiresAt).checkedSub now.wall
    let continuous ← self.deadline.checkedSub now.continuous
    some (min wall continuous)

variable {issued expires : UInt64} {now : Reading} {lease : Lease}

/-- **Validity is two intervals.** -/
theorem validAt_iff (h : new issued expires now = .ok lease) (r : Reading) :
    lease.validAt r = true ↔ r.boot = now.boot ∧ (now.wall ≤ r.wall ∧
      r.wall < .fromSecs expires) ∧ now.continuous ≤ r.continuous ∧ r.continuous < lease.deadline := by
  obtain ⟨hissued, -, hboot, rfl, rfl, hwall, hcont, -⟩ := new_eq_ok h
  unfold validAt
  rw [decide_eq_true_eq, hboot, hwall, hcont, asSecs_lt_iff]
  constructor
  · rintro ⟨hb, hw, -, he, hc⟩
    exact ⟨hb, ⟨hw, he⟩, hc⟩
  · rintro ⟨hb, ⟨hw, he⟩, hc⟩
    -- the signed start is behind the wall clock at acceptance already
    exact ⟨hb, hw, UInt64.le_trans hissued (asSecs_mono hw), he, hc⟩

/-- What is left of a valid lease, in nanoseconds. -/
theorem remainingAt_of_valid (h : new issued expires now = .ok lease) {r : Reading}
    (hr : lease.validAt r = true) : ∃ d, lease.remainingAt r = some d ∧
      d.ns = min ((Duration.fromSecs expires).ns - r.wall.ns) (lease.deadline.ns - r.continuous.ns)
      := by
  obtain ⟨-, -, -, -, hexpires, -⟩ := new_eq_ok h
  obtain ⟨-, ⟨-, hw⟩, -, hc⟩ := (validAt_iff h r).mp hr
  unfold remainingAt checkedSub
  rw [hr, hexpires, if_pos (le_def.mp hw.le), if_pos (le_def.mp hc.le)]
  refine ⟨_, rfl, ?_⟩
  exact Monotone.map_min (f := ns) fun _ _ hle => hle

/-- **Lease laws.** A new lease matches its interval. A valid reading is of the same boot, with
both clocks between acceptance and end. What remains is always defined, is positive exactly on
valid readings, and is the time both clocks may still advance. Along clocks that only move
forward a lease that was valid and is not any more is never valid again. -/
theorem lease_laws (h : new issued expires now = .ok lease) :
    lease.matchesInterval issued expires = true ∧
    (∀ r, lease.validAt r = true → r.boot = now.boot ∧ (now.wall ≤ r.wall ∧
      r.wall < .fromSecs expires) ∧ now.continuous ≤ r.continuous ∧ r.continuous < lease.deadline) ∧
    (∀ r, ∃ d, lease.remainingAt r = some d ∧ (.zero < d ↔ lease.validAt r = true)) ∧
    (∀ (r r' : Reading) (d : ℕ) (left : Duration), lease.validAt r = true →
      r'.boot = r.boot → r'.wall.ns = r.wall.ns + d → r'.continuous.ns = r.continuous.ns + d →
      lease.remainingAt r = some left → (lease.validAt r' = true ↔ d < left.ns)) ∧
    ∀ readings : List Reading, readings.IsChain Reading.Ahead → ∀ a b c, [a, b, c].Sublist readings →
        lease.validAt a = true → lease.validAt b = false → lease.validAt c = false := by
  refine ⟨matchesInterval_new h, fun r => (validAt_iff h r).mp, fun r => ?_, ?_, ?_⟩
  · by_cases hr : lease.validAt r = true
    · obtain ⟨d, hd, hns⟩ := remainingAt_of_valid h hr
      obtain ⟨-, ⟨-, hw⟩, -, hc⟩ := (validAt_iff h r).mp hr
      refine ⟨d, hd, fun _ => hr, fun _ => lt_def.mpr ?_⟩
      rw [hns]
      exact lt_min (Nat.sub_pos_of_lt hw) (Nat.sub_pos_of_lt hc)
    refine ⟨.zero, ?_, fun hlt => absurd hlt (lt_irrefl _), fun hv => absurd hv hr⟩
    unfold remainingAt
    rw [Bool.not_eq_true] at hr
    rw [hr]
    rfl
  · intro r r' d left hr hboot hwall hcont hleft
    obtain ⟨_, hd, hns⟩ := remainingAt_of_valid h hr
    cases hleft.symm.trans hd
    obtain ⟨hb, ⟨hw, hwe⟩, hc, hce⟩ := (validAt_iff h r).mp hr
    rw [validAt_iff h, hns, lt_min_iff]
    simp only [le_def, lt_def, hcont] at hw hwe hc hce ⊢
    constructor
    · omega
    · rintro ⟨hwe', hce'⟩
      exact ⟨hboot.trans hb, by omega⟩
  intro readings hchain a b c hsub ha hb
  have hpair := (List.isChain_iff_pairwise.mp hchain).sublist hsub
  simp only [List.pairwise_cons, List.mem_cons] at hpair
  have hab : Reading.Ahead a b := hpair.1 b (.inl rfl)
  have hbc : Reading.Ahead b c := hpair.2.1 c (.inl rfl)
  rw [← Bool.not_eq_true, validAt_iff h] at hb ⊢
  obtain ⟨hboot, ⟨hw, -⟩, hc, -⟩ := (validAt_iff h a).mp ha
  rintro ⟨-, ⟨-, hwe⟩, -, hce⟩
  -- valid before and after: the reading in between is inside both intervals
  exact hb ⟨hab.1.trans hboot, ⟨hw.trans hab.2.1, hbc.2.1.trans_lt hwe⟩,
    hc.trans hab.2.2, hbc.2.2.trans_lt hce⟩

/-- Both clocks in milliseconds. -/
def millisReading (wall continuous : UInt32) : Reading :=
  ⟨⟨List.replicate 16 3, rfl⟩, .fromMillis wall, .fromMillis continuous⟩

/-- Signed for the seconds 5 to 12 and accepted at second 10.5, with the continuous clock at 3.25. -/
def fractionalLease : Lease :=
  ⟨⟨List.replicate 16 3, rfl⟩, 5, 12, .fromMillis 10500, .fromMillis 3250, .fromMillis 4750⟩

/-- At second 11 of the wall clock the continuous clock has gone on by 0.75 seconds, and leaves as many:
after 0.7 seconds on both the lease is valid, after 0.8 it is not, and then it is not valid again. -/
theorem lease_laws_second :
    new 5 12 (millisReading 10500 3250) = .ok fractionalLease ∧
    fractionalLease.remainingAt (millisReading 11000 4000) = some (.fromMillis 750) ∧
    fractionalLease.validAt (millisReading 11700 4700) = true ∧
    fractionalLease.validAt (millisReading 11800 4800) = false ∧
    fractionalLease.validAt (millisReading 11900 4900) = false := by
  have hnew : new 5 12 (millisReading 10500 3250) = .ok fractionalLease := by rfl
  have hleft : fractionalLease.remainingAt (millisReading 11000 4000) =
      some (.fromMillis 750) := by decide +kernel
  obtain ⟨-, -, hremaining, helapse, hfinal⟩ := lease_laws hnew
  have hvalid : fractionalLease.validAt (millisReading 11000 4000) = true := by
    obtain ⟨d, hd, hpos⟩ := hremaining (millisReading 11000 4000)
    cases hleft.symm.trans hd
    exact hpos.mp (by decide)
  have hstill : fractionalLease.validAt (millisReading 11700 4700) = true :=
    (helapse _ (millisReading 11700 4700) 700000000 _ hvalid rfl rfl rfl hleft).mpr (by decide)
  have hlater : fractionalLease.validAt (millisReading 11800 4800) = false := by
    have hend := helapse _ (millisReading 11800 4800) 800000000 _ hvalid rfl rfl rfl hleft
    exact eq_false_of_ne_true (hend.not.mpr (by decide))
  refine ⟨hnew, hleft, hstill, hlater, hfinal [millisReading 11000 4000, millisReading 11800 4800,
    millisReading 11900 4900] ?_ _ _ _ (List.Sublist.refl _) hvalid hlater⟩
  exact .cons_cons ⟨rfl, by decide, by decide⟩ (.cons_cons ⟨rfl, by decide, by decide⟩ (.singleton _))

end Lease

end Rds.Discovery
