import Rds.Discovery.Basic

/-!
# Leases of signed data

Signed data is accepted for the time its signature allows, measured on two clocks: the wall
clock, and an operating system clock that runs on during sleep (`rds-discovery/src/clock.rs`).
A `Lease` records where both clocks stood when the data was accepted. It is valid only during
the same boot, while neither clock has gone back behind that point and neither has passed the
end of the signed interval.
-/

namespace Rds.Discovery

open Framework Postcard Duration

/-- `Reading`: both clocks at one moment. -/
structure Reading where
  boot : Id16
  wall : Duration
  continuous : Duration

/-- What `Reading::now` returns: reading either clock can fail. -/
abbrev ClockRead : Type := Except DiscoveryError Reading

/-- `Lease`. -/
structure Lease where
  boot : Id16
  issuedAt : UInt64
  expiresAt : UInt64
  acceptedWall : Duration
  acceptedContinuous : Duration
  deadline : Duration
  deriving DecidableEq

namespace Lease

/-- `Lease::new`. -/
def new (issuedAt expiresAt : UInt64) (now : Reading) : Except DiscoveryError Lease :=
  if issuedAt > now.wall.asSecs then throw (invalid "signed data is from the future")
  else
    match ((Duration.fromSecs expiresAt).checkedSub now.wall).filter fun d => !d.isZero with
    | none => throw .expired
    | some remaining =>
      match now.continuous.checkedAdd remaining with
      | none => throw (invalid "signed-data deadline overflow")
      | some deadline =>
        pure
          { boot := now.boot, issuedAt, expiresAt, acceptedWall := now.wall,
            acceptedContinuous := now.continuous, deadline }

/-- `Lease::valid_at`. -/
def validAt (self : Lease) (now : Reading) : Bool :=
  now.boot = self.boot ∧ self.acceptedWall ≤ now.wall ∧ self.issuedAt ≤ now.wall.asSecs ∧
    now.wall.asSecs < self.expiresAt ∧ self.acceptedContinuous ≤ now.continuous ∧
    now.continuous < self.deadline

/-- `Lease::matches_interval`. -/
def matchesInterval (self : Lease) (issued expires : UInt64) : Bool :=
  self.issuedAt = issued ∧ self.expiresAt = expires ∧ issued ≤ self.acceptedWall.asSecs ∧
    self.acceptedWall.asSecs < expires ∧
    self.deadline.checkedSub self.acceptedContinuous
      = (Duration.fromSecs expires).checkedSub self.acceptedWall

/-- **What a new lease is.** It covers the reading, and its deadline is as far from the
continuous clock as the end of the interval is from the wall clock. -/
theorem new_eq_ok {issued expires : UInt64} {now : Reading} {lease : Lease}
    (h : new issued expires now = .ok lease) :
    issued ≤ now.wall.asSecs ∧ now.wall.asSecs < expires ∧ lease.boot = now.boot ∧
      lease.issuedAt = issued ∧ lease.expiresAt = expires ∧ lease.acceptedWall = now.wall ∧
      lease.acceptedContinuous = now.continuous ∧
      lease.deadline.ns = now.continuous.ns + ((Duration.fromSecs expires).ns - now.wall.ns) := by
  obtain ⟨hfuture, h⟩ := ite_throw_eq_ok.mp h
  have hissued : issued ≤ now.wall.asSecs := UInt64.not_lt.mp hfuture
  split at h
  · exact absurd h (by simp)
  next remaining hremaining =>
  obtain ⟨hsub, hpos⟩ := Option.filter_eq_some_iff.mp hremaining
  obtain ⟨-, hns⟩ := checkedSub_eq_some.mp hsub
  split at h
  · exact absurd h (by simp)
  next deadline hadd =>
  cases h
  rw [checkedAdd_eq_some] at hadd
  have hne : remaining.ns ≠ 0 := by simpa [isZero] using hpos
  refine ⟨hissued, ?_, rfl, rfl, rfl, rfl, rfl, by rw [hadd, hns]⟩
  rw [asSecs_lt_iff, lt_def]
  omega

/-- **A new lease matches its interval.** -/
theorem matchesInterval_new {issued expires : UInt64} {now : Reading} {lease : Lease}
    (h : new issued expires now = .ok lease) : lease.matchesInterval issued expires = true := by
  obtain ⟨hissued, hexpires, -, rfl, rfl, hwall, hcont, hdeadline⟩ := new_eq_ok h
  have hlt := lt_def.mp (asSecs_lt_iff.mp hexpires)
  refine decide_eq_true ⟨rfl, rfl, hwall ▸ hissued, hwall ▸ hexpires, ?_⟩
  have hrest : (fromSecs lease.expiresAt).checkedSub now.wall =
      some ⟨(fromSecs lease.expiresAt).ns - now.wall.ns, _⟩ := if_pos (Nat.le_of_lt hlt)
  rw [hwall, hcont, hrest, checkedSub_eq_some]
  refine ⟨?_, ?_⟩
  · rw [le_def]
    omega
  · dsimp only
    omega

end Lease

/-! ### Formats -/

/-- `Lease` in postcard. -/
def leaseCodec : Codec Lease :=
  ((Codec.fixed 16).pair (Codec.word64.pair (Codec.word64.pair
      (Codec.duration.pair (Codec.duration.pair .duration))))).iso
    (fun r => ⟨r.1, r.2.1, r.2.2.1, r.2.2.2.1, r.2.2.2.2.1, r.2.2.2.2.2⟩)
    (fun l => (l.boot, l.issuedAt, l.expiresAt, l.acceptedWall, l.acceptedContinuous, l.deadline))
    fun _ => rfl

theorem valid_leaseCodec (lease : Lease) : leaseCodec.Valid lease :=
  ⟨True.intro, Codec.valid_word64 _, Codec.valid_word64 _, True.intro, True.intro, True.intro⟩

end Rds.Discovery
