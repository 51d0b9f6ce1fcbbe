import Mathlib.Data.List.MinMax

/-!
# The choice of a path

`choose_with_relay_order` of `rds-net/src/backends/iroh/latency.rs`. Relays of a worse rank are left out, the
fastest of the others is the candidate, and it is chosen only if it beats every current path that is left by
`SWITCH_GAIN`. A current path can be left out too. It then does not hold the choice back, but whatever is
chosen is never left out, so there is no second switch on a path set with steady times.
-/

namespace Rds.PathChoice

open List

/-- `SWITCH_GAIN`, in nanoseconds. -/
def switchGain : ℕ := 5000000

/-- A path with its round-trip time, whether it is current, and its rank if it is a relay. -/
structure PathEntry (T : Type) where
  path : T
  rtt : ℕ
  current : Bool
  rank : Option ℕ

variable {T : Type}

/-- The loop of `choose`: the best path, and the least time of a current one. -/
def chooseStep (s : Option (T × ℕ) × Option ℕ) (e : PathEntry T) : Option (T × ℕ) × Option ℕ :=
  (if s.1.all fun best => e.rtt < best.2 then some (e.path, e.rtt) else s.1,
    if e.current ∧ s.2.all fun old => e.rtt < old then some e.rtt else s.2)

/-- `choose`. -/
def choose (paths : List (PathEntry T)) : Option T :=
  match paths.foldl chooseStep (none, none) with
  | (none, _) => none
  | (some (path, rtt), current) => if current.all fun old => old - rtt ≥ switchGain then some path else none

/-- `choose_with_relay_order`. -/
def chooseWithRelayOrder (paths : List (PathEntry T)) : Option T :=
  let bestRelay := (paths.filterMap PathEntry.rank).min?
  choose (paths.filter fun e => e.rank.isNone ∨ e.rank = bestRelay)

/-- A direct path, or a relay of the best rank. -/
def Eligible (paths : List (PathEntry T)) (e : PathEntry T) : Prop :=
  ∀ r, e.rank = some r → ∀ e' ∈ paths, ∀ r', e'.rank = some r' → r ≤ r'

/-- What is chosen is eligible, no eligible path is faster, and each eligible current path is slower by
`switchGain`. -/
structure Chosen (paths : List (PathEntry T)) (e : PathEntry T) : Prop where
  mem : e ∈ paths
  eligible : Eligible paths e
  least : ∀ e' ∈ paths, Eligible paths e' → e.rtt ≤ e'.rtt
  gain : ∀ e' ∈ paths, Eligible paths e' → e'.current = true → e.rtt + switchGain ≤ e'.rtt

/-! ### One evaluation -/

/-- The loop keeps two minima: over all paths, and over the current ones. -/
theorem foldl_chooseStep (paths : List (PathEntry T)) : paths.foldl chooseStep (none, none) =
    ((paths.argmin PathEntry.rtt).map fun e => (e.path, e.rtt),
      ((paths.filter PathEntry.current).argmin PathEntry.rtt).map PathEntry.rtt) := by
  induction paths using reverseRecOn with
  | nil => rfl
  | append_singleton paths e ih =>
    rw [foldl_append, ih, argmin_concat, filter_append]
    refine Prod.ext ?_ ?_
    · cases paths.argmin PathEntry.rtt with
      | none => rfl
      | some best => by_cases hless : e.rtt < best.rtt <;> simp [chooseStep, hless]
    by_cases hcurrent : e.current = true
    · rw [filter_cons_of_pos hcurrent, filter_nil, argmin_concat]
      cases (paths.filter PathEntry.current).argmin PathEntry.rtt with
      | none => simp [chooseStep, hcurrent]
      | some old => by_cases hless : e.rtt < old.rtt <;> simp [chooseStep, hcurrent, hless]
    · simp [chooseStep, hcurrent]

theorem choose_eq_some {paths : List (PathEntry T)} {p : T} (h : choose paths = some p) :
    ∃ e ∈ paths, e.path = p ∧ (∀ e' ∈ paths, e.rtt ≤ e'.rtt) ∧
      ∀ e' ∈ paths, e'.current = true → e.rtt + switchGain ≤ e'.rtt := by
  unfold choose at h
  rw [foldl_chooseStep] at h
  cases hbest : paths.argmin PathEntry.rtt with
  | none =>
    rw [hbest] at h
    cases h
  | some e =>
    rw [hbest] at h
    obtain ⟨hgain, hpath⟩ := Option.ite_none_right_eq_some.mp h
    cases hpath
    refine ⟨e, argmin_mem hbest, rfl, fun e' he' => le_of_mem_argmin he' hbest, fun e' he' hcurrent => ?_⟩
    -- the least time of a current path is far enough, so all are
    have hmem : e' ∈ paths.filter PathEntry.current := mem_filter.mpr ⟨he', hcurrent⟩
    cases hold : (paths.filter PathEntry.current).argmin PathEntry.rtt with
    | none => exact absurd hmem (argmin_eq_none.mp hold ▸ not_mem_nil)
    | some old =>
      have hle := le_of_mem_argmin hmem hold
      rw [hold] at hgain
      have hge : switchGain ≤ old.rtt - e.rtt := of_decide_eq_true hgain
      have hpos : 0 < switchGain := by decide
      omega

theorem eligible_iff {paths : List (PathEntry T)} {e : PathEntry T} (he : e ∈ paths) :
    (e.rank.isNone ∨ e.rank = (paths.filterMap PathEntry.rank).min?) ↔ Eligible paths e := by
  unfold Eligible
  cases hrank : e.rank with
  | none => simp
  | some r =>
    have hmem : r ∈ paths.filterMap PathEntry.rank := mem_filterMap.mpr ⟨e, he, hrank⟩
    rw [@eq_comm _ (some r), min?_eq_some_iff]
    simp only [Option.isNone_some, Bool.false_eq_true, false_or, hmem, true_and, mem_filterMap,
      Option.some.injEq, forall_eq', forall_exists_index, and_imp]
    exact ⟨fun h e' he' r' hr' => h r' e' he' hr', fun h r' e' he' hr' => h e' he' r' hr'⟩

/-- **One evaluation.** -/
theorem chosen_of_eq_some {paths : List (PathEntry T)} {p : T} (h : chooseWithRelayOrder paths = some p) :
    ∃ e, e.path = p ∧ Chosen paths e := by
  obtain ⟨e, he, hpath, hleast, hgain⟩ := choose_eq_some h
  simp only [mem_filter, decide_eq_true_eq, and_imp] at he hleast hgain
  exact ⟨e, hpath, he.1, (eligible_iff he.1).mp he.2, fun e' he' hel => hleast e' he' ((eligible_iff he').mpr hel),
    fun e' he' hel => hgain e' he' ((eligible_iff he').mpr hel)⟩

/-- An eligible current path that is not slower by `switchGain` than another keeps the choice. -/
theorem eq_none_of_current {paths : List (PathEntry T)} {e : PathEntry T} (he : e ∈ paths) (hel : Eligible paths e)
    (hcurrent : e.current = true) (hnear : ∀ e' ∈ paths, Eligible paths e' → e.rtt < e'.rtt + switchGain) :
    chooseWithRelayOrder paths = none := by
  refine Option.eq_none_iff_forall_ne_some.mpr fun p hp => ?_
  obtain ⟨e', -, hchosen⟩ := chosen_of_eq_some hp
  exact absurd (hnear e' hchosen.mem hchosen.eligible) (Nat.not_lt.mpr (hchosen.gain e he hel hcurrent))

/-! ### Evaluation after evaluation -/

variable [DecidableEq T]

/-- The paths with `p` as the only current one. -/
def mark (p : T) (paths : List (PathEntry T)) : List (PathEntry T) :=
  paths.map fun e => { e with current := e.path = p }

/-- The paths of a set, with the times of an evaluation. -/
def measured (paths : List (T × Option ℕ)) (current : T → Bool) (rtt : T → ℕ) : List (PathEntry T) :=
  paths.map fun x => ⟨x.1, rtt x.1, current x.1, x.2⟩

/-- How often a sequence of evaluations switches, if each result becomes current. -/
def switches (paths : List (T × Option ℕ)) (current : T → Bool) : List (T → ℕ) → ℕ
  | [] => 0
  | rtt :: rtts =>
    match chooseWithRelayOrder (measured paths current rtt) with
    | none => switches paths current rtts
    | some p => switches paths (fun q => q = p) rtts + 1

section

variable {paths : List (T × Option ℕ)} {current : T → Bool} {lo hi : ℕ} {rtts : List (T → ℕ)}

/-- A path that no relay of the set outranks. -/
def Unranked (paths : List (T × Option ℕ)) (x : T × Option ℕ) : Prop :=
  ∀ r, x.2 = some r → ∀ x' ∈ paths, ∀ r', x'.2 = some r' → r ≤ r'

omit [DecidableEq T] in
theorem eligible_measured {x : T × Option ℕ} {rtt : T → ℕ} : Eligible (measured paths current rtt)
    ⟨x.1, rtt x.1, current x.1, x.2⟩ ↔ Unranked paths x := by
  simp only [Eligible, Unranked, measured, forall_mem_map]

/-- **After a switch** there is no other one. -/
theorem switches_of_current (hnear : hi < lo + switchGain)
    (hrtts : ∀ rtt ∈ rtts, ∀ x ∈ paths, lo ≤ rtt x.1 ∧ rtt x.1 ≤ hi) {x : T × Option ℕ} (hx : x ∈ paths)
    (hbest : Unranked paths x) (hcurrent : current x.1 = true) : switches paths current rtts = 0 := by
  induction rtts with
  | nil => rfl
  | cons rtt rtts ih =>
    obtain ⟨hrtt, hrtts⟩ := forall_mem_cons.mp hrtts
    have hnone : chooseWithRelayOrder (measured paths current rtt) = none := by
      refine eq_none_of_current (mem_map_of_mem hx) (eligible_measured.mpr hbest) hcurrent fun e he _ => ?_
      obtain ⟨x', hx', rfl⟩ := mem_map.mp he
      have := (hrtt x hx).2
      have := (hrtt x' hx').1
      dsimp only
      omega
    rw [switches, hnone]
    exact ih hrtts

theorem switches_le_one (hnear : hi < lo + switchGain)
    (hrtts : ∀ rtt ∈ rtts, ∀ x ∈ paths, lo ≤ rtt x.1 ∧ rtt x.1 ≤ hi) : switches paths current rtts ≤ 1 := by
  induction rtts with
  | nil => exact Nat.zero_le _
  | cons rtt rtts ih =>
    have hrest := (forall_mem_cons.mp hrtts).2
    rw [switches]
    cases hchoice : chooseWithRelayOrder (measured paths current rtt) with
    | none => exact ih hrest
    | some p =>
      obtain ⟨e, rfl, hchosen⟩ := chosen_of_eq_some hchoice
      obtain ⟨x, hx, rfl⟩ := mem_map.mp hchosen.mem
      exact (congrArg (· + 1) (switches_of_current hnear hrest hx (eligible_measured.mp hchosen.eligible)
        (decide_eq_true rfl))).le

end

/-- **The choice has a hysteresis.** -/
theorem path_hysteresis : (∀ (paths : List (PathEntry T)) p, chooseWithRelayOrder paths = some p →
      (∃ e, e.path = p ∧ Chosen paths e) ∧ chooseWithRelayOrder (mark p paths) = none) ∧
    ∀ (paths : List (T × Option ℕ)) current rtts lo hi, hi < lo + switchGain →
      (∀ rtt ∈ rtts, ∀ x ∈ paths, lo ≤ rtt x.1 ∧ rtt x.1 ≤ hi) → switches paths current rtts ≤ 1 := by
  refine ⟨fun paths p h => ?_, fun _ _ _ _ _ => switches_le_one⟩
  obtain ⟨e, rfl, hchosen⟩ := chosen_of_eq_some h
  have hmark : ∀ e', Eligible (mark e.path paths) { e' with current := e'.path = e.path } ↔ Eligible paths e' := by
    simp only [Eligible, mark, forall_mem_map, implies_true]
  refine ⟨⟨e, rfl, hchosen⟩, eq_none_of_current (mem_map_of_mem hchosen.mem) ((hmark e).mpr hchosen.eligible)
    (decide_eq_true rfl) fun e' he' hel => ?_⟩
  obtain ⟨e₀, he₀, rfl⟩ := mem_map.mp he'
  exact (hchosen.least e₀ he₀ ((hmark e₀).mp hel)).trans_lt (Nat.lt_add_of_pos_right (by decide))

end Rds.PathChoice
