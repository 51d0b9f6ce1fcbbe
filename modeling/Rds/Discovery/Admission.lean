import Rds.Discovery.RecordStore
import Rds.Framework.FixedWindow
import Rds.Framework.Instant
import Rds.Framework.Table

/-!
# Publisher admission

Each new mutation of an endpoint spends budgets of the service (`rds-discovery/src/admission.rs`): one of
its own, and one shared by all endpoints, for new or for known ones. A known endpoint has one protected
write in each of its windows that spends no shared budget.

`Limiter.recordAt` is one call, `Limiter.run` a sequence of calls at the times they carry. The run keeps a
log of the accepted writes. Each window counts a part of the log: a writer's its own writes, `admissions`
those of unknown endpoints, `burst` those of known endpoints beyond the protected one (`Limiter.Inv`). The
bounds on any minute are then those of fixed windows. As long as the keys are few, no writer is forgotten.
-/

namespace Rds.Discovery

open Framework List

/-! ### Enrollment -/

/-- `Enrollment`, without the fixture for tests. -/
structure Enrollment where
  keys : Finset EndpointKey

namespace Enrollment

/-- One iteration of the loop of `Enrollment::new`: the keys so far and their number. `isWeak` is
`VerifyingKey::is_weak`. -/
def enroll (x : Crates) (isWeak : EndpointKey → Bool) (enrolled : Finset EndpointKey × ℕ) (key : EndpointKey) :
    Except DiscoveryError (Finset EndpointKey × ℕ) :=
  if enrolled.2 ≥ maxIdentities then
    throw (.configuration (.text "enrollment exceeds 4096 identities"))
  else if ¬ x.validKey key then throw (.configuration (.text "invalid enrollment key"))
  else if isWeak key ∨ key ∈ enrolled.1 then
    throw (.configuration (.text "weak or duplicate enrollment key"))
  else pure (insert key enrolled.1, enrolled.2 + 1)

/-- `Enrollment::new`. -/
def new (x : Crates) (isWeak : EndpointKey → Bool) (keys : List EndpointKey) :
    Except DiscoveryError Enrollment := do
  let enrolled ← keys.foldlM (enroll x isWeak) (∅, 0)
  pure ⟨enrolled.1⟩

theorem foldlM_enroll {x : Crates} {isWeak : EndpointKey → Bool} {keys : List EndpointKey}
    {before after : Finset EndpointKey × ℕ} (hcard : before.1.card = before.2)
    (hle : before.2 ≤ maxIdentities) (h : keys.foldlM (enroll x isWeak) before = .ok after) :
    after.1.card = after.2 ∧ after.2 ≤ maxIdentities := by
  induction keys generalizing before with
  | nil =>
    cases h
    exact ⟨hcard, hle⟩
  | cons key keys ih =>
    obtain ⟨mid, hmid, hrest⟩ := bind_eq_ok.mp h
    obtain ⟨hroom, hmid⟩ := ite_throw_eq_ok.mp hmid
    obtain ⟨-, hmid⟩ := ite_throw_eq_ok.mp hmid
    obtain ⟨hnew, hmid⟩ := ite_throw_eq_ok.mp hmid
    cases hmid
    refine ih ?_ ?_ hrest
    · rw [Finset.card_insert_of_notMem fun hmem => hnew (.inr hmem), hcard]
    · exact Nat.lt_of_not_le hroom

/-- **Few keys are enrolled.** -/
theorem card_keys_le {x : Crates} {isWeak : EndpointKey → Bool} {keys : List EndpointKey}
    {enrollment : Enrollment} (h : new x isWeak keys = .ok enrollment) :
    enrollment.keys.card ≤ maxIdentities := by
  obtain ⟨enrolled, hfold, h⟩ := bind_eq_ok.mp h
  cases h
  obtain ⟨hcard, hle⟩ := foldlM_enroll Finset.card_empty (Nat.zero_le _) hfold
  rw [hcard]
  exact hle

end Enrollment

/-! ### Windows -/

/-- The budgets of `Limits` that writes spend. -/
structure Limits where
  putMinInterval : Duration
  putPerMinute : ℕ
  admissionsPerMinute : ℕ
  writerPerMinute : ℕ

/-- `WINDOW`. -/
def admissionWindow : Duration := .fromSecs 60

/-- `Window`. What is used stays below the limit, a `u32`. -/
structure Window where
  start : Instant
  used : ℕ

namespace Window

/-- `Window::new`. -/
def new (now : Instant) : Window := ⟨now, 0⟩

/-- The window is over. -/
def expired (self : Window) (now : Instant) : Bool :=
  now.saturatingDurationSince self.start ≥ admissionWindow

/-- `Window::reset`, without its answer (`expired`). -/
def reset (self : Window) (now : Instant) : Window := if self.expired now then new now else self

/-- `self.used += 1`. -/
def charge (self : Window) : Window := { self with used := self.used + 1 }

/-- `Window::take`. -/
def take (self : Window) (now : Instant) (limit : ℕ) : Bool × Window :=
  let window := self.reset now
  if window.used ≥ limit then (false, window) else (true, window.charge)

theorem lt_of_reset (window : Window) (now : Instant) :
    now.ns < (window.reset now).start.ns + admissionWindow.ns := by
  have hpos : 0 < admissionWindow.ns := by decide
  unfold reset
  split
  next => exact Nat.lt_add_of_pos_right hpos
  next hexpired =>
    have hlate : ¬ admissionWindow.ns ≤ now.ns - window.start.ns := fun h => hexpired (decide_eq_true h)
    omega

theorem used_reset_le (window : Window) (now : Instant) : (window.reset now).used ≤ window.used := by
  unfold reset
  split
  · exact Nat.zero_le _
  · exact le_rfl

theorem take_eq (window : Window) (now : Instant) (limit : ℕ) :
    window.take now limit = (false, window.reset now) ∨
      (window.reset now).used < limit ∧ window.take now limit = (true, (window.reset now).charge) := by
  by_cases hfull : (window.reset now).used ≥ limit
  · exact .inl (if_pos hfull)
  · exact .inr ⟨Nat.lt_of_not_le hfull, if_neg hfull⟩

end Window

/-- `Writer`. -/
structure Writer where
  window : Window
  reserved : Bool
  last : Option Instant

namespace Writer

/-- The writer of a new entry. -/
def new (now : Instant) : Writer := ⟨.new now, false, none⟩

/-- A writer at the time of a call: if its window was over, its protected write is free again. -/
def refresh (self : Writer) (now : Instant) : Writer :=
  { self with
    window := self.window.reset now
    reserved := if self.window.expired now then false else self.reserved }

/-- The checks of the writer's own budget. -/
def passes (self : Writer) (limits : Limits) (now : Instant) : Bool :=
  !(self.last.any fun last => now.saturatingDurationSince last < limits.putMinInterval) &&
    self.window.used < limits.writerPerMinute

/-- An accepted write. -/
def accept (self : Writer) (now : Instant) (reserved : Bool) : Writer :=
  ⟨self.window.charge, self.reserved || reserved, some now⟩

end Writer

/-! ### The limiter -/

/-- The part of the limiter's state that `record_at` uses. -/
structure Limiter where
  writers : Table EndpointKey Writer
  admissions : Window
  burst : Window

namespace Limiter

/-- `Limiter::default`, at the time it is called. -/
def new (now : Instant) : Limiter := ⟨.empty, .new now, .new now⟩

/-- The writer of a key, at the time of a call. -/
def writerAt (self : Limiter) (key : EndpointKey) (now : Instant) : Writer :=
  ((self.writers.get key).getD (.new now)).refresh now

/-- Replace the writer of a key. -/
def setWriter (self : Limiter) (key : EndpointKey) (writer : Writer) : Limiter :=
  { self with writers := self.writers.insert key writer }

/-- The write is the protected one. -/
def isReserved (self : Limiter) (key : EndpointKey) (known : Bool) (now : Instant) : Bool :=
  known && !(self.writerAt key now).reserved

/-- `record_at` once there is room for the writer. -/
def spend (self : Limiter) (key : EndpointKey) (known : Bool) (limits : Limits) (now : Instant) :
    Except DiscoveryError Unit × Limiter :=
  let writer := self.writerAt key now
  let reserved := self.isReserved key known now
  if ¬ writer.passes limits now then (throw .rateLimited, self.setWriter key writer)
  else if reserved then (pure (), self.setWriter key (writer.accept now reserved))
  else if known then
    let (allowed, burst) := self.burst.take now limits.putPerMinute
    let self := { self with burst }
    if allowed then (pure (), self.setWriter key (writer.accept now reserved))
    else (throw .rateLimited, self.setWriter key writer)
  else
    let (allowed, admissions) := self.admissions.take now limits.admissionsPerMinute
    let self := { self with admissions }
    if allowed then (pure (), self.setWriter key (writer.accept now reserved))
    else (throw .rateLimited, self.setWriter key writer)

/-- The writers whose windows are not over. -/
def prune (self : Limiter) (now : Instant) : Limiter :=
  { self with writers := self.writers.retain fun _ writer => !writer.window.expired now }

/-- `Limiter::record_at`. -/
def recordAt (self : Limiter) (key : EndpointKey) (known : Bool) (limits : Limits) (now : Instant) :
    Except DiscoveryError Unit × Limiter :=
  if (self.writers.get key).isNone ∧ self.writers.size ≥ maxIdentities then
    if (self.prune now).writers.size ≥ maxIdentities then (throw .rateLimited, self.prune now)
    else (self.prune now).spend key known limits now
  else self.spend key known limits now

/-! ### Sequences of calls -/

/-- A call, with its clock. -/
structure Request where
  key : EndpointKey
  known : Bool
  now : Instant

/-- An accepted write. -/
structure Accepted where
  key : EndpointKey
  known : Bool
  /-- It was the protected write of its key. -/
  reserved : Bool
  time : Instant

/-- One call, with the log of accepted writes. -/
def step (limits : Limits) (s : Limiter × List Accepted) (r : Request) : Limiter × List Accepted :=
  match s.1.recordAt r.key r.known limits r.now with
  | (.ok _, limiter) => (limiter, s.2 ++ [⟨r.key, r.known, s.1.isReserved r.key r.known r.now, r.now⟩])
  | (.error _, limiter) => (limiter, s.2)

/-- A sequence of calls to a limiter that was created at `created`. -/
def run (limits : Limits) (created : Instant) (requests : List Request) : Limiter × List Accepted :=
  requests.foldl (step limits) (new created, [])

end Limiter

/-! ### A window counts a part of the log -/

/-- The times of some accepted writes. -/
def times (p : Limiter.Accepted → Bool) (log : List Limiter.Accepted) : List ℕ :=
  (log.filter p).map fun e => e.time.ns

theorem times_append {p : Limiter.Accepted → Bool} {log es : List Limiter.Accepted} :
    times p (log ++ es) = times p log ++ times p es := by
  rw [times, filter_append, map_append]
  rfl

theorem times_singleton {p : Limiter.Accepted → Bool} {e : Limiter.Accepted} :
    times p [e] = if p e then [e.time.ns] else [] := by
  cases h : p e <;> simp [times, h]

theorem times_eq_nil {p : Limiter.Accepted → Bool} {log : List Limiter.Accepted} (h : ∀ e ∈ log, ¬ p e) :
    times p log = [] := by
  rw [times, filter_eq_nil_iff.mpr h]
  rfl

/-- A window whose uses are the writes at the last of these times. -/
def Counted (window : Window) (limit clock : ℕ) (ts : List ℕ) : Prop :=
  ∃ old cur, ts = old ++ cur ∧ window.used = cur.length ∧
    Windowed admissionWindow.ns limit window.start.ns clock old cur

namespace Counted

variable {window : Window} {limit clock : ℕ} {now : Instant} {ts : List ℕ}
  {p : Limiter.Accepted → Bool} {log : List Limiter.Accepted} {e : Limiter.Accepted}

theorem new (now : Instant) (limit clock : ℕ) : Counted (.new now) limit clock [] :=
  ⟨[], [], rfl, rfl, .new _ _ _ _⟩

theorem tick (h : Counted window limit clock ts) (hnow : clock ≤ now.ns) :
    Counted window limit now.ns ts := by
  obtain ⟨old, cur, hts, hused, hw⟩ := h
  exact ⟨old, cur, hts, hused, hw.tick hnow⟩

theorem reset (h : Counted window limit clock ts) (hnow : clock ≤ now.ns) :
    Counted (window.reset now) limit now.ns ts := by
  unfold Window.reset
  split
  next hexpired =>
    obtain ⟨old, cur, rfl, -, hw⟩ := h
    have hlate : admissionWindow.ns ≤ now.ns - window.start.ns := of_decide_eq_true hexpired
    have hpos : 0 < admissionWindow.ns := by decide
    have hnext : window.start.ns + admissionWindow.ns ≤ now.ns := by omega
    exact ⟨old ++ cur, [], (append_nil _).symm, rfl, hw.reset hnext⟩
  next => exact h.tick hnow

theorem charge (h : Counted window limit clock ts) (hnow : clock ≤ now.ns)
    (hroom : (window.reset now).used < limit) :
    Counted (window.reset now).charge limit now.ns (ts ++ [now.ns]) := by
  obtain ⟨old, cur, rfl, hused, hw⟩ := h.reset hnow
  refine ⟨old, cur ++ [now.ns], append_assoc _ _ _, ?_, hw.admitAt le_rfl ?_ (hused ▸ hroom)⟩
  · rw [length_append, ← hused]
    rfl
  · exact window.lt_of_reset now

theorem countP_le (h : Counted window limit clock (times p log)) (a : ℕ) :
    log.countP (fun e => p e ∧ a ≤ e.time.ns ∧ e.time.ns ≤ a + admissionWindow.ns) ≤ 2 * limit := by
  obtain ⟨old, cur, hts, -, hw⟩ := h
  have hcount := hw.countP_le a
  rw [← hts, times, countP_map, countP_filter] at hcount
  refine Nat.le_trans (countP_mono_left fun e _ he => ?_) hcount
  simp only [decide_eq_true_eq] at he
  simp [he]

end Counted

namespace Limiter

/-! ### What a call does -/

variable {s s' : Limiter} {limits : Limits} {key : EndpointKey} {known : Bool} {now : Instant}

/-- The shared windows after an accepted write. -/
def Charged (s : Limiter) (limits : Limits) (key : EndpointKey) (known : Bool) (now : Instant)
    (admissions burst : Window) : Prop :=
  (s.isReserved key known now = true ∧ admissions = s.admissions ∧ burst = s.burst) ∨
  (s.isReserved key known now = false ∧ known = true ∧ admissions = s.admissions ∧
    (s.burst.reset now).used < limits.putPerMinute ∧ burst = (s.burst.reset now).charge) ∨
  (s.isReserved key known now = false ∧ known = false ∧ burst = s.burst ∧
    (s.admissions.reset now).used < limits.admissionsPerMinute ∧
    admissions = (s.admissions.reset now).charge)

/-- **A call is refused or accepted.** A refused one may have reset windows, an accepted one has passed the
checks of its key and is charged to one budget at most. -/
theorem spend_cases (s : Limiter) (limits : Limits) (key : EndpointKey) (known : Bool) (now : Instant) :
    (∃ admissions burst, (admissions = s.admissions ∨ admissions = s.admissions.reset now) ∧
      (burst = s.burst ∨ burst = s.burst.reset now) ∧
      s.spend key known limits now =
        (.error .rateLimited, ⟨s.writers.insert key (s.writerAt key now), admissions, burst⟩)) ∨
    (∃ admissions burst, (s.writerAt key now).passes limits now ∧
      s.Charged limits key known now admissions burst ∧
      s.spend key known limits now =
        (.ok (), ⟨s.writers.insert key ((s.writerAt key now).accept now (s.isReserved key known now)),
          admissions, burst⟩)) := by
  unfold spend
  by_cases hpasses : (s.writerAt key now).passes limits now
  swap
  · rw [if_pos hpasses]
    exact .inl ⟨s.admissions, s.burst, .inl rfl, .inl rfl, rfl⟩
  rw [if_neg (not_not.mpr hpasses)]
  cases hreserved : s.isReserved key known now with
  | true => exact .inr ⟨s.admissions, s.burst, hpasses, .inl ⟨hreserved, rfl, rfl⟩, rfl⟩
  | false =>
    cases known with
    | true =>
      rcases s.burst.take_eq now limits.putPerMinute with htake | ⟨hroom, htake⟩
      · rw [htake]
        exact .inl ⟨s.admissions, _, .inl rfl, .inr rfl, rfl⟩
      · rw [htake]
        exact .inr ⟨s.admissions, _, hpasses, .inr (.inl ⟨hreserved, rfl, rfl, hroom, rfl⟩), rfl⟩
    | false =>
      rcases s.admissions.take_eq now limits.admissionsPerMinute with htake | ⟨hroom, htake⟩
      · rw [htake]
        exact .inl ⟨_, s.burst, .inr rfl, .inl rfl, rfl⟩
      · rw [htake]
        exact .inr ⟨_, s.burst, hpasses, .inr (.inr ⟨hreserved, rfl, rfl, hroom, rfl⟩), rfl⟩

theorem recordAt_eq_spend {keys : Finset EndpointKey} (hfew : keys.card ≤ maxIdentities)
    (hkeys : ∀ k w, s.writers.get k = some w → k ∈ keys) (hkey : key ∈ keys) :
    s.recordAt key known limits now = s.spend key known limits now := by
  refine if_neg ?_
  rintro ⟨hnone, hfull⟩
  have hlt := Table.size_lt_card hkeys hkey (Option.isNone_iff_eq_none.mp hnone)
  omega

/-! ### The invariant -/

/-- A writer and the log of accepted writes. -/
structure WriterInv (limits : Limits) (clock : ℕ) (log : List Accepted) (key : EndpointKey)
    (writer : Writer) : Prop where
  counted : Counted writer.window limits.writerPerMinute clock (times (·.key = key) log)
  start_le : writer.window.start.ns ≤ clock
  last_le : ∀ last ∈ writer.last, last.ns ≤ clock
  /-- No write of the key is later than `last`. -/
  le_last : ∀ e ∈ log, e.key = key → ∃ last ∈ writer.last, e.time ≤ last
  /-- The protected write was used in this window. -/
  used : writer.reserved → ∃ e ∈ log, e.key = key ∧ e.known ∧ writer.window.start ≤ e.time

/-- A limiter, whose latest call was at `clock`, and its log. -/
structure Inv (limits : Limits) (keys : Finset EndpointKey) (clock : ℕ) (s : Limiter × List Accepted) : Prop where
  admissions : Counted s.1.admissions limits.admissionsPerMinute clock (times (!·.known) s.2)
  burst : Counted s.1.burst limits.putPerMinute clock (times (fun e => e.known && !e.reserved) s.2)
  writer : ∀ key w, s.1.writers.get key = some w → WriterInv limits clock s.2 key w
  /-- A key without a writer has written nothing. -/
  fresh : ∀ e ∈ s.2, ∃ w, s.1.writers.get e.key = some w
  keys : ∀ key w, s.1.writers.get key = some w → key ∈ keys
  spaced : s.2.Pairwise fun e e' => e.key = e'.key → e.time.ns + limits.putMinInterval.ns ≤ e'.time.ns

variable {clock : ℕ} {log es : List Accepted} {keys : Finset EndpointKey} {writer w : Writer} {e : Accepted}

theorem WriterInv.refresh (h : WriterInv limits clock log key writer) (hnow : clock ≤ now.ns) :
    WriterInv limits now.ns log key (writer.refresh now) where
  counted := h.counted.reset hnow
  start_le := by
    unfold Writer.refresh Window.reset
    split
    · exact le_rfl
    · exact Nat.le_trans h.start_le hnow
  last_le last hlast := Nat.le_trans (h.last_le last hlast) hnow
  le_last := h.le_last
  used := by
    unfold Writer.refresh Window.reset
    split
    · exact nofun
    · exact h.used

theorem WriterInv.new (h : ∀ e ∈ log, e.key ≠ key) : WriterInv limits now.ns log key (.new now) where
  counted := by
    rw [times_eq_nil fun e he hkey => h e he (of_decide_eq_true hkey)]
    exact .new now _ _
  start_le := le_rfl
  last_le := nofun
  le_last e he hkey := absurd hkey (h e he)
  used := nofun

/-- **The writes of the other keys leave a writer alone.** -/
theorem WriterInv.other (h : WriterInv limits clock log key writer) (hnow : clock ≤ now.ns)
    (hes : ∀ e ∈ es, e.key ≠ key) : WriterInv limits now.ns (log ++ es) key writer where
  counted := by
    rw [times_append, times_eq_nil fun e he hkey => hes e he (of_decide_eq_true hkey), append_nil]
    exact h.counted.tick hnow
  start_le := Nat.le_trans h.start_le hnow
  last_le last hlast := Nat.le_trans (h.last_le last hlast) hnow
  le_last e he hkey := by
    rcases mem_append.mp he with he | he
    · exact h.le_last e he hkey
    · exact absurd hkey (hes e he)
  used hreserved := by
    obtain ⟨e, he, hrest⟩ := h.used hreserved
    exact ⟨e, mem_append_left _ he, hrest⟩

/-- An accepted write is charged to its writer, and is its last one. -/
theorem WriterInv.accept (h : WriterInv limits clock log key writer) (hnow : clock ≤ now.ns)
    (hpasses : (writer.refresh now).passes limits now) {reserved : Bool} (hknown : reserved → known) :
    WriterInv limits now.ns (log ++ [⟨key, known, reserved, now⟩]) key
      ((writer.refresh now).accept now reserved) := by
  have hrefresh := h.refresh hnow
  have hroom : (writer.window.reset now).used < limits.writerPerMinute :=
    of_decide_eq_true (Bool.and_eq_true_iff.mp hpasses).2
  refine ⟨?_, hrefresh.start_le, ?_, fun e he hkey => ⟨now, rfl, ?_⟩, fun hreserved => ?_⟩
  · rw [times_append, times_singleton, if_pos (decide_eq_true rfl)]
    exact h.counted.charge hnow hroom
  · rintro last ⟨⟩
    exact le_rfl
  · rcases mem_append.mp he with he | he
    · obtain ⟨last, hlast, hle⟩ := hrefresh.le_last e he hkey
      exact le_trans hle (hrefresh.last_le last hlast)
    · rw [mem_singleton.mp he]
  -- the protected write is used by this write, or was before it
  rcases Bool.or_eq_true_iff.mp hreserved with hreserved | hreserved
  · obtain ⟨e, he, hrest⟩ := hrefresh.used hreserved
    exact ⟨e, mem_append_left _ he, hrest⟩
  · exact ⟨_, mem_append_right _ (mem_singleton_self _), rfl, hknown hreserved, hrefresh.start_le⟩

section Step

variable {s : Limiter × List Accepted} {r : Request} {admissions burst : Window}

theorem Inv.entry (h : Inv limits keys clock s) (hnow : clock ≤ now.ns) (key : EndpointKey) :
    WriterInv limits now.ns s.2 key ((s.1.writers.get key).getD (.new now)) := by
  cases hget : s.1.writers.get key with
  | some w =>
    rw [← append_nil s.2]
    exact (h.writer key w hget).other hnow (forall_mem_nil _)
  | none =>
    refine WriterInv.new fun e he hkey => ?_
    obtain ⟨w, hw⟩ := h.fresh e he
    cases hget.symm.trans (hkey ▸ hw)

theorem Inv.new (limits : Limits) (keys : Finset EndpointKey) (created : Instant) (clock : ℕ) :
    Inv limits keys clock (.new created, []) where
  admissions := .new _ _ _
  burst := .new _ _ _
  writer key w hget := by cases hget
  fresh := by simp
  keys key w hget := by cases hget
  spaced := .nil

/-- **A call replaces the writer of its key.** It keeps the invariant if that writer, and the shared windows,
count what it adds to the log. -/
theorem Inv.put (h : Inv limits keys clock s) (hnow : clock ≤ now.ns) (hkey : key ∈ keys)
    (hes : ∀ e ∈ es, e.key = key) (hw : WriterInv limits now.ns (s.2 ++ es) key w)
    (hcounted : Counted admissions limits.admissionsPerMinute now.ns (times (!·.known) (s.2 ++ es)) ∧
      Counted burst limits.putPerMinute now.ns (times (fun e => e.known && !e.reserved) (s.2 ++ es)))
    (hspaced : (s.2 ++ es).Pairwise fun e e' =>
      e.key = e'.key → e.time.ns + limits.putMinInterval.ns ≤ e'.time.ns) :
    Inv limits keys now.ns (⟨s.1.writers.insert key w, admissions, burst⟩, s.2 ++ es) where
  admissions := hcounted.1
  burst := hcounted.2
  writer key' w' hget := by
    rw [Table.get_insert] at hget
    split at hget
    next heq =>
      cases hget
      exact heq ▸ hw
    next hne => exact (h.writer key' w' hget).other hnow fun e he heq => hne (heq ▸ hes e he)
  fresh e he := by
    rw [Table.get_insert]
    split
    · exact ⟨_, rfl⟩
    next hne => exact h.fresh e ((mem_append.mp he).resolve_right fun he => hne (hes e he))
  keys key' w' hget := by
    rw [Table.get_insert] at hget
    split at hget
    next heq => exact heq ▸ hkey
    next => exact h.keys key' w' hget
  spaced := hspaced

theorem Inv.refused (h : Inv limits keys clock s) (hnow : clock ≤ now.ns) (hkey : key ∈ keys)
    (hadmissions : admissions = s.1.admissions ∨ admissions = s.1.admissions.reset now)
    (hburst : burst = s.1.burst ∨ burst = s.1.burst.reset now) :
    Inv limits keys now.ns (⟨s.1.writers.insert key (s.1.writerAt key now), admissions, burst⟩, s.2) := by
  have hentry := (h.entry hnow key).refresh le_rfl
  rw [← append_nil s.2] at hentry ⊢
  refine h.put hnow hkey (forall_mem_nil _) hentry ?_ ?_ <;> rw [append_nil]
  · constructor
    · rcases hadmissions with rfl | rfl
      · exact h.admissions.tick hnow
      · exact h.admissions.reset hnow
    · rcases hburst with rfl | rfl
      · exact h.burst.tick hnow
      · exact h.burst.reset hnow
  · exact h.spaced

theorem WriterInv.spaced (h : WriterInv limits clock log key writer) (hnow : clock ≤ now.ns)
    (hpasses : (writer.refresh now).passes limits now) (he : e ∈ log) (hkey : e.key = key) :
    e.time.ns + limits.putMinInterval.ns ≤ now.ns := by
  obtain ⟨last, hlast, hle⟩ := h.le_last e he hkey
  have hlast' : (writer.refresh now).last = some last := hlast
  have hpass := (Bool.and_eq_true_iff.mp hpasses).1
  rw [hlast', Option.any_some, Bool.not_eq_true', decide_eq_false_iff_not] at hpass
  have hwait : limits.putMinInterval.ns ≤ now.ns - last.ns := not_lt.mp hpass
  have hclock := h.last_le last hlast
  have hbefore : e.time.ns ≤ last.ns := hle
  omega

/-- Whichever shared window pays for a write, both still count what the log shows. -/
theorem Inv.charged (h : Inv limits keys clock s) (hnow : clock ≤ now.ns)
    (hcharged : s.1.Charged limits key known now admissions burst) :
    Counted admissions limits.admissionsPerMinute now.ns
      (times (!·.known) (s.2 ++ [⟨key, known, s.1.isReserved key known now, now⟩])) ∧
    Counted burst limits.putPerMinute now.ns
      (times (fun e => e.known && !e.reserved) (s.2 ++ [⟨key, known, s.1.isReserved key known now, now⟩])) := by
  rw [times_append, times_append, times_singleton, times_singleton]
  rcases hcharged with ⟨hreserved, rfl, rfl⟩ | ⟨hreserved, rfl, rfl, hroom, rfl⟩ |
    ⟨hreserved, rfl, rfl, hroom, rfl⟩
  · -- only a known endpoint has a protected write
    have hknown : known = true := (Bool.and_eq_true_iff.mp hreserved).1
    rw [hreserved, hknown]
    simp only [Bool.not_true, Bool.and_false, Bool.false_eq_true, if_false, append_nil]
    exact ⟨h.admissions.tick hnow, h.burst.tick hnow⟩
  · rw [hreserved]
    simp only [Bool.not_true, Bool.false_eq_true, if_false, append_nil]
    exact ⟨h.admissions.tick hnow, h.burst.charge hnow hroom⟩
  · rw [hreserved]
    simp only [Bool.not_false, Bool.and_true, Bool.false_eq_true, if_false, append_nil]
    exact ⟨h.admissions.charge hnow hroom, h.burst.tick hnow⟩

theorem Inv.accepted (h : Inv limits keys clock s) (hnow : clock ≤ now.ns) (hkey : key ∈ keys)
    (hpasses : (s.1.writerAt key now).passes limits now)
    (hcharged : s.1.Charged limits key known now admissions burst) :
    Inv limits keys now.ns
      (⟨s.1.writers.insert key ((s.1.writerAt key now).accept now (s.1.isReserved key known now)),
        admissions, burst⟩, s.2 ++ [⟨key, known, s.1.isReserved key known now, now⟩]) := by
  have hentry := h.entry hnow key
  refine h.put hnow hkey (forall_mem_singleton.mpr rfl)
    (hentry.accept le_rfl hpasses fun hreserved => (Bool.and_eq_true_iff.mp hreserved).1)
    (h.charged hnow hcharged) ?_
  refine pairwise_append.mpr ⟨h.spaced, pairwise_singleton _ _, fun e he e' he' heq => ?_⟩
  rw [mem_singleton.mp he'] at heq ⊢
  exact hentry.spaced le_rfl hpasses he heq

/-- **A call keeps the invariant.** -/
theorem Inv.step (h : Inv limits keys clock s) (hfew : keys.card ≤ maxIdentities) (hkey : r.key ∈ keys)
    (hnow : clock ≤ r.now.ns) : Inv limits keys r.now.ns (step limits s r) := by
  unfold Limiter.step
  rw [recordAt_eq_spend hfew h.keys hkey]
  rcases s.1.spend_cases limits r.key r.known r.now with
    ⟨admissions, burst, hadmissions, hburst, hspend⟩ | ⟨admissions, burst, hpasses, hcharged, hspend⟩
  · rw [hspend]
    exact h.refused hnow hkey hadmissions hburst
  · rw [hspend]
    exact h.accepted hnow hkey hpasses hcharged

/-- **So does a sequence of calls.** -/
theorem Inv.foldl {requests : List Request} (h : Inv limits keys clock s) (hfew : keys.card ≤ maxIdentities)
    (hkeys : ∀ r ∈ requests, r.key ∈ keys) (hclock : ∀ r ∈ requests, clock ≤ r.now.ns)
    (hsorted : requests.Pairwise fun r r' => r.now ≤ r'.now) :
    ∃ latest, (latest = clock ∨ ∃ r ∈ requests, latest = r.now.ns) ∧
      Inv limits keys latest (requests.foldl (Limiter.step limits) s) := by
  induction requests generalizing s clock with
  | nil => exact ⟨clock, .inl rfl, h⟩
  | cons r requests ih =>
    obtain ⟨hr, hrest⟩ := pairwise_cons.mp hsorted
    have hstep := h.step hfew (hkeys r mem_cons_self) (hclock r mem_cons_self)
    obtain ⟨latest, hlatest, hinv⟩ := ih hstep (fun r' h' => hkeys r' (mem_cons_of_mem _ h'))
      (fun r' h' => hr r' h') hrest
    refine ⟨latest, .inr ?_, hinv⟩
    rcases hlatest with hlatest | ⟨r', hr', hlatest⟩
    · exact ⟨r, mem_cons_self, hlatest⟩
    · exact ⟨r', mem_cons_of_mem _ hr', hlatest⟩

/-- **The run lemma.** The clock of the invariant is the latest one. -/
theorem inv_run {requests : List Request} (limits : Limits) (created : Instant)
    (hfew : keys.card ≤ maxIdentities)
    (hkeys : ∀ r ∈ requests, r.key ∈ keys) (hsorted : requests.Pairwise fun r r' => r.now ≤ r'.now) :
    ∃ latest, (latest = 0 ∨ ∃ r ∈ requests, latest = r.now.ns) ∧
      Inv limits keys latest (run limits created requests) :=
  (Inv.new limits keys created 0).foldl hfew hkeys (fun _ _ => Nat.zero_le _) hsorted

end Step

/-! ### Budgets -/

/-- The uses of a key's window. -/
def usedOf (self : Limiter) (key : EndpointKey) : ℕ := ((self.writers.get key).map (·.window.used)).getD 0

/-- The last write of a key. -/
def lastOf (self : Limiter) (key : EndpointKey) : Option Instant := (self.writers.get key).bind (·.last)

/-- The protected write of a key is used. -/
def reservedOf (self : Limiter) (key : EndpointKey) : Bool := (self.writers.get key).any (·.reserved)

/-- A refused call, and what it leaves. -/
structure Undebited (before after : Limiter) : Prop where
  admissions : after.admissions.used ≤ before.admissions.used
  burst : after.burst.used ≤ before.burst.used
  used : ∀ key, after.usedOf key ≤ before.usedOf key
  last : ∀ key, after.lastOf key = before.lastOf key
  reserved : ∀ key, after.reservedOf key → before.reservedOf key

/-- A refusal may restart windows, which only makes room. -/
theorem undebited_of_refused {admissions burst : Window}
    (hadmissions : admissions = s.admissions ∨ admissions = s.admissions.reset now)
    (hburst : burst = s.burst ∨ burst = s.burst.reset now) :
    Undebited s ⟨s.writers.insert key (s.writerAt key now), admissions, burst⟩ where
  admissions := by
    rcases hadmissions with rfl | rfl
    · exact le_rfl
    · exact s.admissions.used_reset_le now
  burst := by
    rcases hburst with rfl | rfl
    · exact le_rfl
    · exact s.burst.used_reset_le now
  used key' := by
    unfold usedOf
    rw [Table.get_insert]
    split
    next heq =>
      subst heq
      unfold writerAt
      cases s.writers.get key' with
      | none => exact (Window.new now).used_reset_le now
      | some w => exact w.window.used_reset_le now
    next => exact le_rfl
  last key' := by
    unfold lastOf
    rw [Table.get_insert]
    split
    next heq =>
      subst heq
      unfold writerAt
      cases s.writers.get key' <;> rfl
    next => rfl
  reserved key' := by
    unfold reservedOf
    rw [Table.get_insert]
    split
    next heq =>
      subst heq
      unfold writerAt Writer.refresh
      cases s.writers.get key' with
      | none =>
        rw [Option.getD_none, Writer.new, ite_self]
        exact id
      | some w => simp
    next => exact id

theorem spend_reserved (hpasses : (s.writerAt key now).passes limits now)
    (hreserved : s.isReserved key known now) : (s.spend key known limits now).1 = .ok () := by
  unfold spend
  rw [if_neg (not_not.mpr hpasses), if_pos hreserved]
  rfl

/-- **Admission budgets.** For at most as many keys as can be enrolled, and calls at times that do not go
back: two writes of a key keep their distance; in any minute a key, the unknown endpoints and the known ones
beyond their protected writes each have at most twice their limit; a known endpoint that has not written in
its current window needs its own checks only; a refused call debits nobody. -/
theorem admission_budgets (limits : Limits) (created : Instant) (requests : List Request)
    (keys : Finset EndpointKey) (hfew : keys.card ≤ maxIdentities) (hkeys : ∀ r ∈ requests, r.key ∈ keys)
    (hsorted : requests.Pairwise fun r r' => r.now ≤ r'.now) :
    (∀ x isWeak enrolled enrollment, Enrollment.new x isWeak enrolled = .ok enrollment →
      enrollment.keys.card ≤ maxIdentities) ∧
    (run limits created requests).2.Pairwise
      (fun e e' => e.key = e'.key → e.time.ns + limits.putMinInterval.ns ≤ e'.time.ns) ∧
    (∀ (key : EndpointKey) (a : ℕ), (run limits created requests).2.countP (fun e =>
      e.key = key ∧ a ≤ e.time.ns ∧ e.time.ns ≤ a + (Duration.fromSecs 60).ns) ≤ 2 * limits.writerPerMinute) ∧
    (∀ a : ℕ, (run limits created requests).2.countP (fun e =>
      e.known = false ∧ a ≤ e.time.ns ∧ e.time.ns ≤ a + (Duration.fromSecs 60).ns)
        ≤ 2 * limits.admissionsPerMinute) ∧
    (∀ a : ℕ, (run limits created requests).2.countP (fun e =>
      (e.known = true ∧ e.reserved = false) ∧ a ≤ e.time.ns ∧ e.time.ns ≤ a + (Duration.fromSecs 60).ns)
        ≤ 2 * limits.putPerMinute) ∧
    (∀ r : Request, r.key ∈ keys → (∀ r' ∈ requests, r'.now ≤ r.now) → (r.known = true →
        ((run limits created requests).1.writerAt r.key r.now).passes limits r.now = true →
        (∀ e ∈ (run limits created requests).2, e.key = r.key → e.known = true →
          e.time < ((run limits created requests).1.writerAt r.key r.now).window.start) →
        ((run limits created requests).1.recordAt r.key r.known limits r.now).1 = .ok ()) ∧
      (∀ error, ((run limits created requests).1.recordAt r.key r.known limits r.now).1 = .error error →
        Undebited (run limits created requests).1
          ((run limits created requests).1.recordAt r.key r.known limits r.now).2)) := by
  obtain ⟨latest, hlatest, hinv⟩ := inv_run limits created hfew hkeys hsorted
  generalize hs : run limits created requests = s at hinv ⊢
  refine ⟨fun _ _ _ _ => Enrollment.card_keys_le, hinv.spaced, fun key a => ?_, fun a => ?_, fun a => ?_, fun r hkey hnow => ?_⟩
  · by_cases hget : ∃ w, s.1.writers.get key = some w
    · obtain ⟨w, hget⟩ := hget
      have hcount := (hinv.writer key w hget).counted.countP_le a
      simpa only [decide_eq_true_eq, admissionWindow] using hcount
    -- a key without a writer has written nothing
    refine Nat.le_trans (Nat.le_of_eq (countP_eq_zero.mpr fun e he hin => ?_)) (Nat.zero_le _)
    obtain ⟨rfl, -⟩ := of_decide_eq_true hin
    exact hget (hinv.fresh e he)
  · have hcount := hinv.admissions.countP_le a
    simpa only [Bool.not_eq_true', admissionWindow] using hcount
  · have hcount := hinv.burst.countP_le a
    simpa only [Bool.and_eq_true, Bool.not_eq_true', admissionWindow] using hcount
  have hle : latest ≤ r.now.ns := by
    rcases hlatest with rfl | ⟨r', hr', rfl⟩
    · exact Nat.zero_le _
    · exact hnow r' hr'
  rw [recordAt_eq_spend hfew hinv.keys hkey]
  constructor
  · intro hknown hpasses hnone
    refine spend_reserved hpasses ?_
    unfold isReserved
    rw [hknown, Bool.true_and, Bool.not_eq_true', ← Bool.not_eq_true]
    intro hused
    obtain ⟨e, he, hkey', hknown', hstart⟩ := ((hinv.entry hle r.key).refresh le_rfl).used hused
    exact absurd (hnone e he hkey' hknown') (not_lt.mpr hstart)
  intro error herror
  rcases s.1.spend_cases limits r.key r.known r.now with
    ⟨admissions, burst, hadmissions, hburst, hspend⟩ | ⟨admissions, burst, -, -, hspend⟩
  · rw [hspend]
    exact undebited_of_refused hadmissions hburst
  · rw [hspend] at herror
    cases herror

/-! ### Calls of two endpoints -/

/-- A key. -/
def sampleKey (b : UInt8) : EndpointKey := repeated 32 b

/-- So many seconds after the clock started. -/
def second (n : ℕ) (h : n < 1000) : Instant :=
  ⟨n * 1000000000, Nat.lt_trans ((Nat.mul_lt_mul_right (by decide)).mpr h) (by decide)⟩

/-- One write of each kind in a minute. -/
def sampleLimits : Limits := ⟨.fromSecs 1, 1, 1, 3⟩

/-- A known endpoint writes beyond its protected write, an unknown one is admitted once. -/
def sampleRequests : List Request :=
  [⟨sampleKey 1, true, second 10 (by decide)⟩, ⟨sampleKey 1, true, second 20 (by decide)⟩,
    ⟨sampleKey 1, true, second 30 (by decide)⟩, ⟨sampleKey 2, false, second 40 (by decide)⟩,
    ⟨sampleKey 2, false, second 50 (by decide)⟩]

/-- The two endpoints. -/
def sampleKeys : Finset EndpointKey := {sampleKey 1, sampleKey 2}

/-- Two calls of five are refused. A minute after its first write, the known endpoint writes again although
the budget it shares is spent. -/
theorem admission_budgets_sample :
    ((run sampleLimits (second 0 (by decide)) sampleRequests).2.map (·.time.ns) =
      [10000000000, 20000000000, 40000000000]) ∧
    ((run sampleLimits (second 0 (by decide)) sampleRequests).1.recordAt (sampleKey 1) true sampleLimits
      (second 70 (by decide))).1 = .ok () := by
  have hbudgets := admission_budgets sampleLimits (second 0 (by decide)) sampleRequests sampleKeys
    (by decide +kernel) (by decide +kernel) (by decide +kernel)
  refine ⟨by decide +kernel, ?_⟩
  exact (hbudgets.2.2.2.2.2 ⟨sampleKey 1, true, second 70 (by decide)⟩ (by decide +kernel)
    (by decide +kernel)).1 rfl (by decide +kernel) (by decide +kernel)

end Limiter

end Rds.Discovery
