import Rds.Agent.GrantChange

/-!
# Grant slots are exclusive

`grant_slots` is about every interleaving of the agent's connections: `active_grants` has exactly the ids
of the live slots, an id is held by one connection, a connection holds one lease at most, what fails or
closes gives its slot back, and a closed connection stays closed.

The argument is local. A connection keeps the invariant `Conn.Inv`, which leaves it at most one slot, and
each of its actions is a `Move` on the shared set: it takes a free id, gives its only one back, or leaves
the set alone (`stepped_change`). That the set stays exact is then the rule for reservations (`Exact.move`).
-/

namespace Rds.Agent.Authz

open Framework Discovery Function Conn Option

variable {conn conn' : Conn} {active active' : Finset GrantId} {t : ℕ}

/-! ### The invariant of a connection -/

/-- An `install` under way means that the state waits for a grant; a lease being dropped is the only one,
its closer is at work and the state is closed; a closer that replaced the state left it closed. -/
structure Conn.Inv (conn : Conn) : Prop where
  claimed : ∀ r, conn.claimed = some r → conn.state = .authorizing none
  dropping : conn.dropping = [] ∨ ∃ t lease, conn.dropping = [(t, lease)] ∧ conn.state = .closed ∧
    conn.tasks.get t = some .closing
  closers : ∀ t phase, conn.tasks.get t = some phase → phase.closer = true → conn.state = .closed

namespace Conn

theorem inv_new (required : Bool) : (new required).Inv where
  claimed r hr := by cases hr
  dropping := .inl rfl
  closers t phase ht := by cases ht

theorem Inv.dropping_eq_nil (h : conn.Inv) (hopen : conn.state ≠ .closed) : conn.dropping = [] := by
  rcases h.dropping with hnil | ⟨t, lease, -, hclosed, -⟩
  · exact hnil
  · exact absurd hclosed hopen

/-- **At most one slot.** -/
theorem Inv.length_slots_le (h : conn.Inv) : conn.slots.length ≤ 1 := by
  unfold slots
  cases hclaimed : conn.claimed with
  | some r =>
    have hstate := h.claimed r hclaimed
    have hdrop := h.dropping_eq_nil (by simp [hstate])
    simp [hstate, hdrop, State.lease]
  | none =>
    rcases h.dropping with hnil | ⟨t, lease, hone, hclosed, -⟩
    · cases hlease : conn.state.lease <;> simp [hnil]
    · simp [hone, hclosed]

theorem Inv.goto {phase : Phase} (h : conn.Inv) (ht : conn.tasks.get t ≠ some .closing)
    (hphase : phase.closer = true → conn.state = .closed) : (conn.goto t phase).Inv where
  claimed := h.claimed
  dropping := by
    rcases h.dropping with hnil | ⟨t', lease, hone, hclosed, hcloser⟩
    · exact .inl hnil
    have hne : t' ≠ t := by
      rintro rfl
      exact ht hcloser
    exact .inr ⟨t', lease, hone, hclosed, by simpa [Conn.goto, Table.get_insert, hne] using hcloser⟩
  closers t' phase' ht' hcloser := by
    rcases Table.get_insert_cases ht' with ⟨-, rfl⟩ | hold
    · exact hphase hcloser
    · exact h.closers t' phase' hold hcloser

theorem Inv.setState {state : State} (h : conn.Inv) (hfree : conn.claimed = none)
    (hclosed : conn.state = .closed → state = .closed) : { conn with state }.Inv where
  claimed r hr := by cases hfree.symm.trans hr
  dropping := by
    rcases h.dropping with hnil | ⟨t, lease, hone, hold, hcloser⟩
    · exact .inl hnil
    · exact .inr ⟨t, lease, hone, hclosed hold, hcloser⟩
  closers t phase ht hcloser := hclosed (h.closers t phase ht hcloser)

end Conn

/-! ### One action -/

/-- What an action of a connection keeps. -/
structure Stepped (active : Finset GrantId) (conn : Conn) (active' : Finset GrantId) (conn' : Conn) : Prop where
  inv : conn'.Inv
  move : Move active conn.slots active' conn'.slots
  closed : conn.state = .closed → conn'.state = .closed ∧ conn'.slots ⊆ conn.slots

variable {phase : Phase} {renewal : Bool}

theorem stepped_of_slots (hinv : conn'.Inv) (hslots : conn'.slots = conn.slots)
    (hclosed : conn.state = .closed → conn'.state = .closed) : Stepped active conn active conn' where
  inv := hinv
  move := hslots ▸ .stay
  closed hold := ⟨hclosed hold, hslots ▸ fun _ => id⟩

theorem stepped_setState {state : State} (h : conn.Inv) (hfree : conn.claimed = none)
    (ht : conn.tasks.get t ≠ some .closing) (hphase : phase.closer = false)
    (hslot : state.lease.map (·.slot) = conn.state.lease.map (·.slot))
    (hclosed : conn.state = .closed → state = .closed) :
    Stepped active conn active ({ conn with state }.goto t phase) := by
  refine stepped_of_slots ((h.setState hfree hclosed).goto ht (by simp [hphase])) ?_ hclosed
  show state.lease.toList.map (·.slot) ++ _ ++ _ = _
  rw [← toList_map, hslot, toList_map]
  rfl

theorem stepped_claimed {verified : VerifiedGrant} {now : Reading} (h : conn.Inv)
    (hfree : conn.claimed = none) (ht : conn.tasks.get t ≠ some .closing)
    (hstate : conn.state = .authorizing none) (hid : verified.id ∉ active) :
    Stepped active conn (insert verified.id active)
      ({ conn with claimed := some (t, verified, now) }.goto t .installing) := by
  -- the state waits for a grant, so the connection has no slot
  have hdrop := h.dropping_eq_nil (by simp [hstate])
  have hclaimed : { conn with claimed := some (t, verified, now) }.Inv :=
    ⟨fun _ _ => hstate, h.dropping, h.closers⟩
  refine ⟨hclaimed.goto ht nofun, ?_, by simp [hstate]⟩
  have hafter : ({ conn with claimed := some (t, verified, now) }.goto t .installing).slots =
      [verified.id] := by
    simp [slots, goto, hstate, hdrop, State.lease]
  rw [hafter]
  exact .take hid (by simp [slots, hstate, hdrop, hfree, State.lease])

/-- The slot of the claim goes to the lease, or back. -/
theorem stepped_build {verified : VerifiedGrant} {now : Reading} (h : conn.Inv)
    (hclaimed : conn.claimed = some (t, verified, now)) (ht : conn.tasks.get t ≠ some .closing) :
    (∀ current, Stepped active conn active ({ conn with
      state := .authorizing (some ⟨current, verified.id⟩), claimed := none }.goto t (.replying none))) ∧
    Stepped active conn (active.erase verified.id) ({ conn with claimed := none }.goto t .unwinding) := by
  have hstate := h.claimed _ hclaimed
  have hdrop := h.dropping_eq_nil (by simp [hstate])
  have hslots : conn.slots = [verified.id] := by
    simp [slots, hstate, hdrop, hclaimed, State.lease]
  have hfree : { conn with claimed := none }.Inv := ⟨nofun, h.dropping, h.closers⟩
  refine ⟨fun current => ?_, hfree.goto ht nofun, ?_, by simp [hstate]⟩
  · refine stepped_of_slots ((hfree.setState rfl (by simp [hstate])).goto ht nofun) ?_ (by simp [hstate])
    rw [hslots]
    simp [slots, goto, hdrop, State.lease]
  · have hafter : ({ conn with claimed := none }.goto t .unwinding).slots = [] := by
      simp [slots, goto, hstate, hdrop, State.lease]
    rw [hafter]
    exact .give hslots

theorem stepped_interrupted (h : conn.Inv) (hfree : conn.claimed = none)
    (ht : conn.tasks.get t ≠ some .closing) :
    Stepped active conn (Conn.dropLease active conn.state.lease)
      ({ conn with state := .closed }.goto t .unwinding) := by
  cases hlease : conn.state.lease with
  | none => exact stepped_setState h hfree ht rfl (by rw [hlease]; rfl) fun _ => rfl
  | some lease =>
    have hopen : conn.state ≠ .closed := fun hclosed => by simp [hclosed] at hlease
    have hdrop := h.dropping_eq_nil hopen
    have hslots : ({ conn with state := .closed }.goto t .unwinding).slots = [] := by
      simp [slots, goto, hfree, hdrop]
    refine ⟨(h.setState hfree fun _ => rfl).goto ht nofun, ?_, fun hclosed => absurd hclosed hopen⟩
    rw [hslots]
    exact .give (by simp [slots, hlease, hfree, hdrop])

theorem stepped_close (h : conn.Inv) (hfree : conn.claimed = none)
    (ht : conn.tasks.get t = some .unwinding) : Stepped active conn active (conn.close t) := by
  refine stepped_of_slots ?_ (by simp [slots, close, goto, hfree]) fun _ => rfl
  cases hlease : conn.state.lease with
  | none =>
    have hclose : conn.close t = { conn with state := .closed }.goto t .closing := by
      simp [close, hlease]
    rw [hclose]
    exact (h.setState hfree fun _ => rfl).goto (by simp [ht]) fun _ => rfl
  | some lease =>
    have hdrop := h.dropping_eq_nil fun hclosed => by simp [hclosed] at hlease
    refine ⟨fun r hr => absurd (hfree.symm.trans hr) (by simp), .inr ⟨t, lease, ?_, rfl, ?_⟩, fun _ _ _ _ => rfl⟩
    · simp [close, goto, hlease, hdrop]
    · simp [close, goto, Table.get_insert]

theorem Conn.Inv.slots_of_closed (h : conn.Inv) (hclosed : conn.state = .closed) :
    conn.slots = conn.dropping.map (·.2.slot) := by
  have hfree : conn.claimed = none :=
    eq_none_iff_forall_ne_some.mpr fun r hr => nomatch hclosed.symm.trans (h.claimed r hr)
  simp [slots, hfree, hclosed]

/-- A closer gives back the slot of the lease it took out, and no other. -/
theorem stepped_release (h : conn.Inv) (ht : conn.tasks.get t = some .closing) :
    Stepped active conn (conn.release active t).1 (conn.release active t).2 := by
  have hclosed := h.closers t _ ht rfl
  have hslots := h.slots_of_closed hclosed
  have hinv : (conn.release active t).2.Inv := by
    refine ⟨h.claimed, ?_, fun _ _ _ _ => hclosed⟩
    rcases h.dropping with hnil | ⟨t', lease, hone, -, hcloser⟩
    · exact .inl (by simp [release, goto, hnil])
    by_cases hown : t' = t
    · exact .inl (by simp [release, goto, hone, hown])
    · refine .inr ⟨t', lease, by simp [release, goto, hone, hown], hclosed, ?_⟩
      simpa [release, goto, Table.get_insert, hown] using hcloser
  have hafter : (conn.release active t).2.slots = (conn.dropping.filter (·.1 ≠ t)).map (·.2.slot) :=
    hinv.slots_of_closed hclosed
  refine ⟨hinv, ?_, fun _ => ⟨hclosed, ?_⟩⟩
  · rw [hafter, hslots]
    rcases h.dropping with hnil | ⟨t', lease, hone, -, -⟩
    · simp only [release, hnil]
      exact .stay
    by_cases hown : t' = t
    · -- the lease this closer took out
      simp only [release, hone, hown, List.filter_cons, ne_eq]
      exact .give rfl
    · simp only [release, hone, hown, List.filter_cons, ne_eq]
      exact .stay
  · rw [hafter, hslots]
    exact List.map_subset _ (List.filter_subset_self _)

/-- **One action.** -/
theorem stepped_change {act : Act} {r : Finset GrantId × Conn} (h : conn.Inv)
    (hchange : Change active conn t act r) : Stepped active conn r.1 r.2 := by
  cases hchange with
  | moved hphase ht =>
    exact stepped_of_slots (h.goto ht (by simp [hphase.2])) rfl id
  | began hfree ht hbegins =>
    refine stepped_setState h hfree (by simp [ht]) rfl (by rw [hbegins.lease]) fun hclosed => ?_
    rw [hclosed] at hbegins
    cases hbegins
  | claimed hfree ht hstate hid => exact stepped_claimed h hfree (by simp [ht]) hstate hid
  | prepared ht hstate => exact stepped_of_slots (h.goto (by simp [ht]) (by rintro ⟨⟩)) rfl id
  | built hclaimed ht hcurrent => exact (stepped_build h hclaimed (by simp [ht])).1 _
  | unbuilt hclaimed ht => exact (stepped_build h hclaimed (by simp [ht])).2
  | committed hfree ht hstate | renewed hfree ht hstate =>
    exact stepped_setState h hfree (by simp [ht]) rfl (by rw [hstate]; rfl) (by simp [hstate])
  | interrupted hfree ht => exact stepped_interrupted h hfree (by simp [ht])
  | closed hfree ht => exact stepped_close h hfree ht
  | released ht => exact stepped_release h ht

/-! ### Whole runs -/

/-- The connections keep their invariants and the set is exact. -/
structure World.Inv (s : World) : Prop where
  conns : ∀ c, (s.conns c).Inv
  exact : Exact s.active fun c => (s.conns c).slots

variable {setup : Setup} {s s' : World} {a : ℕ × ℕ × Act} {acts : List (ℕ × ℕ × Act)} {c : ℕ}

theorem agent_step (h : (agent setup).step a s = some s') :
    ∃ r, (s.conns a.1).step (setup.audience a.1) a.2.1 a.2.2 s.active = some r ∧
      s' = ⟨r.1, update s.conns a.1 r.2⟩ := by
  obtain ⟨r, hr, rfl⟩ := map_eq_some_iff.mp h
  exact ⟨r, hr, rfl⟩

theorem inv_start (setup : Setup) : (start setup).Inv where
  conns c := Conn.inv_new _
  exact := by
    have hslots : (fun c => ((start setup).conns c).slots) = fun _ => [] := by
      funext c
      show (new (setup.required c)).slots = []
      cases hreq : setup.required c <;> rfl
    rw [hslots]
    exact Exact.empty

theorem inv_step (h : s.Inv) (hstep : (agent setup).step a s = some s') : s'.Inv := by
  obtain ⟨r, hr, rfl⟩ := agent_step hstep
  have hspec := stepped_change (h.conns a.1) (change_of_step hr)
  constructor
  · intro c
    by_cases hc : c = a.1
    · subst hc
      simpa using hspec.inv
    · simpa [update_of_ne hc] using h.conns c
  have hslots : (fun c => (update s.conns a.1 r.2 c).slots) =
      update (fun c => (s.conns c).slots) a.1 r.2.slots := by
    funext c
    by_cases hc : c = a.1
    · subst hc
      simp
    · simp [update_of_ne hc]
  rw [hslots]
  exact h.exact.move hspec.move

theorem inv_run (h : (agent setup).run acts (start setup) = some s) : s.Inv :=
  Machine.run_invariant (fun _ _ _ => inv_step) (inv_start setup) h

/-- **Closed is final.** A closed connection takes no slot either. -/
theorem closed_step (hinv : s.Inv) (hclosed : (s.conns c).state = .closed)
    (hstep : (agent setup).step a s = some s') :
    (s'.conns c).state = .closed ∧ (s'.conns c).slots ⊆ (s.conns c).slots := by
  obtain ⟨r, hr, rfl⟩ := agent_step hstep
  by_cases hc : c = a.1
  · subst hc
    simp only [update_self]
    exact (stepped_change (hinv.conns a.1) (change_of_step hr)).closed hclosed
  · simp only [update_of_ne hc]
    exact ⟨hclosed, fun _ => id⟩

theorem closed_run (hinv : s.Inv) (hclosed : (s.conns c).state = .closed)
    (hrun : (agent setup).run acts s = some s') :
    (s'.conns c).state = .closed ∧ (s'.conns c).slots ⊆ (s.conns c).slots := by
  have hall : s'.Inv ∧ (s'.conns c).state = .closed ∧ (s'.conns c).slots ⊆ (s.conns c).slots := by
    refine Machine.run_invariant
      (I := fun w => w.Inv ∧ (w.conns c).state = .closed ∧ (w.conns c).slots ⊆ (s.conns c).slots) ?_
      ⟨hinv, hclosed, fun _ => id⟩ hrun
    rintro a w w' ⟨hw, hstate, hsub⟩ hstep
    obtain ⟨hstate', hsub'⟩ := closed_step hw hstate hstep
    exact ⟨inv_step hw hstep, hstate', List.Subset.trans hsub' hsub⟩
  exact hall.2

theorem agent_release (hcloser : (s.conns c).tasks.get t = some .closing) :
    (agent setup).step (c, t, .release) s = some ⟨((s.conns c).release s.active t).1,
        update s.conns c ((s.conns c).release s.active t).2⟩ := by
  show ((s.conns c).step (setup.audience c) t .release s.active).map _ = _
  simp only [step, hcloser, map_some]

theorem authorize_slots (hstep : (agent setup).step (c, t, .authorize renewal) s = some s') :
    s'.active = s.active ∧ ∀ d, (s'.conns d).slots = (s.conns d).slots := by
  obtain ⟨r, hr, rfl⟩ := agent_step hstep
  have hsame : r.1 = s.active ∧ r.2.slots = (s.conns c).slots := by
    cases change_of_step hr with
    | moved => exact ⟨rfl, rfl⟩
    | began _ _ hbegins => exact ⟨rfl, by simp [slots, goto, hbegins.lease]⟩
  refine ⟨hsame.1, fun d => ?_⟩
  by_cases hd : d = c
  · subst hd
    simpa using hsame.2
  · simp only [update_of_ne hd]

/-- **Closers finish.** A closer that took a lease out can drop it, and then the id is free. -/
theorem release_frees {lease : GrantLease} (hinv : s.Inv) (hdrop : (s.conns c).dropping = [(t, lease)]) :
    ∃ s', (agent setup).step (c, t, .release) s = some s' ∧ (s'.conns c).slots = [] ∧
      lease.slot ∉ s'.active := by
  rcases (hinv.conns c).dropping with hnil | ⟨t', lease', hone, hclosed, hcloser⟩
  · simp [hdrop] at hnil
  rw [hdrop] at hone
  cases hone
  have hafter : Stepped s.active _ _ _ := stepped_release (hinv.conns c) hcloser
  refine ⟨_, agent_release hcloser, ?_, ?_⟩
  · simp only [update_self]
    rw [hafter.inv.slots_of_closed hclosed]
    simp [release, goto, hdrop]
  · simp [release, goto, hdrop]

/-- **The way out of a failed task.** What is left of it is `close`, and nothing of the connection stays
reserved but what another closer is about to drop. -/
theorem unwinding_closes (hinv : s.Inv) (hfree : (s.conns c).claimed = none)
    (htask : (s.conns c).tasks.get t = some .unwinding) :
    ∃ s', (agent setup).run [(c, t, .close), (c, t, .release)] s = some s' ∧
      (s'.conns c).state = .closed ∧ (s'.conns c).tasks.get t = some .ended ∧
      (s'.conns c).slots = ((s.conns c).dropping.filter (·.1 ≠ t)).map (·.2.slot) := by
  have hclose : (agent setup).step (c, t, .close) s =
      some ⟨s.active, update s.conns c ((s.conns c).close t)⟩ := by
    show ((s.conns c).step (setup.audience c) t .close s.active).map _ = _
    simp [step, htask, unlocked, hfree]
  have hcloser : ((s.conns c).close t).tasks.get t = some .closing := by
    simp [close, goto, Table.get_insert]
  have hinv' := inv_step hinv hclose
  have hrelease : (agent setup).step (c, t, .release)
      ⟨s.active, update s.conns c ((s.conns c).close t)⟩ = some _ :=
    agent_release (by simpa using hcloser)
  have hconn : ((s.conns c).close t).Inv := by simpa using hinv'.conns c
  have hafter : Stepped s.active _ _ _ := stepped_release hconn hcloser
  refine ⟨_, Machine.run_cons_eq_some.mpr ⟨_, hclose, Machine.run_cons_eq_some.mpr ⟨_, hrelease, rfl⟩⟩, ?_⟩
  simp only [update_self]
  refine ⟨rfl, ?_, ?_⟩
  · simp [release, goto, Table.get_insert]
  · rw [hafter.inv.slots_of_closed rfl]
    simp [release, close, goto]

/-- **Grant slots are exclusive.** After every run, whatever was verified, seen and scheduled:
`active_grants` has the ids of the live slots; no two connections hold one id; a connection holds one slot
at most. A message that is refused at once changes no slot. A failed task has only `close` to do, after
which the connection keeps nothing but what another closer is dropping. A closed connection holds nothing
but such a slot, whose closer can drop it, and then the id is free. Closed connections stay closed and
take nothing. -/
theorem grant_slots (setup : Setup) (acts : List (ℕ × ℕ × Act)) (s : World)
    (h : (agent setup).run acts (start setup) = some s) :
    (∀ id, id ∈ s.active ↔ ∃ c, id ∈ (s.conns c).slots) ∧
    (∀ c d id, id ∈ (s.conns c).slots → id ∈ (s.conns d).slots → c = d) ∧
    (∀ c, (s.conns c).slots.length ≤ 1) ∧
    (∀ c t renewal s', (agent setup).step (c, t, .authorize renewal) s = some s' →
      s'.active = s.active ∧ ∀ d, (s'.conns d).slots = (s.conns d).slots) ∧
    (∀ c t, (s.conns c).claimed = none → (s.conns c).tasks.get t = some .unwinding →
      ∃ s', (agent setup).run [(c, t, .close), (c, t, .release)] s = some s' ∧
        (s'.conns c).state = .closed ∧ (s'.conns c).tasks.get t = some .ended ∧
        (s'.conns c).slots = ((s.conns c).dropping.filter (·.1 ≠ t)).map (·.2.slot)) ∧
    (∀ c t, (s.conns c).tasks.get t = some .ended → (s.conns c).state = .closed) ∧
    (∀ c, (s.conns c).state = .closed → (s.conns c).slots = [] ∨
      ∃ t lease s', (s.conns c).slots = [lease.slot] ∧ (s.conns c).dropping = [(t, lease)] ∧
        (agent setup).step (c, t, .release) s = some s' ∧ (s'.conns c).slots = [] ∧
        lease.slot ∉ s'.active) ∧
    (∀ c acts' s', (s.conns c).state = .closed → (agent setup).run acts' s = some s' →
      (s'.conns c).state = .closed ∧ (s'.conns c).slots ⊆ (s.conns c).slots) := by
  have hinv := inv_run h
  refine ⟨hinv.exact.mem_iff, hinv.exact.unique, fun c => (hinv.conns c).length_slots_le, ?_,
    fun c t => unwinding_closes hinv, fun c t ht => (hinv.conns c).closers t _ ht rfl, ?_,
    fun c acts' s' => closed_run hinv⟩
  · intro c t renewal s' hstep
    exact authorize_slots hstep
  intro c hclosed
  have hslots := (hinv.conns c).slots_of_closed hclosed
  rcases (hinv.conns c).dropping with hnil | ⟨t, lease, hone, -, -⟩
  · left
    rw [hslots, hnil]
    rfl
  · right
    obtain ⟨s', hstep, hnone, hfree⟩ := release_frees hinv hone
    exact ⟨t, lease, s', by rw [hslots, hone]; rfl, hone, hstep, hnone, hfree⟩

/-! ### Two connections with one grant -/

/-- Two connections that require grants present the same one. -/
def twoConnections : Setup := ⟨fun _ => true, fun _ => repeated 32 7⟩

/-- A grant for the audience of both, from second 0 to second 100. -/
def sharedGrant : VerifiedGrant :=
  ⟨⟨3, 1, repeated 32 1, repeated 32 2, repeated 32 7, repeated 16 4, [.ping], 0, 100,
    ⟨none, none, none, none⟩, none, none⟩, repeated 32 9⟩

/-- Ten seconds on both clocks, an agent with its own empty denylist, an open connection. -/
def calmView : View :=
  ⟨false, false, .ok ⟨repeated 16 0, .fromSecs 10, .fromSecs 10⟩, .ok ⟨repeated 16 0, .fromSecs 10, .fromSecs 10⟩,
    { RevocationPolicy.default with isLocal := true }, .error .busy, RevocationPolicy.default⟩

/-- Connection 0 claims; connection 1 fails to and closes; connection 0 is granted; its lifetime ends,
and its lease is not yet dropped. -/
def contention : List (ℕ × ℕ × Act) :=
  [(0, 0, .authorize false), (1, 0, .authorize false), (0, 0, .offer (.ok sharedGrant) calmView),
    (1, 0, .offer (.ok sharedGrant) calmView), (0, 0, .build), (1, 0, .close), (1, 0, .release),
    (0, 0, .reply true calmView), (0, 0, .finish true), (0, 1, .shut), (0, 1, .close)]

/-- The world after that. -/
def contended : World := ((agent twoConnections).run contention (start twoConnections)).getD (start twoConnections)

theorem run_contention : (agent twoConnections).run contention (start twoConnections) = some contended :=
  Machine.run_eq_some_getD (by decide +kernel)

theorem grant_slots_contended :
    (contended.conns 0).slots = [sharedGrant.id] ∧ (contended.conns 1).slots = [] ∧
      (∀ id, id ∈ contended.active ↔ ∃ c, id ∈ (contended.conns c).slots) ∧
      ∀ c, (contended.conns c).slots.length ≤ 1 := by
  obtain ⟨hexact, -, hone, -⟩ := grant_slots twoConnections contention contended run_contention
  exact ⟨by decide +kernel, by decide +kernel, hexact, hone⟩

end Rds.Agent.Authz
