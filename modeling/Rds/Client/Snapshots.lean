import Rds.Client.Registry

/-!
# Snapshots of the session registry

A `List` request answers with a `Snapshot`: the sessions, and the generation of the state, which is
increased with each change. Part of what a snapshot shows is not in the state. Whether a session is
connected is read from its `watch` channel, which the worker that admits it writes.

Two facts about every action carry the result.

* The generation is only counted, never read. So an action makes the same `transitions` at every
  generation, and they are what it adds.
* An action without a transition leaves what a snapshot shows.

Both follow from one relation of two runs, at a generation and ahead of it (`Follows`, `follows_step`).

Hence a snapshot is identified by its generation, until the counter saturates.
-/

namespace Rds.Local

open Framework Std Manager Option ExtTreeMap

/-! ### The request -/

/-- `Status`. -/
inductive Status
  | connecting
  | connected
  deriving DecidableEq

/-- `Session`. -/
structure Session where
  id : SessionId
  peer : Bytes
  status : Status
  deriving DecidableEq

/-- `Snapshot`. -/
structure Snapshot where
  instance_ : SessionId
  generation : ℕ
  endpoint : Bytes
  selected : Option SessionId
  sessions : List Session
  deriving DecidableEq

namespace Manager

theorem transOrd_sessionId : Std.TransOrd SessionId := inferInstance

/-- `State::snapshot`. `display` is `EndpointId::to_string`. -/
def snapshot (display : EndpointId → Bytes) (m : Manager) : Snapshot where
  instance_ := m.state.instance_
  generation := m.state.generation
  endpoint := m.state.endpoint
  selected := m.state.selected
  sessions := (@ExtTreeMap.toList _ _ _ transOrd_sessionId m.state.entries).map fun x =>
    ⟨x.1, display x.2.peer,
      if x.2.conn.isSome && m.ready x.2.ready then .connected else .connecting⟩

/-- `Command::List`. -/
def list (display : EndpointId → Bytes) (m : Manager) : Except ErrorCode Snapshot × Manager :=
  m.locked fun m => (.ok (m.snapshot display), m)

theorem look_eq_of_list {display : EndpointId → Bytes} {m m' : Manager} {snap : Snapshot}
    (h : m.list display = (.ok snap, m')) : m.look.2 = m' ∧ snap = m'.snapshot display := by
  unfold list locked at h
  unfold look locked
  split at h
  · cases h
  split at h
  · cases h
  cases h
  next hpoisoned hstopped =>
  rw [if_neg hpoisoned, if_neg hstopped]
  exact ⟨rfl, rfl⟩

end Manager

/-! ### Two runs of one section -/

/-- The largest generation. -/
def lastGeneration : ℕ := 2 ^ 64 - 1

/-- The same state, after `g` more transitions. -/
def State.ahead (g : ℕ) (s : State) : State :=
  { s with generation := min (g + s.generation) lastGeneration }

/-- The same manager, after `g` more transitions. -/
def Manager.ahead (g : ℕ) (m : Manager) : Manager := { m with state := m.state.ahead g }

/-- What a snapshot shows of an entry. -/
def Manager.shown (m : Manager) (e : Entry) : EndpointId × Bool := (e.peer, e.conn.isSome && m.ready e.ready)

/-- Snapshots of `m` and of `m'` differ in the generation only. -/
structure SameView (m m' : Manager) : Prop where
  instance_ : m'.state.instance_ = m.state.instance_
  endpoint : m'.state.endpoint = m.state.endpoint
  selected : m'.state.selected = m.state.selected
  shown : ∀ id : SessionId, m'.state.entries[id]?.map m'.shown = m.state.entries[id]?.map m.shown

/-- From `m` to `m'` the generation grows, or a snapshot shows the same. -/
structure Tracks (m m' : Manager) : Prop where
  bound : m.state.generation ≤ lastGeneration → m'.state.generation ≤ lastGeneration
  mono : m.state.generation ≤ lastGeneration → m.state.generation ≤ m'.state.generation
  same : m.state.generation < lastGeneration → m'.state.generation = m.state.generation → SameView m m'

/-- Two runs of one section from `m`, of which the first starts `g` transitions later: `n` is `n'` with
these transitions, and from `m` to `n'` the generation counts what a snapshot shows. -/
structure Follows (g : ℕ) (m n n' : Manager) : Prop where
  ahead : n = n'.ahead g
  tracks : Tracks m n'

/-- The two runs give the same answer. -/
def Lockstep {α : Type} (g : ℕ) (m : Manager) (r s : α × Manager) : Prop :=
  r.1 = s.1 ∧ Follows g m r.2 s.2

section Runs

variable {α : Type} {g : ℕ} {m m' m₁ n n' : Manager}

theorem SameView.refl (m : Manager) : SameView m m := ⟨rfl, rfl, rfl, fun _ => rfl⟩

theorem SameView.trans (h : SameView m m₁) (h' : SameView m₁ m') : SameView m m' :=
  ⟨h'.instance_.trans h.instance_, h'.endpoint.trans h.endpoint, h'.selected.trans h.selected,
    fun id => (h'.shown id).trans (h.shown id)⟩

namespace Tracks

theorem of_same (hgen : m'.state.generation = m.state.generation) (hview : SameView m m') : Tracks m m' where
  bound h := hgen ▸ h
  mono _ := Nat.le_of_eq hgen.symm
  same _ _ := hview

theorem refl (m : Manager) : Tracks m m := of_same rfl (SameView.refl m)

theorem changed (h : m'.state.generation = min (m.state.generation + 1) lastGeneration) : Tracks m m' where
  bound _ := by omega
  mono hle := by omega
  same hlt heq := by omega

theorem trans (h : Tracks m m₁) (h' : Tracks m₁ m') : Tracks m m' where
  bound hle := h'.bound (h.bound hle)
  mono hle := Nat.le_trans (h.mono hle) (h'.mono (h.bound hle))
  same hlt heq := by
    have hfirst := h.mono (Nat.le_of_lt hlt)
    have hsecond := h'.mono (h.bound (Nat.le_of_lt hlt))
    exact (h.same hlt (by omega)).trans (h'.same (by omega) (by omega))

end Tracks

theorem State.ahead_changed (g : ℕ) (s : State) : s.changed.ahead g = (s.ahead g).changed := by
  unfold State.changed State.ahead lastGeneration
  dsimp only
  congr 1
  omega

theorem Manager.entries_ahead : (m.ahead g).state.entries = m.state.entries := rfl

/-- Two conditionals on one condition are related if their branches are. -/
theorem rel_ite {β : Type} {R : β → β → Prop} {c : Prop} [Decidable c] {r r' s s' : β} (h : R r s)
    (h' : R r' s') : R (if c then r else r') (if c then s else s') := by
  split
  · exact h
  · exact h'

theorem rel_bind {β γ : Type} {R : β → β → Prop} {S : γ → γ → Prop} {r s : Option β} {f : β → Option γ}
    (h : Option.Rel R r s) (hf : ∀ x y, R x y → Option.Rel S (f x) (f y)) :
    Option.Rel S (r.bind f) (s.bind f) := by
  cases h with
  | none => exact .none
  | some h => exact hf _ _ h

theorem rel_map {β γ : Type} {R : β → β → Prop} {S : γ → γ → Prop} {r s : Option β} {f : β → γ}
    (h : Option.Rel R r s) (hf : ∀ x y, R x y → S (f x) (f y)) : Option.Rel S (r.map f) (s.map f) := by
  rw [map_eq_bind, map_eq_bind]
  exact rel_bind h fun x y hxy => .some (hf x y hxy)

namespace Follows

theorem refl (m : Manager) : Follows g m (m.ahead g) m := ⟨rfl, .refl m⟩

theorem after (h : Tracks m m₁) (h' : Follows g m₁ n n') : Follows g m n n' := ⟨h'.ahead, h.trans h'.tracks⟩

/-- The section ends with a call of `changed`. -/
theorem counted (hstate : n'.state.ahead g = n.state) (hrest : { n' with state := n.state } = n)
    (hgen : n'.state.generation = min (m.state.generation + 1) lastGeneration) : Follows g m n n' where
  ahead := by
    rw [← hrest, ← hstate]
    rfl
  tracks := .changed hgen

/-- The section leaves what a snapshot shows. -/
theorem spawn (m : Manager) (w : Worker) : Follows g m ((m.ahead g).spawn w) (m.spawn w) :=
  ⟨rfl, .of_same rfl ⟨rfl, rfl, rfl, fun _ => rfl⟩⟩

end Follows

namespace Lockstep

theorem refl (a : α) (m : Manager) : Lockstep g m (a, m.ahead g) (a, m) := ⟨rfl, .refl m⟩

theorem spawn (a : α) (m : Manager) (w : Worker) : Lockstep g m (a, (m.ahead g).spawn w) (a, m.spawn w) :=
  ⟨rfl, .spawn m w⟩

theorem after {r s : α × Manager} (h : Tracks m m₁) (h' : Lockstep g m₁ r s) : Lockstep g m r s :=
  ⟨h'.1, h'.2.after h⟩

/-- What comes after a section is about one answer and one manager. -/
@[elab_as_elim]
theorem elim {r s : α × Manager} {motive : α × Manager → α × Manager → Prop} (h : Lockstep g m r s)
    (hnext : ∀ a n, Tracks m n → motive (a, n.ahead g) (a, n)) : motive r s := by
  obtain ⟨answer, n⟩ := r
  obtain ⟨hanswer, hahead, htracks⟩ := h
  cases (show answer = s.1 from hanswer)
  cases (show n = s.2.ahead g from hahead)
  exact hnext s.1 s.2 htracks

end Lockstep

namespace Manager

variable (g m)

theorem prune_ahead : (m.ahead g).prune = m.prune.ahead g := by
  have hstate : (m.ahead g).state.prune (m.ahead g).isClosed = (m.state.prune m.isClosed).ahead g := by
    unfold State.prune
    rw [apply_ite (State.ahead g), State.ahead_changed]
    rfl
  unfold prune
  rw [hstate]
  rfl

theorem tracks_prune : Tracks m m.prune := by
  by_cases hsize : (m.state.entries.filter fun _ e => !e.conn.any m.isClosed).size = m.state.entries.size
  · have hkept := filter_eq_self_iff.mpr (size_filter_eq_size_iff.mp hsize)
    have hstate : m.prune.state = m.state := by
      show m.state.prune m.isClosed = m.state
      unfold State.prune
      rw [if_neg (not_not.mpr hsize), hkept]
    refine .of_same (congrArg State.generation hstate) ⟨?_, ?_, ?_, fun id => ?_⟩
    · rw [hstate]
    · rw [hstate]
    · rw [hstate]
    · rw [hstate]
      rfl
  · refine .changed ?_
    show (m.state.prune m.isClosed).generation = _
    unfold State.prune
    rw [if_pos hsize]
    rfl

variable {m} in
/-- Every section starts by pruning the state. -/
theorem lockstep_locked {body : Manager → Except ErrorCode α × Manager}
    (hbody : ∀ m : Manager, Lockstep g m (body (m.ahead g)) (body m)) :
    Lockstep g m ((m.ahead g).locked body) (m.locked body) := by
  unfold locked
  rw [prune_ahead]
  exact rel_ite (.refl _ m) (rel_ite (.refl _ m) (.after m.tracks_prune (hbody _)))

theorem lockstep_remove (session : SessionId) : Lockstep g m ((m.ahead g).remove session) (m.remove session) := by
  unfold remove State.remove
  rw [entries_ahead]
  by_cases hnone : m.state.entries[session]? = none
  · rw [if_pos hnone, if_pos hnone]
    exact ⟨rfl, rfl, .of_same rfl ⟨rfl, rfl, rfl, fun _ => rfl⟩⟩
  · rw [if_neg hnone, if_neg hnone]
    exact ⟨rfl, .counted (State.ahead_changed g _) rfl rfl⟩

theorem lockstep_existing (peer : EndpointId) (credential : Option Credential) :
    Lockstep g m ((m.ahead g).existing peer credential) (m.existing peer credential) :=
  lockstep_locked g fun m => .refl _ m

theorem lockstep_reserve (peer : EndpointId) (credential : Option Credential) (draws : List SessionId) :
    Option.Rel (Lockstep g m) ((m.ahead g).reserve peer credential draws) (m.reserve peer credential draws) := by
  unfold reserve
  refine (m.lockstep_existing g peer credential).elim fun answer m hm => ?_
  rcases answer with e | _ | reserved
  · exact .some (.after hm (.refl _ m))
  · refine rel_ite (.some (.after hm (.refl _ m))) ?_
    rw [entries_ahead]
    generalize draws.find? _ = found
    cases found with
    | none => exact .none
    | some session => exact .some (.after hm ⟨rfl, .counted (State.ahead_changed g _) rfl rfl⟩)
  · exact .some (.after hm (.refl _ m))

theorem lockstep_renew (session : SessionId) : Lockstep g m ((m.ahead g).renew session) (m.renew session) := by
  refine lockstep_locked g fun m => ?_
  rw [entries_ahead]
  cases m.state.entries[session]? with
  | none => exact .refl _ m
  | some entry =>
    refine rel_ite (.refl _ m) (rel_ite (.refl _ m) (rel_ite (.refl _ m) ?_))
    cases entry.conn with
    | none => exact .refl _ m
    | some conn => exact ⟨rfl, .counted (State.ahead_changed g _) rfl rfl⟩

theorem lockstep_commit (r : Uncommitted) : Lockstep g m ((m.ahead g).commit r) (m.commit r) := by
  refine lockstep_locked g fun m => ?_
  rw [entries_ahead]
  cases m.state.entries[r.1.id]? with
  | none => exact .refl _ m
  | some entry =>
    refine ⟨rfl, ?_⟩
    have hrenewing : Follows g m
        (if entry.renewing then { m.ahead g with
          state := ((m.ahead g).state.update r.1.id { entry with renewing := false }).changed } else m.ahead g)
        (if entry.renewing then { m with
          state := (m.state.update r.1.id { entry with renewing := false }).changed } else m) :=
      rel_ite (.counted (State.ahead_changed g _) rfl rfl) (.refl m)
    obtain ⟨heq, htracks⟩ := hrenewing
    dsimp only
    rw [heq]
    cases r.1.ready with
    | none => exact ⟨rfl, htracks⟩
    | some ready =>
      -- the channel is written and the change counted in one section
      exact .after htracks (.counted (State.ahead_changed g _) rfl rfl)

theorem follows_dropReservation (r : Reservation) :
    Follows g m ((m.ahead g).dropReservation r) (m.dropReservation r) :=
  rel_ite (.refl m) (m.lockstep_remove g r.id).2

theorem lockstep_attach (r : Reservation) (conn : ℕ) :
    Lockstep g m ((m.ahead g).attach r conn) (m.attach r conn) := by
  refine lockstep_locked g fun m => ?_
  rw [entries_ahead]
  cases m.state.entries[r.id]? with
  | none => exact .refl _ m
  | some entry => exact ⟨rfl, .counted (State.ahead_changed g _) rfl rfl⟩

theorem lockstep_authorized (r : Reservation) (credential : Credential) :
    Lockstep g m ((m.ahead g).authorized r credential) (m.authorized r credential) := by
  refine lockstep_locked g fun m => ?_
  rw [entries_ahead]
  cases hentry : m.state.entries[r.id]? with
  | none => exact .refl _ m
  | some entry =>
    -- a credential is not shown, so its change is not counted
    refine ⟨rfl, rfl, .of_same rfl ⟨rfl, rfl, rfl, fun id => ?_⟩⟩
    show (m.state.entries.insert r.id { entry with credential := some credential })[id]?.map m.shown = _
    rw [lookup_insert]
    split
    next heq =>
      rw [← heq, hentry]
      rfl
    next => rfl

theorem lockstep_select (session : SessionId) : Lockstep g m ((m.ahead g).select session) (m.select session) := by
  refine lockstep_locked g fun m => ?_
  rw [show (m.ahead g).state.connection (m.ahead g).ready (some session) =
    m.state.connection m.ready (some session) from rfl]
  cases m.state.connection m.ready (some session) with
  | error e => exact .refl _ m
  | ok x => exact rel_ite ⟨rfl, .counted (State.ahead_changed g _) rfl rfl⟩ (.refl _ m)

theorem lockstep_disconnect (session : SessionId) :
    Lockstep g m ((m.ahead g).disconnect session) (m.disconnect session) := by
  refine lockstep_locked g fun m => (m.lockstep_remove g session).elim fun removed m hm => ?_
  cases removed <;> exact .after hm (.refl _ m)

theorem lockstep_connect (call : ConnectCall) : Lockstep g m ((m.ahead g).connect call) (m.connect call) := by
  refine rel_ite (.refl _ m) (rel_ite (.refl _ m) ?_)
  cases call.pinned with
  | none => exact .spawn _ m _
  | some pinned =>
    dsimp only
    refine (m.lockstep_existing g pinned call.credential).elim fun answer m hm => .after hm ?_
    rcases answer with e | _ | id | pending | r
    · exact .refl _ m
    · exact .spawn _ m _
    · exact .refl _ m
    · exact .spawn _ m _
    · exact .refl _ m

theorem lockstep_connectPeer (call : ConnectCall) (answer : Option EndpointId) (draws : List SessionId) :
    Option.Rel (Lockstep g m) ((m.ahead g).connectPeer call answer draws) (m.connectPeer call answer draws) := by
  unfold connectPeer
  rw [show (m.ahead g).peerOf call answer = m.peerOf call answer from rfl]
  cases m.peerOf call answer with
  | error e => exact .some (.refl _ m)
  | ok peer =>
    refine rel_map (m.lockstep_reserve g peer call.credential draws) fun _ _ h => ?_
    refine h.elim fun answer m hm => .after hm ?_
    rcases answer with e | id | pending | r
    · exact .refl _ m
    · exact .refl _ m
    · exact .spawn _ m _
    · exact .spawn _ m _

theorem lockstep_wait (pending : Pending) : Lockstep g m ((m.ahead g).wait pending) (m.wait pending) := by
  refine rel_ite (lockstep_locked g fun m => ?_)
    (rel_ite (.refl _ m) (rel_ite (.refl _ m) (.spawn _ m _)))
  rw [show (m.ahead g).state.connection (m.ahead g).ready (some pending.id) =
    m.state.connection m.ready (some pending.id) from rfl]
  cases m.state.connection m.ready (some pending.id) <;> exact .refl _ m

theorem follows_dialed (r : Uncommitted) (conn : ℕ) :
    Follows g m ((m.ahead g).dialed r conn) (m.dialed r conn) := by
  unfold dialed
  refine (m.lockstep_attach g r conn).elim fun answer m hm => .after hm ?_
  cases answer <;> exact .spawn m _

theorem lockstep_startRenew (session : SessionId) (credential : Credential) :
    Lockstep g m ((m.ahead g).startRenew session credential) (m.startRenew session credential) := by
  unfold startRenew
  refine (m.lockstep_renew g session).elim fun answer m hm => .after hm ?_
  cases answer with
  | error e => exact .refl _ m
  | ok x => exact .spawn _ m _

theorem follows_renewed (r : Uncommitted) (credential : Credential) :
    Follows g m ((m.ahead g).renewed r credential) (m.renewed r credential) := by
  unfold renewed
  refine (m.lockstep_authorized g r credential).elim fun answer m hm => .after hm ?_
  cases answer <;> exact .spawn m _

theorem follows_replied (r : Uncommitted) : Follows g m ((m.ahead g).replied r) (m.replied r) := by
  unfold replied
  refine (m.lockstep_commit g r).elim fun answer m hm => .after hm ?_
  cases answer <;> exact .spawn m _

theorem follows_exit (w : Worker) : Follows g m ((m.ahead g).exit w) (m.exit w) := by
  unfold exit
  cases w.reservation with
  | none => exact .refl m
  | some r => exact m.follows_dropReservation g r

/-- A worker goes on in both runs, or in none. -/
theorem follows_resume (w : Worker) : Option.Rel (Follows g m) ((m.ahead g).resume w) (m.resume w) :=
  rel_ite (.some ⟨rfl, .of_same rfl ⟨rfl, rfl, rfl, fun _ => rfl⟩⟩) .none

theorem follows_resume_map (w : Worker) {f : Manager → Manager}
    (hf : ∀ m : Manager, Follows g m (f (m.ahead g)) (f m)) :
    Option.Rel (Follows g m) (((m.ahead g).resume w).map f) ((m.resume w).map f) :=
  rel_map (m.follows_resume g w) fun
    | _, n, ⟨rfl, hn⟩ => .after hn (hf n)

end Manager

/-- **The step lemma of the two runs.** -/
theorem follows_step (g : ℕ) (a : Action) (m : Manager) :
    Option.Rel (Follows g m) (step a (m.ahead g)) (step a m) := by
  cases a with
  | look => exact .some (lockstep_locked g fun m => .refl _ m).2
  | connect call => exact .some (m.lockstep_connect g call).2
  | connectPeer call answer draws =>
    refine rel_bind (m.follows_resume g (.resolving call)) ?_
    rintro _ n ⟨rfl, hn⟩
    exact rel_map (n.lockstep_connectPeer g call answer draws) fun _ _ h => .after hn h.2
  | wait pending => exact m.follows_resume_map g _ fun m => (m.lockstep_wait g pending).2
  | dialed r conn => exact m.follows_resume_map g _ fun m => m.follows_dialed g r conn
  | renew session credential => exact .some (m.lockstep_startRenew g session credential).2
  | renewed r credential => exact m.follows_resume_map g _ fun m => m.follows_renewed g r credential
  | replied r => exact m.follows_resume_map g _ fun m => m.follows_replied g r
  | exit w => exact m.follows_resume_map g _ fun m => m.follows_exit g w
  | select session => exact .some (m.lockstep_select g session).2
  | disconnect session => exact .some (m.lockstep_disconnect g session).2
  | close conn | poison =>
    -- a closed connection is shown until it is pruned
    exact .some ⟨rfl, .of_same rfl ⟨rfl, rfl, rfl, fun _ => rfl⟩⟩
  | dropOwner => exact rel_ite .none (.some (.counted (State.ahead_changed g _) rfl rfl))

/-! ### Transitions -/

/-- The same manager, at generation zero. -/
def Manager.restarted (m : Manager) : Manager := { m with state := { m.state with generation := 0 } }

/-- How often an action calls `changed`: the generation it reaches from zero. -/
def Manager.transitions (m : Manager) (a : Action) : ℕ :=
  ((step a m.restarted).map (·.state.generation)).getD 0

/-- How often a run calls `changed`. -/
def Manager.totalTransitions (m : Manager) : List Action → ℕ
  | [] => 0
  | a :: acts => m.transitions a + ((step a m).map (totalTransitions · acts)).getD 0

/-- **The step lemma.** -/
theorem step_transitions {a : Action} (h : step a m = some m') (hle : m.state.generation ≤ lastGeneration) :
    m'.state.generation = min (m.state.generation + m.transitions a) lastGeneration ∧
      (m.transitions a = 0 → SameView m m') := by
  have hm : m = m.restarted.ahead m.state.generation := by
    have hgen : min (m.state.generation + 0) lastGeneration = m.state.generation := by omega
    show m = { m with state := { m.state with generation := min (m.state.generation + 0) lastGeneration } }
    rw [hgen]
  have hfollows := follows_step m.state.generation a m.restarted
  rw [← hm, h] at hfollows
  cases hn : step a m.restarted with
  | none =>
    rw [hn] at hfollows
    cases hfollows
  | some n =>
  rw [hn] at hfollows
  obtain ⟨rfl, htracks⟩ := Option.rel_some_some.mp hfollows
  have htransitions : m.transitions a = n.state.generation := by
    unfold transitions
    rw [hn]
    rfl
  rw [htransitions]
  refine ⟨rfl, fun hzero => ?_⟩
  have hpos : 0 < lastGeneration := by decide
  obtain ⟨hinstance, hendpoint, hselected, hshown⟩ := htracks.same hpos hzero
  exact ⟨hinstance, hendpoint, hselected, hshown⟩

/-- **The run lemma.** -/
theorem run_transitions {acts : List Action} (h : machine.run acts m = some m')
    (hle : m.state.generation ≤ lastGeneration) :
    m'.state.generation = min (m.state.generation + m.totalTransitions acts) lastGeneration ∧
      (m.totalTransitions acts = 0 → SameView m m') := by
  induction acts generalizing m with
  | nil =>
    cases h
    exact ⟨(Nat.min_eq_left hle).symm, fun _ => .refl _⟩
  | cons a acts ih =>
    obtain ⟨m₁, hstep, hrest⟩ := Machine.run_cons_eq_some.mp h
    have htotal : m.totalTransitions (a :: acts) = m.transitions a + m₁.totalTransitions acts := by
      show m.transitions a + ((step a m).map (totalTransitions · acts)).getD 0 = _
      rw [show step a m = some m₁ from hstep]
      rfl
    obtain ⟨hgen, hview⟩ := step_transitions hstep hle
    obtain ⟨hgen', hview'⟩ := ih hrest (by omega)
    refine ⟨by omega, fun hzero => ?_⟩
    exact (hview (by omega)).trans (hview' (by omega))

theorem totalTransitions_append {acts : List Action} (h : machine.run acts m = some m') (acts' : List Action) :
    m.totalTransitions (acts ++ acts') = m.totalTransitions acts + m'.totalTransitions acts' := by
  induction acts generalizing m with
  | nil =>
    cases h
    exact (Nat.zero_add _).symm
  | cons a acts ih =>
    obtain ⟨m₁, hstep, hrest⟩ := Machine.run_cons_eq_some.mp h
    have hstep' : step a m = some m₁ := hstep
    show m.transitions a + ((step a m).map (totalTransitions · (acts ++ acts'))).getD 0 =
      m.transitions a + ((step a m).map (totalTransitions · acts)).getD 0 + _
    rw [hstep', map_some, map_some, getD_some, getD_some, ih hrest, Nat.add_assoc]

theorem SameView.snapshot_eq (h : SameView m m') (hgen : m.state.generation = m'.state.generation)
    (display : EndpointId → Bytes) : m.snapshot display = m'.snapshot display := by
  -- a list of sessions is the enumeration of a map of what is shown
  have hsessions : ∀ m : Manager, (m.snapshot display).sessions =
      (m.state.entries.map fun _ e => m.shown e).toList.map fun x =>
        ⟨x.1, display x.2.1, if x.2.2 then .connected else .connecting⟩ := by
    intro m
    rw [ExtTreeMap.toList_map, List.map_map]
    rfl
  have hmaps : (m.state.entries.map fun _ e => m.shown e) = m'.state.entries.map fun _ e => m'.shown e := by
    refine ext_getElem? fun id => ?_
    rw [getElem?_map, getElem?_map]
    exact (h.shown id).symm
  have heq : (m.snapshot display).sessions = (m'.snapshot display).sessions := by
    rw [hsessions, hsessions, hmaps]
  unfold snapshot at heq ⊢
  dsimp only at heq
  rw [heq, hgen, h.instance_, h.endpoint, h.selected]

end Runs

/-- **Snapshots are identified by their generation.** Of two `List` requests to one manager, at any two
points of any run in which the state changes less than `2 ^ 64` times: if the answers have one generation,
they are one snapshot. -/
theorem snapshots_identified (display : EndpointId → Bytes) (endpointId : EndpointId) (instance_ : SessionId)
    (endpoint : Bytes) (acts acts' : List Action) (m m₁ m₂ m₃ : Manager) (snap snap' : Snapshot)
    (hrun : machine.run acts (.new endpointId instance_ endpoint) = some m)
    (hlist : m.list display = (.ok snap, m₁))
    (hrun' : machine.run acts' m₁ = some m₂) (hlist' : m₂.list display = (.ok snap', m₃))
    (hfew : (Manager.new endpointId instance_ endpoint).totalTransitions
      (acts ++ .look :: acts' ++ [.look]) < 2 ^ 64)
    (hinstance : snap.instance_ = snap'.instance_) (hgeneration : snap.generation = snap'.generation) :
    snap = snap' := by
  obtain ⟨hlook, rfl⟩ := look_eq_of_list hlist
  obtain ⟨hlook', rfl⟩ := look_eq_of_list hlist'
  have hfirst : machine.run (acts ++ [.look]) (.new endpointId instance_ endpoint) = some m₁ :=
    Machine.run_snoc_eq_some.mpr ⟨m, hrun, congrArg some hlook⟩
  have hsecond : machine.run (acts' ++ [.look]) m₁ = some m₃ :=
    Machine.run_snoc_eq_some.mpr ⟨m₂, hrun', congrArg some hlook'⟩
  obtain ⟨hgen, -⟩ := run_transitions hfirst (Nat.zero_le _)
  obtain ⟨hgen', hview⟩ := run_transitions hsecond (by omega)
  have htotal := totalTransitions_append hfirst (acts' ++ [.look])
  have hacts : acts ++ [.look] ++ (acts' ++ [.look]) = acts ++ .look :: acts' ++ [.look] := by simp
  rw [hacts] at htotal
  have hzero : (new endpointId instance_ endpoint).state.generation = 0 := rfl
  have hlast : lastGeneration = 2 ^ 64 - 1 := rfl
  have hsame : m₁.state.generation = m₃.state.generation := hgeneration
  exact (hview (by omega)).snapshot_eq hsame display

theorem Manager.list_eq {display : EndpointId → Bytes} {m : Manager} (hpoisoned : m.poisoned = false)
    (hstopped : m.state.stopped = false) : m.list display = (.ok (m.prune.snapshot display), m.prune) := by
  unfold list locked
  rw [hpoisoned, hstopped]
  rfl

/-- A manager with one session, which is renewed. -/
def renewingManager : Manager :=
  let start := Manager.new ⟨.replicate 32 0, rfl⟩ ⟨.replicate 16 0, rfl⟩ []
  (machine.run renewingActs start).getD start

theorem snapshots_identified_renewing :
    ∃ m₁ m₂ m₃ : Manager, ∃ snap snap' : Snapshot, renewingManager.list Subtype.val = (.ok snap, m₁) ∧
      machine.run [.close 5, .look] m₁ = some m₂ ∧ m₂.list Subtype.val = (.ok snap', m₃) ∧
      snap.generation = 4 ∧ snap = snap' := by
  let m₁ := renewingManager.prune
  let m₂ := (machine.run [.close 5, .look] m₁).getD m₁
  have hrun : machine.run renewingActs (.new ⟨.replicate 32 0, rfl⟩ ⟨.replicate 16 0, rfl⟩ []) =
      some renewingManager :=
    Machine.run_eq_some_getD (by decide +kernel)
  have hlist : renewingManager.list Subtype.val = (.ok (m₁.snapshot Subtype.val), m₁) :=
    list_eq (by decide +kernel) (by decide +kernel)
  have hrun' : machine.run [.close 5, .look] m₁ = some m₂ := rfl
  have hlist' : m₂.list Subtype.val = (.ok (m₂.prune.snapshot Subtype.val), m₂.prune) :=
    list_eq (by decide +kernel) (by decide +kernel)
  refine ⟨m₁, m₂, m₂.prune, _, _, hlist, hrun', hlist', by decide +kernel, ?_⟩
  exact snapshots_identified _ _ _ _ _ _ _ _ _ _ _ _ hrun hlist hrun' hlist' (by decide +kernel)
    (by decide +kernel) (by decide +kernel)

end Rds.Local
