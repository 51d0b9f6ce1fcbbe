import Mathlib
import Rds.Framework.Machine
import Rds.Net.RelayPeers

/-!
# The tables of the relay server

The relay (`rds-relay/src/server.rs`) keeps two tables: `conns`, the connection attached for each
endpoint, and `recent`, for each destination the sources that sent to it. A connection task registers
itself, forwards datagrams and detaches; a second registration of an endpoint replaces the first. Two
mutexes protect the tables and `recent` is locked only while `conns` is. `drain` and `stop` set an atomic
flag that a registration reads while it holds the lock.

Each section under the lock is one action of a machine, and so is each step outside of a lock. The
section of a registration is two actions, for the flag can be set between its check and its insertion.
A datagram is sent after the lock is released.

`relay_tables` says what holds in every interleaving. Two things do not: a datagram that passed the check
may be sent after its connection was replaced, and a registration that passed the check may insert after
the flag is set (`relay_races`).
-/

namespace Rds.RelayServer

open Framework List Machine

/-- `EndpointId`. -/
abbrev EndpointId := Rds.Relay.EndpointId

/-- A connection and its `ConnSlot`: connections are compared by pointer. -/
abbrev Slot := ℕ

/-- `MAX_RECENT_PEERS`. -/
def maxRecentPeers : ℕ := 64

/-- A datagram on its way: the endpoint that sent it and its payload, as `encode_forward` frames them. -/
structure Datagram where
  source : EndpointId
  payload : Bytes
  deriving DecidableEq

/-- How far the task of a connection is. -/
inductive Phase where
  /-- before the registration -/
  | fresh
  /-- in the registration, holding the lock; the server was not draining -/
  | entering
  /-- in the forwarding loop -/
  | attached
  /-- between the lookup of a datagram's destination and its sending -/
  | sending (dst : Slot) (datagram : Datagram)
  /-- detached, with `PeerGone` to send -/
  | notifying (recipients : Finset Slot)
  | ended
  deriving DecidableEq

/-- `State`, with the phase of each task, the holder of the lock between two actions, and what was
written: each datagram with the connection it came from and the one it went to, and each `PeerGone` with
the connection that departed and those that were notified. -/
structure State where
  conns : Table EndpointId Slot := Table.empty
  recent : Table EndpointId (Finset EndpointId) := Table.empty
  draining : Bool := false
  snapshot : Option (List Slot) := none
  holder : Option Slot := none
  phase : Slot → Phase := fun _ => .fresh
  forwarded : List (Slot × Slot × Datagram) := []
  notices : List (Slot × Finset Slot) := []

/-- The actions. -/
inductive Action where
  /-- a registration takes the lock and reads the flag -/
  | enter (c : Slot)
  /-- a registration inserts its connection -/
  | attach (c : Slot)
  /-- a frame for a destination was read, and is looked up -/
  | lookup (c : Slot) (dst : EndpointId) (payload : Bytes)
  /-- the datagram is sent -/
  | send (c : Slot)
  /-- the connection ended: `detach` removes it -/
  | detach (c : Slot)
  /-- `detach` notifies -/
  | notify (c : Slot)
  /-- the task is dropped, at its end or cancelled -/
  | drop (c : Slot)
  /-- `drain`, or the first line of `stop`, sets the flag -/
  | setDraining
  /-- the runner takes the drain snapshot -/
  | takeSnapshot
  /-- the rest of `stop` -/
  | sweep
  deriving DecidableEq

section Server

variable (id : Slot → EndpointId)

/-- The connection is the one that is attached for its endpoint. -/
def State.Current (s : State) (c : Slot) : Prop := s.conns.get (id c) = some c

instance (s : State) (c : Slot) : Decidable (s.Current id c) :=
  inferInstanceAs (Decidable (_ = _))

/-- Move a task to another phase. -/
def State.move (s : State) (c : Slot) (p : Phase) : State :=
  { s with phase := Function.update s.phase c p }

/-- The history of a destination after a datagram for it. -/
def recordPeer (recent : Table EndpointId (Finset EndpointId)) (dst src : EndpointId) :
    Table EndpointId (Finset EndpointId) :=
  let peers := (recent.get dst).getD ∅
  recent.insert dst (if peers.card < maxRecentPeers then insert src peers else peers)

/-- The sections of `forward_loop` under the lock. -/
def lookupSection (s : State) (c : Slot) (dst : EndpointId) (payload : Bytes) : State :=
  if s.Current id c then
    match s.conns.get dst with
    | none => s
    | some d =>
      { s with recent := recordPeer s.recent dst (id c) }.move c (.sending d ⟨id c, payload⟩)
  else s

/-- The history without an endpoint. -/
def forget (recent : Table EndpointId (Finset EndpointId)) (k : EndpointId) :
    Table EndpointId (Finset EndpointId) :=
  ((recent.remove k).mapValues fun sources => sources.erase k).retain
    fun _ sources => sources.Nonempty

/-- `remove_registration`: the state after it, and the connections to notify. -/
def removeRegistration (s : State) (c : Slot) : State × Finset Slot :=
  if s.Current id c then
    let conns := s.conns.remove (id c)
    let peers := (s.recent.get (id c)).getD ∅
    ({ s with conns, recent := forget s.recent (id c) },
      peers.biUnion fun peer => (conns.get peer).toFinset)
  else (s, ∅)

/-- The task of a connection has registered, and has not ended. -/
def Phase.Registered : Phase → Prop
  | .fresh | .entering | .ended => False
  | _ => True

instance : DecidablePred Phase.Registered
  | .fresh => inferInstanceAs (Decidable False)
  | .entering => inferInstanceAs (Decidable False)
  | .attached => inferInstanceAs (Decidable True)
  | .sending _ _ => inferInstanceAs (Decidable True)
  | .notifying _ => inferInstanceAs (Decidable True)
  | .ended => inferInstanceAs (Decidable False)

/-- The relay server. An action is enabled when its task has come to it, and a section under the lock
when nobody holds the lock. -/
def server : Machine State Action where
  step
    | .enter c, s =>
      if s.phase c = .fresh ∧ s.holder = none then
        if s.draining then some (s.move c .ended)
        else some ({ s with holder := some c }.move c .entering)
      else none
    | .attach c, s =>
      if s.holder = some c then
        some ({ s with holder := none, conns := s.conns.insert (id c) c }.move c .attached)
      else none
    | .lookup c dst payload, s =>
      if s.phase c = .attached ∧ s.holder = none then some (lookupSection id s c dst payload)
      else none
    | .send c, s =>
      match s.phase c with
      | .sending d datagram =>
        some ({ s with forwarded := (c, d, datagram) :: s.forwarded }.move c .attached)
      | _ => none
    | .detach c, s =>
      if s.phase c = .attached ∧ s.holder = none then
        let r := removeRegistration id s c
        some (r.1.move c (.notifying r.2))
      else none
    | .notify c, s =>
      match s.phase c with
      | .notifying recipients =>
        some ({ s with notices := (c, recipients) :: s.notices }.move c (.notifying ∅))
      | _ => none
    | .drop c, s =>
      if (s.phase c).Registered ∧ s.holder = none then
        some ((removeRegistration id s c).1.move c .ended)
      else none
    | .setDraining, s => some { s with draining := true }
    | .takeSnapshot, s =>
      if s.draining ∧ s.holder = none then
        some { s with snapshot := some (s.conns.rows.map Prod.snd) }
      else none
    | .sweep, s =>
      if s.draining ∧ s.holder = none then
        some { s with conns := Table.empty, recent := Table.empty }
      else none

end Server

/-! ### What a step does -/

section Steps

variable {id : Slot → EndpointId} {s t : State} {a : Action} {c : Slot}

/-- The steps, each with its guard. A lookup that drops its datagram changes nothing. -/
inductive Taken (id : Slot → EndpointId) (s : State) : Action → State → Prop
  | refused (c : Slot) : s.phase c = .fresh → s.draining = true →
      Taken id s (.enter c) (s.move c .ended)
  | entered (c : Slot) : s.phase c = .fresh → s.holder = none → s.draining = false →
      Taken id s (.enter c) ({ s with holder := some c }.move c .entering)
  | attached (c : Slot) : s.holder = some c →
      Taken id s (.attach c)
        ({ s with holder := none, conns := s.conns.insert (id c) c }.move c .attached)
  | dropped (c : Slot) (dst : EndpointId) (payload : Bytes) : s.phase c = .attached →
      Taken id s (.lookup c dst payload) s
  | admitted (c d : Slot) (dst : EndpointId) (payload : Bytes) : s.phase c = .attached →
      s.Current id c → s.conns.get dst = some d →
      Taken id s (.lookup c dst payload)
        ({ s with recent := recordPeer s.recent dst (id c) }.move c (.sending d ⟨id c, payload⟩))
  | sent (c d : Slot) (datagram : Datagram) : s.phase c = .sending d datagram →
      Taken id s (.send c)
        ({ s with forwarded := (c, d, datagram) :: s.forwarded }.move c .attached)
  | detached (c : Slot) : s.phase c = .attached →
      Taken id s (.detach c)
        ((removeRegistration id s c).1.move c (.notifying (removeRegistration id s c).2))
  | notified (c : Slot) (recipients : Finset Slot) : s.phase c = .notifying recipients →
      Taken id s (.notify c)
        ({ s with notices := (c, recipients) :: s.notices }.move c (.notifying ∅))
  | ended (c : Slot) : (s.phase c).Registered →
      Taken id s (.drop c) ((removeRegistration id s c).1.move c .ended)
  | flagged : Taken id s .setDraining { s with draining := true }
  | snapped : s.draining = true → s.holder = none →
      Taken id s .takeSnapshot { s with snapshot := some (s.conns.rows.map Prod.snd) }
  | swept : s.draining = true → s.holder = none →
      Taken id s .sweep { s with conns := Table.empty, recent := Table.empty }

theorem taken_lookup {dst : EndpointId} {payload : Bytes} (hphase : s.phase c = .attached) :
    Taken id s (.lookup c dst payload) (lookupSection id s c dst payload) := by
  unfold lookupSection
  split
  · next hcur =>
    split
    · exact .dropped c dst payload hphase
    next d hd => exact .admitted c d dst payload hphase hcur hd
  · exact .dropped c dst payload hphase

/-- A step of the machine by cases, so that each invariant is proved once per case. -/
theorem taken_of_step (h : (server id).step a s = some t) : Taken id s a t := by
  cases a with
  | enter c =>
    obtain ⟨⟨hphase, hholder⟩, h⟩ := Option.ite_none_right_eq_some.mp h
    cases hdraining : s.draining with
    | true =>
      rw [hdraining] at h
      cases h
      exact .refused c hphase hdraining
    | false =>
      rw [hdraining] at h
      cases h
      exact hdraining ▸ .entered c hphase hholder hdraining
  | attach c => exact of_guard h (.attached c)
  | lookup c dst payload => exact of_guard h fun hp => taken_lookup hp.1
  | send c =>
    change (match s.phase c with
      | .sending d datagram =>
        some ({ s with forwarded := (c, d, datagram) :: s.forwarded }.move c .attached)
      | _ => none) = some t at h
    split at h
    · next d datagram hphase =>
      cases h
      exact .sent c d datagram hphase
    · cases h
  | detach c => exact of_guard h fun hp => .detached c hp.1
  | notify c =>
    change (match s.phase c with
      | .notifying recipients =>
        some ({ s with notices := (c, recipients) :: s.notices }.move c (.notifying ∅))
      | _ => none) = some t at h
    split at h
    · next recipients hphase =>
      cases h
      exact .notified c recipients hphase
    · cases h
  | drop c => exact of_guard h fun hp => .ended c hp.1
  | setDraining =>
    cases h
    exact .flagged
  | takeSnapshot => exact of_guard h fun hp => .snapped hp.1 hp.2
  | sweep => exact of_guard h fun hp => .swept hp.1 hp.2

variable {p : Phase}

@[simp] theorem move_conns : (s.move c p).conns = s.conns := rfl
@[simp] theorem move_recent : (s.move c p).recent = s.recent := rfl
@[simp] theorem move_draining : (s.move c p).draining = s.draining := rfl
@[simp] theorem move_holder : (s.move c p).holder = s.holder := rfl
theorem move_phase_self : (s.move c p).phase c = p := Function.update_self ..

theorem move_phase_of_ne {c' : Slot} (h : c' ≠ c) :
    (s.move c p).phase c' = s.phase c' := Function.update_of_ne h ..

theorem removeRegistration_frame (id : Slot → EndpointId) (s : State) (c : Slot) :
    (removeRegistration id s c).1.phase = s.phase ∧ (removeRegistration id s c).1.holder = s.holder ∧
      (removeRegistration id s c).1.draining = s.draining ∧
      (removeRegistration id s c).1.forwarded = s.forwarded ∧
      (removeRegistration id s c).1.notices = s.notices := by
  unfold removeRegistration
  split
  · exact ⟨rfl, rfl, rfl, rfl, rfl⟩
  · exact ⟨rfl, rfl, rfl, rfl, rfl⟩

theorem removeRegistration_of_stale (h : ¬ s.Current id c) :
    removeRegistration id s c = (s, ∅) := if_neg h

theorem removeRegistration_of_current (h : s.Current id c) :
    removeRegistration id s c = ({ s with conns := s.conns.remove (id c), recent := forget s.recent (id c) },
        ((s.recent.get (id c)).getD ∅).biUnion fun peer =>
          ((s.conns.remove (id c)).get peer).toFinset) := if_pos h

end Steps

/-! ### The tables -/

section Tables

variable {id : Slot → EndpointId} {s t : State} {a : Action}

/-- **Consistent tables.** Every endpoint in the history is attached, and no set of sources is empty or
too large. -/
def Consistent (conns : Table EndpointId Slot) (recent : Table EndpointId (Finset EndpointId)) :
    Prop :=
  ∀ k sources, recent.get k = some sources →
    (conns.get k).isSome ∧ sources.Nonempty ∧ sources.card ≤ maxRecentPeers ∧
      ∀ m ∈ sources, (conns.get m).isSome

variable {conns : Table EndpointId Slot} {recent : Table EndpointId (Finset EndpointId)}

theorem consistent_empty (conns : Table EndpointId Slot) : Consistent conns Table.empty := by
  intro k sources h
  cases h

theorem Consistent.insert (hc : Consistent conns recent) (k : EndpointId) (c : Slot) :
    Consistent (conns.insert k c) recent := by
  have hsome : ∀ k', (conns.get k').isSome → ((conns.insert k c).get k').isSome := by
    intro k' h
    rw [Table.get_insert]
    split
    · rfl
    · exact h
  intro k' sources h
  obtain ⟨hk, hne, hcard, hm⟩ := hc k' sources h
  exact ⟨hsome k' hk, hne, hcard, fun m hmem => hsome m (hm m hmem)⟩

theorem Consistent.record (hc : Consistent conns recent) {dst src : EndpointId}
    (hdst : (conns.get dst).isSome) (hsrc : (conns.get src).isSome) :
    Consistent conns (recordPeer recent dst src) := by
  intro k sources h
  unfold recordPeer at h
  rw [Table.get_insert] at h
  by_cases hk : k = dst
  · rw [if_pos hk] at h
    cases h
    subst hk
    -- what is known of the set so far, which may be new
    have hold : ((recent.get k).getD ∅).card ≤ maxRecentPeers ∧
        ∀ m ∈ (recent.get k).getD ∅, (conns.get m).isSome := by
      cases hget : recent.get k with
      | none => exact ⟨Nat.zero_le _, fun m hm => absurd hm (Finset.notMem_empty m)⟩
      | some old =>
        obtain ⟨-, -, hcard, hm⟩ := hc k old hget
        exact ⟨hcard, hm⟩
    split
    · next hlt =>
      refine ⟨hdst, Finset.insert_nonempty _ _, ?_, ?_⟩
      · exact le_trans (Finset.card_insert_le _ _) hlt
      intro m hm
      rcases Finset.mem_insert.mp hm with rfl | hm
      · exact hsrc
      · exact hold.2 m hm
    · next hfull =>
      refine ⟨hdst, ?_, hold.1, hold.2⟩
      rw [← Finset.card_pos]
      have hpos : 0 < maxRecentPeers := by decide
      omega
  · rw [if_neg hk] at h
    exact hc k sources h

theorem get_forget (recent : Table EndpointId (Finset EndpointId)) (k k' : EndpointId) :
    (forget recent k).get k' = if k' = k then none
      else ((recent.get k').map fun sources => sources.erase k).filter (·.Nonempty) := by
  unfold forget
  rw [Table.get_retain, Table.get_mapValues, Table.get_remove]
  split
  · rfl
  · rfl

theorem Consistent.forget (hc : Consistent conns recent) (k : EndpointId) :
    Consistent (conns.remove k) (forget recent k) := by
  intro k' sources h
  rw [get_forget] at h
  by_cases hk : k' = k
  · rw [if_pos hk] at h
    cases h
  rw [if_neg hk] at h
  obtain ⟨h, hne⟩ := Option.filter_eq_some_iff.mp h
  obtain ⟨old, hold, rfl⟩ := Option.map_eq_some_iff.mp h
  obtain ⟨hsome, -, hcard, hm⟩ := hc k' old hold
  refine ⟨?_, by simpa using hne, le_trans (Finset.card_erase_le) hcard, ?_⟩
  · rw [Table.get_remove, if_neg hk]
    exact hsome
  intro m hmem
  obtain ⟨hmk, hmold⟩ := Finset.mem_erase.mp hmem
  rw [Table.get_remove, if_neg hmk]
  exact hm m hmold

theorem Consistent.removeRegistration (hc : Consistent s.conns s.recent) (c : Slot) :
    Consistent (removeRegistration id s c).1.conns (removeRegistration id s c).1.recent := by
  by_cases hcur : s.Current id c
  · rw [removeRegistration_of_current hcur]
    exact hc.forget (id c)
  · rw [removeRegistration_of_stale hcur]
    exact hc

/-- **One step keeps the tables consistent.** -/
theorem Consistent.taken (hc : Consistent s.conns s.recent) (h : Taken id s a t) :
    Consistent t.conns t.recent := by
  cases h with
  | attached c => exact hc.insert (id c) c
  | admitted c d dst payload hphase hcur hd =>
    exact hc.record (hd ▸ rfl) (hcur ▸ rfl)
  | detached c | ended c => exact hc.removeRegistration c
  | swept => exact consistent_empty _
  | _ => exact hc

/-- **The tables of a run.** -/
theorem consistent_run {acts : List Action} (h : (server id).run acts {} = some s) :
    Consistent s.conns s.recent :=
  run_invariant (I := fun s => Consistent s.conns s.recent)
    (fun _ _ _ hc hstep => hc.taken (taken_of_step hstep)) (consistent_empty _) h

end Tables

/-! ### Stale connections -/

section Stale

variable {id : Slot → EndpointId} {s s₀ t : State} {a : Action} {c : Slot}

/-- The connection that holds the lock between two actions is in its registration. -/
def HolderEnters (s : State) : Prop := ∀ c, s.holder = some c → s.phase c = .entering

/-- Only a registration holds the lock from one action to the next. -/
theorem HolderEnters.taken (hi : HolderEnters s) (h : Taken id s a t) : HolderEnters t := by
  -- a step of a task that is in another phase leaves the holder where it is
  have hmove : ∀ (s' : State) (c : Slot) (p : Phase), s'.phase = s.phase → s'.holder = s.holder →
      s.phase c ≠ .entering → HolderEnters (s'.move c p) := by
    intro s' c p hphase hholder hne x hx
    have hx' := hi x (hholder ▸ hx)
    rw [move_phase_of_ne (by rintro rfl; exact hne hx'), hphase]
    exact hx'
  cases h with
  | refused c hphase => exact hmove s c _ rfl rfl (by rw [hphase]; simp)
  | entered c =>
    intro x hx
    cases hx
    exact move_phase_self
  | attached c =>
    intro x hx
    cases hx
  | dropped => exact hi
  | admitted c d dst payload hphase =>
    exact hmove { s with recent := _ } c _ rfl rfl (by rw [hphase]; simp)
  | sent c d datagram hphase =>
    exact hmove { s with forwarded := _ } c _ rfl rfl (by rw [hphase]; simp)
  | detached c hphase =>
    obtain ⟨hp, hh, -⟩ := removeRegistration_frame id s c
    exact hmove _ c _ hp hh (by rw [hphase]; simp)
  | notified c recipients hphase =>
    exact hmove { s with notices := _ } c _ rfl rfl (by rw [hphase]; simp)
  | ended c hphase =>
    obtain ⟨hp, hh, -⟩ := removeRegistration_frame id s c
    refine hmove _ c _ hp hh ?_
    intro heq
    rw [heq] at hphase
    exact hphase
  | flagged | snapped | swept => exact hi

/-- The connection has registered, but it is not the one attached for its endpoint: it was replaced or
removed. -/
def Stale (id : Slot → EndpointId) (s : State) (c : Slot) : Prop :=
  s.phase c ≠ .fresh ∧ s.phase c ≠ .entering ∧ ¬ s.Current id c

/-- The task that an action belongs to. -/
def Action.actor : Action → Option Slot
  | .enter c | .attach c | .lookup c _ _ | .send c | .detach c | .notify c | .drop c => some c
  | _ => none

/-- **A stale connection touches no table.** It adds no history and does not remove its successor. -/
theorem Stale.tables (hst : Stale id s c) (hi : HolderEnters s) (h : Taken id s a t)
    (hactor : a.actor = some c) : t.conns = s.conns ∧ t.recent = s.recent := by
  cases h with
  | attached x hholder =>
    cases hactor
    exact absurd (hi c hholder) hst.2.1
  | admitted x d dst payload hphase hcur hd =>
    cases hactor
    exact absurd hcur hst.2.2
  | detached x hphase | ended x hphase =>
    cases hactor
    rw [removeRegistration_of_stale hst.2.2]
    exact ⟨rfl, rfl⟩
  | swept => cases hactor
  | _ => exact ⟨rfl, rfl⟩

theorem current_of_taken (hi : HolderEnters s) (h : Taken id s a t) (hcur : t.Current id c)
    (hnew : s.phase c ≠ .entering) : s.Current id c := by
  have hremove : ∀ x, (removeRegistration id s x).1.Current id c → s.Current id c := by
    intro x hx
    by_cases hxcur : s.Current id x
    · rw [removeRegistration_of_current hxcur] at hx
      exact Table.get_of_get_remove hx
    · rw [removeRegistration_of_stale hxcur] at hx
      exact hx
  cases h with
  | attached x hholder =>
    rcases Table.get_insert_cases hcur with ⟨-, rfl⟩ | hcur
    · exact absurd (hi c hholder) hnew
    · exact hcur
  | detached x | ended x => exact hremove x hcur
  | swept => cases hcur
  | _ => exact hcur

theorem phase_of_taken (h : Taken id s a t) (hactor : a.actor ≠ some c) :
    t.phase c = s.phase c := by
  cases h with
  | dropped | flagged | snapped | swept => rfl
  | detached x | ended x =>
    rw [move_phase_of_ne (fun heq => hactor (congrArg some heq.symm)), (removeRegistration_frame id s x).1]
  | _ => exact move_phase_of_ne fun heq => hactor (congrArg some heq.symm)

theorem Stale.phase_taken (hst : Stale id s c) (h : Taken id s a t) :
    t.phase c ≠ .fresh ∧ t.phase c ≠ .entering := by
  by_cases hactor : a.actor = some c
  · cases h with
    | entered x hfresh =>
      cases hactor
      exact absurd hfresh hst.1
    | dropped | flagged | snapped | swept => exact ⟨hst.1, hst.2.1⟩
    | _ =>
      cases hactor
      rw [move_phase_self]
      exact ⟨by simp, by simp⟩
  · rw [phase_of_taken h hactor]
    exact ⟨hst.1, hst.2.1⟩

/-- **Stale for good.** -/
theorem Stale.taken (hst : Stale id s c) (hi : HolderEnters s) (h : Taken id s a t) :
    Stale id t c := by
  obtain ⟨hfresh, hentering⟩ := hst.phase_taken h
  exact ⟨hfresh, hentering, fun hcur => hst.2.2 (current_of_taken hi h hcur hst.2.1)⟩

/-- The datagrams that came from a connection. -/
def State.sentBy (s : State) (c : Slot) : List (Slot × Slot × Datagram) :=
  s.forwarded.filter fun x => x.1 = c

/-- The connections that were notified of the departure of a connection. -/
def State.noticesOf (s : State) (c : Slot) : List (Slot × Finset Slot) :=
  s.notices.filter fun x => x.1 = c ∧ x.2 ≠ ∅

/-- The task has looked up a datagram and not sent it yet. -/
def State.Sending (s : State) (c : Slot) (x : Slot × Datagram) : Prop := s.phase c = .sending x.1 x.2

/-- The task has somebody to notify. -/
def State.Notifying (s : State) (c : Slot) (r : Finset Slot) : Prop := s.phase c = .notifying r ∧ r ≠ ∅

/-- A log has grown by at most one line, for something that was pending before, and then nothing is
pending any more. -/
def Once {α β : Type} (line : α → β) (pending₀ pending : α → Prop) (log₀ log : List β) : Prop :=
  (log = log₀ ∧ ∀ x, pending x → pending₀ x) ∨ ∃ x, pending₀ x ∧ log = line x :: log₀ ∧ ∀ x, ¬ pending x

section Once

variable {α β : Type} {line : α → β} {pending₀ pending pending' : α → Prop} {log₀ log : List β}

theorem Once.quiet (h : Once line pending₀ pending log₀ log) (hp : ∀ x, pending' x → pending x) :
    Once line pending₀ pending' log₀ log := by
  rcases h with ⟨hlog, hold⟩ | ⟨x, hx, hlog, hnone⟩
  · exact .inl ⟨hlog, fun x hx => hold x (hp x hx)⟩
  · exact .inr ⟨x, hx, hlog, fun y hy => hnone y (hp y hy)⟩

theorem Once.write {x : α} (h : Once line pending₀ pending log₀ log) (hx : pending x)
    (hp : ∀ x, ¬ pending' x) : Once line pending₀ pending' log₀ (line x :: log) := by
  rcases h with ⟨rfl, hold⟩ | ⟨-, -, -, hnone⟩
  · exact .inr ⟨x, hold x hx, rfl, hp⟩
  · exact absurd hx (hnone x)

end Once

/-- **What a stale connection still does.** Since it became stale in `s₀` it has forwarded at most the
datagram that it had looked up before, and notified at most those whom it had collected before. -/
structure Spent (s₀ s : State) (c : Slot) : Prop where
  sent : Once (c, ·) (s₀.Sending c) (s.Sending c) (s₀.sentBy c) (s.sentBy c)
  notified : Once (c, ·) (s₀.Notifying c) (s.Notifying c) (s₀.noticesOf c) (s.noticesOf c)

theorem Spent.refl (s : State) (c : Slot) : Spent s s c :=
  ⟨.inl ⟨rfl, fun _ => id⟩, .inl ⟨rfl, fun _ => id⟩⟩

theorem Spent.quiet (hsp : Spent s₀ s c) (hsent : t.sentBy c = s.sentBy c)
    (hnotices : t.noticesOf c = s.noticesOf c) (hsending : ∀ x, t.Sending c x → s.Sending c x)
    (hnotifying : ∀ r, t.Notifying c r → s.Notifying c r) : Spent s₀ t c :=
  ⟨hsent ▸ hsp.sent.quiet hsending, hnotices ▸ hsp.notified.quiet hnotifying⟩

/-- A task that moves on to `p` has nothing to send or to notify. -/
theorem not_pending_move {p : Phase} (hp : p = .attached ∨ p = .notifying ∅ ∨ p = .ended) :
    (∀ x, ¬ (s.move c p).Sending c x) ∧ ∀ r, ¬ (s.move c p).Notifying c r := by
  unfold State.Sending State.Notifying
  rw [move_phase_self]
  rcases hp with rfl | rfl | rfl
  · simp
  · simp [eq_comm]
  · simp

theorem written_of_taken (h : Taken id s a t) (hactor : a.actor ≠ some c) :
    t.sentBy c = s.sentBy c ∧ t.noticesOf c = s.noticesOf c := by
  have hremove : ∀ x, (removeRegistration id s x).1.sentBy c = s.sentBy c ∧
      (removeRegistration id s x).1.noticesOf c = s.noticesOf c := by
    intro x
    obtain ⟨-, -, -, hforwarded, hnotices⟩ := removeRegistration_frame id s x
    exact ⟨congrArg (filter _) hforwarded, congrArg (filter _) hnotices⟩
  cases h with
  | sent x d g hphase =>
    have hne : x ≠ c := fun heq => hactor (congrArg some heq)
    exact ⟨filter_cons_of_neg (by simpa using hne), rfl⟩
  | notified x r hphase =>
    have hne : x ≠ c := fun heq => hactor (congrArg some heq)
    exact ⟨rfl, filter_cons_of_neg (by simp [hne])⟩
  | detached x | ended x => exact hremove x
  | _ => exact ⟨rfl, rfl⟩

theorem Spent.send (hsp : Spent s₀ s c) {d : Slot} {g : Datagram} (hphase : s.phase c = .sending d g) :
    Spent s₀ ({ s with forwarded := (c, d, g) :: s.forwarded }.move c .attached) c := by
  have hnow : ({ s with forwarded := (c, d, g) :: s.forwarded }.move c .attached).sentBy c
      = (c, d, g) :: s.sentBy c := filter_cons_of_pos (by simp)
  obtain ⟨hsending, hnotifying⟩ := not_pending_move (.inl rfl)
  exact ⟨hnow ▸ hsp.sent.write (x := (d, g)) hphase hsending,
    hsp.notified.quiet fun r hr => absurd hr (hnotifying r)⟩

theorem Spent.notify (hsp : Spent s₀ s c) {r : Finset Slot} (hphase : s.phase c = .notifying r) :
    Spent s₀ ({ s with notices := (c, r) :: s.notices }.move c (.notifying ∅)) c := by
  obtain ⟨hsending, hnotifying⟩ := not_pending_move (.inr (.inl rfl))
  refine ⟨hsp.sent.quiet fun x hx => absurd hx (hsending x), ?_⟩
  by_cases hr : r = ∅
  · have hsame : ({ s with notices := (c, r) :: s.notices }.move c (.notifying ∅)).noticesOf c
        = s.noticesOf c := filter_cons_of_neg (by simp [hr])
    exact hsame ▸ hsp.notified.quiet fun r hr => absurd hr (hnotifying r)
  · have hnow : ({ s with notices := (c, r) :: s.notices }.move c (.notifying ∅)).noticesOf c
        = (c, r) :: s.noticesOf c := filter_cons_of_pos (by simpa using hr)
    exact hnow ▸ hsp.notified.write ⟨hphase, hr⟩ hnotifying

/-- Its own steps use up what it had looked up and collected before. -/
theorem Spent.own (hsp : Spent s₀ s c) (hst : Stale id s c) (hi : HolderEnters s)
    (h : Taken id s a t) (hactor : a.actor = some c) : Spent s₀ t c := by
  cases h with
  | refused x hfresh | entered x hfresh =>
    cases hactor
    exact absurd hfresh hst.1
  | attached x hholder =>
    cases hactor
    exact absurd (hi c hholder) hst.2.1
  | admitted x d dst payload hphase hcur hd =>
    cases hactor
    exact absurd hcur hst.2.2
  | sent x d g hphase =>
    cases hactor
    exact hsp.send hphase
  | detached x hphase =>
    -- it finds another connection in its place, or none, and collects nobody
    cases hactor
    rw [removeRegistration_of_stale hst.2.2]
    obtain ⟨hsending, hnotifying⟩ := not_pending_move (.inr (.inl rfl))
    exact hsp.quiet rfl rfl (fun x hx => absurd hx (hsending x)) fun r hr => absurd hr (hnotifying r)
  | notified x r hphase =>
    cases hactor
    exact hsp.notify hphase
  | ended x hphase =>
    cases hactor
    rw [removeRegistration_of_stale hst.2.2]
    obtain ⟨hsending, hnotifying⟩ := not_pending_move (.inr (.inr rfl))
    exact hsp.quiet rfl rfl (fun x hx => absurd hx (hsending x)) fun r hr => absurd hr (hnotifying r)
  | dropped => exact hsp
  | flagged | snapped | swept => cases hactor

theorem Spent.taken (hsp : Spent s₀ s c) (hst : Stale id s c) (hi : HolderEnters s)
    (h : Taken id s a t) : Spent s₀ t c := by
  by_cases hactor : a.actor = some c
  · exact hsp.own hst hi h hactor
  · obtain ⟨hsent, hnotices⟩ := written_of_taken h hactor
    have hphase := phase_of_taken h hactor
    exact hsp.quiet hsent hnotices (fun _ hx => hphase.symm.trans hx) fun _ hr => ⟨hphase.symm.trans hr.1, hr.2⟩

theorem holderEnters_run {acts : List Action} (h : (server id).run acts {} = some s) :
    HolderEnters s := by
  refine run_invariant (fun _ _ _ hi hstep => hi.taken (taken_of_step hstep)) ?_ h
  intro c hc
  cases hc

/-- **Stale connections of a run.** -/
theorem Stale.run {acts : List Action} (hst : Stale id s c) (hi : HolderEnters s)
    (h : (server id).run acts s = some t) : Stale id t c ∧ Spent s t c := by
  have hinv := run_invariant
    (I := fun m => HolderEnters m ∧ Stale id m c ∧ Spent s m c)
    (fun a m m' ⟨hi, hst, hsp⟩ hstep =>
      ⟨hi.taken (taken_of_step hstep), hst.taken hi (taken_of_step hstep),
        hsp.taken hst hi (taken_of_step hstep)⟩)
    ⟨hi, hst, .refl s c⟩ h
  exact hinv.2

end Stale

/-! ### Draining, departures and lookups -/

section Runs

variable {id : Slot → EndpointId} {s t : State} {a : Action} {c : Slot}

theorem draining_of_taken (h : Taken id s a t) (hdraining : s.draining = true) :
    t.draining = true := by
  cases h with
  | detached x | ended x =>
    rw [move_draining, (removeRegistration_frame id s x).2.2.1]
    exact hdraining
  | flagged => rfl
  | _ => exact hdraining

theorem holder_of_taken (h : Taken id s a t) (hdraining : s.draining = true)
    (hholder : t.holder = some c) : s.holder = some c := by
  cases h with
  | entered x _ _ hopen =>
    rw [hdraining] at hopen
    cases hopen
  | attached => cases hholder
  | detached x | ended x =>
    rw [move_holder, (removeRegistration_frame id s x).2.1] at hholder
    exact hholder
  | _ => exact hholder

variable {acts : List Action}

/-- **Draining.** A connection that is attached after the flag is set held the lock when it was set. -/
theorem holder_of_attach (hdraining : s.draining = true)
    (h : (server id).run acts s = some t) (hc : Action.attach c ∈ acts) : s.holder = some c := by
  induction acts generalizing s with
  | nil => cases hc
  | cons a acts ih =>
    obtain ⟨m, hm, hrest⟩ := run_cons_eq_some.mp h
    have htaken := taken_of_step hm
    rcases mem_cons.mp hc with rfl | hc
    · cases htaken with
      | attached _ hholder => exact hholder
    · exact holder_of_taken htaken hdraining (ih (draining_of_taken htaken hdraining) hrest hc)

/-- **The snapshot.** Nothing is attached after the snapshot, or after the sweep. -/
theorem no_attach_of_closed (ha : a = .takeSnapshot ∨ a = .sweep)
    (h : (server id).run (a :: acts) s = some t) (c : Slot) : Action.attach c ∉ acts := by
  intro hc
  obtain ⟨m, hm, hrest⟩ := run_cons_eq_some.mp h
  have hclosed : m.draining = true ∧ m.holder = none := by
    rcases ha with rfl | rfl
    · cases taken_of_step hm with
      | snapped hdraining hholder => exact ⟨hdraining, hholder⟩
    · cases taken_of_step hm with
      | swept hdraining hholder => exact ⟨hdraining, hholder⟩
  have hholder := holder_of_attach hclosed.1 hrest hc
  rw [hclosed.2] at hholder
  cases hholder

/-- **A departure.** Those who are notified are the members of the departed endpoint's set who are still
attached. -/
theorem recipients_of_detach (h : (server id).step (.detach c) s = some t) :
    ∃ r, t.phase c = .notifying r ∧ ∀ d, d ∈ r ↔ s.Current id c ∧
      ∃ peers, s.recent.get (id c) = some peers ∧ ∃ m ∈ peers, t.conns.get m = some d := by
  cases taken_of_step h with
  | detached _ hphase =>
    refine ⟨_, move_phase_self, fun d => ?_⟩
    by_cases hcur : s.Current id c
    · rw [removeRegistration_of_current hcur]
      cases hpeers : s.recent.get (id c) with
      | none => simp
      | some peers => simp [hcur]
    · rw [removeRegistration_of_stale hcur]
      simp [hcur]

/-- The datagram was sent, or is about to be. -/
def State.Written (s : State) (c d : Slot) (g : Datagram) : Prop :=
  (c, d, g) ∈ s.forwarded ∨ s.phase c = .sending d g

theorem sending_of_taken (h : Taken id s a t) {d : Slot} {g : Datagram}
    (hphase : t.phase c = .sending d g) :
    s.phase c = .sending d g ∨ ∃ dst, a = .lookup c dst g.payload ∧ s.Current id c ∧
      s.conns.get dst = some d ∧ g.source = id c := by
  by_cases hactor : a.actor = some c
  · cases h with
    | admitted x d' dst payload _ hcur hd =>
      cases hactor
      rw [move_phase_self] at hphase
      cases hphase
      exact .inr ⟨dst, rfl, hcur, hd, rfl⟩
    | dropped | flagged | snapped | swept => exact .inl hphase
    | _ =>
      cases hactor
      rw [move_phase_self] at hphase
      cases hphase
  · rw [phase_of_taken h hactor] at hphase
    exact .inl hphase

theorem written_of_forwarded (h : Taken id s a t) {d : Slot} {g : Datagram}
    (hmem : (c, d, g) ∈ t.forwarded) : s.Written c d g := by
  cases h with
  | sent x d' g' hphase =>
    rcases mem_cons.mp hmem with heq | hmem
    · cases heq
      exact .inr hphase
    · exact .inl hmem
  | detached x | ended x => exact .inl ((removeRegistration_frame id s x).2.2.2.1 ▸ hmem)
  | _ => exact .inl hmem

/-- **Lookups.** A datagram that was sent or is about to be was looked up while its connection was
attached. -/
theorem lookup_of_written (h : (server id).run acts {} = some s) {d : Slot} {g : Datagram}
    (hwritten : s.Written c d g) :
    ∃ before dst after s₁, acts = before ++ .lookup c dst g.payload :: after ∧
      (server id).run before {} = some s₁ ∧ s₁.Current id c ∧ s₁.conns.get dst = some d ∧
      g.source = id c := by
  induction acts using reverseRecOn generalizing s with
  | nil =>
    cases h
    rcases hwritten with hmem | hphase
    · cases hmem
    · cases hphase
  | append_singleton acts a ih =>
    obtain ⟨m, hm, hstep⟩ := run_snoc_eq_some.mp h
    have htaken := taken_of_step hstep
    have hcases : m.Written c d g ∨ ∃ dst, a = .lookup c dst g.payload ∧ m.Current id c ∧
        m.conns.get dst = some d ∧ g.source = id c :=
      hwritten.elim (fun hmem => .inl (written_of_forwarded htaken hmem)) fun hphase =>
        (sending_of_taken htaken hphase).imp_left .inr
    rcases hcases with hold | ⟨dst, rfl, hcur, hd, hsrc⟩
    · obtain ⟨before, dst, after, s₁, rfl, hrest⟩ := ih hm hold
      exact ⟨before, dst, after ++ [a], s₁, by simp, hrest⟩
    · exact ⟨acts, dst, [], m, rfl, hm, hcur, hd, hsrc⟩

/-- **The relay's tables in every interleaving.** They are consistent. A connection that was replaced or
removed stays so and touches no table; it forwards at most the datagram that it had looked up before, and
notifies at most those whom it had collected before. A departure notifies exactly the members of the
departed endpoint's set who are still attached. Every datagram that was sent, or is about to be, was looked
up while its connection and its destination were attached. Once the flag is set, only a registration that holds the lock can still attach
its connection, and after the snapshot or the sweep none can. -/
theorem relay_tables (id : Slot → EndpointId) (acts : List Action) (s : State)
    (h : (server id).run acts {} = some s) :
    Consistent s.conns s.recent ∧
    (∀ c, Stale id s c → ∀ acts' t, (server id).run acts' s = some t → Stale id t c ∧ Spent s t c ∧
        ∀ a u, a.actor = some c → (server id).step a t = some u → u.conns = t.conns ∧ u.recent = t.recent) ∧
    (∀ c t, (server id).step (.detach c) s = some t →
      ∃ r, t.phase c = .notifying r ∧ ∀ d, d ∈ r ↔ s.Current id c ∧
        ∃ peers, s.recent.get (id c) = some peers ∧ ∃ m ∈ peers, t.conns.get m = some d) ∧
    (∀ c d g, (c, d, g) ∈ s.forwarded ∨ s.phase c = .sending d g →
      ∃ before dst after s₁, acts = before ++ .lookup c dst g.payload :: after ∧
        (server id).run before {} = some s₁ ∧ s₁.Current id c ∧ s₁.conns.get dst = some d ∧
        g.source = id c) ∧
    (∀ acts' t, s.draining = true → (server id).run acts' s = some t →
      ∀ c, Action.attach c ∈ acts' → s.holder = some c) ∧
    (∀ a acts' t, a = .takeSnapshot ∨ a = .sweep → (server id).run (a :: acts') s = some t →
      ∀ c, Action.attach c ∉ acts') := by
  have hi := holderEnters_run h
  refine ⟨consistent_run h, ?_, fun c t hstep => recipients_of_detach hstep,
    fun c d g hwritten => lookup_of_written h hwritten,
    fun acts' t hdraining hrun c hc => holder_of_attach hdraining hrun hc,
    fun a acts' t ha hrun c => no_attach_of_closed ha hrun c⟩
  intro c hst acts' t hrun
  obtain ⟨hstale, hspent⟩ := hst.run hi hrun
  have hit : HolderEnters t :=
    run_invariant (fun _ _ _ hi hstep => hi.taken (taken_of_step hstep)) hi hrun
  exact ⟨hstale, hspent, fun a u hactor hstep => hstale.tables hit (taken_of_step hstep) hactor⟩

end Runs

/-! ### Three connections of two endpoints -/

/-- Connections 0 and 2 are of one endpoint, connection 1 is of another. -/
def endpoints (c : Slot) : EndpointId :=
  if c = 1 then repeated 32 2 else repeated 32 1

/-- Connections 0 and 1 attach, a datagram from 0 to 1 is looked up, and connection 2 replaces 0. -/
def replacement : List Action :=
  [.enter 0, .attach 0, .enter 1, .attach 1, .lookup 0 (endpoints 1) [7], .enter 2, .attach 2]

/-- The state after `replacement`. -/
def replaced : State := ((server endpoints).run replacement {}).getD {}

theorem run_replacement : (server endpoints).run replacement {} = some replaced :=
  run_eq_some_getD (by decide +kernel)

theorem stale_replaced : Stale endpoints replaced 0 := by
  unfold Stale
  decide +kernel

theorem relay_tables_replaced :
    Consistent replaced.conns replaced.recent ∧ Stale endpoints replaced 0 ∧
      ∀ acts' t, (server endpoints).run acts' replaced = some t → Spent replaced t 0 := by
  have h := relay_tables endpoints replacement replaced run_replacement
  exact ⟨h.1, stale_replaced, fun acts' t hrun => (h.2.1 0 stale_replaced acts' t hrun).2.1⟩

/-- Connection 0 holds the lock when the server starts to drain. -/
def overtaken : State := ((server endpoints).run [.enter 0, .setDraining] {}).getD {}

/-- **Two races.** The connection that was replaced sends its datagram; and a connection is attached after
the flag is set that is gone when the snapshot is taken. -/
theorem relay_races :
    (Stale endpoints replaced 0 ∧ ((server endpoints).step (.send 0) replaced).map (·.sentBy 0)
        = some [(0, 1, ⟨endpoints 0, [7]⟩)] ∧ replaced.sentBy 0 = []) ∧
    (overtaken.draining = true ∧ overtaken.conns.get (endpoints 0) = none ∧
      ((server endpoints).run [.attach 0] overtaken).map (·.conns.get (endpoints 0)) = some (some 0) ∧
      ((server endpoints).run [.attach 0, .drop 0, .takeSnapshot] overtaken).map (·.snapshot)
        = some (some [])) := by
  refine ⟨⟨stale_replaced, ?_, ?_⟩, ?_, ?_, ?_, ?_⟩
  all_goals decide +kernel

end Rds.RelayServer
