import Mathlib
import Rds.Framework.Machine
import Rds.Framework.Table
import Rds.Net.Frame

/-!
# Routing of unidirectional streams

A service claims the streams of a kind and gets an inbox for them (`rds-net/src/uni.rs`). The first claim
on a connection starts a driver. It accepts streams and gives each to a route task, which reads the tag of
the stream, looks up the inbox of that kind and waits for room in it. An inbox is dropped in two steps: it
is closed first, then its route is removed if the route that stands there is of a closed inbox. The driver
ends with the connection; it joins its tasks and then clears the routes, and an inbox without a sender
ends.

Each section under the lock is one action of a machine. An inbox can be closed while a claim holds the
lock, so the action of a claim is told which closed inboxes its checks still saw open.

`uni_routing` is what holds in every interleaving, and says that after the connection is closed the
system's own steps run out and leave no inbox with a sender. An inbox that is dropped can remove the route
of a newer one which is closed itself (`dropInbox_closed`).
-/

namespace Rds.Uni

open Framework Postcard List Table Machine

/-- `QUEUE_DEPTH`. -/
def queueDepth : ℕ := 128

/-- `MAX_PENDING`. -/
def maxPending : ℕ := 64

/-- `MAX_ROUTES`. -/
def maxRoutes : ℕ := 32

/-- A channel: its inbox and its senders. -/
abbrev Chan := ℕ

/-- A stream that the peer opened. -/
abbrev StreamId := ℕ

/-- How far an inbox is. -/
inductive InboxPhase where
  /-- a claim that found the connection open and has not registered yet -/
  | pending
  /-- in the hands of its owner -/
  | held
  /-- being dropped: the receiver is closed -/
  | closing
  | gone
  deriving DecidableEq

/-- `UniStreams` and the queue of its channel. -/
structure Inbox where
  kind : UniHello
  phase : InboxPhase
  queue : List StreamId
  deriving DecidableEq

/-- How far a route task is. A task holds a sender from the lookup to its end. -/
inductive Task where
  | reading
  | tagged (kind : UniHello)
  | sending (kind : UniHello) (ch : Chan)
  | failed (kind : UniHello) (ch : Chan)
  | done
  deriving DecidableEq

/-- How far the driver is: there is none, it is about to look whether the connection is closed, it found
the connection open, it is joining its tasks, or it was aborted. -/
inductive Driver where
  | idle
  | running
  | polled
  | stopping
  | aborted
  deriving DecidableEq

/-- The demultiplexer of a connection. `delivered` is the history of the hand-overs. -/
structure State where
  closed : Bool := false
  facade : Bool := true
  owner : Bool := true
  routes : Table UniHello Chan := Table.empty
  driver : Driver := .idle
  inboxes : Table Chan Inbox := Table.empty
  tasks : Table StreamId Task := Table.empty
  accepted : List StreamId := []
  delivered : List (StreamId × Chan) := []

/-- The actions. -/
inductive Action where
  /-- `claim` looks whether the connection is closed -/
  | claim (ch : Chan) (kind : UniHello)
  /-- the section of `claim` under the lock; inboxes in `late` were closed during the section after
  the route of each was retained, and with `seen` also after the check of the claim's own kind -/
  | register (ch : Chan) (late : List Chan) (seen : Bool)
  /-- the drop of an inbox closes the receiver -/
  | closeInbox (ch : Chan)
  /-- the drop of an inbox looks at the routes -/
  | dropInbox (ch : Chan)
  | recv (ch : Chan)
  /-- the driver finds the connection open -/
  | poll
  /-- nothing is ready -/
  | park
  | accept (i : StreamId)
  | acceptError
  | join (i : StreamId)
  /-- the driver finds the connection closed -/
  | stop
  /-- a task is cancelled -/
  | abort (i : StreamId)
  /-- the driver has joined its tasks, and its `Lifetime` is dropped -/
  | finish
  | readTag (i : StreamId)
  | timeout (i : StreamId)
  | lookup (i : StreamId)
  | send (i : StreamId)
  | cleanup (i : StreamId)
  | closeConnection
  | dropFacade
  /-- the last owner of the `Demux` is gone -/
  | dropDemux
  deriving DecidableEq

section Model

-- the bytes of each stream
variable (content : StreamId → Bytes)

/-- The tag of a stream. -/
def tag (i : StreamId) : Option UniHello :=
  match readFrame uniHelloCodec (content i) with
  | .ok (kind, _) => some kind
  | .error _ => none

/-- `!tx.is_closed()`. -/
def State.isOpen (s : State) (ch : Chan) : Bool :=
  (s.inboxes.get ch).any fun ib => ib.phase = .pending ∨ ib.phase = .held

/-- Change the phase of an inbox. -/
def State.setInbox (s : State) (ch : Chan) (ib : Inbox) : State :=
  { s with inboxes := s.inboxes.insert ch ib }

/-- Change the phase of a task. -/
def State.setTask (s : State) (i : StreamId) (task : Task) : State :=
  { s with tasks := s.tasks.insert i task }

/-- The section of `claim` under the lock. -/
def registerSection (s : State) (ch : Chan) (ib : Inbox) (late : List Chan) (seen : Bool) : State :=
  let routes := s.routes.retain fun _ c => s.isOpen c || late.contains c
  let refused := { s with routes }.setInbox ch { ib with phase := .gone }
  if (routes.get ib.kind).any fun c => s.isOpen c || seen then refused
  else if routes.size ≥ maxRoutes then refused
  else
    let registered : State :=
      { s with
        routes := routes.insert ib.kind ch
        driver := if s.driver = .idle then .running else s.driver }
    registered.setInbox ch { ib with phase := .held }

/-- The section of `UniStreams::drop` under the lock: the route of a closed channel is removed. -/
def unroute (s : State) (kind : UniHello) : Table UniHello Chan :=
  if (s.routes.get kind).any fun c => !s.isOpen c then s.routes.remove kind else s.routes

/-- The section of `route` under the lock after a failed sending: the route goes if it is still of the
same channel. -/
def releaseRoute (routes : Table UniHello Chan) (kind : UniHello) (ch : Chan) : Table UniHello Chan :=
  if routes.get kind = some ch then routes.remove kind else routes

/-- `tx.send(stream)`: it waits while the inbox is full, and fails if it is closed. -/
def sendSection (s : State) (i : StreamId) (kind : UniHello) (ch : Chan) : Option State :=
  match s.inboxes.get ch with
  | none => some (s.setTask i (.failed kind ch))
  | some ib =>
    if !s.isOpen ch then some (s.setTask i (.failed kind ch))
    else if ib.queue.length < queueDepth then
      some ({ s with delivered := (i, ch) :: s.delivered }.setInbox ch
        { ib with queue := ib.queue ++ [i] } |>.setTask i .done)
    else none

/-- The routing of one connection. -/
def routing : Machine State Action where
  step
    | .claim ch kind, s =>
      if s.facade ∧ s.owner ∧ s.inboxes.get ch = none then
        some (s.setInbox ch ⟨kind, if s.closed then .held else .pending, []⟩)
      else none
    | .register ch late seen, s =>
      match s.inboxes.get ch with
      | some ib => if ib.phase = .pending then some (registerSection s ch ib late seen) else none
      | none => none
    | .closeInbox ch, s =>
      match s.inboxes.get ch with
      | some ib => if ib.phase = .held then some (s.setInbox ch { ib with phase := .closing }) else none
      | none => none
    | .dropInbox ch, s =>
      match s.inboxes.get ch with
      | some ib =>
        if ib.phase = .closing then
          some ({ s with routes := unroute s ib.kind }.setInbox ch ⟨ib.kind, .gone, []⟩)
        else none
      | none => none
    | .recv ch, s =>
      match s.inboxes.get ch with
      | some ib =>
        if ib.phase = .held ∧ ib.queue ≠ [] then
          some (s.setInbox ch { ib with queue := ib.queue.tail })
        else none
      | none => none
    | .poll, s =>
      if s.driver = .running ∧ s.closed = false then some { s with driver := .polled } else none
    | .park, s => if s.driver = .polled then some { s with driver := .running } else none
    | .accept i, s =>
      if s.driver = .polled ∧ s.tasks.size < maxPending ∧ s.tasks.get i = none ∧ i ∉ s.accepted then
        some ({ s with driver := .running, accepted := i :: s.accepted }.setTask i .reading)
      else none
    | .acceptError, s => if s.driver = .polled then some { s with driver := .stopping } else none
    | .join i, s =>
      if s.driver = .polled ∧ s.tasks.get i = some .done then
        some { s with driver := .running, tasks := s.tasks.remove i }
      else none
    | .stop, s =>
      if s.driver = .running ∧ s.closed = true then some { s with driver := .stopping } else none
    | .abort i, s =>
      if (s.driver = .stopping ∨ s.driver = .aborted) ∧ (s.tasks.get i).isSome then
        some { s with tasks := s.tasks.remove i }
      else none
    | .finish, s =>
      if s.driver = .stopping ∧ s.tasks.size = 0 then
        some { s with driver := .idle, routes := Table.empty }
      else none
    | .readTag i, s =>
      if s.tasks.get i = some .reading then
        some (s.setTask i (((tag content i).map Task.tagged).getD .done))
      else none
    | .timeout i, s =>
      if s.tasks.get i = some .reading then some (s.setTask i .done) else none
    | .lookup i, s =>
      match s.tasks.get i with
      | some (.tagged kind) =>
        some (s.setTask i (((s.routes.get kind).map (Task.sending kind)).getD .done))
      | _ => none
    | .send i, s =>
      match s.tasks.get i with
      | some (.sending kind ch) => sendSection s i kind ch
      | _ => none
    | .cleanup i, s =>
      match s.tasks.get i with
      | some (.failed kind ch) =>
        some ({ s with routes := releaseRoute s.routes kind ch }.setTask i .done)
      | _ => none
    | .closeConnection, s => some { s with closed := true }
    | .dropFacade, s => some { s with facade := false }
    | .dropDemux, s =>
      -- every inbox and every claim in progress owns the `Demux`
      if s.owner ∧ s.facade = false ∧ s.inboxes.rows.all (fun r => r.2.phase = .gone) then
        some { s with
          owner := false
          routes := Table.empty
          driver := if s.driver = .idle then .idle else .aborted }
      else none

end Model

/-! ### What a step does -/

section Steps

variable {content : StreamId → Bytes} {s t : State} {a : Action}

/-- The steps, each with its guard. -/
inductive Taken (content : StreamId → Bytes) (s : State) : Action → State → Prop
  | claimed (ch : Chan) (kind : UniHello) : s.facade = true → s.owner = true →
      s.inboxes.get ch = none →
      Taken content s (.claim ch kind)
        (s.setInbox ch ⟨kind, if s.closed then .held else .pending, []⟩)
  | refused (ch : Chan) (late : List Chan) (seen : Bool) (ib : Inbox) :
      s.inboxes.get ch = some ib → ib.phase = .pending →
      Taken content s (.register ch late seen)
        ({ s with routes := s.routes.retain fun _ c => s.isOpen c || late.contains c }.setInbox ch
          { ib with phase := .gone })
  | registered (ch : Chan) (late : List Chan) (seen : Bool) (ib : Inbox)
      (routes : Table UniHello Chan) :
      s.inboxes.get ch = some ib → ib.phase = .pending →
      routes = s.routes.retain (fun _ c => s.isOpen c || late.contains c) →
      (∀ c, routes.get ib.kind = some c → s.isOpen c = false) → routes.size < maxRoutes →
      Taken content s (.register ch late seen)
        (State.setInbox
          { s with
            routes := routes.insert ib.kind ch
            driver := if s.driver = .idle then .running else s.driver } ch
          { ib with phase := .held })
  | closedInbox (ch : Chan) (ib : Inbox) : s.inboxes.get ch = some ib → ib.phase = .held →
      Taken content s (.closeInbox ch) (s.setInbox ch { ib with phase := .closing })
  | droppedInbox (ch : Chan) (ib : Inbox) : s.inboxes.get ch = some ib → ib.phase = .closing →
      Taken content s (.dropInbox ch)
        ({ s with routes := unroute s ib.kind }.setInbox ch ⟨ib.kind, .gone, []⟩)
  | received (ch : Chan) (ib : Inbox) : s.inboxes.get ch = some ib → ib.phase = .held →
      Taken content s (.recv ch) (s.setInbox ch { ib with queue := ib.queue.tail })
  | polled : s.driver = .running → s.closed = false →
      Taken content s .poll { s with driver := .polled }
  | parked : s.driver = .polled → Taken content s .park { s with driver := .running }
  | accepted (i : StreamId) : s.driver = .polled → s.tasks.size < maxPending →
      s.tasks.get i = none → i ∉ s.accepted →
      Taken content s (.accept i)
        ({ s with driver := .running, accepted := i :: s.accepted }.setTask i .reading)
  | acceptFailed : s.driver = .polled →
      Taken content s .acceptError { s with driver := .stopping }
  | joined (i : StreamId) : s.driver = .polled → s.tasks.get i = some .done →
      Taken content s (.join i) { s with driver := .running, tasks := s.tasks.remove i }
  | stopped : s.driver = .running → s.closed = true →
      Taken content s .stop { s with driver := .stopping }
  | aborted (i : StreamId) (task : Task) : s.driver = .stopping ∨ s.driver = .aborted →
      s.tasks.get i = some task →
      Taken content s (.abort i) { s with tasks := s.tasks.remove i }
  | finished : s.driver = .stopping → s.tasks.size = 0 →
      Taken content s .finish { s with driver := .idle, routes := Table.empty }
  | read (i : StreamId) : s.tasks.get i = some .reading →
      Taken content s (.readTag i) (s.setTask i (((tag content i).map Task.tagged).getD .done))
  | expired (i : StreamId) : s.tasks.get i = some .reading →
      Taken content s (.timeout i) (s.setTask i .done)
  | looked (i : StreamId) (kind : UniHello) : s.tasks.get i = some (.tagged kind) →
      Taken content s (.lookup i)
        (s.setTask i (((s.routes.get kind).map (Task.sending kind)).getD .done))
  | failed (i : StreamId) (kind : UniHello) (ch : Chan) :
      s.tasks.get i = some (.sending kind ch) → s.isOpen ch = false →
      Taken content s (.send i) (s.setTask i (.failed kind ch))
  | delivered (i : StreamId) (kind : UniHello) (ch : Chan) (ib : Inbox) :
      s.tasks.get i = some (.sending kind ch) → s.inboxes.get ch = some ib → s.isOpen ch = true →
      Taken content s (.send i)
        (({ s with delivered := (i, ch) :: s.delivered }.setInbox ch
          { ib with queue := ib.queue ++ [i] }).setTask i .done)
  | cleaned (i : StreamId) (kind : UniHello) (ch : Chan) : s.tasks.get i = some (.failed kind ch) →
      Taken content s (.cleanup i)
        ({ s with routes := releaseRoute s.routes kind ch }.setTask i .done)
  | connectionClosed : Taken content s .closeConnection { s with closed := true }
  | facadeDropped : Taken content s .dropFacade { s with facade := false }
  | demuxDropped : s.owner = true → s.facade = false →
      (∀ ch ib, s.inboxes.get ch = some ib → ib.phase = .gone) →
      Taken content s .dropDemux
        { s with
          owner := false
          routes := Table.empty
          driver := if s.driver = .idle then .idle else .aborted }

variable {ch : Chan} {c : Chan} {old : Inbox} {routes : Table UniHello Chan} {kind k : UniHello}

theorem taken_register {ib : Inbox} {late : List Chan} {seen : Bool}
    (hib : s.inboxes.get ch = some ib) (hphase : ib.phase = .pending) :
    Taken content s (.register ch late seen) (registerSection s ch ib late seen) := by
  unfold registerSection
  dsimp only
  split
  · exact .refused ch late seen ib hib hphase
  next hkind =>
  split
  · exact .refused ch late seen ib hib hphase
  next hsize =>
  refine .registered ch late seen ib _ hib hphase rfl ?_ (Nat.lt_of_not_le hsize)
  intro c hc
  rw [hc, Option.any_some, Bool.or_eq_true, not_or] at hkind
  exact Bool.eq_false_of_not_eq_true hkind.1

theorem taken_send {i : StreamId} {kind : UniHello}
    (htask : s.tasks.get i = some (.sending kind ch)) (h : sendSection s i kind ch = some t) :
    Taken content s (.send i) t := by
  unfold sendSection at h
  split at h
  · next hnone =>
    cases h
    refine .failed i kind ch htask ?_
    unfold State.isOpen
    rw [hnone]
    rfl
  next ib hib =>
  split at h
  · next hclosed =>
    cases h
    exact .failed i kind ch htask (by simpa using hclosed)
  next hopen =>
  split at h
  · cases h
    exact .delivered i kind ch ib htask hib (by simpa using hopen)
  · cases h

theorem exists_of_match {f : Inbox → Option State} (h : (match s.inboxes.get ch with
      | some ib => f ib
      | none => none) = some t) : ∃ ib, s.inboxes.get ch = some ib ∧ f ib = some t := by
  split at h
  next ib hib => exact ⟨ib, hib, h⟩
  · cases h

/-- A step of the machine by cases. -/
theorem taken_of_step (h : (routing content).step a s = some t) : Taken content s a t := by
  cases a with
  | claim ch kind =>
    exact of_guard h fun hp => .claimed ch kind hp.1 hp.2.1 hp.2.2
  | register ch late seen =>
    obtain ⟨ib, hib, h⟩ := exists_of_match h
    exact of_guard h fun hphase => taken_register hib hphase
  | closeInbox ch =>
    obtain ⟨ib, hib, h⟩ := exists_of_match h
    exact of_guard h fun hphase => .closedInbox ch ib hib hphase
  | dropInbox ch =>
    obtain ⟨ib, hib, h⟩ := exists_of_match h
    exact of_guard h fun hphase => .droppedInbox ch ib hib hphase
  | recv ch =>
    obtain ⟨ib, hib, h⟩ := exists_of_match h
    exact of_guard h fun hp => .received ch ib hib hp.1
  | poll => exact of_guard h fun hp => .polled hp.1 hp.2
  | park => exact of_guard h .parked
  | accept i =>
    exact of_guard h fun hp => .accepted i hp.1 hp.2.1 hp.2.2.1 hp.2.2.2
  | acceptError => exact of_guard h .acceptFailed
  | join i => exact of_guard h fun hp => .joined i hp.1 hp.2
  | stop => exact of_guard h fun hp => .stopped hp.1 hp.2
  | abort i =>
    refine of_guard h fun hp => ?_
    obtain ⟨task, htask⟩ := Option.isSome_iff_exists.mp hp.2
    exact .aborted i task hp.1 htask
  | finish => exact of_guard h fun hp => .finished hp.1 hp.2
  | readTag i => exact of_guard h (.read i)
  | timeout i => exact of_guard h (.expired i)
  | lookup i =>
    simp only [routing] at h
    split at h
    · next kind htask =>
      cases h
      exact .looked i kind htask
    · cases h
  | send i =>
    simp only [routing] at h
    split at h
    next kind ch htask => exact taken_send htask h
    · cases h
  | cleanup i =>
    simp only [routing] at h
    split at h
    · next kind ch htask =>
      cases h
      exact .cleaned i kind ch htask
    · cases h
  | closeConnection =>
    cases h
    exact .connectionClosed
  | dropFacade =>
    cases h
    exact .facadeDropped
  | dropDemux =>
    refine of_guard h fun hp => .demuxDropped hp.1 hp.2.1 ?_
    intro ch ib hib
    have hrow := all_eq_true.mp hp.2.2 _ (get_eq_some_iff.mp hib)
    simpa using hrow

/-! ### Inboxes, routes and tasks along a step -/

/-- The channel has not been closed. -/
def Inbox.Open (ib : Inbox) : Prop := ib.phase = .pending ∨ ib.phase = .held

theorem isOpen_iff : s.isOpen ch = true ↔ ∃ ib, s.inboxes.get ch = some ib ∧ ib.Open := by
  unfold State.isOpen Inbox.Open
  rw [Option.any_eq_true]
  simp only [decide_eq_true_eq]

/-- What may become of an inbox: it keeps its kind, it is not pending again, and it is not opened
again. -/
def Inbox.Later (ib ib' : Inbox) : Prop :=
  ib'.kind = ib.kind ∧ (ib'.phase = .pending → ib.phase = .pending) ∧ (ib'.Open → ib.Open)

theorem Inbox.Later.refl (ib : Inbox) : ib.Later ib := ⟨rfl, id, id⟩

theorem Inbox.Later.hold {ib : Inbox} (h : ib.Open) (q : List StreamId) :
    ib.Later ⟨ib.kind, .held, q⟩ :=
  ⟨rfl, nofun, fun _ => h⟩

theorem Inbox.Later.shut (ib : Inbox) {p : InboxPhase} (q : List StreamId)
    (hp : p = .closing ∨ p = .gone) : ib.Later ⟨ib.kind, p, q⟩ := by
  refine ⟨rfl, ?_, ?_⟩
  · intro h
    rcases hp with rfl | rfl <;> cases h
  · intro h
    rcases hp with rfl | rfl <;> rcases h with h | h <;> cases h

theorem later_of_get {ib ib' : Inbox} (hlater : ib.Later ib')
    (hib : s.inboxes.get ch = some ib) (hold : s.inboxes.get c = some old) :
    ∃ new, (s.inboxes.insert ch ib').get c = some new ∧ old.Later new := by
  rw [get_insert]
  by_cases hc : c = ch
  · subst hc
    cases hib.symm.trans hold
    exact ⟨ib', if_pos rfl, hlater⟩
  · exact ⟨old, by rw [if_neg hc, hold], .refl old⟩

/-- **Inboxes along a step.** -/
theorem inbox_taken (h : Taken content s a t)
    (hold : s.inboxes.get c = some old) : ∃ new, t.inboxes.get c = some new ∧ old.Later new := by
  cases h with
  | claimed ch kind _ _ hnone =>
    refine ⟨old, ?_, .refl old⟩
    change (s.inboxes.insert ch _).get c = some old
    rw [get_insert, if_neg]
    · exact hold
    · rintro rfl
      cases hnone.symm.trans hold
  | refused ch late seen ib hib => exact later_of_get (.shut ib ib.queue (.inr rfl)) hib hold
  | registered ch late seen ib routes hib hphase =>
    exact later_of_get (.hold (.inl hphase) ib.queue) hib hold
  | closedInbox ch ib hib => exact later_of_get (.shut ib ib.queue (.inl rfl)) hib hold
  | droppedInbox ch ib hib => exact later_of_get (.shut ib [] (.inr rfl)) hib hold
  | received ch ib hib =>
    have hlater : ib.Later { ib with queue := ib.queue.tail } := ⟨rfl, id, id⟩
    exact later_of_get hlater hib hold
  | delivered i kind ch ib _ hib =>
    have hlater : ib.Later { ib with queue := ib.queue ++ [i] } := ⟨rfl, id, id⟩
    exact later_of_get hlater hib hold
  | _ => exact ⟨old, hold, .refl old⟩

theorem isOpen_of_taken (h : Taken content s a t)
    (hold : s.inboxes.get c = some old) (hopen : t.isOpen c = true) : s.isOpen c = true := by
  obtain ⟨new, hnew, -, -, hlater⟩ := inbox_taken h hold
  obtain ⟨ib, hib, hib'⟩ := isOpen_iff.mp hopen
  cases hnew.symm.trans hib
  exact isOpen_iff.mpr ⟨old, hold, hlater hib'⟩

/-- What `unroute` and `releaseRoute` do: a route goes if it is of a certain channel. -/
theorem get_of_released {p : Prop} [Decidable p]
    (h : (if p then routes.remove kind else routes).get k = some c) : routes.get k = some c := by
  split at h
  · exact get_of_get_remove h
  · exact h

theorem size_released_le {p : Prop} [Decidable p] {kind : UniHello} :
    (if p then routes.remove kind else routes).size ≤ routes.size := by
  split
  · exact size_retain_le _
  · exact le_rfl

theorem get_unroute (hroute : s.routes.get k = some c)
    (hopen : s.isOpen c = true) : (unroute s kind).get k = some c := by
  unfold unroute
  split
  · next hany =>
    rw [get_remove, if_neg]
    · exact hroute
    · rintro rfl
      rw [hroute, Option.any_some, hopen] at hany
      cases hany
  · exact hroute

theorem get_releaseRoute {ch c : Chan} (hroute : routes.get k = some c) (hne : ¬ (k = kind ∧ c = ch)) :
    (releaseRoute routes kind ch).get k = some c := by
  unfold releaseRoute
  split
  · next hsame =>
    rw [get_remove, if_neg]
    · exact hroute
    · rintro rfl
      exact hne ⟨rfl, Option.some.inj (hroute.symm.trans hsame)⟩
  · exact hroute

/-- **New routes.** Only a claim adds one, for its own inbox. -/
theorem route_of_taken (h : Taken content s a t) {k : UniHello} (hroute : t.routes.get k = some c) :
    s.routes.get k = some c ∨ ∃ ib, s.inboxes.get c = some ib ∧ ib.kind = k ∧ ib.phase = .pending ∧
        t.inboxes.get c = some { ib with phase := .held } ∧ t.driver ≠ .idle := by
  have hretain : ∀ late : List Chan,
      (s.routes.retain fun _ c => s.isOpen c || late.contains c).get k = some c →
      s.routes.get k = some c := by
    intro late hget
    rw [get_retain] at hget
    exact (Option.filter_eq_some_iff.mp hget).1
  cases h with
  | refused ch late seen ib => exact .inl (hretain late hroute)
  | registered ch late seen ib routes hib hphase hroutes =>
    change (routes.insert ib.kind ch).get k = some c at hroute
    rw [get_insert] at hroute
    split at hroute
    · next hk =>
      cases hroute
      refine .inr ⟨ib, hib, hk.symm, hphase, ?_, ?_⟩
      · change (s.inboxes.insert c { ib with phase := .held }).get c = _
        rw [get_insert, if_pos rfl]
      change (if s.driver = .idle then Driver.running else s.driver) ≠ .idle
      split
      · simp
      next hdriver => exact hdriver
    · rw [hroutes] at hroute
      exact .inl (hretain late hroute)
  | droppedInbox | cleaned => exact .inl (get_of_released hroute)
  | finished | demuxDropped => cases hroute
  | _ => exact .inl hroute

/-- **Kept routes.** A route goes only with its channel closed, or with the driver. -/
theorem route_kept (h : Taken content s a t) {k : UniHello}
    (hold : s.inboxes.get c = some old) (hkind : old.kind = k)
    (hfailed : ∀ i ch, s.tasks.get i = some (.failed k ch) → s.isOpen ch = false)
    (hroute : s.routes.get k = some c) (hopen : t.isOpen c = true) :
    t.routes.get k = some c ∨ a = .finish := by
  have hwas := isOpen_of_taken h hold hopen
  have hretain : ∀ late : List Chan,
      (s.routes.retain fun _ c => s.isOpen c || late.contains c).get k = some c := by
    intro late
    rw [get_retain, hroute]
    exact Option.filter_some_pos (by rw [hwas]; rfl)
  cases h with
  | refused ch late seen ib => exact .inl (hretain late)
  | registered ch late seen ib routes hib _ hroutes hclosed =>
    refine .inl ?_
    change (routes.insert ib.kind ch).get k = some c
    rw [get_insert, if_neg]
    · rw [hroutes]
      exact hretain late
    -- a claim of a kind that is taken is refused
    rintro rfl
    cases (hclosed c (hroutes ▸ hretain late)).symm.trans hwas
  | droppedInbox => exact .inl (get_unroute hroute hwas)
  | cleaned i kind ch htask =>
    refine .inl (get_releaseRoute hroute ?_)
    rintro ⟨rfl, rfl⟩
    cases (hfailed i c htask).symm.trans hwas
  | finished => exact .inr rfl
  | demuxDropped _ _ hgone =>
    obtain ⟨ib, hib, hp | hp⟩ := isOpen_iff.mp hopen <;> cases (hgone c ib hib).symm.trans hp
  | _ => exact .inl hroute

theorem get_setTask {i j : StreamId} {task : Task} :
    (s.setTask i task).tasks.get j = if j = i then some task else s.tasks.get j :=
  get_insert

theorem of_get_setTask {i j : StreamId} {new task : Task} (h : (s.setTask j new).tasks.get i = some task) :
    s.tasks.get i = some task ∨ (i = j ∧ new = task) := by
  rw [get_setTask] at h
  split at h
  next hij => exact .inr ⟨hij, Option.some.inj h⟩
  · exact .inl h

/-- Where the phase of a task comes from. -/
inductive CameFrom (content : StreamId → Bytes) (s : State) (a : Action) (i : StreamId) : Task → Prop
  | kept {task : Task} (hold : s.tasks.get i = some task) : CameFrom content s a i task
  | accepted (hact : a = .accept i) : CameFrom content s a i .reading
  | done {old : Task} (hold : s.tasks.get i = some old) : CameFrom content s a i .done
  | tagged {k : UniHello} (hold : s.tasks.get i = some .reading) (htag : tag content i = some k) :
      CameFrom content s a i (.tagged k)
  | looked {k : UniHello} {ch : Chan} (hold : s.tasks.get i = some (.tagged k)) (hact : a = .lookup i)
      (hroute : s.routes.get k = some ch) : CameFrom content s a i (.sending k ch)
  | failed {k : UniHello} {ch : Chan} (hold : s.tasks.get i = some (.sending k ch))
      (hclosed : s.isOpen ch = false) : CameFrom content s a i (.failed k ch)

/-- **Tasks along a step.** -/
theorem task_of_taken (h : Taken content s a t) {i : StreamId} {task : Task}
    (htask : t.tasks.get i = some task) : CameFrom content s a i task := by
  cases h with
  | accepted j =>
    rcases of_get_setTask htask with hold | ⟨rfl, rfl⟩
    · exact .kept hold
    · exact .accepted rfl
  | joined j | aborted j => exact .kept (get_of_get_remove htask)
  | read j hj =>
    rcases of_get_setTask htask with hold | ⟨rfl, rfl⟩
    · exact .kept hold
    · cases htag : tag content i with
      | none => exact .done hj
      | some k => exact .tagged hj htag
  | looked j kind hj =>
    rcases of_get_setTask htask with hold | ⟨rfl, rfl⟩
    · exact .kept hold
    · cases hroute : s.routes.get kind with
      | none => exact .done hj
      | some ch => exact .looked hj rfl hroute
  | failed j kind ch hj hclosed =>
    rcases of_get_setTask htask with hold | ⟨rfl, rfl⟩
    · exact .kept hold
    · exact .failed hj hclosed
  | expired j hj | delivered j kind ch ib hj | cleaned j kind ch hj =>
    rcases of_get_setTask htask with hold | ⟨rfl, rfl⟩
    · exact .kept hold
    · exact .done hj
  | _ => exact .kept htask

end Steps

/-! ### The invariant -/

section Invariant

variable {content : StreamId → Bytes} {s t : State} {a : Action}

/-- A task holds a sender of the channel. -/
def Holds (task : Task) (k : UniHello) (ch : Chan) : Prop :=
  task = .sending k ch ∨ task = .failed k ch

/-- The channel has an inbox of the kind. -/
def State.Known (s : State) (k : UniHello) (ch : Chan) : Prop :=
  ∃ ib, s.inboxes.get ch = some ib ∧ ib.kind = k

/-- **The invariant.** Routes lead to inboxes of their kind; a task holds a sender of an inbox of its
stream's tag, which is registered while it is open; without a driver there are no routes and no tasks. -/
structure Inv (content : StreamId → Bytes) (s : State) : Prop where
  known : ∀ k ch, s.routes.get k = some ch → s.Known k ch
  routes_le : s.routes.size ≤ maxRoutes
  tasks_le : s.tasks.size ≤ maxPending
  tagged : ∀ i k, s.tasks.get i = some (.tagged k) → tag content i = some k
  holds : ∀ i task k ch, s.tasks.get i = some task → Holds task k ch →
    tag content i = some k ∧ s.Known k ch ∧ (s.isOpen ch = true → s.routes.get k = some ch)
  failed : ∀ i k ch, s.tasks.get i = some (.failed k ch) → s.isOpen ch = false
  idle : s.driver = .idle → (∀ k, s.routes.get k = none) ∧ s.tasks.size = 0
  aborted : s.driver = .aborted → s.owner = false
  orphaned : s.owner = false → (∀ k, s.routes.get k = none) ∧
    ∀ ch ib, s.inboxes.get ch = some ib → ib.phase = .gone
  accepted : ∀ i task, s.tasks.get i = some task → i ∈ s.accepted
  once : (s.delivered.map Prod.fst).Nodup
  handed : ∀ i ch, (i, ch) ∈ s.delivered → i ∈ s.accepted ∧
    (s.tasks.get i = none ∨ s.tasks.get i = some .done)

theorem inv_start : Inv content {} where
  known _ _ h := nomatch h
  routes_le := Nat.zero_le _
  tasks_le := Nat.zero_le _
  tagged _ _ h := nomatch h
  holds _ _ _ _ h := nomatch h
  failed _ _ _ h := nomatch h
  idle _ := ⟨fun _ => rfl, rfl⟩
  aborted h := nomatch h
  orphaned h := nomatch h
  accepted _ _ h := nomatch h
  once := List.nodup_nil
  handed _ _ h := nomatch h

section

variable (h : Taken content s a t)
include h

theorem State.Known.taken {k : UniHello} {ch : Chan} (hk : s.Known k ch) :
    t.Known k ch := by
  obtain ⟨ib, hib, hkind⟩ := hk
  obtain ⟨new, hnew, hlater⟩ := inbox_taken h hib
  exact ⟨new, hnew, by rw [hlater.1, hkind]⟩

theorem Inv.known_taken (hi : Inv content s) :
    ∀ k ch, t.routes.get k = some ch → t.Known k ch := by
  intro k ch hroute
  rcases route_of_taken h hroute with hold | ⟨ib, -, hkind, -, hnew, -⟩
  · exact (hi.known k ch hold).taken h
  · exact ⟨_, hnew, hkind⟩

theorem Inv.routes_taken (hi : Inv content s) :
    t.routes.size ≤ maxRoutes := by
  cases h with
  | refused => exact le_trans (size_retain_le _) hi.routes_le
  | registered ch late seen ib routes _ _ _ _ hroom =>
    have hle : (routes.insert ib.kind ch).size ≤ routes.size + 1 := Nat.succ_le_succ (size_retain_le _)
    exact le_trans hle hroom
  | droppedInbox | cleaned => exact le_trans size_released_le hi.routes_le
  | finished | demuxDropped => exact Nat.zero_le _
  | _ => exact hi.routes_le

theorem size_tasks_taken :
    t.tasks.size ≤ s.tasks.size ∨
      s.tasks.size < maxPending ∧ s.driver = .polled ∧ t.tasks.size = s.tasks.size + 1 := by
  have hset : ∀ (i : StreamId) (old task : Task), s.tasks.get i = some old →
      (s.tasks.insert i task).size ≤ s.tasks.size := by
    intro i old task hold
    rw [size_insert_of_get hold]
  cases h with
  | accepted i hdriver hsize hnone =>
    refine .inr ⟨hsize, hdriver, ?_⟩
    show (s.tasks.insert i .reading).size = _
    rw [size_insert, size_remove_of_none hnone]
  | joined | aborted => exact .inl (size_retain_le _)
  | read i hi | expired i hi | looked i kind hi | failed i kind ch hi
  | delivered i kind ch ib hi | cleaned i kind ch hi => exact .inl (hset i _ _ hi)
  | _ => exact .inl (le_refl _)

theorem idle_of_taken (hidle : t.driver = .idle) :
    a = .finish ∨ s.driver = .idle := by
  cases h with
  | finished => exact .inl rfl
  | registered ch late seen ib routes =>
    split at hidle
    · cases hidle
    next hne => exact absurd hidle hne
  | demuxDropped =>
    split at hidle
    next heq => exact .inr heq
    · cases hidle
  | polled | parked | accepted | acceptFailed | joined | stopped => cases hidle
  | _ => exact .inr hidle

theorem Inv.idle_taken (hi : Inv content s) (hidle : t.driver = .idle) :
    (∀ k, t.routes.get k = none) ∧ t.tasks.size = 0 := by
  rcases idle_of_taken h hidle with rfl | hwas
  · cases h with
    | finished hdriver hsize => exact ⟨fun _ => rfl, hsize⟩
  obtain ⟨hroutes, htasks⟩ := hi.idle hwas
  refine ⟨fun k => ?_, ?_⟩
  · cases hroute : t.routes.get k with
    | none => rfl
    | some ch =>
      rcases route_of_taken h hroute with hold | ⟨_, _, _, _, _, hbusy⟩
      · cases (hroutes k).symm.trans hold
      · exact absurd hidle hbusy
  · rcases size_tasks_taken h with hle | ⟨-, hpolled, -⟩
    · omega
    · cases hwas.symm.trans hpolled

theorem Inv.aborted_taken (hi : Inv content s) (haborted : t.driver = .aborted) : t.owner = false := by
  cases h with
  | registered ch late seen ib routes =>
    split at haborted
    · cases haborted
    · exact hi.aborted haborted
  | demuxDropped => rfl
  | finished | polled | parked | accepted | acceptFailed | joined | stopped => cases haborted
  | _ => exact hi.aborted haborted

/-- Once the owner is dropped, every route and inbox is gone. -/
theorem Inv.orphaned_taken (hi : Inv content s) (howner : t.owner = false) : (∀ k, t.routes.get k = none) ∧
      ∀ ch ib, t.inboxes.get ch = some ib → ib.phase = .gone := by
  -- an inbox in another phase has an owner
  have hgone : ∀ ch ib, s.owner = false → s.inboxes.get ch = some ib → ib.phase ≠ .gone → False := by
    intro ch ib hnone hib hphase
    exact hphase ((hi.orphaned hnone).2 ch ib hib)
  cases h with
  | claimed ch kind _ hthere =>
    cases hthere.symm.trans howner
  | refused ch late seen ib hib hphase | registered ch late seen ib routes hib hphase
  | closedInbox ch ib hib hphase | droppedInbox ch ib hib hphase
  | received ch ib hib hphase =>
    exact (hgone ch ib howner hib (by rw [hphase]; simp)).elim
  | delivered i kind ch ib htask hib hopen =>
    obtain ⟨ib', hib', hopen⟩ := isOpen_iff.mp hopen
    exact (hgone ch ib' howner hib' (by rcases hopen with hp | hp <;> simp [hp])).elim
  | cleaned i kind ch =>
    obtain ⟨hroutes, hall⟩ := hi.orphaned howner
    refine ⟨fun k => ?_, hall⟩
    cases hroute : (releaseRoute s.routes kind ch).get k with
    | none => exact hroute
    | some c => cases (hroutes k).symm.trans (get_of_released hroute)
  | finished => exact ⟨fun _ => rfl, (hi.orphaned howner).2⟩
  | demuxDropped _ _ hall => exact ⟨fun _ => rfl, hall⟩
  | _ => exact hi.orphaned howner

theorem accepted_taken :
    s.accepted ⊆ t.accepted ∧ ∀ i, a = .accept i → i ∉ s.accepted ∧ i ∈ t.accepted := by
  cases h with
  | accepted i _ _ _ hnew =>
    refine ⟨subset_cons_self _ _, ?_⟩
    intro j hj
    cases hj
    exact ⟨hnew, mem_cons_self⟩
  | _ => exact ⟨List.Subset.refl _, fun _ h => nomatch h⟩

theorem task_source {i : StreamId} {task : Task}
    (htask : t.tasks.get i = some task) : (∃ old, s.tasks.get i = some old) ∨ a = .accept i := by
  cases task_of_taken h htask with
  | accepted hact => exact .inr hact
  | kept hold | done hold | tagged hold _ | looked hold _ _ | failed hold _ => exact .inl ⟨_, hold⟩

theorem delivered_taken :
    t.delivered = s.delivered ∨ ∃ i k ch, a = .send i ∧ s.tasks.get i = some (.sending k ch) ∧
      t.delivered = (i, ch) :: s.delivered ∧ t.tasks.get i = some .done := by
  cases h with
  | delivered i kind ch ib htask =>
    refine .inr ⟨i, kind, ch, rfl, htask, rfl, ?_⟩
    rw [get_setTask, if_pos rfl]
  | _ => exact .inl rfl

theorem stays_done {i : StreamId}
    (haccepted : i ∈ s.accepted) (hdone : s.tasks.get i = none ∨ s.tasks.get i = some .done) :
    t.tasks.get i = none ∨ t.tasks.get i = some .done := by
  cases htask : t.tasks.get i with
  | none => exact .inl rfl
  | some task =>
    refine .inr ?_
    cases task_of_taken h htask with
    | kept hold =>
      rcases hdone with hdone | hdone <;> cases hdone.symm.trans hold
      rfl
    | accepted hact => exact absurd haccepted ((accepted_taken h).2 i hact).1
    | done => rfl
    | tagged hold _ | looked hold _ _ | failed hold _ =>
      rcases hdone with hdone | hdone <;> cases hdone.symm.trans hold

/-- A task that goes on holding its sender. The driver finishes only when it has no task left. -/
theorem Inv.still_holds (hi : Inv content s) {i : StreamId} {task : Task} {k : UniHello} {ch : Chan}
    (htask : s.tasks.get i = some task) (hholds : Holds task k ch) :
    tag content i = some k ∧ t.Known k ch ∧ (t.isOpen ch = true → t.routes.get k = some ch) := by
  obtain ⟨htag, hknown, hopen⟩ := hi.holds i task k ch htask hholds
  refine ⟨htag, hknown.taken h, fun hnow => ?_⟩
  obtain ⟨ib, hib, hkind⟩ := hknown
  rcases route_kept h hib hkind (fun i ch => hi.failed i k ch) (hopen (isOpen_of_taken h hib hnow)) hnow
    with hkept | rfl
  · exact hkept
  · cases h with
    | finished _ hsize => cases (get_of_size_zero hsize i).symm.trans htask

/-- A sender comes from a lookup, and stays with its task. -/
theorem Inv.holds_taken (hi : Inv content s) {i : StreamId} {task : Task} {k : UniHello} {ch : Chan}
    (htask : t.tasks.get i = some task) (hholds : Holds task k ch) :
    tag content i = some k ∧ t.Known k ch ∧ (t.isOpen ch = true → t.routes.get k = some ch) := by
  cases task_of_taken h htask with
  | kept hold => exact hi.still_holds h hold hholds
  | accepted | done | tagged => rcases hholds with hh | hh <;> cases hh
  | looked htagged hact hroute =>
    rcases hholds with hh | hh <;> cases hh
    subst hact
    refine ⟨hi.tagged i k htagged, (hi.known k ch hroute).taken h, fun _ => ?_⟩
    cases h with
    | looked => exact hroute
  | failed hold _ =>
    rcases hholds with hh | hh <;> cases hh
    exact hi.still_holds h hold (.inl rfl)

/-- A channel that is closed is not opened again, so a sending that failed stays failed. -/
theorem Inv.failed_taken (hi : Inv content s) {i : StreamId} {k : UniHello} {ch : Chan}
    (htask : t.tasks.get i = some (.failed k ch)) : t.isOpen ch = false := by
  have hshut : s.Known k ch → s.isOpen ch = false → t.isOpen ch = false := by
    rintro ⟨ib, hib, -⟩ hclosed
    exact Bool.eq_false_of_not_eq_true fun hopen => nomatch hclosed.symm.trans (isOpen_of_taken h hib hopen)
  cases task_of_taken h htask with
  | kept hold => exact hshut (hi.holds i _ k ch hold (.inr rfl)).2.1 (hi.failed i k ch hold)
  | failed hold hclosed => exact hshut (hi.holds i _ k ch hold (.inl rfl)).2.1 hclosed

/-- What a step hands over was not handed over before: its task was still sending. -/
theorem Inv.once_taken (hi : Inv content s) : (t.delivered.map Prod.fst).Nodup := by
  rcases delivered_taken h with heq | ⟨i, k, ch, -, htask, heq, -⟩
  · rw [heq]
    exact hi.once
  rw [heq, map_cons, nodup_cons]
  refine ⟨fun hmem => ?_, hi.once⟩
  obtain ⟨x, hx, rfl⟩ := mem_map.mp hmem
  rcases (hi.handed x.1 x.2 hx).2 with hdone | hdone <;> cases hdone.symm.trans htask

theorem Inv.handed_taken (hi : Inv content s) {i : StreamId} {ch : Chan} (hmem : (i, ch) ∈ t.delivered) :
    i ∈ t.accepted ∧ (t.tasks.get i = none ∨ t.tasks.get i = some .done) := by
  have hold : (i, ch) ∈ s.delivered →
      i ∈ t.accepted ∧ (t.tasks.get i = none ∨ t.tasks.get i = some .done) := by
    intro hwas
    obtain ⟨haccepted, hdone⟩ := hi.handed i ch hwas
    exact ⟨(accepted_taken h).1 haccepted, stays_done h haccepted hdone⟩
  rcases delivered_taken h with heq | ⟨j, k, c, -, htask, heq, hdone⟩
  · exact hold (heq ▸ hmem)
  rcases mem_cons.mp (heq ▸ hmem) with hnew | hwas
  · cases hnew
    exact ⟨(accepted_taken h).1 (hi.accepted _ _ htask), .inr hdone⟩
  · exact hold hwas

/-- Every step keeps the invariant. -/
theorem Inv.taken (hi : Inv content s) : Inv content t where
  known := hi.known_taken h
  routes_le := hi.routes_taken h
  tasks_le := by
    rcases size_tasks_taken h with hle | ⟨hlt, -, heq⟩
    · exact le_trans hle hi.tasks_le
    · rw [heq]
      exact hlt
  tagged i k htask := by
    cases task_of_taken h htask with
    | kept hold => exact hi.tagged i k hold
    | tagged _ htag => exact htag
  holds i task k ch := hi.holds_taken h
  failed i k ch := hi.failed_taken h
  idle hidle := hi.idle_taken h hidle
  aborted haborted := hi.aborted_taken h haborted
  orphaned howner := hi.orphaned_taken h howner
  accepted i task htask := by
    rcases task_source h htask with ⟨old, hold⟩ | rfl
    · exact (accepted_taken h).1 (hi.accepted i old hold)
    · exact ((accepted_taken h).2 i rfl).2
  once := hi.once_taken h
  handed i ch := hi.handed_taken h

end

theorem inv_run {acts : List Action} (h : (routing content).run acts {} = some s) : Inv content s :=
  run_invariant (fun _ _ _ hi hstep => hi.taken (taken_of_step hstep)) inv_start h

end Invariant

/-! ### Lookups and hand-overs -/

section History

variable {content : StreamId → Bytes} {s t : State} {a : Action} {acts : List Action}

/-- The tag of a stream was looked up, and the channel was registered for it then. -/
def LookedUp (content : StreamId → Bytes) (acts : List Action) (i : StreamId) (k : UniHello)
    (ch : Chan) : Prop :=
  ∃ before after s₁, acts = before ++ .lookup i :: after ∧
    (routing content).run before {} = some s₁ ∧ s₁.tasks.get i = some (.tagged k) ∧
    s₁.routes.get k = some ch

theorem LookedUp.snoc {i : StreamId} {k : UniHello} {ch : Chan}
    (h : LookedUp content acts i k ch) : LookedUp content (acts ++ [a]) i k ch := by
  obtain ⟨before, after, s₁, rfl, hrest⟩ := h
  exact ⟨before, after ++ [a], s₁, by simp, hrest⟩

/-- **Lookups.** What a task is about to send, or has handed over, was looked up. -/
theorem lookedUp_run (h : (routing content).run acts {} = some s) :
    (∀ i k ch, s.tasks.get i = some (.sending k ch) → LookedUp content acts i k ch) ∧
    ∀ i ch, (i, ch) ∈ s.delivered →
      ∃ k, tag content i = some k ∧ s.Known k ch ∧ LookedUp content acts i k ch := by
  induction acts using reverseRecOn generalizing s with
  | nil =>
    cases h
    exact ⟨nofun, nofun⟩
  | append_singleton acts a ih =>
    obtain ⟨m, hm, hstep⟩ := run_snoc_eq_some.mp h
    obtain ⟨hsending, hdelivered⟩ := ih hm
    have htaken := taken_of_step hstep
    have hi := inv_run hm
    refine ⟨?_, ?_⟩
    · intro i k ch htask
      cases task_of_taken htaken htask with
      | kept hold => exact (hsending i k ch hold).snoc
      | looked htagged hact hroute =>
        subst hact
        exact ⟨acts, [], m, rfl, hm, htagged, hroute⟩
    intro i ch hmem
    have hold : (i, ch) ∈ m.delivered →
        ∃ k, tag content i = some k ∧ s.Known k ch ∧ LookedUp content (acts ++ [a]) i k ch := by
      intro hwas
      obtain ⟨k, htag, hknown, hlooked⟩ := hdelivered i ch hwas
      exact ⟨k, htag, hknown.taken htaken, hlooked.snoc⟩
    rcases delivered_taken htaken with heq | ⟨j, k, c, -, htask, heq, -⟩
    · exact hold (heq ▸ hmem)
    rw [heq] at hmem
    rcases mem_cons.mp hmem with hnew | hwas
    · cases hnew
      obtain ⟨htag, hknown, -⟩ := hi.holds i _ k ch htask (.inl rfl)
      exact ⟨k, htag, hknown.taken htaken, (hsending i k ch htask).snoc⟩
    · exact hold hwas

end History

/-! ### The end of the connection -/

section Ending

variable {content : StreamId → Bytes} {s t : State} {a : Action} {acts : List Action}

/-- The steps that the driver, the route tasks and the claims in progress take by themselves. -/
def Action.internal : Action → Bool
  | .claim _ _ | .closeInbox _ | .dropInbox _ | .recv _ | .closeConnection | .dropFacade
  | .dropDemux => false
  | _ => true

/-- How many steps a task has left. -/
def Task.weight : Task → ℕ
  | .reading => 5
  | .tagged _ => 4
  | .sending _ _ => 3
  | .failed _ _ => 2
  | .done => 1

/-- How many steps a driver has left. It may accept one more stream if it found the connection open. -/
def Driver.weight : Driver → ℕ
  | .idle | .aborted => 0
  | .stopping => 1
  | .running => 2
  | .polled => 8

/-- A claim in progress registers, and may start a driver. -/
def Inbox.weight (ib : Inbox) : ℕ := if ib.phase = .pending then 3 else 0

/-- A bound on the steps that the system can take once the connection is closed. -/
def State.remaining (s : State) : ℕ :=
  s.driver.weight + s.tasks.weight Task.weight + s.inboxes.weight Inbox.weight

theorem remaining_setTask {i : StreamId} {old new : Task} (h : s.tasks.get i = some old)
    (hlt : new.weight < old.weight) : (s.setTask i new).remaining + 1 ≤ s.remaining := by
  have hw := weight_insert Task.weight (v := new) h
  simp only [State.remaining, State.setTask]
  omega

theorem remaining_removeTask {i : StreamId} {old : Task} (h : s.tasks.get i = some old) :
    { s with tasks := s.tasks.remove i }.remaining + 1 ≤ s.remaining := by
  have hw := weight_remove Task.weight h
  have hpos : 0 < old.weight := by cases old <;> exact Nat.succ_pos _
  simp only [State.remaining]
  omega

theorem remaining_setInbox {ch : Chan} {old new : Inbox} {k : ℕ} (h : s.inboxes.get ch = some old)
    (hle : new.weight + k ≤ old.weight) : (s.setInbox ch new).remaining + k ≤ s.remaining := by
  have hw := weight_insert Inbox.weight (v := new) h
  simp only [State.remaining, State.setInbox]
  omega

theorem remaining_driver {d : Driver} {k : ℕ} (hle : d.weight + k ≤ s.driver.weight) :
    { s with driver := d }.remaining + k ≤ s.remaining := by
  simp only [State.remaining]
  omega

theorem remaining_register {ch : Chan} {ib : Inbox} {d : Driver} {routes : Table UniHello Chan}
    (hib : s.inboxes.get ch = some ib) (hphase : ib.phase = .pending)
    (hd : d.weight ≤ s.driver.weight + 2) :
    (State.setInbox { s with routes := routes, driver := d } ch
      { ib with phase := .held }).remaining + 1 ≤ s.remaining := by
  have hw := weight_insert Inbox.weight (v := { ib with phase := .held }) hib
  have hold : ib.weight = 3 := if_pos hphase
  have hnew : Inbox.weight { ib with phase := .held } = 0 := rfl
  simp only [State.remaining, State.setInbox]
  omega

theorem closed_taken (h : Taken content s a t) (hclosed : s.closed = true) : t.closed = true := by
  cases h with
  | connectionClosed => rfl
  | _ => exact hclosed

theorem weight_read (i : StreamId) :
    (((tag content i).map Task.tagged).getD .done).weight ≤ 4 := by
  cases tag content i with
  | none => exact (by decide : 1 ≤ 4)
  | some k => exact le_refl 4

theorem weight_looked (s : State) (k : UniHello) :
    (((s.routes.get k).map (Task.sending k)).getD .done).weight ≤ 3 := by
  cases s.routes.get k with
  | none => exact (by decide : 1 ≤ 3)
  | some ch => exact le_refl 3

/-- **The steps of the system run out.** Each of its own takes one off the bound; what the owners of the
inboxes do adds nothing. -/
theorem remaining_taken (h : Taken content s a t) (hclosed : s.closed = true) :
    t.remaining + (if a.internal then 1 else 0) ≤ s.remaining := by
  cases h with
  | claimed ch kind _ _ hnone =>
    -- the inbox of a claim on a closed connection has no sender
    have hw := weight_insert_of_none Inbox.weight (v := ⟨kind, .held, []⟩) hnone
    have hzero : Inbox.weight ⟨kind, .held, []⟩ = 0 := rfl
    rw [hclosed, if_pos rfl]
    simp only [State.remaining, State.setInbox, Action.internal, Bool.false_eq_true, if_false]
    omega
  | refused ch late seen ib hib hphase =>
    have hold : ib.weight = 3 := if_pos hphase
    exact remaining_setInbox hib (hold ▸ (by decide : 0 + 1 ≤ 3))
  | registered ch late seen ib routes hib hphase =>
    have hdriver : (if s.driver = .idle then Driver.running else s.driver).weight
        ≤ s.driver.weight + 2 := by
      split
      · exact Nat.le_add_left _ _
      · exact Nat.le_add_right _ _
    exact remaining_register hib hphase hdriver
  | closedInbox ch ib hib | droppedInbox ch ib hib => exact remaining_setInbox hib (Nat.zero_le _)
  | received ch ib hib => exact remaining_setInbox hib (le_refl ib.weight)
  | polled _ hopen =>
    cases hclosed.symm.trans hopen
  | parked hdriver => exact remaining_driver (hdriver ▸ (by decide : 2 + 1 ≤ 8))
  | accepted i hdriver _ hnone =>
    have hw := weight_insert_of_none Task.weight (v := Task.reading) hnone
    have hread : Task.weight .reading = 5 := rfl
    simp only [State.remaining, State.setTask, Action.internal, if_true, Driver.weight, hdriver]
    omega
  | acceptFailed hdriver => exact remaining_driver (hdriver ▸ (by decide : 1 + 1 ≤ 8))
  | joined i hdriver htask =>
    have hd : { s with driver := .running }.remaining ≤ s.remaining :=
      remaining_driver (k := 0) (hdriver ▸ (by decide : 2 + 0 ≤ 8))
    have htask' : { s with driver := .running }.tasks.get i = some .done := htask
    exact (remaining_removeTask htask').trans hd
  | stopped hdriver => exact remaining_driver (hdriver ▸ (by decide : 1 + 1 ≤ 2))
  | aborted i task _ htask => exact remaining_removeTask htask
  | finished hdriver => exact remaining_driver (hdriver ▸ (by decide : 0 + 1 ≤ 1))
  | read i htask => exact remaining_setTask htask (Nat.lt_succ_of_le (weight_read i))
  | expired i htask => exact remaining_setTask htask (by decide)
  | looked i kind htask => exact remaining_setTask htask (Nat.lt_succ_of_le (weight_looked s kind))
  | failed i kind ch htask => exact remaining_setTask htask (Nat.lt_succ_self 2)
  | delivered i kind ch ib htask hib =>
    have hib' : (s.setInbox ch { ib with queue := ib.queue ++ [i] }).remaining ≤ s.remaining :=
      remaining_setInbox (k := 0) hib (le_refl ib.weight)
    have htask' : (s.setInbox ch { ib with queue := ib.queue ++ [i] }).tasks.get i
        = some (.sending kind ch) := htask
    have hlt : Task.done.weight < (Task.sending kind ch).weight := (by decide : 1 < 3)
    exact (remaining_setTask htask' hlt).trans hib'
  | cleaned i kind ch htask => exact remaining_setTask htask (by decide : 1 < 2)
  | connectionClosed | facadeDropped => exact le_refl _
  | demuxDropped =>
    refine remaining_driver ?_
    split <;> exact Nat.zero_le _

/-- **Bounded endings.** -/
theorem internal_run (hclosed : s.closed = true) (h : (routing content).run acts s = some t) :
    t.closed = true ∧ acts.countP Action.internal + t.remaining ≤ s.remaining := by
  induction acts generalizing s with
  | nil =>
    cases h
    exact ⟨hclosed, Nat.le_of_eq (Nat.zero_add _)⟩
  | cons a acts ih =>
    obtain ⟨m, hm, hrest⟩ := run_cons_eq_some.mp h
    have htaken := taken_of_step hm
    obtain ⟨ht, hle⟩ := ih (closed_taken htaken hclosed) hrest
    have hstep := remaining_taken htaken hclosed
    refine ⟨ht, ?_⟩
    rw [countP_cons]
    omega

/-- Somebody can still send to the inbox: a route, a task or the claim that makes it. -/
def State.HasSender (s : State) (ch : Chan) : Prop :=
  (∃ k, s.routes.get k = some ch) ∨
    (∃ i task k, s.tasks.get i = some task ∧ Holds task k ch) ∨
    ∃ ib, s.inboxes.get ch = some ib ∧ ib.phase = .pending

/-- A closed connection that cannot move on its own has no task left. -/
theorem Inv.over (hi : Inv content s) (hclosed : s.closed = true)
    (hstuck : ∀ a : Action, a.internal = true → (routing content).step a s = none) :
    (∀ k, s.routes.get k = none) ∧ s.tasks.size = 0 := by
  -- a driver that joins its tasks can cancel each of them
  have hempty : s.driver = .stopping ∨ s.driver = .aborted → s.tasks.size = 0 := by
    intro hdriver
    cases hrows : s.tasks.rows with
    | nil => exact length_eq_zero_iff.mpr hrows
    | cons r rest =>
      have hget : s.tasks.get r.1 = some r.2 := get_eq_some_iff.mpr (hrows ▸ mem_cons_self)
      exact absurd (hstuck (.abort r.1) rfl) (by simp [routing, hdriver, hget])
  cases hdriver : s.driver with
  | idle => exact hi.idle hdriver
  | running => exact absurd (hstuck .stop rfl) (by simp [routing, hdriver, hclosed])
  | polled => exact absurd (hstuck .park rfl) (by simp [routing, hdriver])
  | stopping => exact absurd (hstuck .finish rfl) (by simp [routing, hdriver, hempty (.inl hdriver)])
  | aborted => exact ⟨(hi.orphaned (hi.aborted hdriver)).1, hempty (.inr hdriver)⟩

/-- Once the connection is closed and nothing is left to do, no inbox has a sender. -/
theorem Inv.no_sender (hi : Inv content s) (hclosed : s.closed = true)
    (hstuck : ∀ a : Action, a.internal = true → (routing content).step a s = none) (ch : Chan) :
    ¬ s.HasSender ch := by
  obtain ⟨hroutes, htasks⟩ := hi.over hclosed hstuck
  rintro (⟨k, hroute⟩ | ⟨i, task, k, htask, -⟩ | ⟨ib, hib, hphase⟩)
  · cases (hroutes k).symm.trans hroute
  · cases (get_of_size_zero htasks i).symm.trans htask
  · -- a claim in progress can always register
    exact absurd (hstuck (.register ch [] false) rfl) (by simp [routing, hib, hphase])

end Ending

/-! ### Every interleaving -/

section Routing

variable {content : StreamId → Bytes} {s t : State} {a : Action}

/-- A live inbox: its owner has it, and somebody can send to it. -/
def State.Live (s : State) (k : UniHello) (ch : Chan) : Prop :=
  (∃ ib, s.inboxes.get ch = some ib ∧ ib.kind = k ∧ ib.phase = .held) ∧ s.HasSender ch

theorem Inv.route_of_live (hi : Inv content s) {k : UniHello} {ch : Chan} (hlive : s.Live k ch) :
    s.routes.get k = some ch := by
  obtain ⟨⟨ib, hib, hkind, hphase⟩, hsender⟩ := hlive
  have hknown : ∀ k', s.Known k' ch → k' = k := by
    rintro k' ⟨ib', hib', rfl⟩
    cases hib.symm.trans hib'
    exact hkind
  rcases hsender with ⟨k', hroute⟩ | ⟨i, task, k', htask, hholds⟩ | ⟨ib', hib', hpending⟩
  · rw [← hknown k' (hi.known k' ch hroute)]
    exact hroute
  · obtain ⟨-, hk, hopen⟩ := hi.holds i task k' ch htask hholds
    rw [← hknown k' hk]
    exact hopen (isOpen_iff.mpr ⟨ib, hib, .inr hphase⟩)
  cases hib.symm.trans hib'
  cases hphase.symm.trans hpending

/-- **Other inboxes.** The drop of an inbox, or a failed hand-over to one, leaves the route of an inbox
that is open. -/
theorem Inv.route_stays (hi : Inv content s) (h : Taken content s a t)
    (ha : (∃ ch, a = .dropInbox ch) ∨ ∃ i, a = .cleanup i) {k : UniHello} {ch : Chan}
    (hroute : s.routes.get k = some ch) (hopen : s.isOpen ch = true) :
    t.routes.get k = some ch := by
  rcases ha with ⟨c, rfl⟩ | ⟨i, rfl⟩
  · cases h with
    | droppedInbox => exact get_unroute hroute hopen
  cases h with
  | cleaned _ kind c htask =>
    refine get_releaseRoute hroute ?_
    rintro ⟨rfl, rfl⟩
    cases (hi.failed i k ch htask).symm.trans hopen

/-- **The routing of tagged streams, in every interleaving.** A kind has one live inbox at most, and
routes and tasks are bounded. A stream is handed over once at most, to an inbox of its tag that was
registered when the tag was looked up. Dropping an inbox, and failing to send to one, leaves the route of
an inbox that is open, and a failed sending removes no channel but its own. Once the connection is closed
the system takes a bounded number of steps, and when it can take none no inbox has a sender. -/
theorem uni_routing (content : StreamId → Bytes) (acts : List Action) (s : State)
    (h : (routing content).run acts {} = some s) :
    (∀ k ch ch', s.Live k ch → s.Live k ch' → ch = ch') ∧
    s.routes.size ≤ maxRoutes ∧ s.tasks.size ≤ maxPending ∧
    (s.delivered.map Prod.fst).Nodup ∧
    (∀ i ch, (i, ch) ∈ s.delivered →
      ∃ k, tag content i = some k ∧ s.Known k ch ∧ LookedUp content acts i k ch) ∧
    (∀ a t, ((∃ ch, a = .dropInbox ch) ∨ ∃ i, a = .cleanup i) → (routing content).step a s = some t →
      ∀ k ch, s.routes.get k = some ch → s.isOpen ch = true → t.routes.get k = some ch) ∧
    (∀ i t k ch, (routing content).step (.cleanup i) s = some t → s.routes.get k = some ch →
      t.routes.get k = some ch ∨ s.tasks.get i = some (.failed k ch)) ∧
    (s.closed = true → (∃ n, ∀ acts' t, (routing content).run acts' s = some t →
        acts'.countP Action.internal ≤ n) ∧
      ∀ acts' t, (routing content).run acts' s = some t →
        (∀ a : Action, a.internal = true → (routing content).step a t = none) →
        ∀ ch, ¬ t.HasSender ch) := by
  have hi := inv_run h
  refine ⟨?_, hi.routes_le, hi.tasks_le, hi.once, (lookedUp_run h).2, ?_, ?_, ?_⟩
  · intro k ch ch' hlive hlive'
    have heq := (hi.route_of_live hlive).symm.trans (hi.route_of_live hlive')
    exact Option.some.inj heq
  · intro a t ha hstep k ch hroute hopen
    exact hi.route_stays (taken_of_step hstep) ha hroute hopen
  · intro i t k ch hstep hroute
    cases taken_of_step hstep with
    | cleaned _ kind c htask =>
      by_cases hsame : k = kind ∧ ch = c
      · obtain ⟨rfl, rfl⟩ := hsame
        exact .inr htask
      · exact .inl (get_releaseRoute hroute hsame)
  intro hclosed
  refine ⟨⟨s.remaining, fun acts' t hrun => ?_⟩, ?_⟩
  · exact le_trans (Nat.le_add_right _ _) (internal_run hclosed hrun).2
  intro acts' t hrun hstuck ch
  have hit : Inv content t :=
    run_invariant (fun _ _ _ hi hstep => hi.taken (taken_of_step hstep)) hi hrun
  exact hit.no_sender (internal_run hclosed hrun).1 hstuck ch

end Routing

/-! ### Two inboxes of one kind -/

/-- Every stream is tagged for the desktop. -/
def desktopStreams (_ : StreamId) : Bytes := [0, 0, 0, 1, 0]

/-- A service claims the desktop streams, and a stream is handed to it. -/
def handOver : List Action :=
  [.claim 0 .desktop, .register 0 [] false, .poll, .accept 7, .readTag 7, .lookup 7, .send 7]

/-- The state after `handOver`. -/
def handedOver : State := ((routing desktopStreams).run handOver {}).getD {}

theorem run_handOver : (routing desktopStreams).run handOver {} = some handedOver :=
  run_eq_some_getD (by decide +kernel)

theorem uni_routing_handOver :
    (7, 0) ∈ handedOver.delivered ∧ ∃ k, tag desktopStreams 7 = some k ∧ handedOver.Known k 0 ∧
        LookedUp desktopStreams handOver 7 k 0 := by
  have h := uni_routing desktopStreams handOver handedOver run_handOver
  have hmem : (7, 0) ∈ handedOver.delivered := by decide +kernel
  exact ⟨hmem, h.2.2.2.2.1 7 0 hmem⟩

/-- An inbox is closed, a second one of its kind is registered and closed too; neither has removed its
route yet. -/
def closedTwice : State :=
  ((routing desktopStreams).run
    [.claim 0 .desktop, .register 0 [] false, .closeInbox 0, .claim 1 .desktop,
      .register 1 [] false, .closeInbox 1] {}).getD {}

/-- **A newer inbox.** The drop of the first removes the route of the second, which is closed. -/
theorem dropInbox_closed :
    closedTwice.routes.get .desktop = some 1 ∧ closedTwice.isOpen 1 = false ∧
      ((routing desktopStreams).step (.dropInbox 0) closedTwice).map (·.routes.get .desktop)
        = some none := by
  all_goals decide +kernel

end Rds.Uni
