import Rds.Framework.ByteString
import Rds.Framework.Machine
import Rds.Framework.OrderedMap

/-!
# The outgoing sessions of the local manager

The manager of an agent keeps one `State` behind a mutex: the sessions with other
peers and which of them is selected. Its workers serve one local request each. A
worker that opens or renews a session holds a `Reservation`, a guard that removes
the session again unless it was committed, which happens after the reply was
written.

What workers share with the state is kept beside it in `Manager`: the `watch`
channels that say whether a session is ready, the cancellation tokens, and which
connections are closed. `step` is one critical section of one worker, or an event
from outside; between any two of them all others may run.
-/

namespace Rds.Local

open Framework

/-- The cap on the sessions of one manager. -/
def maxSessions : ℕ := 32

/-- `SessionId`. -/
abbrev SessionId := { bs : Bytes // bs.length = 16 }

/-- `EndpointId`, the public key of a peer. -/
abbrev EndpointId := { bs : Bytes // bs.length = 32 }

/-- The hash of a grant. -/
abbrev Credential := { bs : Bytes // bs.length = 32 }

/-- The codes of `ErrorCode` that the registry answers with. -/
inductive ErrorCode
  | invalidRequest
  | capacity
  | busy
  | credentialConflict
  | notFound
  | noSelection
  | resolve
  | stopped
  | internal
  deriving DecidableEq

/-! ### The state -/

/-- `Entry`. A connection, a token and a channel are numbers. -/
structure Entry where
  peer : EndpointId
  credential : Option Credential
  renewing : Bool
  cancel : ℕ
  conn : Option ℕ
  ready : ℕ
  deriving DecidableEq

/-- `State`. -/
structure State where
  instance_ : SessionId
  endpoint : Bytes
  generation : ℕ
  selected : Option SessionId
  entries : Std.ExtTreeMap SessionId Entry compare
  stopped : Bool

namespace State

/-- `State::new`. -/
def new (instance_ : SessionId) (endpoint : Bytes) : State :=
  ⟨instance_, endpoint, 0, none, ∅, false⟩

/-- `State::changed`. -/
def changed (self : State) : State :=
  { self with generation := min (self.generation + 1) (2 ^ 64 - 1) }

/-- Write an entry back. -/
def update (self : State) (id : SessionId) (entry : Entry) : State :=
  { self with entries := self.entries.insert id entry }

/-- `State::prune`. -/
def prune (isClosed : ℕ → Bool) (self : State) : State :=
  let kept := self.entries.filter fun _ e => !e.conn.any isClosed
  if kept.size ≠ self.entries.size then
    changed { self with
      entries := kept
      selected := if self.selected.any (!kept.contains ·) then none else self.selected }
  else { self with entries := kept }

/-- `State::remove`. -/
def remove (self : State) (id : SessionId) : Bool × State :=
  if self.entries[id]? = none then (false, self)
  else
    (true, changed { self with
      entries := self.entries.erase id
      selected := if self.selected = some id then none else self.selected })

/-- `State::connection`. -/
def connection (ready : ℕ → Bool) (self : State) (id : Option SessionId) :
    Except ErrorCode (SessionId × ℕ) :=
  match id.or self.selected with
  | none => .error .noSelection
  | some id =>
    match self.entries[id]? with
    | none => .error .notFound
    | some entry =>
      if !ready entry.ready then .error .busy
      else
        match entry.conn with
        | none => .error .busy
        | some conn => .ok (id, conn)

end State

/-! ### Reservations -/

/-- `Reservation`. An admission holds the sending end of the channel of its session;
a renewal holds none. -/
structure Reservation where
  id : SessionId
  cancel : ℕ
  committed : Bool
  ready : Option ℕ
  deriving DecidableEq

/-- A reservation on which `commit` was not called. -/
abbrev Uncommitted := { r : Reservation // r.committed = false }

/-- `Pending`. -/
structure Pending where
  id : SessionId
  ready : ℕ
  cancel : ℕ
  deriving DecidableEq

/-- `Reserved`. -/
inductive Reserved
  | existing (id : SessionId)
  | pending (p : Pending)
  | new (r : Uncommitted)
  deriving DecidableEq

/-- `existing_in`. -/
def existingIn (ready : ℕ → Bool) (state : State) (peer : EndpointId)
    (credential : Option Credential) : Except ErrorCode (Option Reserved) :=
  match state.entries.toList.find? fun x => x.2.peer = peer with
  | none => .ok none
  | some (id, entry) =>
    if entry.renewing then .error .busy
    else if entry.credential ≠ credential then .error .credentialConflict
    else if entry.conn.isSome && ready entry.ready then .ok (some (.existing id))
    else .ok (some (.pending ⟨id, entry.ready, entry.cancel⟩))

/-! ### Workers -/

/-- The arguments of `connect::run` once they are parsed: the pinned identity of the
target, the hash of the grant, and whether the caller gave local addresses. -/
structure ConnectCall where
  pinned : Option EndpointId
  credential : Option Credential
  preferred : Bool
  deriving DecidableEq

/-- Where a worker is between two critical sections. `commit` is called at one place
only, by a worker that has written its reply; after that, or after an error, its
reservation is only dropped. -/
inductive Worker
  /-- `connect::run` resolves its target. -/
  | resolving (call : ConnectCall)
  /-- `Pending::wait`. -/
  | waiting (pending : Pending)
  /-- `connect::run` dials the peer. -/
  | dialing (r : Uncommitted)
  /-- `Command::Renew` presents the grant to the peer. -/
  | authorizing (r : Uncommitted) (credential : Credential)
  /-- `serve` writes the reply. -/
  | replying (r : Uncommitted)
  /-- Nothing is left but to drop the reservation. -/
  | closing (r : Reservation)
  deriving DecidableEq

/-- The reservation a worker holds. -/
def Worker.reservation : Worker → Option Reservation
  | .resolving _ => none
  | .waiting _ => none
  | .dialing r => some r
  | .authorizing r _ => some r
  | .replying r => some r
  | .closing r => some r

/-- The manager: the mutex with its state, what is shared beside it, and the workers. -/
structure Manager where
  /-- `endpoint.id()`. -/
  endpointId : EndpointId
  state : State
  /-- A worker panicked while it held the mutex. -/
  poisoned : Bool
  /-- The values of the `watch` channels. The token made with a channel has its number. -/
  channels : List Bool
  cancelled : Finset ℕ
  closed : Finset ℕ
  workers : Multiset Worker

namespace Manager

def new (endpointId : EndpointId) (instance_ : SessionId) (endpoint : Bytes) : Manager :=
  ⟨endpointId, .new instance_ endpoint, false, [], ∅, ∅, 0⟩

/-- The reservations that were not dropped yet. -/
def live (m : Manager) : Multiset Reservation := m.workers.filterMap Worker.reservation

/-- `*ready.borrow()`. -/
def ready (m : Manager) (channel : ℕ) : Bool := m.channels[channel]?.getD false

/-- `Connection::is_closed`. -/
def isClosed (m : Manager) (conn : ℕ) : Bool := conn ∈ m.closed

/-- Let a worker go on as `w`. -/
def spawn (m : Manager) (w : Worker) : Manager := { m with workers := w ::ₘ m.workers }

/-- Let one worker that is at `w` run. -/
def resume (m : Manager) (w : Worker) : Option Manager :=
  if w ∈ m.workers then some { m with workers := m.workers.erase w } else none

/-! ### Critical sections -/

/-- `Drop for Entry`: the token is cancelled and the connection closed. -/
def dropEntries (m : Manager) (entries : List Entry) : Manager :=
  { m with
    cancelled := m.cancelled ∪ (entries.map Entry.cancel).toFinset
    closed := m.closed ∪ (entries.filterMap Entry.conn).toFinset }

/-- `State::prune`, with the entries it drops. -/
def prune (m : Manager) : Manager :=
  let gone := m.state.entries.filter fun _ e => e.conn.any m.isClosed
  { m.dropEntries gone.values with state := m.state.prune m.isClosed }

/-- `State::remove`, with the entry it drops. -/
def remove (m : Manager) (id : SessionId) : Bool × Manager :=
  let (removed, state) := m.state.remove id
  (removed, { m.dropEntries m.state.entries[id]?.toList with state })

/-- `lock`, and what its caller does before it lets the guard go. An error of the caller
leaves the pruned state behind. -/
def locked {α : Type} (m : Manager) (body : Manager → Except ErrorCode α × Manager) :
    Except ErrorCode α × Manager :=
  if m.poisoned then (.error .internal, m)
  else if m.state.stopped then (.error .stopped, m)
  else body m.prune

/-- `existing`. -/
def existing (m : Manager) (peer : EndpointId) (credential : Option Credential) :
    Except ErrorCode (Option Reserved) × Manager :=
  m.locked fun m => (existingIn m.ready m.state peer credential, m)

/-- The new session of `reserve`. -/
def insertSession (m : Manager) (id : SessionId) (peer : EndpointId) (credential : Option Credential) :
    Uncommitted × Manager :=
  let fresh := m.channels.length
  (⟨⟨id, fresh, false, some fresh⟩, rfl⟩,
    { m with
      channels := m.channels ++ [false]
      state := (m.state.update id ⟨peer, credential, false, fresh, none, fresh⟩).changed })

/-- `reserve`. The loop that draws an id takes the first of `draws` that is not in use;
it does not end on draws that are all in use. -/
def reserve (m : Manager) (peer : EndpointId) (credential : Option Credential)
    (draws : List SessionId) : Option (Except ErrorCode Reserved × Manager) :=
  match m.existing peer credential with
  | (.error e, m) => some (.error e, m)
  | (.ok (some reserved), m) => some (.ok reserved, m)
  | (.ok none, m) =>
    if maxSessions ≤ m.state.entries.size then some (.error .capacity, m)
    else
      (draws.find? fun id => m.state.entries[id]? = none).map fun id =>
        let (r, m) := m.insertSession id peer credential
        (.ok (.new r), m)

/-- `renew`. -/
def renew (m : Manager) (id : SessionId) : Except ErrorCode (Uncommitted × ℕ) × Manager :=
  m.locked fun m =>
    match m.state.entries[id]? with
    | none => (.error .notFound, m)
    | some entry =>
      if !m.ready entry.ready then (.error .busy, m)
      else if entry.renewing then (.error .busy, m)
      else if entry.credential = none then (.error .invalidRequest, m)
      else
        match entry.conn with
        | none => (.error .busy, m)
        | some conn =>
          (.ok (⟨⟨id, entry.cancel, false, none⟩, rfl⟩, conn),
            { m with state := (m.state.update id { entry with renewing := true }).changed })

/-- `Reservation::commit`. -/
def commit (m : Manager) (r : Uncommitted) : Except ErrorCode Reservation × Manager :=
  m.locked fun m =>
    match m.state.entries[r.1.id]? with
    | none => (.error .notFound, m)
    | some entry =>
      let m :=
        if entry.renewing then
          { m with state := (m.state.update r.1.id { entry with renewing := false }).changed }
        else m
      (.ok { r.1 with committed := true },
        match r.1.ready with
        | none => m
        | some ready =>
          { m with channels := m.channels.set ready true, state := m.state.changed })

/-- `Drop for Reservation`. It also works on a poisoned or stopped state. -/
def dropReservation (m : Manager) (r : Reservation) : Manager :=
  if r.committed then m else (m.remove r.id).2

/-- `Drop for Owner`. -/
def dropOwner (m : Manager) : Manager :=
  { m.dropEntries m.state.entries.values with
    state := State.changed { m.state with stopped := true, entries := ∅, selected := none } }

/-- The end of `connect::run`, which gives the session its connection. -/
def attach (m : Manager) (r : Reservation) (conn : ℕ) : Except ErrorCode Unit × Manager :=
  m.locked fun m =>
    match m.state.entries[r.id]? with
    | none => (.error .notFound, m)
    | some entry =>
      let state := m.state.update r.id { entry with conn := some conn }
      let selected := if state.selected = none then some r.id else state.selected
      (.ok (), { m with state := State.changed { state with selected } })

/-- The end of `Command::Renew`, which gives the session its credential. -/
def authorized (m : Manager) (r : Reservation) (credential : Credential) :
    Except ErrorCode Unit × Manager :=
  m.locked fun m =>
    match m.state.entries[r.id]? with
    | none => (.error .notFound, m)
    | some entry =>
      (.ok (), { m with state := m.state.update r.id { entry with credential := some credential } })

/-- `Command::Select`. -/
def select (m : Manager) (session : SessionId) : Except ErrorCode Unit × Manager :=
  m.locked fun m =>
    match m.state.connection m.ready (some session) with
    | .error e => (.error e, m)
    | .ok _ =>
      if m.state.selected ≠ some session then
        (.ok (), { m with state := State.changed { m.state with selected := some session } })
      else (.ok (), m)

/-- `Command::Disconnect`. -/
def disconnect (m : Manager) (session : SessionId) : Except ErrorCode Unit × Manager :=
  m.locked fun m =>
    match m.remove session with
    | (false, m) => (.error .notFound, m)
    | (true, m) => (.ok (), m)

/-- Look at the state under `lock`, as the sampler and the other commands do. -/
def look (m : Manager) : Except ErrorCode Unit × Manager := m.locked fun m => (.ok (), m)

/-! ### The workers' turns -/

/-- `reused`: what a worker does that found a session of its peer. -/
def reused (m : Manager) : Reserved → Except ErrorCode Unit × Manager
  | .existing _ => (.ok (), m)
  | .pending pending => (.ok (), m.spawn (.waiting pending))
  | .new _ => (.error .internal, m)

/-- `connect::run` up to the resolution of its target. -/
def connect (m : Manager) (call : ConnectCall) : Except ErrorCode Unit × Manager :=
  if call.preferred ∧ call.pinned = none then (.error .invalidRequest, m)
  else if call.pinned = some m.endpointId then (.error .invalidRequest, m)
  else
    match call.pinned with
    | none => (.ok (), m.spawn (.resolving call))
    | some pinned =>
      match m.existing pinned call.credential with
      | (.error e, m) => (.error e, m)
      | (.ok none, m) => (.ok (), m.spawn (.resolving call))
      | (.ok (some existing), m) => m.reused existing

/-- The peer `connect::run` dials. A caller that gave addresses gave a pinned target
too, and only others ask the resolver, which says `answer`. -/
def peerOf (m : Manager) (call : ConnectCall) (answer : Option EndpointId) :
    Except ErrorCode EndpointId :=
  if !call.preferred ∧ answer = none then .error .resolve
  else
    let resolved := if call.preferred then none else answer
    match resolved.or call.pinned with
    | none => .error .invalidRequest
    | some peer => if peer = m.endpointId then .error .invalidRequest else .ok peer

/-- `connect::run` once its target is resolved, up to the dial. -/
def connectPeer (m : Manager) (call : ConnectCall) (answer : Option EndpointId)
    (draws : List SessionId) : Option (Except ErrorCode Unit × Manager) :=
  match m.peerOf call answer with
  | .error e => some (.error e, m)
  | .ok peer =>
    (m.reserve peer call.credential draws).map fun
      | (.error e, m) => (.error e, m)
      | (.ok (.new r), m) => (.ok (), m.spawn (.dialing r))
      | (.ok reserved, m) => m.reused reserved

/-- One poll of `Pending::wait`. The sender of the channel is gone when its reservation
was dropped. -/
def wait (m : Manager) (pending : Pending) : Except ErrorCode Unit × Manager :=
  if m.ready pending.ready then
    m.locked fun m =>
      match m.state.connection m.ready (some pending.id) with
      | .error e => (.error e, m)
      | .ok _ => (.ok (), m)
  else if pending.cancel ∈ m.cancelled then (.error .notFound, m)
  else if some pending.ready ∉ m.live.map Reservation.ready then (.error .notFound, m)
  else (.ok (), m.spawn (.waiting pending))

/-- `connect::run` after the dial: with an error its reservation is dropped. -/
def dialed (m : Manager) (r : Uncommitted) (conn : ℕ) : Manager :=
  match m.attach r conn with
  | (.error _, m) => m.spawn (.closing r)
  | (.ok (), m) => m.spawn (.replying r)

/-- `Command::Renew` up to the exchange with the peer. -/
def startRenew (m : Manager) (session : SessionId) (credential : Credential) :
    Except ErrorCode Unit × Manager :=
  match m.renew session with
  | (.error e, m) => (.error e, m)
  | (.ok (r, _), m) => (.ok (), m.spawn (.authorizing r credential))

/-- `Command::Renew` after the exchange. -/
def renewed (m : Manager) (r : Uncommitted) (credential : Credential) : Manager :=
  match m.authorized r credential with
  | (.error _, m) => m.spawn (.closing r)
  | (.ok (), m) => m.spawn (.replying r)

/-- `serve` after the reply was written. -/
def replied (m : Manager) (r : Uncommitted) : Manager :=
  match m.commit r with
  | (.error _, m) => m.spawn (.closing r)
  | (.ok r, m) => m.spawn (.closing r)

/-- The end of a worker, at whatever point: its request is done or failed, its caller left
or it timed out. The guards it holds are dropped. -/
def exit (m : Manager) (w : Worker) : Manager :=
  match w.reservation with
  | none => m
  | some r => m.dropReservation r

end Manager

/-! ### The machine -/

/-- The critical sections, and what happens outside. -/
inductive Action
  | look
  | connect (call : ConnectCall)
  | connectPeer (call : ConnectCall) (answer : Option EndpointId) (draws : List SessionId)
  | wait (pending : Pending)
  | dialed (r : Uncommitted) (conn : ℕ)
  | renew (session : SessionId) (credential : Credential)
  | renewed (r : Uncommitted) (credential : Credential)
  | replied (r : Uncommitted)
  | exit (w : Worker)
  | select (session : SessionId)
  | disconnect (session : SessionId)
  /-- A connection is closed, by the peer or by a worker. -/
  | close (conn : ℕ)
  /-- A sampler panics under the mutex, before anything was changed. -/
  | poison
  /-- The runner drops the `Owner`, which it does once. -/
  | dropOwner

/-- The ids an action draws. -/
def Action.draws : Action → List SessionId
  | .connectPeer _ _ draws => draws
  | _ => []

/-- One action. -/
def step : Action → Manager → Option Manager
  | .look, m => some m.look.2
  | .connect call, m => some (m.connect call).2
  | .connectPeer call answer draws, m =>
    (m.resume (.resolving call)).bind fun m =>
      (m.connectPeer call answer draws).map Prod.snd
  | .wait pending, m => (m.resume (.waiting pending)).map fun m => (m.wait pending).2
  | .dialed r conn, m => (m.resume (.dialing r)).map fun m => m.dialed r conn
  | .renew session credential, m => some (m.startRenew session credential).2
  | .renewed r credential, m =>
    (m.resume (.authorizing r credential)).map fun m => m.renewed r credential
  | .replied r, m => (m.resume (.replying r)).map fun m => m.replied r
  | .exit w, m => (m.resume w).map fun m => m.exit w
  | .select session, m => some (m.select session).2
  | .disconnect session, m => some (m.disconnect session).2
  | .close conn, m => some { m with closed := insert conn m.closed }
  | .poison, m => some { m with poisoned := true }
  | .dropOwner, m => if m.state.stopped then none else some m.dropOwner

/-- The manager with its workers. -/
def machine : Machine Manager Action := ⟨step⟩

end Rds.Local
