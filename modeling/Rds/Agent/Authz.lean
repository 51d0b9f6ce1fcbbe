import Rds.Agent.Grant
import Rds.Framework.Machine
import Rds.Framework.Reservations
import Rds.Framework.Table

/-!
# Grant admission

Each connection of an agent has a `ConnAuthz` (`rds-agent/src/authz.rs`): one lock over a state that owns
the lease of the accepted grant. All connections share the set `active_grants`; a `GrantSlot` reserves an
id there and gives it back when it is dropped.

`agent` is the machine of any number of connections and of any number of tasks on each: `authorize` calls
for new grants and for renewals, and the closers (`ConnectionLifetime::drop`, `close_and_wait`). The
scheduler decides the interleaving, what verification and the peer do, and everything the calls see of
clocks, revocations and connections (`View`). An action is what happens under one lock. Where a slot is
visible to others in between there are two: `install` claims and then builds its lease, with its own lock
held; `close` takes the lease out under the lock and drops it afterwards.
-/

namespace Rds.Agent.Authz

open Framework Discovery

/-! ### Grants and leases -/

/-- `ActiveGrant`. -/
structure ActiveGrant where
  grant : VerifiedGrant
  validity : Lease

namespace ActiveGrant

/-- `ActiveGrant::new`. -/
def new (grant : VerifiedGrant) (now : Reading) : Except String ActiveGrant :=
  if !grant.liveAt now.wall.asSecs then throw "grant expired"
  else
    match Lease.new now.wall.asSecs grant.payload.expiresAt now with
    | .ok validity => pure ⟨grant, validity⟩
    | .error _ => throw "grant lease invalid"

/-- `ActiveGrant::live_at`. -/
def liveAt (self : ActiveGrant) (now : Reading) : Bool :=
  self.grant.liveAt now.wall.asSecs && self.validity.validAt now

/-- `ActiveGrant::live`, with what `Reading::now` gives. -/
def live (self : ActiveGrant) : ClockRead → Bool
  | .ok now => self.liveAt now
  | .error _ => false

end ActiveGrant

/-- `GrantLease`, with the id of its `_slot`. -/
structure GrantLease where
  current : ActiveGrant
  slot : GrantId

/-- `State`. -/
inductive State where
  | opened
  | pending
  | authorizing (lease : Option GrantLease)
  | granted (lease : GrantLease)
  | renewing (lease : GrantLease)
  | closed

/-- The lease a state owns. -/
def State.lease : State → Option GrantLease
  | .authorizing lease => lease
  | .granted lease | .renewing lease => some lease
  | .opened | .pending | .closed => none

/-- What a call sees of its surroundings. Each look is a field of its own: anything may change between
two of them. -/
structure View where
  isClosed : Bool
  isClosedAfter : Bool
  now : ClockRead
  nowNext : ClockRead
  revocations : RevocationPolicy
  nowFresh : ClockRead
  revocationsAfter : RevocationPolicy

/-! ### The operations of `ConnAuthz` -/

/-- `ConnAuthz::new`. -/
def newState (required : Bool) : State := if required then .pending else .opened

/-- `ConnAuthz::begin`. -/
def begin : State → Except String Unit × State
  | .pending => (pure (), .authorizing none)
  | .opened => (throw "agent does not require grants", .opened)
  | .authorizing lease => (throw "already authorizing or authorized", .authorizing lease)
  | .granted lease => (throw "already authorizing or authorized", .granted lease)
  | .renewing lease => (throw "already authorizing or authorized", .renewing lease)
  | .closed => (throw "connection closed", .closed)

/-- `GrantSlot::claim`. -/
def claim (active : Finset GrantId) (id : GrantId) : Except String (Finset GrantId) :=
  if id ∈ active then throw "grant already in use" else pure (insert id active)

/-- `ConnAuthz::install` as far as the claim: the time of the lease. -/
def installChecks (audience : EndpointKey) (state : State) (view : View) (verified : VerifiedGrant) :
    Except String Reading :=
  match state with
  | .authorizing none =>
    if view.isClosed then throw "authorization interrupted"
    else if !view.revocations.fresh view.nowFresh then throw "revocation policy unavailable or stale"
    else if view.revocationsAfter.contains verified.id then throw "grant revoked"
    else if verified.payload.audience ≠ audience then throw "grant destination mismatch"
    else match view.now with
      | .ok now => pure now
      | .error _ => throw "grant clock unavailable"
  | _ => throw "authorization interrupted"

/-- `ConnAuthz::commit`: the result, the state, and the lease that is dropped. -/
def commit (state : State) (view : View) : Except String Unit × State × Option GrantLease :=
  match state with
  | .authorizing (some lease) =>
    if !view.isClosed && lease.current.live view.now &&
        view.revocations.revocationsPermit lease.current.grant.id view.nowFresh then
      (pure (), .granted lease, none)
    else (throw "authorization interrupted", .closed, some lease)
  | state => (throw "authorization interrupted", .closed, state.lease)

/-- `ConnAuthz::begin_renewal`. -/
def beginRenewal : State → Except String Unit × State
  | .granted lease => (pure (), .renewing lease)
  | state => (throw "renewal requires a granted idle authorization transaction", state)

/-- `ConnAuthz::prepare_renewal`. -/
def prepareRenewal (state : State) (view : View) (next : VerifiedGrant) : Except String ActiveGrant :=
  match state with
  | .renewing lease =>
    match view.now with
    | .error _ => throw "grant clock unavailable"
    | .ok now =>
      if !lease.current.liveAt now then throw "previous grant expired"
      else
        match lease.current.grant.permitsRenewal next with
        | .error _ => throw "invalid grant renewal"
        | .ok true => ActiveGrant.new next now
        -- an exact retry keeps the accepted deadline
        | .ok false => pure lease.current
  | _ => throw "renewal interrupted"

/-- `ConnAuthz::commit_renewal`: the result, the state, and the lease that is dropped. -/
def commitRenewal (state : State) (next : ActiveGrant) (view : View) :
    Except String Unit × State × Option GrantLease :=
  match state with
  | .renewing lease =>
    if !view.isClosed && lease.current.live view.now && next.live view.nowNext &&
        view.revocations.revocationsPermit next.grant.id view.nowFresh then
      if view.isClosedAfter then (throw "renewal interrupted", .closed, some lease)
      else (pure (), .granted { lease with current := next }, none)
    else (throw "renewal interrupted", .closed, some lease)
  | state => (throw "renewal interrupted", .closed, state.lease)

/-! ### Connections and their tasks -/

/-- Where a task stands. -/
inductive Phase where
  /-- `begin` or `begin_renewal` failed; there is no `Admission`. -/
  | refused (message : String)
  /-- The `Admission` exists. -/
  | verifying (renewal : Bool)
  /-- `install` holds the lock and its slot. -/
  | installing
  /-- The acknowledgement is being sent, for a renewal with what was prepared. -/
  | replying (next : Option ActiveGrant)
  /-- The grant is committed, the stream is not finished. -/
  | finishing
  /-- The task ended with a committed `Admission`. -/
  | committed
  /-- The `Admission` is dropped without commit, or a closer runs: `close` comes next. -/
  | unwinding
  /-- `close` has replaced the state. -/
  | closing
  /-- The task ended after `close`. -/
  | ended

/-- A connection: the state, the claim of an `install` that holds the lock, the leases that closers took
out and have not dropped, and the tasks. -/
structure Conn where
  state : State
  claimed : Option (ℕ × VerifiedGrant × Reading)
  dropping : List (ℕ × GrantLease)
  tasks : Table ℕ Phase

namespace Conn

/-- A new connection. -/
def new (required : Bool) : Conn := ⟨newState required, none, [], .empty⟩

/-- The ids of the live `GrantSlot`s of a connection. -/
def slots (self : Conn) : List GrantId :=
  self.state.lease.toList.map (·.slot) ++ self.claimed.toList.map (·.2.1.id) ++
    self.dropping.map (·.2.slot)

/-- The task moves on. -/
def goto (self : Conn) (t : ℕ) (phase : Phase) : Conn :=
  { self with tasks := self.tasks.insert t phase }

/-- The lock is free. -/
def unlocked (self : Conn) : Bool := self.claimed.isNone

/-- A lease is dropped: its slot leaves the set. -/
def dropLease (active : Finset GrantId) : Option GrantLease → Finset GrantId
  | some lease => active.erase lease.slot
  | none => active

/-- The start of `authorize`. -/
def authorize (self : Conn) (t : ℕ) (renewal : Bool) : Conn :=
  match if renewal then beginRenewal self.state else begin self.state with
  | (.ok _, state) => { self with state }.goto t (.verifying renewal)
  | (.error message, state) => { self with state }.goto t (.refused message)

/-- `authorize` with what verification and the deployment binding gave, as far as the claim of `install`
or through `prepare_renewal`. -/
def offer (audience : EndpointKey) (active : Finset GrantId) (self : Conn) (t : ℕ) (renewal : Bool)
    (verified : Except GrantError VerifiedGrant) (view : View) : Finset GrantId × Conn :=
  match verified with
  | .error _ => (active, self.goto t .unwinding)
  | .ok verified =>
    if renewal then
      match prepareRenewal self.state view verified with
      | .ok next => (active, self.goto t (.replying (some next)))
      | .error _ => (active, self.goto t .unwinding)
    else
      match installChecks audience self.state view verified with
      | .error _ => (active, self.goto t .unwinding)
      | .ok now =>
        match claim active verified.id with
        | .error _ => (active, self.goto t .unwinding)
        | .ok active => (active, { self with claimed := some (t, verified, now) }.goto t .installing)

/-- The rest of `install`: the lease is built, or the slot dropped. -/
def build (active : Finset GrantId) (self : Conn) : Option (Finset GrantId × Conn) :=
  match self.claimed with
  | none => none
  | some (t, verified, now) =>
    match ActiveGrant.new verified now with
    | .ok current =>
      some (active, { self with state := .authorizing (some ⟨current, verified.id⟩), claimed := none }.goto t
        (.replying none))
    | .error _ => some (active.erase verified.id, { self with claimed := none }.goto t .unwinding)

/-- `commit_renewal` with what was prepared, or `commit`. -/
def conclude (state : State) (next : Option ActiveGrant) (view : View) :
    Except String Unit × State × Option GrantLease :=
  match next with
  | some next => commitRenewal state next view
  | none => commit state view

/-- `authorize` after the acknowledgement. -/
def settle (active : Finset GrantId) (self : Conn) (t : ℕ) (next : Option ActiveGrant) (view : View) :
    Finset GrantId × Conn :=
  match conclude self.state next view with
  | (.ok _, state, dropped) => (dropLease active dropped, { self with state }.goto t .finishing)
  | (.error _, state, dropped) => (dropLease active dropped, { self with state }.goto t .unwinding)

/-- `close` under the lock. -/
def close (self : Conn) (t : ℕ) : Conn :=
  { self with
    state := .closed
    dropping := self.state.lease.toList.map (fun lease => (t, lease)) ++ self.dropping }.goto t .closing

/-- The end of `close`: what it took out is dropped. -/
def release (active : Finset GrantId) (self : Conn) (t : ℕ) : Finset GrantId × Conn :=
  ((self.dropping.filter (·.1 = t)).foldl (fun active d => active.erase d.2.slot) active,
    { self with dropping := self.dropping.filter (·.1 ≠ t) }.goto t .ended)

end Conn

/-! ### The machine -/

/-- What a task of a connection does next. -/
inductive Act where
  /-- An `Authz` or renewal message arrives. -/
  | authorize (renewal : Bool)
  /-- Verification ends. -/
  | offer (verified : Except GrantError VerifiedGrant) (view : View)
  /-- `install` goes on after its claim. -/
  | build
  /-- The acknowledgement is sent, or fails or is cancelled. -/
  | reply (sent : Bool) (view : View)
  /-- `send.finish()`. -/
  | finish (ok : Bool)
  /-- `ConnectionLifetime::drop` or `close_and_wait`. -/
  | shut
  /-- `close` replaces the state. -/
  | close
  /-- `close` drops what it took. -/
  | release

/-- One action of task `t` on its connection. -/
def Conn.step (audience : EndpointKey) (t : ℕ) (act : Act) (active : Finset GrantId) (conn : Conn) :
    Option (Finset GrantId × Conn) :=
  match act, conn.tasks.get t with
  | .authorize renewal, none => if conn.unlocked then some (active, conn.authorize t renewal) else none
  | .offer verified view, some (.verifying renewal) =>
    if conn.unlocked then some (conn.offer audience active t renewal verified view) else none
  | .build, some .installing => if conn.claimed.any (·.1 = t) then conn.build active else none
  | .reply sent view, some (.replying next) =>
    if !sent then some (active, conn.goto t .unwinding)
    else if conn.unlocked then some (conn.settle active t next view) else none
  | .finish ok, some .finishing => some (active, conn.goto t (if ok then .committed else .unwinding))
  | .shut, none => some (active, conn.goto t .unwinding)
  | .close, some .unwinding => if conn.unlocked then some (active, conn.close t) else none
  | .release, some .closing => some (conn.release active t)
  | _, _ => none

/-- An agent: `active_grants` and the connections. -/
structure World where
  active : Finset GrantId
  conns : ℕ → Conn

/-- What the connections are created with. -/
structure Setup where
  required : ℕ → Bool
  audience : ℕ → EndpointKey

/-- No connection has received anything. -/
def start (setup : Setup) : World := ⟨∅, fun c => .new (setup.required c)⟩

/-- The agent: an action names its connection and its task. -/
def agent (setup : Setup) : Machine World (ℕ × ℕ × Act) where
  step := fun (c, t, act) s =>
    ((s.conns c).step (setup.audience c) t act s.active).map fun r =>
      ⟨r.1, Function.update s.conns c r.2⟩

end Rds.Agent.Authz
