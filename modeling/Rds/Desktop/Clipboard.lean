import Rds.Desktop.KeyHolds
import Rds.Framework.Instant

/-!
# Copies between windows

Each session of the viewer has a `Clipboard` (`rds-desktop/src/render/clipboard.rs`). When the remote side
offers a text, the clipboard requests it, assembles its chunks and hands it to the native clipboard. The
clipboards of one process share a `CopyFence`: a request, or an explicit copy in a focused window, takes a new
epoch, and a reply that was requested under an older epoch is dropped.

A step is one call, or one of the two critical sections of `SessionView::clipboard_work`. Calls of other
sessions and of the network may come between these. The log records what was offered, claimed, requested,
received and written.

`Transfer` ties the state of a clipboard to the log: a request that is open, or complete, was made at a place
of the log, and what has been received since is what the clipboard has assembled. An epoch is a `u64` that
wraps. Up to that, it counts the claims.
-/

namespace Rds.Desktop.Clip

open Framework Function List Option UInt64 Machine

/-- `MAX_TEXT_BYTES`. -/
def maxTextBytes : ℕ := 1024 * 1024

/-- `CHUNK_BYTES`. -/
def chunkBytes : ℕ := 32 * 1024

/-- `COPY_HANDOFF`. -/
def copyHandoff : Duration := .fromSecs 5

/-- `IDLE_TIMEOUT`. -/
def idleTimeout : Duration := .fromSecs 5

/-- `TRANSFER_TIMEOUT`, and how long a request is open. -/
def transferTimeout : Duration := .fromSecs 30

/-- `Instant::elapsed`, at a time. -/
def elapsed (now at_ : Instant) : Duration := now.saturatingDurationSince at_

/-- `String::from_utf8`. A string is its bytes. -/
def fromUtf8 (bytes : Bytes) : Option Bytes := if bytes.toByteArray.utf8Decode?.isSome then some bytes else none

/-! ### Assembly -/

/-- `Partial`. -/
structure Partial where
  id : UInt64
  total : ℕ
  bytes : Bytes
  started : Instant
  progressed : Instant
  deriving DecidableEq

/-- `Assembly`. -/
abbrev Assembly := Option Partial

/-- `bad` of `Assembly::push`. -/
def bad (reason : String) : DesktopError := .input s!"clipboard transfer refused: {reason}"

/-- `Assembly::push`. -/
def push (self : Assembly) (id : UInt64) (offset total : ℕ) (data : Bytes) (now : Instant) :
    Except DesktopError (Option Bytes) × Assembly :=
  if total > maxTextBytes ∨ data.length > chunkBytes then (.error (bad "size bound exceeded"), none)
  else if offset = 0 ∧ self.isSome then (.error (bad "overlapping transfer"), none)
  else
    match if offset = 0 then some ⟨id, total, [], now, now⟩ else self with
    | none => (.error (bad "missing initial chunk"), none)
    | some p =>
      if p.id ≠ id ∨ p.total ≠ total then (.error (bad "identity or length changed"), none)
      else if p.bytes.length ≠ offset ∨ p.bytes.length + data.length > total then
        (.error (bad "invalid chunk offset"), none)
      else if elapsed now p.started > transferTimeout then (.error (bad "total deadline exceeded"), none)
      else if elapsed now p.progressed > idleTimeout then (.error (bad "idle deadline exceeded"), none)
      else if data = [] ∧ total ≠ 0 then (.error (bad "empty progress chunk"), none)
      else
        let bytes := p.bytes ++ data
        if bytes.length ≠ total then (.ok none, some { p with bytes, progressed := now })
        else
          match fromUtf8 bytes with
          | some text => (.ok (some text), none)
          | none => (.error (bad "invalid UTF-8"), none)

/-! ### Clipboards -/

/-- `CopySnapshot`. -/
structure CopySnapshot where
  epoch : UInt64
  pending : Bool
  publishedGeneration : Option ℤ
  deriving DecidableEq

/-- `CopyFence`. -/
structure CopyFence where
  epoch : UInt64
  status : Option CopySnapshot
  deriving DecidableEq

/-- `CopyFence::set`. -/
def CopyFence.set (self : CopyFence) (claim : Option UInt64) (pending : Bool) (publishedGeneration : Option ℤ) :
    CopyFence :=
  if claim = some self.epoch then { self with status := some ⟨self.epoch, pending, publishedGeneration⟩ }
  else self

/-- `Clipboard`, without its fence. -/
structure Clipboard where
  focused : Bool
  offered : Option (UInt64 × ℕ)
  requested : Option (UInt64 × ℕ × Instant)
  assembly : Assembly
  complete : Option Bytes
  generation : Option ℤ
  authorized : Bool
  copyIntent : Option (ℤ × Instant)
  claim : Option UInt64
  deriving DecidableEq

namespace Clipboard

/-- `Clipboard::with_arbiter`. -/
def new : Clipboard := ⟨false, none, none, none, none, none, false, none, none⟩

variable (self : Clipboard) (fence : CopyFence) (now : Instant)

/-- `Clipboard::current`. -/
def current : Bool := self.claim.all (· = fence.epoch)

/-- `Clipboard::claim`. -/
def takeClaim : Clipboard × CopyFence :=
  let epoch := fence.epoch + 1
  ({ self with claim := some epoch }, CopyFence.set { fence with epoch } (some epoch) true none)

/-- `Clipboard::publication_failed`. -/
def publicationFailed : CopyFence := fence.set self.claim false none

/-- `Clipboard::copy_pending`. -/
def copyPending : Bool := self.current fence && self.copyIntent.any fun x => elapsed now x.2 < copyHandoff

/-- The open request has expired. -/
def expired : Bool := self.requested.any fun x => elapsed now x.2.2 > transferTimeout

/-- `Clipboard::needs_work`. -/
def needsWork : Bool :=
  self.complete.isSome ||
    ((self.focused || self.copyPending fence now) && self.offered.isSome &&
      (self.requested.isNone || self.expired now))

/-- `Clipboard::reset`. -/
def reset : Clipboard × CopyFence := ({ new with focused := self.focused }, self.publicationFailed fence)

/-- `Clipboard::handoff_pending`. -/
def handoffPending (generation : ℤ) : Bool × Clipboard × CopyFence :=
  if ¬ self.current fence then (false, self.reset fence)
  else
    match self.copyIntent with
    | some (before, at_) =>
      if before = generation ∧ elapsed now at_ < copyHandoff then (true, self, fence)
      else (false, self.reset fence)
    | none =>
      if ¬ self.authorized then (false, self, fence)
      else if self.generation = some generation ∧
          (self.complete.isSome ∨ self.requested.any fun x => elapsed now x.2.2 < transferTimeout) then
        (true, self, fence)
      else (false, self.reset fence)

/-- `Clipboard::focus`. -/
def focus (focused : Bool) : Clipboard :=
  let clip := { self with focused }
  if ¬ focused ∧ ¬ clip.copyPending fence now then { clip with offered := none } else clip

/-- `Clipboard::copying`. -/
def copying (generation : ℤ) : Clipboard × CopyFence :=
  if self.focused then
    let (clip, fence) := self.takeClaim fence
    ({ clip with offered := none, copyIntent := some (generation, now) }, fence)
  else (self, fence)

/-- `Clipboard::offer`. `text` says that the format is UTF-8 text. -/
def offer (id : UInt64) (text : Bool) (bytes : ℕ) : Clipboard :=
  if (self.focused ∨ self.copyPending fence now) ∧ text ∧ bytes ≤ maxTextBytes then
    { self with offered := some (id, bytes) }
  else self

/-- An expired request is given up. -/
def giveUp : Clipboard := if self.expired now then { self with requested := none, assembly := none } else self

/-- `Clipboard::request`, with the id and the length it asks for. -/
def request (generation : ℤ) : Option (UInt64 × ℕ) × Clipboard × CopyFence :=
  if ¬ self.current fence then (none, self.reset fence)
  else if self.copyIntent.any fun x => x.1 ≠ generation ∨ elapsed now x.2 ≥ copyHandoff then
    (none, { self with copyIntent := none, offered := none }, self.publicationFailed fence)
  else
    let clip := self.giveUp now
    if (¬ clip.focused ∧ ¬ clip.copyPending fence now) ∨ clip.requested.isSome ∨ clip.complete.isSome then
      (none, clip, fence)
    else
      match clip.offered with
      | none => (none, clip, fence)
      | some (id, bytes) =>
        let (claimed, fence) := if clip.copyIntent.isNone then clip.takeClaim fence else (clip, fence)
        (some (id, bytes),
          { claimed with
            offered := none
            copyIntent := none
            requested := some (id, bytes, now)
            generation := some generation
            authorized := true }, fence)

/-- `Clipboard::chunk`. -/
def chunk (id : UInt64) (offset total : ℕ) (data : Bytes) : Except DesktopError Unit × Clipboard × CopyFence :=
  if ¬ self.focused ∧ ¬ self.authorized then (.ok (), self, fence)
  else if ¬ self.requested.any fun x => x.1 = id ∧ x.2.1 = total ∧ ¬ elapsed now x.2.2 > transferTimeout then
    (.error (.input "unsolicited or expired clipboard transfer"), self, fence)
  else
    match push self.assembly id offset total data now with
    | (.ok (some text), assembly) =>
      (.ok (), { self with assembly, complete := some text, requested := none }, fence)
    | (.ok none, assembly) => (.ok (), { self with assembly }, fence)
    | (.error e, _) => (.error e, self.reset fence)

/-- `Clipboard::failed`. -/
def failed (id : UInt64) : Clipboard × CopyFence :=
  if self.requested.any fun x => x.1 = id then
    ({ self with requested := none, assembly := none, generation := none, authorized := false },
      self.publicationFailed fence)
  else (self, fence)

/-- `Clipboard::publish`. -/
def publish (generation : ℤ) : Option Bytes × Clipboard :=
  match self.complete with
  | none => (none, self)
  | some value =>
    let permitted := self.authorized ∧ self.current fence ∧ self.generation = some generation ∧
      self.copyIntent.isNone
    (if permitted then some value else none,
      { self with complete := none, authorized := false, generation := none })

end Clipboard

/-! ### The process -/

/-- What happens, by the session it happens to. -/
inductive Event
  | offered (clip : ℕ) (id : UInt64) (bytes : ℕ)
  /-- A request, or an explicit copy, takes a new epoch. -/
  | claimed (clip : ℕ)
  | requested (clip : ℕ) (id : UInt64) (bytes : ℕ) (generation : ℤ)
  /-- A chunk is taken into the assembly. -/
  | received (clip : ℕ) (id : UInt64) (data : Bytes)
  /-- The text goes to the native clipboard. -/
  | written (clip : ℕ) (text : Bytes) (generation : ℤ)
  deriving DecidableEq

/-- The clipboards of a process. -/
structure World where
  clips : ℕ → Clipboard
  fence : CopyFence
  /-- The sessions that are in a pass, and whether it has published. -/
  working : ℕ → Option Bool
  clock : Instant
  log : List Event

/-- One call. -/
inductive Call
  | focus (focused : Bool)
  | copying (generation : ℤ)
  | offer (id : UInt64) (text : Bool) (bytes : ℕ)
  | chunk (id : UInt64) (offset total : ℕ) (data : Bytes)
  | failed (id : UInt64)
  | reset
  | handoffPending (generation : ℤ)
  /-- `clipboard_work` up to the native clipboard. The generation may be unavailable, and the native clipboard
  may refuse the text. -/
  | publish (generation : Option ℤ) (accepted : Bool)
  /-- The rest of `clipboard_work`. -/
  | request (generation : Option ℤ)
  deriving DecidableEq

/-- A call of a session, at a time. -/
structure Act where
  clip : ℕ
  call : Call
  now : Instant
  deriving DecidableEq

namespace World

/-- Write a clipboard back. -/
def put (w : World) (c : ℕ) (clip : Clipboard) (fence : CopyFence) (events : List Event) : World :=
  { w with clips := update w.clips c clip, fence, log := w.log ++ events }

/-- `clipboard_work` up to the native clipboard. -/
def publish (w : World) (c : ℕ) (generation : Option ℤ) (accepted : Bool) (now : Instant) : World :=
  match generation with
  | none => w
  | some generation =>
    if ¬ (w.clips c).needsWork w.fence now then w
    else
      match (w.clips c).publish w.fence generation with
      | (none, clip) => { w.put c clip w.fence [] with working := update w.working c (some false) }
      | (some text, clip) =>
        { w.put c clip (if accepted then w.fence else clip.publicationFailed w.fence)
            [.written c text generation] with
          working := update w.working c (some accepted) }

/-- The rest of `clipboard_work`. -/
def request (w : World) (c : ℕ) (published : Bool) (generation : Option ℤ) (now : Instant) : World :=
  let w := { w with working := update w.working c none }
  match generation with
  | none => w.put c (w.clips c) ((w.clips c).publicationFailed w.fence) []
  | some generation =>
    let fence := if published then w.fence.set (w.clips c).claim false (some generation) else w.fence
    match (w.clips c).request fence now generation with
    | (none, clip, fence) => w.put c clip fence []
    | (some (id, bytes), clip, fence') =>
      w.put c clip fence'
        ((if (w.clips c).copyIntent.isNone then [.claimed c] else []) ++ [.requested c id bytes generation])

/-- One call. -/
def perform (w : World) (c : ℕ) (now : Instant) : Call → Option World
  | .focus focused => some (w.put c ((w.clips c).focus w.fence now focused) w.fence [])
  | .copying generation =>
    let (clip, fence) := (w.clips c).copying w.fence now generation
    some (w.put c clip fence (if (w.clips c).focused then [.claimed c] else []))
  | .offer id text bytes =>
    some (w.put c ((w.clips c).offer w.fence now id text bytes) w.fence [.offered c id bytes])
  | .chunk id offset total data =>
    match (w.clips c).chunk w.fence now id offset total data with
    | (.ok _, clip, fence) =>
      some (w.put c clip fence (if (w.clips c).requested.isSome ∧
        ((w.clips c).focused ∨ (w.clips c).authorized) then [.received c id data] else []))
    | (.error _, clip, fence) => some (w.put c clip fence [])
  | .failed id =>
    let (clip, fence) := (w.clips c).failed w.fence id
    some (w.put c clip fence [])
  | .reset =>
    let (clip, fence) := (w.clips c).reset w.fence
    some (w.put c clip fence [])
  | .handoffPending generation =>
    let (_, clip, fence) := (w.clips c).handoffPending w.fence now generation
    some (w.put c clip fence [])
  | .publish generation accepted => if (w.working c).isNone then some (w.publish c generation accepted now) else none
  | .request generation => (w.working c).map fun published => w.request c published generation now

/-- One call, at a time that does not go back. -/
def step (a : Act) (w : World) : Option World :=
  if w.clock ≤ a.now then (w.perform a.clip a.now a.call).map fun w => { w with clock := a.now } else none

/-- New clipboards. -/
def start (clock : Instant) : World := ⟨fun _ => .new, ⟨0, none⟩, fun _ => none, clock, []⟩

end World

/-- The process. -/
def process : Machine World Act := ⟨World.step⟩

/-! ### Places in the log -/

/-- The number of claims. -/
def claims (log : List Event) : ℕ := log.countP fun e => match e with | .claimed _ => true | _ => false

/-- The clipboard an event happens to. -/
def Event.clip : Event → ℕ
  | .offered c _ _ | .claimed c | .requested c _ _ _ | .received c _ _ | .written c _ _ => c

/-- The event begins or ends a transfer of the clipboard. -/
def Event.Bounds (c : ℕ) : Event → Prop
  | .requested c' _ _ _ => c' = c
  | .written c' _ _ => c' = c
  | _ => False

/-- What a clipboard received of a transfer. -/
def received (c : ℕ) (id : UInt64) (log : List Event) : Bytes :=
  log.flatMap fun e => match e with
    | .received c' id' data => if c' = c ∧ id' = id then data else []
    | _ => []

/-- The last request of the clipboard in the log, what it has received since, and the epoch it was made in. -/
def Transfer (c : ℕ) (log : List Event) (id : UInt64) (bytes : ℕ) (generation : ℤ) (data : Bytes) (epoch : UInt64) :
    Prop :=
  ∃ before since, log = before ++ .requested c id bytes generation :: since ∧ .offered c id bytes ∈ before ∧
    (∀ e ∈ since, ¬ e.Bounds c) ∧ data = received c id since ∧ epoch = UInt64.ofNat (claims before)

/-- A transfer that the clipboard holds. It is published only in the generation of its request, and while it is
`live` and no copy is intended, the claim of the clipboard is the epoch of the request. -/
def Owned (c : ℕ) (log : List Event) (clip : Clipboard) (id : UInt64) (bytes : ℕ) (data : Bytes) (live : Prop) :
    Prop :=
  ∃ generation epoch, Transfer c log id bytes generation data epoch ∧
    (clip.authorized = true → clip.generation = some generation) ∧
    (clip.copyIntent = none → live → clip.claim = some epoch)

/-- What an assembly has so far. -/
def assembled (assembly : Assembly) : Bytes := (assembly.map Partial.bytes).getD []

/-- What a clipboard has to do with the log. -/
structure Sound (c : ℕ) (log : List Event) (clock : Instant) (working : Option Bool) (clip : Clipboard) : Prop where
  offered : ∀ id bytes, clip.offered = some (id, bytes) → .offered c id bytes ∈ log
  exclusive : clip.requested = none ∨ clip.complete = none
  fresh : clip.requested = none → clip.assembly = none
  claimed : clip.copyIntent.isSome = true → clip.claim.isSome = true
  /-- An open request. -/
  opened : ∀ id bytes at_, clip.requested = some (id, bytes, at_) →
    Owned c log clip id bytes (assembled clip.assembly) (¬ elapsed clock at_ > transferTimeout)
  /-- A complete text. -/
  done : ∀ text, clip.complete = some text →
    fromUtf8 text = some text ∧ ∃ id, Owned c log clip id text.length text True
  /-- In a pass there is nothing to publish and nothing that could be completed. -/
  idle : working.isSome = true → clip.complete = none ∧
    ∀ id bytes at_, clip.requested = some (id, bytes, at_) → elapsed clock at_ > transferTimeout

/-- The text was requested, received, and not superseded, unless the epoch has wrapped since. -/
def Answered (log : List Event) (c : ℕ) (text : Bytes) (generation : ℤ) : Prop :=
  ∃ before since id, log = before ++ .requested c id text.length generation :: since ∧
    .offered c id text.length ∈ before ∧ fromUtf8 text = some text ∧ text = received c id since ∧
    (∀ e ∈ since, ¬ e.Bounds c) ∧ (claims since < 2 ^ 64 → ∀ c', .claimed c' ∉ since)

/-- What is written was requested, received, and not superseded. -/
def Justified (log : List Event) : Prop :=
  ∀ front c text generation back, log = front ++ .written c text generation :: back →
    Answered front c text generation

section Log

variable {c c' : ℕ} {log : List Event} {id : UInt64} {bytes : ℕ} {generation : ℤ} {data : Bytes} {epoch : UInt64}

theorem claims_append (log log' : List Event) : claims (log ++ log') = claims log + claims log' :=
  countP_append

theorem received_append (log log' : List Event) : received c id
    (log ++ log') = received c id log ++ received c id log' :=
  flatMap_append

theorem Transfer.append (h : Transfer c log id bytes generation data epoch) {events : List Event}
    (hevents : ∀ e ∈ events, ¬ e.Bounds c) :
    Transfer c (log ++ events) id bytes generation (data ++ received c id events) epoch := by
  obtain ⟨before, since, rfl, hoffered, hsince, rfl, hepoch⟩ := h
  refine ⟨before, since ++ events, ?_, hoffered, fun e he => ?_, (received_append _ _).symm, hepoch⟩
  · rw [append_assoc, cons_append]
  · rcases mem_append.mp he with he | he
    · exact hsince e he
    · exact hevents e he

/-- Events that are not about the transfers of a clipboard. -/
def Neutral (c : ℕ) (events : List Event) : Prop :=
  ∀ e ∈ events, ¬ e.Bounds c ∧ ∀ id data, e ≠ .received c id data

theorem Neutral.received_eq {events : List Event} (h : Neutral c events)
    (id : UInt64) : received c id events = [] := by
  unfold received
  rw [flatMap_eq_nil_iff]
  intro e he
  cases e with
  | received c' id' data => exact if_neg fun (heq : c' = c ∧ id' = id) => (h _ he).2 id' data (heq.1 ▸ rfl)
  | offered | claimed | requested | written => rfl

theorem elapsed_mono {clock now at_ : Instant} (hnow : clock ≤ now) (h : elapsed clock at_ > transferTimeout) :
    elapsed now at_ > transferTimeout := by
  have hns : transferTimeout.ns < clock.ns - at_.ns := h
  have hle : clock.ns ≤ now.ns := hnow
  show transferTimeout.ns < now.ns - at_.ns
  omega

theorem Owned.later {clip : Clipboard} {live live' : Prop} (h : Owned c log clip id bytes data live)
    {events : List Event} (hevents : Neutral c events) (hlive : live' → live) :
    Owned c (log ++ events) clip id bytes data live' := by
  obtain ⟨generation, epoch, htransfer, hauthorized, hclaim⟩ := h
  have happend := htransfer.append fun e he => (hevents e he).1
  rw [hevents.received_eq, append_nil] at happend
  exact ⟨generation, epoch, happend, hauthorized, fun hintent h => hclaim hintent (hlive h)⟩

namespace Sound

variable {clock now : Instant} {working : Option Bool} {clip clip' : Clipboard} {events : List Event}

theorem of_empty (hoffered : ∀ id bytes, clip.offered = some (id, bytes) → .offered c id bytes ∈ log)
    (hclaimed : clip.copyIntent.isSome = true → clip.claim.isSome = true) (hrequested : clip.requested = none)
    (hassembly : clip.assembly = none) (hcomplete : clip.complete = none) : Sound c log clock working clip where
  offered := hoffered
  exclusive := .inl hrequested
  fresh _ := hassembly
  claimed := hclaimed
  opened _ _ _ h := nomatch hrequested.symm.trans h
  done _ h := nomatch hcomplete.symm.trans h
  idle _ := ⟨hcomplete, fun _ _ _ h => nomatch hrequested.symm.trans h⟩

theorem reset (fence : CopyFence) : Sound c log clock working (clip.reset fence).1 :=
  of_empty nofun nofun rfl rfl rfl

section

variable (h : Sound c log clock working clip) (fence : CopyFence)
include h

theorem later (hnow : clock ≤ now) (hevents : Neutral c events) :
    Sound c (log ++ events) now working clip where
  offered id bytes hoffered := List.mem_append_left _ (h.offered id bytes hoffered)
  exclusive := h.exclusive
  fresh := h.fresh
  claimed := h.claimed
  opened id bytes at_ hrequested :=
    (h.opened id bytes at_ hrequested).later hevents fun hlive hold => hlive (elapsed_mono hnow hold)
  done text hcomplete := (h.done text hcomplete).imp_right (Exists.imp fun _ hheld => hheld.later hevents fun h => h)
  idle hworking := (h.idle hworking).imp_right fun hold id bytes at_ hrequested =>
    elapsed_mono hnow (hold id bytes at_ hrequested)

theorem of_offer {focused : Bool} {offered : Option (UInt64 × ℕ)}
    (hoffered : ∀ id bytes, offered = some (id, bytes) → .offered c id bytes ∈ log) :
    Sound c log clock working { clip with focused, offered } :=
  ⟨hoffered, h.exclusive, h.fresh, h.claimed, h.opened, h.done, h.idle⟩

theorem focus (focused : Bool) :
    Sound c log clock working (clip.focus fence now focused) := by
  unfold Clipboard.focus
  dsimp only
  split
  · exact h.of_offer nofun
  · exact h.of_offer h.offered

/-- A copy suspends the transfer: it is not published while the copy is intended. -/
theorem copying (generation : ℤ) :
    Sound c log clock working (clip.copying fence now generation).1 := by
  unfold Clipboard.copying
  split
  · refine ⟨nofun, h.exclusive, h.fresh, fun _ => rfl, fun id bytes at_ hrequested => ?_,
      fun text hcomplete => ?_, h.idle⟩
    · obtain ⟨g, epoch, htransfer, hauthorized, -⟩ := h.opened id bytes at_ hrequested
      exact ⟨g, epoch, htransfer, hauthorized, nofun⟩
    · obtain ⟨hutf, id, g, epoch, htransfer, hauthorized, -⟩ := h.done text hcomplete
      exact ⟨hutf, id, g, epoch, htransfer, hauthorized, nofun⟩
  · exact h

theorem failed (id : UInt64) :
    Sound c log clock working (clip.failed fence id).1 := by
  unfold Clipboard.failed
  split
  next hany =>
    refine of_empty h.offered h.claimed rfl rfl (h.exclusive.resolve_left fun hnone => ?_)
    rw [hnone] at hany
    cases hany
  next => exact h

theorem handoffPending (generation : ℤ) :
    Sound c log clock working (clip.handoffPending fence now generation).2.1 := by
  unfold Clipboard.handoffPending
  repeat' split
  all_goals first
    | exact h
    | exact reset fence

end

end Sound

/-! ### Chunks -/

theorem eq_of_fromUtf8 {text : Bytes}
    (h : fromUtf8 data = some text) : text = data ∧ fromUtf8 text = some text := by
  have heq : data = text := by
    exact (ite_none_right_eq_some.mp h).2 |> Option.some.inj
  subst heq
  exact ⟨rfl, h⟩

/-- What a chunk is checked for. It continues `p`, which the first chunk of a transfer starts. -/
structure Continues (assembly : Assembly) (id : UInt64) (offset total : ℕ) (data : Bytes) (now : Instant) (p : Partial) :
    Prop where
  size : total ≤ maxTextBytes ∧ data.length ≤ chunkBytes
  found : assembly = none ∧ offset = 0 ∧ p = ⟨id, total, [], now, now⟩ ∨ assembly = some p ∧ offset ≠ 0
  same : p.id = id ∧ p.total = total
  place : p.bytes.length = offset ∧ p.bytes.length + data.length ≤ total
  inTime : elapsed now p.started ≤ transferTimeout ∧ elapsed now p.progressed ≤ idleTimeout
  progress : ¬ (data = [] ∧ total ≠ 0)

section Push

variable {assembly assembly' : Assembly} {offset total : ℕ} {now : Instant} {p : Partial}

theorem Continues.bytes_eq (h : Continues assembly id offset total data now p) : p.bytes = assembled assembly := by
  rcases h.found with ⟨rfl, -, rfl⟩ | ⟨rfl, -⟩ <;> rfl

theorem push_of_continues (h : Continues assembly id offset total data now p) :
    push assembly id offset total data now = if (p.bytes ++ data).length ≠ total then
    (.ok none, some { p with bytes := p.bytes ++ data, progressed := now })
      else match fromUtf8 (p.bytes ++ data) with
        | some text => (.ok (some text), none)
        | none => (.error (bad "invalid UTF-8"), none) := by
  obtain ⟨hsize, hfound, hsame, hplace, htime, hprogress⟩ := h
  have hpartial : (if offset = 0 then some ⟨id, total, [], now, now⟩ else assembly) = some p := by
    rcases hfound with ⟨-, rfl, rfl⟩ | ⟨rfl, hne⟩
    · rfl
    · exact if_neg hne
  have hfresh : ¬ (offset = 0 ∧ assembly.isSome = true) := by
    rcases hfound with ⟨rfl, -⟩ | ⟨-, hne⟩
    · exact nofun
    · exact fun h => hne h.1
  unfold push
  rw [if_neg (by omega), if_neg hfresh, hpartial]
  dsimp only
  rw [if_neg (by simp [hsame]), if_neg (by omega), if_neg (not_lt.mpr htime.1), if_neg (not_lt.mpr htime.2),
    if_neg hprogress]

theorem continues_of_push {result : Option Bytes}
    (h : push assembly id offset total data now = (.ok result, assembly')) :
    ∃ p, Continues assembly id offset total data now p := by
  unfold push at h
  split at h
  · cases h
  split at h
  · cases h
  split at h
  · cases h
  next hsize hfresh _ p hp =>
  split at h
  · cases h
  split at h
  · cases h
  split at h
  · cases h
  split at h
  · cases h
  split at h
  · cases h
  next hsame hplace htotal hidle hprogress =>
  refine ⟨p, by omega, ?_, by simpa using hsame, by omega, ⟨not_lt.mp htotal, not_lt.mp hidle⟩, hprogress⟩
  split at hp
  next hzero =>
    cases assembly with
    | none => exact .inl ⟨rfl, hzero, (Option.some.inj hp).symm⟩
    | some q => exact absurd ⟨hzero, rfl⟩ hfresh
  next hne => exact .inr ⟨hp, hne⟩

/-- **What a chunk adds.** -/
theorem push_eq_ok {result : Option Bytes}
    (h : push assembly id offset total data now = (.ok result, assembly')) :
    match result with
    | some text => text = assembled assembly ++ data ∧ text.length = total ∧ fromUtf8 text = some text ∧ assembly' = none
    | none => assembled assembly' = assembled assembly ++ data := by
  obtain ⟨p, hp⟩ := continues_of_push h
  have heq := (push_of_continues hp).symm.trans h
  rw [← hp.bytes_eq]
  split at heq
  next =>
    cases heq
    rfl
  next hfull =>
  split at heq
  next text htext =>
    cases heq
    obtain ⟨rfl, hutf⟩ := eq_of_fromUtf8 htext
    exact ⟨rfl, not_not.mp hfull, hutf, rfl⟩
  next => cases heq

end Push

theorem received_received (c : ℕ) (id : UInt64) (data : Bytes) : received c id
    [.received c id data] = data := by
  unfold received
  rw [flatMap_singleton]
  exact if_pos ⟨rfl, rfl⟩

namespace Sound

variable {clock now : Instant} {working : Option Bool} {working' : Bool} {clip clip' : Clipboard}
  {fence fence' : CopyFence} {offset total : ℕ}

/-- A chunk of the open request extends its transfer, and completes it with the last byte. -/
theorem pushed (h : Sound c log clock working clip) (hnow : clock ≤ now) {at_ : Instant} {assembly : Assembly}
    (hrequested : clip.requested = some (id, total, at_)) (hlive : ¬ elapsed now at_ > transferTimeout) :
    (∀ text, push clip.assembly id offset total data now = (.ok (some text), assembly) →
      Sound c (log ++ [.received c id data]) now working
        { clip with assembly, complete := some text, requested := none }) ∧
    (push clip.assembly id offset total data now = (.ok none, assembly) →
      Sound c (log ++ [.received c id data]) now working { clip with assembly }) := by
  obtain ⟨generation, epoch, htransfer, hauthorized, hclaim⟩ := h.opened _ _ _ hrequested
  have hcomplete := h.exclusive.resolve_left (hrequested ▸ nofun)
  have hlive' : ¬ elapsed clock at_ > transferTimeout := fun hold => hlive (elapsed_mono hnow hold)
  -- in a pass the request would have expired
  have hworking : ¬ working.isSome = true := fun hworking => hlive' ((h.idle hworking).2 _ _ _ hrequested)
  have hoffered : ∀ i b, clip.offered = some (i, b) → Event.offered c i b ∈ log ++ [.received c id data] :=
    fun i b ho => mem_append_left _ (h.offered i b ho)
  have hmore : Transfer c (log ++ [.received c id data]) _ _ _ _ _ := htransfer.append (by simp [Event.Bounds])
  rw [received_received] at hmore
  constructor
  · intro text hpush
    obtain ⟨htext, hlength, hutf, rfl⟩ := push_eq_ok hpush
    rw [← htext, ← hlength] at hmore
    refine ⟨hoffered, .inl rfl, fun _ => rfl, h.claimed, nofun, ?_, fun hw => absurd hw hworking⟩
    rintro _ ⟨⟩
    exact ⟨hutf, id, generation, epoch, hmore, hauthorized, fun hintent _ => hclaim hintent hlive'⟩
  · intro hpush
    have hbytes := push_eq_ok hpush
    dsimp only at hbytes
    rw [← hbytes] at hmore
    refine ⟨hoffered, .inr hcomplete, fun hnone => (nomatch hrequested.symm.trans hnone), h.claimed,
      fun i b t ht => ?_, fun t ht => (nomatch hcomplete.symm.trans ht), fun hw => absurd hw hworking⟩
    cases hrequested.symm.trans ht
    exact ⟨generation, epoch, hmore, hauthorized, fun hintent _ => hclaim hintent hlive'⟩

/-- What a chunk leaves to the log. -/
def chunkEvents (c : ℕ) (clip : Clipboard) (id : UInt64) (data : Bytes) : Except DesktopError Unit → List Event
  | .ok _ => if clip.requested.isSome ∧ (clip.focused ∨ clip.authorized) then [.received c id data] else []
  | .error _ => []

/-- A chunk that was not asked for is ignored or refused, one that does not fit resets the clipboard, and any
other one is received. -/
theorem chunk (h : Sound c log clock working clip) (hnow : clock ≤ now) {result : Except DesktopError Unit}
    (hchunk : clip.chunk fence now id offset total data = (result, clip', fence')) :
    Sound c (log ++ chunkEvents c clip id data result) now working clip' := by
  unfold Clipboard.chunk at hchunk
  split at hchunk
  next hidle =>
    cases hchunk
    rw [chunkEvents, if_neg fun hall => hall.2.elim hidle.1 hidle.2]
    exact h.later hnow nofun
  next hactive =>
  split at hchunk
  · cases hchunk
    exact h.later hnow nofun
  next hmatch =>
  obtain ⟨at_, hrequested, hlive⟩ : ∃ at_, clip.requested = some (id, total, at_) ∧
      ¬ elapsed now at_ > transferTimeout := by
    cases hrequested : clip.requested with
    | none => simp [hrequested] at hmatch
    | some x =>
      obtain ⟨i, b, at_⟩ := x
      rw [hrequested, any_some, Classical.not_not, decide_eq_true_eq] at hmatch
      obtain ⟨rfl, rfl, hlive⟩ := hmatch
      exact ⟨at_, rfl, hlive⟩
  have hreceived : chunkEvents c clip id data (.ok ()) = [.received c id data] :=
    if_pos ⟨by rw [hrequested]; rfl, or_iff_not_and_not.mpr hactive⟩
  split at hchunk
  next hpush =>
    cases hchunk
    rw [hreceived]
    exact (h.pushed hnow hrequested hlive).1 _ hpush
  next hpush =>
    cases hchunk
    rw [hreceived]
    exact (h.pushed hnow hrequested hlive).2 hpush
  next =>
    cases hchunk
    exact reset fence

/-! ### Passes -/

/-- A pass publishes a complete text, or finds no live request. -/
theorem publish (h : Sound c log clock working clip) (fence : CopyFence) (generation : ℤ)
    (working' : Option Bool) (hneeds : clip.needsWork fence clock = true) :
    Sound c log clock working' (clip.publish fence generation).2 ∧
      ((clip.publish fence generation).1.isSome = true → (clip.publish fence generation).2.requested = none) := by
  unfold Clipboard.publish
  cases hcomplete : clip.complete with
  | some text =>
    have hrequested := h.exclusive.resolve_right (hcomplete ▸ nofun)
    exact ⟨of_empty h.offered h.claimed hrequested (h.fresh hrequested) rfl, fun _ => hrequested⟩
  | none =>
    refine ⟨⟨h.offered, h.exclusive, h.fresh, h.claimed, h.opened, h.done, fun _ => ⟨hcomplete, ?_⟩⟩, nofun⟩
    intro id bytes at_ (hrequested : clip.requested = _)
    unfold Clipboard.needsWork Clipboard.expired at hneeds
    simp only [hcomplete, hrequested, isSome_none, isNone_some, any_some, Bool.false_or, Bool.and_eq_true,
      decide_eq_true_eq] at hneeds
    exact hneeds.2

/-- What is published was not superseded. -/
theorem published (h : Sound c log clock working clip) (hepoch : fence.epoch = UInt64.ofNat (claims log))
    {text : Bytes} {generation : ℤ} (hpublish : (clip.publish fence generation).1 = some text) :
    Answered log c text generation := by
  unfold Clipboard.publish at hpublish
  cases hcomplete : clip.complete with
  | none =>
    rw [hcomplete] at hpublish
    cases hpublish
  | some value =>
    rw [hcomplete] at hpublish
    obtain ⟨⟨hauthorized, hcurrent, hgeneration, hintent⟩, hvalue⟩ := ite_none_right_eq_some.mp hpublish
    cases hvalue
    obtain ⟨hutf, id, g, epoch, ⟨before, since, rfl, hoffered, hsince, htext, rfl⟩, hg, hclaim⟩ := h.done _ hcomplete
    rw [hg hauthorized] at hgeneration
    cases hgeneration
    refine ⟨before, since, id, rfl, hoffered, hutf, htext, hsince, fun hfew c' hmem => ?_⟩
    -- the epoch of the request is the current one, so nobody has claimed since
    unfold Clipboard.current at hcurrent
    rw [hclaim (isNone_iff_eq_none.mp hintent) trivial, all_some, decide_eq_true_eq, hepoch, claims_append] at hcurrent
    have hsince : claims (.requested c id text.length generation :: since) = claims since := rfl
    have hpos : 0 < claims since := countP_pos_iff.mpr ⟨_, hmem, rfl⟩
    have hnat := congrArg toNat hcurrent
    rw [toNat_ofNat', toNat_ofNat', hsince] at hnat
    omega

@[simp]
theorem epoch_set (fence : CopyFence) (claim : Option UInt64) (pending : Bool) (generation : Option ℤ) :
    (fence.set claim pending generation).epoch = fence.epoch := by
  unfold CopyFence.set
  split <;> rfl

/-- The events of a request. -/
def requestEvents (c : ℕ) (clip : Clipboard) (generation : ℤ) : Option (UInt64 × ℕ) → List Event
  | none => []
  | some (id, bytes) =>
    (if clip.copyIntent.isNone then [.claimed c] else []) ++ [.requested c id bytes generation]

/-- In a pass an open request has expired, so it is given up. -/
theorem giveUp_eq (h : Sound c log clock (some working') clip) :
    clip.giveUp clock = { clip with requested := none, assembly := none } := by
  unfold Clipboard.giveUp
  split
  · rfl
  next hlive =>
  have hnone : clip.requested = none := by
    cases hrequested : clip.requested with
    | none => rfl
    | some x => exact absurd (by simpa [Clipboard.expired, hrequested] using (h.idle rfl).2 _ _ _ hrequested) hlive
  rw [← hnone, ← h.fresh hnone]

/-- An intent that is dropped leaves no live request. -/
theorem dropIntent (h : Sound c log clock (some working') clip) :
    Sound c log clock none { clip with copyIntent := none, offered := none } := by
  obtain ⟨hcomplete, hover⟩ := h.idle rfl
  refine ⟨nofun, h.exclusive, h.fresh, nofun, fun id bytes at_ hrequested => ?_,
    fun text ht => (nomatch hcomplete.symm.trans ht), nofun⟩
  obtain ⟨g, epoch, htransfer, hauthorized, -⟩ := h.opened id bytes at_ hrequested
  exact ⟨g, epoch, htransfer, hauthorized, fun _ hlive => absurd (hover _ _ _ hrequested) hlive⟩

/-- A request takes a new claim, or has the one of the copy. -/
theorem takes_claim {claimed : Clipboard} {fence : CopyFence} (h : Sound c log clock working clip)
    (hcurrent : clip.current fence = true) (hepoch : fence.epoch = UInt64.ofNat (claims log))
    (hclaim : (if clip.copyIntent.isNone then clip.takeClaim fence else (clip, fence)) = (claimed, fence')) :
    claimed = { clip with claim := some fence'.epoch } ∧
      fence'.epoch = ofNat (claims (log ++ if clip.copyIntent.isNone then [.claimed c] else [])) := by
  by_cases hnone : clip.copyIntent.isNone = true
  · rw [if_pos hnone] at hclaim ⊢
    cases hclaim
    rw [claims_append, epoch_set, hepoch]
    exact ⟨rfl, (ofNat_add _ _).symm⟩
  · rw [if_neg hnone] at hclaim ⊢
    cases hclaim
    obtain ⟨v, hv⟩ := isSome_iff_exists.mp (h.claimed (by simpa [isSome_iff_ne_none] using hnone))
    rw [append_nil]
    unfold Clipboard.current at hcurrent
    rw [hv, all_some, decide_eq_true_eq] at hcurrent
    rw [← hcurrent, ← hv]
    exact ⟨rfl, hcurrent.trans hepoch⟩

/-- A request begins a transfer in the current epoch. -/
theorem request (h : Sound c log clock (some working') clip) {generation : ℤ}
    (hepoch : fence.epoch = UInt64.ofNat (claims log)) {result : Option (UInt64 × ℕ)}
    (hrequest : clip.request fence clock generation = (result, clip', fence')) :
    Sound c (log ++ requestEvents c clip generation result) clock none clip' ∧
      fence'.epoch = UInt64.ofNat (claims (log ++ requestEvents c clip generation result)) := by
  have hcomplete := (h.idle rfl).1
  have hempty : Sound c log clock none { clip with requested := none, assembly := none } :=
    of_empty h.offered h.claimed rfl rfl hcomplete
  unfold Clipboard.request at hrequest
  split at hrequest
  next =>
    cases hrequest
    rw [requestEvents, append_nil]
    exact ⟨reset fence, (epoch_set _ _ _ _).trans hepoch⟩
  next hcurrent =>
  split at hrequest
  next =>
    cases hrequest
    rw [requestEvents, append_nil]
    exact ⟨h.dropIntent, (epoch_set _ _ _ _).trans hepoch⟩
  next =>
  rw [h.giveUp_eq] at hrequest
  dsimp only at hrequest
  split at hrequest
  next =>
    cases hrequest
    rw [requestEvents, append_nil]
    exact ⟨hempty, hepoch⟩
  next hfree =>
  split at hrequest
  next =>
    cases hrequest
    rw [requestEvents, append_nil]
    exact ⟨hempty, hepoch⟩
  next id bytes hoffered =>
  rcases hclaim : (if clip.copyIntent.isNone then Clipboard.takeClaim { clip with requested := none, assembly := none } fence
    else ({ clip with requested := none, assembly := none }, fence)) with ⟨claimed, fence₁⟩
  obtain ⟨rfl, hfence⟩ := hempty.takes_claim (not_not.mp hcurrent) hepoch hclaim
  rw [hclaim] at hrequest
  cases hrequest
  rw [requestEvents, ← append_assoc]
  refine ⟨⟨nofun, .inr hcomplete, nofun, nofun, ?_, fun text ht => (nomatch hcomplete.symm.trans ht), nofun⟩, ?_⟩
  · rintro _ _ _ ⟨⟩
    exact ⟨generation, _, ⟨_, [], rfl, mem_append_left _ (h.offered id bytes hoffered), nofun, rfl, hfence⟩,
      fun _ => rfl, fun _ _ => rfl⟩
  · rw [claims_append (log ++ _)]
    exact hfence

end Sound

end Log

/-! ### The process keeps it -/

/-- **The invariant.** -/
structure Inv (w : World) : Prop where
  epoch : w.fence.epoch = UInt64.ofNat (claims w.log)
  clips : ∀ c, Sound c w.log w.clock (w.working c) (w.clips c)
  justified : Justified w.log

section Process

variable {w w' : World} {c : ℕ} {now : Instant} {clip : Clipboard} {fence : CopyFence} {events : List Event}

theorem neutral_of_ne {c' : ℕ} (hne : c' ≠ c) (h : ∀ e ∈ events, e.clip = c) : Neutral c' events := by
  intro e he
  have hclip := h e he
  refine ⟨fun hbounds => ?_, fun id data heq => ?_⟩
  · cases e with
    | requested | written => exact hne (hbounds.symm.trans hclip)
    | offered | claimed | received => exact hbounds
  · subst heq
    exact hne hclip

theorem Justified.append {log : List Event} (h : Justified log)
    (hevents : ∀ front c text generation back, events = front ++ .written c text generation :: back →
      Answered (log ++ front) c text generation) : Justified (log ++ events) := by
  intro front c text generation back hsplit
  rcases append_eq_append_iff.mp hsplit with ⟨rest, rfl, hrest⟩ | ⟨rest, hlog, hback⟩
  · exact hevents rest c text generation back hrest
  cases rest with
  | nil =>
    rw [append_nil] at hlog
    subst hlog
    have hfront := hevents [] c text generation back hback.symm
    rwa [append_nil] at hfront
  | cons e rest =>
    obtain ⟨rfl, -⟩ := hback
    exact h front c text generation rest hlog

theorem Justified.quiet {log : List Event} (h : Justified log)
    (hevents : ∀ c text generation, .written c text generation ∉ events) : Justified (log ++ events) :=
  h.append fun _ c text generation _ heq =>
    absurd (heq ▸ mem_append_right _ mem_cons_self) (hevents c text generation)

theorem Inv.put (h : Inv w) (hnow : w.clock ≤ now) (hevents : ∀ e ∈ events, e.clip = c) {working : Option Bool}
    (hepoch : fence.epoch = UInt64.ofNat (claims (w.log ++ events)))
    (hclip : Sound c (w.log ++ events) now working clip) (hjustified : Justified (w.log ++ events)) :
    Inv { w.put c clip fence events with working := update w.working c working, clock := now } where
  epoch := hepoch
  clips c' := by
    show Sound c' (w.log ++ events) now (update w.working c working c') (update w.clips c clip c')
    by_cases hc : c' = c
    · subst hc
      rw [update_self, update_self]
      exact hclip
    · rw [update_of_ne hc, update_of_ne hc]
      exact (h.clips c').later hnow (neutral_of_ne hc hevents)
  justified := hjustified

/-- A call that leaves an event, or none, and does not write. -/
theorem Inv.call (h : Inv w) (hnow : w.clock ≤ now)
    (hevents : ∀ e ∈ events, e.clip = c ∧ ∀ c' text generation, e ≠ .written c' text generation)
    (hepoch : fence.epoch = UInt64.ofNat (claims (w.log ++ events)))
    (hclip : Sound c (w.log ++ events) now (w.working c) clip) :
    Inv { w.put c clip fence events with clock := now } := by
  have hput := h.put hnow (fun e he => (hevents e he).1) hepoch hclip
    (h.justified.quiet fun c' text g hmem => (hevents _ hmem).2 c' text g rfl)
  rwa [update_eq_self] at hput

theorem Inv.at_call (h : Inv w) (hnow : w.clock ≤ now) (c : ℕ) :
    Sound c w.log now (w.working c) (w.clips c) := by
  have hlater : Sound c (w.log ++ []) now (w.working c) (w.clips c) := (h.clips c).later hnow nofun
  rwa [append_nil] at hlater

/-- A call that leaves no event. -/
theorem Inv.silent (h : Inv w) (hnow : w.clock ≤ now) {working : Option Bool} (hepoch : fence.epoch = w.fence.epoch)
    (hclip : Sound c w.log now working clip) :
    Inv { w.put c clip fence [] with working := update w.working c working, clock := now } := by
  refine h.put hnow (fun e (he : e ∈ []) => nomatch he) ?_ ?_ ?_ <;> rw [append_nil]
  · exact hepoch.trans h.epoch
  · exact hclip
  · exact h.justified

theorem epoch_chunk {id : UInt64} {offset total : ℕ} {data : Bytes} :
    (clip.chunk fence now id offset total data).2.2.epoch = fence.epoch := by
  unfold Clipboard.chunk
  repeat' split
  all_goals first
    | rfl
    | exact Sound.epoch_set ..

theorem epoch_handoffPending {generation : ℤ} :
    (clip.handoffPending fence now generation).2.2.epoch = fence.epoch := by
  unfold Clipboard.handoffPending
  repeat' split
  all_goals first
    | rfl
    | exact Sound.epoch_set ..

theorem epoch_failed {id : UInt64} : (clip.failed fence id).2.epoch = fence.epoch := by
  unfold Clipboard.failed
  split
  · exact Sound.epoch_set ..
  · rfl

theorem Inv.copying (h : Inv w) (hnow : w.clock ≤ now) (c : ℕ) (generation : ℤ) :
    Inv { w.put c ((w.clips c).copying w.fence now generation).1 ((w.clips c).copying w.fence now generation).2
      (if (w.clips c).focused then [.claimed c] else []) with clock := now } := by
  have hclip : Sound c w.log now (w.working c) ((w.clips c).copying w.fence now generation).1 :=
    (h.at_call hnow c).copying w.fence generation
  refine h.call hnow (by split <;> simp [Event.clip]) ?_ (hclip.later le_rfl (by split <;> simp [Neutral, Event.Bounds]))
  unfold Clipboard.copying
  split
  · rw [claims_append]
    show (CopyFence.set _ _ _ _).epoch = _
    rw [Sound.epoch_set, h.epoch]
    exact (ofNat_add _ _).symm
  · rw [append_nil]
    exact h.epoch

theorem Inv.offer (h : Inv w) (hnow : w.clock ≤ now) (c : ℕ) (id : UInt64) (text : Bool) (bytes : ℕ) :
    Inv { w.put c ((w.clips c).offer w.fence now id text bytes) w.fence [.offered c id bytes] with clock := now } := by
  have hclip : Sound c (w.log ++ [.offered c id bytes]) now (w.working c) (w.clips c) :=
    (h.at_call hnow c).later le_rfl (by simp [Neutral, Event.Bounds])
  refine h.call hnow (by simp [Event.clip]) ?_ ?_
  · rw [claims_append]
    exact h.epoch
  unfold Clipboard.offer
  split
  · refine hclip.of_offer fun i b hsome => ?_
    cases hsome
    exact mem_append_right _ (mem_singleton_self _)
  · exact hclip

theorem Inv.chunk (h : Inv w) (hnow : w.clock ≤ now) {id : UInt64} {offset total : ℕ} {data : Bytes}
    (hw' : w.perform c now (.chunk id offset total data) = some w') : Inv { w' with clock := now } := by
  have hepoch : ((w.clips c).chunk w.fence now id offset total data).2.2.epoch = w.fence.epoch := epoch_chunk
  rcases hchunk : (w.clips c).chunk w.fence now id offset total data with ⟨result, clip, fence⟩
  have hclip := (h.clips c).chunk hnow hchunk
  rw [hchunk] at hepoch
  have hput : Inv { w.put c clip fence (Sound.chunkEvents c (w.clips c) id data result) with clock := now } := by
    refine h.call hnow ?_ ?_ hclip
    · unfold Sound.chunkEvents
      repeat' split
      all_goals simp [Event.clip]
    · have hnone : claims (Sound.chunkEvents c (w.clips c) id data result) = 0 := by
        unfold Sound.chunkEvents
        repeat' split
        all_goals rfl
      rw [claims_append, hnone]
      exact hepoch.trans h.epoch
  unfold World.perform at hw'
  dsimp only at hw'
  rw [hchunk] at hw'
  cases result <;> cases hw' <;> exact hput

/-- The first half of a pass. -/
theorem Inv.publish (h : Inv w) (hnow : w.clock ≤ now) (generation : Option ℤ) (accepted : Bool) :
    Inv { w.publish c generation accepted now with clock := now } := by
  have hsame : Inv { w with clock := now } := ⟨h.epoch, h.at_call hnow, h.justified⟩
  unfold World.publish
  cases generation with
  | none => exact hsame
  | some generation =>
    dsimp only
    split
    · exact hsame
    next hneeds =>
    have hclip := h.at_call hnow c
    rcases hpublish : (w.clips c).publish w.fence generation with ⟨_ | text, clip⟩
    · have hafter := (hclip.publish w.fence generation (some false) (not_not.mp hneeds)).1
      rw [hpublish] at hafter
      exact h.silent hnow rfl hafter
    obtain ⟨hafter, hrequested⟩ := hclip.publish w.fence generation (some accepted) (not_not.mp hneeds)
    rw [hpublish] at hafter hrequested
    refine h.put hnow (by simp [Event.clip]) ?_ ?_ ?_
    · rw [claims_append]
      split
      · exact h.epoch
      · exact (Sound.epoch_set _ _ _ _).trans h.epoch
    · exact .of_empty (fun i b ho => mem_append_left _ (hafter.offered i b ho)) hafter.claimed (hrequested rfl)
        (hafter.fresh (hrequested rfl)) (hafter.idle rfl).1
    -- the text is the only event
    refine h.justified.append fun front c' text' g back heq => ?_
    obtain ⟨rfl, heq⟩ | ⟨_, rfl, heq⟩ := cons_eq_append_iff.mp heq
    · cases heq
      rw [append_nil]
      exact hclip.published h.epoch (by rw [hpublish])
    · simp at heq

/-- The second half of a pass. -/
theorem Inv.request (h : Inv w) (hnow : w.clock ≤ now) {published : Bool}
    (hworking : w.working c = some published)
    (generation : Option ℤ) : Inv { w.request c published generation now with clock := now } := by
  have hclip := h.at_call hnow c
  rw [hworking] at hclip
  unfold World.request
  cases generation with
  | none =>
    exact h.silent hnow (Sound.epoch_set _ _ _ _)
      ⟨hclip.offered, hclip.exclusive, hclip.fresh, hclip.claimed, hclip.opened, hclip.done, nofun⟩
  | some generation =>
    dsimp only
    have hepoch : (if published then w.fence.set (w.clips c).claim false (some generation) else w.fence).epoch =
        ofNat (claims w.log) := by
      split
      · exact (Sound.epoch_set _ _ _ _).trans h.epoch
      · exact h.epoch
    generalize (if published then w.fence.set (w.clips c).claim false (some generation) else w.fence) = fence at hepoch
    rcases hrequest : (w.clips c).request fence now generation with ⟨result, clip, fence'⟩
    obtain ⟨hsound, hepoch'⟩ := hclip.request hepoch hrequest
    have hkinds : ∀ e ∈ Sound.requestEvents c (w.clips c) generation result,
        e.clip = c ∧ ∀ c' text g, e ≠ .written c' text g := by
      unfold Sound.requestEvents
      repeat' split
      all_goals simp [Event.clip]
    have hput := h.put hnow (fun e he => (hkinds e he).1) hepoch' hsound
      (h.justified.quiet fun c' t g hmem => (hkinds _ hmem).2 c' t g rfl)
    cases result <;> exact hput

/-- Every call keeps the invariant. -/
theorem Inv.step {a : Act} (h : Inv w) (hstep : World.step a w = some w') : Inv w' := by
  obtain ⟨hnow, hstep⟩ := ite_none_right_eq_some.mp hstep
  obtain ⟨w₁, hperform, rfl⟩ := map_eq_some_iff.mp hstep
  obtain ⟨c, call, now⟩ := a
  have hclip := h.at_call hnow c
  have hquiet {clip : Clipboard} {fence : CopyFence} (hepoch : fence.epoch = w.fence.epoch)
      (hclip : Sound c w.log now (w.working c) clip) : Inv { w.put c clip fence [] with clock := now } := by
    have hput := h.silent hnow hepoch hclip
    rwa [update_eq_self] at hput
  cases call with
  | focus focused =>
    cases hperform
    exact hquiet rfl (hclip.focus w.fence focused)
  | copying generation =>
    cases hperform
    exact h.copying hnow c generation
  | offer id text bytes =>
    cases hperform
    exact h.offer hnow c id text bytes
  | chunk id offset total data => exact h.chunk hnow hperform
  | failed id =>
    cases hperform
    exact hquiet epoch_failed (hclip.failed w.fence id)
  | reset =>
    cases hperform
    exact hquiet (Sound.epoch_set ..) (.reset w.fence)
  | handoffPending generation =>
    cases hperform
    exact hquiet epoch_handoffPending (hclip.handoffPending w.fence generation)
  | publish generation accepted =>
    obtain ⟨-, hperform⟩ := ite_none_right_eq_some.mp hperform
    cases hperform
    exact h.publish hnow generation accepted
  | request generation =>
    obtain ⟨published, hworking, rfl⟩ := map_eq_some_iff.mp hperform
    exact h.request hnow hworking generation

theorem inv_start (clock : Instant) : Inv (.start clock) where
  epoch := rfl
  clips c := .of_empty nofun nofun rfl rfl rfl
  justified front c text generation back hsplit := by
    exact absurd hsplit (by simp [World.start])

end Process

/-- **Superseded copies are not written.** In every run, a text that goes to the native clipboard is the valid
UTF-8 text, of the offered length, that this clipboard has received since its last request; the generation is the
one of the request; the request has not been published before; and nobody has claimed since, unless there were so
many claims that the epoch has wrapped. -/
theorem clipboard_supersession (clock : Instant) (acts : List Act) (w : World)
    (hrun : process.run acts (.start clock) = some w)
    (front back : List Event) (c : ℕ) (text : Bytes) (generation : ℤ)
    (hwritten : w.log = front ++ .written c text generation :: back) :
    ∃ before since id, front = before ++ .requested c id text.length generation :: since ∧
      .offered c id text.length ∈ before ∧ fromUtf8 text = some text ∧ text = received c id since ∧
      (∀ e ∈ since, ¬ e.Bounds c) ∧ (claims since < 2 ^ 64 → ∀ c', .claimed c' ∉ since) := by
  have h : Inv w := run_invariant (fun a w w' hinv hstep => hinv.step hstep) (inv_start clock) hrun
  exact h.justified front c text generation back hwritten

/-! ### Two sessions -/

/-- The time all of this happens. -/
def noon : Instant := ⟨0, by decide⟩

/-- Session 0 requests a text that it was offered. -/
def requestActs : List Act :=
  [⟨0, .focus true, noon⟩, ⟨0, .offer 7 true 3, noon⟩, ⟨0, .publish (some 4) true, noon⟩, ⟨0, .request (some 4), noon⟩,
    ⟨1, .focus true, noon⟩]

/-- The text arrives and is written. -/
def replyActs : List Act := [⟨0, .chunk 7 0 3 (utf8 "abc"), noon⟩, ⟨0, .publish (some 4) true, noon⟩]

/-- The log of the two. -/
def sampleLog : List Event :=
  [.offered 0 7 3, .claimed 0, .requested 0 7 3 4, .received 0 7 (utf8 "abc"), .written 0 (utf8 "abc") 4]

theorem clipboard_supersession_sample :
    ∃ before since id, sampleLog.take 4 = before ++ .requested 0 id 3 4 :: since ∧
      utf8 "abc" = received 0 id since := by
  have hlog : (process.run (requestActs ++ replyActs) (.start noon)).map (·.log) = some sampleLog := by
    decide +kernel
  obtain ⟨w, hw, hlog⟩ := map_eq_some_iff.mp hlog
  obtain ⟨before, since, id, hfront, -, -, htext, -⟩ :=
    clipboard_supersession noon _ w hw (sampleLog.take 4) [] 0 (utf8 "abc") 4
      (by rw [hlog]; rfl)
  exact ⟨before, since, id, hfront, htext⟩

/-! ### The epoch wraps -/

/-- An explicit copy in session 1. -/
def copyAct : Act := ⟨1, .copying 4, noon⟩

/-- Copies in session 1 move the epoch and leave session 0 as it is. -/
theorem run_copies (n : ℕ) (w : World) (hfocused : (w.clips 1).focused = true) (hclock : w.clock = noon) :
    ∃ w', process.run (List.replicate n copyAct) w = some w' ∧ w'.clips 0 = w.clips 0 ∧
      w'.fence.epoch = w.fence.epoch + UInt64.ofNat n ∧ w'.working = w.working ∧ w'.clock = noon ∧
      w'.log = w.log ++ List.replicate n (.claimed 1) := by
  induction n generalizing w with
  | zero => exact ⟨w, rfl, rfl, (add_zero _).symm, rfl, hclock, (append_nil _).symm⟩
  | succ n ih =>
    have hstep : World.step copyAct w = some { w.put 1 ((w.clips 1).copying w.fence noon 4).1
        ((w.clips 1).copying w.fence noon 4).2 [.claimed 1] with clock := noon } := by
      have hle : w.clock ≤ copyAct.now := le_of_eq hclock
      unfold World.step
      rw [if_pos hle]
      show Option.map _ (some (w.put 1 _ _ (if (w.clips 1).focused then _ else _))) = _
      rw [if_pos hfocused]
      rfl
    have hcopy : ((w.clips 1).copying w.fence noon 4).1.focused = true ∧
        ((w.clips 1).copying w.fence noon 4).2.epoch = w.fence.epoch + 1 := by
      unfold Clipboard.copying
      rw [if_pos hfocused]
      exact ⟨hfocused, Sound.epoch_set _ _ _ _⟩
    obtain ⟨w', hrun, hclip, hepoch, hworking, hclock', hlog⟩ := ih { w.put 1 ((w.clips 1).copying w.fence noon 4).1
      ((w.clips 1).copying w.fence noon 4).2 [.claimed 1] with clock := noon } (by
        exact hcopy.1) rfl
    have hother : update w.clips 1 ((w.clips 1).copying w.fence noon 4).1 0 = w.clips 0 :=
      update_of_ne (by decide) _ _
    refine ⟨w', ?_, hclip.trans hother, ?_, hworking, hclock', ?_⟩
    · exact run_cons_eq_some.mpr ⟨_, hstep, hrun⟩
    · rw [hepoch]
      show ((w.clips 1).copying w.fence noon 4).2.epoch + ofNat n = _
      rw [hcopy.2, add_assoc, Nat.add_comm n 1, ofNat_add]
      rfl
    rw [hlog]
    show w.log ++ [.claimed 1] ++ _ = _
    rw [append_assoc, replicate_succ]
    rfl

/-- The clipboard of session 0 after its request. -/
def openClip : Clipboard :=
  { Clipboard.new with
    focused := true, requested := some (7, 3, noon), generation := some 4, authorized := true, claim := some 1 }

theorem run_reply (w : World) (hclip : w.clips 0 = openClip) (hepoch : w.fence.epoch = 1)
    (hworking : w.working 0 = none) (hclock : w.clock = noon) :
    ∃ w', process.run replyActs w = some w' ∧
      w'.log = w.log ++ [.received 0 7 (utf8 "abc"), .written 0 (utf8 "abc") 4] := by
  let done : Clipboard := { openClip with complete := some (utf8 "abc"), requested := none }
  have hchunk : openClip.chunk w.fence noon 7 0 3 (utf8 "abc") = (.ok (), done, w.fence) := by
    rfl
  let w₁ : World := { w.put 0 done w.fence [.received 0 7 (utf8 "abc")] with clock := noon }
  have hfirst : World.step ⟨0, .chunk 7 0 3 (utf8 "abc"), noon⟩ w = some w₁ := by
    unfold World.step World.perform
    rw [if_pos (le_of_eq hclock)]
    dsimp only
    rw [hclip, hchunk]
    rfl
  have hdone : w₁.clips 0 = done := by
    show update w.clips 0 done 0 = done
    exact update_self ..
  have hneeds : done.needsWork w₁.fence noon = true := rfl
  have hpublish : done.publish w₁.fence 4 =
      (some (utf8 "abc"), { done with complete := none, authorized := false, generation := none }) := by
    have hcurrent : done.current w₁.fence = true := by
      show decide (1 = w.fence.epoch) = true
      rw [hepoch]
      rfl
    unfold Clipboard.publish
    rw [show done.complete = some (utf8 "abc") from rfl]
    dsimp only
    rw [if_pos ⟨rfl, hcurrent, rfl, rfl⟩]
  refine ⟨{ w₁.publish 0 (some 4) true noon with clock := noon }, ?_, ?_⟩
  · refine run_cons_eq_some.mpr ⟨w₁, hfirst, run_cons_eq_some.mpr ⟨_, ?_, rfl⟩⟩
    show World.step ⟨0, .publish (some 4) true, noon⟩ w₁ = _
    unfold World.step World.perform
    rw [show w₁.working 0 = none from hworking]
    rfl
  unfold World.publish
  dsimp only
  rw [hdone, if_neg (not_not.mpr hneeds), hpublish]
  show w.log ++ _ ++ _ = _
  rw [append_assoc]
  rfl

/-- **After `2 ^ 64` copies elsewhere the old reply is written.** -/
theorem copies_wrap :
    ∃ acts w, process.run acts (.start noon) = some w ∧
      w.log = [.offered 0 7 3, .claimed 0, .requested 0 7 3 4] ++ List.replicate (2 ^ 64) (.claimed 1) ++
        [.received 0 7 (utf8 "abc"), .written 0 (utf8 "abc") 4] := by
  have hstart : (process.run requestActs (.start noon)).map (fun w => (w.clips 0, w.log)) =
      some (openClip, [.offered 0 7 3, .claimed 0, .requested 0 7 3 4]) := by decide +kernel
  have hothers : (process.run requestActs (.start noon)).map (fun w =>
      ((w.clips 1).focused, w.fence.epoch, w.working 0, w.clock)) = some (true, 1, none, noon) := by decide +kernel
  obtain ⟨w, hw, hstate⟩ := map_eq_some_iff.mp hstart
  rw [hw, map_some, Option.some.injEq] at hothers
  simp only [Prod.mk.injEq] at hstate hothers
  obtain ⟨hclip, hlog⟩ := hstate
  obtain ⟨hfocused, hepoch, hworking, hclock⟩ := hothers
  obtain ⟨w₁, hcopies, hclip₁, hepoch₁, hworking₁, hclock₁, hlog₁⟩ := run_copies (2 ^ 64) w hfocused hclock
  have hwrapped : w₁.fence.epoch = 1 := by
    rw [hepoch₁, hepoch]
    decide +kernel
  obtain ⟨w₂, hreply, hlog₂⟩ := run_reply w₁ (hclip₁.trans hclip) hwrapped (by rw [hworking₁, hworking]) hclock₁
  refine ⟨requestActs ++ (replicate (2 ^ 64) copyAct ++ replyActs), w₂, ?_, ?_⟩
  · rw [run_append, hw, bind_some, run_append, hcopies, bind_some]
    exact hreply
  · rw [hlog₂, hlog₁, hlog]

end Rds.Desktop.Clip
