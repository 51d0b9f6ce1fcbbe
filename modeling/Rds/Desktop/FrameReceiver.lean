import Rds.Framework.ByteString
import Rds.Framework.Machine
import Rds.Framework.OrderedMap

/-!
# The frame receiver of a desktop session

`receive_frames` (`rds-desktop/src/client.rs`) reads frames from streams that finish in any order, puts
them in order (`order.rs`) and hands them to a native decoder. A delta can only be decoded after its
predecessor, so three pieces of state guard the decoder: `Ordered` holds frames back until their turn,
`next_seq` is the sequence number after the last frame that had its turn, and
`Delivery::waiting_keyframe` keeps deltas away from a decoder whose chain is broken. A broken chain
starts again with a keyframe and a new decoder.

The peer and the native decoder are arbitrary: what a reader brings, when a gap expires, and what a
decoder makes of a frame is chosen by the run. Each frame handed to a decoder is logged with its decoder.

A decode is a job of its own. The loop waits for it up to a timeout and then goes on with a new delivery,
but a job that has started cannot be stopped: it keeps its delivery and may hand its frame over at any
later time, while a second job already runs. Such a frame is `pending` until then, and `late` in the log.

`Guarded` is what the guards stand for: the decoder of the delivery got the frame before the next one, and
no pending frame shares a decoder with the delivery or with another. `receiver_safe` is about every run
of the session, and about every input of the `RelayDecoder`, which has guards of its own.
Only a late frame can come after one with a larger sequence number, and it does (`receiver_overtaken`).
-/

namespace Rds.Desktop.Receiver

open Framework Std List UInt64 Option

/-- The largest `u64`. -/
def maxSeq : UInt64 := UInt64.ofNat (2 ^ 64 - 1)

/-- The parts of a `FrameHeader` that the receiver reads. -/
structure FrameHeader where
  seq : UInt64
  keyframe : Bool
  width : UInt32
  height : UInt32
  deriving DecidableEq

/-- `IDR_MIN_INTERVAL_MS`. -/
def idrMinIntervalMs : ℕ := 500

/-- `KEYFRAME_READ_TIMEOUT` in milliseconds. -/
def keyframeReadTimeoutMs : ℕ := 8000

/-! ### Ordering -/

/-- `Ordered`. Instants are milliseconds. -/
structure Ordered where
  next : Option UInt64
  frames : ExtTreeMap UInt64 (FrameHeader × Bytes) compare
  blocked : Option ℕ

namespace Ordered

/-- `Ordered::default`. -/
def default : Ordered := ⟨none, ∅, none⟩

/-- `BTreeMap::pop_last`. -/
def popLast (frames : ExtTreeMap UInt64 (FrameHeader × Bytes) compare) :
    ExtTreeMap UInt64 (FrameHeader × Bytes) compare :=
  match frames.maxKey? with
  | some seq => frames.erase seq
  | none => frames

/-- A keyframe after the next frame takes its place, and the frames before it go. -/
def skipTo (self : Ordered) (header : FrameHeader) : Ordered :=
  if header.keyframe ∧ self.next.all (header.seq > ·) then
    { next := some header.seq
      frames := self.frames.filter fun seq _ => header.seq ≤ seq
      blocked := none }
  else self

/-- `Ordered::push`. -/
def push (self : Ordered) (header : FrameHeader) (payload : Bytes) (now : ℕ) : Ordered :=
  if header.seq = maxSeq ∨ self.next.any (header.seq < ·) then self
  else
    let self := self.skipTo header
    let frames := self.frames.insert header.seq (header, payload)
    let limit := 3 + if self.next.any frames.contains then 1 else 0
    { self with
      frames := popLast^[frames.size - limit] frames
      blocked := some (self.blocked.getD now) }

/-- `Ordered::pop`. -/
def pop (self : Ordered) (now : ℕ) : Option ((FrameHeader × Bytes) × Ordered) :=
  match self.next with
  | none => none
  | some next =>
    match self.frames[next]? with
    | none => none
    | some frame =>
      let frames := self.frames.erase next
      some (frame,
        { next := if next = maxSeq then none else some (next + 1)
          frames
          blocked := if frames.isEmpty then none else some now })

/-- `Ordered::expire`. -/
def expire (self : Ordered) (timeout now : ℕ) : Bool × Ordered :=
  if self.blocked.any fun at_ => timeout ≤ now - at_ then (true, default) else (false, self)

end Ordered

/-! ### Delivery -/

/-- What a native decoder makes of a frame. -/
inductive NativeResult where
  | picture (width height : UInt32)
  | buffered
  | error
  deriving DecidableEq

/-- What the native code would do: whether a decoder can be made, and the result of a decode. -/
structure Native where
  init : Bool
  result : NativeResult
  deriving DecidableEq

/-- `DecodeOutcome`. -/
inductive DecodeOutcome where
  | decoded
  | buffered
  | failed
  deriving DecidableEq

/-- A frame was handed to a native decoder, whether it was decoded without failure, and whether its job
had timed out before. -/
structure Handed where
  decoder : ℕ
  seq : UInt64
  keyframe : Bool
  ok : Bool
  late : Bool
  deriving DecidableEq

/-- `Delivery`. A decoder is a number. -/
structure Delivery where
  decoder : Option ℕ
  lastIdrReqMs : Option ℕ
  waitingKeyframe : Bool
  deriving DecidableEq

namespace Delivery

/-- `Delivery::new`. -/
def new : Delivery := ⟨none, none, true⟩

/-- `Delivery::invalidate`. -/
def invalidate (self : Delivery) : Delivery := { self with waitingKeyframe := true }

/-- `Delivery::request_idr`, with whether the control queue has room. -/
def requestIdr (self : Delivery) (room : Bool) (nowMs : ℕ) : Bool × Delivery :=
  if self.lastIdrReqMs.all (idrMinIntervalMs ≤ nowMs - ·) ∧ room then
    (true, { self with lastIdrReqMs := some nowMs })
  else (false, self)

/-- What `Delivery::decode` makes of the result of the decoder. -/
def outcome (header : FrameHeader) : NativeResult → DecodeOutcome
  | .picture width height =>
    if width = header.width ∧ height = header.height then .decoded else .failed
  | .buffered => .buffered
  | .error => .failed

/-- `Delivery::decode`. A decoder that has to be made gets the number `made`. -/
def decode (self : Delivery) (made : ℕ) (header : FrameHeader) (body : Bytes) (native : Native) :
    DecodeOutcome × Delivery × Option Handed :=
  if self.waitingKeyframe ∧ header.keyframe = false then (.failed, self, none)
  else
    let decoder := if self.waitingKeyframe then none else self.decoder
    let self := { self with decoder, waitingKeyframe := false }
    if body = [] then (.failed, self, none)
    else
      match decoder.or (if native.init then some made else none) with
      | none => (.failed, self, none)
      | some decoder =>
        let outcome := outcome header native.result
        (outcome, { self with decoder := some decoder },
          some ⟨decoder, header.seq, header.keyframe, outcome ≠ .failed, false⟩)

/-- What the loop makes of the outcome of a decode. -/
def settle (self : Delivery) (outcome : DecodeOutcome) (room : Bool) (nowMs : ℕ) : Delivery :=
  if outcome = .failed then (self.invalidate.requestIdr room nowMs).2 else self

end Delivery

/-- `GapRepair`. -/
structure GapRepair where
  requestedAtMs : Option ℕ
  deriving DecidableEq

/-- `GapRepair::request`. -/
def GapRepair.request (self : GapRepair) (delivery : Delivery) (room : Bool) (nowMs : ℕ) :
    GapRepair × Delivery :=
  if self.requestedAtMs.any (nowMs - · < keyframeReadTimeoutMs) then (self, delivery)
  else
    match delivery.requestIdr room nowMs with
    | (true, delivery) => (⟨some nowMs⟩, delivery)
    | (false, delivery) => (self, delivery)

/-! ### The loop of the session -/

/-- How the job of a decode ends for the loop. A job that timed out or was lost may have run, and handed
its frame over; a job that timed out while it ran may still do so. -/
inductive Job where
  | finished (native : Native)
  | timedOut (ran : Option Native) (late : Bool)
  | lost (ran : Option Native)
  deriving DecidableEq

/-- What a reader brings. -/
inductive FrameRead where
  | complete (header : FrameHeader) (body : Bytes)
  | stale
  | rejected
  | timedOut
  deriving DecidableEq

/-- The session: whether frames are relayed as they are, and the state of `receive_frames`. The log has
the newest frame first, `pending` are the frames of jobs that timed out and still run, and `decoders`
numbers the decoders; the loop reads none of them. -/
structure World where
  encoded : Bool
  running : Bool
  ordered : Ordered
  nextSeq : UInt64
  delivery : Delivery
  gapRepair : GapRepair
  readers : ℕ
  decoders : ℕ
  log : List Handed
  pending : List Handed

/-- One round of the loop. `room` says whether the control queue takes a request. -/
inductive Act where
  /-- The next frame has its turn. -/
  | turn (job : Job) (relayed room : Bool) (nowMs : ℕ)
  /-- The repair interval ticks. -/
  | tick (wait : ℕ) (room : Bool) (nowMs : ℕ)
  /-- A reader is done. -/
  | read (r : FrameRead) (room : Bool) (nowMs : ℕ)
  /-- A stream gets a reader. -/
  | admitStream
  /-- There are no more streams. -/
  | close

/-- What happens next: the loop makes a round, or a job that timed out hands its frame over. -/
inductive Event where
  | round (act : Act)
  | handOver (i : ℕ)

namespace World

/-- A new session. -/
def new (encoded : Bool) : World :=
  { encoded, running := true, ordered := .default, nextSeq := 0, delivery := .new, gapRepair := ⟨none⟩
    readers := 0, decoders := 0, log := [], pending := [] }

/-- What a job that does not return hands over. -/
def abandoned (w : World) (header : FrameHeader) (body : Bytes) (ran : Option Native) : List Handed :=
  (ran.bind fun native => (w.delivery.decode w.decoders header body native).2.2).toList

/-- The decode of a frame, and what the loop makes of its outcome. The delivery goes with the job. -/
def decode (w : World) (header : FrameHeader) (body : Bytes) (room : Bool) (nowMs : ℕ) : Job → World
  | .finished native =>
    let (outcome, delivery, handed) := w.delivery.decode w.decoders header body native
    { w with
      delivery := delivery.settle outcome room nowMs
      decoders := w.decoders + 1
      log := handed.toList ++ w.log }
  | .timedOut ran late =>
    let w' :=
      { w with
        delivery := (Delivery.new.requestIdr room nowMs).2
        decoders := w.decoders + 1 }
    -- the job runs on with the old delivery
    if late then { w' with pending := w.abandoned header body ran ++ w.pending }
    else { w' with log := w.abandoned header body ran ++ w.log }
  | .lost ran =>
    { w with
      running := false
      delivery := .new
      decoders := w.decoders + 1
      log := w.abandoned header body ran ++ w.log }

/-- A frame has its turn. -/
def turn (w : World) (header : FrameHeader) (body : Bytes) (job : Job) (relayed room : Bool)
    (nowMs : ℕ) : World :=
  if header.seq < w.nextSeq then w
  else
    let delivery := if header.seq > w.nextSeq then w.delivery.invalidate else w.delivery
    let w :=
      { w with
        delivery
        nextSeq := header.seq + 1
        gapRepair := if header.keyframe then ⟨none⟩ else w.gapRepair }
    if w.encoded then { w with running := relayed }
    else w.decode header body room nowMs job

/-- One round. A frame whose turn it is comes before everything else. -/
def step (w : World) (act : Act) : World :=
  if w.running = false then w
  else
    match act with
    | .turn job relayed room nowMs =>
      match w.ordered.pop nowMs with
      | some ((header, body), ordered) =>
        { w with ordered }.turn header body job relayed room nowMs
      | none => w
    | .tick wait room nowMs =>
      if (w.ordered.pop nowMs).isSome then w
      else
        match w.ordered.expire wait nowMs with
        | (true, ordered) =>
          if w.readers = 0 then
            let (gapRepair, delivery) := w.gapRepair.request w.delivery.invalidate room nowMs
            { w with ordered, gapRepair, delivery }
          else w
        | (false, _) => w
    | .read r room nowMs =>
      if (w.ordered.pop nowMs).isSome ∨ w.readers = 0 then w
      else
        let w := { w with readers := w.readers - 1 }
        match r with
        | .complete header body => { w with ordered := w.ordered.push header body nowMs }
        | .stale => w
        | .rejected | .timedOut =>
          { w with gapRepair := ⟨none⟩, delivery := (w.delivery.requestIdr room nowMs).2 }
    | .admitStream => { w with readers := w.readers + 1 }
    | .close => { w with running := false }

/-- What happens next. A job hands its frame over also after the loop has ended. -/
def next (w : World) : Event → World
  | .round act => w.step act
  | .handOver i =>
    match w.pending[i]? with
    | some h => { w with pending := w.pending.eraseIdx i, log := { h with late := true } :: w.log }
    | none => w

/-- A run. -/
def run (encoded : Bool) (events : List Event) : World := events.foldl next (new encoded)

end World

/-! ### The relay decoder -/

/-- `RelayDecoder`, with the log of its decoders. -/
structure RelayDecoder where
  delivery : Delivery
  lastIdrReport : Option ℕ
  nextSeq : Option UInt64
  decoders : ℕ
  log : List Handed

/-- `RelayOutcome`. -/
inductive RelayOutcome where
  | frame
  | pending
  | needIdr
  deriving DecidableEq

namespace RelayDecoder

/-- `RelayDecoder::new`. -/
def new : RelayDecoder := ⟨.new, none, none, 0, []⟩

/-- The delivery that a frame finds: a gap breaks the chain. -/
def arrive (self : RelayDecoder) (header : FrameHeader) : Delivery :=
  if self.nextSeq.any (header.seq ≠ ·) then self.delivery.invalidate else self.delivery

/-- The decode of a frame that is not stale. -/
def accept (self : RelayDecoder) (header : FrameHeader) (payload : Bytes) (native : Native) :
    DecodeOutcome × RelayDecoder :=
  let (outcome, delivery, handed) := (self.arrive header).decode self.decoders header payload native
  (outcome,
    { self with
      delivery
      nextSeq := if header.seq = maxSeq then none else some (header.seq + 1)
      decoders := self.decoders + 1
      log := handed.toList ++ self.log })

/-- What `push` answers. A failure breaks the chain, and is reported at most every half second. -/
def report (self : RelayDecoder) (now : ℕ) : DecodeOutcome → RelayOutcome × RelayDecoder
  | .decoded => (.frame, self)
  | .buffered => (.pending, self)
  | .failed =>
    let self := { self with delivery := self.delivery.invalidate }
    if self.lastIdrReport.all (idrMinIntervalMs ≤ now - ·) then
      (.needIdr, { self with lastIdrReport := some now })
    else (.pending, self)

/-- `RelayDecoder::push`. -/
def push (self : RelayDecoder) (header : FrameHeader) (payload : Bytes) (native : Native) (now : ℕ) :
    RelayOutcome × RelayDecoder :=
  if header.seq = maxSeq ∨ self.nextSeq.any (header.seq < ·) then (.pending, self)
  else
    let (outcome, self) := self.accept header payload native
    self.report now outcome

/-- The decoder after a list of inputs. -/
def pushAll (inputs : List (FrameHeader × Bytes × Native × ℕ)) : RelayDecoder :=
  inputs.foldl (fun d i => (d.push i.1 i.2.1 i.2.2.1 i.2.2.2).2) new

end RelayDecoder

/-! ### What is handed to a decoder -/

/-- **A frame continues its decoder.** The first frame of a decoder is a keyframe, a delta comes right
after its predecessor on its decoder, which was decoded without failure, and a decoder gets frames in
order and none after a late one. -/
structure Continues (before : List Handed) (h : Handed) : Prop where
  later : ∀ p ∈ before, p.decoder = h.decoder → p.seq < h.seq ∧ p.late = false
  first : (∀ p ∈ before, p.decoder ≠ h.decoder) → h.keyframe = true
  delta : h.keyframe = false → ∃ p, before.find? (fun p => p.decoder = h.decoder) = some p ∧
    p.seq.toNat + 1 = h.seq.toNat ∧ p.ok = true

/-- **A frame follows** what was handed over before it: it continues its decoder, and unless it is late
its sequence number is the largest. -/
structure Follows (before : List Handed) (h : Handed) : Prop extends Continues before h where
  increasing : h.late = false → ∀ p ∈ before, p.seq < h.seq

/-- What other decoders get does not matter. -/
theorem Continues.cons {before : List Handed} {h p : Handed} (hh : Continues before h)
    (hne : p.decoder ≠ h.decoder) : Continues (p :: before) h where
  later q hq heq := by
    rcases mem_cons.mp hq with rfl | hq
    · exact absurd heq hne
    · exact hh.later q hq heq
  first hnone := hh.first fun q hq => hnone q (mem_cons_of_mem p hq)
  delta hfalse := by
    rw [find?_cons_of_neg (by simpa using hne)]
    exact hh.delta hfalse

/-- Every frame of a log follows what came before it. -/
def Safe (log : List Handed) : Prop :=
  ∀ after h before, log = after ++ h :: before → Follows before h

theorem Safe.nil : Safe [] := by
  intro after h before hsplit
  cases after <;> cases hsplit

theorem Safe.cons {log : List Handed} {h : Handed} (hlog : Safe log) (hh : Follows log h) :
    Safe (h :: log) := by
  intro after h' before hsplit
  cases after with
  | nil =>
    obtain ⟨rfl, rfl⟩ := cons.inj hsplit
    exact hh
  | cons _ after => exact hlog after h' before (cons.inj hsplit).2

/-- **What the guards stand for.** While a delivery does not wait for a keyframe, its decoder got the
frame before `next` last, and decoded it. A pending frame continues its decoder, and no other frame
goes there. -/
structure Guarded (delivery : Delivery) (next decoders : ℕ) (log pending : List Handed) : Prop where
  known : ∀ h ∈ pending ++ log, h.seq.toNat < next ∧ h.decoder < decoders
  linked : delivery.waitingKeyframe = false → ∃ i p, delivery.decoder = some i ∧
    log.find? (fun p => p.decoder = i) = some p ∧ p.seq.toNat + 1 = next ∧ p.ok = true ∧
    (∀ q ∈ log, q.decoder = i → q.late = false) ∧ ∀ q ∈ pending, q.decoder ≠ i
  awaited : ∀ h ∈ pending, Continues log h
  apart : pending.Pairwise fun g h => g.decoder ≠ h.decoder
  safe : Safe log

namespace Delivery

variable {self : Delivery} {made : ℕ} {header : FrameHeader} {body : Bytes} {native : Native}

theorem requestIdr_guards (self : Delivery) (room : Bool) (nowMs : ℕ) :
    (self.requestIdr room nowMs).2.decoder = self.decoder ∧
      (self.requestIdr room nowMs).2.waitingKeyframe = self.waitingKeyframe := by
  unfold requestIdr
  split <;> exact ⟨rfl, rfl⟩

theorem settle_failed {room : Bool} {nowMs : ℕ} {o : DecodeOutcome} (h : o = .failed) :
    (self.settle o room nowMs).waitingKeyframe = true := by
  unfold settle
  rw [if_pos h]
  exact (requestIdr_guards _ room nowMs).2

/-- **What a decode hands over.** -/
theorem handed_decode {h : Handed} (hh : (self.decode made header body native).2.2 = some h) :
    h.seq = header.seq ∧ h.keyframe = header.keyframe ∧ h.late = false ∧
      ((self.waitingKeyframe = true ∧ header.keyframe = true ∧ h.decoder = made) ∨
        (self.waitingKeyframe = false ∧ h.decoder = self.decoder.getD made)) := by
  unfold decode at hh
  split at hh
  · cases hh
  next hkey =>
  dsimp only at hh
  split at hh
  · cases hh
  split at hh
  · cases hh
  next decoder hdecoder =>
  cases hh
  refine ⟨rfl, rfl, rfl, ?_⟩
  cases hwait : self.waitingKeyframe with
  | true =>
    -- a delta was refused above, and a keyframe gets a new decoder
    refine .inl ⟨rfl, ?_, ?_⟩
    · by_contra hdelta
      exact hkey ⟨hwait, Bool.not_eq_true _ ▸ hdelta⟩
    rw [hwait, if_pos rfl] at hdecoder
    split at hdecoder
    · exact (some.inj hdecoder).symm
    · cases hdecoder
  | false =>
    refine .inr ⟨rfl, ?_⟩
    rw [hwait, if_neg Bool.false_ne_true] at hdecoder
    cases hown : self.decoder with
    | none =>
      rw [hown] at hdecoder
      split at hdecoder
      · exact (some.inj hdecoder).symm
      · cases hdecoder
    | some i =>
      rw [hown] at hdecoder
      exact (some.inj hdecoder).symm

/-- **A decode that does not fail** handed the frame over, and the delivery keeps the decoder. -/
theorem decode_ok (h : (self.decode made header body native).1 ≠ .failed) :
    ∃ p, (self.decode made header body native).2.2 = some p ∧ p.ok = true ∧
      (self.decode made header body native).2.1.decoder = some p.decoder := by
  unfold decode at h ⊢
  split
  · next hwait =>
    rw [if_pos hwait] at h
    exact absurd rfl h
  next hwait =>
  rw [if_neg hwait] at h
  dsimp only at h ⊢
  split
  · next hbody =>
    rw [if_pos hbody] at h
    exact absurd rfl h
  next hbody =>
  rw [if_neg hbody] at h
  split
  · next hnone =>
    rw [hnone] at h
    exact absurd rfl h
  · next decoder hsome =>
    rw [hsome] at h
    exact ⟨_, rfl, decide_eq_true h, rfl⟩

end Delivery

namespace Guarded

variable {delivery delivery' : Delivery} {next next' decoders decoders' : ℕ} {log pending : List Handed}

theorem new : Guarded .new 0 0 [] [] where
  known _ h := nomatch h
  linked h := nomatch h
  awaited _ h := nomatch h
  apart := .nil
  safe := Safe.nil

section

variable (h : Guarded delivery next decoders log pending)
include h

/-- A delivery that waits for a keyframe has nothing to say about its decoder. -/
theorem wait (hwait : delivery'.waitingKeyframe = true) (hnext : next ≤ next')
    (hmade : decoders ≤ decoders') : Guarded delivery' next' decoders' log pending where
  known p hp := ⟨(h.known p hp).1.trans_le hnext, (h.known p hp).2.trans_le hmade⟩
  linked hfalse := by
    rw [hwait] at hfalse
    cases hfalse
  awaited := h.awaited
  apart := h.apart
  safe := h.safe

theorem of_eq (hdecoder : delivery'.decoder = delivery.decoder)
    (hwait : delivery'.waitingKeyframe = delivery.waitingKeyframe) :
    Guarded delivery' next decoders log pending where
  known := h.known
  linked := by
    rw [hdecoder, hwait]
    exact h.linked
  awaited := h.awaited
  apart := h.apart
  safe := h.safe

variable {header : FrameHeader} {native : Native} {body : Bytes} {p : Handed}

/-- **The frame that a decode hands over follows the log.** -/
theorem follows (hle : next ≤ header.seq.toNat)
    (hgap : next ≠ header.seq.toNat → delivery.waitingKeyframe = true)
    (hp : (delivery.decode decoders header body native).2.2 = some p) : Follows log p := by
  obtain ⟨hseq, hkey, -, hdecoder⟩ := Delivery.handed_decode hp
  have hbelow : ∀ q ∈ log, q.seq < p.seq := by
    intro q hq
    rw [hseq]
    exact lt_iff_toNat_lt.mpr ((h.known q (mem_append_right _ hq)).1.trans_le hle)
  have hdelta : p.keyframe = false → ∃ q, log.find? (fun q => q.decoder = p.decoder) = some q ∧
      q.seq.toNat + 1 = p.seq.toNat ∧ q.ok = true := by
    intro hfalse
    rcases hdecoder with ⟨-, htrue, -⟩ | ⟨hwait, hown⟩
    · rw [hkey, htrue] at hfalse
      cases hfalse
    obtain ⟨i, q, hi, hq, hnext, hok, -⟩ := h.linked hwait
    -- the chain is not broken, so the frame is the next one
    have hturn : next = header.seq.toNat := by
      by_contra hne
      rw [hgap hne] at hwait
      cases hwait
    rw [hi] at hown
    rw [hown, hseq, ← hturn]
    exact ⟨q, hq, hnext, hok⟩
  refine ⟨⟨fun q hq heq => ⟨hbelow q hq, ?_⟩, fun hnone => ?_, hdelta⟩, fun _ => hbelow⟩
  · rcases hdecoder with ⟨-, -, hmade⟩ | ⟨hwait, hown⟩
    · exact absurd (heq.trans hmade) (h.known q (mem_append_right _ hq)).2.ne
    obtain ⟨i, -, hi, -, -, -, hprompt, -⟩ := h.linked hwait
    rw [hi, getD_some] at hown
    exact hprompt q hq (heq.trans hown)
  by_contra hfalse
  obtain ⟨q, hq, -⟩ := hdelta (Bool.not_eq_true _ ▸ hfalse)
  have hsame := find?_some hq
  rw [decide_eq_true_eq] at hsame
  exact hnone q (mem_of_find?_eq_some hq) hsame

/-- The decoder of a delivery is new, or the delivery's own: no pending frame goes there. -/
theorem decoder_ne (hp : (delivery.decode decoders header body native).2.2 = some p) :
    p.decoder < decoders + 1 ∧ ∀ q ∈ pending, q.decoder ≠ p.decoder := by
  obtain ⟨-, -, -, ⟨-, -, hmade⟩ | ⟨hwait, hown⟩⟩ := Delivery.handed_decode hp
  · refine ⟨by omega, fun q hq => ?_⟩
    rw [hmade]
    exact (h.known q (mem_append_left _ hq)).2.ne
  obtain ⟨i, q, hi, hq, -, -, -, hforeign⟩ := h.linked hwait
  rw [hi, getD_some] at hown
  have hlt := (h.known q (mem_append_right _ (mem_of_find?_eq_some hq))).2
  have hqi := find?_some hq
  rw [decide_eq_true_eq] at hqi
  exact ⟨by omega, hown ▸ hforeign⟩

/-- A frame goes to the log: one of the delivery, or a pending one of another decoder. -/
theorem log_frame (hp : Follows log p) (hprompt : p.late = false)
    (hnext : next ≤ p.seq.toNat) (hnumber : p.decoder < decoders + 1 ∧ ∀ q ∈ pending, q.decoder ≠ p.decoder)
    (hlinked : delivery'.waitingKeyframe = false → delivery'.decoder = some p.decoder ∧ p.ok = true) :
    Guarded delivery' (p.seq.toNat + 1) (decoders + 1) (p :: log) pending where
  known q hq := by
    have hold : q ∈ pending ++ log → q.seq.toNat < p.seq.toNat + 1 ∧ q.decoder < decoders + 1 := by
      intro hq
      have := h.known q hq
      omega
    rcases mem_append.mp hq with hq | hq
    · exact hold (mem_append_left _ hq)
    rcases mem_cons.mp hq with rfl | hq
    · exact ⟨Nat.lt_succ_self _, hnumber.1⟩
    · exact hold (mem_append_right _ hq)
  linked hwait := by
    obtain ⟨hdecoder, hok⟩ := hlinked hwait
    refine ⟨p.decoder, p, hdecoder, ?_, rfl, hok, fun q hq heq => ?_, hnumber.2⟩
    · rw [find?_cons_of_pos]
      exact decide_eq_true rfl
    rcases mem_cons.mp hq with rfl | hq
    · exact hprompt
    · exact (hp.later q hq heq).2
  awaited q hq := (h.awaited q hq).cons (hnumber.2 q hq).symm
  apart := h.apart
  safe := h.safe.cons hp

/-- **A decode keeps the guards**, if a failure makes the delivery wait for a keyframe. -/
theorem decode (hle : next ≤ header.seq.toNat)
    (hgap : next ≠ header.seq.toNat → delivery.waitingKeyframe = true)
    (hfailed : (delivery.decode decoders header body native).1 = .failed →
      delivery'.waitingKeyframe = true) (hok : (delivery.decode decoders header body native).1 ≠ .failed →
      delivery' = (delivery.decode decoders header body native).2.1) :
    Guarded delivery' (header.seq.toNat + 1) (decoders + 1)
      ((delivery.decode decoders header body native).2.2.toList ++ log) pending := by
  cases hhanded : (delivery.decode decoders header body native).2.2 with
  | none =>
    -- without a frame for the decoder, the decode failed
    refine h.wait (hfailed ?_) (hle.trans (Nat.le_succ _)) (Nat.le_succ _)
    by_contra hne
    obtain ⟨p, hp, -⟩ := Delivery.decode_ok hne
    rw [hhanded] at hp
    cases hp
  | some p =>
    obtain ⟨hseq, -, hprompt, -⟩ := Delivery.handed_decode hhanded
    rw [← hseq] at hle ⊢
    refine h.log_frame (h.follows (hseq ▸ hle) hgap hhanded) hprompt hle (h.decoder_ne hhanded)
      fun hwait => ?_
    -- the delivery does not wait, so the decode did not fail
    have hne : (delivery.decode decoders header body native).1 ≠ .failed := by
      intro hfail
      rw [hfailed hfail] at hwait
      cases hwait
    obtain ⟨q, hq, hqok, hqdecoder⟩ := Delivery.decode_ok hne
    cases hhanded.symm.trans hq
    rw [hok hne]
    exact ⟨hqdecoder, hqok⟩

/-- A pending frame is handed over, late. -/
theorem hand_over {i : ℕ} (hp : pending[i]? = some p) :
    Guarded delivery next decoders ({ p with late := true } :: log) (pending.eraseIdx i) := by
  have hmem := mem_of_getElem? hp
  have hsub := eraseIdx_sublist pending i
  -- the pending frames that stay have decoders of their own
  have hperm : pending ~ p :: pending.eraseIdx i := by
    obtain ⟨hlt, rfl⟩ := List.getElem?_eq_some_iff.mp hp
    exact (getElem_cons_eraseIdx_perm hlt).symm
  have hapart : ∀ q ∈ pending.eraseIdx i, p.decoder ≠ q.decoder :=
    (pairwise_cons.mp ((hperm.pairwise_iff fun hne => hne.symm).mp h.apart)).1
  have hcontinues := h.awaited p hmem
  refine ⟨fun q hq => ?_, fun hwait => ?_, fun q hq => ?_, h.apart.sublist hsub, ?_⟩
  · rcases mem_append.mp hq with hq | hq
    · exact h.known q (mem_append_left _ (hsub.subset hq))
    rcases mem_cons.mp hq with rfl | hq
    · exact h.known p (mem_append_left _ hmem)
    · exact h.known q (mem_append_right _ hq)
  · obtain ⟨j, q, hj, hq, hnext, hok, hprompt, hforeign⟩ := h.linked hwait
    have hne := hforeign p hmem
    refine ⟨j, q, hj, ?_, hnext, hok, fun r hr heq => ?_, fun r hr => hforeign r (hsub.subset hr)⟩
    · rw [find?_cons_of_neg (by simpa using hne)]
      exact hq
    rcases mem_cons.mp hr with rfl | hr
    · exact absurd heq hne
    · exact hprompt r hr heq
  · exact (h.awaited q (hsub.subset hq)).cons (hapart q hq)
  · exact h.safe.cons ⟨⟨hcontinues.later, hcontinues.first, hcontinues.delta⟩, nofun⟩

end

/-- **A job that did not return** leaves a new delivery. Its frame follows the log, and is handed over now
or later. -/
theorem abandoned {w : World} (h : Guarded w.delivery next w.decoders w.log w.pending)
    {header : FrameHeader} (body : Bytes) (ran : Option Native) (hle : next ≤ header.seq.toNat)
    (hgap : next ≠ header.seq.toNat → w.delivery.waitingKeyframe = true)
    (hwait : delivery'.waitingKeyframe = true) :
    Guarded delivery' (header.seq.toNat + 1) (w.decoders + 1) (w.abandoned header body ran ++ w.log)
        w.pending ∧
      Guarded delivery' (header.seq.toNat + 1) (w.decoders + 1) w.log
        (w.abandoned header body ran ++ w.pending) := by
  unfold World.abandoned
  have hskip := h.wait hwait (hle.trans (Nat.le_succ _)) (Nat.le_succ _)
  cases hp : ran.bind fun native => (w.delivery.decode w.decoders header body native).2.2 with
  | none => exact ⟨hskip, hskip⟩
  | some p =>
    obtain ⟨native, -, hhanded⟩ := bind_eq_some_iff.mp hp
    obtain ⟨hseq, -, hprompt, -⟩ := Delivery.handed_decode hhanded
    have hfollows := h.follows hle hgap hhanded
    have hapart := h.decoder_ne hhanded
    rw [← hseq] at hle ⊢ hskip
    have hvain : delivery'.waitingKeyframe = false → delivery'.decoder = some p.decoder ∧ p.ok = true := by
      intro hfalse
      rw [hwait] at hfalse
      cases hfalse
    refine ⟨h.log_frame hfollows hprompt hle hapart hvain, ?_⟩
    refine ⟨fun q hq => ?_, fun hfalse => ?_, fun q hq => ?_, ?_, h.safe⟩
    · rcases mem_cons.mp hq with rfl | hq
      · exact ⟨Nat.lt_succ_self _, hapart.1⟩
      · exact hskip.known q hq
    · rw [hwait] at hfalse
      cases hfalse
    · rcases mem_cons.mp hq with rfl | hq
      · exact hfollows.toContinues
      · exact h.awaited q hq
    · exact pairwise_cons.mpr ⟨fun q hq => (hapart.2 q hq).symm, h.apart⟩

end Guarded

/-! ### The session -/

/-- No frame with the largest sequence number waits. -/
def Ordered.Bounded (self : Ordered) : Prop :=
  ∀ (seq : UInt64) (frame : FrameHeader × Bytes), self.frames[seq]? = some frame →
    frame.1.seq ≠ maxSeq

namespace Ordered

variable {self : Ordered}

variable {frame : FrameHeader × Bytes}

theorem lookup_popLast {frames : ExtTreeMap UInt64 (FrameHeader × Bytes) compare} {seq : UInt64}
    (h : (popLast frames)[seq]? = some frame) :
    frames[seq]? = some frame := by
  unfold popLast at h
  split at h
  · rw [lookup_erase] at h
    split at h
    · cases h
    · exact h
  · exact h

theorem lookup_iterate_popLast {frames : ExtTreeMap UInt64 (FrameHeader × Bytes) compare} {seq : UInt64} :
    ∀ n, (popLast^[n] frames)[seq]? = some frame → frames[seq]? = some frame
  | 0, h => h
  | n + 1, h => by
    rw [Function.iterate_succ_apply'] at h
    exact lookup_iterate_popLast n (lookup_popLast h)

theorem Bounded.default : Bounded .default := by
  intro seq frame h
  simp [Ordered.default] at h

theorem lookup_skipTo {header : FrameHeader} {seq : UInt64}
    (h : (self.skipTo header).frames[seq]? = some frame) : self.frames[seq]? = some frame := by
  unfold skipTo at h
  split at h
  · rw [ExtTreeMap.getElem?_filter, pfilter_eq_some_iff] at h
    obtain ⟨hframe, -⟩ := h
    exact hframe
  · exact h

/-- **A push** keeps frames with the largest sequence number out. -/
theorem Bounded.push (h : self.Bounded) (header : FrameHeader) (payload : Bytes) (now : ℕ) :
    (self.push header payload now).Bounded := by
  unfold Ordered.push
  split
  · exact h
  next hok =>
  have hseq : header.seq ≠ maxSeq := fun heq => hok (Or.inl heq)
  intro seq frame hframe
  have hframe := lookup_iterate_popLast _ hframe
  rw [lookup_insert] at hframe
  split at hframe
  · cases hframe
    exact hseq
  · exact h seq frame (lookup_skipTo hframe)

theorem pop_eq_some {now : ℕ} {header : FrameHeader} {body : Bytes} {ordered : Ordered}
    (h : self.pop now = some ((header, body), ordered)) (hbounded : self.Bounded) :
    header.seq ≠ maxSeq ∧ ordered.Bounded := by
  unfold pop at h
  split at h
  · cases h
  next next _ =>
  split at h
  · cases h
  next frame hframe =>
  cases h
  refine ⟨hbounded _ _ hframe, fun seq frame' hframe' => ?_⟩
  rw [lookup_erase] at hframe'
  split at hframe'
  · cases hframe'
  · exact hbounded seq frame' hframe'

theorem Bounded.expire (h : self.Bounded) (timeout now : ℕ) : (self.expire timeout now).2.Bounded := by
  unfold Ordered.expire
  split
  · exact Bounded.default
  · exact h

end Ordered

/-- **The invariant of the session.** -/
structure Inv (w : World) : Prop where
  guarded : Guarded w.delivery w.nextSeq.toNat w.decoders w.log w.pending
  bounded : w.ordered.Bounded
  relayed : w.encoded = true → w.delivery.waitingKeyframe = true

theorem GapRepair.request_waits (self : GapRepair) (delivery : Delivery)
    (h : delivery.waitingKeyframe = true) (room : Bool) (nowMs : ℕ) :
    (self.request delivery room nowMs).2.waitingKeyframe = true := by
  have hrequest := (delivery.requestIdr_guards room nowMs).2.trans h
  unfold request
  split
  · exact h
  split
  · next heq =>
    rw [heq] at hrequest
    exact hrequest
  · next heq =>
    rw [heq] at hrequest
    exact hrequest

theorem toNat_succ {seq : UInt64} (h : seq ≠ maxSeq) : (seq + 1).toNat = seq.toNat + 1 := by
  have hlt := seq.toNat_lt
  have hne : seq.toNat ≠ 2 ^ 64 - 1 := fun heq => h (UInt64.toNat_inj.mp heq)
  show (seq.toNat + 1) % 2 ^ 64 = _
  omega

namespace Inv

variable {w : World}

theorem new (encoded : Bool) : Inv (World.new encoded) where
  guarded := Guarded.new
  bounded := Ordered.Bounded.default
  relayed _ := rfl

theorem readFailed (h : Inv w) (room : Bool) (nowMs : ℕ) :
    Inv { w with
      readers := w.readers - 1
      gapRepair := ⟨none⟩
      delivery := (w.delivery.requestIdr room nowMs).2 } := by
  obtain ⟨hdecoder, hwait⟩ := w.delivery.requestIdr_guards room nowMs
  refine ⟨h.guarded.of_eq hdecoder hwait, h.bounded, fun henc => ?_⟩
  rw [hwait]
  exact h.relayed henc

/-- However the job ends: the frame is the next one, or a keyframe is already awaited. -/
theorem decode {next : ℕ} {header : FrameHeader} (body : Bytes) (room : Bool) (nowMs : ℕ) (job : Job)
    (hguarded : Guarded w.delivery next w.decoders w.log w.pending) (hbounded : w.ordered.Bounded)
    (henc : w.encoded = false) (hle : next ≤ header.seq.toNat)
    (hgap : next ≠ header.seq.toNat → w.delivery.waitingKeyframe = true)
    (hnext : w.nextSeq.toNat = header.seq.toNat + 1) :
    Inv (w.decode header body room nowMs job) := by
  have hplain : ∀ P : Prop, w.encoded = true → P := by
    intro P htrue
    rw [henc] at htrue
    cases htrue
  cases job with
  | lost ran =>
    refine ⟨?_, hbounded, hplain _⟩
    show Guarded .new w.nextSeq.toNat _ _ _
    rw [hnext]
    exact (hguarded.abandoned body ran hle hgap rfl).1
  | timedOut ran late =>
    obtain ⟨hnow, hlater⟩ :=
      hguarded.abandoned body ran hle hgap (Delivery.new.requestIdr_guards room nowMs).2
    rw [← hnext] at hnow hlater
    unfold World.decode
    cases late with
    | false => exact ⟨hnow, hbounded, hplain _⟩
    | true => exact ⟨hlater, hbounded, hplain _⟩
  | finished native =>
    refine ⟨?_, hbounded, hplain _⟩
    show Guarded _ w.nextSeq.toNat _ _ _
    rw [hnext]
    refine hguarded.decode hle hgap (fun hfail => ?_) fun hok => if_neg hok
    exact Delivery.settle_failed hfail

/-- The turn of a frame. An old one is skipped, and a gap breaks the chain first. -/
theorem turn (h : Inv w) {header : FrameHeader} (hseq : header.seq ≠ maxSeq) (body : Bytes) (job : Job)
    (relayed room : Bool) (nowMs : ℕ) : Inv (w.turn header body job relayed room nowMs) := by
  unfold World.turn
  split
  · exact h
  next hturn =>
  have hle : w.nextSeq.toNat ≤ header.seq.toNat := le_iff_toNat_le.mp (UInt64.not_lt.mp hturn)
  have hnext := toNat_succ hseq
  -- a gap breaks the chain
  have hguarded : Guarded (if header.seq > w.nextSeq then w.delivery.invalidate else w.delivery)
      w.nextSeq.toNat w.decoders w.log w.pending := by
    split
    · exact h.guarded.wait rfl le_rfl le_rfl
    · exact h.guarded
  have hgap : w.nextSeq.toNat ≠ header.seq.toNat →
      (if header.seq > w.nextSeq then w.delivery.invalidate else w.delivery).waitingKeyframe = true := by
    intro hne
    rw [if_pos (lt_iff_toNat_lt.mpr (Nat.lt_of_le_of_ne hle hne))]
    rfl
  dsimp only
  split
  · next henc =>
    -- relayed frames do not reach a decoder here
    have hwait : (if header.seq > w.nextSeq then w.delivery.invalidate
        else w.delivery).waitingKeyframe = true := by
      split
      · rfl
      · exact h.relayed henc
    refine ⟨?_, h.bounded, fun _ => hwait⟩
    rw [hnext]
    exact hguarded.wait hwait (hle.trans (Nat.le_succ _)) le_rfl
  · next henc =>
    exact decode body room nowMs job hguarded h.bounded (Bool.not_eq_true _ ▸ henc) hle hgap hnext

/-- **One round keeps the invariant.** -/
theorem step (h : Inv w) (act : Act) : Inv (w.step act) := by
  unfold World.step
  split
  · exact h
  cases act with
  | turn job relayed room nowMs =>
    dsimp only
    split
    · next header body ordered hpop =>
      obtain ⟨hseq, hbounded⟩ := Ordered.pop_eq_some hpop h.bounded
      have hpopped : Inv { w with ordered } := ⟨h.guarded, hbounded, h.relayed⟩
      exact hpopped.turn hseq body job relayed room nowMs
    · exact h
  | tick wait room nowMs =>
    dsimp only
    split
    · exact h
    split
    · next ordered hexpire =>
      split
      · -- the gap expired: the delivery waits for a keyframe
        have hbounded := h.bounded.expire wait nowMs
        rw [hexpire] at hbounded
        have hwait := GapRepair.request_waits w.gapRepair w.delivery.invalidate rfl room nowMs
        exact ⟨h.guarded.wait hwait le_rfl le_rfl, hbounded, fun _ => hwait⟩
      · exact h
    · exact h
  | read r room nowMs =>
    dsimp only
    split
    · exact h
    cases r with
    | complete header body => exact ⟨h.guarded, h.bounded.push header body nowMs, h.relayed⟩
    | stale => exact ⟨h.guarded, h.bounded, h.relayed⟩
    | rejected | timedOut => exact h.readFailed room nowMs
  | admitStream | close => exact ⟨h.guarded, h.bounded, h.relayed⟩

/-- A late frame leaves the guards of the loop alone. -/
theorem next (h : Inv w) (event : Event) : Inv (w.next event) := by
  cases event with
  | round act => exact h.step act
  | handOver i =>
    unfold World.next
    dsimp only
    split
    next p hp => exact ⟨h.guarded.hand_over hp, h.bounded, h.relayed⟩
    · exact h

theorem run (encoded : Bool) (events : List Event) (n : ℕ) : Inv (World.run encoded (events.take n)) :=
  foldl_take_induction (P := fun _ w => Inv w) (new encoded) (fun _ event _ h => h.next event)
    (fun _ _ h => h) n

end Inv

/-! ### The relay decoder -/

/-- The invariant of a `RelayDecoder`. -/
structure RelayDecoder.Inv (d : RelayDecoder) : Prop where
  guarded : Guarded d.delivery (d.nextSeq.elim 0 UInt64.toNat) d.decoders d.log []
  prompt : ∀ h ∈ d.log, h.late = false
  start : d.nextSeq = none → d.delivery.waitingKeyframe = true

namespace RelayDecoder

variable {d : RelayDecoder}

theorem Inv.new : Inv .new where
  guarded := Guarded.new
  prompt _ h := nomatch h
  start _ := rfl

theorem report_spec (d : RelayDecoder) (now : ℕ) (o : DecodeOutcome) :
    (d.report now o).2.nextSeq = d.nextSeq ∧ (d.report now o).2.decoders = d.decoders ∧
      (d.report now o).2.log = d.log ∧
      (o = .failed → (d.report now o).2.delivery.waitingKeyframe = true) ∧
      (o ≠ .failed → (d.report now o).2.delivery = d.delivery) := by
  cases o with
  | decoded | buffered => exact ⟨rfl, rfl, rfl, nofun, fun _ => rfl⟩
  | failed =>
    unfold report
    dsimp only
    split <;> exact ⟨rfl, rfl, rfl, fun _ => rfl, fun hne => absurd rfl hne⟩

theorem Inv.arrive (h : d.Inv) {header : FrameHeader} (hnew : d.nextSeq.any (header.seq < ·) = false) :
    Guarded (d.arrive header) (d.nextSeq.elim 0 UInt64.toNat) d.decoders d.log [] ∧
      d.nextSeq.elim 0 UInt64.toNat ≤ header.seq.toNat ∧
      (d.nextSeq.elim 0 UInt64.toNat ≠ header.seq.toNat → (d.arrive header).waitingKeyframe = true) := by
  unfold RelayDecoder.arrive
  cases hnext : d.nextSeq with
  | none =>
    have hguarded := h.guarded
    rw [hnext] at hguarded
    exact ⟨hguarded, Nat.zero_le _, fun _ => h.start hnext⟩
  | some next =>
    have hguarded := h.guarded
    rw [hnext] at hguarded hnew
    rw [any_some, decide_eq_false_iff_not, UInt64.not_lt] at hnew
    refine ⟨?_, le_iff_toNat_le.mp hnew, fun hne => ?_⟩
    · split
      · exact hguarded.wait rfl le_rfl le_rfl
      · exact hguarded
    rw [if_pos]
    · rfl
    · refine decide_eq_true fun heq => hne ?_
      rw [heq]
      rfl

/-- **A push keeps the guards.** -/
theorem Inv.push (h : d.Inv) (header : FrameHeader) (payload : Bytes) (native : Native) (now : ℕ) :
    (d.push header payload native now).2.Inv := by
  unfold RelayDecoder.push
  split
  · exact h
  next hok =>
  have hseq : header.seq ≠ maxSeq := fun heq => hok (Or.inl heq)
  obtain ⟨hguarded, hle, hgap⟩ := h.arrive (by simpa using fun hstale => hok (Or.inr hstale))
  obtain ⟨hnext, hdecoders, hlog, hfailed, hdecoded⟩ :=
    report_spec (d.accept header payload native).2 now (d.accept header payload native).1
  have hsome : (d.accept header payload native).2.nextSeq = some (header.seq + 1) := if_neg hseq
  refine ⟨?_, fun q hq => ?_, fun hnone => ?_⟩
  · rw [hnext, hdecoders, hlog, hsome]
    show Guarded _ (header.seq + 1).toNat _ _ _
    rw [toNat_succ hseq]
    exact hguarded.decode hle hgap hfailed hdecoded
  · rw [hlog] at hq
    rcases mem_append.mp hq with hq | hq
    · exact (Delivery.handed_decode (mem_toList.mp hq)).2.2.1
    · exact h.prompt q hq
  · rw [hnext, hsome] at hnone
    cases hnone

end RelayDecoder

/-- **Reference safety of the receiver.** In every run of a session, whatever the readers bring, whenever
gaps expire, however decodes end: the first frame handed to a decoder is a keyframe, a delta comes right
after its predecessor on its decoder, which was decoded without failure, and a frame has a larger
sequence number than all before, unless its job had timed out: then it is the last of its decoder, and
larger than those before it there. For every input of a `RelayDecoder` the same holds, and no frame is
late. -/
theorem receiver_safe :
    (∀ (encoded : Bool) (events : List Event), Safe (World.run encoded events).log) ∧
      ∀ inputs, Safe (RelayDecoder.pushAll inputs).log ∧
        ∀ h ∈ (RelayDecoder.pushAll inputs).log, h.late = false := by
  constructor
  · intro encoded events
    have hinv := Inv.run encoded events events.length
    rw [take_length] at hinv
    exact hinv.guarded.safe
  intro inputs
  have hinv : (RelayDecoder.pushAll (inputs.take inputs.length)).Inv :=
    foldl_take_induction (P := fun _ d => RelayDecoder.Inv d) .new
      (fun _ i _ h => h.push i.1 i.2.1 i.2.2.1 i.2.2.2) (fun _ _ h => h) inputs.length
  rw [take_length] at hinv
  exact ⟨hinv.guarded.safe, hinv.prompt⟩

/-- After a gap no delta is handed over until a keyframe gets a new decoder, and none after a failure. -/
example :
    ((RelayDecoder.pushAll
      [(⟨4, true, 8, 8⟩, [1], ⟨true, .picture 8 8⟩, 0), (⟨5, false, 8, 8⟩, [1], ⟨true, .buffered⟩, 1),
        (⟨7, false, 8, 8⟩, [1], ⟨true, .buffered⟩, 2), (⟨6, false, 8, 8⟩, [1], ⟨true, .buffered⟩, 3),
        (⟨8, true, 8, 8⟩, [1], ⟨true, .error⟩, 4), (⟨9, false, 8, 8⟩, [1], ⟨true, .buffered⟩, 5)]).log)
      = [⟨3, 8, true, false, false⟩, ⟨0, 5, false, true, false⟩, ⟨0, 4, true, true, false⟩] := by
  decide

/-- A keyframe whose decode times out while it runs, a second one that is decoded, and then the hand-over
of the first. -/
def overtaken : List Event :=
  [.round .admitStream, .round (.read (.complete ⟨0, true, 8, 8⟩ [1]) true 0),
    .round (.turn (.timedOut (some ⟨true, .picture 8 8⟩) true) true true 8000),
    .round .admitStream, .round (.read (.complete ⟨1, true, 8, 8⟩ [1]) true 8001),
    .round (.turn (.finished ⟨true, .picture 8 8⟩) true true 8002), .handOver 0]

/-- **Sequence numbers need not increase**: a frame whose job timed out is handed over after a newer one. -/
theorem receiver_overtaken :
    (World.run false overtaken).log = [⟨0, 0, true, true, true⟩, ⟨1, 1, true, true, false⟩] := by
  decide +kernel

end Rds.Desktop.Receiver
