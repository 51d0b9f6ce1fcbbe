import Rds.Framework.ByteString
import Rds.Framework.Fallible

/-!
# The jitter buffer

The bounded reorder buffer of `rds-audio/src/lib.rs`. Packets arrive in any order
and carry a sequence number; `pop` plays them out in sequence, reports single
missing frames, and jumps over a hole that is larger than the buffer.

`Effect` says what a call can do to the packets, to the playout position and to
the count of accepted packets (`Playout`), and what it gives back or drops.
Everything is proved through it. `JitterKept` is the invariant of the buffer, `Tiled` the invariant of
a whole run: the sequence numbers that `pop` has disposed of form one contiguous
range that ends at the playout position, and every accepted packet is accounted
for.

Sequence numbers are machine words. The range is stated in natural numbers, so it
also says that neither `next + 1` nor `available - next` wraps.
-/

namespace Rds

open Framework List UInt64

/-! ### Packets -/

/-- `AudioError`. -/
inductive AudioError where
  | invalidFormat (message : String)
  | invalidFrame (message : String)
  | invalidPacket (message : String)
  | codec (message : String)
  deriving DecidableEq

/-- `FrameDuration`. -/
inductive FrameDuration where
  | ms2_5
  | ms5
  | ms10
  | ms20
  | ms40
  | ms60
  deriving DecidableEq

namespace FrameDuration

/-- `FrameDuration::DEFAULT`. -/
def default : FrameDuration := .ms20

/-- `FrameDuration::duration_micros`. -/
def durationMicros : FrameDuration → ℕ
  | ms2_5 => 2500
  | ms5 => 5000
  | ms10 => 10000
  | ms20 => 20000
  | ms40 => 40000
  | ms60 => 60000

/-- `FrameDuration::samples`. -/
def samples (self : FrameDuration) (sampleRate : ℕ) : ℕ :=
  sampleRate * self.durationMicros / 1000000

end FrameDuration

/-- `AudioFormat`. -/
structure AudioFormat where
  sampleRate : ℕ
  channels : ℕ
  deriving DecidableEq

/-- `AudioFormat::validate`. -/
def AudioFormat.validate (self : AudioFormat) : Except AudioError Unit :=
  if self.sampleRate ∉ [8000, 12000, 16000, 24000, 48000] then
    throw (.invalidFormat "unsupported sample rate")
  else if self.channels ∉ [1, 2] then
    throw (.invalidFormat "audio must be mono or stereo")
  else .ok ()

/-- `AudioFormat::frame_samples_for`. -/
def AudioFormat.frameSamplesFor (self : AudioFormat) (duration : FrameDuration) :
    Except AudioError ℕ := do
  self.validate
  .ok (duration.samples self.sampleRate)

/-- `AudioPacket`. -/
structure AudioPacket where
  seq : UInt64
  timestampUs : UInt64
  samples : UInt32
  data : Bytes
  deriving DecidableEq

/-- The parts of the `opus` crate that look at a packet: the number of frames in
it, and the number of samples at a rate. -/
structure Opus where
  parse : Bytes → Option ℕ
  nbSamples : Bytes → ℕ → Option ℕ

/-- `u64::MAX`, the sequence number that is reserved. -/
def reservedSeq : UInt64 := 18446744073709551615

/-- `MAX_OPUS_PACKET_BYTES`. -/
def maxOpusPacketBytes : ℕ := 1275 + 1

/-- `AudioPacket::validate`. -/
def AudioPacket.validate (opus : Opus) (self : AudioPacket) (format : AudioFormat)
    (frameSamples : ℕ) : Except AudioError Unit := do
  format.validate
  if self.seq = reservedSeq then throw (.invalidPacket "audio sequence exhausted")
  else if ¬ (([.ms2_5, .ms5, .ms10, .ms20, .ms40, .ms60] : List FrameDuration).any fun duration =>
      duration.samples format.sampleRate = frameSamples) ∨ self.samples.toNat ≠ frameSamples then
    throw (.invalidFrame "packet sample count mismatch")
  else if self.data = [] ∨ self.data.length > maxOpusPacketBytes then
    throw (.invalidPacket "packet size is outside bounds")
  else
    match opus.parse self.data with
    | none => throw (.invalidPacket "malformed Opus packet")
    | some frames =>
      if frames ≠ 1 then throw (.invalidPacket "expected one Opus frame")
      else
        match opus.nbSamples self.data format.sampleRate with
        | none => throw (.invalidPacket "invalid Opus duration")
        | some samples =>
          if samples ≠ frameSamples then throw (.invalidFrame "Opus duration mismatch")
          else .ok ()

theorem AudioPacket.seq_ne_of_validate {opus : Opus} {p : AudioPacket} {format : AudioFormat}
    {frameSamples : ℕ} (h : p.validate opus format frameSamples = .ok ()) : p.seq ≠ reservedSeq := by
  unfold AudioPacket.validate at h
  rw [check_bind_eq_ok, ite_throw_eq_ok] at h
  exact h.2.1

/-! ### The buffer -/

/-- `PushOutcome`. -/
inductive PushOutcome where
  | accepted
  | duplicate
  | late
  /-- The oldest packet, which may be the incoming one, was discarded. -/
  | droppedOverflow
  deriving DecidableEq

/-- `PopOutcome`. -/
inductive PopOutcome where
  | packet
  | gap (sequence : UInt64)
  | discontinuity (first last : UInt64)
  deriving DecidableEq

/-- `JitterBuffer`. The map from sequence numbers to packets is the list of its
packets in increasing order; the counters are `u64`. -/
structure JitterBuffer where
  format : AudioFormat
  frameSamples : ℕ
  capacity : ℕ
  targetDelay : ℕ
  nextSequence : Option UInt64
  packets : List AudioPacket
  accepted : ℕ
  duplicates : ℕ
  late : ℕ
  overflow : ℕ
  gaps : ℕ

/-- `u64::saturating_add` on a counter. -/
def countUp (counter n : ℕ) : ℕ := min (counter + n) reservedSeq.toNat

/-- `BTreeMap::insert` of a sequence number that is absent. -/
def insertPacket (packet : AudioPacket) : List AudioPacket → List AudioPacket
  | [] => [packet]
  | first :: rest =>
    if packet.seq < first.seq then packet :: first :: rest
    else first :: insertPacket packet rest

/-- `MAX_JITTER_PACKETS`. -/
def maxJitterPackets : ℕ := 64

namespace JitterBuffer

/-- `JitterBuffer::new`. -/
def new (format : AudioFormat) (capacity targetDelay : ℕ) : Except AudioError JitterBuffer := do
  let frameSamples ← format.frameSamplesFor .default
  if capacity = 0 ∨ capacity > maxJitterPackets ∨ targetDelay ≥ capacity then
    throw (.invalidFrame "invalid jitter-buffer bounds")
  else
    .ok
      { format, frameSamples, capacity, targetDelay, nextSequence := none, packets := []
        accepted := 0, duplicates := 0, late := 0, overflow := 0, gaps := 0 }

/-- `JitterBuffer::push`: the result, and the buffer after it. -/
def push (opus : Opus) (self : JitterBuffer) (packet : AudioPacket) :
    Except AudioError PushOutcome × JitterBuffer :=
  match packet.validate opus self.format self.frameSamples with
  | .error error => (.error error, self)
  | .ok () =>
    if ∃ next ∈ self.nextSequence, packet.seq < next then
      (.ok .late, { self with late := countUp self.late 1 })
    else if ∃ held ∈ self.packets, held.seq = packet.seq then
      (.ok .duplicate, { self with duplicates := countUp self.duplicates 1 })
    else if self.packets.length = self.capacity then
      let self := { self with overflow := countUp self.overflow 1 }
      -- an old arrival must not displace newer audio
      if ∃ oldest ∈ self.packets.head?, packet.seq < oldest.seq then (.ok .droppedOverflow, self)
      else
        (.ok .droppedOverflow,
          { self with
            packets := insertPacket packet self.packets.tail
            accepted := countUp self.accepted 1 })
    else
      (.ok .accepted,
        { self with
          packets := insertPacket packet self.packets
          accepted := countUp self.accepted 1 })

/-- The playout position that `pop` works at: the first packet sets it if nothing
has been played. -/
def position (self : JitterBuffer) : Option UInt64 :=
  self.nextSequence.or (self.packets.head?.map (·.seq))

/-- `JitterBuffer::pop`. -/
def pop (self : JitterBuffer) : Option (PopOutcome × Option AudioPacket) × JitterBuffer :=
  match self.position with
  | none => (none, self)
  | some next =>
    let self := { self with nextSequence := some next }
    match self.packets.find? (·.seq = next) with
    | some packet =>
      (some (.packet, some packet),
        { self with
          packets := self.packets.filter (·.seq ≠ next)
          nextSequence := some (next + 1) })
    | none =>
      if self.packets.length > self.targetDelay then
        match self.packets.head? with
        | none => (none, self)
        | some available =>
          let missing := available.seq - next
          if missing > UInt64.ofNat self.capacity then
            (some (.discontinuity next available.seq, none),
              { self with
                nextSequence := some available.seq
                gaps := countUp self.gaps missing.toNat })
          else
            (some (.gap next, none),
              { self with
                nextSequence := some (next + 1)
                gaps := countUp self.gaps 1 })
      else (none, self)

/-- `JitterBuffer::start_at`. -/
def startAt (self : JitterBuffer) (sequence : UInt64) : Except AudioError Unit × JitterBuffer :=
  if self.nextSequence.isSome then
    (.error (.invalidFrame "jitter playout already started"), self)
  else if sequence = reservedSeq then
    (.error (.invalidFrame "audio sequence exhausted"), self)
  else
    let packets := self.packets.filter (sequence ≤ ·.seq)
    (.ok (),
      { self with
        packets
        late := countUp self.late (self.packets.length - packets.length)
        nextSequence := some sequence })

end JitterBuffer

/-! ### Runs -/

/-- A call of the buffer's owner. -/
inductive JitterCall where
  | push (packet : AudioPacket)
  | pop
  | startAt (sequence : UInt64)

/-- What a call returned. -/
inductive JitterAnswer where
  | pushed (result : Except AudioError PushOutcome)
  | popped (result : Option (PopOutcome × Option AudioPacket))
  | started (result : Except AudioError Unit)

/-- Carry out a call. -/
def JitterBuffer.call (opus : Opus) (b : JitterBuffer) : JitterCall → JitterAnswer × JitterBuffer
  | .push packet => (.pushed (b.push opus packet).1, (b.push opus packet).2)
  | .pop => (.popped b.pop.1, b.pop.2)
  | .startAt sequence => (.started (b.startAt sequence).1, (b.startAt sequence).2)

/-- One call in a run, with the buffer before and after it. -/
structure JitterStep where
  before : JitterBuffer
  call : JitterCall
  answer : JitterAnswer
  after : JitterBuffer

/-- A run: the calls made so far and the buffer they lead to. -/
def JitterBuffer.run (opus : Opus) (b : JitterBuffer) (calls : List JitterCall) :
    List JitterStep × JitterBuffer :=
  calls.foldl
    (fun st c => (st.1 ++ [⟨st.2, c, (st.2.call opus c).1, (st.2.call opus c).2⟩],
      (st.2.call opus c).2))
    ([], b)

namespace JitterStep

/-- The sequence numbers a call disposed of, from the first up to the second. -/
def span (step : JitterStep) : Option (ℕ × ℕ) :=
  match step.answer with
  | .popped (some (.packet, some p)) => some (p.seq.toNat, p.seq.toNat + 1)
  | .popped (some (.gap sequence, _)) => some (sequence.toNat, sequence.toNat + 1)
  | .popped (some (.discontinuity first last, _)) => some (first.toNat, last.toNat)
  | _ => none

/-- The packet a call returned. -/
def returned (step : JitterStep) : Option AudioPacket :=
  match step.answer with
  | .popped (some (_, some p)) => some p
  | _ => none

/-- The packets that a call evicted by an overflow, or discarded by `start_at`: those
retained before a push that answered `DroppedOverflow`, or before a `start_at` that
succeeded, and not after it. No other call is credited with a loss. -/
def dropped (step : JitterStep) : List AudioPacket :=
  match step.answer with
  | .pushed (.ok .droppedOverflow) | .started (.ok ()) =>
    step.before.packets.filter (· ∉ step.after.packets)
  | _ => []

end JitterStep

/-! ### Ordered packets -/

theorem insertPacket_perm (p : AudioPacket) (l : List AudioPacket) : (insertPacket p l).Perm (p :: l) := by
  induction l with
  | nil => exact .refl _
  | cons first rest ih =>
    rw [insertPacket]
    split
    · exact .refl _
    · exact (ih.cons first).trans (.swap p first rest)

theorem mem_insertPacket {p q : AudioPacket} {l : List AudioPacket} :
    q ∈ insertPacket p l ↔ q = p ∨ q ∈ l :=
  (insertPacket_perm p l).mem_iff.trans mem_cons

/-- Packets in increasing order of their sequence numbers. -/
abbrev InOrder (l : List AudioPacket) : Prop := l.Pairwise fun a b => a.seq < b.seq

theorem InOrder.insertPacket {p : AudioPacket} {l : List AudioPacket} (h : InOrder l)
    (hfresh : ∀ q ∈ l, q.seq ≠ p.seq) : InOrder (insertPacket p l) := by
  induction l with
  | nil => exact pairwise_singleton _ _
  | cons first rest ih =>
    rw [forall_mem_cons] at hfresh
    rw [Rds.insertPacket]
    have hfirst := (pairwise_cons.mp h).1
    split
    · next hlt =>
      refine pairwise_cons.mpr ⟨fun q hq => ?_, h⟩
      rcases mem_cons.mp hq with rfl | hq
      · exact hlt
      · exact UInt64.lt_trans hlt (hfirst q hq)
    next hlt =>
    have hgt : first.seq < p.seq :=
      UInt64.lt_of_le_of_ne (UInt64.not_lt.mp hlt) hfresh.1
    refine pairwise_cons.mpr ⟨fun q hq => ?_, ih (pairwise_cons.mp h).2 hfresh.2⟩
    rcases mem_insertPacket.mp hq with rfl | hq
    · exact hgt
    · exact hfirst q hq

/-! ### What a call can do -/

/-- What the calls work on: the capacity, the packets, the position and the count of
accepted packets. -/
structure Playout where
  capacity : ℕ
  packets : List AudioPacket
  next : Option UInt64
  accepted : ℕ

/-- The part of a buffer that the calls work on. -/
def JitterBuffer.playout (b : JitterBuffer) : Playout :=
  ⟨b.capacity, b.packets, b.nextSequence, b.accepted⟩

/-- What a call does: the playout it leaves, the span and the packet it returns, and the
retained packets it drops. -/
inductive Effect (b : Playout) :
    Playout → Option (ℕ × ℕ) → Option AudioPacket → List AudioPacket → Prop
  /-- Nothing but other counters changes. -/
  | still : Effect b b none none []
  /-- A packet is stored, at the price of the oldest one if the buffer is full. -/
  | stored (p : AudioPacket) (lost kept : List AudioPacket) (hsplit : b.packets = lost ++ kept)
      (hroom : kept.length < b.capacity) (hseq : p.seq ≠ reservedSeq)
      (hfloor : ∀ next ∈ b.next, next ≤ p.seq) (hfresh : ∀ q ∈ b.packets, q.seq ≠ p.seq) :
      Effect b { b with packets := insertPacket p kept, accepted := countUp b.accepted 1 } none none lost
  /-- The first playout position is set, and older packets are discarded. -/
  | started (sequence : UInt64) (hnone : b.next = none) :
      Effect b { b with packets := b.packets.filter (sequence ≤ ·.seq), next := some sequence } none none
        (b.packets.filter (¬ sequence ≤ ·.seq))
  /-- The packet at the position is played. -/
  | played (p : AudioPacket) (rest : List AudioPacket) (hsplit : b.packets = p :: rest)
      (hstart : ∀ next ∈ b.next, next = p.seq) :
      Effect b { b with packets := rest, next := some (p.seq + 1) }
        (some (p.seq.toNat, p.seq.toNat + 1)) (some p) []
  /-- The position moves over missing numbers, at most to the first packet. -/
  | skipped (next last : UInt64) (hposition : b.next = some next) (hlt : next < last)
      (hle : ∀ p ∈ b.packets, last ≤ p.seq) :
      Effect b { b with next := some last } (some (next.toNat, last.toNat)) none []

/-- The invariant of the buffer. -/
structure JitterKept (b : Playout) : Prop where
  room : 0 < b.capacity
  ordered : InOrder b.packets
  count : b.packets.length ≤ b.capacity
  seqs : ∀ p ∈ b.packets, p.seq ≠ reservedSeq
  floor : ∀ next ∈ b.next, ∀ p ∈ b.packets, next ≤ p.seq

theorem InOrder.head_le {l : List AudioPacket} {first : AudioPacket} (h : InOrder l)
    (hhead : l.head? = some first) : ∀ p ∈ l, first.seq ≤ p.seq := by
  obtain ⟨rest, rfl⟩ := head?_eq_some_iff.mp hhead
  intro p hp
  rcases mem_cons.mp hp with rfl | hp
  · exact UInt64.le_refl _
  · exact UInt64.le_of_lt ((pairwise_cons.mp h).1 p hp)

theorem JitterKept.position_le {b : JitterBuffer} (h : JitterKept b.playout) {next : UInt64}
    (hpos : b.position = some next) : ∀ p ∈ b.packets, next ≤ p.seq := by
  rcases Option.or_eq_some_iff.mp hpos with hnext | ⟨-, hfirst⟩
  · exact h.floor next hnext
  · obtain ⟨first, hhead, rfl⟩ := Option.map_eq_some_iff.mp hfirst
    exact h.ordered.head_le hhead

theorem toNat_succ_of_lt {a b : UInt64} (h : a < b) : (a + 1).toNat = a.toNat + 1 := by
  have hlt := lt_iff_toNat_lt.mp h
  have := b.toNat_lt
  change (a.toNat + 1) % 2 ^ 64 = _
  omega

theorem lt_reservedSeq {a : UInt64} (h : a ≠ reservedSeq) : a < reservedSeq := by
  have hne : a.toNat ≠ reservedSeq.toNat := fun heq => h (UInt64.toNat_inj.mp heq)
  have := a.toNat_lt
  change a.toNat ≠ 18446744073709551615 at hne
  change a.toNat < 18446744073709551615
  omega

/-! ### The effect of each call -/

section Calls

variable {opus : Opus} {b : JitterBuffer}

theorem filter_notMem_insertPacket {l lost kept : List AudioPacket} {p : AudioPacket}
    (hl : InOrder l) (hsplit : l = lost ++ kept) (hfresh : ∀ q ∈ l, q.seq ≠ p.seq) :
    l.filter (· ∉ insertPacket p kept) = lost := by
  subst hsplit
  have hne : ∀ {q}, q ∈ lost ++ kept → q ≠ p := fun hq heq => hfresh _ hq (congrArg _ heq)
  rw [filter_append]
  have hlost : lost.filter (· ∉ insertPacket p kept) = lost := by
    refine filter_eq_self.mpr fun q hq => decide_eq_true fun hmem => ?_
    rcases mem_insertPacket.mp hmem with heq | hkept
    · exact hne (mem_append_left _ hq) heq
    · exact UInt64.lt_irrefl _ ((pairwise_append.mp hl).2.2 q hq q hkept)
  have hkept : kept.filter (· ∉ insertPacket p kept) = [] := by
    refine filter_eq_nil_iff.mpr fun q hq hnot => ?_
    exact of_decide_eq_true hnot (mem_insertPacket.mpr (Or.inr hq))
  rw [hlost, hkept, append_nil]

theorem filter_notMem_self (l : List AudioPacket) : l.filter (· ∉ l) = [] :=
  filter_eq_nil_iff.mpr fun _ hq hnot => of_decide_eq_true hnot hq

/-- A push loses a packet only if it answers `DroppedOverflow`. -/
theorem push_effect (h : JitterKept b.playout) (packet : AudioPacket) :
    Effect b.playout (b.push opus packet).2.playout none none (JitterStep.dropped
      ⟨b, .push packet, .pushed (b.push opus packet).1, (b.push opus packet).2⟩) := by
  unfold JitterBuffer.push
  cases hvalid : packet.validate opus b.format b.frameSamples with
  | error error => exact .still
  | ok u =>
    have hseq := AudioPacket.seq_ne_of_validate hvalid
    dsimp only
    split
    · exact .still
    next hlate =>
    have hfloor : ∀ next ∈ b.nextSequence, next ≤ packet.seq := fun next hnext =>
      UInt64.not_lt.mp fun hlt => hlate ⟨next, hnext, hlt⟩
    split
    · exact .still
    next hdup =>
    have hfresh : ∀ q ∈ b.packets, q.seq ≠ packet.seq := fun q hq heq => hdup ⟨q, hq, heq⟩
    split
    · next hfull =>
      dsimp only [JitterStep.dropped]
      split
      · -- the incoming packet is the oldest: it was never accepted
        rw [filter_notMem_self]
        exact .still
      -- the buffer is full, so there is an oldest packet to give up
      obtain ⟨oldest, rest, hpackets⟩ : ∃ oldest rest, b.packets = oldest :: rest :=
        exists_cons_of_length_pos (hfull ▸ h.room)
      have hsplit : b.packets = [oldest] ++ rest := hpackets
      have htail : b.packets.tail = rest := by rw [hpackets, tail_cons]
      have hordered : InOrder b.packets := h.ordered
      rw [htail, filter_notMem_insertPacket hordered hsplit hfresh]
      refine .stored packet [oldest] rest hsplit ?_ hseq hfloor hfresh
      show rest.length < b.capacity
      rw [← hfull, hpackets]
      exact Nat.lt_succ_self _
    · next hfull => exact .stored packet [] b.packets rfl (lt_of_le_of_ne h.count hfull) hseq hfloor hfresh

/-- A `start_at` that fails loses nothing. -/
theorem startAt_effect (sequence : UInt64) :
    Effect b.playout (b.startAt sequence).2.playout none none (JitterStep.dropped
      ⟨b, .startAt sequence, .started (b.startAt sequence).1, (b.startAt sequence).2⟩) := by
  unfold JitterBuffer.startAt
  split
  · exact .still
  next hsome =>
  split
  · exact .still
  have hdropped : b.packets.filter (· ∉ b.packets.filter (sequence ≤ ·.seq)) =
      b.packets.filter (¬ sequence ≤ ·.seq) := by
    refine filter_congr fun q hq => ?_
    simp [hq]
  dsimp only [JitterStep.dropped]
  rw [hdropped]
  exact .started sequence (Option.not_isSome_iff_eq_none.mp hsome)

theorem JitterKept.eq_cons_of_find (h : JitterKept b.playout) {next : UInt64} (hpos : b.position = some next)
    {p : AudioPacket} (hfind : b.packets.find? (·.seq = next) = some p) :
    p.seq = next ∧ ∃ rest, b.packets = p :: rest ∧ b.packets.filter (·.seq ≠ next) = rest := by
  have hmem := mem_of_find?_eq_some hfind
  have hseq : p.seq = next := by simpa using find?_some hfind
  have hfloor := h.position_le hpos
  have hordered : InOrder b.packets := h.ordered
  refine ⟨hseq, ?_⟩
  cases hpackets : b.packets with
  | nil => rw [hpackets] at hmem; exact absurd hmem (by simp)
  | cons first rest =>
    rw [hpackets] at hmem hordered hfloor
    have hrest := (pairwise_cons.mp hordered).1
    have hfirst : first = p := by
      rcases mem_cons.mp hmem with rfl | hp
      · rfl
      -- a later packet would be above the first one, which is not below the position
      have hlt := hrest p hp
      rw [hseq] at hlt
      exact absurd (hfloor first mem_cons_self) (UInt64.not_le.mpr hlt)
    subst hfirst
    refine ⟨rest, rfl, ?_⟩
    rw [filter_cons, if_neg (by simp [hseq])]
    refine filter_eq_self.mpr fun q hq => decide_eq_true fun heq => ?_
    exact UInt64.lt_irrefl _ (hseq ▸ heq ▸ hrest q hq)

/-- Every way a pop ends: a packet in order, a gap concealed, or nothing due. -/
theorem pop_effect (h : JitterKept b.playout) :
    Effect b.playout b.pop.2.playout (JitterStep.span ⟨b, .pop, .popped b.pop.1, b.pop.2⟩)
      (JitterStep.returned ⟨b, .pop, .popped b.pop.1, b.pop.2⟩) [] := by
  unfold JitterBuffer.pop
  cases hpos : b.position with
  | none => exact .still
  | some next =>
    dsimp only
    cases hfind : b.packets.find? (·.seq = next) with
    | some p =>
      obtain ⟨rfl, rest, hsplit, hrest⟩ := h.eq_cons_of_find hpos hfind
      show Effect _ ⟨b.capacity, b.packets.filter _, _, _⟩ _ _ _
      rw [hrest]
      refine .played p rest hsplit fun next hnext => ?_
      have hnext' : b.nextSequence = some next := hnext
      rw [JitterBuffer.position, hnext'] at hpos
      exact Option.some.inj hpos
    | none =>
      -- nothing is at the position, so it was set before
      have hmissing : ∀ p ∈ b.packets, next < p.seq := by
        intro p hp
        refine UInt64.lt_of_le_of_ne (h.position_le hpos p hp) fun heq => ?_
        exact absurd (find?_eq_none.mp hfind p hp) (by simp [heq])
      have hnext : b.nextSequence = some next := by
        rcases Option.or_eq_some_iff.mp hpos with hnext | ⟨-, hfirst⟩
        · exact hnext
        · obtain ⟨first, hhead, rfl⟩ := Option.map_eq_some_iff.mp hfirst
          exact absurd (hmissing first (mem_of_head? hhead)) (UInt64.lt_irrefl _)
      have hstill : Effect b.playout ⟨b.capacity, b.packets, some next, b.accepted⟩ none none [] :=
        hnext ▸ .still
      dsimp only
      split
      · cases hhead : b.packets.head? with
        | none => exact hstill
        | some available =>
          have hlt := hmissing available (mem_of_head? hhead)
          dsimp only
          split
          · exact .skipped next available.seq hnext hlt (h.ordered.head_le hhead)
          -- one number: the next one is still not above the first packet
          have hsucc := toNat_succ_of_lt hlt
          change Effect b.playout _ (some (next.toNat, next.toNat + 1)) none []
          rw [← hsucc]
          refine .skipped next (next + 1) hnext ?_ fun p hp => ?_
          · rw [lt_iff_toNat_lt, hsucc]
            exact Nat.lt_succ_self _
          · rw [le_iff_toNat_le, hsucc]
            exact lt_iff_toNat_lt.mp (hmissing p hp)
      · exact hstill

/-- **What a call does.** -/
theorem call_effect (opus : Opus) (h : JitterKept b.playout) (c : JitterCall) :
    let step : JitterStep := ⟨b, c, (b.call opus c).1, (b.call opus c).2⟩
    Effect b.playout step.after.playout step.span step.returned step.dropped := by
  cases c with
  | push packet => exact push_effect h packet
  | pop => exact pop_effect h
  | startAt sequence => exact startAt_effect sequence

end Calls

/-! ### Invariants -/

section Invariants

variable {b b' : Playout} {span : Option (ℕ × ℕ)} {returned : Option AudioPacket}
  {dropped : List AudioPacket}

theorem Effect.capacity_eq (he : Effect b b' span returned dropped) : b'.capacity = b.capacity := by
  cases he <;> rfl

/-- Whatever a call did, the packets stay in order, few enough and not before the position. -/
theorem JitterKept.effect (h : JitterKept b) (he : Effect b b' span returned dropped) : JitterKept b' := by
  obtain ⟨hroom, hordered, hcount, hseqs, hfloor⟩ := h
  cases he with
  | still => exact ⟨hroom, hordered, hcount, hseqs, hfloor⟩
  | stored p lost kept hsplit hfree hseq hpfloor hfresh =>
    rw [hsplit] at hordered hseqs hfloor hfresh
    refine ⟨hroom, ?_, ?_, fun q hq => ?_, fun next hn q hq => ?_⟩
    · exact InOrder.insertPacket (pairwise_append.mp hordered).2.1 fun q hq =>
        hfresh q (mem_append_right _ hq)
    · exact (insertPacket_perm p kept).length_eq.trans_le hfree
    · rcases mem_insertPacket.mp hq with rfl | hq
      · exact hseq
      · exact hseqs q (mem_append_right _ hq)
    · rcases mem_insertPacket.mp hq with rfl | hq
      · exact hpfloor next hn
      · exact hfloor next hn q (mem_append_right _ hq)
  | started sequence =>
    refine ⟨hroom, hordered.filter _, (length_filter_le _ _).trans hcount,
      fun q hq => hseqs q (mem_of_mem_filter hq), fun next hn q hq => ?_⟩
    cases hn
    exact of_decide_eq_true (mem_filter.mp hq).2
  | played p rest hsplit =>
    rw [hsplit] at hordered hcount hseqs
    obtain ⟨hfirst, hrest⟩ := pairwise_cons.mp hordered
    refine ⟨hroom, hrest, Nat.le_of_succ_le hcount, fun q hq => hseqs q (mem_cons_of_mem _ hq),
      fun next hn q hq => ?_⟩
    cases hn
    rw [le_iff_toNat_le, toNat_succ_of_lt (hfirst q hq)]
    exact lt_iff_toNat_lt.mp (hfirst q hq)
  | skipped next last hposition hlt hle =>
    refine ⟨hroom, hordered, hcount, hseqs, fun n hn => ?_⟩
    cases hn
    exact hle

/-- The invariant of a run: the spans tile a range that ends at the position, the
packets played are in order and before the position, and the count of accepted
packets is balanced. -/
structure Tiled (spans : List (ℕ × ℕ)) (played lost : List AudioPacket) (b : Playout) :
    Prop where
  chain : spans.IsChain fun a b => a.2 = b.1
  proper : ∀ s ∈ spans, s.1 < s.2
  last : ∀ s ∈ spans.getLast?, ∃ next, b.next = some next ∧ s.2 = next.toNat
  ordered : InOrder played
  past : ∀ p ∈ played, ∃ next, b.next = some next ∧ p.seq < next
  balance : b.accepted = min (played.length + b.packets.length + lost.length) reservedSeq.toNat

section Tiling

variable {spans : List (ℕ × ℕ)} {played lost : List AudioPacket}

theorem Tiled.nil_of_none (h : Tiled spans played lost b) (hnone : b.next = none) :
    spans = [] ∧ played = [] := by
  constructor
  · refine getLast?_eq_none_iff.mp (Option.eq_none_iff_forall_not_mem.mpr fun s hs => ?_)
    obtain ⟨next, hnext, -⟩ := h.last s hs
    cases hnone.symm.trans hnext
  · refine eq_nil_iff_forall_not_mem.mpr fun p hp => ?_
    obtain ⟨next, hnext, -⟩ := h.past p hp
    cases hnone.symm.trans hnext

theorem Tiled.extend (h : Tiled spans played lost b) {s : ℕ × ℕ}
    (hstart : ∀ next ∈ b.next, next.toNat = s.1) (hproper : s.1 < s.2) :
    (spans ++ [s]).IsChain (fun a b => a.2 = b.1) ∧ ∀ t ∈ spans ++ [s], t.1 < t.2 := by
  constructor
  · refine isChain_append.mpr ⟨h.chain, isChain_singleton _, fun t ht u hu => ?_⟩
    obtain ⟨next, hnext, hlast⟩ := h.last t ht
    obtain rfl : s = u := by simpa using hu
    exact hlast.trans (hstart next hnext)
  intro t ht
  rcases mem_append.mp ht with ht | ht
  · exact h.proper t ht
  · rw [mem_singleton.mp ht]
    exact hproper

/-- **One call** keeps the invariant of the run. -/
theorem Tiled.effect (h : Tiled spans played lost b) (hb : JitterKept b)
    (he : Effect b b' span returned dropped) :
    Tiled (spans ++ span.toList) (played ++ returned.toList) (lost ++ dropped) b' := by
  have hbalance := h.balance
  cases he with
  | still => simpa using h
  | stored p _ kept hsplit =>
    simp only [Option.toList_none, append_nil]
    refine ⟨h.chain, h.proper, h.last, h.ordered, h.past, ?_⟩
    rw [hsplit, length_append] at hbalance
    dsimp only
    rw [(insertPacket_perm p kept).length_eq, length_append, countUp, length_cons]
    omega
  | started sequence hnone =>
    obtain ⟨rfl, rfl⟩ := h.nil_of_none hnone
    refine ⟨.nil, by simp, by simp, .nil, by simp, ?_⟩
    -- what is kept and what is discarded make up the packets
    have hsplit := length_eq_length_filter_add (l := b.packets) fun p => decide (sequence ≤ p.seq)
    simp only [decide_not, length_append, Option.toList_none, append_nil]
    omega
  | played p rest hsplit hstart =>
    have hsucc : (p.seq + 1).toNat = p.seq.toNat + 1 :=
      toNat_succ_of_lt (lt_reservedSeq (hb.seqs p (by rw [hsplit]; exact mem_cons_self)))
    obtain ⟨hchain, hproper⟩ := h.extend (s := (p.seq.toNat, p.seq.toNat + 1))
      (fun next hn => congrArg _ (hstart next hn)) (Nat.lt_succ_self _)
    have hbefore : ∀ q ∈ played, q.seq < p.seq := by
      intro q hq
      obtain ⟨next, hn, hlt⟩ := h.past q hq
      exact hstart next hn ▸ hlt
    have hlt : p.seq < p.seq + 1 := by
      rw [lt_iff_toNat_lt, hsucc]
      exact Nat.lt_succ_self _
    refine ⟨hchain, hproper, fun s hs => ?_, ?_, fun q hq => ⟨_, rfl, ?_⟩, ?_⟩
    · obtain rfl : (p.seq.toNat, p.seq.toNat + 1) = s := by simpa using hs
      exact ⟨_, rfl, hsucc.symm⟩
    · refine pairwise_append.mpr ⟨h.ordered, pairwise_singleton _ _, fun q hq r hr => ?_⟩
      rw [mem_singleton.mp hr]
      exact hbefore q hq
    · rcases mem_append.mp hq with hq | hq
      · exact UInt64.lt_trans (hbefore q hq) hlt
      · rw [mem_singleton.mp hq]
        exact hlt
    · rw [hsplit, length_cons] at hbalance
      simp only [Option.toList_some, append_nil, length_append, length_singleton]
      omega
  | skipped next last hposition hlt =>
    obtain ⟨hchain, hproper⟩ := h.extend (s := (next.toNat, last.toNat))
      (fun n hn => by cases hposition.symm.trans hn; rfl) (lt_iff_toNat_lt.mp hlt)
    simp only [Option.toList_none, append_nil]
    refine ⟨hchain, hproper, fun s hs => ?_, h.ordered, fun q hq => ?_, hbalance⟩
    · obtain rfl : (next.toNat, last.toNat) = s := by simpa using hs
      exact ⟨_, rfl, rfl⟩
    · obtain ⟨n, hn, hqlt⟩ := h.past q hq
      cases hposition.symm.trans hn
      exact ⟨_, rfl, UInt64.lt_trans hqlt hlt⟩

end Tiling

end Invariants

/-! ### Whole runs -/

/-- The sequence numbers disposed of in a run. -/
def spans (steps : List JitterStep) : List (ℕ × ℕ) := steps.filterMap JitterStep.span

/-- The packets returned in a run. -/
def playedPackets (steps : List JitterStep) : List AudioPacket :=
  steps.filterMap JitterStep.returned

/-- The packets that a run evicted by an overflow or discarded by `start_at`. -/
def droppedPackets (steps : List JitterStep) : List AudioPacket := steps.flatMap JitterStep.dropped

/-- The spans of a whole run lie end to end; each packet is played, dropped or still held. -/
theorem run_tiled (opus : Opus) {b : JitterBuffer} (hb : JitterKept b.playout)
    (ht : Tiled [] [] [] b.playout) (calls : List JitterCall) :
    JitterKept (b.run opus calls).2.playout ∧ (b.run opus calls).2.capacity = b.capacity ∧
      Tiled (spans (b.run opus calls).1) (playedPackets (b.run opus calls).1)
        (droppedPackets (b.run opus calls).1) (b.run opus calls).2.playout := by
  refine foldlRecOn calls _
    (motive := fun st : List JitterStep × JitterBuffer =>
      JitterKept st.2.playout ∧ st.2.capacity = b.capacity ∧
        Tiled (spans st.1) (playedPackets st.1) (droppedPackets st.1) st.2.playout) ⟨hb, rfl, ht⟩ ?_
  rintro ⟨steps, b₁⟩ ⟨hkept, hcapacity, htiled⟩ c -
  have heffect := call_effect opus hkept c
  refine ⟨hkept.effect heffect, heffect.capacity_eq.trans hcapacity, ?_⟩
  have hstep := htiled.effect hkept heffect
  unfold spans playedPackets droppedPackets at hstep ⊢
  simp only [flatMap_append, flatMap_cons, flatMap_nil, append_nil]
  convert hstep using 1
  · cases hs : JitterStep.span ⟨b₁, c, (b₁.call opus c).1, (b₁.call opus c).2⟩ <;> simp [hs]
  · cases hr : JitterStep.returned ⟨b₁, c, (b₁.call opus c).1, (b₁.call opus c).2⟩ <;> simp [hr]

/-- **Playout tiling.** In every run of a new buffer: no more packets are retained
than its capacity, none is older than the playout position, and so the distance
from the position to the oldest packet does not underflow. What `pop` returned
disposes of consecutive sequence numbers, each once, and returns packets in
increasing order. As many packets were accepted as were returned, are retained, and
were evicted by pushes that answered `DroppedOverflow` or discarded by `start_at`. -/
theorem jitter_tiling (opus : Opus) (format : AudioFormat) (capacity targetDelay : ℕ)
    (b₀ : JitterBuffer) (hnew : JitterBuffer.new format capacity targetDelay = .ok b₀)
    (calls : List JitterCall) :
    let steps := (b₀.run opus calls).1
    let b := (b₀.run opus calls).2
    b.packets.length ≤ capacity ∧ (∀ next ∈ b.nextSequence, ∀ p ∈ b.packets, next ≤ p.seq) ∧
      (∀ next ∈ b.position, ∀ available ∈ b.packets.head?,
        (available.seq - next).toNat + next.toNat = available.seq.toNat) ∧
      ((spans steps).IsChain fun a b => a.2 = b.1) ∧
      (∀ s ∈ spans steps, s.1 < s.2) ∧
      ((playedPackets steps).Pairwise fun p q => p.seq < q.seq) ∧
      (b.accepted < reservedSeq.toNat → b.accepted =
        (playedPackets steps).length + b.packets.length + (droppedPackets steps).length) := by
  unfold JitterBuffer.new at hnew
  rw [bind_eq_ok] at hnew
  obtain ⟨frameSamples, -, hnew⟩ := hnew
  rw [ite_throw_eq_ok, not_or] at hnew
  obtain ⟨⟨hcapacity, -⟩, hnew⟩ := hnew
  obtain rfl := Except.ok.inj hnew
  obtain ⟨hkept, hcap, htiled⟩ := run_tiled opus
    (b := { format, frameSamples, capacity, targetDelay, nextSequence := none, packets := []
            accepted := 0, duplicates := 0, late := 0, overflow := 0, gaps := 0 })
    ⟨Nat.pos_of_ne_zero hcapacity, .nil, Nat.zero_le _, fun _ hp => (nomatch hp), fun _ hn => nomatch hn⟩
    ⟨.nil, by simp, by simp, .nil, by simp, rfl⟩ calls
  refine ⟨hkept.count.trans_eq hcap, hkept.floor, ?_, htiled.chain, htiled.proper, htiled.ordered, ?_⟩
  · intro next hnext available havailable
    have hle := hkept.position_le hnext available (mem_of_head? havailable)
    rw [UInt64.toNat_sub_of_le _ _ hle]
    exact Nat.sub_add_cancel (le_iff_toNat_le.mp hle)
  · have hbalance := htiled.balance
    dsimp only [JitterBuffer.playout] at hbalance
    omega

/-- A parser that finds one frame of 20 ms at 48 kHz. -/
def frameOf20Ms : Opus := ⟨fun _ => some 1, fun _ _ => some 960⟩

/-- A new buffer of four packets for mono at 48 kHz. -/
def monoBuffer : JitterBuffer where
  format := ⟨48000, 1⟩
  frameSamples := 960
  capacity := 4
  targetDelay := 1
  nextSequence := none
  packets := []
  accepted := 0
  duplicates := 0
  late := 0
  overflow := 0
  gaps := 0

/-- An empty frame of 20 ms, with a sequence number. -/
def emptyFrame (seq : UInt64) : AudioPacket := ⟨seq, 0, 960, [0x78]⟩

/-- Five packets for four places, three that are played, and a gap. -/
def monoRun : List JitterStep × JitterBuffer :=
  monoBuffer.run frameOf20Ms
    (([5, 8, 9, 10, 12] : List UInt64).map (.push <| emptyFrame ·) ++
      [.pop, .pop, .pop, .push (emptyFrame 13), .pop])

theorem jitter_tiling_mono :
    JitterBuffer.new ⟨48000, 1⟩ 4 1 = .ok monoBuffer ∧
      spans monoRun.1 = [(8, 9), (9, 10), (10, 11), (11, 12)] ∧
      (droppedPackets monoRun.1).map (·.seq) = [5] ∧ monoRun.2.packets.length ≤ 4 ∧
      monoRun.2.accepted = (playedPackets monoRun.1).length + monoRun.2.packets.length +
        (droppedPackets monoRun.1).length := by
  obtain ⟨hcount, -, -, -, -, -, hbalance⟩ := jitter_tiling frameOf20Ms ⟨48000, 1⟩ 4 1 monoBuffer rfl
    (([5, 8, 9, 10, 12] : List UInt64).map (.push <| emptyFrame ·) ++
      [.pop, .pop, .pop, .push (emptyFrame 13), .pop])
  exact ⟨rfl, by decide +kernel, by decide +kernel, hcount, hbalance (by decide +kernel)⟩

end Rds
