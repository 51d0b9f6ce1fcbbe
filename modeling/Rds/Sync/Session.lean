import Rds.Sync.Codec

/-!
# Negotiated sessions

The second profile of `engine.rs`: each message of a transfer travels in an envelope
with the transfer's identifier, and a greeting agrees on the limits first.

`decode_eq_ok_iff` inverts the decoder: it accepts exactly the envelopes with its
own identifier that carry a message of a transfer, and returns the message that
the envelope was made for. Everything about isolation follows from it.

The two sides of the greeting negotiate with their arguments in opposite order.
`negotiate` takes a minimum field by field, so the order does not matter
(`agreedLimits_comm`). The limits a build declares are a constant; they are a
parameter here, so that two different builds can be compared.
-/

namespace Rds

open Framework Postcard SessionLimits

/-! ### Envelopes -/

/-- `Wire::v2`. -/
def Wire.v2 (transferId : TransferId) (limits : SessionLimits) : Wire := ⟨some transferId, limits⟩

/-- A message that may travel inside an envelope: anything but an envelope. -/
def SyncMsg.IsBody : SyncMsg → Prop
  | .session _ _ => False
  | _ => True

variable {msg : SyncMsg} {a b : SessionLimits}

theorem ofSession_eq_ok_iff {body : SessionMsg} :
    ofSession body = .ok msg ↔ toSession msg = some body := by
  cases body <;> cases msg <;> simp [ofSession, toSession, eq_comm]

/-- **What the decoder accepts**: an envelope of its own transfer, made for the
message it returns. -/
theorem decode_eq_ok_iff {id : TransferId} {limits : SessionLimits} {frame msg : SyncMsg} :
    (Wire.v2 id limits).decode frame = .ok msg ↔
      ∃ body, frame = .session id body ∧ toSession msg = some body := by
  unfold Wire.decode Wire.v2
  cases frame with
  | session got body =>
    dsimp only
    split
    next heq => simp [heq, ofSession_eq_ok_iff]
    next hne => simp [hne]
  | _ => simp

theorem frame_eq (id : TransferId) (limits : SessionLimits) (h : msg.IsBody) :
    ∃ body, toSession msg = some body ∧ (Wire.v2 id limits).frame msg = .session id body := by
  cases msg with
  | session _ _ => exact h.elim
  | _ => exact ⟨_, rfl, rfl⟩

theorem valid_frame {id : TransferId} {limits : SessionLimits} (h : msg.IsBody)
    (hv : syncMsgCodec.Valid msg) : syncMsgCodec.Valid ((Wire.v2 id limits).frame msg) := by
  cases msg with
  | session _ _ => exact h.elim
  | _ => exact ⟨trivial, hv⟩

/-! ### The greeting -/

/-- `SessionLimits::negotiate`. -/
def SessionLimits.negotiate (loc peer : SessionLimits) : Except SyncError SessionLimits :=
  if peer.maxChunk = 0 ∨ peer.maxChunks = 0 ∨ peer.fetchStreams = 0 ∨
      loc.maxChunk = 0 ∨ loc.maxChunks = 0 ∨ loc.fetchStreams = 0 then
    throw (.manifest [.text "peer declared unusable sync session limits"])
  else
    .ok
      { maxChunk := min (min loc.maxChunk peer.maxChunk) Rds.maxChunk
        maxChunks := min (min loc.maxChunks peer.maxChunks) Rds.maxChunks
        fetchStreams := min (min loc.fetchStreams peer.fetchStreams) Rds.fetchStreams }

/-- The limits a session agrees on, and the error if it cannot. -/
def agreedLimits (loc peer : SessionLimits) : Except Bail SessionLimits :=
  (SessionLimits.negotiate loc peer).mapError fun e => .cause [] e

/-- The text both sides give for a version they do not speak. -/
def unsupportedVersion (version : ℕ) : List Piece :=
  [.text "peer sync session version ", .num version, .text " unsupported (want ",
    .num sessionVersion, .text ")"]

/-- The same text as it is sent to the peer. -/
def unsupportedReason (version : ℕ) : Bytes :=
  utf8 ("peer sync session version " ++ toString version ++ " unsupported (want " ++
    toString sessionVersion ++ ")")

/-- `session_open` up to its first read: the bytes it writes. -/
def sessionHello (loc : SessionLimits) (id : TransferId) : Except IoErrorKind Bytes :=
  writeFrame syncMsgCodec (.session id (.hello sessionVersion loc))

/-- `session_open` from its read on. -/
def sessionOpen (loc : SessionLimits) (id : TransferId) (recv : Bytes) :
    Except Bail SessionLimits :=
  match readFrame syncMsgCodec recv with
  | .error kind => .error (.io [] kind)
  | .ok (msg, _) =>
    match msg with
    | .session got (.helloAck version limits) =>
      if got = id then
        if version = sessionVersion then agreedLimits loc limits
        else .error (.message (unsupportedVersion version))
      else .error (.message [.text "sync session transfer ID mismatch"])
    | .session _ (.refuse reason) =>
      .error (.message [.text "sync session refused: ", .shown reason])
    | other => .error (.got [.text "expected sync session HelloAck, got "] other)

/-- `session_accept`: the bytes it writes, and how it ends. -/
def sessionAccept (loc : SessionLimits) (id : TransferId) (recv : Bytes) :
    Bytes × Except Bail SessionLimits :=
  match readFrame syncMsgCodec recv with
  | .error kind => ([], .error (.io [] kind))
  | .ok (msg, _) =>
    match msg with
    | .session got (.hello version limits) =>
      if got = id then
        if version ≠ sessionVersion then
          -- the refusal is sent on a best effort
          ((writeFrame syncMsgCodec (.session id (.refuse (unsupportedReason version)))).toOption.getD [],
            .error (.message (unsupportedVersion version)))
        else
          match writeFrame syncMsgCodec (.session id (.helloAck sessionVersion loc)) with
          | .error kind => ([], .error (.io [] kind))
          | .ok frame => (frame, agreedLimits loc limits)
      else ([], .error (.message [.text "sync session transfer ID mismatch"]))
    | .session _ _ => ([], .error (.message [.text "sync session transfer ID mismatch"]))
    | other => ([], .error (.got [.text "expected sync session Hello, got "] other))

/-! ### Agreement -/

/-- Limits that a build can declare: machine integers, none of them zero. -/
structure SessionLimits.Declared (l : SessionLimits) : Prop where
  maxChunk : 0 < l.maxChunk ∧ l.maxChunk < 2 ^ 32
  maxChunks : 0 < l.maxChunks ∧ l.maxChunks < 2 ^ 32
  fetchStreams : 0 < l.fetchStreams ∧ l.fetchStreams < 2 ^ 8

theorem SessionLimits.Declared.valid {l : SessionLimits} (h : l.Declared) : limitsCodec.Valid l :=
  ⟨h.maxChunk.2, h.maxChunks.2, h.fetchStreams.2⟩

/-- The limits two declarations lead to. -/
def SessionLimits.meet (a b : SessionLimits) : SessionLimits where
  maxChunk := min (min a.maxChunk b.maxChunk) Rds.maxChunk
  maxChunks := min (min a.maxChunks b.maxChunks) Rds.maxChunks
  fetchStreams := min (min a.fetchStreams b.fetchStreams) Rds.fetchStreams

theorem SessionLimits.meet_comm (a b : SessionLimits) : a.meet b = b.meet a := by
  unfold meet
  rw [min_comm a.maxChunk, min_comm a.maxChunks, min_comm a.fetchStreams]

theorem negotiate_eq_ok (ha : a.Declared) (hb : b.Declared) :
    SessionLimits.negotiate a b = .ok (a.meet b) := by
  have := ha.maxChunk
  have := ha.maxChunks
  have := ha.fetchStreams
  have := hb.maxChunk
  have := hb.maxChunks
  have := hb.fetchStreams
  unfold negotiate
  rw [if_neg (by omega)]
  rfl

/-- **The order of the arguments does not matter.** -/
theorem agreedLimits_comm (ha : a.Declared) (hb : b.Declared) :
    agreedLimits a b = .ok (a.meet b) ∧ agreedLimits b a = .ok (a.meet b) := by
  unfold agreedLimits
  rw [negotiate_eq_ok ha hb, negotiate_eq_ok hb ha, meet_comm b a]
  exact ⟨rfl, rfl⟩

theorem exists_writeFrame_greeting (id : TransferId) {l : SessionLimits} {msg : SessionMsg}
    (hmsg : msg = .hello sessionVersion l ∨ msg = .helloAck sessionVersion l) :
    ∃ frame, writeFrame syncMsgCodec (.session id msg) = .ok frame := by
  have htag : ∀ n, (Codec.u32.encode n).length ≤ 5 := length_varintLoop_le 5
  have hlimits : ((Codec.u16.pair limitsCodec).encode (sessionVersion, l)).length ≤ 20 := by
    change (Codec.u16.encode sessionVersion ++ (Codec.u32.encode l.maxChunk ++
      (Codec.u32.encode l.maxChunks ++ Codec.u8.encode l.fetchStreams))).length ≤ _
    have hversion : (Codec.u16.encode sessionVersion).length ≤ 3 := length_varintLoop_le 3 sessionVersion
    have hstreams : (Codec.u8.encode l.fetchStreams).length ≤ 1 := le_rfl
    have := htag l.maxChunk
    have := htag l.maxChunks
    simp only [List.length_append]
    omega
  have henc : ∃ tag, syncMsgCodec.encode (.session id msg) = Codec.u32.encode 10 ++
      (id.val ++ (Codec.u32.encode tag ++ (Codec.u16.pair limitsCodec).encode (sessionVersion, l))) := by
    rcases hmsg with rfl | rfl
    · exact ⟨0, rfl⟩
    · exact ⟨1, rfl⟩
  obtain ⟨tag, henc⟩ := henc
  have hlen : (syncMsgCodec.encode (.session id msg)).length ≤ maxMessageLen := by
    have := htag 10
    have := htag tag
    rw [henc]
    simp only [List.length_append]
    unfold maxMessageLen
    omega
  unfold writeFrame
  rw [if_neg (Nat.not_lt.mpr hlen)]
  exact ⟨_, rfl⟩

/-- **The two sides of a greeting agree.** -/
theorem greeting_agrees (id : TransferId) (ha : a.Declared) (hb : b.Declared) :
    ∃ hello ack, sessionHello a id = .ok hello ∧ sessionAccept b id hello = (ack, .ok (a.meet b)) ∧
      sessionOpen a id ack = .ok (a.meet b) := by
  obtain ⟨hello, hhello⟩ := exists_writeFrame_greeting id (l := a) (Or.inl rfl)
  obtain ⟨ack, hack⟩ := exists_writeFrame_greeting id (l := b) (Or.inr rfl)
  obtain ⟨hopen, haccept⟩ := agreedLimits_comm ha hb
  have hversion : Codec.u16.Valid sessionVersion := by
    change 2 < 128 ^ 2 * (3 + 1)
    decide
  have hvalid : syncMsgCodec.Valid (.session id (.hello sessionVersion a)) :=
    ⟨trivial, hversion, ha.valid⟩
  have hvalid' : syncMsgCodec.Valid (.session id (.helloAck sessionVersion b)) :=
    ⟨trivial, hversion, hb.valid⟩
  have hreadHello : readFrame syncMsgCodec hello = .ok (.session id (.hello sessionVersion a), []) := by
    have := readFrame_writeFrame hvalid hhello []
    rwa [List.append_nil] at this
  have hreadAck : readFrame syncMsgCodec ack = .ok (.session id (.helloAck sessionVersion b), []) := by
    have := readFrame_writeFrame hvalid' hack []
    rwa [List.append_nil] at this
  refine ⟨hello, ack, hhello, ?_, ?_⟩
  · unfold sessionAccept
    rw [hreadHello]
    dsimp only
    rw [if_pos rfl, if_neg (by simp), hack, haccept]
  unfold sessionOpen
  rw [hreadAck]
  dsimp only
  rw [if_pos rfl, if_pos rfl, hopen]

/-- **Isolation and agreement of sessions.** Under its own identifier what a
session writes for a message is read and decoded as that message; under another one
it is rejected, and so is every frame that is not an envelope of the session's
identifier or that carries a greeting. Two sides that greet each other under one
identifier, with limits that are not zero, obtain the same limits, at most what
each declared and what is compiled in, and at least one. -/
theorem session_isolation :
    (∀ (id : TransferId) (limits : SessionLimits) (msg : SyncMsg), msg.IsBody →
      (Wire.v2 id limits).decode ((Wire.v2 id limits).frame msg) = .ok msg ∧
      (syncMsgCodec.Valid msg → ∀ bytes rest, (Wire.v2 id limits).send msg = .ok bytes →
        readFrame syncMsgCodec (bytes ++ rest) = .ok ((Wire.v2 id limits).frame msg, rest)) ∧
      ∀ id' limits', id' ≠ id →
        ∃ bail, (Wire.v2 id' limits').decode ((Wire.v2 id limits).frame msg) = .error bail) ∧
    (∀ (id : TransferId) (limits : SessionLimits) (frame : SyncMsg), (∀ body, frame = .session id body →
        ∃ version declared, body = .hello version declared ∨ body = .helloAck version declared) →
      ∃ bail, (Wire.v2 id limits).decode frame = .error bail) ∧
    ∀ (id : TransferId) (a b : SessionLimits), a.Declared → b.Declared →
      ∃ hello ack agreed, sessionHello a id = .ok hello ∧
        sessionAccept b id hello = (ack, .ok agreed) ∧ sessionOpen a id ack = .ok agreed ∧
        (1 ≤ agreed.maxChunk ∧ agreed.maxChunk ≤ a.maxChunk ∧ agreed.maxChunk ≤ b.maxChunk ∧
          agreed.maxChunk ≤ maxChunk) ∧
        (1 ≤ agreed.maxChunks ∧ agreed.maxChunks ≤ a.maxChunks ∧
          agreed.maxChunks ≤ b.maxChunks ∧ agreed.maxChunks ≤ maxChunks) ∧
        (1 ≤ agreed.fetchStreams ∧ agreed.fetchStreams ≤ a.fetchStreams ∧
          agreed.fetchStreams ≤ b.fetchStreams ∧ agreed.fetchStreams ≤ fetchStreams) := by
  -- a decoder that does not accept fails
  have hreject : ∀ {wire : Wire} {frame : SyncMsg}, (∀ msg, wire.decode frame ≠ .ok msg) →
      ∃ bail, wire.decode frame = .error bail := by
    intro wire frame h
    cases hdecode : wire.decode frame with
    | error bail => exact ⟨bail, rfl⟩
    | ok msg => exact absurd hdecode (h msg)
  refine ⟨?_, ?_, ?_⟩
  · intro id limits msg hbody
    obtain ⟨body, hto, hframe⟩ := frame_eq id limits hbody
    refine ⟨decode_eq_ok_iff.mpr ⟨body, hframe, hto⟩, ?_, ?_⟩
    · intro hvalid bytes rest hsend
      exact readFrame_writeFrame (valid_frame hbody hvalid) hsend rest
    intro id' limits' hne
    refine hreject fun msg' hok => ?_
    obtain ⟨body', hframe', -⟩ := decode_eq_ok_iff.mp hok
    rw [hframe, SyncMsg.session.injEq] at hframe'
    exact hne hframe'.1.symm
  · intro id limits frame hframe
    refine hreject fun msg hok => ?_
    obtain ⟨body, rfl, hto⟩ := decode_eq_ok_iff.mp hok
    obtain ⟨version, declared, rfl | rfl⟩ := hframe body rfl
    · cases msg <;> cases hto
    · cases msg <;> cases hto
  intro id a b ha hb
  obtain ⟨hello, ack, hhello, haccept, hopen⟩ := greeting_agrees id ha hb
  have hmax : 0 < maxChunk ∧ 0 < maxChunks ∧ 0 < fetchStreams := by decide
  have := ha.maxChunk
  have := ha.maxChunks
  have := ha.fetchStreams
  have := hb.maxChunk
  have := hb.maxChunks
  have := hb.fetchStreams
  refine ⟨hello, ack, _, hhello, haccept, hopen, ?_, ?_, ?_⟩
  · unfold meet
    dsimp only
    omega
  · unfold meet
    dsimp only
    omega
  · unfold meet
    dsimp only
    omega

end Rds
