import Rds.Sync.Proto

/-!
# Wire profiles

A transfer runs in one of two profiles of `engine.rs`. The first sends messages as
they are. The second, negotiated, puts each into a session envelope that carries
the transfer's identifier, and the receiving side takes it out again.
`decode_frame` says that what was sent is what is decoded, for every message that
belongs to a transfer.
-/

namespace Rds

open Framework

/-- An error of the engine: a message, a message about an I/O error or the error of a
check, one that shows an unexpected protocol message, or a panic. -/
inductive Bail where
  | message (text : List Piece)
  | io (message : List Piece) (kind : IoErrorKind)
  | cause (message : List Piece) (e : SyncError)
  | got (message : List Piece) (msg : SyncMsg)
  | panicked
  deriving DecidableEq

/-- `Wire`: the transfer identifier of a negotiated session, and its limits. -/
structure Wire where
  transferId : Option TransferId
  limits : SessionLimits
  deriving DecidableEq

namespace Wire

/-- `Wire::V1`. -/
def v1 : Wire := ⟨none, SessionLimits.loc⟩

/-- `Wire::is_v2`. -/
def isV2 (self : Wire) : Bool := self.transferId.isSome

end Wire

/-- `to_session`: the body of a message inside an envelope; an envelope does not
nest. -/
def toSession : SyncMsg → Option SessionMsg
  | .offer relPath size root chunkCount => some (.offer relPath size root chunkCount)
  | .request relPath => some (.request relPath)
  | .refuse reason => some (.refuse reason)
  | .cancel reason => some (.cancel reason)
  | .manifestPart chunks => some (.manifestPart chunks)
  | .need bits => some (.need bits)
  | .done root => some (.done root)
  | .chunkSet indices => some (.chunkSet indices)
  | .chunkHdr index hash len => some (.chunkHdr index hash len)
  | .setDone => some .setDone
  | .session _ _ => none

/-- The message inside an envelope; greetings belong before the transfer. -/
def ofSession : SessionMsg → Except Bail SyncMsg
  | .hello _ _ => .error (.message [.text "session greeting repeated mid-transfer"])
  | .helloAck _ _ => .error (.message [.text "session greeting repeated mid-transfer"])
  | .offer relPath size root chunkCount => .ok (.offer relPath size root chunkCount)
  | .request relPath => .ok (.request relPath)
  | .refuse reason => .ok (.refuse reason)
  | .cancel reason => .ok (.cancel reason)
  | .manifestPart chunks => .ok (.manifestPart chunks)
  | .need bits => .ok (.need bits)
  | .done root => .ok (.done root)
  | .chunkSet indices => .ok (.chunkSet indices)
  | .chunkHdr index hash len => .ok (.chunkHdr index hash len)
  | .setDone => .ok .setDone

namespace Wire

/-- The frame `Wire::send` writes for a message. A first-profile peer is told of a
cancellation as a refusal. -/
def frame (self : Wire) (msg : SyncMsg) : SyncMsg :=
  match self.transferId with
  | some transferId =>
    .session transferId ((toSession msg).getD (.refuse (utf8 "internal protocol error")))
  | none =>
    match msg with
    | .cancel reason => .refuse (utf8 "transfer aborted: " ++ reason)
    | .session _ _ => .refuse (utf8 "internal protocol error")
    | msg => msg

/-- `Wire::decode`. -/
def decode (self : Wire) (msg : SyncMsg) : Except Bail SyncMsg :=
  match self.transferId with
  | none => .ok msg
  | some transferId =>
    match msg with
    | .session got msg =>
      if got = transferId then ofSession msg
      else .error (.message [.text "sync frame belongs to a different transfer"])
    | _ => .error (.message [.text "sync session expected an envelope-bound frame"])

end Wire

/-- A message that both profiles carry as it is. -/
def SyncMsg.Carried : SyncMsg → Prop
  | .cancel _ => False
  | .session _ _ => False
  | _ => True

/-- **What is sent is what is decoded.** -/
theorem Wire.decode_frame (wire : Wire) {msg : SyncMsg} (h : msg.Carried) :
    wire.decode (wire.frame msg) = .ok msg := by
  obtain ⟨transferId, limits⟩ := wire
  cases transferId with
  | none => cases msg <;> first | rfl | exact h.elim
  | some transferId =>
    -- the envelope carries this transfer's identifier
    show (if transferId = transferId then ofSession _ else _) = _
    rw [if_pos rfl]
    cases msg <;> first | rfl | exact h.elim

end Rds
