import Rds.Framework.Machine
import Rds.Framework.Shares
import Rds.Sync.RelPath
import Rds.Sync.Wire

/-!
# The control stream while a manifest is sent

The holder of a file writes an `Offer` and its `ManifestPart`s without waiting for
an answer. On the other side a reader task takes frames off the stream and puts
them into a queue of eight slots, from which the receiving role takes them when it
gets to it. The reader never waits: a frame that finds the queue full ends the
transfer as a flood.

`Control` is the whole exchange as a machine: the scheduler decides when the holder
writes, when the reader reads, when the role polls the queue and when its disk
preflight finishes. No deadline expires.
-/

namespace Rds

open Framework

/-! ### The reader -/

/-- The capacity of the queue of `ControlFrames::open`. -/
def controlQueue : ℕ := 8

/-- `ControlFrames`: the queue, whether the reader task still runs, and the cause it
recorded. -/
structure ControlFrames where
  queue : List SyncMsg
  running : Bool
  cause : Option (List Piece)
  deriving DecidableEq

/-- The cause the reader records when the queue is full. -/
def flooded : List Piece := [.text "peer flooded the control queue"]

namespace ControlFrames

/-- `ControlFrames::open`. -/
def open_ : ControlFrames := ⟨[], true, none⟩

/-- `try_send` into the queue. -/
def trySend (self : ControlFrames) (msg : SyncMsg) : Option ControlFrames :=
  if self.queue.length < controlQueue then some { self with queue := self.queue ++ [msg] } else none

/-- Leave the loop of the reader; the first cause is the one that counts. -/
def break_ (self : ControlFrames) (why : List Piece) : ControlFrames :=
  { self with running := false, cause := self.cause.or (some why) }

/-- One iteration of the loop of the reader. A terminal message is queued if there
is room. -/
def readerTurn (wire : Wire) (self : ControlFrames) (frame : Except IoErrorKind SyncMsg) :
    ControlFrames :=
  match frame with
  | .error _ => self.break_ [.text "control stream ended"]
  | .ok raw =>
    match wire.decode raw with
    | .error _ => self.break_ [.text "peer sent an undecodable frame"]
    | .ok (.cancel reason) =>
      ((self.trySend (.cancel reason)).getD self).break_ [.text "peer canceled: ", .shown reason]
    | .ok (.refuse reason) =>
      ((self.trySend (.refuse reason)).getD self).break_ [.text "peer refused: ", .shown reason]
    | .ok msg => (self.trySend msg).getD (self.break_ flooded)

/-- `ControlFrames::next`: the next message, or the end of the stream once the
reader is gone and the queue empty. `none` means that the caller is parked. -/
def next (self : ControlFrames) : Option (Except Bail SyncMsg × ControlFrames) :=
  match self.queue with
  | msg :: queue => some (.ok msg, { self with queue })
  | [] =>
    if self.running then none
    else some (.error (.message [.text "sync control stream closed"]), self)

end ControlFrames

/-! ### `send_manifest` and `read_manifest` -/

/-- The messages `send_manifest` sends. -/
def sendManifest (rel : Bytes) (manifest : Manifest) : List SyncMsg :=
  .offer rel manifest.size manifest.root manifest.chunks.length ::
    (batches manifestBatch manifest.chunks).map .manifestPart

/-- Where `read_manifest` stands: it waits for a part, or it has returned. -/
inductive ReadManifest where
  | reading (chunks : List Chunk)
  | ok (m : Manifest)
  | bail (why : Bail)
  deriving DecidableEq

namespace ReadManifest

/-- What `read_manifest` checks once it has all the chunks. -/
def finish (wire : Wire) (m : Manifest) (chunkCount : ℕ) : ReadManifest :=
  if m.chunks.length ≠ chunkCount then
    .bail (.message [.text "manifest overrun: ", .num m.chunks.length, .text " > ", .num chunkCount])
  else match checkManifest m with
    | .error e => .bail (.cause [] e)
    | .ok () =>
      if wire.isV2 ∧ m.chunks.any (fun c => c.len > wire.limits.maxChunk) then
        .bail (.message [.text "manifest chunk exceeds negotiated bound"])
      else .ok m

/-- The test of the loop. -/
def loop (wire : Wire) (size : ℕ) (root : ChunkHash) (chunkCount : ℕ) (chunks : List Chunk) :
    ReadManifest :=
  if chunks.length < chunkCount then .reading chunks
  else finish wire ⟨size, root, chunks⟩ chunkCount

/-- The beginning of `read_manifest`. -/
def start (wire : Wire) (size : ℕ) (root : ChunkHash) (chunkCount : ℕ) : ReadManifest :=
  if chunkCount > maxChunks then
    .bail (.message [.text "manifest too large: ", .num chunkCount])
  else if wire.isV2 ∧ chunkCount > wire.limits.maxChunks then
    .bail (.message [.text "manifest exceeds negotiated chunk bound: ", .num chunkCount])
  else loop wire size root chunkCount []

/-- One iteration of the loop: take a message. -/
def take (wire : Wire) (size : ℕ) (root : ChunkHash) (chunkCount : ℕ) (chunks : List Chunk) :
    Except Bail SyncMsg → ReadManifest
  | .error e => .bail e
  | .ok (.manifestPart part) =>
    if part = [] ∨ part.length > manifestBatch ∨ part.length > chunkCount - chunks.length then
      .bail (.message [.text "invalid ManifestPart batch length"])
    else loop wire size root chunkCount (chunks ++ part)
  | .ok (.refuse reason) => .bail (.message [.text "refused: ", .shown reason])
  | .ok (.cancel reason) =>
    .bail (.message [.text "sender canceled mid-manifest: ", .shown reason])
  | .ok other => .bail (.got [.text "expected ManifestPart, got "] other)

end ReadManifest

/-! ### The receiving roles -/

/-- The two roles that receive a manifest: the agent's `serve_inner`, with what it
grants and what its disk preflight finds, and the caller's `recv_file_inner`, with
the path it asked for. -/
inductive Role where
  | serve (access : Access) (preflight : Except IoErrorKind Unit)
  | pull (relPath : Bytes)

/-- Where a receiving role stands. A role that gives up may first tell the peer
why. -/
inductive Consumer where
  | first
  | preflight (size : ℕ) (root : ChunkHash) (chunkCount : ℕ)
  | answer (requested : Bytes)
  | manifest (size : ℕ) (root : ChunkHash) (chunkCount : ℕ) (chunks : List Chunk)
  | returned (m : Manifest)
  | serving (rel : Bytes)
  | failed (told : Option Bail) (why : Bail)

namespace Role

/-- What a failed `read_manifest` is answered with. -/
def toldOfManifest : Role → Option Bail
  | .serve _ _ => some (.message [.text "invalid sync manifest"])
  | .pull _ => none

/-- The role goes on as `read_manifest` does. -/
def ofReadManifest (role : Role) (size : ℕ) (root : ChunkHash) (chunkCount : ℕ) :
    ReadManifest → Consumer
  | .reading chunks => .manifest size root chunkCount chunks
  | .ok m => .returned m
  | .bail why => .failed role.toldOfManifest why

/-- The role up to its first wait. -/
def start : Role → Consumer
  | .serve _ _ => .first
  | .pull relPath =>
    match checkRelPath relPath with
    | .error e => .failed none (.cause [] e)
    | .ok requested => .answer requested

/-- `serve_inner` on its first message. -/
def onFirst (access : Access) : Except Bail SyncMsg → Consumer
  | .error e => .failed none e
  | .ok (.offer relPath size root chunkCount) =>
    if !access.write then
      .failed (some (.message [.text "sync write not granted"]))
        (.message [.text "sync write not granted"])
    else match checkRelPath relPath with
      | .error e => .failed (some (.cause [] e)) (.cause [.text "offer refused: "] e)
      | .ok rel =>
        if !access.permitsPath rel then
          .failed (some (.message [.text "sync path outside granted scope"]))
            (.message [.text "offer refused: path outside granted scope"])
        else .preflight size root chunkCount
  | .ok (.request relPath) => .serving relPath
  | .ok (.cancel reason) =>
    .failed none (.message [.text "caller canceled before transfer started: ", .shown reason])
  | .ok other => .failed none (.got [.text "unexpected first sync message "] other)

/-- `recv_file_inner` on the answer to its request. -/
def onAnswer (wire : Wire) (role : Role) (requested : Bytes) : Except Bail SyncMsg → Consumer
  | .error e => .failed none e
  | .ok (.offer relPath size root chunkCount) =>
    match checkRelPath relPath with
    | .error e => .failed none (.cause [] e)
    | .ok rel =>
      if rel ≠ requested then
        .failed none (.message [.text "offered path differs from requested path"])
      else role.ofReadManifest size root chunkCount (ReadManifest.start wire size root chunkCount)
  | .ok (.refuse reason) => .failed none (.message [.text "request refused: ", .shown reason])
  | .ok (.cancel reason) =>
    .failed none (.message [.text "sender canceled before offer: ", .shown reason])
  | .ok other => .failed none (.got [.text "expected Offer, got "] other)

/-- `serve_inner` when its preflight has finished. -/
def onPreflight (wire : Wire) (role : Role) (size : ℕ) (root : ChunkHash) (chunkCount : ℕ) :
    Except IoErrorKind Unit → Consumer
  | .error e =>
    .failed (some (.message [.text "sync destination not writable"]))
      (.io [.text "offer refused: "] e)
  | .ok () => role.ofReadManifest size root chunkCount (ReadManifest.start wire size root chunkCount)

/-- What a role that waits for a message does with it. -/
def resume (wire : Wire) (role : Role) : Consumer → Option (Except Bail SyncMsg → Consumer)
  | .first =>
    match role with
    | .serve access _ => some (onFirst access)
    | .pull _ => none
  | .answer requested => some (onAnswer wire role requested)
  | .manifest size root chunkCount chunks =>
    some fun msg => role.ofReadManifest size root chunkCount
      (ReadManifest.take wire size root chunkCount chunks msg)
  | _ => none

end Role

/-! ### The exchange -/

/-- A manifest exchange: the profile, the receiving role, and what the holder
sends. -/
structure Exchange where
  wire : Wire
  role : Role
  rel : Bytes
  manifest : Manifest

/-- The state of an exchange: frames the holder has still to write, frames on their
way, the reader's side, and the receiving role. -/
structure Control where
  unsent : List SyncMsg
  inFlight : List SyncMsg
  frames : ControlFrames
  consumer : Consumer

/-- What the scheduler may let happen. -/
inductive ControlAct where
  | write
  | read
  | poll
  | preflight
  deriving DecidableEq

namespace Exchange

/-- The messages of the exchange. -/
def messages (x : Exchange) : List SyncMsg := sendManifest x.rel x.manifest

/-- The state before anything happened. -/
def start (x : Exchange) : Control :=
  ⟨x.messages.map x.wire.frame, [], ControlFrames.open_, x.role.start⟩

/-- The holder writes its next frame. -/
def write (s : Control) : Option Control :=
  match s.unsent with
  | [] => none
  | f :: unsent => some { s with unsent, inFlight := s.inFlight ++ [f] }

/-- The reader takes the next frame off the stream. -/
def read (x : Exchange) (s : Control) : Option Control :=
  if s.frames.running then
    match s.inFlight with
    | [] => none
    | f :: inFlight => some { s with inFlight, frames := s.frames.readerTurn x.wire (.ok f) }
  else none

/-- The receiving role looks at the queue. -/
def poll (x : Exchange) (s : Control) : Option Control :=
  match x.role.resume x.wire s.consumer, s.frames.next with
  | some f, some (msg, frames) => some { s with frames, consumer := f msg }
  | _, _ => none

/-- The disk preflight finishes. -/
def preflight (x : Exchange) (s : Control) : Option Control :=
  match s.consumer, x.role with
  | .preflight size root chunkCount, .serve _ result =>
    some { s with consumer := x.role.onPreflight x.wire size root chunkCount result }
  | _, _ => none

/-- The exchange as a machine. -/
def machine (x : Exchange) : Machine Control ControlAct where
  step
    | .write => write
    | .read => x.read
    | .poll => x.poll
    | .preflight => x.preflight

end Exchange

end Rds
