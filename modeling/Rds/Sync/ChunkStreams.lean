import Rds.Framework.Shares
import Rds.Sync.Codec
import Rds.Sync.Journal

/-!
# Chunk streams

The holder deals the requested chunks out to a few streams (`pushChunks`) and the
receiver collects them (`collect`), handing each chunk to the journal's writer.
Afterwards the receiver requires a complete journal and assembles the file
(`receiveChunks`).

A stream is the list of bytes its sender wrote. What the receiver cannot control is
an input: the streams in the order they arrive, and the fate of each wait.
-/

namespace Rds

open Framework

/-! ### The holder -/

/-- `read_exact_at`. -/
def readExactAt (file : Bytes) (offset len : ℕ) : Except IoErrorKind Bytes :=
  if len = 0 ∨ offset + len ≤ file.length then .ok ((file.drop offset).take len)
  else .error .unexpectedEof

/-- Bytes written to a stream, or the I/O error. -/
def written (bytes : Except IoErrorKind Bytes) : Except Bail Bytes :=
  bytes.mapError fun kind => .io [] kind

/-- One chunk of a batch: its header and its bytes. -/
def pushChunk (wire : Wire) (manifest : Manifest) (file : Bytes) (index : ℕ) :
    Except Bail Bytes :=
  match manifest.chunks[index]? with
  | none => .error .panicked
  | some c => do
    let buf ← written (readExactAt file c.offset c.len)
    let hdr ← written (wire.send (.chunkHdr index c.hash c.len))
    .ok (hdr ++ buf)

/-- One batch: the indices, then the chunks. -/
def pushBatch (wire : Wire) (manifest : Manifest) (file : Bytes) (batch : List ℕ) :
    Except Bail Bytes := do
  let set ← written (wire.send (.chunkSet batch))
  let chunks ← batch.mapM (pushChunk wire manifest file)
  .ok (set ++ chunks.flatten)

/-- The stream of one task of `push_chunks`: its route, its share in batches, and the
terminator. -/
def pushShare (wire : Wire) (route : UniHello) (manifest : Manifest) (file : Bytes)
    (mine : List ℕ) : Except Bail Bytes := do
  let hello ← written (writeFrame uniHelloCodec route)
  let body ← (batches chunksetBatch mine).mapM (pushBatch wire manifest file)
  let done ← written (wire.send .setDone)
  .ok (hello ++ (body.flatten ++ done))

/-- The shares of the tasks; a task without indices opens no stream. -/
def shares (wire : Wire) (indices : List ℕ) : List (List ℕ) :=
  ((List.range wire.limits.fetchStreams).map fun k =>
    share k wire.limits.fetchStreams indices).filter fun mine => mine ≠ []

/-- `push_chunks`: the streams it opens. -/
def pushChunks (wire : Wire) (route : UniHello) (manifest : Manifest) (file : Bytes)
    (indices : List ℕ) : Except Bail (List Bytes) :=
  (shares wire indices).mapM (pushShare wire route manifest file)

/-! ### The receiver's loop -/

/-- The fate of a wait: it is over, it exceeds its deadline or its other end is gone,
or the journal's writer exits first, which ends the collection. -/
inductive Fate where
  | go
  | stall
  | stop
  deriving DecidableEq

/-- A chunk handed to the journal's writer, with the header that announced it. -/
structure Delivery where
  index : ℕ
  data : Bytes
  hash : ChunkHash
  len : ℕ
  deriving DecidableEq

/-- The state of the collection: the rest of the current stream, the indices still
requested, the counters, what the writer was handed, the sizes of the buffers
allocated so far, and the fates of the waits to come. -/
structure Collect where
  stream : Bytes
  requested : Finset ℕ
  streams : ℕ
  fetchedBytes : ℕ
  sink : List Delivery
  buffers : List ℕ
  fates : List Fate
  /-- The model ran out of fuel. -/
  exhausted : Bool

namespace Collect

/-- Wait. -/
def await (stalled : Bail) : Prog Collect Bail Unit := fun s =>
  match s.fates with
  | [] => (.ok (), s)
  | .go :: fates => (.ok (), { s with fates })
  | .stall :: fates => (.err stalled, { s with fates })
  | .stop :: fates => (.stopped, { s with fates })

/-- Allocate a buffer. -/
def allocate (size : ℕ) : Prog Collect Bail Unit := fun s =>
  (.ok (), { s with buffers := size :: s.buffers })

/-- Take a frame off the current stream. -/
def takeFrame : Prog Collect Bail SyncMsg := fun s =>
  match readFrame syncMsgCodec s.stream with
  | .error kind => (.err (.io [] kind), s)
  | .ok (raw, stream) => (.ok raw, { s with stream })

/-- The size of the buffer for the next frame. -/
def nextFrameBuffer : Prog Collect Bail ℕ := fun s => (.ok (frameBuffer s.stream), s)

/-- `Wire::recv`. -/
def recv (wire : Wire) : Prog Collect Bail SyncMsg := do
  await (.message [.text "peer stalled mid-transfer"])
  allocate (← nextFrameBuffer)
  let raw ← takeFrame
  Prog.ofExcept (wire.decode raw)

/-- `requested.remove`. -/
def remove (index : ℕ) : Prog Collect Bail Unit := fun s =>
  if index ∈ s.requested then (.ok (), { s with requested := s.requested.erase index })
  else (.err (.message [.text "duplicate or unrequested chunk ", .num index]), s)

/-- `read_exact` from the current stream. -/
def readExact (len : ℕ) : Prog Collect Bail Bytes := fun s =>
  if s.stream.length < len then (.err (.io [.text "chunk body read: "] .unexpectedEof), s)
  else (.ok (s.stream.take len), { s with stream := s.stream.drop len })

/-- `JournalSink::put`, and the counter after it. -/
def put (d : Delivery) : Prog Collect Bail Unit := do
  await (.message [.text "journal writer died "])
  fun s => (.ok (), { s with sink := s.sink ++ [d], fetchedBytes := s.fetchedBytes + d.len })

/-- The body of a chunk, once its header has been checked. -/
def chunkBody (index : ℕ) (hash : ChunkHash) (len : ℕ) : Prog Collect Bail Unit := do
  allocate len
  await (.message [.text "chunk body stalled"])
  let data ← readExact len
  put ⟨index, data, hash, len⟩

/-- The header of a chunk against the announced index and the manifest. The length
on the wire is not trusted before. -/
def chunkHdr (manifest : Manifest) (index : ℕ) : SyncMsg → Prog Collect Bail Unit
  | .chunkHdr i hash len =>
    if i ≠ index then
      Prog.fail (.message [.text "chunk stream out of order: ", .num i, .text " != ", .num index])
    else if manifest.chunks[i]?.any fun c => c.len = len ∧ c.hash = hash then
      chunkBody i hash len
    else Prog.fail (.message [.text "chunk ", .num i, .text " header disagrees with manifest"])
  | _ => Prog.fail (.message [.text "expected ChunkHdr"])

/-- One index of a `ChunkSet`. -/
def chunk (wire : Wire) (manifest : Manifest) (index : ℕ) : Prog Collect Bail Unit := do
  remove index
  let msg ← recv wire
  chunkHdr manifest index msg

/-- The model has run out of fuel. -/
def exhaust : Prog Collect Bail Unit := fun s => (.err .panicked, { s with exhausted := true })

/-- The loop over the messages of a stream. Every iteration takes a frame off it, so
the length of the stream is enough fuel. -/
def streamLoop (wire : Wire) (manifest : Manifest) : ℕ → ℕ → Prog Collect Bail Unit
  | 0, _ => exhaust
  | fuel + 1, streamChunks => do
    match ← recv wire with
    | .chunkSet indices =>
      if indices = [] ∨ indices.length > chunksetBatch then
        Prog.fail (.message [.text "invalid ChunkSet batch length"])
      else do
        indices.forM (chunk wire manifest)
        streamLoop wire manifest fuel (streamChunks + indices.length)
    | .setDone =>
      if streamChunks > 0 then pure ()
      else Prog.fail (.message [.text "empty chunk stream"])
    | other => Prog.fail (.got [.text "unexpected chunk-stream message "] other)

/-- Count a stream and wait for it. -/
def nextStream (wire : Wire) : Prog Collect Bail Unit := do
  fun s =>
    if s.streams + 1 > wire.limits.fetchStreams then
      (.err (.message [.text "too many chunk streams"]), { s with streams := s.streams + 1 })
    else (.ok (), { s with streams := s.streams + 1 })
  await (.message [.text "chunk streams stalled"])

/-- Begin to read a stream. -/
def openStream (stream : Bytes) : Prog Collect Bail Unit := fun s => (.ok (), { s with stream })

/-- The result, once nothing is requested any more. -/
def finished : Prog Collect Bail (Option ℕ) := fun s =>
  (.ok (if s.requested = ∅ then some s.fetchedBytes else none), s)

/-- The collecting loop of `receive_chunks` over the streams that arrive. -/
def collect (wire : Wire) (manifest : Manifest) : List Bytes → Prog Collect Bail ℕ
  | [] => do
    match ← finished with
    | some fetchedBytes => pure fetchedBytes
    | none => do
      nextStream wire
      Prog.fail (.message [.text "chunk streams ended before transfer completed"])
  | stream :: inbox => do
    match ← finished with
    | some fetchedBytes => pure fetchedBytes
    | none => do
      nextStream wire
      openStream stream
      streamLoop wire manifest (stream.length + 1) 0
      collect wire manifest inbox

/-- The collection before the first stream. -/
def start (requested : Finset ℕ) (fates : List Fate) : Collect :=
  ⟨[], requested, 0, 0, [], [], fates, false⟩

end Collect

/-! ### `receive_chunks` -/

/-- `Stats`. -/
structure Stats where
  fetched : ℕ
  total : ℕ
  bytes : ℕ
  deriving DecidableEq

/-- The journal's writer stores what it was handed, in order, until a store fails. -/
def storeAll (ext : JournalExternals) (journal : Journal) (sink : List Delivery) :
    Prog World SyncError Journal :=
  sink.foldlM (fun journal d => do
    let r ← journal.store ext d.index d.data
    pure r.2) journal

/-- The streams that reach the transfer's route. -/
def inboxOf (route : UniHello) (arrivals : List Bytes) : List Bytes :=
  arrivals.filterMap (routed route)

/-- The collection of a receive. -/
def collection (wire : Wire) (route : UniHello) (manifest : Manifest) (journal : Journal)
    (arrivals : List Bytes) (fates : List Fate) : Outcome Bail ℕ × Collect :=
  Collect.collect wire manifest (inboxOf route arrivals)
    (Collect.start journal.need.toFinset fates)

/-- `receive_chunks` after the collection. When the collection fails, the writer has
stored some of what it was handed. -/
def finishChunks (ext : JournalExternals) (journal : Journal) (stored : ℕ) (sink : List Delivery) :
    Outcome Bail ℕ → Prog World Bail (Journal × FsPath × Stats)
  | .err e => do
    let _ ← Prog.attempt (Prog.mapError (.cause []) (storeAll ext journal (sink.take stored)))
    Prog.fail e
  | .stopped => do
    -- the writer exits early only with an error, which is the one to report
    let _ ← Prog.mapError (.cause [.text "chunk store failed: "]) (storeAll ext journal sink)
    Prog.fail (.message [.text "journal writer exited before collection completed"])
  | .ok fetchedBytes => do
    let journal ← Prog.mapError (.cause [.text "chunk store failed: "]) (storeAll ext journal sink)
    if !journal.complete then
      Prog.fail (.message [.text "chunk writer did not verify every requested index"])
    else do
      let dest ← Prog.mapError (.cause []) (journal.assembleCancellable ext)
      pure (journal, dest, ⟨journal.fetched, journal.manifest.chunks.length, fetchedBytes⟩)

/-- `receive_chunks`. The journal it assembled is returned beside its result. -/
def receiveChunks (ext : JournalExternals) (wire : Wire) (route : UniHello) (manifest : Manifest)
    (journal : Journal) (arrivals : List Bytes) (fates : List Fate) (stored : ℕ) :
    Prog World Bail (Journal × FsPath × Stats) :=
  let run := collection wire route manifest journal arrivals fates
  finishChunks ext journal stored run.2.sink run.1

end Rds
