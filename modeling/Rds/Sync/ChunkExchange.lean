import Mathlib.Data.List.Forall2
import Rds.Sync.ChunkStreams

/-!
# Holder and receiver agree on the chunks

The streams the holder writes for the bitmap of a journal are exactly what the
receiver's loop accepts (`chunk_exchange`). The proof follows a stream through the
receiver: a chunk, a batch, a stream and the list of streams in the order they
arrive are each consumed to the end, and what remains requested shrinks by what
they carry. No wait fails here, so every step is a triple without an error case.
-/

namespace Rds

open Framework List

/-! ### The holder's side -/

/-- The file holds the chunks of the manifest, and their numbers fit their types. -/
structure Holds (file : Bytes) (manifest : Manifest) : Prop where
  count : manifest.chunks.length ≤ maxChunks
  len : ∀ c ∈ manifest.chunks, c.len < 2 ^ 32
  range : ∀ c ∈ manifest.chunks, c.offset + c.len ≤ file.length

/-- The bytes of a chunk. -/
def chunkBytes (file : Bytes) (c : Chunk) : Bytes := (file.drop c.offset).take c.len

section Holder

variable {wire : Wire} {route : UniHello} {manifest : Manifest} {file : Bytes} {index : ℕ}
  {mine : List ℕ}

theorem Holds.length_chunkBytes (h : Holds file manifest) {c : Chunk} (hc : c ∈ manifest.chunks) :
    (chunkBytes file c).length = c.len := by
  have := h.range c hc
  rw [chunkBytes, length_take, length_drop]
  omega

theorem Holds.lt_of_lt (h : Holds file manifest) (hi : index < manifest.chunks.length) :
    index < 2 ^ 32 := by
  have := h.count
  unfold maxChunks at this
  omega

theorem Holds.pushChunk (h : Holds file manifest) (wire : Wire) {c : Chunk}
    (hc : manifest.chunks[index]? = some c) :
    ∃ hdr, pushChunk wire manifest file index = .ok (hdr ++ chunkBytes file c) ∧
      ∀ rest, readFrame syncMsgCodec (hdr ++ rest) =
        .ok (wire.frame (.chunkHdr index c.hash c.len), rest) := by
  have hmem := mem_of_getElem? hc
  have hmsg : ChunkMsg (.chunkHdr index c.hash c.len) :=
    .chunkHdr _ _ _ (h.lt_of_lt (List.getElem?_eq_some_iff.mp hc).1) (h.len c hmem)
  obtain ⟨hdr, hsend, hread⟩ := hmsg.readFrame_send wire
  refine ⟨hdr, ?_, hread⟩
  unfold Rds.pushChunk readExactAt
  rw [hc]
  dsimp only
  rw [if_pos (Or.inr (h.range c hmem)), hsend]
  rfl

theorem Holds.pushBatch (h : Holds file manifest) (wire : Wire) {batch : List ℕ}
    (hlen : batch.length ≤ chunksetBatch) (hi : ∀ i ∈ batch, i < manifest.chunks.length) :
    ∃ set chunks, pushBatch wire manifest file batch = .ok (set ++ chunks.flatten) ∧
      batch.mapM (Rds.pushChunk wire manifest file) = .ok chunks ∧ 4 ≤ set.length ∧
      ∀ rest, readFrame syncMsgCodec (set ++ rest) = .ok (wire.frame (.chunkSet batch), rest) := by
  have hmsg : ChunkMsg (.chunkSet batch) := .chunkSet _ hlen fun i hb => h.lt_of_lt (hi i hb)
  obtain ⟨set, hsend, hread⟩ := hmsg.readFrame_send wire
  obtain ⟨chunks, hchunks⟩ : ∃ chunks, batch.mapM (Rds.pushChunk wire manifest file) = .ok chunks :=
    exists_mapM_eq_ok fun i hb => by
      obtain ⟨hdr, hpush, -⟩ := h.pushChunk wire (getElem?_eq_getElem (hi i hb))
      exact ⟨_, hpush⟩
  have hset := length_of_readFrame (hread [])
  rw [append_nil, length_nil] at hset
  refine ⟨set, chunks, ?_, hchunks, by omega, hread⟩
  unfold Rds.pushBatch
  rw [hsend]
  show (batch.mapM _ >>= fun chunks => Except.ok (set ++ chunks.flatten)) = _
  rw [hchunks]
  rfl

/-- A share is its batches, in order, and one closing message. -/
theorem Holds.pushShare (h : Holds file manifest) (wire : Wire) (route : UniHello)
    (hi : ∀ i ∈ mine, i < manifest.chunks.length) :
    ∃ stream body done, pushShare wire route manifest file mine = .ok stream ∧
      routed route stream = some (body.flatten ++ done) ∧
      (batches chunksetBatch mine).mapM (Rds.pushBatch wire manifest file) = .ok body ∧
      readFrame syncMsgCodec done = .ok (wire.frame .setDone, []) := by
  have hbatch : ∀ b ∈ batches chunksetBatch mine, b.length ≤ chunksetBatch ∧
      ∀ i ∈ b, i < manifest.chunks.length := by
    intro b hb
    refine ⟨(mem_batches (by decide) hb).2, fun i hib => hi i ?_⟩
    rw [← flatten_batches (n := chunksetBatch) (by decide) mine]
    exact mem_flatten.mpr ⟨b, hb, hib⟩
  obtain ⟨body, hbody⟩ : ∃ body, (batches chunksetBatch mine).mapM
      (Rds.pushBatch wire manifest file) = .ok body :=
    exists_mapM_eq_ok fun b hb => by
      obtain ⟨set, chunks, hpush, -⟩ := h.pushBatch wire (hbatch b hb).1 (hbatch b hb).2
      exact ⟨_, hpush⟩
  obtain ⟨done, hdone, hread⟩ := ChunkMsg.setDone.readFrame_send wire
  obtain ⟨hello, hhello⟩ : ∃ hello, writeFrame uniHelloCodec route = .ok hello := by
    unfold writeFrame
    rw [if_neg (Nat.not_lt.mpr (length_uniHelloCodec_le route))]
    exact ⟨_, rfl⟩
  refine ⟨hello ++ (body.flatten ++ done), body, done, ?_, ?_, hbody, ?_⟩
  · unfold Rds.pushShare
    rw [hhello, hdone]
    show ((batches chunksetBatch mine).mapM _ >>= fun body =>
      Except.ok (hello ++ (body.flatten ++ done))) = _
    rw [hbody]
    rfl
  · unfold routed
    rw [readFrame_writeFrame (uniHelloCodec_valid route) hhello]
    exact if_pos rfl
  · have := hread []
    rwa [append_nil] at this

end Holder

/-! ### The receiver's side -/

namespace Collect

/-- A delivery is the chunk of its index. -/
def IsChunk (manifest : Manifest) (file : Bytes) (d : Delivery) : Prop :=
  ∃ c, manifest.chunks[d.index]? = some c ∧ d.data = chunkBytes file c ∧ d.hash = c.hash ∧
    d.len = c.len

/-- Where the collection stands: what is left of the stream, which chunks are still
requested and in which order they come, which were delivered, and how many streams
were opened. -/
structure At (manifest : Manifest) (file : Bytes) (stream : Bytes) (due delivered : List ℕ)
    (streams : ℕ) (s : Collect) : Prop where
  fates : s.fates = []
  stream : s.stream = stream
  nodup : due.Nodup
  requested : s.requested = due.toFinset
  indices : s.sink.map Delivery.index = delivered
  chunks : ∀ d ∈ s.sink, IsChunk manifest file d
  streams : s.streams = streams

section Receiver

variable {wire : Wire} {manifest : Manifest} {file : Bytes} {due delivered : List ℕ}
  {streams : ℕ} {rest : Bytes}

/-- A program without an error case. -/
abbrev Succeeds {α : Type} (P : Collect → Prop) (m : Prog Collect Bail α)
    (Q : α → Collect → Prop) : Prop :=
  Triple P m Q fun _ => False

theorem await_at {P : Collect → Prop} (h : ∀ s, P s → s.fates = []) (stalled : Bail) :
    Succeeds P (await stalled) fun _ => P := by
  intro s hs
  unfold await
  rw [h s hs]
  exact hs

theorem recv_at {msg : SyncMsg} {frame : Bytes}
    (hread : readFrame syncMsgCodec (frame ++ rest) = .ok (wire.frame msg, rest)) (hmsg : msg.Carried) :
    Succeeds (At manifest file (frame ++ rest) due delivered streams) (recv wire)
      fun m s => At manifest file rest due delivered streams s ∧ m = msg := by
  refine .bind (await_at (fun _ h => h.fates) _) fun _ => ?_
  refine .bind (Q := fun raw s => At manifest file rest due delivered streams s ∧
    raw = wire.frame msg) (fun s hs => ?_) fun raw => .assume fun hraw => ?_
  · unfold takeFrame
    rw [hs.stream, hread]
    exact ⟨⟨hs.fates, rfl, hs.nodup, hs.requested, hs.indices, hs.chunks, hs.streams⟩, rfl⟩
  · rw [hraw, wire.decode_frame hmsg]
    exact .pure fun _ hs => ⟨hs, rfl⟩

/-- **A chunk** that was sent and is requested is delivered. -/
theorem chunk_at (h : Holds file manifest) {index : ℕ} {bytes : Bytes}
    (hpush : pushChunk wire manifest file index = .ok bytes)
    (hi : index < manifest.chunks.length) :
    Succeeds (At manifest file (bytes ++ rest) (index :: due) delivered streams)
      (chunk wire manifest index)
      fun _ => At manifest file rest due (delivered ++ [index]) streams := by
  have hc := getElem?_eq_getElem hi
  generalize manifest.chunks[index] = c at hc
  obtain ⟨hdr, hpush', hread⟩ := h.pushChunk wire hc
  rw [hpush] at hpush'
  cases hpush'
  have hlen := h.length_chunkBytes (mem_of_getElem? hc)
  rw [append_assoc]
  refine .bind (Q := fun _ => At manifest file (hdr ++ (chunkBytes file c ++ rest))
    due delivered streams) (fun s hs => ?_) fun _ => ?_
  · obtain ⟨hfresh, hnodup⟩ := nodup_cons.mp hs.nodup
    unfold remove
    rw [hs.requested, toFinset_cons, if_pos (Finset.mem_insert_self ..),
      Finset.erase_insert fun hmem => hfresh (mem_toFinset.mp hmem)]
    exact ⟨hs.fates, hs.stream, hnodup, rfl, hs.indices, hs.chunks, hs.streams⟩
  refine .bind (recv_at (hread _) trivial) fun msg => .assume fun hmsg => ?_
  -- the header names the index and agrees with the manifest
  have hany : (manifest.chunks[index]?.any fun c' => c'.len = c.len ∧ c'.hash = c.hash) = true := by
    rw [hc]
    exact decide_eq_true ⟨rfl, rfl⟩
  rw [hmsg]
  unfold chunkHdr
  dsimp only
  rw [if_neg (not_not.mpr rfl), if_pos hany]
  refine .bind (Q := fun _ => At manifest file (chunkBytes file c ++ rest)
    due delivered streams)
    (fun s hs => ⟨hs.fates, hs.stream, hs.nodup, hs.requested, hs.indices, hs.chunks, hs.streams⟩) fun _ => ?_
  refine .bind (await_at (fun _ hs => hs.fates) _) fun _ => ?_
  refine .bind (Q := fun data s => At manifest file rest due delivered
    streams s ∧ data = chunkBytes file c) (fun s hs => ?_) fun data => .assume fun hdata => ?_
  · unfold readExact
    rw [hs.stream, if_neg (by rw [length_append]; omega), take_left' hlen, drop_left' hlen]
    exact ⟨⟨hs.fates, rfl, hs.nodup, hs.requested, hs.indices, hs.chunks, hs.streams⟩, rfl⟩
  refine .bind (await_at (fun _ hs => hs.fates) _) fun _ s hs => ?_
  refine ⟨hs.fates, hs.stream, hs.nodup, hs.requested, ?_, ?_, hs.streams⟩
  · rw [map_append, hs.indices]
    rfl
  intro d hd
  rcases mem_append.mp hd with hold | hnew
  · exact hs.chunks d hold
  · rw [mem_singleton.mp hnew]
    exact ⟨c, hc, hdata, rfl, rfl⟩

/-- **The chunks of a batch.** -/
theorem chunks_at (h : Holds file manifest) {batch : List ℕ} {parts : List Bytes}
    (hpush : batch.mapM (pushChunk wire manifest file) = .ok parts)
    (hi : ∀ i ∈ batch, i < manifest.chunks.length) :
    Succeeds (At manifest file (parts.flatten ++ rest) (batch ++ due) delivered streams)
      (batch.forM (chunk wire manifest)) fun _ => At manifest file rest due (delivered ++ batch) streams := by
  rw [mapM_eq_ok_iff] at hpush
  induction hpush generalizing delivered with
  | nil =>
    rw [append_nil]
    exact .pure fun _ hs => hs
  | @cons index bytes batch parts hbytes hrest ih =>
    rw [flatten_cons, append_assoc, append_cons delivered]
    refine .bind (chunk_at h hbytes (hi index mem_cons_self)) fun _ => ?_
    exact ih fun i hib => hi i (mem_cons_of_mem _ hib)

/-- **The batches of a stream**, and its end. -/
theorem streamLoop_at (h : Holds file manifest) {bs : List (List ℕ)} {body : List Bytes}
    {done : Bytes} (hpush : bs.mapM (pushBatch wire manifest file) = .ok body)
    (hdone : readFrame syncMsgCodec done = .ok (wire.frame .setDone, []))
    (hbatch : ∀ b ∈ bs, b ≠ [] ∧ b.length ≤ chunksetBatch)
    (hi : ∀ i ∈ bs.flatten, i < manifest.chunks.length) {fuel streamChunks : ℕ}
    (hfuel : bs.length < fuel) (hsome : bs = [] → 0 < streamChunks) :
    Succeeds (At manifest file (body.flatten ++ done) (bs.flatten ++ due) delivered streams)
      (streamLoop wire manifest fuel streamChunks)
      fun _ => At manifest file [] due (delivered ++ bs.flatten) streams := by
  rw [mapM_eq_ok_iff] at hpush
  induction hpush generalizing delivered fuel streamChunks with
  | nil =>
    obtain ⟨fuel, rfl⟩ := Nat.exists_eq_succ_of_ne_zero (Nat.ne_of_gt hfuel)
    rw [flatten_nil, flatten_nil, append_nil, nil_append, nil_append, ← append_nil done]
    rw [← append_nil done] at hdone
    refine .bind (recv_at hdone trivial) fun msg => .assume fun hmsg => ?_
    rw [hmsg]
    rw [if_pos (hsome rfl)]
    exact .pure fun _ hs => hs
  | @cons batch bytes bs body hbytes hrest ih =>
    obtain ⟨fuel, rfl⟩ := Nat.exists_eq_succ_of_ne_zero (Nat.ne_of_gt (Nat.zero_lt_of_lt hfuel))
    obtain ⟨hne, hlen⟩ := hbatch batch mem_cons_self
    have hiB : ∀ i ∈ batch, i < manifest.chunks.length :=
      fun i hib => hi i (mem_append_left _ hib)
    obtain ⟨set, chunks, hpush', hchunks, -, hread⟩ := h.pushBatch wire hlen hiB
    cases hbytes.symm.trans hpush'
    rw [flatten_cons, flatten_cons, append_assoc, append_assoc, append_assoc, ← append_assoc delivered]
    refine .bind (recv_at (hread _) trivial) fun msg => .assume fun hmsg => ?_
    rw [hmsg]
    dsimp only
    rw [if_neg (not_or.mpr ⟨hne, Nat.not_lt.mpr hlen⟩)]
    refine .bind (chunks_at h hchunks hiB) fun _ => ?_
    have hpos := length_pos_iff.mpr hne
    exact ih (fun b hb => hbatch b (mem_cons_of_mem _ hb)) (fun i hib => hi i (mem_append_right _ hib))
      (Nat.lt_of_succ_lt_succ hfuel) fun _ => by omega

/-- A stream that carries a share. -/
def Carries (wire : Wire) (manifest : Manifest) (file : Bytes) (mine : List ℕ) (stream : Bytes) :
    Prop :=
  ∃ body done, stream = body.flatten ++ done ∧
    (batches chunksetBatch mine).mapM (pushBatch wire manifest file) = .ok body ∧
    readFrame syncMsgCodec done = .ok (wire.frame .setDone, [])

theorem length_batches_le (h : Holds file manifest) {bs : List (List ℕ)} {body : List Bytes}
    (hpush : bs.mapM (pushBatch wire manifest file) = .ok body)
    (hbatch : ∀ b ∈ bs, b.length ≤ chunksetBatch ∧ ∀ i ∈ b, i < manifest.chunks.length) :
    bs.length ≤ body.flatten.length := by
  rw [mapM_eq_ok_iff] at hpush
  induction hpush with
  | nil => exact Nat.zero_le _
  | @cons batch bytes bs body hbytes hrest ih =>
    obtain ⟨hlen, hi⟩ := hbatch batch mem_cons_self
    obtain ⟨set, chunks, hpush', -, hset, -⟩ := h.pushBatch wire hlen hi
    rw [hbytes] at hpush'
    cases hpush'
    have hle := ih fun b hb => hbatch b (mem_cons_of_mem _ hb)
    rw [flatten_cons, length_cons, length_append, length_append]
    omega

/-- **A stream** that carries a share is consumed to its end. -/
theorem stream_at (h : Holds file manifest) {mine : List ℕ} {stream : Bytes}
    (hcarries : Carries wire manifest file mine stream) (hne : mine ≠ [])
    (hi : ∀ i ∈ mine, i < manifest.chunks.length) :
    Succeeds (At manifest file stream (mine ++ due) delivered streams)
      (streamLoop wire manifest (stream.length + 1) 0)
      fun _ => At manifest file [] due (delivered ++ mine) streams := by
  obtain ⟨body, done, rfl, hbody, hdone⟩ := hcarries
  have hflat : (batches chunksetBatch mine).flatten = mine := flatten_batches (by decide) mine
  have hbatch : ∀ b ∈ batches chunksetBatch mine, b ≠ [] ∧ b.length ≤ chunksetBatch :=
    fun b hb => mem_batches (by decide) hb
  have hfuel := length_batches_le h hbody fun b hb => ⟨(hbatch b hb).2, fun i hib => hi i (by
    rw [← hflat]
    exact mem_flatten.mpr ⟨b, hb, hib⟩)⟩
  rw [← hflat]
  exact streamLoop_at h hbody hdone hbatch (hflat.symm ▸ hi) (by rw [length_append]; omega)
    fun hnil => absurd (hflat.symm.trans (by rw [hnil]; rfl)) hne

/-- **The collection** consumes streams that carry the requested chunks between
them. -/
theorem collect_at (h : Holds file manifest) {ms : List (List ℕ)} {inbox : List Bytes}
    (hcarries : List.Forall₂ (Carries wire manifest file) ms inbox) (hne : ∀ m ∈ ms, m ≠ [])
    (hi : ∀ i ∈ ms.flatten, i < manifest.chunks.length)
    (hwidth : streams + ms.length ≤ wire.limits.fetchStreams) :
    Succeeds (fun s => ∃ stream, At manifest file stream ms.flatten delivered streams s)
      (collect wire manifest inbox)
      fun _ s => ∃ stream, At manifest file stream [] (delivered ++ ms.flatten) (streams + ms.length) s := by
  induction hcarries generalizing delivered streams with
  | nil =>
    rw [flatten_nil, append_nil]
    refine .bind (Q := fun r s => (∃ stream, At manifest file stream [] delivered streams s) ∧
      r.isSome) (fun s ⟨stream, hs⟩ => ⟨⟨stream, hs⟩, ?_⟩) fun r => .assume fun hr => ?_
    · rw [hs.requested]
      rfl
    cases r with
    | none => cases hr
    | some fetchedBytes => exact .pure fun _ hs => hs
  | @cons mine stream ms inbox hstream hrest ih =>
    rw [flatten_cons] at hi ⊢
    rw [length_cons] at hwidth ⊢
    have hmine : mine ≠ [] := hne mine mem_cons_self
    -- something is requested, so the loop takes the next stream
    refine .bind (Q := fun r s =>
      (∃ stream, At manifest file stream (mine ++ ms.flatten) delivered streams s) ∧ r = none)
      (fun s ⟨stream, hs⟩ => ⟨⟨stream, hs⟩, ?_⟩) fun r => .assume fun hr => ?_
    · obtain ⟨i, him⟩ := exists_mem_of_ne_nil mine hmine
      rw [hs.requested, if_neg (Finset.ne_empty_of_mem (mem_toFinset.mpr (mem_append_left _ him)))]
    rw [hr]
    have hcount : Succeeds (fun s => ∃ stream, At manifest file stream (mine ++ ms.flatten) delivered streams s)
        (nextStream wire)
        fun _ s => ∃ stream, At manifest file stream (mine ++ ms.flatten) delivered (streams + 1) s := by
      refine .bind (Q := fun _ s =>
        ∃ stream, At manifest file stream (mine ++ ms.flatten) delivered (streams + 1) s)
        (fun s ⟨stream, hs⟩ => ?_) fun _ => await_at (fun s ⟨_, hs⟩ => hs.fates) _
      rw [if_neg (by rw [hs.streams]; omega)]
      exact ⟨stream, hs.fates, hs.stream, hs.nodup, hs.requested, hs.indices, hs.chunks,
        congrArg (· + 1) hs.streams⟩
    refine .bind hcount fun _ => ?_
    refine .bind (Q := fun _ => At manifest file stream (mine ++ ms.flatten) delivered (streams + 1))
      (fun s ⟨_, hs⟩ => ⟨hs.fates, rfl, hs.nodup, hs.requested, hs.indices, hs.chunks, hs.streams⟩)
      fun _ => ?_
    refine .bind (stream_at h hstream hmine fun i him => hi i (mem_append_left _ him)) fun _ => ?_
    rw [← append_assoc, Nat.add_comm ms.length 1, ← Nat.add_assoc]
    exact (ih (fun m hm => hne m (mem_cons_of_mem _ hm)) (fun i hir => hi i (mem_append_right _ hir))
      (by omega)).imp (fun s hs => ⟨[], hs⟩) (fun _ _ hs => hs) fun _ hs => hs

end Receiver

end Collect

/-! ### Agreement -/

section Agreement

variable {wire : Wire} {route : UniHello} {manifest : Manifest} {file : Bytes} {indices : List ℕ}

theorem flatten_shares_perm (hw : 0 < wire.limits.fetchStreams) (indices : List ℕ) :
    (shares wire indices).flatten.Perm indices := by
  unfold shares
  rw [flatten_filter_ne_nil]
  exact shares_perm hw indices

theorem length_shares_le (wire : Wire) (indices : List ℕ) :
    (shares wire indices).length ≤ wire.limits.fetchStreams := by
  refine (length_filter_le _ _).trans ?_
  rw [length_map, length_range]

/-- The streams may arrive in any order; each carries one share. -/
theorem exists_carries (h : Holds file manifest) {streams arrivals : List Bytes}
    (hi : ∀ m ∈ shares wire indices, ∀ i ∈ m, i < manifest.chunks.length)
    (hpush : pushChunks wire route manifest file indices = .ok streams) (hperm : arrivals.Perm streams) :
    ∃ ms, ms.Perm (shares wire indices) ∧
      List.Forall₂ (Collect.Carries wire manifest file) ms (inboxOf route arrivals) := by
  have hshares := (mapM_eq_ok_iff.mp hpush).flip
  obtain ⟨ms, hms, hmsPerm⟩ := perm_comp_forall₂ hperm hshares
  refine ⟨ms, hmsPerm, ?_⟩
  have himem : ∀ m ∈ ms, ∀ i ∈ m, i < manifest.chunks.length :=
    fun m hm => hi m (hmsPerm.subset hm)
  clear hperm hmsPerm hshares
  induction hms with
  | nil => exact .nil
  | @cons stream mine arrivals ms hstream hrest ih =>
    obtain ⟨stream', body, done, hpush', hrouted, hbody, hdone⟩ :=
      h.pushShare wire route (himem mine mem_cons_self)
    obtain rfl : stream' = stream := Except.ok.inj (hpush'.symm.trans hstream)
    unfold inboxOf
    rw [filterMap_cons_some hrouted]
    exact .cons ⟨body, done, rfl, hbody, hdone⟩
      (ih fun m hm => himem m (mem_cons_of_mem _ hm))

end Agreement

/-- **Chunk exchange agreement.** For every journal and every file that holds its
manifest, the holder decodes the journal's bitmap to the chunks it needs and writes
its streams. In whatever order these arrive, the receiver's loop succeeds with at
most the negotiated number of streams; nothing is requested any more, and each
needed chunk was delivered once, with exactly its bytes of the file. -/
theorem chunk_exchange (wire : Wire) (hw : 1 ≤ wire.limits.fetchStreams) (route : UniHello)
    (journal : Journal) (file : Bytes) (hfile : Holds file journal.manifest) :
    bitsToIndices (needBits journal.manifest.chunks.length journal.have_)
        journal.manifest.chunks.length = .ok journal.need ∧
      journal.need.Nodup ∧
      ∃ streams, pushChunks wire route journal.manifest file journal.need = .ok streams ∧
        ∀ arrivals : List Bytes, arrivals.Perm streams →
          let run := collection wire route journal.manifest journal arrivals []
          (∃ fetchedBytes, run.1 = .ok fetchedBytes) ∧ run.2.streams ≤ wire.limits.fetchStreams ∧
            run.2.requested = ∅ ∧
            (run.2.sink.map Delivery.index).Perm journal.need ∧
            ∀ d ∈ run.2.sink, ∃ c, journal.manifest.chunks[d.index]? = some c ∧
              d.data = (file.drop c.offset).take c.len ∧ d.data.length = c.len := by
  have hneed : ∀ i ∈ journal.need, i < journal.manifest.chunks.length :=
    fun i hi => mem_range.mp (mem_filter.mp hi).1
  have hnodup : journal.need.Nodup := nodup_range.filter _
  have hflat := flatten_shares_perm hw journal.need
  have hmem : ∀ m ∈ shares wire journal.need, ∀ i ∈ m, i < journal.manifest.chunks.length :=
    fun m hm i hi => hneed i (hflat.subset (mem_flatten.mpr ⟨m, hm, hi⟩))
  obtain ⟨streams, hpush⟩ : ∃ streams,
      pushChunks wire route journal.manifest file journal.need = .ok streams :=
    exists_mapM_eq_ok fun m hm => by
      obtain ⟨stream, -, -, hstream, -⟩ := hfile.pushShare wire route (hmem m hm)
      exact ⟨stream, hstream⟩
  refine ⟨bitsToIndices_needBits hfile.count _, hnodup, streams, hpush, fun arrivals hperm => ?_⟩
  intro run
  obtain ⟨ms, hms, hcarries⟩ := exists_carries hfile hmem hpush hperm
  have hmsFlat : ms.flatten.Perm journal.need := hms.flatten.trans hflat
  have hwidth : 0 + ms.length ≤ wire.limits.fetchStreams := by
    rw [Nat.zero_add, hms.length_eq]
    exact length_shares_le wire _
  -- the requests of all shares together are what is needed, each once
  have hspec := Collect.collect_at hfile hcarries
    (fun m hm => by simpa using (mem_filter.mp (hms.subset hm)).2)
    (fun i hi => hneed i (hmsFlat.subset hi)) hwidth (Collect.start journal.need.toFinset [])
    ⟨[], rfl, rfl, hmsFlat.nodup_iff.mpr hnodup, toFinset_eq_of_perm _ _ hmsFlat.symm, rfl,
      by simp [Collect.start], rfl⟩
  change run.1.Post _ _ run.2 at hspec
  cases hrun : run.1 with
  | err e =>
    rw [hrun] at hspec
    exact hspec.elim
  | stopped =>
    rw [hrun] at hspec
    exact hspec.elim
  | ok fetchedBytes =>
    rw [hrun] at hspec
    obtain ⟨stream, hat⟩ := hspec
    refine ⟨⟨fetchedBytes, rfl⟩, ?_, hat.requested, ?_, fun d hd => ?_⟩
    · rw [hat.streams]
      exact hwidth
    · rw [hat.indices]
      exact hmsFlat
    obtain ⟨c, hc, hdata, -, -⟩ := hat.chunks d hd
    refine ⟨c, hc, hdata, ?_⟩
    rw [hdata]
    exact hfile.length_chunkBytes (mem_of_getElem? hc)

/-- A journal for the file `02 03` in two chunks, of which it has none. -/
def twoBytesJournal : Journal where
  state := [stateDir]
  journalId := []
  dir := [stateDir]
  parts := [stateDir, partsName]
  destParent := []
  destState := [stateDir]
  destName := utf8 "a"
  destPath := [utf8 "a"]
  manifest :=
    { size := 2
      root := ⟨[0x75, 0xe1, 0x7c, 0x8b, 0xa6, 0x6d, 0x20, 0x92, 0x1e, 0xaa, 0x70, 0x50,
    0x0c, 0xef, 0x20, 0x29, 0x5d, 0x04, 0x53, 0x2f, 0x44, 0x59, 0x8a, 0x5d,
    0x77, 0x0c, 0x57, 0xd2, 0xa3, 0x3c, 0x0b, 0x67], rfl⟩
      chunks := [⟨contentTwo, 0, 1⟩, ⟨contentThree, 1, 1⟩] }
  have_ := ∅
  fetched := 0

/-- Both chunks are delivered when the two streams arrive in reverse. -/
theorem chunk_exchange_twoBytes :
    Holds [2, 3] twoBytesJournal.manifest ∧
      ∃ streams, pushChunks .v1 .sync twoBytesJournal.manifest [2, 3] [0, 1] = .ok streams ∧
        (collection .v1 .sync twoBytesJournal.manifest twoBytesJournal streams.reverse []).2.requested
          = ∅ := by
  have hfile : Holds [2, 3] twoBytesJournal.manifest := ⟨by decide, by decide, by decide⟩
  obtain ⟨-, -, streams, hpush, hrun⟩ :=
    chunk_exchange .v1 (by decide) .sync twoBytesJournal [2, 3] hfile
  exact ⟨hfile, streams, hpush, (hrun streams.reverse streams.reverse_perm).2.2.1⟩

end Rds
