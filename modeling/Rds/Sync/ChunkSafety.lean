import Rds.Sync.ChunkStreams
import Rds.Sync.JournalCrash

/-!
# Hostile chunk streams

Whatever bytes a peer puts on any number of streams, the collection hands the
journal's writer only requested chunks, each at most once, with the length and the
hash of the manifest, and no buffer it allocates on the way exceeds `MAX_CHUNK`
(`Sound`, kept by every step of the loop). The final answer does not rest on the
collection: `receive_chunks` succeeds only with a journal that has every chunk.
-/

namespace Rds

open Framework List Triple Preserves

namespace Collect

/-! ### The invariant -/

/-- What the writer was handed so far is what was requested and is not any more. -/
structure Sound (manifest : Manifest) (wanted : Finset ℕ) (s : Collect) : Prop where
  requested : s.requested ⊆ wanted
  sink : ∀ d ∈ s.sink, d.index ∈ wanted ∧ d.index ∉ s.requested ∧
    ∃ c, manifest.chunks[d.index]? = some c ∧ d.data.length = c.len ∧ d.len = c.len ∧
      d.hash = c.hash
  nodup : (s.sink.map Delivery.index).Nodup
  buffers : ∀ b ∈ s.buffers, b ≤ maxChunk

/-- Beside it, an index that has just been taken out of the requested ones. -/
structure Pending (manifest : Manifest) (wanted : Finset ℕ) (index : ℕ) (s : Collect) :
    Prop where
  sound : Sound manifest wanted s
  mem : index ∈ wanted
  removed : index ∉ s.requested
  fresh : index ∉ s.sink.map Delivery.index

/-- An invariant that does not look at the stream, the counter and the fates, and
puts no stronger bound on buffers. -/
structure Steady (I : Collect → Prop) : Prop where
  fates : ∀ s fates, I s → I { s with fates }
  stream : ∀ s stream, I s → I { s with stream }
  streams : ∀ s streams, I s → I { s with streams }
  buffers : ∀ s b, b ≤ maxChunk → I s → I { s with buffers := b :: s.buffers }

variable {manifest : Manifest} {wanted : Finset ℕ} {index : ℕ}

theorem Sound.steady : Steady (Sound manifest wanted) where
  fates _ _ h := ⟨h.requested, h.sink, h.nodup, h.buffers⟩
  stream _ _ h := ⟨h.requested, h.sink, h.nodup, h.buffers⟩
  streams _ _ h := ⟨h.requested, h.sink, h.nodup, h.buffers⟩
  buffers _ _ hb h := ⟨h.requested, h.sink, h.nodup, forall_mem_cons.mpr ⟨hb, h.buffers⟩⟩

theorem Pending.steady : Steady (Pending manifest wanted index) where
  fates _ _ h := ⟨Sound.steady.fates _ _ h.sound, h.mem, h.removed, h.fresh⟩
  stream _ _ h := ⟨Sound.steady.stream _ _ h.sound, h.mem, h.removed, h.fresh⟩
  streams _ _ h := ⟨Sound.steady.streams _ _ h.sound, h.mem, h.removed, h.fresh⟩
  buffers _ _ hb h := ⟨Sound.steady.buffers _ _ hb h.sound, h.mem, h.removed, h.fresh⟩

/-! ### Steps that change nothing it speaks of -/

section Steps

variable {I : Collect → Prop}

theorem preserves_await (h : Steady I) (stalled : Bail) : Preserves I (await stalled) := by
  intro s hs
  unfold await
  split
  · exact hs
  · exact h.fates s _ hs
  · exact h.fates s _ hs
  · exact h.fates s _ hs

theorem preserves_allocate (h : Steady I) {size : ℕ} (hsize : size ≤ maxChunk) :
    Preserves I (allocate size) :=
  fun s hs => h.buffers s size hsize hs

theorem preserves_takeFrame (h : Steady I) : Preserves I takeFrame := by
  intro s hs
  unfold takeFrame
  split
  · exact hs
  · exact h.stream s _ hs

theorem preserves_recv (h : Steady I) (wire : Wire) : Preserves I (recv wire) := by
  refine (preserves_await h _).bind fun _ => ?_
  -- the frame reader's own buffer is below the bound
  refine bind (Q := fun size s => I s ∧ size ≤ maxChunk)
    (fun s hs => ⟨hs, (frameBuffer_le s.stream).trans (by decide)⟩) fun size => ?_
  refine assume fun hsize => (preserves_allocate h hsize).bind fun _ => ?_
  exact (preserves_takeFrame h).bind fun _ => .ofExcept

theorem readExact_spec (h : Steady I) (len : ℕ) :
    Triple I (readExact len) (fun data s => I s ∧ data.length = len) I := by
  intro s hs
  unfold readExact
  split
  · exact hs
  next hlen =>
  refine ⟨h.stream s _ hs, ?_⟩
  rw [length_take]
  omega

theorem preserves_nextStream (h : Steady I) (wire : Wire) : Preserves I (nextStream wire) := by
  refine .bind (fun s hs => ?_) fun _ => preserves_await h _
  split
  · exact h.streams s _ hs
  · exact h.streams s _ hs

end Steps

/-! ### The loop -/

theorem remove_spec (manifest : Manifest) (wanted : Finset ℕ) (index : ℕ) :
    Triple (Sound manifest wanted) (remove index) (fun _ => Pending manifest wanted index)
      (Sound manifest wanted) := by
  intro s hs
  unfold remove
  split
  · next hmem =>
    refine ⟨⟨(Finset.erase_subset _ _).trans hs.requested, fun d hd => ?_, hs.nodup, hs.buffers⟩,
      hs.requested hmem, Finset.notMem_erase _ _, fun hsink => ?_⟩
    · obtain ⟨hw, hr, hc⟩ := hs.sink d hd
      exact ⟨hw, fun he => hr (Finset.mem_of_mem_erase he), hc⟩
    · -- what was delivered is not requested any more
      obtain ⟨d, hd, rfl⟩ := mem_map.mp hsink
      exact (hs.sink d hd).2.1 hmem
  · exact hs

theorem put_spec {d : Delivery} {c : Chunk} (hc : manifest.chunks[d.index]? = some c)
    (hdata : d.data.length = c.len) (hlen : d.len = c.len) (hhash : d.hash = c.hash) :
    Triple (Pending manifest wanted d.index) (put d) (fun _ => Sound manifest wanted)
      (Sound manifest wanted) := by
  refine .bind ((preserves_await Pending.steady _).relax
    fun _ h => h.sound) fun _ s hs => ?_
  refine ⟨hs.sound.requested, fun e he => ?_, ?_, hs.sound.buffers⟩
  · rcases mem_append.mp he with hold | hnew
    · exact hs.sound.sink e hold
    · rw [mem_singleton.mp hnew]
      exact ⟨hs.mem, hs.removed, c, hc, hdata, hlen, hhash⟩
  · rw [map_append, nodup_append_comm]
    exact nodup_cons.mpr ⟨hs.fresh, hs.sound.nodup⟩

theorem chunkBody_spec (ht : Tiling manifest) {c : Chunk} (hc : manifest.chunks[index]? = some c) :
    Triple (Pending manifest wanted index) (chunkBody index c.hash c.len)
      (fun _ => Sound manifest wanted) (Sound manifest wanted) := by
  have hlen : c.len ≤ maxChunk := (ht.len c (mem_of_getElem? hc)).2
  have hlost : ∀ s, Pending manifest wanted index s → Sound manifest wanted s :=
    fun _ h => h.sound
  refine .bind ((preserves_allocate Pending.steady hlen).relax hlost) fun _ => ?_
  refine .bind ((preserves_await Pending.steady _).relax hlost) fun _ => ?_
  refine .bind ((readExact_spec Pending.steady c.len).relax hlost) fun data => .assume fun hdata => ?_
  exact put_spec (d := ⟨index, data, c.hash, c.len⟩) hc hdata rfl rfl

theorem chunkHdr_spec (ht : Tiling manifest) (msg : SyncMsg) :
    Triple (Pending manifest wanted index) (chunkHdr manifest index msg)
      (fun _ => Sound manifest wanted) (Sound manifest wanted) := by
  unfold chunkHdr
  split
  · next i hash len =>
    split
    · exact .fail fun _ h => h.sound
    next hi =>
    obtain rfl : i = index := not_not.mp hi
    split
    · next hany =>
      -- the header agrees with the manifest
      cases hc : manifest.chunks[i]? with
      | none =>
        rw [hc] at hany
        cases hany
      | some c =>
        rw [hc] at hany
        obtain ⟨rfl, rfl⟩ : c.len = len ∧ c.hash = hash := of_decide_eq_true hany
        exact chunkBody_spec ht hc
    · exact .fail fun _ h => h.sound
  · exact .fail fun _ h => h.sound

theorem preserves_chunk (ht : Tiling manifest) (wire : Wire) (index : ℕ) :
    Preserves (Sound manifest wanted) (chunk wire manifest index) := by
  refine bind (remove_spec manifest wanted index) fun _ => ?_
  refine bind ((preserves_recv Pending.steady wire).relax
    fun _ h => h.sound) fun msg => ?_
  exact chunkHdr_spec ht msg

/-- **So does a whole stream.** -/
theorem preserves_streamLoop (ht : Tiling manifest) (wire : Wire) (fuel streamChunks : ℕ) :
    Preserves (Sound manifest wanted) (streamLoop wire manifest fuel streamChunks) := by
  induction fuel generalizing streamChunks with
  | zero => exact fun s hs => ⟨hs.requested, hs.sink, hs.nodup, hs.buffers⟩
  | succ fuel ih =>
    refine (preserves_recv Sound.steady wire).bind fun msg => ?_
    split
    · refine .ite fail ?_
      exact (forM fun index _ => preserves_chunk ht wire index).bind fun _ => ih _
    · exact .ite pure fail
    · exact .fail

/-- **And the collection.** -/
theorem preserves_collect (ht : Tiling manifest) (wire : Wire) (inbox : List Bytes) :
    Preserves (Sound manifest wanted) (collect wire manifest inbox) := by
  have hfinished : Preserves (Sound manifest wanted) finished := fun s hs => hs
  induction inbox with
  | nil =>
    refine hfinished.bind fun r => ?_
    cases r with
    | some fetchedBytes => exact .pure
    | none => exact (preserves_nextStream Sound.steady wire).bind fun _ => .fail
  | cons stream inbox ih =>
    refine hfinished.bind fun r => ?_
    cases r with
    | some fetchedBytes => exact .pure
    | none =>
      refine (preserves_nextStream Sound.steady wire).bind fun _ => ?_
      refine .bind (fun s hs => Sound.steady.stream s stream hs) fun _ => ?_
      exact (preserves_streamLoop ht wire _ _).bind fun _ => ih

theorem sound_start (fates : List Fate) : Sound manifest wanted (start wanted fates) :=
  ⟨Finset.Subset.refl _, by simp [start], nodup_nil, by simp [start]⟩

/-! ### The fuel is enough -/

/-- The model has not run out of fuel, and less than `n` bytes of the stream are
left. -/
def Fueled (n : ℕ) (s : Collect) : Prop := s.exhausted = false ∧ s.stream.length < n

theorem Fueled.weaken {n m : ℕ} (h : n ≤ m) {s : Collect} (hs : Fueled n s) : Fueled m s :=
  ⟨hs.1, hs.2.trans_le h⟩

theorem preserves_fueled_await (n : ℕ) (stalled : Bail) :
    Preserves (Fueled n) (await stalled) := by
  intro s hs
  unfold await
  split <;> exact hs

theorem recv_fueled (n : ℕ) (wire : Wire) :
    Triple (Fueled (n + 1)) (recv wire) (fun _ => Fueled n) (Fueled (n + 1)) := by
  refine .bind (preserves_fueled_await _ _) fun _ => ?_
  refine .bind (Q := fun _ => Fueled (n + 1)) (fun s hs => hs) fun size => ?_
  refine .bind (Q := fun _ => Fueled (n + 1)) (fun s hs => hs) fun _ => ?_
  refine .bind (Q := fun _ => Fueled n) (fun s hs => ?_) fun raw =>
    ofExcept (fun _ _ _ hs => hs) fun _ hs => hs.weaken (Nat.le_succ n)
  unfold takeFrame
  split
  · exact hs
  next raw stream hread =>
  have hlen := length_of_readFrame hread
  have hlt := hs.2
  exact ⟨hs.1, by dsimp only; omega⟩

theorem preserves_fueled_chunk (n : ℕ) (wire : Wire) (manifest : Manifest) (index : ℕ) :
    Preserves (Fueled n) (chunk wire manifest index) := by
  have hremove : Preserves (Fueled n) (remove index) := by
    intro s hs
    unfold remove
    split <;> exact hs
  refine hremove.bind fun _ => bind (Q := fun _ => Fueled n) ?_ fun msg => ?_
  · cases n with
    | zero => exact fun s hs => absurd hs.2 (Nat.not_lt_zero _)
    | succ n =>
      exact (recv_fueled n wire).imp (fun _ hs => hs) (fun _ _ hs => hs.weaken (Nat.le_succ n))
        fun _ hs => hs
  unfold chunkHdr
  split
  · refine ite fail (ite ?_ fail)
    refine bind (fun s hs => hs) fun _ => ?_
    refine (preserves_fueled_await _ _).bind fun _ => .bind (fun s hs => ?_) fun data => ?_
    · unfold readExact
      split
      · exact hs
      have hlt := hs.2
      refine ⟨hs.1, ?_⟩
      rw [length_drop]
      omega
    · exact (preserves_fueled_await _ _).bind fun _ => fun s hs => hs
  · exact fail

theorem streamLoop_fueled (wire : Wire) (manifest : Manifest) (fuel streamChunks : ℕ) :
    Preserves (Fueled fuel) (streamLoop wire manifest fuel streamChunks) := by
  induction fuel generalizing streamChunks with
  | zero => exact fun s hs => absurd hs.2 (Nat.not_lt_zero _)
  | succ fuel ih =>
    have hup : ∀ s, Fueled fuel s → Fueled (fuel + 1) s := fun _ hs => hs.weaken (Nat.le_succ fuel)
    refine bind (recv_fueled fuel wire) fun msg => ?_
    split
    · split
      · exact fail hup
      · have hchunks := forM (l := ‹List ℕ›) fun index _ =>
          preserves_fueled_chunk fuel wire manifest index
        exact (hchunks.bind fun _ => ih _).imp (fun _ hs => hs) (fun _ _ hs => hup _ hs) hup
    · split
      · exact pure hup
      · exact fail hup
    · exact fail hup

/-- **The loop never runs out of fuel.** -/
theorem not_exhausted_collect (wire : Wire) (manifest : Manifest) (inbox : List Bytes) :
    Preserves (fun s => s.exhausted = false) (collect wire manifest inbox) := by
  have hnext : Preserves (fun s : Collect => s.exhausted = false) (nextStream wire) := by
    refine .bind (fun s hs => ?_) fun _ s hs => ?_
    · split <;> exact hs
    · unfold await
      split <;> exact hs
  induction inbox with
  | nil =>
    refine .bind (fun s hs => hs) fun r => ?_
    cases r with
    | some fetchedBytes => exact .pure
    | none => exact hnext.bind fun _ => .fail
  | cons stream inbox ih =>
    refine .bind (fun s hs => hs) fun r => ?_
    cases r with
    | some fetchedBytes => exact .pure
    | none =>
      refine hnext.bind fun _ => ?_
      refine bind (Q := fun _ => Fueled (stream.length + 1))
        (fun s hs => ⟨hs, Nat.lt_succ_self _⟩) fun _ => ?_
      exact bind ((streamLoop_fueled wire manifest _ 0).imp (fun _ hs => hs)
        (fun _ _ hs => hs.1) fun _ hs => hs.1) fun _ => ih

end Collect

/-! ### The answer -/

section Answer

variable {allowed : FsPath → Prop} {fresh : ℕ → Prop} {I : Fs → Prop} {dest : FsPath}
  {manifest : Manifest}

theorem Bound.mem_have {j : Journal} (hj : Bound allowed dest manifest j)
    (hcomplete : j.complete = true) : ∀ i < manifest.chunks.length, i ∈ j.have_ := by
  have hsub : j.have_ ⊆ Finset.range manifest.chunks.length :=
    fun i hi => Finset.mem_range.mpr (hj.have_lt i hi)
  have hcard : j.have_.card = manifest.chunks.length := by
    rw [← hj.manifest_eq]
    exact of_decide_eq_true hcomplete
  have heq : j.have_ = Finset.range manifest.chunks.length :=
    Finset.eq_of_subset_of_card_le hsub (by rw [Finset.card_range, hcard])
  intro i hi
  rw [heq]
  exact Finset.mem_range.mpr hi

theorem storeAll_spec (h : Kept allowed fresh I) (ext : JournalExternals) {j : Journal}
    (hj : Bound allowed dest manifest j) (sink : List Delivery) :
    Triple (OnFs I) (storeAll ext j sink) (Holding allowed I dest manifest) (OnFs I) := by
  refine (foldlM (Q := Holding allowed I dest manifest) (fun j' d _ => ?_) j).imp
    (fun _ hw => ⟨hw, hj⟩) (fun _ _ hw => hw) fun _ hw => hw
  refine .assume fun hj' => ?_
  exact .bind (store_spec h ext hj' d.index d.data) fun r => .pure fun _ hw => hw

theorem finishChunks_spec (ext : JournalExternals) {j : Journal}
    (hj : Bound (fun q => dest ≠ q) dest manifest j) (stored : ℕ) (sink : List Delivery)
    (outcome : Outcome Bail ℕ) (ref : Fs) :
    Triple (OnFs (Unmoved dest ref)) (finishChunks ext j stored sink outcome)
      (fun r _ => ∀ i < manifest.chunks.length, i ∈ r.1.have_) (fun _ => True) := by
  have hstore := storeAll_spec (Unmoved.kept dest ref) ext hj sink
  cases outcome with
  | err e | stopped => exact .bind trivial fun _ => .fail fun _ _ => trivial
  | ok fetchedBytes =>
    refine .bind ((mapError _ hstore).relax
      fun _ _ => trivial) fun j' => .assume fun hj' => ?_
    split
    · exact .fail fun _ _ => trivial
    · next hcomplete =>
      have hall := hj'.mem_have (by simpa using hcomplete)
      exact .bind trivial fun path => .pure fun _ _ => hall

end Answer

/-- **Soundness against a hostile peer.** Every chunk handed to the journal of an
accepted manifest was requested, is handed over once, and has the length and the
announced hash of the manifest; no buffer exceeds `MAX_CHUNK`; and `receive_chunks`
succeeds only with a journal that has every chunk of the manifest. -/
theorem receiveChunks_sound (ext : JournalExternals) (destDir : FsPath) (relPath : Bytes)
    (manifest : Manifest) (w : World) (journal : Journal)
    (hopen : (Journal.openCancellable ext destDir relPath manifest w).1 = .ok journal)
    (wire : Wire) (route : UniHello) (arrivals : List Bytes) (fates : List Fate) (stored : ℕ) (w' : World) :
    let run := collection wire route manifest journal arrivals fates
    (∀ d ∈ run.2.sink, d.index ∈ journal.need ∧ ∃ c, manifest.chunks[d.index]? = some c ∧
        d.data.length = c.len ∧ c.len ≤ maxChunk ∧ d.len = c.len ∧ d.hash = c.hash) ∧
      (run.2.sink.map Delivery.index).Nodup ∧
      (∀ b ∈ run.2.buffers, b ≤ maxChunk) ∧
      ∀ journal' dest stats, (receiveChunks ext wire route manifest journal arrivals fates stored w').1 =
            .ok (journal', dest, stats) →
          ∀ i < manifest.chunks.length, i ∈ journal'.have_ := by
  intro run
  have hspec := openCancellable_spec ext destDir relPath manifest w.fs rfl w (Unmoved.refl _ w.fs)
  rw [hopen] at hspec
  obtain ⟨-, hbound, ht⟩ := hspec
  have hsound : Collect.Sound manifest journal.need.toFinset run.2 :=
    (Collect.preserves_collect ht wire _).final (Collect.sound_start fates)
  refine ⟨fun d hd => ?_, hsound.nodup, hsound.buffers, fun journal' dest stats hok => ?_⟩
  · obtain ⟨hmem, -, c, hc, hdata, hlen, hhash⟩ := hsound.sink d hd
    exact ⟨mem_toFinset.mp hmem, c, hc, hdata, (ht.len c (mem_of_getElem? hc)).2, hlen, hhash⟩
  have hfinish := finishChunks_spec ext hbound stored run.2.sink run.1 w'.fs w'
    (Unmoved.refl _ w'.fs)
  change (receiveChunks ext wire route manifest journal arrivals fates stored w').1.Post _ _ _
    at hfinish
  rw [hok] at hfinish
  exact hfinish

/-- The journal of a receive of the one-byte file `02` as `a` into `d`. -/
def byteJournal : Journal :=
  let id := scopedId byteExternals (utf8 "a") contentTwo
  { state := [utf8 "d", stateDir], journalId := id, dir := [utf8 "d", stateDir, id],
    parts := [utf8 "d", stateDir, id, partsName], destParent := [utf8 "d"],
    destState := [utf8 "d", stateDir], destName := utf8 "a", destPath := [utf8 "d", utf8 "a"],
    manifest := byteManifest, have_ := ∅, fetched := 0 }

/-- The stream of a holder of the file. -/
def byteStreams : List Bytes :=
  match pushChunks .v1 .sync byteManifest [2] [0] with
  | .ok streams => streams
  | .error _ => []

/-- The world after the journal was opened. -/
def byteWorld : World :=
  (Journal.openCancellable byteExternals [utf8 "d"] (utf8 "a") byteManifest ⟨byteFs, [], [], []⟩).2

/-- The holder's stream completes the journal; a second copy of it is not read. -/
theorem receiveChunks_sound_byte :
    (receiveChunks byteExternals .v1 .sync byteManifest byteJournal (byteStreams ++ byteStreams) []
        0 byteWorld).1 =
        .ok ({ byteJournal with have_ := {0}, fetched := 1 }, [utf8 "d", utf8 "a"], ⟨1, 1, 1⟩) ∧
      (∀ d ∈ (collection .v1 .sync byteManifest byteJournal (byteStreams ++ byteStreams) []).2.sink,
        d.index ∈ byteJournal.need) ∧
      ∀ i < byteManifest.chunks.length, i ∈ ({0} : Finset ℕ) := by
  have hopen : (Journal.openCancellable byteExternals [utf8 "d"] (utf8 "a") byteManifest
      ⟨byteFs, [], [], []⟩).1 = .ok byteJournal := by decide +kernel
  have hok : (receiveChunks byteExternals .v1 .sync byteManifest byteJournal
      (byteStreams ++ byteStreams) [] 0 byteWorld).1 =
      .ok ({ byteJournal with have_ := {0}, fetched := 1 }, [utf8 "d", utf8 "a"], ⟨1, 1, 1⟩) := by
    decide +kernel
  obtain ⟨hsink, -, -, hcomplete⟩ := receiveChunks_sound byteExternals [utf8 "d"] (utf8 "a")
    byteManifest ⟨byteFs, [], [], []⟩ byteJournal hopen .v1 .sync (byteStreams ++ byteStreams) [] 0
    byteWorld
  exact ⟨hok, fun d hd => (hsink d hd).1, hcomplete _ _ _ hok⟩

end Rds
