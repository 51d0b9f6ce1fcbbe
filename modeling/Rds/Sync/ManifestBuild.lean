import Rds.Sync.Proto

/-!
# Building manifests

`manifest_of` cuts a file in memory, `manifest_of_reader` one that is read piece by piece. The
cutters are those of the `fastcdc` crate, which is left abstract: `Fastcdc.Lawful` says that both
cut the same bytes into the same pieces, however the reads split them. Both builders then see the
cuts of these pieces, so they build one manifest, and the reader's is one that `check_manifest`
accepts.
-/

namespace Rds

open Framework List

/-- `fastcdc::v2020::ChunkData`: a piece and where it starts. -/
structure ChunkData where
  offset : ℕ
  length : ℕ
  data : Bytes

/-- The cutters of `fastcdc::v2020`: `FastCDC` gives offsets and lengths, `StreamCDC` pieces or
the error of a read. An `io::Error` is its kind and message. -/
structure Fastcdc where
  slice (min avg max : ℕ) (data : Bytes) : List (ℕ × ℕ)
  stream (min avg max : ℕ) (reads : List (Except IoErrorKind Bytes)) :
    List (Except (IoErrorKind × List Piece) ChunkData)

section Build

variable (blake3 : Bytes → ChunkHash) (cdc : Fastcdc)

/-- `manifest_with`. -/
def manifestWith (data : Bytes) (min avg max : ℕ) : Manifest where
  size := data.length
  root := blake3 data
  chunks := (cdc.slice min avg max data).map fun c =>
    { hash := blake3 ((data.drop c.1).take c.2), offset := c.1, len := c.2 % 2 ^ 32 }

/-- `manifest_of`. -/
def manifestOf (data : Bytes) : Manifest := manifestWith blake3 cdc data minChunk avgChunk maxChunk

/-- The loop state of `manifest_reader_cancellable_with`: the bytes given to the hasher, their
number and the chunks. -/
structure Building where
  root : Bytes
  size : ℕ
  chunks : List Chunk

/-- The chunk pushed for a piece. -/
def ChunkData.chunk (c : ChunkData) : Chunk := ⟨blake3 c.data, c.offset, c.length % 2 ^ 32⟩

/-- One iteration; `stop` answers for its number. The size stays below `2 ^ 64`, since a list of
more than `MAX_CHUNKS` pieces is refused. -/
def buildChunk (stop : ℕ → Bool) (b : Building)
    (item : Except (IoErrorKind × List Piece) ChunkData × ℕ) :
    Except (IoErrorKind × List Piece) Building :=
  if stop item.2 then throw (.interrupted, [])
  else do
    let c ← item.1
    if (b.chunks ++ [c.chunk blake3]).length > maxChunks then
      throw (.other, [.text "file exceeds ", .num maxChunks, .text " chunks"])
    else .ok ⟨b.root ++ c.data, b.size + c.data.length, b.chunks ++ [c.chunk blake3]⟩

/-- `manifest_reader_cancellable_with`. -/
def manifestReaderCancellableWith (reads : List (Except IoErrorKind Bytes)) (min avg max : ℕ)
    (stop : ℕ → Bool) : Except (IoErrorKind × List Piece) Manifest := do
  let b ← (cdc.stream min avg max reads).zipIdx.foldlM (buildChunk blake3 stop) ⟨[], 0, []⟩
  .ok ⟨b.size, blake3 b.root, b.chunks⟩

/-- `manifest_of_reader`. -/
def manifestOfReader (reads : List (Except IoErrorKind Bytes)) :
    Except (IoErrorKind × List Piece) Manifest :=
  manifestReaderCancellableWith blake3 cdc reads minChunk avgChunk maxChunk fun _ => false

end Build

/-! ### Cuts -/

/-- Consecutive pieces from `start` on. -/
def cuts : ℕ → List Bytes → List ChunkData
  | _, [] => []
  | start, p :: pieces => ⟨start, p.length, p⟩ :: cuts (start + p.length) pieces

/-- The cutters agree on consecutive pieces of bounded length. -/
def Fastcdc.Lawful (cdc : Fastcdc) : Prop :=
  ∀ data, ∃ pieces : List Bytes, pieces.flatten = data ∧
    (∀ p ∈ pieces, 0 < p.length ∧ p.length ≤ maxChunk) ∧
    cdc.slice minChunk avgChunk maxChunk data = (cuts 0 pieces).map (fun c => (c.offset, c.length)) ∧
    ∀ reads : List Bytes, reads.flatten = data →
      cdc.stream minChunk avgChunk maxChunk (reads.map .ok) = (cuts 0 pieces).map .ok

section Cuts

variable {blake3 : Bytes → ChunkHash} {cdc : Fastcdc} {pieces : List Bytes}

theorem data_of_mem_cuts {c : ChunkData} (done : Bytes) (h : c ∈ cuts done.length pieces) :
    c.length = c.data.length ∧ c.data ∈ pieces ∧
      ((done ++ pieces.flatten).drop c.offset).take c.length = c.data := by
  induction pieces generalizing done with
  | nil => cases h
  | cons p pieces ih =>
    rcases mem_cons.mp h with rfl | h
    · simp
    rw [← length_append] at h
    obtain ⟨hlen, hmem, hdata⟩ := ih (done ++ p) h
    rw [append_assoc] at hdata
    exact ⟨hlen, mem_cons_of_mem _ hmem, hdata⟩

theorem consecutive_cuts (hlen : ∀ p ∈ pieces, p.length ≤ maxChunk) (start : ℕ) :
    Consecutive start ((cuts start pieces).map (·.chunk blake3)) ∧
      totalLen ((cuts start pieces).map (·.chunk blake3)) = pieces.flatten.length := by
  induction pieces generalizing start with
  | nil => exact ⟨trivial, rfl⟩
  | cons p pieces ih =>
    rw [forall_mem_cons] at hlen
    have hp : p.length % 2 ^ 32 = p.length :=
      Nat.mod_eq_of_lt (hlen.1.trans_lt (by decide))
    obtain ⟨hcons, htotal⟩ := ih hlen.2 (start + p.length)
    simp only [cuts, map_cons, ChunkData.chunk, Consecutive, hp, flatten_cons, length_append]
    exact ⟨⟨trivial, hcons⟩, by rw [← htotal]; rfl⟩

/-- **The reading loop** over cuts collects their bytes and their chunks. -/
theorem foldlM_buildChunk {stop : ℕ → Bool} {start n : ℕ} {b b' : Building}
    (h : (((cuts start pieces).map .ok).zipIdx n).foldlM (buildChunk blake3 stop) b = .ok b')
    (hb : b.chunks.length ≤ maxChunks) :
    b' = ⟨b.root ++ pieces.flatten, b.size + pieces.flatten.length,
        b.chunks ++ (cuts start pieces).map (·.chunk blake3)⟩ ∧ b'.chunks.length ≤ maxChunks := by
  induction pieces generalizing start n b with
  | nil =>
    cases h
    simp [cuts, hb]
  | cons p pieces ih =>
    obtain ⟨next, hnext, hrest⟩ := bind_eq_ok.mp h
    obtain ⟨-, hnext⟩ := ite_throw_eq_ok.mp hnext
    obtain ⟨hcount, hnext⟩ := ite_throw_eq_ok.mp hnext
    cases hnext
    obtain ⟨rfl, hle⟩ := ih hrest (Nat.le_of_not_lt hcount)
    refine ⟨?_, hle⟩
    simp [cuts, Nat.add_assoc]

theorem manifestOf_eq {data : Bytes} (hdata : pieces.flatten = data)
    (hslice : cdc.slice minChunk avgChunk maxChunk data =
      (cuts 0 pieces).map (fun c => (c.offset, c.length))) :
    manifestOf blake3 cdc data = ⟨data.length, blake3 data, (cuts 0 pieces).map (·.chunk blake3)⟩ := by
  unfold manifestOf manifestWith
  rw [hslice, map_map]
  refine congrArg (Manifest.mk _ _) (map_congr_left fun c hc => ?_)
  obtain ⟨-, -, hrange⟩ := data_of_mem_cuts [] hc
  rw [nil_append, hdata] at hrange
  simp only [Function.comp_apply, hrange, ChunkData.chunk]

theorem consecutive_iff {chunks : List Chunk} {start : ℕ} : Consecutive start chunks ↔
    ∀ before c after, chunks = before ++ c :: after → c.offset = start + totalLen before := by
  induction chunks generalizing start with
  | nil => simp [Consecutive]
  | cons d chunks ih =>
    rw [Consecutive, ih]
    constructor
    · rintro ⟨hd, hrest⟩ before c after heq
      cases before with
      | nil =>
        cases heq
        exact hd
      | cons e before =>
        rw [cons_append, cons.injEq] at heq
        rw [hrest before c after heq.2, totalLen_cons, heq.1, Nat.add_assoc]
    · intro h
      refine ⟨h [] d chunks rfl, fun before c after heq => ?_⟩
      rw [h (d :: before) c after (by rw [heq]; rfl), totalLen_cons, Nat.add_assoc]

/-- **Manifests are exact tilings.** `check_manifest` accepts the lists of at most `MAX_CHUNKS`
bounded chunks, each starting where the previous ones end, that add up to the size without
overflow. Both builders hash each range and the whole, they agree, and what the reader builds is
accepted. -/
theorem manifest_tilings (blake3 : Bytes → ChunkHash) (hcdc : cdc.Lawful) :
    (∀ m : Manifest, checkManifest m = .ok () ↔ m.chunks.length ≤ maxChunks ∧
      (∀ c ∈ m.chunks, 1 ≤ c.len ∧ c.len ≤ maxChunk) ∧
      (∀ before c after, m.chunks = before ++ c :: after → c.offset = totalLen before) ∧
      totalLen m.chunks = m.size ∧ totalLen m.chunks ≤ u64Max) ∧
    ∀ data, (manifestOf blake3 cdc data).size = data.length ∧
      (manifestOf blake3 cdc data).root = blake3 data ∧
      (∀ c ∈ (manifestOf blake3 cdc data).chunks, c.hash = blake3 ((data.drop c.offset).take c.len)) ∧
      ∀ (reads : List Bytes) (m : Manifest), reads.flatten = data →
        manifestOfReader blake3 cdc (reads.map .ok) = .ok m →
          m = manifestOf blake3 cdc data ∧ checkManifest m = .ok () := by
  refine ⟨fun m => ?_, fun data => ?_⟩
  · rw [checkManifest_eq_ok_iff]
    have hcons : Consecutive 0 m.chunks ↔ _ := consecutive_iff
    simp only [Nat.zero_add] at hcons
    constructor
    · rintro ⟨hcount, hlen, hc, hcovers, hsize⟩
      exact ⟨hcount, hlen, hcons.mp hc, hcovers, hcovers ▸ hsize⟩
    · rintro ⟨hcount, hlen, hc, hcovers, hsize⟩
      exact ⟨hcount, hlen, hcons.mpr hc, hcovers, hcovers ▸ hsize⟩
  obtain ⟨pieces, hflat, hlen, hslice, hstream⟩ := hcdc data
  have hmod : ∀ c ∈ cuts 0 pieces, c.length % 2 ^ 32 = c.length ∧ 0 < c.length ∧ c.length ≤ maxChunk := by
    intro c hc
    obtain ⟨heq, hmem, -⟩ := data_of_mem_cuts [] hc
    have hle := hlen _ hmem
    rw [← heq] at hle
    exact ⟨Nat.mod_eq_of_lt (hle.2.trans_lt (by decide)), hle⟩
  obtain ⟨hcons, htotal⟩ := @consecutive_cuts blake3 _ (fun p hp => (hlen p hp).2) 0
  rw [hflat] at htotal
  have hchunks : ∀ d ∈ (cuts 0 pieces).map (·.chunk blake3), 0 < d.len ∧ d.len ≤ maxChunk := by
    intro d hd
    obtain ⟨c, hc, rfl⟩ := mem_map.mp hd
    obtain ⟨hmod, hle⟩ := hmod c hc
    rw [ChunkData.chunk, hmod]
    exact hle
  rw [manifestOf_eq hflat hslice]
  refine ⟨rfl, rfl, ?_, fun reads m hreads hm => ?_⟩
  · intro d hd
    obtain ⟨c, hc, rfl⟩ := mem_map.mp hd
    obtain ⟨-, -, hrange⟩ := data_of_mem_cuts [] hc
    rw [nil_append, hflat] at hrange
    simp only [ChunkData.chunk, (hmod c hc).1, hrange]
  unfold manifestOfReader manifestReaderCancellableWith at hm
  rw [hstream reads hreads] at hm
  obtain ⟨b, hb, hm⟩ := bind_eq_ok.mp hm
  cases hm
  obtain ⟨rfl, hcount⟩ := foldlM_buildChunk hb (Nat.zero_le _)
  simp only [nil_append, Nat.zero_add, hflat] at hcount ⊢
  refine ⟨trivial, checkManifest_eq_ok_iff.mpr ⟨hcount, hchunks, hcons, htotal, ?_⟩⟩
  -- at most `MAX_CHUNKS` chunks of at most `MAX_CHUNK` bytes
  have hsum := sum_le_card_nsmul (((cuts 0 pieces).map (·.chunk blake3)).map Chunk.len)
    maxChunk fun x hx => by
      obtain ⟨d, hd, rfl⟩ := mem_map.mp hx
      exact (hchunks d hd).2
  rw [← htotal]
  refine hsum.trans ?_
  rw [length_map]
  exact (Nat.mul_le_mul_right maxChunk hcount).trans (by decide)

end Cuts

/-- A cutter that keeps to the bounds: every byte is a piece. -/
def byteCutter : Fastcdc where
  slice _ _ _ data := (cuts 0 (data.map ([·]))).map fun c => (c.offset, c.length)
  stream _ _ _ reads := (cuts 0 ((reads.flatMap fun r => r.toOption.getD []).map ([·]))).map .ok

theorem lawful_byteCutter : byteCutter.Lawful := by
  intro data
  refine ⟨data.map ([·]), by simp [← flatMap_def], by simp [maxChunk], rfl, ?_⟩
  rintro reads rfl
  have hall : ((reads.map .ok).flatMap fun r : Except IoErrorKind Bytes => r.toOption.getD []) =
      reads.flatten := by
    rw [flatMap_map]
    exact flatMap_id
  simp only [byteCutter, hall]

/-- A hash that tells short contents apart. -/
def padHash (content : Bytes) : ChunkHash :=
  ⟨(content ++ replicate 32 0).take 32, by simp⟩

/-- Three bytes that come in two reads are three chunks, the same as those of the file in memory. -/
theorem manifest_tilings_threeBytes :
    let built : Manifest := ⟨3, padHash [2, 3, 4], [⟨padHash [2], 0, 1⟩, ⟨padHash [3], 1, 1⟩, ⟨padHash [4], 2, 1⟩]⟩
    manifestOfReader padHash byteCutter [.ok [2], .ok [3, 4]] = .ok built ∧
      built = manifestOf padHash byteCutter [2, 3, 4] ∧ checkManifest built = .ok () := by
  intro built
  have hreader : manifestOfReader padHash byteCutter [.ok [2], .ok [3, 4]] = .ok built := by rfl
  exact ⟨hreader, ((manifest_tilings padHash lawful_byteCutter).2 [2, 3, 4]).2.2.2 [[2], [3, 4]] built rfl hreader⟩

end Rds
