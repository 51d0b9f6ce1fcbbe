import Rds.Framework.Bitmap
import Rds.Sync.Basic

/-!
# The sync wire protocol

Messages and structural checks of `rds-sync/src/proto.rs`. The holder of a file
offers it with its manifest, the receiver answers with a bitmap of the chunks it
lacks, and the holder sends these on a few chunk streams.

`Tiling` spells out what `check_manifest` accepts: the chunks are consecutive
non-empty pieces, individually bounded, that cover the file exactly.
-/

namespace Rds

open Framework

/-! ### Limits -/

/-- Parallel chunk streams per transfer. -/
def fetchStreams : ℕ := 4

/-- Cap on a manifest's chunk list. -/
def maxChunks : ℕ := 2 ^ 18

/-- Chunks per `ManifestPart` frame. -/
def manifestBatch : ℕ := 512

/-- Chunk indices per `ChunkSet` frame on a chunk stream. -/
def chunksetBatch : ℕ := 4096

/-- Sync-session protocol version of the route tag `SyncTransferV2`. -/
def sessionVersion : ℕ := 2

/-- `SessionLimits`: the bounds a peer declares. -/
structure SessionLimits where
  maxChunk : ℕ
  maxChunks : ℕ
  fetchStreams : ℕ
  deriving DecidableEq

/-- `SessionLimits::LOCAL`. -/
def SessionLimits.loc : SessionLimits := ⟨Rds.maxChunk, Rds.maxChunks, Rds.fetchStreams⟩

/-! ### Messages -/

/-- `SessionMsg`: messages inside the version-2 session envelope. -/
inductive SessionMsg where
  | hello (version : ℕ) (limits : SessionLimits)
  | helloAck (version : ℕ) (limits : SessionLimits)
  | offer (relPath : Bytes) (size : ℕ) (root : ChunkHash) (chunkCount : ℕ)
  | request (relPath : Bytes)
  | refuse (reason : Bytes)
  | cancel (reason : Bytes)
  | manifestPart (chunks : List Chunk)
  | need (bits : List UInt64)
  | done (root : ChunkHash)
  | chunkSet (indices : List ℕ)
  | chunkHdr (index : ℕ) (hash : ChunkHash) (len : ℕ)
  | setDone
  deriving DecidableEq

/-- A transfer identifier, `[u8; 16]`. -/
abbrev TransferId := { bs : Bytes // bs.length = 16 }

/-- `SyncMsg`: control-stream and chunk-stream messages. -/
inductive SyncMsg where
  | offer (relPath : Bytes) (size : ℕ) (root : ChunkHash) (chunkCount : ℕ)
  | request (relPath : Bytes)
  | refuse (reason : Bytes)
  | manifestPart (chunks : List Chunk)
  | need (bits : List UInt64)
  | chunkSet (indices : List ℕ)
  | chunkHdr (index : ℕ) (hash : ChunkHash) (len : ℕ)
  | setDone
  | done (root : ChunkHash)
  | cancel (reason : Bytes)
  | session (transferId : TransferId) (msg : SessionMsg)
  deriving DecidableEq

/-! ### Manifests -/

/-- The largest `u64`. -/
def u64Max : ℕ := 2 ^ 64 - 1

/-- One iteration of the loop of `check_manifest`: the bytes covered so far. -/
def coverChunk (covered : ℕ) (c : Chunk) : Except SyncError ℕ :=
  if c.len = 0 ∨ c.len > maxChunk then
    throw (.manifest [.text "bad chunk len ", .num c.len])
  else if c.offset ≠ covered then
    throw (.manifest [.text "chunks not contiguous at offset ", .num c.offset])
  else if covered + c.len > u64Max then
    throw (.manifest [.text "size overflow"])
  else .ok (covered + c.len)

/-- `check_manifest`. -/
def checkManifest (m : Manifest) : Except SyncError Unit :=
  if m.chunks.length > maxChunks then
    throw (.manifest [.text "manifest too large"])
  else do
    let covered ← m.chunks.foldlM coverChunk 0
    if covered ≠ m.size then
      throw (.manifest [.text "chunks cover ", .num covered, .text " bytes, manifest size ",
        .num m.size])
    else .ok ()

/-- The bytes a list of chunks covers. -/
def totalLen (chunks : List Chunk) : ℕ := (chunks.map Chunk.len).sum

@[simp] theorem totalLen_nil : totalLen [] = 0 := rfl

@[simp] theorem totalLen_cons (c : Chunk) (chunks : List Chunk) :
    totalLen (c :: chunks) = c.len + totalLen chunks := by
  simp [totalLen]

/-- The chunks are consecutive from `start` on. -/
def Consecutive : ℕ → List Chunk → Prop
  | _, [] => True
  | start, c :: chunks => c.offset = start ∧ Consecutive (start + c.len) chunks

/-- What `check_manifest` accepts. -/
structure Tiling (m : Manifest) : Prop where
  count : m.chunks.length ≤ maxChunks
  len : ∀ c ∈ m.chunks, 0 < c.len ∧ c.len ≤ maxChunk
  consecutive : Consecutive 0 m.chunks
  covers : totalLen m.chunks = m.size
  size : m.size ≤ u64Max

theorem foldlM_coverChunk_eq_ok {chunks : List Chunk} {start covered : ℕ} (hs : start ≤ u64Max) :
    chunks.foldlM coverChunk start = .ok covered ↔
      (∀ c ∈ chunks, 0 < c.len ∧ c.len ≤ maxChunk) ∧ Consecutive start chunks ∧
        covered = start + totalLen chunks ∧ covered ≤ u64Max := by
  induction chunks generalizing start with
  | nil =>
    simp only [List.foldlM_nil, pure, Except.pure, Except.ok.injEq, totalLen_nil]
    constructor
    · rintro rfl
      exact ⟨by simp, trivial, rfl, hs⟩
    · rintro ⟨-, -, rfl, -⟩
      rfl
  | cons c chunks ih =>
    rw [List.foldlM_cons, bind_eq_ok, List.forall_mem_cons, totalLen_cons]
    simp only [coverChunk, ite_throw_eq_ok, not_or, not_not, Nat.not_lt, Except.ok.injEq, Nat.pos_iff_ne_zero]
    constructor
    · rintro ⟨_, ⟨hlen, hoff, hle, rfl⟩, hrest⟩
      obtain ⟨hall, hcons, hcov, hmax⟩ := (ih hle).mp hrest
      simp only [Nat.pos_iff_ne_zero] at hall
      exact ⟨⟨hlen, hall⟩, ⟨hoff, hcons⟩, by omega, hmax⟩
    rintro ⟨⟨hlen, hall⟩, ⟨hoff, hcons⟩, hcov, hmax⟩
    have hle : start + c.len ≤ u64Max := by omega
    refine ⟨_, ⟨hlen, hoff, hle, rfl⟩, (ih hle).mpr ⟨?_, hcons, by omega, hmax⟩⟩
    simpa only [Nat.pos_iff_ne_zero] using hall

/-- **`check_manifest` accepts exactly the tilings.** -/
theorem checkManifest_eq_ok_iff {m : Manifest} : checkManifest m = .ok () ↔ Tiling m := by
  unfold checkManifest
  rw [ite_throw_eq_ok, bind_eq_ok, Nat.not_lt]
  simp only [foldlM_coverChunk_eq_ok (Nat.zero_le u64Max), ite_throw_eq_ok, not_not, Nat.zero_add]
  constructor
  · rintro ⟨hcount, _, ⟨hlen, hcons, hcov, hmax⟩, hsize, -⟩
    exact ⟨hcount, hlen, hcons, hcov.symm.trans hsize, hsize ▸ hmax⟩
  · intro h
    exact ⟨h.count, _, ⟨h.len, h.consecutive, rfl, h.covers ▸ h.size⟩, h.covers, trivial⟩

/-! ### The `Need` bitmap -/

/-- `need_bits`: bit `i` is set when chunk `i` is missing. -/
def needBits (total : ℕ) (have_ : Finset ℕ) : List UInt64 :=
  ((List.range total).filter fun i => i ∉ have_).foldl setBit
    (List.replicate ((total + 63) / 64) 0)

/-- `bits_to_indices`: decode an exact, canonical bitmap. -/
def bitsToIndices (bits : List UInt64) (total : ℕ) : Except SyncError (List ℕ) :=
  if total > maxChunks ∨ bits.length ≠ (total + 63) / 64 ∨
      (total % 64 ≠ 0 ∧ bits.getLast?.any fun w => w >>> UInt64.ofNat (total % 64) ≠ 0) then
    throw (.manifest [.text "invalid Need bitmap bounds or padding"])
  else .ok ((List.range total).filter (testBit bits))

theorem length_needBits (total : ℕ) (have_ : Finset ℕ) :
    (needBits total have_).length = (total + 63) / 64 := by
  rw [needBits, length_foldl_setBit, List.length_replicate]

theorem testBit_needBits {total : ℕ} {have_ : Finset ℕ} {i : ℕ} :
    testBit (needBits total have_) i = true ↔ i < total ∧ i ∉ have_ := by
  have hrange : ∀ j ∈ (List.range total).filter fun j => j ∉ have_,
      j / 64 < (List.replicate ((total + 63) / 64) (0 : UInt64)).length := by
    intro j hj
    have hlt := List.mem_range.mp (List.mem_filter.mp hj).1
    rw [List.length_replicate]
    omega
  rw [needBits, testBit_foldl_setBit hrange, testBit_replicate_zero, List.mem_filter]
  simp

theorem needBits_padding {total : ℕ} {have_ : Finset ℕ} {w : UInt64} (hr : total % 64 ≠ 0)
    (hw : (needBits total have_).getLast? = some w) : w >>> UInt64.ofNat (total % 64) = 0 := by
  refine shiftRight_eq_zero (Nat.mod_lt _ (by decide)) fun k hk hk64 => ?_
  -- the last word is number `total / 64`, so bit `k` of it is a chunk out of range
  have hindex : (needBits total have_)[(64 * (total / 64) + k) / 64]? = some w := by
    rw [List.getLast?_eq_getElem?, length_needBits] at hw
    rw [← hw]
    congr 1
    omega
  have hmod : (64 * (total / 64) + k) % 64 = k := by omega
  by_contra hbit
  have htest : testBit (needBits total have_) (64 * (total / 64) + k) = true :=
    testBit_eq_true.mpr ⟨w, hindex, by rwa [hmod, ← Bool.not_eq_false]⟩
  have := (testBit_needBits.mp htest).1
  omega

/-- **The bitmap asks for the missing chunks.** -/
theorem bitsToIndices_needBits {total : ℕ} (h : total ≤ maxChunks) (have_ : Finset ℕ) :
    bitsToIndices (needBits total have_) total = .ok ((List.range total).filter fun i => i ∉ have_) := by
  unfold bitsToIndices
  rw [if_neg]
  · congr 1
    refine List.filter_congr fun i hi => ?_
    rw [Bool.eq_iff_iff, testBit_needBits, decide_eq_true_iff]
    exact and_iff_right (List.mem_range.mp hi)
  rintro (hmax | hlen | ⟨hr, hpad⟩)
  · omega
  · exact hlen (length_needBits total have_)
  cases hw : (needBits total have_).getLast? with
  | none =>
    rw [hw] at hpad
    cases hpad
  | some w =>
    rw [hw, Option.any_some, needBits_padding hr hw] at hpad
    exact absurd hpad (by decide)

/-- **What is accepted** has one bit for each index of the list. -/
theorem bitsToIndices_eq_ok {bits : List UInt64} {total : ℕ} {indices : List ℕ}
    (h : bitsToIndices bits total = .ok indices) : total ≤ maxChunks ∧ bits.length = (total + 63) / 64 ∧
      (∀ i ∈ indices, i < total) ∧ ∀ i, testBit bits i = true ↔ i ∈ indices := by
  unfold bitsToIndices at h
  split at h
  · cases h
  next hok =>
  cases h
  obtain ⟨hmax, hlen, hpad⟩ := not_or.mp hok |>.imp id not_or.mp
  refine ⟨Nat.not_lt.mp hmax, not_not.mp hlen, fun i hi => List.mem_range.mp (List.mem_filter.mp hi).1, fun i => ?_⟩
  rw [List.mem_filter, List.mem_range]
  refine ⟨fun hi => ⟨?_, hi⟩, And.right⟩
  -- a bit past the end is in the padding of the last word
  by_contra hge
  obtain ⟨w, hw, hbit⟩ := testBit_eq_true.mp hi
  have hword := (List.getElem?_eq_some_iff.mp hw).1
  have hlast : bits.getLast? = some w := by
    rw [List.getLast?_eq_getElem?, ← hw]
    congr 1
    omega
  refine hpad ⟨by omega, ?_⟩
  rw [hlast, Option.any_some, decide_eq_true_eq]
  intro hzero
  rw [testBit_eq_false_of_shiftRight (Nat.mod_lt _ (by decide)) hzero (by omega)] at hbit
  cases hbit

/-- **The `Need` bitmap is an exact code.** What is built decodes to the missing indices, in order. What is
accepted is what is built for some set, and it is the only bitmap of its list. -/
theorem needBits_exact : (∀ total have_, total ≤ maxChunks →
      bitsToIndices (needBits total have_) total = .ok ((List.range total).filter fun i => i ∉ have_)) ∧
    (∀ bits total, (∃ indices, bitsToIndices bits total = .ok indices) ↔
      total ≤ maxChunks ∧ ∃ have_, bits = needBits total have_) ∧
    ∀ bits bits' total indices, bitsToIndices bits total = .ok indices →
      bitsToIndices bits' total = .ok indices → bits = bits' := by
  refine ⟨fun total have_ h => bitsToIndices_needBits h have_, fun bits total => ⟨?_, ?_⟩, ?_⟩
  · rintro ⟨indices, h⟩
    obtain ⟨hmax, hlen, hlt, hbits⟩ := bitsToIndices_eq_ok h
    refine ⟨hmax, (Finset.range total).filter (· ∉ indices), ext_testBit ?_ fun i => ?_⟩
    · rw [hlen, length_needBits]
    · rw [hbits, testBit_needBits, Finset.mem_filter, Finset.mem_range]
      have := hlt i
      tauto
  · rintro ⟨hmax, have_, rfl⟩
    exact ⟨_, bitsToIndices_needBits hmax have_⟩
  · intro bits bits' total indices h h'
    obtain ⟨-, hlen, -, hbits⟩ := bitsToIndices_eq_ok h
    obtain ⟨-, hlen', -, hbits'⟩ := bitsToIndices_eq_ok h'
    exact ext_testBit (hlen.trans hlen'.symm) fun i => (hbits i).trans (hbits' i).symm

end Rds
