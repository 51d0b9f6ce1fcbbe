import Rds.Net.Frame
import Rds.Sync.Wire

/-!
# The messages on the wire

The postcard format of the messages of `proto.rs`, and what `Wire::send` writes. A
message of a chunk stream fits into a frame and is read back as it was sent
(`ChunkMsg.readFrame_send`).
-/

namespace Rds

open Framework Postcard Codec

/-! ### Formats -/

/-- `String`: its bytes are UTF-8. -/
def stringCodec : Codec Bytes := .bytes fun b => (ByteArray.mk b.toArray).validateUTF8

/-- `ChunkHash`. -/
def hashCodec : Codec ChunkHash := .fixed 32

/-- `Chunk`. -/
def chunkCodec : Codec Chunk :=
  (hashCodec.pair (Codec.u64.pair .u32)).iso (fun r => ⟨r.1, r.2.1, r.2.2⟩)
    (fun c => (c.hash, c.offset, c.len)) fun _ => rfl

/-- `SessionLimits`. -/
def limitsCodec : Codec SessionLimits :=
  (Codec.u32.pair (Codec.u32.pair .u8)).iso (fun r => ⟨r.1, r.2.1, r.2.2⟩)
    (fun l => (l.maxChunk, l.maxChunks, l.fetchStreams)) fun _ => rfl

/-- A word of a bitmap. -/
def wordCodec : Codec UInt64 :=
  Codec.u64.iso UInt64.ofNat UInt64.toNat fun _ => UInt64.ofNat_toNat

/-- The fields of an `Offer`. -/
def offerFields : Codec (Bytes × ℕ × ChunkHash × ℕ) :=
  stringCodec.pair (Codec.u64.pair (hashCodec.pair .u32))

/-- The fields of a `ChunkHdr`. -/
def chunkHdrFields : Codec (ℕ × ChunkHash × ℕ) := Codec.u32.pair (hashCodec.pair .u32)

/-- `SessionMsg`. -/
def sessionMsgCodec : Codec SessionMsg :=
  .enum
    [.mk _ (Codec.u16.pair limitsCodec) (fun r => .hello r.1 r.2)
        fun | .hello v l => some (v, l) | _ => none,
      .mk _ (Codec.u16.pair limitsCodec) (fun r => .helloAck r.1 r.2)
        fun | .helloAck v l => some (v, l) | _ => none,
      .mk _ offerFields (fun r => .offer r.1 r.2.1 r.2.2.1 r.2.2.2)
        fun | .offer p s r c => some (p, s, r, c) | _ => none,
      .mk _ stringCodec .request fun | .request p => some p | _ => none,
      .mk _ stringCodec .refuse fun | .refuse r => some r | _ => none,
      .mk _ stringCodec .cancel fun | .cancel r => some r | _ => none,
      .mk _ chunkCodec.list .manifestPart fun | .manifestPart c => some c | _ => none,
      .mk _ wordCodec.list .need fun | .need b => some b | _ => none,
      .mk _ hashCodec .done fun | .done r => some r | _ => none,
      .mk _ Codec.u32.list .chunkSet fun | .chunkSet i => some i | _ => none,
      .mk _ chunkHdrFields (fun r => .chunkHdr r.1 r.2.1 r.2.2)
        fun | .chunkHdr i h l => some (i, h, l) | _ => none,
      .mk _ .nothing (fun _ => .setDone) fun | .setDone => some () | _ => none]

/-- `SyncMsg`. -/
def syncMsgCodec : Codec SyncMsg :=
  .enum
    [.mk _ offerFields (fun r => .offer r.1 r.2.1 r.2.2.1 r.2.2.2)
        fun | .offer p s r c => some (p, s, r, c) | _ => none,
      .mk _ stringCodec .request fun | .request p => some p | _ => none,
      .mk _ stringCodec .refuse fun | .refuse r => some r | _ => none,
      .mk _ chunkCodec.list .manifestPart fun | .manifestPart c => some c | _ => none,
      .mk _ wordCodec.list .need fun | .need b => some b | _ => none,
      .mk _ Codec.u32.list .chunkSet fun | .chunkSet i => some i | _ => none,
      .mk _ chunkHdrFields (fun r => .chunkHdr r.1 r.2.1 r.2.2)
        fun | .chunkHdr i h l => some (i, h, l) | _ => none,
      .mk _ .nothing (fun _ => .setDone) fun | .setDone => some () | _ => none,
      .mk _ hashCodec .done fun | .done r => some r | _ => none,
      .mk _ stringCodec .cancel fun | .cancel r => some r | _ => none,
      .mk _ ((Codec.fixed 16).pair sessionMsgCodec) (fun r => .session r.1 r.2)
        fun | .session t m => some (t, m) | _ => none]

/-! ### Sending and receiving -/

/-- `Wire::send`: the bytes of a message. -/
def Wire.send (self : Wire) (msg : SyncMsg) : Except IoErrorKind Bytes :=
  writeFrame syncMsgCodec (self.frame msg)

/-- A message of a chunk stream, with fields in range and of bounded size. -/
inductive ChunkMsg : SyncMsg → Prop where
  | chunkSet (indices : List ℕ) (hlen : indices.length ≤ chunksetBatch)
      (hi : ∀ i ∈ indices, i < 2 ^ 32) : ChunkMsg (.chunkSet indices)
  | chunkHdr (index : ℕ) (h : ChunkHash) (len : ℕ) (hi : index < 2 ^ 32) (hl : len < 2 ^ 32) :
      ChunkMsg (.chunkHdr index h len)
  | setDone : ChunkMsg .setDone

section ChunkMsg

variable {msg : SyncMsg}

theorem ChunkMsg.valid (h : ChunkMsg msg) (wire : Wire) : syncMsgCodec.Valid (wire.frame msg) := by
  obtain ⟨transferId, limits⟩ := wire
  cases h with
  | chunkSet indices hlen hi =>
    have hlist : u32.list.Valid indices := by
      refine ⟨?_, hi⟩
      show indices.length < 128 ^ 9 * 2
      unfold chunksetBatch at hlen
      omega
    cases transferId with
    | none => exact hlist
    | some id => exact ⟨trivial, hlist⟩
  | chunkHdr index hash len hi hl =>
    cases transferId with
    | none => exact ⟨hi, trivial, hl⟩
    | some id => exact ⟨trivial, hi, trivial, hl⟩
  | setDone =>
    cases transferId with
    | none => trivial
    | some id => exact ⟨trivial, trivial⟩

theorem ChunkMsg.length_le (h : ChunkMsg msg) (wire : Wire) :
    (syncMsgCodec.encode (wire.frame msg)).length ≤ maxMessageLen := by
  have htag : ∀ n, (u32.encode n).length ≤ 5 := length_varintLoop_le 5
  -- the body of the message, which the envelope puts a few bytes before
  have hbody : ∃ tag tag' body, body.length ≤ 10 + 5 * chunksetBatch + 42 ∧
      (syncMsgCodec.encode (wire.frame msg) = u32.encode tag ++ body ∨
        ∃ id : TransferId, syncMsgCodec.encode (wire.frame msg) =
          u32.encode tag ++ (id.val ++ (u32.encode tag' ++ body))) := by
    obtain ⟨transferId, limits⟩ := wire
    cases h with
    | chunkSet indices hlen hi =>
      have hlist := u32.length_encode_list_le htag indices
      have hle : 10 + 5 * indices.length ≤ 10 + 5 * chunksetBatch + 42 := by omega
      cases transferId with
      | none => exact ⟨5, 0, _, hlist.trans hle, Or.inl rfl⟩
      | some id => exact ⟨10, 9, _, hlist.trans hle, Or.inr ⟨id, rfl⟩⟩
    | chunkHdr index hash len hi hl =>
      have hfields : (chunkHdrFields.encode (index, hash, len)).length ≤ 10 + 5 * chunksetBatch + 42 := by
        show (u32.encode index ++ (hash.val ++ u32.encode len)).length ≤ _
        rw [List.length_append, List.length_append]
        have := htag index
        have := htag len
        omega
      cases transferId with
      | none => exact ⟨6, 0, _, hfields, Or.inl rfl⟩
      | some id => exact ⟨10, 10, _, hfields, Or.inr ⟨id, rfl⟩⟩
    | setDone =>
      cases transferId with
      | none => exact ⟨7, 0, [], Nat.zero_le _, Or.inl rfl⟩
      | some id => exact ⟨10, 11, [], Nat.zero_le _, Or.inr ⟨id, rfl⟩⟩
  obtain ⟨tag, tag', body, hlen, henc | ⟨id, henc⟩⟩ := hbody
  · have := htag tag
    rw [henc, List.length_append]
    unfold chunksetBatch at hlen
    unfold maxMessageLen
    omega
  have := htag tag
  have := htag tag'
  rw [henc, List.length_append, List.length_append, List.length_append]
  unfold chunksetBatch at hlen
  unfold maxMessageLen
  omega

/-- **A message of a chunk stream arrives as it was sent.** -/
theorem ChunkMsg.readFrame_send (h : ChunkMsg msg) (wire : Wire) :
    ∃ frame, wire.send msg = .ok frame ∧
      ∀ rest, readFrame syncMsgCodec (frame ++ rest) = .ok (wire.frame msg, rest) := by
  have hsend : wire.send msg = .ok (toBeBytes (syncMsgCodec.encode (wire.frame msg)).length ++
      syncMsgCodec.encode (wire.frame msg)) := by
    unfold Wire.send writeFrame
    rw [if_neg (Nat.not_lt.mpr (h.length_le wire))]
  exact ⟨_, hsend, fun rest => readFrame_writeFrame (h.valid wire) hsend rest⟩

end ChunkMsg

end Rds
