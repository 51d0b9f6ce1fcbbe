import Rds.Framework.CrashFs
import Rds.Framework.Postcard

/-!
# Frames and routed streams

The framing of `rds-net/src/wire.rs`, a length and a postcard message, and the part
of `uni.rs` that hands a stream to the service its first frame names. A stream is
the list of bytes its sender wrote before it finished it.
-/

namespace Rds

open Framework Postcard

/-! ### Frames -/

/-- `MAX_MESSAGE_LEN`. -/
def maxMessageLen : ℕ := 64 * 1024

/-- `u32::to_be_bytes`. -/
def toBeBytes (n : ℕ) : Bytes :=
  [UInt8.ofNat (n / 2 ^ 24), UInt8.ofNat (n / 2 ^ 16), UInt8.ofNat (n / 2 ^ 8), UInt8.ofNat n]

/-- `u32::from_be_bytes`. -/
def fromBeBytes (b : Bytes) : ℕ := b.foldl (fun n d => 256 * n + d.toNat) 0

theorem fromBeBytes_toBeBytes {n : ℕ} (h : n < 2 ^ 32) : fromBeBytes (toBeBytes n) = n := by
  show 256 * (256 * (256 * (256 * 0 + n / 2 ^ 24 % 256) + n / 2 ^ 16 % 256) + n / 2 ^ 8 % 256)
    + n % 256 = n
  omega

variable {α : Type}

/-- `write_frame`: the bytes of a frame. -/
def writeFrame (c : Codec α) (msg : α) : Except IoErrorKind Bytes :=
  if (c.encode msg).length > maxMessageLen then .error .invalidData
  else .ok (toBeBytes (c.encode msg).length ++ c.encode msg)

/-- The length a frame announces. -/
def announcedLen (stream : Bytes) : ℕ := fromBeBytes (stream.take 4)

/-- The size of the buffer `read_frame` allocates for the body. -/
def frameBuffer (stream : Bytes) : ℕ :=
  if stream.length < 4 ∨ announcedLen stream > maxMessageLen then 0 else announcedLen stream

/-- `read_frame`: take a frame off a stream. -/
def readFrame (c : Codec α) (stream : Bytes) : Except IoErrorKind (α × Bytes) :=
  if stream.length < 4 then .error .unexpectedEof
  else if announcedLen stream > maxMessageLen then .error .invalidData
  else if (stream.drop 4).length < announcedLen stream then .error .unexpectedEof
  else match c.decode ((stream.drop 4).take (announcedLen stream)) with
    | some (msg, []) => .ok (msg, (stream.drop 4).drop (announcedLen stream))
    | _ => .error .invalidData

theorem frameBuffer_le (stream : Bytes) : frameBuffer stream ≤ maxMessageLen := by
  unfold frameBuffer
  split
  · exact Nat.zero_le _
  next h => exact Nat.not_lt.mp (not_or.mp h).2

theorem readFrame_writeFrame {c : Codec α} {msg : α} (h : c.Valid msg) {frame : Bytes}
    (hw : writeFrame c msg = .ok frame) (rest : Bytes) :
    readFrame c (frame ++ rest) = .ok (msg, rest) := by
  unfold writeFrame at hw
  split at hw
  · cases hw
  next hlen =>
  cases hw
  have hannounced : announcedLen (toBeBytes (c.encode msg).length ++ c.encode msg ++ rest) =
      (c.encode msg).length := by
    exact fromBeBytes_toBeBytes (by unfold maxMessageLen at hlen; omega)
  have hdrop : (toBeBytes (c.encode msg).length ++ c.encode msg ++ rest).drop 4 = c.encode msg ++ rest := rfl
  have hbody : c.decode (c.encode msg) = some (msg, []) := by
    have := c.decode_encode msg [] h
    rwa [List.append_nil] at this
  unfold readFrame
  rw [hannounced, hdrop, if_neg, if_neg hlen, if_neg, List.take_left, List.drop_left, hbody]
  · rw [List.length_append]
    omega
  · rw [List.append_assoc, List.length_append]
    show ¬ 4 + _ < 4
    omega

theorem length_of_readFrame {c : Codec α} {stream rest : Bytes} {msg : α}
    (h : readFrame c stream = .ok (msg, rest)) : rest.length + 4 ≤ stream.length := by
  unfold readFrame at h
  split_ifs at h with h4 hmax hbody
  split at h
  · cases h
    rw [List.length_drop, List.length_drop]
    omega
  · cases h

/-! ### Routed streams -/

/-- `UniHello`: the service a stream belongs to. -/
inductive UniHello where
  | desktop
  | sync
  | audio
  | syncTransfer (id : { bs : Bytes // bs.length = 16 })
  | syncTransferV2 (id : { bs : Bytes // bs.length = 16 })
  | desktopFrames (id : { bs : Bytes // bs.length = 16 })
  deriving DecidableEq

/-- The postcard format of `UniHello`. -/
def uniHelloCodec : Codec UniHello :=
  .enum
    [.mk Unit .nothing (fun _ => .desktop) fun | .desktop => some () | _ => none,
      .mk Unit .nothing (fun _ => .sync) fun | .sync => some () | _ => none,
      .mk Unit .nothing (fun _ => .audio) fun | .audio => some () | _ => none,
      .mk _ (.fixed 16) .syncTransfer fun | .syncTransfer id => some id | _ => none,
      .mk _ (.fixed 16) .syncTransferV2 fun | .syncTransferV2 id => some id | _ => none,
      .mk _ (.fixed 16) .desktopFrames fun | .desktopFrames id => some id | _ => none]

theorem uniHelloCodec_valid (kind : UniHello) : uniHelloCodec.Valid kind := by
  cases kind <;> trivial

theorem length_uniHelloCodec_le (kind : UniHello) : (uniHelloCodec.encode kind).length ≤ maxMessageLen := by
  have hid : ∀ (n : ℕ) (id : { bs : Bytes // bs.length = 16 }),
      (Codec.u32.encode n ++ id.val).length ≤ maxMessageLen := by
    intro n id
    have htag : (Codec.u32.encode n).length ≤ 5 := length_varintLoop_le 5 n
    rw [List.length_append]
    unfold maxMessageLen
    omega
  cases kind with
  | desktop => decide
  | sync => decide
  | audio => decide
  | syncTransfer id => exact hid 3 id
  | syncTransferV2 id => exact hid 4 id
  | desktopFrames id => exact hid 5 id

/-- `route`: a stream reaches the consumer registered for the kind it names; others
are dropped. -/
def routed (kind : UniHello) (stream : Bytes) : Option Bytes :=
  match readFrame uniHelloCodec stream with
  | .ok (k, rest) => if k = kind then some rest else none
  | .error _ => none

end Rds
