import Rds.Framework.CrashFs
import Rds.Framework.Fallible

/-!
# The content model of `rds-sync`

Digests, chunks and file manifests (`rds-sync/src/lib.rs`), and the error type
every fallible function of the crate returns. BLAKE3 is not part of the
repository: functions that hash take it as a parameter `blake3 : Bytes → ChunkHash`,
and an incremental hasher is the byte string it has been fed.
-/

namespace Rds

open Framework

/-! ### Errors -/

/-- One piece of a formatted message: a literal, a `{:?}` argument, a string that is
shown as it is, or a number. -/
inductive Piece where
  | text (s : String)
  | debug (s : Bytes)
  | shown (s : Bytes)
  | num (n : ℕ)
  deriving DecidableEq

/-- `SyncError`: an I/O error, or a malformed manifest with its message. -/
inductive SyncError where
  | io (kind : IoErrorKind)
  | manifest (message : List Piece)
  deriving DecidableEq

/-! ### Digests, chunks and manifests -/

/-- A BLAKE3 digest, `[u8; 32]`. -/
abbrev ChunkHash := { bs : Bytes // bs.length = 32 }

/-- The digest of the one-byte file `02`. -/
def contentTwo : ChunkHash :=
  ⟨[0xab, 0x13, 0xbe, 0xdf, 0x42, 0xe8, 0x4b, 0xae, 0x0f, 0x7c, 0x62, 0xc7,
    0xdd, 0x6a, 0x8a, 0xda, 0x57, 0x1e, 0x88, 0x29, 0xbe, 0xd6, 0xea, 0x55,
    0x82, 0x17, 0xf0, 0x36, 0x1b, 0x5e, 0x25, 0xd0], rfl⟩

/-- The digest of the one-byte file `03`. -/
def contentThree : ChunkHash :=
  ⟨[0xe1, 0xe0, 0xe8, 0x1d, 0x6e, 0xa3, 0x9b, 0x0c, 0xf8, 0xb8, 0x6f, 0xfd,
    0x44, 0x09, 0x21, 0x01, 0x1f, 0x57, 0x40, 0x0c, 0xbc, 0x3f, 0x76, 0xa8,
    0xa1, 0x71, 0x90, 0x6a, 0x9b, 0x8d, 0x75, 0x05], rfl⟩

/-- Default chunk sizing: 16 KiB minimum. -/
def minChunk : ℕ := 16 * 1024

/-- Default chunk sizing: 64 KiB on average. -/
def avgChunk : ℕ := 64 * 1024

/-- Default chunk sizing: 256 KiB at most. -/
def maxChunk : ℕ := 256 * 1024

/-- One content-addressed chunk. -/
structure Chunk where
  hash : ChunkHash
  /-- Byte offset within the file, a `u64`. -/
  offset : ℕ
  /-- Length in bytes, a `u32`. -/
  len : ℕ
  deriving DecidableEq

/-- A file as a list of content-addressed chunks. -/
structure Manifest where
  /-- Total length in bytes, a `u64`. -/
  size : ℕ
  /-- Digest of the whole file. -/
  root : ChunkHash
  chunks : List Chunk
  deriving DecidableEq

/-! ### Machine arithmetic -/

/-- The largest `usize` of the supported 64-bit targets. -/
def usizeMax : ℕ := 2 ^ 64 - 1

/-- `usize::saturating_add`. -/
def saturatingAdd (a b : ℕ) : ℕ := min (a + b) usizeMax

theorem saturatingAdd_le_iff {a b m : ℕ} (hm : m < usizeMax) :
    saturatingAdd a b ≤ m ↔ a + b ≤ m := by
  unfold saturatingAdd
  omega

end Rds
