import Rds.Framework.OrderedMap
import Rds.Sync.RelPath

/-!
# Directory snapshots

The canonical directory snapshot of `rds-sync/src/directory.rs`: entries,
`DirectoryManifest::from_entries`, `verify` and `diff` with its rename pairing.

A manifest is accepted by `verify` exactly when it is `Verified`
(`verify_eq_ok_iff`), and everything else in the development reasons from the
fields of that structure: valid entries, strictly increasing paths, a bounded
number of entries and of metadata bytes, every parent present as a directory,
and a root that is the digest of the entries.

Postcard and BLAKE3 are third-party code; `Externals` carries them.
-/

namespace Rds

open Framework UnixPath

/-! ### Limits -/

/-- Maximum entries accepted in one directory snapshot. -/
def maxDirectoryEntries : ℕ := 2 ^ 20

/-- Maximum symlink target bytes retained in a snapshot. -/
def maxSymlinkTargetBytes : ℕ := 4096

/-- Maximum bytes in one canonical relative path. -/
def maxDirectoryPathBytes : ℕ := maxRelPath

/-- Aggregate path and symlink target byte budget for a snapshot. -/
def maxDirectoryDataBytes : ℕ := 64 * 1024 * 1024

/-- Maximum directory nesting. -/
def maxDirectoryDepth : ℕ := 64

/-! ### Entries -/

/-- `EntryKind`. -/
inductive EntryKind where
  | file
  | directory
  | symlink
  deriving DecidableEq

/-- `DirectoryEntry`: content identity and metadata of one path. -/
structure DirectoryEntry where
  /-- Canonical relative path, with `/` separators. -/
  path : Bytes
  kind : EntryKind
  /-- File size; zero for directories and symlinks. -/
  size : ℕ
  /-- Verified file content root; absent for directories and symlinks. -/
  content : Option ChunkHash
  /-- Raw symlink target bytes. -/
  symlinkTarget : Option Bytes
  deriving DecidableEq

/-- `EntryIdentity`: an entry without its path. -/
structure EntryIdentity where
  kind : EntryKind
  size : ℕ
  content : Option ChunkHash
  symlinkTarget : Option Bytes
  deriving DecidableEq

namespace DirectoryEntry

/-- `DirectoryEntry::identity`. -/
def identity (self : DirectoryEntry) : EntryIdentity where
  kind := self.kind
  size := self.size
  content := self.content
  symlinkTarget := self.symlinkTarget

/-- `DirectoryEntry::validate`. -/
def validate (self : DirectoryEntry) : Except SyncError Unit :=
  if self.path = [] ∨ self.path.length > maxDirectoryPathBytes then
    throw (.manifest [.text "directory entry path exceeds the configured limit"])
  else do
    let normalized ← checkRelPath self.path
    if normalized ≠ self.path ∨ backslash ∈ self.path then
      throw (.manifest [.text "directory entry path is not canonical: ", .debug self.path])
    else
      match self.kind with
      | .file =>
        if self.content.isNone ∨ self.symlinkTarget.isSome then
          throw (.manifest [.text "file entry identity is incomplete"])
        else .ok ()
      | .directory =>
        if self.size ≠ 0 ∨ self.content.isSome ∨ self.symlinkTarget.isSome then
          throw (.manifest [.text "directory entry carries file data"])
        else .ok ()
      | .symlink =>
        if self.size ≠ 0 ∨ self.content.isSome ∨
            self.symlinkTarget.all (fun t => t = [] ∨ t.length > maxSymlinkTargetBytes) then
          throw (.manifest [.text "symlink entry target is invalid"])
        else .ok ()

/-- The bytes an entry counts against the metadata budget. -/
def dataBytes (self : DirectoryEntry) : ℕ :=
  self.path.length + (self.symlinkTarget.map List.length).getD 0

end DirectoryEntry

theorem DirectoryEntry.eq_of_path_of_identity {a b : DirectoryEntry} (hp : a.path = b.path)
    (hi : a.identity = b.identity) : a = b := by
  cases a
  cases b
  simp_all [DirectoryEntry.identity]

/-! ### Validation of a list of entries -/

/-- The running byte count of `validate_entries` after one more entry. -/
def addDataBytes (bytes : ℕ) (entry : DirectoryEntry) : ℕ :=
  saturatingAdd (saturatingAdd bytes entry.path.length)
    ((entry.symlinkTarget.map List.length).getD 0)

/-- The loop of `validate_entries`, from a running byte count. -/
def validateEntriesFrom (bytes : ℕ) : List DirectoryEntry → Except SyncError Unit
  | [] => .ok ()
  | entry :: entries => do
    entry.validate
    if addDataBytes bytes entry > maxDirectoryDataBytes then
      throw (.manifest [.text "directory metadata byte budget exceeded"])
    else validateEntriesFrom (addDataBytes bytes entry) entries

/-- `validate_entries`. -/
def validateEntries (entries : List DirectoryEntry) : Except SyncError Unit :=
  if entries.length > maxDirectoryEntries then
    throw (.manifest [.text "directory manifest too large"])
  else validateEntriesFrom 0 entries

/-- Binary search by path. It is only used on strictly increasing paths, where
the search finds the one entry with that path. -/
def searchPath (entries : List DirectoryEntry) (path : Bytes) : Option DirectoryEntry :=
  entries.find? fun candidate => candidate.path = path

/-- The parent check in the loop of `validate_hierarchy`. -/
def validateParent (entries : List DirectoryEntry) (path : Bytes) : Except SyncError Unit :=
  match rsplitOnce slash path with
  | none => .ok ()
  | some (parent, _) =>
    match searchPath entries parent with
    | none => throw (.manifest [.text "directory entry parent is absent"])
    | some found =>
      if found.kind ≠ .directory then
        throw (.manifest [.text "directory entry parent is not a directory"])
      else .ok ()

/-- One iteration of `validate_hierarchy`: the parent is present as a directory,
and the nesting is bounded. -/
def validatePlacement (entries : List DirectoryEntry) (entry : DirectoryEntry) :
    Except SyncError Unit := do
  validateParent entries entry.path
  if (entry.path.splitOn slash).length > maxDirectoryDepth then
    throw (.manifest [.text "directory nesting limit exceeded"])
  else .ok ()

/-- `validate_hierarchy`. -/
def validateHierarchy (entries : List DirectoryEntry) : Except SyncError Unit :=
  entries.forM (validatePlacement entries)

/-! ### Digests -/

/-- Third-party code the snapshots rest on: `postcard::to_stdvec` on an entry,
and BLAKE3. -/
structure Externals where
  postcard : DirectoryEntry → Option Bytes
  blake3 : Bytes → ChunkHash

/-- `u64::to_le_bytes`. -/
def leBytes64 (n : ℕ) : Bytes := (List.range 8).map fun i => UInt8.ofNat (n / 256 ^ i)

/-- Feed one entry to the hasher of `digest_entries`. -/
def digestEntry (ext : Externals) (hasher : Bytes) (entry : DirectoryEntry) :
    Except SyncError Bytes :=
  match ext.postcard entry with
  | none => throw (.manifest [.text "directory entry cannot be encoded"])
  | some bytes => .ok (hasher ++ leBytes64 bytes.length ++ bytes)

/-- `digest_entries`. -/
def digestEntries (ext : Externals) (entries : List DirectoryEntry) :
    Except SyncError ChunkHash := do
  let hasher ← entries.foldlM (digestEntry ext) []
  .ok (ext.blake3 hasher)

/-! ### Manifests -/

/-- `DirectoryManifest`: a canonical, bounded directory snapshot. -/
structure DirectoryManifest where
  root : ChunkHash
  entries : List DirectoryEntry
  deriving DecidableEq

/-- `slice::windows(2)`. -/
def windows2 {α : Type} (l : List α) : List (α × α) := l.zip l.tail

namespace DirectoryManifest

/-- `DirectoryManifest::from_entries`. -/
def fromEntries (ext : Externals) (entries : List DirectoryEntry) :
    Except SyncError DirectoryManifest :=
  if entries.length > maxDirectoryEntries then
    throw (.manifest [.text "directory manifest too large"])
  else do
    validateEntries entries
    let entries := entries.insertionSort fun a b => a.path ≤ b.path
    if (windows2 entries).any fun pair => pair.1.path = pair.2.path then
      throw (.manifest [.text "directory manifest contains duplicate paths"])
    else
      validateHierarchy entries
      let root ← digestEntries ext entries
      .ok ⟨root, entries⟩

/-- `DirectoryManifest::verify`. -/
def verify (ext : Externals) (self : DirectoryManifest) : Except SyncError Unit := do
  validateEntries self.entries
  if (windows2 self.entries).any fun pair => pair.2.path ≤ pair.1.path then
    throw (.manifest [.text "directory manifest is not canonical"])
  else
    let digest ← digestEntries ext self.entries
    if digest ≠ self.root then
      throw (.manifest [.text "directory manifest is not canonical"])
    else validateHierarchy self.entries

/-- `entry_map`: the entries of a manifest by path. -/
def entryMap (self : DirectoryManifest) : Std.ExtTreeMap Bytes DirectoryEntry compare :=
  indexBy DirectoryEntry.path self.entries

end DirectoryManifest

/-! ### Renames and diffs -/

/-- `Rename`: a destination-only entry `src` and a new entry `dst` with the same
identity. -/
structure Rename where
  src : DirectoryEntry
  dst : DirectoryEntry
  deriving DecidableEq

/-- `DirectoryDiff`. -/
structure DirectoryDiff where
  added : List DirectoryEntry
  removed : List DirectoryEntry
  modified : List DirectoryEntry
  unchanged : List DirectoryEntry
  renamed : List Rename
  deriving DecidableEq

/-- Push one removed entry on the stack of its identity. Empty metadata does not
establish the identity of a directory's subtree, so directories are skipped. -/
def pushRemoved (m : EntryIdentity → List ℕ) (e : DirectoryEntry × ℕ) : EntryIdentity → List ℕ :=
  if e.1.kind = .directory then m
  else Function.update m e.1.identity (e.2 :: m e.1.identity)

/-- The stacks of removed indices by identity; the index pushed last is in
front. -/
def removedByIdentity (removed : List DirectoryEntry) : EntryIdentity → List ℕ :=
  removed.zipIdx.foldl pushRemoved fun _ => []

/-- The state of the pairing loop of `rename_candidates`. -/
structure Pairing where
  byIdentity : EntryIdentity → List ℕ
  used : List ℕ
  renamed : List Rename

/-- One iteration of the pairing loop: pop an index with the identity of the
added entry. -/
def pairEntry (removed : List DirectoryEntry) (st : Pairing) (entry : DirectoryEntry) : Pairing :=
  match st.byIdentity entry.identity with
  | [] => st
  | index :: rest =>
    match removed[index]? with
    -- indices come from `removed` itself
    | none => st
    | some e =>
      { byIdentity := Function.update st.byIdentity entry.identity rest
        used := index :: st.used
        renamed := st.renamed ++ [⟨e, entry⟩] }

/-- The pairing loop of `rename_candidates`. -/
def pairEntries (added removed : List DirectoryEntry) : Pairing :=
  added.foldl (pairEntry removed) ⟨removedByIdentity removed, [], []⟩

/-- `rename_candidates`: the remaining added and removed entries, and the
renames by target path. -/
def renameCandidates (added removed : List DirectoryEntry) :
    List DirectoryEntry × List DirectoryEntry × List Rename :=
  let st := pairEntries added removed
  (added.filter fun e => e.path ∉ st.renamed.map (·.dst.path),
    (removed.zipIdx.filter fun e => e.2 ∉ st.used).map Prod.fst,
    st.renamed.insertionSort fun a b => a.dst.path ≤ b.dst.path)

/-- How `diff` classifies an entry of the right-hand side. -/
inductive Change where
  | added
  | unchanged
  | modified
  deriving DecidableEq

/-- The `match` in the loop of `diff`. -/
def classify (left : Std.ExtTreeMap Bytes DirectoryEntry compare) (entry : DirectoryEntry) :
    Change :=
  match left[entry.path]? with
  | none => .added
  | some previous => if previous.identity = entry.identity then .unchanged else .modified

/-- `DirectoryManifest::diff`. -/
def DirectoryManifest.diff (ext : Externals) (self other : DirectoryManifest) :
    Except SyncError DirectoryDiff := do
  self.verify ext
  other.verify ext
  let left := self.entryMap
  let right := other.entryMap
  let added := (mapValues right).filter fun e => classify left e = .added
  let unchanged := (mapValues right).filter fun e => classify left e = .unchanged
  let modified := (mapValues right).filter fun e => classify left e = .modified
  let removed := (mapValues left).filter fun e => right[e.path]? = none
  let (added, removed, renamed) := renameCandidates added removed
  .ok { added, removed, modified, unchanged, renamed }

end Rds
