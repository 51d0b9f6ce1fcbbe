import Rds.Sync.Confined
import Rds.Sync.Proto

/-!
# The receive journal

Resumable receive state of `rds-sync/src/journal.rs`: chunks are verified and
kept as part files under the private state directory, seeded from the old
destination where possible, and assembled into a staging file that atomically
replaces the destination.

`Journal::open_cancellable`, `store` and `assemble_cancellable` are programs of
system calls (`Sys`), so that an error or the end of the process can strike at
every call. `stop` is answered by the world. The receive locks are taken but not
modelled further: a world has one process. Log lines are left out.

BLAKE3, postcard and the FastCDC cutter are third-party code; `JournalExternals`
carries them.
-/

namespace Rds

open Framework UnixPath Directory

/-! ### Names and metadata -/

/-- `Meta`: advisory metadata of a journal directory. -/
structure Meta where
  relPath : Bytes
  size : ℕ
  root : ChunkHash
  deriving DecidableEq

/-- Third-party code the journal rests on: BLAKE3, `postcard::to_allocvec` and
`postcard::from_bytes` on `Meta`, and the pieces `StreamCDC` cuts. -/
structure JournalExternals where
  blake3 : Bytes → ChunkHash
  encodeMeta : Meta → Option Bytes
  decodeMetaBody : Bytes → Option Meta
  cut : Bytes → List Bytes

/-- `ASSEMBLY`. -/
def assembly : Bytes := utf8 "assembly"

/-- The directory of part files. -/
def partsName : Bytes := utf8 "parts"

/-- The metadata file. -/
def metaName : Bytes := utf8 "meta"

/-- The receive lock. -/
def receiveLock : Bytes := utf8 "receive.lock"

/-- `MAX_COLLECTION_ENTRIES`. -/
def maxCollectionEntries : ℕ := 4096

/-- `META_LIMIT`. -/
def metaLimit : ℕ := 8 * 1024

/-- A lowercase hexadecimal digit. -/
def hexDigit (n : ℕ) : UInt8 := UInt8.ofNat (if n < 10 then 48 + n else 87 + n)

/-- `hex`: the 64 lowercase digits of a digest. -/
def hex (hash : ChunkHash) : Bytes :=
  hash.val.flatMap fun b => [hexDigit (b.toNat / 16), hexDigit (b.toNat % 16)]

/-- `u8::is_ascii_hexdigit`. -/
def isHexDigit (b : UInt8) : Bool :=
  (48 ≤ b.toNat && b.toNat ≤ 57) || (97 ≤ b.toNat && b.toNat ≤ 102) ||
    (65 ≤ b.toNat && b.toNat ≤ 70)

/-- `is_content_id`. -/
def isContentId (name : Bytes) : Bool := name.length = 64 && name.all isHexDigit

/-- The byte `-`. -/
def hyphen : UInt8 := 45

/-- `scoped_id`: the name binds both the content and the destination. -/
def scopedId (ext : JournalExternals) (rel : Bytes) (root : ChunkHash) : Bytes :=
  utf8 "v2-" ++ hex root ++ hyphen :: hex (ext.blake3 rel)

/-- `is_journal_id`. Names that are not UTF-8 are no journal ids either. -/
def isJournalId (name : Bytes) : Bool :=
  isContentId name ||
    (name.take 3 = utf8 "v2-" &&
      hyphen ∈ name.drop 3 &&
      isContentId ((name.drop 3).takeWhile (· ≠ hyphen)) &&
      isContentId (((name.drop 3).dropWhile (· ≠ hyphen)).drop 1))

/-- `decode_meta`: the body with its BLAKE3 trailer verified. -/
def decodeMeta (ext : JournalExternals) (body : Bytes) : Option Meta :=
  if body.length < 32 then none
  else
    let data := body.take (body.length - 32)
    if (ext.blake3 data).val ≠ body.drop (body.length - 32) then none
    else ext.decodeMetaBody data

/-- `check_stop`. -/
def checkStop : Sys Unit := do
  if ← Sys.askStop then Prog.fail .interrupted else pure ()

/-- `?` on an I/O result in a function that returns `SyncError`. -/
def liftIo {α : Type} (m : Sys α) : Prog World SyncError α := Prog.mapError .io m

/-- `read_meta`. -/
def readMeta (ext : JournalExternals) (dir : FsPath) : Sys (Option Meta) := do
  match ← Prog.attempt (readState dir metaName metaLimit) with
  | .ok body => pure (decodeMeta ext body)
  | .error .notFound => pure none
  | .error e => Prog.fail e

/-- `write_meta`. -/
def writeMeta (ext : JournalExternals) (dir : FsPath) (info : Meta) :
    Prog World SyncError Unit :=
  match ext.encodeMeta info with
  | none => Prog.fail (.manifest [.text "meta encode"])
  | some body => liftIo (writeState dir metaName (body ++ (ext.blake3 body).val))

/-- `remove_if_present`. -/
def removeIfPresent (dir : FsPath) (name : Bytes) (directory : Bool) : Sys Unit := do
  match ← Prog.attempt (Directory.unlink dir name directory) with
  | .ok () => pure ()
  | .error .notFound => pure ()
  | .error e => Prog.fail e

/-! ### Selecting and collecting journals -/

/-- The legacy half of `select_journal`: reusable only when its verified metadata
proves this association. -/
def selectLegacy (ext : JournalExternals) (state : FsPath) (rel : Bytes) (manifest : Manifest) :
    Sys (Bytes × Option FsPath) := do
  let name := scopedId ext rel manifest.root
  let legacy := hex manifest.root
  match ← Prog.attempt (child state legacy false) with
  | .error _ => pure (name, none)
  | .ok dir =>
    match ← Prog.attempt (readMeta ext dir) with
    | .ok (some info) =>
      if info.relPath = rel ∧ info.root = manifest.root ∧ info.size = manifest.size then
        pure (legacy, some dir)
      else pure (name, none)
    | _ => pure (name, none)

/-- `select_journal`. -/
def selectJournal (ext : JournalExternals) (state : FsPath) (rel : Bytes) (manifest : Manifest) :
    Sys (Bytes × Option FsPath) := do
  let name := scopedId ext rel manifest.root
  match ← Prog.attempt (child state name false) with
  | .ok dir => pure (name, some dir)
  | .error .notFound => selectLegacy ext state rel manifest
  | .error e => Prog.fail e

/-- What a visit to a directory entry returns: its result, and what is left of the
budget. The budget is spent whether or not the visit fails. -/
abbrev Visit := Except IoErrorKind Unit × ℕ

/-- `CollectionBudget::visit`. -/
def visitBudget (budget : ℕ) : Sys ℕ := do
  checkStop
  if budget = 0 then Prog.fail .wouldBlock else pure (budget - 1)

/-- The loop of `Directory::visit_children`; an error of the callback ends it. -/
def visitNames (visit : ℕ → Bytes → Sys Visit) : ℕ → List Bytes → Sys Visit
  | budget, [] => pure (.ok (), budget)
  | budget, name :: names => do
    match ← Prog.attempt Sys.probe with
    | .error e => pure (.error e, budget)
    | .ok () =>
      if name = dot ∨ name = dotDot then visitNames visit budget names
      else
        match ← visit budget name with
        | (.ok (), budget) => visitNames visit budget names
        | (.error e, budget) => pure (.error e, budget)

/-- `Directory::visit_children`. -/
def visitChildren (visit : ℕ → Bytes → Sys Visit) (budget : ℕ) : Sys Visit := do
  match ← Prog.attempt Sys.probe with
  | .error e => pure (.error e, budget)
  | .ok () => do
    let names ← Sys.nextListing
    visitNames visit budget names

/-- The visit of one part in `collect_journal`. -/
def collectPart (parts : FsPath) (budget : ℕ) (part : Bytes) : Sys Visit := do
  match ← Prog.attempt (visitBudget budget) with
  | .error e => pure (.error e, budget)
  | .ok budget =>
    if isContentId part ∨ part = pending then do
      let result ← Prog.attempt (discardOwned parts part)
      pure (result, budget)
    else pure (.ok (), budget)

/-- The end of `collect_journal`, after its parts. -/
def collectRest (entry state : FsPath) (name : Bytes) (budget : ℕ) : Sys Visit := do
  let result ← Prog.attempt (do
    checkStop
    discardOwned entry pending
    discardOwned entry metaName
    Directory.sync entry
    removeIfPresent state name true
    Directory.sync state)
  pure (result, budget)

/-- `collect_journal`. -/
def collectJournal (entry state : FsPath) (name : Bytes) (budget : ℕ) : Sys Visit := do
  match ← Prog.attempt checkStop with
  | .error e => pure (.error e, budget)
  | .ok () =>
    match ← Prog.attempt (child entry partsName false) with
    | .error _ => collectRest entry state name budget
    | .ok parts =>
      match ← visitChildren (collectPart parts) budget with
      | (.error e, budget) => pure (.error e, budget)
      | (.ok (), budget) =>
        match ← Prog.attempt (do
          checkStop
          Directory.sync parts
          removeIfPresent entry partsName true) with
        | .error e => pure (.error e, budget)
        | .ok () => collectRest entry state name budget

/-- The visit of one sibling in `collect_superseded`: only a journal whose
verified metadata binds this destination to other content is collected, and only
running out of budget or time ends the walk. -/
def collectSibling (ext : JournalExternals) (state : FsPath) (rel own : Bytes)
    (currentRoot : ChunkHash) (budget : ℕ) (name : Bytes) : Sys Visit := do
  match ← Prog.attempt (visitBudget budget) with
  | .error e => pure (.error e, budget)
  | .ok budget =>
    if name = own ∨ !isJournalId name then pure (.ok (), budget)
    else
      match ← Prog.attempt (do
        let entry ← child state name false
        let info ← readMeta ext entry
        pure (entry, info)) with
      | .ok (entry, some info) =>
        if info.relPath = rel ∧ info.root ≠ currentRoot ∧
            (hex info.root = name ∨ scopedId ext rel info.root = name) then
          match ← collectJournal entry state name budget with
          | (.ok (), budget) => pure (.ok (), budget)
          | (.error e, budget) =>
            if e = .interrupted ∨ (e = .wouldBlock ∧ budget = 0) then pure (.error e, budget)
            else pure (.ok (), budget)
        else pure (.ok (), budget)
      | _ => pure (.ok (), budget)

/-- `collect_superseded`: best effort, only an interruption is returned. -/
def collectSuperseded (ext : JournalExternals) (state : FsPath) (rel own : Bytes)
    (currentRoot : ChunkHash) : Sys Unit := do
  match ← visitChildren (collectSibling ext state rel own currentRoot) maxCollectionEntries with
  | (.ok (), _) => pure ()
  | (.error e, _) => if e = .interrupted then Prog.fail e else pure ()

/-! ### The journal -/

/-- `Journal`, without its locks. -/
structure Journal where
  state : FsPath
  journalId : Bytes
  dir : FsPath
  parts : FsPath
  destParent : FsPath
  destState : FsPath
  destName : Bytes
  destPath : FsPath
  manifest : Manifest
  have_ : Finset ℕ
  fetched : ℕ
  deriving DecidableEq

namespace Journal

/-- One iteration of `Journal::rescan`. -/
def rescanChunk (ext : JournalExternals) (self : Journal) (entry : Chunk × ℕ) :
    Prog World SyncError Journal := do
  liftIo checkStop
  let c := entry.1
  match ← Prog.attempt (liftIo (readState self.parts (hex c.hash) c.len)) with
  | .ok data =>
    if data.length = c.len ∧ ext.blake3 data = c.hash then
      pure { self with have_ := insert entry.2 self.have_ }
    else do
      liftIo (Directory.unlink self.parts (hex c.hash) false)
      pure self
  | .error (.io .notFound) => pure self
  | .error e => Prog.fail e

/-- `Journal::rescan`. -/
def rescan (ext : JournalExternals) (self : Journal) : Prog World SyncError Journal :=
  self.manifest.chunks.zipIdx.foldlM (rescanChunk ext) { self with have_ := ∅ }

/-- The index of wanted chunks: `HashMap<(hash, len), Vec<index>>`. -/
abbrev Wanted := List ((ChunkHash × ℕ) × ℕ)

/-- One iteration of the first loop of `seed_from_destination`. -/
def wantChunk (self : Journal) (wanted : Wanted) (entry : Chunk × ℕ) :
    Prog World SyncError Wanted := do
  liftIo checkStop
  if entry.2 ∈ self.have_ then pure wanted
  else pure (wanted ++ [((entry.1.hash, entry.1.len), entry.2)])

/-- The second loop of `seed_from_destination`, over the pieces of the old file. -/
def seedLoop (ext : JournalExternals) : Journal → Wanted → List Bytes →
    Prog World SyncError Journal
  | self, _, [] => pure self
  | self, wanted, chunk :: chunks => do
    let read ← Prog.attempt (liftIo Sys.probe)
    liftIo checkStop
    Prog.ofExcept read
    let key := (ext.blake3 chunk, chunk.length)
    let indices := (wanted.filter fun e => e.1 = key).map Prod.snd
    if indices = [] then seedLoop ext self wanted chunks
    else do
      liftIo (writeState self.parts (hex key.1) chunk)
      let self := { self with have_ := self.have_ ∪ indices.toFinset }
      let wanted := wanted.filter fun e => e.1 ≠ key
      if wanted = [] then pure self else seedLoop ext self wanted chunks

/-- `Journal::seed_from_destination`. -/
def seedFromDestination (ext : JournalExternals) (self : Journal) (file : ℕ) :
    Prog World SyncError Journal := do
  let wanted ← self.manifest.chunks.zipIdx.foldlM self.wantChunk []
  if wanted = [] then pure self
  else do
    let data ← liftIo (Sys.readAll file)
    seedLoop ext self wanted (ext.cut data)

/-- The destination as it is now, if it is a regular file. -/
def openExisting (destParent : FsPath) (destName : Bytes) : Sys (Option ℕ) := do
  match ← Prog.attempt (readFile destParent destName) with
  | .ok file => pure (some file)
  | .error .notFound => pure none
  | .error e => Prog.fail e

/-- The second receive lock, when the destination's parent has its own state. -/
def lockParent (state destState : FsPath) : Sys Unit := do
  if ← sameInode state destState then pure () else lock destState receiveLock

/-- The directory of the journal: the selected one, or a new one. -/
def journalDir (state : FsPath) : Bytes × Option FsPath → Sys FsPath
  | (_, some dir) => pure dir
  | (name, none) => child state name true

/-- Seed the journal from the old destination, if there is one. -/
def seedExisting (ext : JournalExternals) (self : Journal) :
    Option ℕ → Prog World SyncError Journal
  | some file => self.seedFromDestination ext file
  | none => pure self

/-- `Journal::open_cancellable`, once the directories are pinned and locked. -/
def openPinned (ext : JournalExternals) (destDir : FsPath) (rel : Bytes) (manifest : Manifest)
    (state destParent : FsPath) (destName : Bytes) (destState : FsPath) :
    Prog World SyncError Journal := do
  liftIo checkStop
  liftIo (discardOwned destState assembly)
  let selected ← liftIo (selectJournal ext state rel manifest)
  liftIo (collectSuperseded ext state rel selected.1 manifest.root)
  liftIo checkStop
  let existing ← liftIo (openExisting destParent destName)
  let dir ← liftIo (journalDir state selected)
  let parts ← liftIo (child dir partsName true)
  liftIo (discardOwned parts pending)
  writeMeta ext dir ⟨rel, manifest.size, manifest.root⟩
  let journal ← rescan ext
    { state, journalId := selected.1, dir, parts, destParent, destState, destName,
      destPath := destDir ++ realParts rel, manifest, have_ := ∅, fetched := 0 }
  let journal ← journal.seedExisting ext existing
  liftIo checkStop
  pure journal

/-- `Journal::open_cancellable`. -/
def openCancellable (ext : JournalExternals) (destDir : FsPath) (relPath : Bytes)
    (manifest : Manifest) : Prog World SyncError Journal := do
  liftIo checkStop
  Prog.ofExcept (checkManifest manifest)
  let rel ← Prog.ofExcept (checkRelPath relPath)
  liftIo checkStop
  let root ← liftIo (openRoot destDir true)
  let state ← liftIo (child root stateDir true)
  liftIo (makePrivate state)
  liftIo (lock state receiveLock)
  let dest ← liftIo (parent root rel true)
  let destState ← liftIo (child dest.1 stateDir true)
  liftIo (makePrivate destState)
  liftIo (lockParent state destState)
  openPinned ext destDir rel manifest state dest.1 dest.2 destState

/-- `Journal::need`. -/
def need (self : Journal) : List ℕ :=
  (List.range self.manifest.chunks.length).filter fun i => i ∉ self.have_

/-- `Journal::complete`. -/
def complete (self : Journal) : Bool := self.have_.card = self.manifest.chunks.length

/-- `Journal::store`. -/
def store (ext : JournalExternals) (self : Journal) (index : ℕ) (data : Bytes) :
    Prog World SyncError (Bool × Journal) :=
  match self.manifest.chunks[index]? with
  | none => Prog.fail (.manifest [.text "chunk index ", .num index, .text " out of range"])
  | some c =>
    if data.length ≠ c.len ∨ ext.blake3 data ≠ c.hash then
      Prog.fail (.manifest [.text "chunk ", .num index, .text " failed BLAKE3 verification"])
    else if index ∈ self.have_ then pure (false, self)
    else do
      liftIo (writeState self.parts (hex c.hash) data)
      pure (true, { self with have_ := insert index self.have_, fetched := self.fetched + 1 })

/-- Refuse to go on when asked to stop. -/
def refuseStop : Prog World SyncError Unit := do
  if ← Sys.askStop then Prog.fail (.manifest [.text "assembly canceled"]) else pure ()

/-- One iteration of the loop of `assemble_cancellable`: what the hasher has been
fed, which is also what was written. -/
def assembleChunk (ext : JournalExternals) (self : Journal) (stage : StagedFile)
    (written : Bytes) (c : Chunk) : Prog World SyncError Bytes := do
  refuseStop
  let data ← liftIo (readState self.parts (hex c.hash) c.len)
  if data.length ≠ c.len ∨ ext.blake3 data ≠ c.hash then
    Prog.fail (.manifest [.text "part changed before assembly"])
  else do
    liftIo (stage.write data)
    pure (written ++ data)

/-- The part of `assemble_cancellable` that fills the staging file. -/
def fillStage (ext : JournalExternals) (self : Journal) (stage : StagedFile) :
    Prog World SyncError Unit := do
  let written ← self.manifest.chunks.foldlM (self.assembleChunk ext stage) []
  if ext.blake3 written ≠ self.manifest.root then
    Prog.fail (.manifest [.text "assembled file failed root hash"])
  else do
    liftIo (hit .written)
    -- empty files and a cancellation during the final write still cross this barrier
    refuseStop

/-- One iteration of the loop of `cleanup`. -/
def removePart (self : Journal) (c : Chunk) : Sys Unit := do
  removeIfPresent self.parts (hex c.hash) false
  hit .partRemoved

/-- `Journal::cleanup`. -/
def cleanup (self : Journal) : Sys Unit := do
  self.manifest.chunks.forM self.removePart
  Directory.sync self.parts
  removeIfPresent self.dir metaName false
  hit .metaRemoved
  removeIfPresent self.dir partsName true
  Directory.sync self.dir
  hit .partsRemoved
  removeIfPresent self.state self.journalId true
  Directory.sync self.state
  hit .journalRemoved

/-- `Journal::assemble_cancellable`. A failed cleanup does not turn a committed
file into a failed transfer. -/
def assembleCancellable (ext : JournalExternals) (self : Journal) :
    Prog World SyncError FsPath :=
  if !self.complete then Prog.fail (.manifest [.text "assemble before complete"])
  else do
    refuseStop
    let stage ← liftIo (stageNamed self.destState assembly)
    Prog.onError (self.fillStage ext stage) (liftIo stage.drop)
    liftIo (stage.installIn self.destParent self.destName)
    let _ ← Prog.attempt (liftIo self.cleanup)
    pure self.destPath

end Journal

/-! ### A receive -/

/-- A call of `store` by a caller that carries on after an error. -/
def storeOne (ext : JournalExternals) (journal : Journal) (call : ℕ × Bytes) :
    Prog World SyncError Journal := do
  match ← Prog.attempt (journal.store ext call.1 call.2) with
  | .ok (_, journal) => pure journal
  | .error _ => pure journal

/-- Open a journal, make any number of `store` calls, assemble. -/
def receive (ext : JournalExternals) (destDir : FsPath) (relPath : Bytes) (manifest : Manifest)
    (stores : List (ℕ × Bytes)) : Prog World SyncError FsPath := do
  let journal ← Journal.openCancellable ext destDir relPath manifest
  let journal ← stores.foldlM (storeOne ext) journal
  journal.assembleCancellable ext

end Rds
