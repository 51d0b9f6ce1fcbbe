import Rds.Framework.SystemCalls
import Rds.Sync.RelPath

/-!
# Filesystem capabilities of a sync root

The directory handles, private state files and staged files of
`rds-sync/src/confined.rs`, as programs of system calls. A handle is the path of
the directory it was opened at: nothing in the crate moves a directory, and a
handle is never re-resolved. Two handles are the same inode when their paths are
equal. Names are compared byte by byte; the aliases of a case-insensitive
filesystem are the business of the handle comparison in `parent`.

A `StagedFile` that is dropped before it is installed unlinks the name it
created. `Prog.onError` marks where that can happen.

`hit` is a point of `fault.rs` at which tests inject an error or end the process.
-/

namespace Rds

open Framework UnixPath

/-- `Point`: the transaction boundaries at which faults are injected. -/
inductive Point where
  | created
  | partialWrite
  | written
  | fileSynced
  | renamed
  | destinationSynced
  | sourceSynced
  | partRemoved
  | metaRemoved
  | partsRemoved
  | journalRemoved
  deriving DecidableEq

/-- `hit`. -/
def hit (_point : Point) : Sys Unit := Sys.probe

/-- `PENDING`: reserved temporary name, used only below private state. -/
def pending : Bytes := utf8 "pending"

/-- `component`: the name is a single normal component. -/
def component (name : Bytes) : Except IoErrorKind Unit :=
  if components name = [.normal name] then .ok () else .error .other

/-! ### Directory handles -/

namespace Directory

/-- Open a directory without following a link. -/
def openDirectory (p : FsPath) : Sys FsPath := do
  match ← Sys.openNode p with
  | .directory => pure p
  | _ => Prog.fail .other

/-- `Directory::sync`. -/
def sync (self : FsPath) : Sys Unit := Sys.syncDir self

/-- `create_dir_all`: create what is missing of a path. -/
def createDirAll : FsPath → List Bytes → Sys Unit
  | _, [] => pure ()
  | base, name :: names => do
    match ← Prog.attempt (Sys.mkdir (base ++ [name])) with
    | .ok () => createDirAll (base ++ [name]) names
    | .error .alreadyExists => createDirAll (base ++ [name]) names
    | .error e => Prog.fail e

/-- `Directory::open_root`. -/
def openRoot (path : FsPath) (create : Bool) : Sys FsPath :=
  if create then do
    createDirAll [] path
    openDirectory path
  else openDirectory path

/-- The creating half of `Directory::child`. -/
def ensureChild (self : FsPath) (name : Bytes) : Sys Unit := do
  match ← Prog.attempt (Sys.mkdir (self ++ [name])) with
  | .ok () => sync self
  | .error .alreadyExists => pure ()
  | .error e => Prog.fail e

/-- `Directory::child`. -/
def child (self : FsPath) (name : Bytes) (create : Bool) : Sys FsPath := do
  Prog.ofExcept (component name)
  if create then do
    ensureChild self name
    openDirectory (self ++ [name])
  else openDirectory (self ++ [name])

/-- `Directory::same_inode`. -/
def sameInode (self other : FsPath) : Sys Bool := do
  Sys.probe
  Sys.probe
  pure (self = other)

/-- Refuse a directory that is private state: the aliasing check of
`Directory::parent`. -/
def refuseState (dir next : FsPath) : Sys Unit := do
  match ← Prog.attempt (child dir stateDir false) with
  | .ok state =>
    if ← sameInode next state then Prog.fail .permissionDenied else pure ()
  | .error .notFound => pure ()
  | .error e => Prog.fail e

/-- The loop of `Directory::parent`. -/
def parentLoop (create : Bool) (dir : FsPath) : List Component → Sys (FsPath × Bytes)
  | [] => Prog.fail .other
  | .normal name :: rest =>
    if rest = [] then pure (dir, name)
    else do
      let next ← child dir name create
      refuseState dir next
      parentLoop create next rest
  | _ :: _ => Prog.fail .other

/-- `Directory::parent`: the parent of a relative path, and its last name. -/
def parent (self : FsPath) (rel : Bytes) (create : Bool) : Sys (FsPath × Bytes) :=
  parentLoop create self (components rel)

/-- `regular`: an opened name is a regular file. -/
def regular (node : Node) : Sys ℕ := do
  Sys.probe
  match node with
  | .file i => pure i
  | _ => Prog.fail .other

/-- `single_link`. -/
def singleLink (i : ℕ) : Sys Unit := do
  let links ← Sys.linkCount i
  if links ≠ 1 then Prog.fail .other else pure ()

/-- `Directory::read_file`: an open regular file. -/
def readFile (self : FsPath) (name : Bytes) : Sys ℕ := do
  Prog.ofExcept (component name)
  let node ← Sys.openNode (self ++ [name])
  regular node

/-- `Directory::make_private`. -/
def makePrivate (self : FsPath) : Sys Unit := do
  Sys.probe
  sync self

/-- `Directory::read_state`: at most one byte more than the limit. -/
def readState (self : FsPath) (name : Bytes) (limit : ℕ) : Sys Bytes := do
  let file ← readFile self name
  singleLink file
  let data ← Sys.readAll file
  pure (data.take (limit + 1))

/-- `Directory::lock`: the lock file is created once and never removed. -/
def lock (self : FsPath) (name : Bytes) : Sys Unit := do
  Prog.ofExcept (component name)
  let node ← Sys.openCreate (self ++ [name])
  let file ← regular node
  singleLink file
  Sys.probe

/-- `Directory::unlink`. -/
def unlink (self : FsPath) (name : Bytes) (directory : Bool) : Sys Unit := do
  Prog.ofExcept (component name)
  if directory then Sys.rmdir (self ++ [name]) else Sys.unlink (self ++ [name])

/-- `Directory::discard_owned`: remove a private file that has no other link. -/
def discardOwned (self : FsPath) (name : Bytes) : Sys Unit := do
  match ← Prog.attempt (readFile self name) with
  | .ok file =>
    singleLink file
    unlink self name false
    sync self
  | .error .notFound => pure ()
  | .error e => Prog.fail e

end Directory

/-! ### Staged files -/

/-- `StagedFile`: an exclusively created file that is not yet installed. -/
structure StagedFile where
  inode : ℕ
  dir : FsPath
  name : Bytes

namespace StagedFile

/-- The path of the staging name. -/
def path (self : StagedFile) : FsPath := self.dir ++ [self.name]

/-- `Drop for StagedFile`, when it was not installed. -/
def drop (self : StagedFile) : Sys Unit := do
  let _ ← Prog.attempt (Directory.unlink self.dir self.name false)
  let _ ← Prog.attempt (Directory.sync self.dir)
  pure ()

/-- `fault::write`. -/
def write (self : StagedFile) (bytes : Bytes) : Sys Unit := do
  hit .partialWrite
  Sys.writeAll self.inode bytes

/-- The first half of `StagedFile::install_in`: up to the rename, the file is
still owned by the staging name. -/
def moveInto (self : StagedFile) (destination : FsPath) (name : Bytes) : Sys Unit := do
  Prog.ofExcept (component name)
  Sys.syncFile self.inode
  hit .fileSynced
  Sys.rename self.path (destination ++ [name])

/-- The second half of `StagedFile::install_in`: make the rename durable. -/
def settle (self : StagedFile) (destination : FsPath) : Sys Unit := do
  hit .renamed
  Directory.sync destination
  hit .destinationSynced
  if ← Directory.sameInode self.dir destination then pure ()
  else do
    Directory.sync self.dir
    hit .sourceSynced

/-- `StagedFile::install_in`. -/
def installIn (self : StagedFile) (destination : FsPath) (name : Bytes) : Sys Unit := do
  Prog.onError (self.moveInto destination name) self.drop
  self.settle destination

end StagedFile

namespace Directory

/-- `Directory::stage_named`. -/
def stageNamed (self : FsPath) (name : Bytes) : Sys StagedFile := do
  Prog.ofExcept (component name)
  let inode ← Sys.createExcl (self ++ [name])
  let stage : StagedFile := ⟨inode, self, name⟩
  Prog.onError (hit .created) stage.drop
  pure stage

/-- `Directory::write_state`: replace a private file through `pending`. -/
def writeState (self : FsPath) (name data : Bytes) : Sys Unit := do
  discardOwned self pending
  let stage ← stageNamed self pending
  Prog.onError (do stage.write data; hit .written) stage.drop
  stage.installIn self name

end Directory

end Rds
