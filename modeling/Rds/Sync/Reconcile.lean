import Rds.Sync.Directory

/-!
# Reconcile planning

The deterministic one-way planner of `rds-sync/src/directory/reconcile.rs`:
operations with their preconditions, `ReconcilePlan::one_way`, the structural
check `verify`, the projection of a plan on a destination, and the three-way
conflict report. Nothing here touches a filesystem, as in the source.

A `BTreeMap` from paths to entries is a `Std.ExtTreeMap`; a `BTreeSet` of paths
that is only inserted into and tested is the list of what was inserted.
-/

namespace Rds

open Framework UnixPath

/-! ### Operations -/

/-- `Revision`: the root of a verified snapshot, compared verbatim. -/
structure Revision where
  root : ChunkHash
  deriving DecidableEq

/-- `Revision::from_manifest`. -/
def Revision.fromManifest (ext : Externals) (manifest : DirectoryManifest) :
    Except SyncError Revision := do
  manifest.verify ext
  .ok ⟨manifest.root⟩

/-- `DeletePolicy`: whether destination-only paths are retained or removed. -/
inductive DeletePolicy where
  | keep
  | delete
  deriving DecidableEq

/-- `Tombstone`: a durable deletion intent. -/
structure Tombstone where
  path : Bytes
  previous : DirectoryEntry
  sourceRevision : Revision
  deriving DecidableEq

/-- `ReconcileOperation`. -/
inductive ReconcileOperation where
  | put (entry : DirectoryEntry)
  | replace (before after : DirectoryEntry)
  | move (src dst : DirectoryEntry)
  | delete (tombstone : Tombstone)
  deriving DecidableEq

namespace ReconcileOperation

/-- `ReconcileOperation::path`: the target path. -/
def path : ReconcileOperation → Bytes
  | put entry => entry.path
  | replace _ after => after.path
  | move _ dst => dst.path
  | delete tombstone => tombstone.path

/-- `ReconcileOperation::validate`. -/
def validate : ReconcileOperation → Except SyncError Unit
  | put entry => entry.validate
  | replace before after => do
    before.validate
    after.validate
    if before.path ≠ after.path ∨ before.identity = after.identity then
      throw (.manifest [.text "invalid replacement precondition"])
    else if before.kind = .directory ∨ after.kind = .directory then
      throw (.manifest
        [.text "directory type replacement requires subtree conflict resolution"])
    else .ok ()
  | move src dst => do
    src.validate
    dst.validate
    if src.kind = .directory ∨ dst.kind = .directory then
      throw (.manifest [.text "directory moves require an explicit subtree identity"])
    else if src.path = dst.path ∨ src.identity ≠ dst.identity then
      throw (.manifest [.text "move operation changes entry identity"])
    else .ok ()
  | delete tombstone => do
    tombstone.previous.validate
    if tombstone.previous.path ≠ tombstone.path then
      throw (.manifest [.text "tombstone path does not match its previous entry"])
    else .ok ()

end ReconcileOperation

/-! ### The canonical order -/

/-- The sort key `(u8, Reverse<usize>, &[u8])` of an operation. -/
structure SortKey where
  rank : ℕ
  deleteDepth : ℕ
  path : Bytes

/-- The derived lexicographic order of sort keys; the depth is compared in
reverse. -/
def SortKey.Lt (a b : SortKey) : Prop :=
  a.rank < b.rank ∨ a.rank = b.rank ∧
    (b.deleteDepth < a.deleteDepth ∨ a.deleteDepth = b.deleteDepth ∧ a.path < b.path)

instance : DecidableRel SortKey.Lt := fun a b => by
  unfold SortKey.Lt
  exact inferInstance

/-- The rank of an operation: directories are created first and removed last. -/
def operationRank : ReconcileOperation → ℕ
  | .put entry => if entry.kind = .directory then 0 else 2
  | .move _ _ => 1
  | .replace _ _ => 3
  | .delete tombstone => if tombstone.previous.kind ≠ .directory then 4 else 5

/-- `operation_sort_key`. -/
def operationSortKey (operation : ReconcileOperation) : SortKey where
  rank := operationRank operation
  deleteDepth := if operationRank operation ≥ 4 then (operation.path.splitOn slash).length else 0
  path := operation.path

/-! ### Plans -/

/-- `ReconcilePlan`. -/
structure ReconcilePlan where
  sourceRevision : Revision
  expectedDestinationRevision : Revision
  deletePolicy : DeletePolicy
  operations : List ReconcileOperation
  deriving DecidableEq

/-- What the loop of `ReconcilePlan::verify` accumulates. -/
structure PlanScan where
  paths : List Bytes
  moveSources : List Bytes
  dataBytes : ℕ

namespace ReconcilePlan

/-- The `match` in the loop of `verify`: the move sources seen so far and the
entries whose bytes are counted. -/
def operationEntries (self : ReconcilePlan) (moveSources : List Bytes) :
    ReconcileOperation → Except SyncError (List Bytes × List DirectoryEntry)
  | .put entry => .ok (moveSources, [entry])
  | .replace before after => .ok (moveSources, [before, after])
  | .move src dst =>
    if self.deletePolicy ≠ .delete ∨ src.path ∈ moveSources then
      throw (.manifest [.text "invalid move policy or duplicate source"])
    else .ok (src.path :: moveSources, [src, dst])
  | .delete tombstone =>
    if self.deletePolicy ≠ .delete ∨ tombstone.sourceRevision ≠ self.sourceRevision then
      throw (.manifest [.text "invalid tombstone policy or revision"])
    else .ok (moveSources, [tombstone.previous])

/-- Count the bytes of one entry against the metadata budget of a plan. -/
def countEntry (dataBytes : ℕ) (entry : DirectoryEntry) : Except SyncError ℕ :=
  if addDataBytes dataBytes entry > 2 * maxDirectoryDataBytes then
    throw (.manifest [.text "reconcile metadata budget exceeded"])
  else .ok (addDataBytes dataBytes entry)

/-- One iteration of the loop of `verify`. -/
def scanOperation (self : ReconcilePlan) (st : PlanScan) (operation : ReconcileOperation) :
    Except SyncError PlanScan := do
  operation.validate
  if operation.path ∈ st.paths then
    throw (.manifest [.text "reconcile plan contains duplicate target paths"])
  else
    let found ← self.operationEntries st.moveSources operation
    let dataBytes ← found.2.foldlM countEntry st.dataBytes
    .ok ⟨operation.path :: st.paths, found.1, dataBytes⟩

/-- `ReconcilePlan::verify`. -/
def verify (self : ReconcilePlan) : Except SyncError Unit :=
  if self.operations.length > maxDirectoryEntries * 2 then
    throw (.manifest [.text "reconcile plan is too large"])
  else do
    let st ← self.operations.foldlM self.scanOperation ⟨[], [], 0⟩
    if ∃ p ∈ st.paths, p ∈ st.moveSources then
      throw (.manifest [.text "move source overlaps a plan target"])
    else if (windows2 self.operations).any fun pair =>
        (operationSortKey pair.2).Lt (operationSortKey pair.1) then
      throw (.manifest [.text "reconcile plan is not in canonical operation order"])
    else .ok ()

/-- `ReconcilePlan::canonicalize_and_verify`; the sort is stable. -/
def canonicalizeAndVerify (self : ReconcilePlan) : Except SyncError ReconcilePlan := do
  let sorted : ReconcilePlan :=
    { self with
      operations := self.operations.insertionSort fun left right =>
        ¬ (operationSortKey right).Lt (operationSortKey left) }
  sorted.verify
  .ok sorted

/-- The operation emitted for a rename: moving would delete a destination-only
path under `Keep`. -/
def renameOperation (deletePolicy : DeletePolicy) (rename : Rename) : ReconcileOperation :=
  if deletePolicy = .keep then .put rename.dst else .move rename.src rename.dst

/-- The operation emitted for a modified entry of the source. -/
def replaceOperation (destination : DirectoryManifest) (entry : DirectoryEntry) :
    Except SyncError ReconcileOperation :=
  match searchPath destination.entries entry.path with
  | none => throw (.manifest [.text "modified destination entry disappeared"])
  | some before => .ok (.replace before entry)

/-- `ReconcilePlan::one_way`. The diff runs from the destination to the source:
`added` and `modified` are source entries, `removed` are destination entries. -/
def oneWay (ext : Externals) (source destination : DirectoryManifest)
    (deletePolicy : DeletePolicy) : Except SyncError ReconcilePlan := do
  let sourceRevision ← Revision.fromManifest ext source
  let expectedDestinationRevision ← Revision.fromManifest ext destination
  let diff ← destination.diff ext source
  let replaces ← diff.modified.mapM (replaceOperation destination)
  let deletes := if deletePolicy = .delete then
      diff.removed.map fun previous => .delete ⟨previous.path, previous, sourceRevision⟩
    else []
  canonicalizeAndVerify
    { sourceRevision, expectedDestinationRevision, deletePolicy
      operations := diff.renamed.map (renameOperation deletePolicy) ++
        diff.added.map .put ++ replaces ++ deletes }

end ReconcilePlan

/-! ### Projection on a destination -/

/-- The entries of a destination by path, a `BTreeMap`. -/
abbrev EntryMap := Std.ExtTreeMap Bytes DirectoryEntry compare

/-- `require_previous`. -/
def requirePrevious (entries : EntryMap) (previous : DirectoryEntry) : Except SyncError Unit :=
  if entries[previous.path]? ≠ some previous then
    throw (.manifest [.text "reconcile entry precondition does not match destination"])
  else .ok ()

/-- One iteration of the loop of `project_destination`. -/
def applyOperation (entries : EntryMap) : ReconcileOperation → Except SyncError EntryMap
  | .put entry =>
    if entries[entry.path]?.isSome then
      throw (.manifest [.text "Put destination already exists"])
    else .ok (entries.insert entry.path entry)
  | .replace before after => do
    requirePrevious entries before
    .ok (entries.insert after.path after)
  | .move src dst => do
    requirePrevious entries src
    if entries[dst.path]?.isSome then
      throw (.manifest [.text "Move destination already exists"])
    else .ok ((entries.erase src.path).insert dst.path dst)
  | .delete tombstone => do
    requirePrevious entries tombstone.previous
    .ok (entries.erase tombstone.path)

namespace ReconcilePlan

/-- `ReconcilePlan::project_destination`. -/
def projectDestination (ext : Externals) (self : ReconcilePlan) (current : DirectoryManifest) :
    Except SyncError DirectoryManifest := do
  self.verify
  let currentRevision ← Revision.fromManifest ext current
  if currentRevision ≠ self.expectedDestinationRevision then
    throw (.manifest [.text "destination changed after reconcile planning"])
  else
    let entries ← self.operations.foldlM applyOperation current.entryMap
    DirectoryManifest.fromEntries ext (mapValues entries)

end ReconcilePlan

/-! ### Conflicts -/

/-- `ConflictRecord`. -/
structure ConflictRecord where
  path : Bytes
  base : Option DirectoryEntry
  localSide : Option DirectoryEntry
  remote : Option DirectoryEntry
  deriving DecidableEq

/-- The parents the loop `while let Some((parent, _)) = ancestor.rsplit_once('/')`
visits. Each parent is shorter, so the length of the path bounds the loop. -/
def ancestorsFrom : ℕ → Bytes → List Bytes
  | 0, _ => []
  | fuel + 1, ancestor =>
    match rsplitOnce slash ancestor with
    | none => []
    | some (parent, _) => parent :: ancestorsFrom fuel parent

/-- The ancestors of a path, nearest first. -/
def ancestors (path : Bytes) : List Bytes := ancestorsFrom path.length path

/-- `map.get(path).is_some_and(|entry| entry.kind == EntryKind::Directory)`. -/
def isDirectory (entries : EntryMap) (path : Bytes) : Bool :=
  entries[path]?.any fun entry => entry.kind = .directory

/-- The conflicts a change on one side adds: ancestors that are a directory in
the base and on that side, but not on the other. -/
def sideConflicts (base side other : EntryMap) (path : Bytes) : List Bytes :=
  if base[path]? = side[path]? then []
  else (ancestors path).filter fun parent =>
    isDirectory base parent && isDirectory side parent && !isDirectory other parent

/-- One iteration of the loop of `conflicts`. -/
def pathConflicts (base localSide remote : EntryMap) (path : Bytes) : List Bytes :=
  (if base[path]? ≠ localSide[path]? ∧ base[path]? ≠ remote[path]? ∧
      localSide[path]? ≠ remote[path]? then [path] else []) ++
    sideConflicts base localSide remote path ++ sideConflicts base remote localSide path

/-- The elements of a `BTreeSet` of paths in order. -/
def sortedSet (paths : List Bytes) : List Bytes := (paths.insertionSort (· ≤ ·)).dedup

/-- `conflicts`. -/
def conflicts (ext : Externals) (base localSide remote : DirectoryManifest) :
    Except SyncError (List ConflictRecord) := do
  base.verify ext
  localSide.verify ext
  remote.verify ext
  let paths := sortedSet ((base.entries ++ localSide.entries ++ remote.entries).map (·.path))
  let conflictPaths :=
    paths.flatMap (pathConflicts base.entryMap localSide.entryMap remote.entryMap)
  .ok ((sortedSet conflictPaths).map fun path =>
    { path
      base := base.entryMap[path]?
      localSide := localSide.entryMap[path]?
      remote := remote.entryMap[path]? })

end Rds
