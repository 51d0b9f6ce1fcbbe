import Rds.Framework.ByteString
import Rds.Framework.Interrupt

/-!
# A filesystem that survives crashes

Names and files as a process sees them through system calls, together with what
a power loss may leave behind. A path is the list of its components from the
filesystem root, so directories form a tree; a regular file is a name that refers
to an inode.

* `Fs.names` and `Fs.inode` are what running processes see. A process that stops
  leaves them as they are.
* `Fs.disk p` lists what the name `p` may be after a power loss: what the last
  synchronisation of its directory made durable, and every value it was given
  since. The data of an inode survives if it was synchronised after the last
  write.
* A rename replaces its target in one step.

Programs run in a `World`, which decides the result of each call: it goes
through, fails, perhaps after part or all of its effect, or the process stops
before it. Statements that hold for every world hold for every point at which
the program can be interrupted.

`Unmoved p ref fs` says that since `ref` nothing happened to the name `p` or to
the data of any inode that existed then. Every call on other names and on newer
inodes keeps it, which is what frames a program that works beside a file it must
not touch.
-/

namespace Framework

open Function

/-- The error kinds that programs distinguish. -/
inductive IoErrorKind where
  | notFound
  | alreadyExists
  | permissionDenied
  | wouldBlock
  | interrupted
  | invalidData
  | unexpectedEof
  | other
  deriving DecidableEq

/-- A path: its components from the root of the filesystem. -/
abbrev FsPath := List Bytes

/-- What a name refers to. Symbolic links, sockets, devices and the like are
`special`: they are never opened or followed. -/
inductive Node where
  | directory
  | special
  | file (inode : ℕ)
  deriving DecidableEq

/-- A regular file: its bytes, whether they are durable, and how many names refer
to it. -/
structure Inode where
  data : Bytes
  synced : Bool
  links : ℕ

/-- The state of the filesystem. Inode numbers from `next` on are unused. -/
structure Fs where
  names : Std.ExtTreeMap FsPath Node compare
  inode : ℕ → Inode
  next : ℕ
  /-- What each name may be after a power loss. -/
  disk : FsPath → List (Option Node)
  /-- The targets of all renames so far; no call reads it. -/
  renamed : List FsPath
  names_lt : ∀ (p : FsPath) (i : ℕ), names[p]? = some (.file i) → i < next
  disk_lt : ∀ (p : FsPath) (i : ℕ), some (.file i) ∈ disk p → i < next

namespace Fs

/-! ### Updates -/

/-- Give a name a new value; the old values remain possible on disk. -/
def setName (fs : Fs) (p : FsPath) (n : Option Node) (h : ∀ i, n = some (.file i) → i < fs.next) :
    Fs where
  names := fs.names.alter p fun _ => n
  inode := fs.inode
  next := fs.next
  disk := update fs.disk p (n :: fs.disk p)
  renamed := fs.renamed
  names_lt := by
    intro q i hq
    rw [Std.ExtTreeMap.getElem?_alter] at hq
    split at hq
    · exact h i hq
    · exact fs.names_lt q i hq
  disk_lt := by
    intro q i hq
    by_cases hqp : q = p
    · rw [hqp, update_self, List.mem_cons] at hq
      rcases hq with hq | hq
      · exact h i hq.symm
      · exact fs.disk_lt p i hq
    · rw [update_of_ne hqp] at hq
      exact fs.disk_lt q i hq

/-- Change an inode. -/
def setInode (fs : Fs) (i : ℕ) (v : Inode) : Fs :=
  { fs with inode := update fs.inode i v }

/-- One name fewer refers to the inode. -/
def dropLink (fs : Fs) : Option Node → Fs
  | some (.file i) => fs.setInode i { fs.inode i with links := (fs.inode i).links - 1 }
  | _ => fs

/-- Take an unused inode number for an empty file. -/
def allocate (fs : Fs) : Fs where
  names := fs.names
  inode := update fs.inode fs.next ⟨[], false, 1⟩
  next := fs.next + 1
  disk := fs.disk
  renamed := fs.renamed
  names_lt p i h := Nat.lt_succ_of_lt (fs.names_lt p i h)
  disk_lt p i h := Nat.lt_succ_of_lt (fs.disk_lt p i h)

/-- Remember the target of a rename. -/
def recordRename (fs : Fs) (p : FsPath) : Fs := { fs with renamed := p :: fs.renamed }

/-! ### System calls, when they go through -/

/-- The path is a directory. -/
def isDir (fs : Fs) (p : FsPath) : Bool := p = [] || fs.names[p]? = some .directory

/-- `mkdirat`. -/
def mkdir (p : FsPath) (fs : Fs) : Except IoErrorKind (Unit × Fs) :=
  if fs.names[p]?.isSome then .error .alreadyExists
  else if fs.isDir p.dropLast then .ok ((), fs.setName p (some .directory) (by simp))
  else .error .notFound

/-- `openat` with `O_CREAT | O_EXCL`: the new file's inode. -/
def createExcl (p : FsPath) (fs : Fs) : Except IoErrorKind (ℕ × Fs) :=
  if fs.names[p]?.isSome then .error .alreadyExists
  else if fs.isDir p.dropLast then
    .ok (fs.next, fs.allocate.setName p (some (.file fs.next)) (by simp [allocate]))
  else .error .notFound

/-- `openat` of an existing name, without following a link. -/
def openNode (p : FsPath) (fs : Fs) : Except IoErrorKind (Node × Fs) :=
  match fs.names[p]? with
  | none => .error .notFound
  | some n => .ok (n, fs)

/-- `openat` with `O_CREAT`: an existing name is opened as it is. -/
def openCreate (p : FsPath) (fs : Fs) : Except IoErrorKind (Node × Fs) :=
  match fs.names[p]? with
  | none => (createExcl p fs).map fun r => (.file r.1, r.2)
  | some n => .ok (n, fs)

/-- `unlinkat` of a name that is no directory. -/
def unlink (p : FsPath) (fs : Fs) : Except IoErrorKind (Unit × Fs) :=
  match fs.names[p]? with
  | none => .error .notFound
  | some .directory => .error .other
  | some n => .ok ((), (fs.dropLink (some n)).setName p none (by simp))

/-- `unlinkat` with `AT_REMOVEDIR`: only an empty directory goes. -/
def rmdir (p : FsPath) (fs : Fs) : Except IoErrorKind (Unit × Fs) :=
  match fs.names[p]? with
  | none => .error .notFound
  | some .directory =>
    if fs.names.keys.any fun q => q ≠ [] ∧ q.dropLast = p then .error .other
    else .ok ((), fs.setName p none (by simp))
  | some _ => .error .other

/-- `renameat` of a regular file. Two names of one file are left alone. -/
def rename (a b : FsPath) (fs : Fs) : Except IoErrorKind (Unit × Fs) :=
  match ha : fs.names[a]? with
  | some (.file i) =>
    if fs.names[b]? = some .directory then .error .other
    else if !fs.isDir b.dropLast then .error .notFound
    else if fs.names[b]? = some (.file i) then .ok ((), fs)
    else
      have hi : i < fs.next := fs.names_lt a i ha
      .ok ((), (((fs.dropLink fs.names[b]?).setName a none (by simp)).setName b
        (some (.file i)) (by cases fs.names[b]? with
          | none => simpa [setName, dropLink] using hi
          | some n => cases n <;> simpa [setName, dropLink, setInode] using hi)).recordRename b)
  | none => .error .notFound
  | some _ => .error .other

/-- Append to an open file. -/
def append (i : ℕ) (bytes : Bytes) (fs : Fs) : Fs :=
  fs.setInode i { fs.inode i with data := (fs.inode i).data ++ bytes, synced := false }

/-- `fsync` of a file. -/
def syncFile (i : ℕ) (fs : Fs) : Fs := fs.setInode i { fs.inode i with synced := true }

/-- `fsync` of a directory: the names in it are durable as they are now. -/
def syncDir (d : FsPath) (fs : Fs) : Fs where
  names := fs.names
  inode := fs.inode
  next := fs.next
  disk p := if p ≠ [] ∧ p.dropLast = d then [fs.names[p]?] else fs.disk p
  renamed := fs.renamed
  names_lt := fs.names_lt
  disk_lt := by
    intro p i h
    split at h
    · exact fs.names_lt p i (List.mem_singleton.mp h).symm
    · exact fs.disk_lt p i h

end Fs

/-! ### The frame of a name -/

theorem Fs.names_setName {fs : Fs} {p q : FsPath} {n : Option Node}
    (h : ∀ i, n = some (.file i) → i < fs.next) :
    (fs.setName p n h).names[q]? = if q = p then n else fs.names[q]? := by
  unfold Fs.setName
  rw [Std.ExtTreeMap.getElem?_alter]
  simp only [Std.LawfulEqCmp.compare_eq_iff_eq, @eq_comm _ q p]

theorem Fs.createExcl_eq_ok {p : FsPath} {fs fs' : Fs} {i : ℕ} (h : Fs.createExcl p fs = .ok (i, fs')) :
    fs'.names[p]? = some (.file i) ∧ (fs'.inode i).data = [] := by
  unfold Fs.createExcl at h
  split_ifs at h
  cases h
  refine ⟨(Fs.names_setName _).trans (if_pos rfl), ?_⟩
  show (update fs.inode fs.next _ fs.next).data = []
  rw [update_self]

/-- Since `ref` nothing happened to the name `p`, nor to the data of an inode that
existed then. -/
structure Unmoved (p : FsPath) (ref fs : Fs) : Prop where
  name : fs.names[p]? = ref.names[p]?
  disk : ∀ n ∈ fs.disk p, n ∈ ref.disk p ∨ n = ref.names[p]?
  data : ∀ i < ref.next, (fs.inode i).data = (ref.inode i).data
  synced : ∀ i < ref.next, (ref.inode i).synced = true → (fs.inode i).synced = true
  next : ref.next ≤ fs.next
  renamed : fs.renamed.count p = ref.renamed.count p

namespace Unmoved

variable {p q : FsPath} {ref fs fs' : Fs}

theorem refl (p : FsPath) (fs : Fs) : Unmoved p fs fs :=
  ⟨rfl, fun _ hn => Or.inl hn, fun _ _ => rfl, fun _ _ hs => hs, le_rfl, rfl⟩

theorem trans {mid : Fs} (h : Unmoved p ref mid) (h' : Unmoved p mid fs) : Unmoved p ref fs where
  name := h'.name.trans h.name
  disk := by
    intro n hn
    rcases h'.disk n hn with hd | hd
    · exact h.disk n hd
    · exact .inr (hd.trans h.name)
  data i hi := (h'.data i (hi.trans_le h.next)).trans (h.data i hi)
  synced i hi hs := h'.synced i (hi.trans_le h.next) (h.synced i hi hs)
  next := h.next.trans h'.next
  renamed := h'.renamed.trans h.renamed

section

variable (h : Unmoved p ref fs)
include h

theorem setName (hq : p ≠ q) {n : Option Node}
    (hn : ∀ i, n = some (.file i) → i < fs.next) : Unmoved p ref (fs.setName q n hn) where
  name := by rw [Fs.names_setName, if_neg hq, h.name]
  disk := by
    intro m hm
    change m ∈ update fs.disk q (n :: fs.disk q) p at hm
    rw [update_of_ne hq] at hm
    exact h.disk m hm
  data := h.data
  synced := h.synced
  next := h.next
  renamed := h.renamed

/-- A newer inode may change, and so may everything but the data of an older
one. -/
theorem setInode {i : ℕ} {v : Inode} (hi : i < ref.next → v.data = (fs.inode i).data ∧
      ((fs.inode i).synced = true → v.synced = true)) : Unmoved p ref (fs.setInode i v) where
  name := h.name
  disk := h.disk
  data := by
    intro j hj
    show (update fs.inode i v j).data = _
    rw [update_apply, ← h.data j hj]
    split
    next heq => rw [heq, (hi (heq ▸ hj)).1]
    next => rfl
  synced := by
    intro j hj hs
    show (update fs.inode i v j).synced = _
    rw [update_apply]
    split
    next heq => exact (hi (heq ▸ hj)).2 (heq ▸ h.synced j hj hs)
    next => exact h.synced j hj hs
  next := h.next
  renamed := h.renamed

theorem dropLink (n : Option Node) : Unmoved p ref (fs.dropLink n) := by
  unfold Fs.dropLink
  split
  · exact h.setInode fun _ => ⟨rfl, id⟩
  · exact h

theorem allocate : Unmoved p ref fs.allocate := by
  have hnew : Unmoved p ref (fs.setInode fs.next ⟨[], false, 1⟩) :=
    h.setInode fun hlt => absurd h.next (Nat.not_le.mpr hlt)
  exact ⟨hnew.name, hnew.disk, hnew.data, hnew.synced, hnew.next.trans (Nat.le_succ _), hnew.renamed⟩

theorem mkdir (hq : p ≠ q) {u : Unit} (hrun : Fs.mkdir q fs = .ok (u, fs')) : Unmoved p ref fs' := by
  unfold Fs.mkdir at hrun
  split_ifs at hrun
  cases hrun
  exact h.setName hq _

theorem createExcl (hq : p ≠ q) {i : ℕ}
    (hrun : Fs.createExcl q fs = .ok (i, fs')) : Unmoved p ref fs' ∧ ref.next ≤ i := by
  unfold Fs.createExcl at hrun
  split_ifs at hrun
  cases hrun
  exact ⟨h.allocate.setName hq _, h.next⟩

theorem openCreate (hq : p ≠ q) {n : Node}
    (hrun : Fs.openCreate q fs = .ok (n, fs')) : Unmoved p ref fs' := by
  unfold Fs.openCreate at hrun
  split at hrun
  · cases hc : Fs.createExcl q fs <;> rw [hc] at hrun <;> cases hrun
    exact (h.createExcl hq hc).1
  · cases hrun
    exact h

theorem unlink (hq : p ≠ q) {u : Unit} (hrun : Fs.unlink q fs = .ok (u, fs')) : Unmoved p ref fs' := by
  unfold Fs.unlink at hrun
  split at hrun <;> cases hrun
  exact (h.dropLink _).setName hq _

theorem rmdir (hq : p ≠ q) {u : Unit} (hrun : Fs.rmdir q fs = .ok (u, fs')) : Unmoved p ref fs' := by
  unfold Fs.rmdir at hrun
  split at hrun
  · cases hrun
  · split_ifs at hrun
    cases hrun
    exact h.setName hq _
  · cases hrun

theorem append {i : ℕ} (hi : ref.next ≤ i) (bytes : Bytes) :
    Unmoved p ref (fs.append i bytes) :=
  h.setInode fun hlt => absurd hi (Nat.not_le.mpr hlt)

theorem syncFile (i : ℕ) : Unmoved p ref (fs.syncFile i) :=
  h.setInode fun _ => ⟨rfl, fun _ => rfl⟩

theorem syncDir (d : FsPath) : Unmoved p ref (fs.syncDir d) where
  name := h.name
  disk := by
    intro n hn
    change n ∈ (if p ≠ [] ∧ p.dropLast = d then [fs.names[p]?] else fs.disk p) at hn
    split at hn
    · exact .inr ((List.mem_singleton.mp hn).trans h.name)
    · exact h.disk n hn
  data := h.data
  synced := h.synced
  next := h.next
  renamed := h.renamed

end

end Unmoved

theorem Fs.inode_dropLink (fs : Fs) (n : Option Node) (i : ℕ) :
    ((fs.dropLink n).inode i).data = (fs.inode i).data ∧
      ((fs.dropLink n).inode i).synced = (fs.inode i).synced := by
  unfold Fs.dropLink
  split
  next j =>
    show (update fs.inode j _ i).data = _ ∧ (update fs.inode j _ i).synced = _
    by_cases hij : i = j <;> simp [hij]
  next => exact ⟨rfl, rfl⟩

/-- What a rename does when it goes through: either both names are of one file and
nothing changes, or the target takes over the file of the source. -/
theorem Fs.rename_eq_ok {a b : FsPath} {fs fs' : Fs} {u : Unit} (h : Fs.rename a b fs = .ok (u, fs')) :
    ∃ i, fs.names[a]? = some (.file i) ∧ ((fs.names[b]? = some (.file i) ∧ fs' = fs) ∨
        fs.names[b]? ≠ some (.file i) ∧ ∃ hn, fs' =
    (((fs.dropLink fs.names[b]?).setName a none (by simp)).setName b
          (some (.file i)) hn).recordRename b) := by
  unfold Fs.rename at h
  split at h
  · next i hi =>
    split_ifs at h with hdir hparent hsame
    · cases h
      exact ⟨i, hi, Or.inl ⟨hsame, rfl⟩⟩
    · cases h
      exact ⟨i, hi, Or.inr ⟨hsame, _, rfl⟩⟩
  · cases h
  · cases h

theorem Unmoved.rename {p a b : FsPath} {ref fs fs' : Fs} (h : Unmoved p ref fs) (ha : p ≠ a)
    (hb : p ≠ b) {u : Unit} (hrun : Fs.rename a b fs = .ok (u, fs')) : Unmoved p ref fs' := by
  obtain ⟨i, -, ⟨-, rfl⟩ | ⟨-, hn, rfl⟩⟩ := Fs.rename_eq_ok hrun
  · exact h
  have hmoved := ((h.dropLink fs.names[b]?).setName ha (by simp)).setName hb hn
  refine ⟨hmoved.name, hmoved.disk, hmoved.data, hmoved.synced, hmoved.next, ?_⟩
  show (b :: _).count p = _
  rw [List.count_cons_of_ne hb.symm]
  exact hmoved.renamed

end Framework
