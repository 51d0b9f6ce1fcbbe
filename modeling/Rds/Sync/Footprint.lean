import Rds.Sync.Confined

/-!
# What the confined operations touch

Every operation of `confined.rs` changes names inside the directories it was
handed, and writes to files it created itself. Stated once for an arbitrary
invariant that survives such changes (`KeptOn`), operation by operation: readers
preserve every invariant, the others preserve it when the names they change are
allowed.

A directory whose whole inside is allowed is `Owned`; private state directories
are.
-/

namespace Rds

open Framework UnixPath Preserves

/-- Every name inside the directory may be changed. -/
def Owned (allowed : FsPath → Prop) (d : FsPath) : Prop := ∀ rest, rest ≠ [] → allowed (d ++ rest)

theorem Owned.name {allowed : FsPath → Prop} {d : FsPath} (h : Owned allowed d) (n : Bytes) :
    allowed (d ++ [n]) :=
  h [n] (by simp)

theorem Owned.child {allowed : FsPath → Prop} {d : FsPath} (h : Owned allowed d) (n : Bytes) :
    Owned allowed (d ++ [n]) := by
  intro rest _
  rw [List.append_assoc]
  exact h _ (by simp)

/-! ### Readers -/

section Readers

open Directory

variable {J : World → Prop} [Steady J]

theorem preserves_hit (point : Point) : Preserves J (hit point) := preserves_query

theorem preserves_openDirectory (p : FsPath) : Preserves J (openDirectory p) := by
  refine .bind preserves_query fun node => ?_
  cases node with
  | directory => exact .pure
  | special | file i => exact .fail

theorem openDirectory_spec (p : FsPath) :
    Triple J (openDirectory p) (fun q w => J w ∧ q = p) J := by
  refine .bind preserves_query fun node => ?_
  cases node with
  | directory => exact .pure fun _ hw => ⟨hw, rfl⟩
  | special | file i => exact .fail fun _ hw => hw

theorem preserves_sameInode (a b : FsPath) : Preserves J (sameInode a b) :=
  preserves_query.bind fun _ => preserves_query.bind fun _ => .pure

theorem preserves_child_false (d : FsPath) (n : Bytes) :
    Preserves J (Directory.child d n false) :=
  ofExcept.bind fun _ => preserves_openDirectory _

theorem preserves_refuseState (dir next : FsPath) : Preserves J (refuseState dir next) := by
  refine (preserves_child_false dir stateDir).attempt.bind fun r => ?_
  split
  · refine (preserves_sameInode _ _).bind fun same => ?_
    exact .ite fail pure
  · exact .pure
  · exact .fail

theorem preserves_regular (node : Node) : Preserves J (regular node) := by
  refine preserves_query.bind fun _ => ?_
  cases node with
  | directory | special => exact .fail
  | file i => exact .pure

theorem preserves_singleLink (i : ℕ) : Preserves J (singleLink i) :=
  preserves_query.bind fun _ => .ite fail pure

theorem preserves_readFile (d : FsPath) (n : Bytes) : Preserves J (readFile d n) :=
  ofExcept.bind fun _ => preserves_query.bind fun node => preserves_regular node

theorem preserves_readState (d : FsPath) (n : Bytes) (limit : ℕ) :
    Preserves J (readState d n limit) :=
  (preserves_readFile d n).bind fun file => (preserves_singleLink file).bind fun _ =>
    preserves_query.bind fun _ => .pure

end Readers

/-! ### Writers -/

section Writers

open Directory

variable {allowed : FsPath → Prop} {fresh : ℕ → Prop} {J : World → Prop} [Steady J] {d : FsPath} {n : Bytes}

section

variable (h : KeptOn allowed fresh J)
include h

omit [Steady J] in
theorem preserves_sync (d : FsPath) : Preserves J (Directory.sync d) :=
  h.preserves_syncDir d

omit [Steady J] in
theorem preserves_createDirAll {names : List Bytes} {base : FsPath}
    (hp : ∀ pre, pre <+: names → pre ≠ [] → allowed (base ++ pre)) :
    Preserves J (Directory.createDirAll base names) := by
  induction names generalizing base with
  | nil => exact .pure
  | cons name names ih =>
    have hname : allowed (base ++ [name]) := hp [name] ⟨names, rfl⟩ (by simp)
    -- below the first name the same prefixes are allowed
    have hrest : Preserves J (Directory.createDirAll (base ++ [name]) names) := by
      refine ih fun pre hpre _ => ?_
      rw [List.append_assoc]
      exact hp (name :: pre) ((List.prefix_cons_inj name).mpr hpre) (by simp)
    refine (h.preserves_mkdir hname).attempt.bind fun r => ?_
    split
    · exact hrest
    · exact hrest
    · exact .fail

theorem openRoot_spec {path : FsPath} (hp : ∀ pre, pre <+: path → pre ≠ [] → allowed pre) (create : Bool) :
    Triple J (Directory.openRoot path create) (fun q w => J w ∧ q = path) J := by
  unfold Directory.openRoot
  split
  · exact .bind (preserves_createDirAll h hp) fun _ => openDirectory_spec path
  · exact openDirectory_spec path

omit [Steady J] in
theorem preserves_ensureChild (hp : allowed (d ++ [n])) :
    Preserves J (Directory.ensureChild d n) := by
  refine (h.preserves_mkdir hp).attempt.bind fun r => ?_
  split
  · exact preserves_sync h d
  · exact .pure
  · exact .fail

theorem child_spec (hp : allowed (d ++ [n])) (create : Bool) :
    Triple J (Directory.child d n create) (fun q w => J w ∧ q = d ++ [n]) J := by
  refine .bind (ofExcept (I := J)) fun _ => ?_
  split
  · exact .bind (preserves_ensureChild h hp) fun _ => openDirectory_spec _
  · exact openDirectory_spec _

/-- The parent of a relative path, and its last name. Only proper prefixes are
created. -/
theorem parentLoop_spec (create : Bool) {names : List Bytes}
    {dir : FsPath} (hp : ∀ pre, pre <+: names → pre ≠ [] → pre ≠ names → allowed (dir ++ pre)) :
    Triple J (Directory.parentLoop create dir (names.map Component.normal))
      (fun r w => J w ∧ r.1 ++ [r.2] = dir ++ names) J := by
  induction names generalizing dir with
  | nil => exact .fail fun _ hw => hw
  | cons name names ih =>
    rw [List.map_cons]
    cases names with
    | nil =>
      exact .pure fun _ hw => ⟨hw, rfl⟩
    | cons name' names =>
      have hname : allowed (dir ++ [name]) := hp [name] ⟨name' :: names, rfl⟩ (by simp) (by simp)
      refine .bind (child_spec h hname create) fun next => .assume fun hnext => ?_
      subst hnext
      refine .bind (preserves_refuseState _ _) fun _ => ?_
      refine (ih fun pre hpre _ hne => ?_).imp (fun _ hw => hw) (fun r w hw => ?_) fun _ hw => hw
      · rw [List.append_assoc]
        exact hp (name :: pre) ((List.prefix_cons_inj name).mpr hpre) (by simp) (by simpa using hne)
      · rw [List.append_assoc] at hw
        exact hw

theorem preserves_makePrivate (d : FsPath) :
    Preserves J (Directory.makePrivate d) :=
  preserves_query.bind fun _ => preserves_sync h d

theorem preserves_lock (hp : allowed (d ++ [n])) :
    Preserves J (Directory.lock d n) :=
  ofExcept.bind fun _ => (h.preserves_openCreate hp).bind fun node =>
    (preserves_regular node).bind fun file => (preserves_singleLink file).bind fun _ =>
      preserves_query

omit [Steady J] in
theorem preserves_unlink (hp : allowed (d ++ [n])) (directory : Bool) :
    Preserves J (Directory.unlink d n directory) :=
  ofExcept.bind fun _ =>
    ite (h.preserves_rmdir hp) (h.preserves_unlink hp)

theorem preserves_discardOwned (hp : allowed (d ++ [n])) :
    Preserves J (Directory.discardOwned d n) := by
  refine (preserves_readFile d n).attempt.bind fun r => ?_
  split
  · exact (preserves_singleLink _).bind fun _ => (preserves_unlink h hp false).bind fun _ => preserves_sync h d
  · exact .pure
  · exact .fail

/-! Staged files. -/

omit [Steady J] in
theorem preserves_drop {stage : StagedFile} (hp : allowed stage.path) :
    Preserves J stage.drop :=
  (preserves_unlink h hp false).attempt.bind fun _ => (preserves_sync h stage.dir).attempt.bind fun _ =>
    pure

theorem preserves_write {stage : StagedFile} (hi : fresh stage.inode)
    (bytes : Bytes) : Preserves J (stage.write bytes) :=
  (preserves_hit _).bind fun _ => h.preserves_writeAll hi

theorem preserves_settle (stage : StagedFile) (destination : FsPath) :
    Preserves J (stage.settle destination) := by
  refine (preserves_hit _).bind fun _ => (preserves_sync h destination).bind fun _ =>
    (preserves_hit _).bind fun _ => (preserves_sameInode _ _).bind fun same => ?_
  exact .ite pure ((preserves_sync h stage.dir).bind fun _ => preserves_hit _)

theorem preserves_installIn {stage : StagedFile} (hs : allowed stage.path)
    (hp : allowed (d ++ [n])) : Preserves J (stage.installIn d n) := by
  refine .bind (onError ?_ (preserves_drop h hs)) fun _ => preserves_settle h stage d
  exact ofExcept.bind fun _ => (h.preserves_syncFile _).bind fun _ =>
    (preserves_hit _).bind fun _ => h.preserves_rename hs hp

theorem stageNamed_spec (hp : allowed (d ++ [n])) :
    Triple J (Directory.stageNamed d n)
      (fun stage w => J w ∧ fresh stage.inode ∧ stage.dir = d ∧ stage.name = n) J := by
  refine .bind (ofExcept (I := J)) fun _ => ?_
  refine .bind (h.createExcl_spec hp) fun inode => .assume fun hfresh => ?_
  refine .bind (onError (I := J) (preserves_hit _) (preserves_drop h hp)) fun _ => ?_
  exact .pure fun _ hw => ⟨hw, hfresh, rfl, rfl⟩

theorem preserves_writeState (hpending : allowed (d ++ [pending]))
    (hn : allowed (d ++ [n])) (data : Bytes) :
    Preserves J (Directory.writeState d n data) := by
  refine (preserves_discardOwned h hpending).bind fun _ => ?_
  refine Triple.bind (stageNamed_spec h hpending) fun stage => Triple.assume fun hstage => ?_
  obtain ⟨hfresh, hdir, hname⟩ := hstage
  have hpath : allowed stage.path := by
    rw [StagedFile.path, hdir, hname]
    exact hpending
  refine .bind (onError ?_ (preserves_drop h hpath)) fun _ =>
    preserves_installIn h hpath hn
  exact (preserves_write h hfresh data).bind fun _ => preserves_hit _

end

end Writers

end Rds
