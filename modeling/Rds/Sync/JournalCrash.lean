import Mathlib.Data.List.Infix
import Rds.Framework.Postcard
import Rds.Sync.JournalFootprint

/-!
# Publication survives interruption

A receive opens a journal, stores chunks and assembles them. Wherever it is
interrupted, by an error of any system call, by the end of the process or by a
power loss, the destination holds what it held before or the complete new file
(`receive_crash_safe`).

Everything up to the rename works on private names and new files, so the
destination is `Unmoved`. The staging file is tracked through the assembly loop
(`Staged`): its name still refers to its inode and the inode holds what was
written. It is synchronised before the rename, so the moment the destination
name refers to it (`Published`) its content is complete and durable; from then on
the destination is again unmoved, now from the published state.
-/

namespace Rds

open Framework UnixPath Postcard Directory Std List Unmoved Triple Function Preserves

/-- What the destination holds is the complete file of the manifest. -/
def Complete (ext : JournalExternals) (manifest : Manifest) (c : Option Content) : Prop :=
  ∃ data, c = some (.file data) ∧ data.length = manifest.size ∧ ext.blake3 data = manifest.root

/-! ### The staging file -/

/-- The staging file holds the bytes written so far, and the destination has not
moved. -/
structure Staged (dest : FsPath) (ref : Fs) (stage : StagedFile) (written : Bytes) (fs : Fs) :
    Prop where
  unmoved : Unmoved dest ref fs
  fresh : ref.next ≤ stage.inode
  name : fs.names[stage.path]? = some (.file stage.inode)
  data : (fs.inode stage.inode).data = written

section Stage

variable {dest : FsPath} {ref : Fs} {stage : StagedFile} {written : Bytes}

theorem stageNamed_staged {d : FsPath} {n : Bytes} (hp : dest ≠ d ++ [n]) :
    Triple (OnFs (Unmoved dest ref)) (stageNamed d n)
      (fun stage w => OnFs (Staged dest ref stage []) w ∧ stage.path = d ++ [n])
      (OnFs (Unmoved dest ref)) := by
  refine .bind (ofExcept (I := OnFs (Unmoved dest ref))) fun _ => ?_
  refine .bind (Q := fun i => OnFs (Staged dest ref ⟨i, d, n⟩ []))
    (atomic_spec (fun fs i fs' h hrun => ?_) fun _ h => h) fun i => ?_
  · obtain ⟨hun, hfresh⟩ := h.createExcl hp hrun
    obtain ⟨hname, hdata⟩ := Fs.createExcl_eq_ok hrun
    exact ⟨⟨hun, hfresh, hname, hdata⟩, hun⟩
  refine .bind (Q := fun _ => OnFs (Staged dest ref ⟨i, d, n⟩ []))
    (onError (preserves_hit _) ?_ fun _ h => h.unmoved) fun _ => ?_
  · have hpath : dest ≠ StagedFile.path ⟨i, d, n⟩ := hp
    exact (preserves_drop (kept dest ref).onFs hpath).imp (fun _ h => h.unmoved)
      (fun _ _ h => h) fun _ h => h
  · exact .pure fun _ h => ⟨h, rfl⟩

theorem write_staged (data : Bytes) :
    Triple (OnFs (Staged dest ref stage written)) (stage.write data)
      (fun _ => OnFs (Staged dest ref stage (written ++ data))) (OnFs (Unmoved dest ref)) := by
  have happend : ∀ bytes fs, Staged dest ref stage written fs →
      Staged dest ref stage (written ++ bytes) (fs.append stage.inode bytes) := by
    intro bytes fs h
    refine ⟨h.unmoved.append h.fresh bytes, h.fresh, h.name, ?_⟩
    show (update fs.inode stage.inode _ stage.inode).data = _
    rw [update_self, h.data]
  refine .bind ((preserves_hit _).relax fun _ h => h.unmoved)
    fun _ => ?_
  refine call_spec (fun fs _ fs' h heff => ?_) (fun _ h => h.unmoved)
    fun n fs h => (happend _ fs h).unmoved
  cases heff
  exact happend data fs h

theorem staged_of_preserves {α ε : Type} {m : Prog World ε α}
    (h : Preserves (OnFs (Staged dest ref stage written)) m) :
    Triple (OnFs (Staged dest ref stage written)) m
      (fun _ => OnFs (Staged dest ref stage written)) (OnFs (Unmoved dest ref)) :=
  h.relax fun _ hw => hw.unmoved

theorem preserves_refuseStop {I : Fs → Prop} : Preserves (OnFs I) Journal.refuseStop :=
  preserves_askStop.bind fun _ => .ite fail pure

/-- **The assembly loop** writes one verified part after the other. -/
theorem assembleChunks_staged (ext : JournalExternals) (j : Journal) (chunks : List Chunk) :
    ∀ written, Triple (OnFs (Staged dest ref stage written))
      (chunks.foldlM (j.assembleChunk ext stage) written) (fun out w => OnFs (Staged dest ref stage out) w ∧
        out.length = written.length + totalLen chunks) (OnFs (Unmoved dest ref)) := by
  induction chunks with
  | nil => exact fun written => .pure fun _ hw => ⟨hw, rfl⟩
  | cons c chunks ih =>
    intro written
    -- one iteration extends what was written by exactly the chunk's length
    have hstep : Triple (OnFs (Staged dest ref stage written)) (j.assembleChunk ext stage written c)
        (fun out w => OnFs (Staged dest ref stage out) w ∧ out.length = written.length + c.len)
        (OnFs (Unmoved dest ref)) := by
      refine .bind (staged_of_preserves preserves_refuseStop) fun _ => ?_
      refine .bind (staged_of_preserves (preserves_liftIo (preserves_readState _ _ _)))
        fun data => ?_
      split
      · exact .fail fun _ hw => hw.unmoved
      next hdata =>
      refine .bind (mapError _ (write_staged data)) fun _ => ?_
      refine .pure fun _ hw => ⟨hw, ?_⟩
      rw [length_append, not_not.mp (not_or.mp hdata).1]
    refine .bind hstep fun out => .assume fun hout => ?_
    refine (ih out).imp (fun _ hw => hw) (fun out' w hw => ⟨hw.1, ?_⟩) fun _ hw => hw
    rw [hw.2, hout, totalLen_cons, Nat.add_assoc]

end Stage

/-! ### Publication -/

/-- The destination name refers to the complete and durable new file. What a power
loss may leave there is that file, or what the reference state had. -/
structure Published (ext : JournalExternals) (manifest : Manifest) (dest : FsPath) (ref fs : Fs) :
    Prop where
  node : ∃ i, fs.names[dest]? = some (.file i) ∧ (fs.inode i).synced = true ∧
    (fs.inode i).data.length = manifest.size ∧ ext.blake3 (fs.inode i).data = manifest.root
  renamed : ref.renamed.count dest < fs.renamed.count dest
  disk : ∀ n ∈ fs.disk dest, n = fs.names[dest]? ∨ n ∈ ref.disk dest ∨ n = ref.names[dest]?
  old : ∀ i < ref.next, (fs.inode i).data = (ref.inode i).data ∧
    ((ref.inode i).synced = true → (fs.inode i).synced = true)
  next : ref.next ≤ fs.next

/-- Nothing has happened to the destination, or the new file is published. -/
def OldOrNew (ext : JournalExternals) (manifest : Manifest) (dest : FsPath) (ref fs : Fs) : Prop :=
  Unmoved dest ref fs ∨ Published ext manifest dest ref fs

section Publish

variable {ext : JournalExternals} {manifest : Manifest} {dest : FsPath} {ref : Fs}
  {stage : StagedFile} {data : Bytes}

theorem Published.of_unmoved {mid fs : Fs} (h : Published ext manifest dest ref mid)
    (hun : Unmoved dest mid fs) : Published ext manifest dest ref fs := by
  obtain ⟨i, hname, hsync, hlen, hroot⟩ := h.node
  have hi : i < mid.next := mid.names_lt dest i hname
  refine ⟨⟨i, hun.name.trans hname, hun.synced i hi hsync, ?_, ?_⟩, hun.renamed ▸ h.renamed,
    ?_, ?_, h.next.trans hun.next⟩
  · rw [hun.data i hi]
    exact hlen
  · rw [hun.data i hi]
    exact hroot
  · intro n hn
    rw [hun.name]
    rcases hun.disk n hn with hd | hd
    · exact h.disk n hd
    · exact .inl hd
  · intro k hk
    have hk' := hk.trans_le h.next
    exact ⟨(hun.data k hk').trans (h.old k hk).1, fun hs => hun.synced k hk' ((h.old k hk).2 hs)⟩

theorem OldOrNew.of_unmoved {mid fs : Fs} (h : OldOrNew ext manifest dest ref mid)
    (hun : Unmoved dest mid fs) : OldOrNew ext manifest dest ref fs :=
  h.imp (fun hold => hold.trans hun) fun hnew => hnew.of_unmoved hun

theorem settled_of_unmoved (mid fs : Fs)
    (h : Published ext manifest dest ref mid ∧ mid.Durable dest) (hun : Unmoved dest mid fs) :
    Published ext manifest dest ref fs ∧ fs.Durable dest :=
  ⟨h.1.of_unmoved hun, hun.durable h.2⟩

/-- **The rename publishes.** A complete and synchronised staging file becomes the
destination. -/
theorem published_of_rename {fs fs' : Fs} {u : Unit} (h : Staged dest ref stage data fs)
    (hsync : (fs.inode stage.inode).synced = true) (hlen : data.length = manifest.size)
    (hroot : ext.blake3 data = manifest.root) (hne : dest ≠ stage.path)
    (hrun : Fs.rename stage.path dest fs = .ok (u, fs')) :
    Published ext manifest dest ref fs' := by
  obtain ⟨i, hi, hcase⟩ := Fs.rename_eq_ok hrun
  obtain rfl : stage.inode = i := by
    rw [h.name] at hi
    simpa using hi
  rcases hcase with ⟨hsame, -⟩ | ⟨-, hn, rfl⟩
  · -- the destination cannot already be the staging file: that one is newer
    rw [h.unmoved.name] at hsame
    exact absurd (ref.names_lt dest _ hsame) (Nat.not_lt.mpr h.fresh)
  have hname : (((fs.dropLink fs.names[dest]?).setName stage.path none (by simp)).setName dest
      (some (.file stage.inode)) hn).names[dest]? = some (.file stage.inode) :=
    (Fs.names_setName hn).trans (if_pos rfl)
  have hinode := Fs.inode_dropLink fs fs.names[dest]?
  refine ⟨⟨stage.inode, hname, ?_, ?_, ?_⟩, ?_, ?_, ?_, ?_⟩
  · exact (hinode stage.inode).2.trans hsync
  · show ((fs.dropLink fs.names[dest]?).inode stage.inode).data.length = _
    rw [(hinode stage.inode).1, h.data, hlen]
  · show ext.blake3 ((fs.dropLink fs.names[dest]?).inode stage.inode).data = _
    rw [(hinode stage.inode).1, h.data, hroot]
  · show _ < (dest :: _).count dest
    rw [count_cons_self, ← (h.unmoved.dropLink fs.names[dest]?).renamed]
    exact Nat.lt_succ_self _
  · intro n hmem
    change n ∈ update (update (fs.dropLink fs.names[dest]?).disk stage.path _)
      dest (_ :: update (fs.dropLink fs.names[dest]?).disk stage.path _ dest) dest at hmem
    rw [update_self, mem_cons, update_of_ne hne] at hmem
    rcases hmem with rfl | hmem
    · exact .inl hname.symm
    · exact .inr ((h.unmoved.dropLink fs.names[dest]?).disk n hmem)
  · intro k hk
    exact ⟨(hinode k).1.trans (h.unmoved.data k hk), fun hs => (hinode k).2.trans (h.unmoved.synced k hk hs)⟩
  · exact (h.unmoved.dropLink fs.names[dest]?).next

/-- Up to the rename the destination is unmoved; a rename that fails may have
happened. -/
theorem moveInto_spec (hlen : data.length = manifest.size) (hroot : ext.blake3 data = manifest.root)
    (hne : dest ≠ stage.path) {d : FsPath} {n : Bytes} (hdn : d ++ [n] = dest) :
    Triple (OnFs (Staged dest ref stage data)) (stage.moveInto d n)
      (fun _ => OnFs (Published ext manifest dest ref)) (OnFs (OldOrNew ext manifest dest ref)) := by
  refine .bind (Q := fun _ => OnFs (Staged dest ref stage data))
    (ofExcept (fun _ _ _ h => h) fun _ h => Or.inl h.unmoved) fun _ => ?_
  refine .bind (Q := fun _ => OnFs fun fs => Staged dest ref stage data fs ∧
      (fs.inode stage.inode).synced = true)
    (call_spec (fun fs _ fs' h heff => ?_) (fun _ h => Or.inl h.unmoved)
      fun _ _ h => Or.inl h.unmoved) fun _ => ?_
  · cases heff
    have hinode : (fs.syncFile stage.inode).inode stage.inode =
        { fs.inode stage.inode with synced := true } := update_self ..
    refine ⟨⟨h.unmoved.syncFile _, h.fresh, h.name, ?_⟩, ?_⟩
    · rw [hinode]
      exact h.data
    · rw [hinode]
  · refine .bind ((preserves_hit _).relax
      fun _ h => Or.inl h.1.unmoved) fun _ => ?_
    refine atomic_spec (fun fs u fs' h hrun => ?_) fun _ h => Or.inl h.1.unmoved
    rw [hdn] at hrun
    have hpub := published_of_rename h.1 h.2 hlen hroot hne hrun
    exact ⟨hpub, Or.inr hpub⟩

/-- The sync of its directory makes the new name durable; what follows moves nothing. -/
theorem settle_spec (stage : StagedFile) {d : FsPath} {n : Bytes} (hdn : d ++ [n] = dest) :
    Triple (OnFs (Published ext manifest dest ref)) (stage.settle d)
      (fun _ => OnFs fun fs => Published ext manifest dest ref fs ∧ fs.Durable dest)
      (OnFs (Published ext manifest dest ref)) := by
  refine .bind (preserves_hit _) fun _ => ?_
  refine .bind (Q := fun _ => OnFs fun fs =>
      Published ext manifest dest ref fs ∧ fs.Durable dest)
    (call_spec (fun fs _ fs' h heff => ?_) (fun _ h => h) fun _ _ h => h) fun _ => ?_
  · cases heff
    have hpub := h.of_unmoved ((refl dest fs).syncDir d)
    refine ⟨hpub, fun m hm => ?_, fun i hi => ?_⟩
    · -- the destination is a name of the synchronised directory
      change m ∈ (if dest ≠ [] ∧ dest.dropLast = d then [fs.names[dest]?] else fs.disk dest) at hm
      rw [← hdn, if_pos ⟨by simp, by simp⟩, mem_singleton, hdn] at hm
      exact hm
    obtain ⟨k, hk, hsync, -⟩ := hpub.node
    obtain rfl : i = k := by
      rw [hk] at hi
      simpa using hi.symm
    exact hsync
  · have hrest : Preserves (OnFs fun fs => Published ext manifest dest ref fs ∧ fs.Durable dest)
        (do hit .destinationSynced
            if ← Directory.sameInode stage.dir d then pure ()
            else do
              Directory.sync stage.dir
              hit .sourceSynced) := by
      refine preserves settled_of_unmoved fun mid => ?_
      refine (preserves_hit _).bind fun _ => (preserves_sameInode _ _).bind fun same => ?_
      exact .ite pure
        ((preserves_sync (kept dest mid).onFs stage.dir).bind fun _ => preserves_hit _)
    exact hrest.relax fun _ h => h.1

theorem drop_spec (hne : dest ≠ stage.path) :
    Preserves (OnFs (OldOrNew ext manifest dest ref)) stage.drop :=
  preserves (fun _ _ h hun => h.of_unmoved hun)
    fun mid => preserves_drop (kept dest mid).onFs hne

/-- **Installing a complete stage.** -/
theorem installIn_spec (hlen : data.length = manifest.size)
    (hroot : ext.blake3 data = manifest.root) (hne : dest ≠ stage.path) {d : FsPath} {n : Bytes}
    (hdn : d ++ [n] = dest) :
    Triple (OnFs (Staged dest ref stage data)) (stage.installIn d n)
      (fun _ => OnFs fun fs => Published ext manifest dest ref fs ∧ fs.Durable dest)
      (OnFs (OldOrNew ext manifest dest ref)) := by
  refine .bind (onError (moveInto_spec hlen hroot hne hdn) (drop_spec hne)
    fun _ h => h) fun _ => ?_
  exact (settle_spec stage hdn).relax fun _ h => Or.inr h

/-- A stage that is filled without an error has the size and the root of the manifest. -/
theorem fillStage_spec (j : Journal) (hsize : totalLen j.manifest.chunks = manifest.size)
    (hroot : j.manifest.root = manifest.root) :
    Triple (OnFs (Staged dest ref stage [])) (j.fillStage ext stage)
      (fun _ => fun w => ∃ data, OnFs (Staged dest ref stage data) w ∧
        data.length = manifest.size ∧ ext.blake3 data = manifest.root) (OnFs (Unmoved dest ref)) := by
  refine .bind (assembleChunks_staged ext j j.manifest.chunks []) fun written =>
    assume fun hlen => ?_
  have hlen' : written.length = manifest.size := by
    rw [hlen, hsize, length_nil, Nat.zero_add]
  split
  · exact .fail fun _ hw => hw.unmoved
  next hhash =>
  refine .bind (staged_of_preserves (preserves_liftIo (preserves_hit _))) fun _ => ?_
  refine (staged_of_preserves preserves_refuseStop).imp (fun _ hw => hw) (fun _ _ hw => ?_)
    fun _ hw => hw
  exact ⟨written, hw, hlen', (not_not.mp hhash).trans hroot⟩

theorem preserves_cleanup {mid : Fs} {j : Journal} (hj : Bound (fun q => dest ≠ q) dest manifest j) :
    Preserves (OnFs (Unmoved dest mid)) j.cleanup := by
  have h := (kept dest mid).onFs
  refine .bind (forM fun c _ => ?_) fun _ => ?_
  · exact (preserves_removeIfPresent h (hj.parts.name _) false).bind fun _ => preserves_hit _
  refine (preserves_sync h _).bind fun _ => ?_
  refine (preserves_removeIfPresent h (hj.dir.name _) false).bind fun _ => ?_
  refine (preserves_hit _).bind fun _ => ?_
  refine (preserves_removeIfPresent h (hj.dir.name _) true).bind fun _ => ?_
  refine (preserves_sync h _).bind fun _ => (preserves_hit _).bind fun _ => ?_
  refine (preserves_removeIfPresent h (hj.state.name _) true).bind fun _ => ?_
  exact (preserves_sync h _).bind fun _ => preserves_hit _

/-- **Assembly publishes or leaves the destination as it was.** -/
theorem assembleCancellable_spec {j : Journal} (ht : Tiling manifest)
    (hj : Bound (fun q => dest ≠ q) dest manifest j) :
    Triple (OnFs (Unmoved dest ref)) (j.assembleCancellable ext)
      (fun _ => OnFs fun fs => Published ext manifest dest ref fs ∧ fs.Durable dest)
      (OnFs (OldOrNew ext manifest dest ref)) := by
  have hold : ∀ w, OnFs (Unmoved dest ref) w → OnFs (OldOrNew ext manifest dest ref) w :=
    fun _ hw => Or.inl hw
  unfold Journal.assembleCancellable
  split
  · exact .fail hold
  refine .bind (preserves_refuseStop.relax hold) fun _ => ?_
  refine .bind ((mapError _ (stageNamed_staged (hj.destState.name _))).relax hold) fun stage => .assume fun hpath => ?_
  have hne : dest ≠ stage.path := hpath ▸ hj.destState.name assembly
  have hsize : totalLen j.manifest.chunks = manifest.size := hj.manifest_eq ▸ ht.covers
  have hroot : j.manifest.root = manifest.root := by rw [hj.manifest_eq]
  -- a failure while the stage is filled drops it; the destination is still unmoved
  refine .bind (onError (fillStage_spec j hsize hroot)
    ((preserves_liftIo (preserves_drop (kept dest ref).onFs hne)).imp (fun _ h => h)
      (fun _ _ h => hold _ h) hold) hold) fun _ => .exists_pre fun data => ?_
  refine (assume fun hdata => ?_)
  refine .bind (mapError _ (installIn_spec hdata.1 hdata.2 hne hj.dest_eq)) fun _ => ?_
  -- after the commit only the journal is removed, and its errors are dropped
  have hclean : Preserves (OnFs fun fs => Published ext manifest dest ref fs ∧ fs.Durable dest)
      (Prog.attempt (liftIo j.cleanup)) :=
    (preserves settled_of_unmoved fun mid =>
      preserves_liftIo (preserves_cleanup hj)).attempt
  exact .bind (hclean.relax fun _ h => Or.inr h.1)
    fun _ => .pure fun _ h => h

theorem Published.complete {fs : Fs} (h : Published ext manifest dest ref fs) :
    Complete ext manifest (fs.content dest) := by
  obtain ⟨i, hname, -, hlen, hroot⟩ := h.node
  refine ⟨(fs.inode i).data, ?_, hlen, hroot⟩
  show fs.names[dest]?.map fs.contentOf = _
  rw [hname]
  rfl

/-- After a power loss the destination is as it was, or complete. -/
theorem Published.mayHold {fs : Fs} (h : Published ext manifest dest ref fs)
    (href : ref.Durable dest) {c : Option Content} (hc : fs.MayHold dest c) :
    c = ref.content dest ∨ Complete ext manifest c := by
  obtain ⟨i, hname, hsync, hlen, hroot⟩ := h.node
  have hdisk : ∀ n ∈ fs.disk dest, n = some (.file i) ∨ n = ref.names[dest]? := by
    intro n hn
    rcases h.disk n hn with hd | hd | hd
    · exact .inl (hd.trans hname)
    · exact .inr (href.name n hd)
    · exact .inr hd
  cases hc with
  | absent hn =>
    refine .inl ?_
    show none = ref.names[dest]?.map ref.contentOf
    rw [← (hdisk none hn).resolve_left (by simp), Option.map_none]
  | present n c hn hs =>
    rcases hdisk _ hn with hnew | hold
    · -- the new name reached the disk: its data was synchronised before
      obtain rfl : n = .file i := by simpa using hnew
      refine .inr ⟨(fs.inode i).data, congrArg some (hs.eq_contentOf ?_), hlen, hroot⟩
      intro k hk
      cases hk
      exact hsync
    -- the old name survived: the old file was durable and is not written to
    refine .inl ?_
    show some c = ref.names[dest]?.map ref.contentOf
    rw [← hold]
    cases n with
    | directory | special => exact congrArg some hs
    | file k =>
      have hk := h.old k (ref.names_lt dest k hold.symm)
      have hc := hs.eq_contentOf fun k' hk' => by
        cases hk'
        exact hk.2 (href.data k hold.symm)
      rw [hc]
      show some (Content.file (fs.inode k).data) = some (Content.file (ref.inode k).data)
      rw [hk.1]

end Publish

/-! ### Whole receives -/

section Receive

variable {dest : FsPath}

/-- **Opening** keeps away from the destination, whatever names lead to it. -/
theorem openCancellable_spec (ext : JournalExternals) (destDir : FsPath) (relPath : Bytes)
    (manifest : Manifest) (ref : Fs) (hdest : dest = destDir ++ realParts relPath) :
    Triple (OnFs (Unmoved dest ref)) (Journal.openCancellable ext destDir relPath manifest)
      (fun j w => OnFs (Unmoved dest ref) w ∧
        Bound (fun q => dest ≠ q) dest manifest j ∧ Tiling manifest) (OnFs (Unmoved dest ref)) := by
  refine openCancellable_rule (kept dest ref).onFs ext destDir relPath manifest
    (fun _ hw => hw) (fun q hparts hq => hdest ▸ (hq.ne_dest hparts).symm) ?_
  intro rel parent name hrel hparent ht
  have hstate := ne_stateDir_of_checkRelPath hrel
  -- no name of the destination's path is the state directory's
  have hroot : Owned (fun q => dest ≠ q) (destDir ++ [stateDir]) := by
    intro rest _ heq
    rw [hdest, append_assoc, append_cancel_left_eq] at heq
    exact hstate (heq ▸ mem_cons_self)
  have hdestState : Owned (fun q => dest ≠ q) (parent ++ [stateDir]) := by
    intro rest hrest heq
    rw [hdest, ← hparent, append_assoc] at heq
    simp [hrest.symm] at heq
  exact (openPinned_spec (kept dest ref) ext destDir rel hroot hdestState
    (hparent.trans hdest.symm)).imp (fun _ hw => hw) (fun j w hw => ⟨hw.1, hw.2, ht⟩) fun _ hw => hw

/-- A whole receive publishes the complete file durably, or ends with the old
content or the complete file in place. -/
theorem receive_spec (ext : JournalExternals) (destDir : FsPath) (relPath : Bytes)
    (manifest : Manifest) (stores : List (ℕ × Bytes)) (ref : Fs)
    (hdest : dest = destDir ++ realParts relPath) :
    Triple (OnFs (Unmoved dest ref)) (receive ext destDir relPath manifest stores)
      (fun _ => OnFs fun fs => Published ext manifest dest ref fs ∧ fs.Durable dest)
      (OnFs (OldOrNew ext manifest dest ref)) := by
  have hold : ∀ w, OnFs (Unmoved dest ref) w → OnFs (OldOrNew ext manifest dest ref) w :=
    fun _ hw => Or.inl hw
  refine .bind ((openCancellable_spec ext destDir relPath manifest ref hdest).relax hold) fun j => .assume fun hj => ?_
  -- the calls of `store` keep the journal bound, whether they succeed or fail
  have hstores : Triple (Holding (fun q => dest ≠ q) (Unmoved dest ref) dest manifest j)
      (stores.foldlM (storeOne ext) j)
      (Holding (fun q => dest ≠ q) (Unmoved dest ref) dest manifest) (OnFs (Unmoved dest ref)) :=
    foldlM (fun j call _ => storeOne_spec (kept dest ref) ext j call) j
  refine .bind (hstores.imp (fun w hw => ⟨hw, hj.1⟩) (fun _ _ hw => hw) hold) fun j' =>
    assume fun hj' => ?_
  exact assembleCancellable_spec hj.2 hj'

/-- **Crash-safe publication.** However a receive ends, by success, by an error or
by the end of the process at any system call, the destination holds its old content
or the complete new file. It returns a path only if the new file is there, and as
long as nothing was renamed to the destination the old content is untouched. If the
old content was durable, a power loss leaves the same alternatives, and after a
successful receive only the new file. -/
theorem receive_crash_safe (ext : JournalExternals) (destDir : FsPath) (relPath : Bytes)
    (manifest : Manifest) (stores : List (ℕ × Bytes)) (w : World) :
    let run := receive ext destDir relPath manifest stores w
    let dest := destDir ++ realParts relPath
    (run.2.fs.content dest = w.fs.content dest ∨ Complete ext manifest (run.2.fs.content dest)) ∧
      (∀ path, run.1 = .ok path → Complete ext manifest (run.2.fs.content dest)) ∧
      (run.2.fs.renamed.count dest = w.fs.renamed.count dest → run.2.fs.content dest = w.fs.content dest) ∧
      (w.fs.Durable dest → ∀ c, run.2.fs.MayHold dest c → (c = w.fs.content dest ∨ Complete ext manifest c) ∧
          ∀ path, run.1 = .ok path → Complete ext manifest c) := by
  intro run dest
  have hpost := receive_spec ext destDir relPath manifest stores w.fs (rfl : dest = _) w
    (refl dest w.fs)
  -- in every outcome the destination is old or new
  have hstate : OldOrNew ext manifest dest w.fs run.2.fs := by
    cases hrun : run.1 with
    | ok path =>
      rw [hrun] at hpost
      exact .inr hpost.1
    | err e | stopped =>
      rw [hrun] at hpost
      exact hpost
  have hok : ∀ path, run.1 = .ok path →
      Published ext manifest dest w.fs run.2.fs ∧ run.2.fs.Durable dest := by
    intro path hrun
    rw [hrun] at hpost
    exact hpost
  refine ⟨?_, ?_, ?_, ?_⟩
  · exact hstate.imp (fun hold => hold.content_eq) fun hnew => hnew.complete
  · exact fun path hrun => (hok path hrun).1.complete
  · intro hcount
    rcases hstate with hold | hnew
    · exact hold.content_eq
    · exact absurd hcount hnew.renamed.ne'
  intro hdur c hc
  refine ⟨?_, fun path hrun => ?_⟩
  · rcases hstate with hold | hnew
    · exact .inl (((hold.durable hdur).mayHold hc).trans hold.content_eq)
    · exact hnew.mayHold hdur hc
  · obtain ⟨hpub, hdurable⟩ := hok path hrun
    rw [hdurable.mayHold hc]
    exact hpub.complete

/-- The metadata of a journal for the file `a` holding `02`. -/
def byteMeta : Bytes := encodeBytes (utf8 "a") ++ varint64 1 ++ contentTwo.val

/-- BLAKE3, postcard and the chunker on the data of a receive of the file `a`
holding `02`. -/
def byteExternals : JournalExternals where
  blake3 b :=
    if b = [2] then contentTwo
    else if b = [3] then contentThree
    else if b = utf8 "a" then
      ⟨[0x17, 0x76, 0x2f, 0xdd, 0xd9, 0x69, 0xa4, 0x53, 0x92, 0x5d, 0x65, 0x71,
        0x7a, 0xc3, 0xee, 0xa2, 0x13, 0x20, 0xb6, 0x6b, 0x54, 0x34, 0x2f, 0xde,
        0x15, 0x12, 0x8d, 0x6c, 0xaf, 0x21, 0x21, 0x5f], rfl⟩
    else
      ⟨[0xa7, 0xb1, 0x38, 0xc3, 0xad, 0x7b, 0xe4, 0xd2, 0x61, 0x09, 0xbf, 0x34,
        0x74, 0xec, 0x0e, 0xe7, 0x7f, 0x06, 0xfc, 0x17, 0xa1, 0xbf, 0x0e, 0x10,
        0x1f, 0x13, 0xa6, 0xfb, 0x4b, 0x5d, 0x69, 0xfb], rfl⟩
  encodeMeta m := some (encodeBytes m.relPath ++ varint64 m.size ++ m.root.val)
  decodeMetaBody b := if b = byteMeta then some ⟨utf8 "a", 1, contentTwo⟩ else none
  cut data := if data = [] then [] else [data]

/-- The one-byte file `02`. -/
def byteManifest : Manifest := ⟨1, contentTwo, [⟨contentTwo, 0, 1⟩]⟩

/-- A durable directory `d` with a durable file `a` that holds `03`. -/
def byteFs : Fs where
  names := (∅ : ExtTreeMap FsPath Node compare).insert [utf8 "d"] .directory
    |>.insert [utf8 "d", utf8 "a"] (.file 0)
  inode _ := ⟨[3], true, 1⟩
  next := 1
  disk p := [((∅ : ExtTreeMap FsPath Node compare).insert [utf8 "d"] .directory
    |>.insert [utf8 "d", utf8 "a"] (.file 0))[p]?]
  renamed := []
  names_lt p i h := by
    rw [ExtTreeMap.getElem?_insert, ExtTreeMap.getElem?_insert] at h
    split_ifs at h <;> simp_all
  disk_lt p i h := by
    rw [List.mem_singleton, ExtTreeMap.getElem?_insert, ExtTreeMap.getElem?_insert] at h
    split_ifs at h <;> simp_all

/-- A receive of the file `a` over the old one, in an environment with these
faults. -/
def byteReceive (faults : List Fault) : Outcome SyncError FsPath × World :=
  receive byteExternals [utf8 "d"] (utf8 "a") byteManifest [(0, [2])] ⟨byteFs, faults, [], []⟩

/-- Undisturbed, the new file is in place and durable. Stopped at its 73rd system
call, the rename, it leaves the old file. -/
theorem receive_crash_safe_byte :
    (byteReceive []).1 = .ok [utf8 "d", utf8 "a"] ∧
      (∀ c, (byteReceive []).2.fs.MayHold ([utf8 "d"] ++ realParts (utf8 "a")) c →
        Complete byteExternals byteManifest c) ∧
      (byteReceive (List.replicate 72 .go ++ [.stop])).1 = .stopped ∧
      (byteReceive (List.replicate 72 .go ++ [.stop])).2.fs.content
        ([utf8 "d"] ++ realParts (utf8 "a")) = some (.file [3]) := by
  have hdurable : byteFs.Durable ([utf8 "d"] ++ realParts (utf8 "a")) :=
    ⟨fun n hn => mem_singleton.mp hn, fun i _ => rfl⟩
  have hok : (byteReceive []).1 = .ok [utf8 "d", utf8 "a"] := by decide +kernel
  have hstop : (byteReceive (replicate 72 .go ++ [.stop])).1 = .stopped := by
    decide +kernel
  have hcount : (byteReceive (replicate 72 .go ++ [.stop])).2.fs.renamed.count
      ([utf8 "d"] ++ realParts (utf8 "a")) = 0 := by
    decide +kernel
  have hold : byteFs.content ([utf8 "d"] ++ realParts (utf8 "a")) = some (.file [3]) := by
    decide +kernel
  refine ⟨hok, ?_, hstop, ?_⟩
  · unfold byteReceive at hok ⊢
    intro c hc
    obtain ⟨-, -, -, hloss⟩ := receive_crash_safe byteExternals [utf8 "d"] (utf8 "a") byteManifest
      [(0, [2])] ⟨byteFs, [], [], []⟩
    exact (hloss hdurable c hc).2 _ hok
  · unfold byteReceive at hcount ⊢
    obtain ⟨-, -, hkept, -⟩ := receive_crash_safe byteExternals [utf8 "d"] (utf8 "a") byteManifest
      [(0, [2])] ⟨byteFs, replicate 72 .go ++ [.stop], [], []⟩
    exact (hkept hcount).trans hold

end Receive

/-! ### What a receive leaves alone -/

section Frame

variable {destDir dest p : FsPath} {relPath : Bytes} {manifest : Manifest} {ref : Fs} {j : Journal}

/-- The name is not on the way to the destination, and not in a private state directory there. -/
structure Aside (destDir : FsPath) (relPath : Bytes) (p : FsPath) : Prop where
  way : ¬ p <+: destDir ++ realParts relPath
  outside : ∀ pre ∈ (realParts relPath).inits, ¬ destDir ++ pre ++ [stateDir] <+: p

theorem Aside.owned (h : Aside destDir relPath p) {pre : FsPath} (hpre : pre <+: realParts relPath) :
    Owned (fun q => p ≠ q) (destDir ++ pre ++ [stateDir]) :=
  fun rest _ heq => h.outside pre ((mem_inits ..).mpr hpre) ⟨rest, heq.symm⟩

theorem Aside.ne_prepared (h : Aside destDir relPath p) {q : FsPath}
    (hq : Prepared destDir (realParts relPath) q) : p ≠ q := by
  rintro rfl
  cases hq with
  | above hpre _ => exact h.way hpre
  | state hpre => exact h.outside _ ((mem_inits ..).mpr hpre) (prefix_refl _)
  | lock hpre => exact h.outside _ ((mem_inits ..).mpr hpre) (prefix_append _ _)

/-- **Assembly** moves the destination and private names only. -/
theorem preserves_assembleCancellable (ext : JournalExternals) (hj : Bound (fun q => p ≠ q) dest manifest j)
    (hdest : p ≠ dest) (hp : p ≠ []) : Preserves (OnFs (Unmoved p ref)) (j.assembleCancellable ext) := by
  have hkept := (kept p ref).onFs
  refine .ite fail (preserves_refuseStop.bind fun _ => ?_)
  refine Triple.bind (mapError _ (stageNamed_spec hkept (hj.destState.name _))) fun stage => .assume fun hstage => ?_
  have hpath : p ≠ stage.path := by
    rw [StagedFile.path, hstage.2.1, hstage.2.2]
    exact hj.destState.name _
  have hfill : Preserves (OnFs (Unmoved p ref)) (j.fillStage ext stage) := by
    refine (Preserves.foldlM (fun written c _ => ?_) _).bind fun written => ?_
    · refine preserves_refuseStop.bind fun _ => (preserves_liftIo (preserves_readState _ _ _)).bind fun data => ?_
      exact .ite fail ((preserves_liftIo (preserves_write hkept hstage.1 data)).bind fun _ => pure)
    · exact .ite fail ((preserves_liftIo (preserves_hit _)).bind fun _ => preserves_refuseStop)
  refine Preserves.bind (onError hfill (preserves_liftIo (preserves_drop hkept hpath)) fun _ hw => hw) fun _ => ?_
  refine (preserves_liftIo (preserves_installIn hkept hpath (hj.dest_eq ▸ hdest))).bind fun _ => ?_
  -- the cleanup does not depend on the destination, so it may as well be `p`
  have hclean : Preserves (OnFs (Unmoved p ref)) j.cleanup :=
    preserves_cleanup (j := { j with destParent := p.dropLast, destName := p.getLast hp })
      { hj with dest_eq := dropLast_append_getLast hp }
  exact (preserves_liftIo hclean).attempt.bind fun _ => pure

/-- A name aside is not prepared, not private and not the destination, so each part leaves it. -/
theorem preserves_receive (ext : JournalExternals) (stores : List (ℕ × Bytes)) (h : Aside destDir relPath p) :
    Preserves (OnFs (Unmoved p ref)) (receive ext destDir relPath manifest stores) := by
  have hkept := kept p ref
  have hopen : Triple (OnFs (Unmoved p ref)) (Journal.openCancellable ext destDir relPath manifest)
      (Holding (fun q => p ≠ q) (Unmoved p ref) (destDir ++ realParts relPath) manifest) (OnFs (Unmoved p ref)) := by
    refine openCancellable_rule hkept.onFs ext destDir relPath manifest (fun _ hw => hw)
      (fun q _ hq => h.ne_prepared hq) fun rel parent name hrel hparent _ => ?_
    have hroot := h.owned nil_prefix
    rw [append_nil] at hroot
    have hdir := congrArg dropLast hparent
    rw [dropLast_concat, dropLast_append_of_ne_nil (checkRelPath_eq_ok hrel).2.2] at hdir
    exact openPinned_spec hkept ext destDir rel hroot (hdir ▸ h.owned ( dropLast_prefix _)) hparent
  refine Triple.bind hopen fun j => .bind (.foldlM (fun j call _ => storeOne_spec hkept ext j call) j) fun j' =>
    .assume fun hj => ?_
  exact preserves_assembleCancellable ext hj (fun heq => h.way (heq ▸ prefix_refl _))
    fun heq => h.way (heq ▸ nil_prefix)

/-- **A receive is confined.** However it ends, and whatever it was sent, a name that is not on the way to the
destination and not in a private state directory there holds what it held, nothing was renamed to it, and if that
was durable a power loss does not change it. -/
theorem receive_confined (ext : JournalExternals) (destDir : FsPath) (relPath : Bytes) (manifest : Manifest)
    (stores : List (ℕ × Bytes)) (w : World) (p : FsPath) (h : Aside destDir relPath p) :
    let run := receive ext destDir relPath manifest stores w
    run.2.fs.content p = w.fs.content p ∧ run.2.fs.renamed.count p = w.fs.renamed.count p ∧
      (w.fs.Durable p → ∀ c, run.2.fs.MayHold p c → c = w.fs.content p) := by
  intro run
  have hrun : Unmoved p w.fs run.2.fs := (preserves_receive ext stores h).final (refl p w.fs)
  exact ⟨hrun.content_eq, hrun.renamed, fun hdur c hc => ((hrun.durable hdur).mayHold hc).trans hrun.content_eq⟩

/-- A receive of the file `b` beside the durable file `a`. -/
def besideReceive : Outcome SyncError FsPath × World :=
  receive byteExternals [utf8 "d"] (utf8 "b") byteManifest [(0, [2])] ⟨byteFs, [], [], []⟩

/-- It puts `b` in place, and `a` holds what it held, also after a power loss. -/
theorem receive_confined_sibling :
    besideReceive.1 = .ok [utf8 "d", utf8 "b"] ∧
      besideReceive.2.fs.content [utf8 "d", utf8 "b"] = some (.file [2]) ∧
      besideReceive.2.fs.content [utf8 "d", utf8 "a"] = some (.file [3]) ∧
      ∀ c, besideReceive.2.fs.MayHold [utf8 "d", utf8 "a"] c → c = some (.file [3]) := by
  have haside : Aside [utf8 "d"] (utf8 "b") [utf8 "d", utf8 "a"] := ⟨by decide +kernel, by decide +kernel⟩
  have hold : byteFs.content [utf8 "d", utf8 "a"] = some (.file [3]) := by decide +kernel
  have hdurable : byteFs.Durable [utf8 "d", utf8 "a"] := ⟨fun n hn => mem_singleton.mp hn, fun i _ => rfl⟩
  refine ⟨by decide +kernel, by decide +kernel, ?_⟩
  unfold besideReceive
  obtain ⟨hcontent, -, hloss⟩ := receive_confined byteExternals [utf8 "d"] (utf8 "b") byteManifest [(0, [2])]
    ⟨byteFs, [], [], []⟩ _ haside
  exact ⟨hcontent.trans hold, fun c hc => (hloss hdurable c hc).trans hold⟩

end Frame

end Rds
