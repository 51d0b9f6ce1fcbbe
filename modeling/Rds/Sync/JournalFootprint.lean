import Rds.Sync.Footprint
import Rds.Sync.Journal

/-!
# What the journal touches before it publishes

Opening a journal and storing chunks changes private state only. As for the
confined operations below it, this is stated for an arbitrary invariant that
survives changes to allowed names and to new files (`Kept`): `openPinned_spec` and
`storeOne_spec` say that the invariant is kept however the call ends, and that
the journal it returns is `Bound` to directories it owns and to the destination
it was opened for.
-/

namespace Rds

open Framework UnixPath Directory List Triple

section Calls

variable {J : World → Prop} [Steady J]

theorem preserves_checkStop : Preserves J checkStop :=
  preserves_askStop.bind fun _ => .ite Preserves.fail Preserves.pure

theorem preserves_liftIo {α : Type} {P : World → Prop} {m : Sys α} (h : Preserves P m) :
    Preserves P (liftIo m) :=
  h.mapError SyncError.io

theorem preserves_readMeta (ext : JournalExternals) (dir : FsPath) :
    Preserves J (readMeta ext dir) := by
  refine (preserves_readState dir metaName metaLimit).attempt.bind fun r => ?_
  split
  · exact .pure
  · exact .pure
  · exact .fail

theorem preserves_openExisting (d : FsPath) (n : Bytes) :
    Preserves J (Journal.openExisting d n) := by
  refine (preserves_readFile d n).attempt.bind fun r => ?_
  split
  · exact .pure
  · exact .pure
  · exact .fail

theorem preserves_visitBudget (budget : ℕ) : Preserves J (visitBudget budget) :=
  preserves_checkStop.bind fun _ => .ite Preserves.fail Preserves.pure

theorem preserves_visitNames {visit : ℕ → Bytes → Sys Visit}
    (hv : ∀ budget name, Preserves J (visit budget name)) (names : List Bytes)
    (budget : ℕ) : Preserves J (visitNames visit budget names) := by
  induction names generalizing budget with
  | nil => exact .pure
  | cons name names ih =>
    refine preserves_query.attempt.bind fun r => ?_
    split
    · exact .pure
    refine .ite (ih budget) ((hv budget name).bind fun out => ?_)
    split
    · exact ih _
    · exact .pure

theorem preserves_visitChildren {visit : ℕ → Bytes → Sys Visit}
    (hv : ∀ budget name, Preserves J (visit budget name)) (budget : ℕ) :
    Preserves J (visitChildren visit budget) := by
  refine preserves_query.attempt.bind fun r => ?_
  split
  · exact .pure
  · exact preserves_nextListing.bind fun names => preserves_visitNames hv names budget

end Calls

section Collect

variable {allowed : FsPath → Prop} {fresh : ℕ → Prop} {J : World → Prop} [Steady J]

variable (h : KeptOn allowed fresh J)
include h

omit [Steady J] in
theorem preserves_removeIfPresent {d : FsPath} {n : Bytes} (hp : allowed (d ++ [n])) (directory : Bool) :
    Preserves J (removeIfPresent d n directory) := by
  refine (preserves_unlink h hp directory).attempt.bind fun r => ?_
  split
  · exact .pure
  · exact .pure
  · exact .fail

theorem preserves_collectPart {parts : FsPath} (hd : Owned allowed parts) (budget : ℕ) (part : Bytes) :
    Preserves J (collectPart parts budget part) := by
  refine (preserves_visitBudget budget).attempt.bind fun r => ?_
  split
  · exact .pure
  · refine .ite ?_ Preserves.pure
    exact (preserves_discardOwned h (hd.name part)).attempt.bind fun _ => .pure

theorem preserves_collectRest {entry state : FsPath}
    (he : Owned allowed entry) (hs : Owned allowed state) (name : Bytes) (budget : ℕ) :
    Preserves J (collectRest entry state name budget) := by
  refine .bind (Preserves.attempt ?_) fun _ => .pure
  exact preserves_checkStop.bind fun _ => (preserves_discardOwned h (he.name _)).bind fun _ =>
    (preserves_discardOwned h (he.name _)).bind fun _ => (preserves_sync h entry).bind fun _ =>
      (preserves_removeIfPresent h (hs.name name) true).bind fun _ => preserves_sync h state

theorem preserves_collectJournal {entry state : FsPath}
    (he : Owned allowed entry) (hs : Owned allowed state) (name : Bytes) (budget : ℕ) :
    Preserves J (collectJournal entry state name budget) := by
  refine preserves_checkStop.attempt.bind fun r => ?_
  split
  · exact .pure
  refine bind (attempt (child_spec h (he.name partsName) false) fun _ hw => hw)
    fun r => ?_
  cases r with
  | error e => exact preserves_collectRest h he hs name budget
  | ok parts =>
    refine assume fun hparts => ?_
    have hd : Owned allowed parts := hparts ▸ he.child partsName
    refine (preserves_visitChildren (preserves_collectPart h hd) budget).bind fun out => ?_
    split
    · exact .pure
    refine .bind (Preserves.attempt ?_) fun r => ?_
    · exact preserves_checkStop.bind fun _ => (preserves_sync h parts).bind fun _ =>
        preserves_removeIfPresent h (he.name _) true
    · split
      · exact .pure
      · exact preserves_collectRest h he hs name _

variable {state : FsPath}

theorem preserves_collectSibling (ext : JournalExternals) (hs : Owned allowed state) (rel own : Bytes)
    (currentRoot : ChunkHash) (budget : ℕ) (name : Bytes) :
    Preserves J (collectSibling ext state rel own currentRoot budget name) := by
  refine (preserves_visitBudget budget).attempt.bind fun r => ?_
  split
  · exact .pure
  next budget =>
  refine .ite Preserves.pure ?_
  -- the sibling that was opened is inside the state directory
  have hopen : Triple J
      (do let entry ← child state name false
          let info ← readMeta ext entry
          pure (entry, info))
      (fun r w => J w ∧ r.1 = state ++ [name]) J :=
    bind (child_spec h (hs.name name) false) fun entry => .assume fun hentry =>
      bind (preserves_readMeta ext entry) fun info =>
        pure fun _ hw => ⟨hw, hentry⟩
  refine bind (attempt hopen fun _ hw => hw) fun r => ?_
  cases r with
  | error e => exact Preserves.pure
  | ok found =>
    obtain ⟨entry, info⟩ := found
    refine assume fun hentry => ?_
    have he : Owned allowed entry := by
      rw [show entry = state ++ [name] from hentry]
      exact hs.child name
    cases info with
    | none => exact Preserves.pure
    | some info =>
      refine Preserves.ite ?_ Preserves.pure
      refine (preserves_collectJournal h he hs name budget).bind fun out => ?_
      split
      · exact .pure
      · exact .ite Preserves.pure Preserves.pure

theorem preserves_collectSuperseded (ext : JournalExternals) (hs : Owned allowed state) (rel own : Bytes)
    (currentRoot : ChunkHash) :
    Preserves J (collectSuperseded ext state rel own currentRoot) := by
  refine (preserves_visitChildren (preserves_collectSibling h ext hs rel own currentRoot)
    maxCollectionEntries).bind fun out => ?_
  split
  · exact .pure
  · exact .ite Preserves.fail Preserves.pure

/-- The journal that is found, current or legacy, is inside the private state. -/
theorem selectJournal_spec (ext : JournalExternals)
    (hs : Owned allowed state) (rel : Bytes) (manifest : Manifest) :
    Triple J (selectJournal ext state rel manifest)
      (fun r w => J w ∧ ∀ dir ∈ r.2, Owned allowed dir) J := by
  have hnone : ∀ name : Bytes, Triple J (pure (name, none) : Sys (Bytes × Option FsPath))
      (fun r w => J w ∧ ∀ dir ∈ r.2, Owned allowed dir) J :=
    fun name => .pure fun _ hw => ⟨hw, by simp⟩
  have hlegacy : Triple J (selectLegacy ext state rel manifest)
      (fun r w => J w ∧ ∀ dir ∈ r.2, Owned allowed dir) J := by
    refine .bind (attempt (child_spec h (hs.name _) false) fun _ hw => hw)
      fun r => ?_
    cases r with
    | error e => exact hnone _
    | ok dir =>
      refine .assume fun hdir => ?_
      refine .bind (preserves_readMeta ext dir).attempt fun r => ?_
      split
      · split
        · exact .pure fun _ hw => ⟨hw, by
            rintro d ⟨⟩
            exact hdir ▸ hs.child _⟩
        · exact hnone _
      · exact hnone _
  refine .bind (attempt (child_spec h (hs.name _) false) fun _ hw => hw) fun r => ?_
  cases r with
  | ok dir =>
    refine .assume fun hdir => .pure fun _ hw => ⟨hw, ?_⟩
    rintro d ⟨⟩
    exact hdir ▸ hs.child _
  | error e =>
    cases e with
    | notFound => exact hlegacy
    | _ => exact .fail fun _ hw => hw

theorem preserves_writeMeta (ext : JournalExternals) {dir : FsPath}
    (hd : Owned allowed dir) (info : Meta) : Preserves J (writeMeta ext dir info) := by
  unfold writeMeta
  split
  · exact .fail
  · exact preserves_liftIo (preserves_writeState h (hd.name _) (hd.name _) _)

theorem journalDir_spec (hs : Owned allowed state)
    {selected : Bytes × Option FsPath} (hsel : ∀ dir ∈ selected.2, Owned allowed dir) :
    Triple J (Journal.journalDir state selected) (fun dir w => J w ∧ Owned allowed dir) J := by
  obtain ⟨name, selected⟩ := selected
  cases selected with
  | some dir => exact .pure fun _ hw => ⟨hw, hsel dir rfl⟩
  | none =>
    refine (child_spec h (hs.name name) true).imp (fun _ hw => hw) (fun dir w hw => ?_)
      fun _ hw => hw
    exact ⟨hw.1, hw.2 ▸ hs.child name⟩

end Collect

/-! ### The journal -/

/-- The journal owns its directories, and is for this destination and manifest. -/
structure Bound (allowed : FsPath → Prop) (dest : FsPath) (manifest : Manifest) (j : Journal) :
    Prop where
  state : Owned allowed j.state
  dir : Owned allowed j.dir
  parts : Owned allowed j.parts
  destState : Owned allowed j.destState
  dest_eq : j.destParent ++ [j.destName] = dest
  manifest_eq : j.manifest = manifest
  have_lt : ∀ i ∈ j.have_, i < manifest.chunks.length

theorem Bound.withHave {allowed : FsPath → Prop} {dest : FsPath} {manifest : Manifest}
    {j : Journal} (h : Bound allowed dest manifest j) {s : Finset ℕ} (k : ℕ)
    (hs : ∀ i ∈ s, i < manifest.chunks.length) :
    Bound allowed dest manifest { j with have_ := s, fetched := k } :=
  ⟨h.state, h.dir, h.parts, h.destState, h.dest_eq, h.manifest_eq, hs⟩

theorem Bound.insert {allowed : FsPath → Prop} {dest : FsPath} {manifest : Manifest}
    {j : Journal} (h : Bound allowed dest manifest j) {i : ℕ} (k : ℕ) (hi : i < manifest.chunks.length) :
    Bound allowed dest manifest { j with have_ := Insert.insert i j.have_, fetched := k } := by
  refine h.withHave k fun i' hi' => ?_
  rcases Finset.mem_insert.mp hi' with rfl | hold
  · exact hi
  · exact h.have_lt i' hold

section Journal

variable {allowed : FsPath → Prop} {fresh : ℕ → Prop} {I : Fs → Prop} {dest : FsPath}
  {manifest : Manifest}

/-- The invariant, beside a journal that is bound. -/
def Holding (allowed : FsPath → Prop) (I : Fs → Prop) (dest : FsPath) (manifest : Manifest)
    (j : Journal) (w : World) : Prop :=
  OnFs I w ∧ Bound allowed dest manifest j

variable (h : Kept allowed fresh I) (ext : JournalExternals)
include h

theorem rescanChunk_spec (j : Journal) {entry : Chunk × ℕ} (hentry : entry.2 < manifest.chunks.length) :
    Triple (Holding allowed I dest manifest j) (j.rescanChunk ext entry)
      (Holding allowed I dest manifest) (OnFs I) := by
  refine .assume fun hj => ?_
  refine .bind (preserves_liftIo preserves_checkStop) fun _ => ?_
  refine .bind (preserves_liftIo (preserves_readState _ _ _)).attempt fun r => ?_
  split
  · split
    · exact .pure fun _ hw => ⟨hw, hj.insert _ hentry⟩
    · exact .bind (preserves_liftIo (preserves_unlink h.onFs (hj.parts.name _) false)) fun _ =>
        pure fun _ hw => ⟨hw, hj⟩
  · exact .pure fun _ hw => ⟨hw, hj⟩
  · exact .fail fun _ hw => hw

variable {j : Journal}

theorem rescan_spec (hj : Bound allowed dest manifest j) :
    Triple (OnFs I) (j.rescan ext) (Holding allowed I dest manifest) (OnFs I) := by
  refine (foldlM (fun j' entry hentry => rescanChunk_spec h ext j' ?_) _).imp
    (fun _ hw => ⟨hw, hj.withHave (s := ∅) j.fetched (by simp)⟩) (fun _ _ hw => hw) fun _ hw => hw
  rw [← hj.manifest_eq]
  exact snd_lt_of_mem_zipIdx hentry

/-- Seeding marks only chunks that were wanted, hence indices of the manifest. -/
theorem seedLoop_spec (chunks : List Bytes) (hj : Bound allowed dest manifest j) {wanted : Journal.Wanted}
    (hwanted : ∀ e ∈ wanted, e.2 < manifest.chunks.length) :
    Triple (OnFs I) (Journal.seedLoop ext j wanted chunks) (Holding allowed I dest manifest) (OnFs I) := by
  induction chunks generalizing j wanted with
  | nil => exact .pure fun _ hw => ⟨hw, hj⟩
  | cons chunk chunks ih =>
    refine .bind (preserves_liftIo preserves_query).attempt fun read => ?_
    refine .bind (preserves_liftIo preserves_checkStop) fun _ => ?_
    refine .bind Preserves.ofExcept fun _ => ?_
    dsimp only
    split
    · exact ih hj hwanted
    refine .bind (preserves_liftIo (preserves_writeState h.onFs (hj.parts.name _) (hj.parts.name _) _)) fun _ => ?_
    -- the indices that the piece fills are wanted ones
    have hfilled := hj.withHave j.fetched
      (s := j.have_ ∪ ((wanted.filter fun e => e.1 = (ext.blake3 chunk, chunk.length)).map
        Prod.snd).toFinset) fun i hi => by
      rcases Finset.mem_union.mp hi with hold | hnew
      · exact hj.have_lt i hold
      · obtain ⟨e, he, rfl⟩ := mem_map.mp (mem_toFinset.mp hnew)
        exact hwanted e (mem_filter.mp he).1
    split
    · exact .pure fun _ hw => ⟨hw, hfilled⟩
    · exact ih hfilled fun e he => hwanted e (mem_filter.mp he).1

theorem seedFromDestination_spec (hj : Bound allowed dest manifest j) (file : ℕ) :
    Triple (OnFs I) (j.seedFromDestination ext file) (Holding allowed I dest manifest) (OnFs I) := by
  have hwant : Triple (OnFs I) (manifest.chunks.zipIdx.foldlM j.wantChunk [])
      (fun wanted w => OnFs I w ∧ ∀ e ∈ wanted, e.2 < manifest.chunks.length) (OnFs I) := by
    refine (foldlM (fun wanted entry hentry => .assume fun hwanted => ?_) []).imp
      (fun _ hw => ⟨hw, by simp⟩) (fun _ _ hw => hw) fun _ hw => hw
    refine .bind (preserves_liftIo preserves_checkStop) fun _ => ?_
    split
    · exact .pure fun _ hw => ⟨hw, hwanted⟩
    refine .pure fun _ hw => ⟨hw, fun e he => ?_⟩
    rcases mem_append.mp he with hold | hnew
    · exact hwanted e hold
    · rw [mem_singleton.mp hnew]
      exact snd_lt_of_mem_zipIdx hentry
  unfold Journal.seedFromDestination
  rw [hj.manifest_eq]
  refine .bind hwant fun wanted => .assume fun hwanted => ?_
  split
  · exact .pure fun _ hw => ⟨hw, hj⟩
  · exact .bind (preserves_liftIo preserves_query) fun data =>
      seedLoop_spec h ext _ hj hwanted

/-- Each directory is owned because its parent is. -/
theorem openPinned_spec (destDir : FsPath)
    (rel : Bytes) {state destParent destState : FsPath} {destName : Bytes}
    (hs : Owned allowed state) (hds : Owned allowed destState) (hdest : destParent ++ [destName] = dest) :
    Triple (OnFs I) (Journal.openPinned ext destDir rel manifest state destParent destName destState)
      (Holding allowed I dest manifest) (OnFs I) := by
  refine .bind (preserves_liftIo preserves_checkStop) fun _ => ?_
  refine .bind (preserves_liftIo (preserves_discardOwned h.onFs (hds.name _))) fun _ => ?_
  refine .bind (mapError _ (selectJournal_spec h.onFs ext hs rel manifest))
    fun selected => .assume fun hsel => ?_
  refine .bind (preserves_liftIo (preserves_collectSuperseded h.onFs ext hs _ _ _)) fun _ => ?_
  refine .bind (preserves_liftIo preserves_checkStop) fun _ => ?_
  refine .bind (preserves_liftIo (preserves_openExisting _ _)) fun existing => ?_
  refine .bind (mapError _ (journalDir_spec h.onFs hs hsel)) fun dir =>
    assume fun hdir => ?_
  refine .bind (mapError _ (child_spec h.onFs (hdir.name partsName) true)) fun parts =>
    assume fun hparts => ?_
  have hpo : Owned allowed parts := hparts ▸ hdir.child partsName
  refine .bind (preserves_liftIo (preserves_discardOwned h.onFs (hpo.name _))) fun _ => ?_
  refine .bind (preserves_writeMeta h.onFs ext hdir _) fun _ => ?_
  refine .bind (rescan_spec h ext ⟨hs, hdir, hpo, hds, hdest, rfl, by simp⟩) fun j =>
    assume fun hj => ?_
  have hseed : Triple (OnFs I) (j.seedExisting ext existing) (Holding allowed I dest manifest)
      (OnFs I) := by
    cases existing with
    | some file => exact seedFromDestination_spec h ext hj file
    | none => exact .pure fun _ hw => ⟨hw, hj⟩
  refine .bind hseed fun j' => .assume fun hj' => ?_
  exact .bind (preserves_liftIo preserves_checkStop) fun _ =>
    pure fun _ hw => ⟨hw, hj'⟩

theorem store_spec (hj : Bound allowed dest manifest j) (index : ℕ) (data : Bytes) :
    Triple (OnFs I) (j.store ext index data) (fun r => Holding allowed I dest manifest r.2) (OnFs I) := by
  unfold Journal.store
  split
  · exact .fail fun _ hw => hw
  next c hc =>
  have hindex : index < manifest.chunks.length :=
    hj.manifest_eq ▸ (List.getElem?_eq_some_iff.mp hc).1
  split
  · exact .fail fun _ hw => hw
  split
  · exact .pure fun _ hw => ⟨hw, hj⟩
  · exact .bind (preserves_liftIo (preserves_writeState h.onFs (hj.parts.name _) (hj.parts.name _) _)) fun _ =>
      pure fun _ hw => ⟨hw, hj.insert _ hindex⟩

theorem storeOne_spec (j : Journal) (call : ℕ × Bytes) :
    Triple (Holding allowed I dest manifest j) (storeOne ext j call)
      (Holding allowed I dest manifest) (OnFs I) := by
  refine .assume fun hj => ?_
  refine .bind (attempt (store_spec h ext hj call.1 call.2) fun _ hw => hw)
    fun r => ?_
  cases r with
  | ok out => exact .pure fun _ hw => hw
  | error e => exact .pure fun _ hw => ⟨hw, hj⟩

end Journal

/-! ### The way to the private state -/

/-- The names that opening a journal for the destination `destDir ++ parts` makes on
its way to the private state: the directories above the destination, the private
state of the root and of the destination's parent, and their receive locks. -/
inductive Prepared (destDir parts : FsPath) : FsPath → Prop where
  | above {pre : FsPath} (h : pre <+: destDir ++ parts) (hne : pre ≠ destDir ++ parts) :
      Prepared destDir parts pre
  | state {pre : FsPath} (h : pre <+: parts) : Prepared destDir parts (destDir ++ pre ++ [stateDir])
  | lock {pre : FsPath} (h : pre <+: parts) :
      Prepared destDir parts (destDir ++ pre ++ [stateDir] ++ [receiveLock])

theorem Prepared.ne_dest {destDir parts q : FsPath} (h : Prepared destDir parts q)
    (hparts : stateDir ∉ parts) : q ≠ destDir ++ parts := by
  intro hq
  cases h with
  | above h hne => exact hne hq
  | state h =>
    rw [append_assoc, append_cancel_left_eq] at hq
    exact hparts (hq ▸ by simp)
  | lock h =>
    rw [append_assoc, append_assoc, append_cancel_left_eq] at hq
    exact hparts (hq ▸ by simp)

section Open

variable {allowed : FsPath → Prop} {fresh : ℕ → Prop} {J : World → Prop} [Steady J]

/-- **Opening a journal**, up to its private state: an invariant that allows the
prepared names reaches the directories as they were pinned. -/
theorem openCancellable_rule (h : KeptOn allowed fresh J) (ext : JournalExternals)
    (destDir : FsPath) (relPath : Bytes) (manifest : Manifest) {Q : Journal → World → Prop}
    {E : World → Prop} (hE : ∀ w, J w → E w)
    (hallowed : ∀ q, stateDir ∉ realParts relPath → Prepared destDir (realParts relPath) q → allowed q)
    (hpinned : ∀ (rel : Bytes) (parent : FsPath) (name : Bytes), checkRelPath relPath = .ok rel →
      parent ++ [name] = destDir ++ realParts relPath → Tiling manifest →
      Triple J (Journal.openPinned ext destDir rel manifest (destDir ++ [stateDir]) parent name
        (parent ++ [stateDir])) Q E) :
    Triple J (Journal.openCancellable ext destDir relPath manifest) Q E := by
  have weaken {α : Type} {m : Prog World SyncError α} {φ : α → World → Prop}
      (hm : Triple J m φ J) : Triple J m φ E :=
    hm.relax hE
  refine .bind (weaken (preserves_liftIo preserves_checkStop)) fun _ => ?_
  refine .bind (Q := fun _ w => J w ∧ Tiling manifest)
    (ofExcept (fun _ _ hok hw => ⟨hw, checkManifest_eq_ok_iff.mp hok⟩) hE)
    fun _ => .assume fun ht => ?_
  refine .bind (Q := fun n w => J w ∧ checkRelPath relPath = .ok n)
    (ofExcept (fun _ _ hok hw => ⟨hw, hok⟩) hE) fun rel => .assume fun hrel => ?_
  obtain ⟨rfl, hplain, hne⟩ := checkRelPath_eq_ok hrel
  have hallow := fun q => hallowed q (ne_stateDir_of_checkRelPath hrel)
  have hnil : ([] : FsPath) <+: realParts relPath := nil_prefix
  refine .bind (weaken (preserves_liftIo preserves_checkStop)) fun _ => ?_
  -- the directories above the root are above the destination
  have habove : ∀ pre, pre <+: destDir → pre ≠ [] → allowed pre := by
    intro pre hpre _
    refine hallow pre (.above (hpre.trans (prefix_append ..)) fun heq => ?_)
    have hlen := hpre.length_le
    rw [heq, length_append] at hlen
    have := length_pos_iff.mpr hne
    omega
  refine .bind (weaken (mapError _ (openRoot_spec h habove true))) fun root =>
    assume fun hrootEq => ?_
  subst hrootEq
  have hstate : allowed (root ++ [stateDir]) := by
    have := hallow _ (.state hnil)
    rwa [append_nil] at this
  refine .bind (weaken (mapError _ (child_spec h hstate true))) fun state =>
    assume fun hstateEq => ?_
  subst hstateEq
  refine .bind (weaken (preserves_liftIo (preserves_makePrivate h _))) fun _ => ?_
  have hlock : allowed (root ++ [stateDir] ++ [receiveLock]) := by
    have := hallow _ (.lock hnil)
    rwa [append_nil] at this
  refine .bind (weaken (preserves_liftIo (preserves_lock h hlock))) fun _ => ?_
  have hparent : Triple J (Directory.parent root ((realParts relPath).foldl push []) true)
      (fun r w => J w ∧ r.1 ++ [r.2] = root ++ realParts relPath) J := by
    unfold Directory.parent
    rw [components_foldl_push hplain]
    refine parentLoop_spec h true fun pre hpre _ hproper => ?_
    refine hallow _ (.above ((prefix_append_right_inj root).mpr hpre) fun heq => ?_)
    exact hproper (append_cancel_left heq)
  refine .bind (weaken (mapError _ hparent)) fun r => .assume fun hr => ?_
  -- the parent is the root, followed by all names of the destination but the last
  obtain ⟨pre, hpre, hbelow⟩ : ∃ pre, pre <+: realParts relPath ∧ r.1 = root ++ pre := by
    refine ⟨(realParts relPath).dropLast, dropLast_prefix _, ?_⟩
    have hdrop := congrArg dropLast hr
    rwa [dropLast_concat, dropLast_append_of_ne_nil hne] at hdrop
  have hds : allowed (r.1 ++ [stateDir]) := hbelow ▸ hallow _ (.state hpre)
  have hdl : allowed (r.1 ++ [stateDir] ++ [receiveLock]) := hbelow ▸ hallow _ (.lock hpre)
  refine .bind (weaken (mapError _ (child_spec h hds true))) fun destState =>
    assume fun hdsEq => ?_
  subst hdsEq
  refine .bind (weaken (preserves_liftIo (preserves_makePrivate h _))) fun _ => ?_
  have hlockParent : Preserves J (Journal.lockParent (root ++ [stateDir]) (r.1 ++ [stateDir])) :=
    (preserves_sameInode _ _).bind fun _ => .ite Preserves.pure (preserves_lock h hdl)
  refine .bind (weaken (preserves_liftIo hlockParent)) fun _ => ?_
  exact hpinned _ r.1 r.2 hrel hr ht

end Open

end Rds
