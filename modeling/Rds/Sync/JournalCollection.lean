import Rds.Framework.Ghost
import Rds.Framework.Pruning
import Rds.Sync.JournalCrash
import Rds.Sync.Observed

/-!
# What a collection removes

Opening a journal sweeps the state directory for journals of the same destination
that an offer with other content has superseded (`collect_superseded`). The sweep
walks an arbitrary tree: foreign names, torn metadata, links planted in place of
files, journals of other destinations. Here is its frame.

Every removal is justified by the tree as the sweep found it (`Collectable`): the
journal's verified metadata binds the destination to other content under a matching
name, and what is removed in it is a private file the engine could have written, the
emptied directory of its parts, or the emptied journal directory itself. That the
metadata is read long after the sweep began, and in a tree the sweep has already
changed, makes no difference, because a sweep only removes (`Pruned`).

How many names are visited is counted by a twin of the sweep that writes each name
it visits into a log; the twin erases to the sweep.
-/

namespace Rds

open Framework UnixPath Directory Std Preserves Triple

/-! ### What may go -/

/-- The journal `name` holds other content for the destination `rel` than the one
offered, and is not the journal selected for the transfer. -/
structure Superseded (ext : JournalExternals) (fs : Fs) (state : FsPath) (rel own : Bytes)
    (currentRoot : ChunkHash) (name : Bytes) : Prop where
  other : name ≠ own
  id : isJournalId name = true
  directory : fs.names[state ++ [name]]? = some .directory
  bound : ∃ info, MetaAt ext fs (state ++ [name]) info ∧ info.relPath = rel ∧
    info.root ≠ currentRoot ∧ (hex info.root = name ∨ scopedId ext rel info.root = name)

/-- The files of a journal that the engine writes, relative to its directory. -/
inductive EngineFile : FsPath → Prop where
  | info : EngineFile [metaName]
  | pending : EngineFile [pending]
  | part {n : Bytes} (h : isContentId n = true ∨ n = Rds.pending) : EngineFile [partsName, n]

/-- What a collection may remove from a tree. -/
inductive Collectable (ext : JournalExternals) (fs : Fs) (state : FsPath) (rel own : Bytes)
    (currentRoot : ChunkHash) : FsPath → Prop where
  /-- A private file of a superseded journal. -/
  | file {name : Bytes} {sub : FsPath} {i : ℕ}
      (h : Superseded ext fs state rel own currentRoot name) (hsub : EngineFile sub)
      (hfile : PrivateFile fs (state ++ [name] ++ sub) i) :
      Collectable ext fs state rel own currentRoot (state ++ [name] ++ sub)
  /-- The directory of its parts. -/
  | parts {name : Bytes} (h : Superseded ext fs state rel own currentRoot name)
      (hdir : fs.names[state ++ [name] ++ [partsName]]? = some .directory) :
      Collectable ext fs state rel own currentRoot (state ++ [name] ++ [partsName])
  /-- The journal directory. -/
  | journal {name : Bytes} (h : Superseded ext fs state rel own currentRoot name) :
      Collectable ext fs state rel own currentRoot (state ++ [name])

theorem Collectable.ne_own {ext : JournalExternals} {fs : Fs} {state : FsPath} {rel own : Bytes}
    {currentRoot : ChunkHash} {p : FsPath}
    (h : Collectable ext fs state rel own currentRoot p) (rest : FsPath) :
    p ≠ state ++ own :: rest := by
  have hhead : ∃ name tail, name ≠ own ∧ p = state ++ name :: tail := by
    cases h with
    | file h hsub hfile => exact ⟨_, _, h.other, List.append_assoc ..⟩
    | parts h hdir => exact ⟨_, _, h.other, List.append_assoc ..⟩
    | journal h => exact ⟨_, [], h.other, rfl⟩
  obtain ⟨name, tail, hne, rfl⟩ := hhead
  intro heq
  exact hne (List.cons.inj (List.append_cancel_left heq)).1

/-! ### The operations of a sweep -/

section Sweep

variable {removable : FsPath → Prop} {ref : Fs}

theorem preserves_sync_pruned (d : FsPath) :
    Preserves (OnFs (Pruned removable ref)) (Directory.sync d) :=
  preserves_syncDir fun _ h => h.syncDir d

theorem preserves_discardOwned_pruned {d : FsPath} {n : Bytes}
    (hp : ∀ i, PrivateFile ref (d ++ [n]) i → removable (d ++ [n])) :
    Preserves (OnFs (Pruned removable ref)) (discardOwned d n) := by
  refine bind (attempt (readFile_spec d n) fun _ h => h) fun r => ?_
  cases r with
  | error e =>
    cases e with
    | notFound => exact pure
    | _ => exact fail
  | ok i =>
    refine bind (singleLink_spec d n i) fun _ => ?_
    refine bind (Q := fun _ => OnFs (Pruned removable ref)) ?_ fun _ =>
      preserves_sync_pruned d
    refine bind (Q := fun _ => OnFs fun fs =>
        Pruned removable ref fs ∧ PrivateFile fs (d ++ [n]) i)
      (ofExcept (fun _ _ _ h => h) fun _ h => h.1) fun _ => ?_
    refine atomic_spec (fun fs _ fs' h hrun => ?_) fun _ h => h.1
    -- what was checked just now held when the sweep began
    have hrem := hp i ⟨h.1.found h.2.name, h.1.singleLink h.2.links⟩
    have hgone := h.1.unlink hrem h.2.name h.2.links hrun
    exact ⟨hgone, hgone⟩

theorem preserves_removeDir_pruned {d : FsPath} {n : Bytes} (hp : removable (d ++ [n])) :
    Preserves (OnFs (Pruned removable ref)) (removeIfPresent d n true) := by
  have hunlink : Preserves (OnFs (Pruned removable ref)) (Directory.unlink d n true) :=
    ofExcept.bind fun _ => preserves_atomic fun _ _ _ h hrun => h.rmdir hp hrun
  refine hunlink.attempt.bind fun r => ?_
  split
  · exact .pure
  · exact .pure
  · exact .fail

theorem preserves_collectPart_pruned {parts : FsPath}
    (hp : ∀ n i, isContentId n = true ∨ n = pending → PrivateFile ref (parts ++ [n]) i →
      removable (parts ++ [n])) (budget : ℕ) (part : Bytes) :
    Preserves (OnFs (Pruned removable ref)) (collectPart parts budget part) := by
  refine (preserves_visitBudget budget).attempt.bind fun r => ?_
  split
  · exact .pure
  split
  · next hpart =>
    exact (preserves_discardOwned_pruned fun i => hp part i hpart).attempt.bind fun _ =>
      pure
  · exact .pure

end Sweep

/-! ### The frame -/

section Frame

variable {ext : JournalExternals} {ref : Fs} {state : FsPath} {rel own : Bytes}
  {currentRoot : ChunkHash} {name : Bytes}

/-- The tree has lost nothing but what the collection may remove. -/
abbrev Swept (ext : JournalExternals) (ref : Fs) (state : FsPath) (rel own : Bytes)
    (currentRoot : ChunkHash) : Fs → Prop :=
  Pruned (Collectable ext ref state rel own currentRoot) ref

section

variable (h : Superseded ext ref state rel own currentRoot name)
include h

theorem Superseded.file {n : Bytes} {i : ℕ}
    (hsub : EngineFile [n]) (hfile : PrivateFile ref (state ++ [name] ++ [n]) i) :
    Collectable ext ref state rel own currentRoot (state ++ [name] ++ [n]) :=
  .file h hsub hfile

theorem Superseded.part {n : Bytes} {i : ℕ}
    (hn : isContentId n = true ∨ n = pending)
    (hfile : PrivateFile ref (state ++ [name] ++ [partsName] ++ [n]) i) :
    Collectable ext ref state rel own currentRoot (state ++ [name] ++ [partsName] ++ [n]) := by
  have hpath : state ++ [name] ++ [partsName] ++ [n] = state ++ [name] ++ [partsName, n] :=
    List.append_assoc ..
  rw [hpath] at hfile ⊢
  exact .file h (.part hn) hfile

theorem preserves_collectRest_swept
    (budget : ℕ) :
    Preserves (OnFs (Swept ext ref state rel own currentRoot))
      (collectRest (state ++ [name]) state name budget) := by
  refine .bind (attempt ?_) fun _ => .pure
  refine preserves_checkStop.bind fun _ => ?_
  refine (preserves_discardOwned_pruned fun i => h.file .pending).bind fun _ => ?_
  refine (preserves_discardOwned_pruned fun i => h.file .info).bind fun _ => ?_
  refine (preserves_sync_pruned _).bind fun _ => ?_
  exact (preserves_removeDir_pruned (.journal h)).bind fun _ => preserves_sync_pruned _

/-- A superseded journal loses names below its own directory only. -/
theorem preserves_collectJournal_swept
    (budget : ℕ) :
    Preserves (OnFs (Swept ext ref state rel own currentRoot))
      (collectJournal (state ++ [name]) state name budget) := by
  refine preserves_checkStop.attempt.bind fun r => ?_
  split
  · exact .pure
  refine bind (attempt (child_found _ partsName) fun _ hw => hw) fun r => ?_
  cases r with
  | error e => exact preserves_collectRest_swept h budget
  | ok parts =>
    -- the directory of parts that was opened was there when the sweep began
    have hfound : ∀ w, OnFs (fun fs => Swept ext ref state rel own currentRoot fs ∧
        parts = state ++ [name] ++ [partsName] ∧
          fs.names[state ++ [name] ++ [partsName]]? = some .directory) w →
        OnFs (Swept ext ref state rel own currentRoot) w ∧ parts = state ++ [name] ++ [partsName] ∧
          ref.names[state ++ [name] ++ [partsName]]? = some .directory :=
      fun w hw => ⟨hw.1, hw.2.1, hw.1.found hw.2.2⟩
    refine imp (assume fun hparts => ?_) hfound (fun _ _ hw => hw) fun _ hw => hw
    obtain ⟨rfl, hdir⟩ := hparts
    refine .bind (preserves_visitChildren (fun budget part =>
      preserves_collectPart_pruned (fun n i hn => h.part hn) budget part) budget) fun out => ?_
    split
    · exact pure
    refine .bind (attempt ?_) fun r => ?_
    · exact preserves_checkStop.bind fun _ => (preserves_sync_pruned _).bind fun _ =>
        preserves_removeDir_pruned (.parts h hdir)
    · split
      · exact pure
      · exact preserves_collectRest_swept h _

end

theorem openSibling_spec (ext : JournalExternals) (ref : Fs) (state : FsPath) (name : Bytes)
    {removable : FsPath → Prop} :
    Triple (OnFs (Pruned removable ref))
      (do let entry ← child state name false
          let info ← readMeta ext entry
          pure (entry, info))
      (fun r w => OnFs (Pruned removable ref) w ∧ r.1 = state ++ [name] ∧
        ref.names[state ++ [name]]? = some .directory ∧
        ∀ info, r.2 = some info → MetaAt ext ref (state ++ [name]) info)
      (OnFs (Pruned removable ref)) := by
  refine .bind (child_found state name) fun entry => ?_
  refine .bind ((readMeta_spec ext entry).relax fun _ h => h.1)
    fun info => ?_
  refine .pure fun w hw => ?_
  obtain ⟨⟨hpruned, rfl, hdir⟩, hmeta⟩ := hw
  refine ⟨hpruned, rfl, hpruned.found hdir, fun info hinfo => ?_⟩
  obtain ⟨i, hfile, hdecode⟩ := hmeta info hinfo
  refine ⟨i, ⟨hpruned.found hfile.name, hpruned.singleLink hfile.links⟩, ?_⟩
  rw [← hpruned.data i]
  exact hdecode

theorem preserves_collectSibling_swept (budget : ℕ) (name : Bytes) :
    Preserves (OnFs (Swept ext ref state rel own currentRoot))
      (collectSibling ext state rel own currentRoot budget name) := by
  refine (preserves_visitBudget budget).attempt.bind fun r => ?_
  split
  · exact .pure
  next budget =>
  split
  · exact .pure
  next hname =>
  rw [not_or, Bool.not_eq_true, Bool.not_eq_false'] at hname
  refine bind (attempt (openSibling_spec ext ref state name) fun _ hw => hw)
    fun r => ?_
  cases r with
  | error e => exact pure
  | ok found =>
    obtain ⟨entry, info⟩ := found
    refine assume fun hfound => ?_
    obtain ⟨rfl, hdir, hmeta⟩ := hfound
    cases info with
    | none => exact pure
    | some info =>
      dsimp only
      split
      · next hbinds =>
        have hsuperseded : Superseded ext ref state rel own currentRoot name :=
          ⟨hname.1, hname.2, hdir, info, hmeta info rfl, hbinds⟩
        refine (preserves_collectJournal_swept hsuperseded budget).bind fun out => ?_
        split
        · exact .pure
        · exact .ite pure pure
      · exact pure

/-- **The sweep** removes what it may and touches nothing else, however it ends. -/
theorem preserves_collectSuperseded_swept :
    Preserves (OnFs (Swept ext ref state rel own currentRoot))
      (collectSuperseded ext state rel own currentRoot) := by
  refine (preserves_visitChildren preserves_collectSibling_swept maxCollectionEntries).bind
    fun out => ?_
  split
  · exact .pure
  · exact .ite fail pure

end Frame

/-! ### A sweep with a log -/

section Log

/-- A program beside a log of visited names. -/
abbrev LogSys (α : Type) : Type := Prog (World × List Bytes) IoErrorKind α

/-- Charge the budget for a name; what the budget pays for is a visit, and is
logged. -/
def charged (budget : ℕ) (name : Bytes) (visit : ℕ → LogSys Visit) : LogSys Visit := do
  match ← (Prog.attempt (visitBudget budget)).beside with
  | .error e => pure (.error e, budget)
  | .ok budget => do
    Prog.ghost (name :: ·)
    visit budget

/-- `visitNames`, beside the log. -/
def visitNamesLog (visit : ℕ → Bytes → LogSys Visit) : ℕ → List Bytes → LogSys Visit
  | budget, [] => pure (.ok (), budget)
  | budget, name :: names => do
    match ← (Prog.attempt Sys.probe).beside with
    | .error e => pure (.error e, budget)
    | .ok () =>
      if name = dot ∨ name = dotDot then visitNamesLog visit budget names
      else
        match ← visit budget name with
        | (.ok (), budget) => visitNamesLog visit budget names
        | (.error e, budget) => pure (.error e, budget)

/-- `visitChildren`, beside the log. -/
def visitChildrenLog (visit : ℕ → Bytes → LogSys Visit) (budget : ℕ) : LogSys Visit := do
  match ← (Prog.attempt Sys.probe).beside with
  | .error e => pure (.error e, budget)
  | .ok () => do
    let names ← Prog.beside Sys.nextListing
    visitNamesLog visit budget names

/-- `collectPart`, beside the log. -/
def collectPartLog (parts : FsPath) (budget : ℕ) (part : Bytes) : LogSys Visit :=
  charged budget part fun budget =>
    if isContentId part ∨ part = pending then do
      let result ← (Prog.attempt (discardOwned parts part)).beside
      pure (result, budget)
    else pure (.ok (), budget)

/-- `collectJournal`, beside the log. -/
def collectJournalLog (entry state : FsPath) (name : Bytes) (budget : ℕ) : LogSys Visit := do
  match ← (Prog.attempt checkStop).beside with
  | .error e => pure (.error e, budget)
  | .ok () =>
    match ← (Prog.attempt (child entry partsName false)).beside with
    | .error _ => (collectRest entry state name budget).beside
    | .ok parts =>
      match ← visitChildrenLog (collectPartLog parts) budget with
      | (.error e, budget) => pure (.error e, budget)
      | (.ok (), budget) =>
        match ← (Prog.attempt (do
          checkStop
          Directory.sync parts
          removeIfPresent entry partsName true)).beside with
        | .error e => pure (.error e, budget)
        | .ok () => (collectRest entry state name budget).beside

variable (ext : JournalExternals) (state : FsPath) (rel own : Bytes) (currentRoot : ChunkHash)

/-- `collectSibling`, beside the log. -/
def collectSiblingLog (budget : ℕ) (name : Bytes) : LogSys Visit :=
  charged budget name fun budget =>
    if name = own ∨ !isJournalId name then pure (.ok (), budget)
    else do
      match ← (Prog.attempt (do
        let entry ← child state name false
        let info ← readMeta ext entry
        pure (entry, info))).beside with
      | .ok (entry, some info) =>
        if info.relPath = rel ∧ info.root ≠ currentRoot ∧
            (hex info.root = name ∨ scopedId ext rel info.root = name) then
          match ← collectJournalLog entry state name budget with
          | (.ok (), budget) => pure (.ok (), budget)
          | (.error e, budget) =>
            if e = .interrupted ∨ (e = .wouldBlock ∧ budget = 0) then pure (.error e, budget)
            else pure (.ok (), budget)
        else pure (.ok (), budget)
      | _ => pure (.ok (), budget)

/-- `collectSuperseded`, beside the log. -/
def collectSupersededLog : LogSys Unit := do
  match ← visitChildrenLog (collectSiblingLog ext state rel own currentRoot)
    maxCollectionEntries with
  | (.ok (), _) => pure ()
  | (.error e, _) => if e = .interrupted then Prog.fail e else pure ()

/-- The names a sweep visits, siblings and parts, last to first. -/
def visited (w : World) : List Bytes :=
  (collectSupersededLog ext state rel own currentRoot (w, [])).2.2

end Log

/-! ### The budget -/

/-- The log is beside the point: without it, the twin is its original. And it is bounded: the visits so
far and what is left of the budget stay within the limit. -/
structure Twin (limit budget : ℕ) (twin : LogSys Visit) (m : Sys Visit) : Prop where
  erases : Erases twin m
  spends : Triple (fun s => s.2.length + budget ≤ limit) twin (fun out s => s.2.length + out.2 ≤ limit)
    fun s => s.2.length ≤ limit

namespace Twin

variable {limit budget : ℕ} {α : Type}

theorem pure {out : Visit} (h : out.2 ≤ budget) : Twin limit budget (Pure.pure out) (Pure.pure out) :=
  ⟨.pure, .pure fun _ hs => (Nat.add_le_add_left h _).trans hs⟩

theorem bind {twin : LogSys Visit} {m : Sys Visit} {f : Visit → LogSys Visit} {g : Visit → Sys Visit}
    (h : Twin limit budget twin m) (hnext : ∀ result left, Twin limit left (f (result, left)) (g (result, left))) :
    Twin limit budget (twin >>= f) (m >>= g) :=
  ⟨h.erases.bind fun out => (hnext out.1 out.2).erases, .bind h.spends fun out => (hnext out.1 out.2).spends⟩

theorem beside {m : Sys α} {f : α → LogSys Visit} {g : α → Sys Visit}
    (h : ∀ a, Twin limit budget (f a) (g a)) : Twin limit budget (m.beside >>= f) (m >>= g) := by
  refine ⟨(Erases.beside m).bind fun a => (h a).erases, ?_⟩
  have hbeside := (trivial (P := fun _ => True) (m := m)).beside
    fun log : List Bytes => log.length + budget ≤ limit
  exact .bind (hbeside.imp (fun _ hs => ⟨trivial, hs⟩) (fun _ _ hs => hs.2) fun _ hs =>
    (Nat.le_add_right ..).trans hs.2) fun a => (h a).spends

theorem attempt {m : Sys (Except IoErrorKind α)} {f : Except IoErrorKind α → LogSys Visit}
    {g : Except IoErrorKind α → Sys Visit} (herror : ∀ e, Twin limit budget (f (.error e)) (g (.error e)))
    (hok : ∀ a, Twin limit budget (f (.ok a)) (g (.ok a))) : Twin limit budget (m.beside >>= f) (m >>= g) :=
  beside fun | .error e => herror e | .ok a => hok a

theorem ite {c : Prop} [Decidable c] {twin twin' : LogSys Visit} {m m' : Sys Visit}
    (h : Twin limit budget twin m) (h' : Twin limit budget twin' m') :
    Twin limit budget (if c then twin else twin') (if c then m else m') := by
  split
  · exact h
  · exact h'

end Twin

section Budget

variable {limit : ℕ} (ext : JournalExternals) (state : FsPath) (rel own : Bytes) (currentRoot : ChunkHash)

theorem visitBudget_spec (budget : ℕ) :
    Triple (fun _ => True) (visitBudget budget) (fun left _ => left + 1 = budget)
      fun _ => True := by
  refine .bind trivial fun _ => ?_
  split
  · exact .fail fun _ hw => hw
  next hb => exact .pure fun _ _ => Nat.succ_pred_eq_of_ne_zero hb

theorem twin_charged {budget : ℕ} {name : Bytes} {twin : ℕ → LogSys Visit} {visit : ℕ → Sys Visit}
    (h : ∀ left, Twin limit left (twin left) (visit left)) :
    Twin limit budget (charged budget name twin) (do
      match ← Prog.attempt (visitBudget budget) with
      | .error e => pure (.error e, budget)
      | .ok budget => visit budget) := by
  refine ⟨.attempt (fun _ => .pure) fun left => (h left).erases.ghost_bind, ?_⟩
  have hpaid := (attempt (visitBudget_spec budget) fun _ hw => hw).beside
    fun log : List Bytes => log.length + budget ≤ limit
  refine .bind (hpaid.imp (fun _ hs => ⟨trivial, hs⟩) (fun _ _ hs => hs) fun _ hs =>
    (Nat.le_add_right ..).trans hs.2) fun r => ?_
  cases r with
  | error e => exact .pure fun _ hs => hs.2
  | ok left =>
    -- one more name in the log, one less in the budget
    refine .bind (Q := fun _ (s : World × List Bytes) => s.2.length + left ≤ limit) ?_
      fun _ => (h left).spends
    intro s hs
    show (name :: s.2).length + left ≤ limit
    rw [List.length_cons]
    omega

/-- **Step to run.** If every visit stays within the budget, so does the walk. -/
theorem twin_visitNames {twin : ℕ → Bytes → LogSys Visit} {visit : ℕ → Bytes → Sys Visit}
    (h : ∀ budget name, Twin limit budget (twin budget name) (visit budget name)) (names : List Bytes)
    (budget : ℕ) : Twin limit budget (visitNamesLog twin budget names) (visitNames visit budget names) := by
  induction names generalizing budget with
  | nil => exact .pure le_rfl
  | cons name names ih =>
    refine .attempt (fun _ => .pure le_rfl) fun _ => .ite (ih budget) ((h budget name).bind fun result left => ?_)
    cases result with
    | ok v => exact ih left
    | error e => exact .pure le_rfl

theorem twin_visitChildren {twin : ℕ → Bytes → LogSys Visit} {visit : ℕ → Bytes → Sys Visit}
    (h : ∀ budget name, Twin limit budget (twin budget name) (visit budget name)) (budget : ℕ) :
    Twin limit budget (visitChildrenLog twin budget) (visitChildren visit budget) :=
  .attempt (fun _ => .pure le_rfl) fun _ => .beside fun names => twin_visitNames h names budget

theorem twin_collectPart (parts : FsPath) (budget : ℕ) (part : Bytes) :
    Twin limit budget (collectPartLog parts budget part) (collectPart parts budget part) :=
  twin_charged fun _ => .ite (.beside fun _ => .pure le_rfl) (.pure le_rfl)

theorem twin_collectRest (entry state : FsPath) (name : Bytes) (budget : ℕ) :
    Twin limit budget (collectRest entry state name budget).beside (collectRest entry state name budget) := by
  rw [collectRest, Prog.beside_bind]
  exact .beside fun _ => .pure le_rfl

theorem twin_collectJournal (entry state : FsPath) (name : Bytes) (budget : ℕ) :
    Twin limit budget (collectJournalLog entry state name budget) (collectJournal entry state name budget) := by
  refine .attempt (fun _ => .pure le_rfl) fun _ =>
    .attempt (fun _ => twin_collectRest entry state name budget) fun parts => ?_
  refine (twin_visitChildren (twin_collectPart parts) budget).bind fun result left => ?_
  cases result with
  | error e => exact .pure le_rfl
  | ok v => exact .attempt (fun _ => .pure le_rfl) fun _ => twin_collectRest entry state name left

theorem twin_collectSibling (budget : ℕ) (name : Bytes) :
    Twin limit budget (collectSiblingLog ext state rel own currentRoot budget name)
      (collectSibling ext state rel own currentRoot budget name) := by
  refine twin_charged fun left => .ite (.pure le_rfl) (.attempt (fun _ => .pure le_rfl) fun found => ?_)
  obtain ⟨entry, info⟩ := found
  cases info with
  | none => exact .pure le_rfl
  | some info =>
    refine .ite ((twin_collectJournal entry state name left).bind fun result left => ?_) (.pure le_rfl)
    cases result with
    | ok v => exact .pure le_rfl
    | error e => exact .ite (.pure le_rfl) (.pure le_rfl)

theorem twin_walk : Twin maxCollectionEntries maxCollectionEntries
    (visitChildrenLog (collectSiblingLog ext state rel own currentRoot) maxCollectionEntries)
    (visitChildren (collectSibling ext state rel own currentRoot) maxCollectionEntries) :=
  twin_visitChildren (twin_collectSibling ext state rel own currentRoot) _

/-- **The twin is the sweep.** -/
theorem erases_collectSuperseded :
    Erases (collectSupersededLog ext state rel own currentRoot)
      (collectSuperseded ext state rel own currentRoot) := by
  refine (twin_walk ext state rel own currentRoot).erases.bind fun out => ?_
  obtain ⟨result, left⟩ := out
  cases result with
  | ok v => exact .pure
  | error e => exact .ite Erases.fail Erases.pure

/-- **Bounded visits.** -/
theorem length_visited_le (w : World) :
    (visited ext state rel own currentRoot w).length ≤ maxCollectionEntries := by
  have hsweep : Triple (fun s => s.2.length + maxCollectionEntries ≤ maxCollectionEntries)
      (collectSupersededLog ext state rel own currentRoot)
      (fun _ s => s.2.length ≤ maxCollectionEntries) fun s => s.2.length ≤ maxCollectionEntries := by
    refine .bind (twin_walk ext state rel own currentRoot).spends fun out => ?_
    obtain ⟨result, left⟩ := out
    have hle : ∀ s : World × List Bytes, s.2.length + left ≤ maxCollectionEntries →
        s.2.length ≤ maxCollectionEntries := fun s hs => (Nat.le_add_right ..).trans hs
    cases result with
    | ok v => exact .pure hle
    | error e =>
      dsimp only
      split
      · exact .fail hle
      · exact .pure hle
  have hrun := hsweep (w, []) (Nat.zero_add _).le
  unfold visited
  rcases hm : collectSupersededLog ext state rel own currentRoot (w, []) with ⟨o, s⟩
  rw [hm] at hrun
  cases o <;> exact hrun

end Budget

/-! ### Collection -/

/-- **The frame of a collection.** Whatever the tree, the listings, the failing calls
and the requests to stop, `collect_superseded` only removes names, and only those
that are collectable in the tree it started from; nothing of the selected journal
changes; and it visits at most `MAX_COLLECTION_ENTRIES` names. -/
theorem collectSuperseded_frame (ext : JournalExternals) (state : FsPath) (rel own : Bytes)
    (currentRoot : ChunkHash) (w : World) :
    Pruned (Collectable ext w.fs state rel own currentRoot) w.fs
        (collectSuperseded ext state rel own currentRoot w).2.fs ∧
      (∀ rest, Unmoved (state ++ own :: rest) w.fs
        (collectSuperseded ext state rel own currentRoot w).2.fs) ∧
      Erases (collectSupersededLog ext state rel own currentRoot)
        (collectSuperseded ext state rel own currentRoot) ∧
      (visited ext state rel own currentRoot w).length ≤ maxCollectionEntries := by
  have hswept : OnFs (Swept ext w.fs state rel own currentRoot)
      (collectSuperseded ext state rel own currentRoot w).2 :=
    preserves_collectSuperseded_swept.final (Pruned.refl _ w.fs)
  refine ⟨hswept, fun rest => ?_, erases_collectSuperseded ext state rel own currentRoot,
    length_visited_le ext state rel own currentRoot w⟩
  exact hswept.unmoved fun hcollect => hcollect.ne_own rest rfl

/-- A state directory `s` with a journal for the file `a` holding `02`, of which only
the metadata is left. -/
def supersededFs : Fs where
  names := (∅ : ExtTreeMap FsPath Node compare).insert [utf8 "s"] .directory
    |>.insert [utf8 "s", hex contentTwo] .directory
    |>.insert [utf8 "s", hex contentTwo, metaName] (.file 0)
  inode _ := ⟨byteMeta ++ (byteExternals.blake3 byteMeta).val, true, 1⟩
  next := 1
  disk p := [((∅ : ExtTreeMap FsPath Node compare).insert [utf8 "s"] .directory
    |>.insert [utf8 "s", hex contentTwo] .directory
    |>.insert [utf8 "s", hex contentTwo, metaName] (.file 0))[p]?]
  renamed := []
  names_lt p i h := by
    rw [ExtTreeMap.getElem?_insert, ExtTreeMap.getElem?_insert,
      ExtTreeMap.getElem?_insert] at h
    split_ifs at h <;> simp_all
  disk_lt p i h := by
    rw [List.mem_singleton, ExtTreeMap.getElem?_insert, ExtTreeMap.getElem?_insert,
      ExtTreeMap.getElem?_insert] at h
    split_ifs at h <;> simp_all

/-- The collection of an offer of `03` for the same file. -/
def supersededSweep : Outcome IoErrorKind Unit × World :=
  collectSuperseded byteExternals [utf8 "s"] (utf8 "a")
    (scopedId byteExternals (utf8 "a") contentThree) contentThree
    ⟨supersededFs, [], [], [[hex contentTwo]]⟩

/-- It is not only files that go: with its last file, the journal directory itself is
removed. -/
theorem collectSuperseded_removes_directory :
    ¬ ∀ p : FsPath, supersededSweep.2.fs.names[p]? ≠ supersededFs.names[p]? →
      ∃ i, PrivateFile supersededFs p i := by
  intro hfiles
  have hgone : supersededSweep.2.fs.names[[utf8 "s", hex contentTwo]]? = none := by
    decide +kernel
  have hdir : supersededFs.names[[utf8 "s", hex contentTwo]]? = some .directory := by
    decide +kernel
  obtain ⟨i, hfile⟩ := hfiles [utf8 "s", hex contentTwo] (by rw [hgone, hdir]; nofun)
  have hname := hfile.name
  cases hname

end Rds
