import Rds.Sync.JournalFootprint

/-!
# What the readers of the journal observe

`Footprint` says what the confined operations leave alone. Here is what the
readers among them learn: an opened file is what the name refers to, a checked
link count is one, private state is the data of a regular file with a single link,
and verified metadata is what that file decodes to.

What a failed reader means depends on the world. If calls may fail of their own
accord, nothing. In a calm world a reader fails only for a reason that lies in the
filesystem: a name that is not there, or is not what it should be. Both are said at
once (`*_calm`), for a world that is calm if `φ`; the triples for arbitrary worlds
follow.
-/

namespace Rds

open Framework UnixPath Directory

/-- A private file: regular, and with a single link. -/
structure PrivateFile (fs : Fs) (p : FsPath) (i : ℕ) : Prop where
  name : fs.names[p]? = some (.file i)
  links : (fs.inode i).links = 1

section Calm

variable {φ : Prop} {P : Fs → Prop}

theorem Ends.onFs {α ε : Type} {E : Fs → Prop} {Q : α → Fs → Prop} {F : Option ε → Fs → Prop}
    {m : Prog World ε α}
    (h : Ends (CalmOn False P) m (fun a => CalmOn False (Q a)) fun e => CalmOn False (F e))
    (hF : ∀ e fs, F e fs → E fs) : Triple (OnFs P) m (fun a => OnFs (Q a)) (OnFs E) :=
  (h.triple fun e w hw => hF e w.fs hw.2).imp (fun _ hw => ⟨False.elim, hw⟩) (fun _ _ hw => hw.2)
    fun _ hw => hw

theorem openNode_calm (p : FsPath) :
    Ends (CalmOn φ P) (Sys.openNode p) (fun node => CalmOn φ fun fs => P fs ∧ fs.names[p]? = some node)
      fun e => CalmOn φ fun fs => P fs ∧ (φ → e ≠ none → fs.names[p]? = none) := by
  refine query_calm.imp (fun _ h => h) (fun node w h => ⟨h.1, h.2.1, ?_⟩)
    fun e w h => ⟨h.1, h.2.1, fun hφ he => ?_⟩
  · have hopen := h.2.2
    unfold Fs.openNode at hopen
    split at hopen
    · cases hopen
    · next n hn =>
      cases hopen
      exact hn
  · obtain ⟨kind, hkind⟩ := Option.ne_none_iff_exists'.mp he
    have hopen := h.2.2 hφ kind hkind
    unfold Fs.openNode at hopen
    split at hopen
    next hnone => exact hnone
    · cases hopen

theorem component_ne_notFound {n : Bytes} : component n ≠ .error .notFound := by
  unfold component
  split <;> nofun

/-- An opened directory is one; in a calm world, one that cannot be opened is none,
and one that is not found is not there. -/
theorem child_calm (d : FsPath) (n : Bytes) :
    Ends (CalmOn φ P) (child d n false)
      (fun q => CalmOn φ fun fs => P fs ∧ q = d ++ [n] ∧ fs.names[d ++ [n]]? = some .directory)
      fun e => CalmOn φ fun fs => P fs ∧ (φ → e = some .notFound → fs.names[d ++ [n]]? = none) ∧
        (φ → e ≠ none → component n = .ok () → fs.names[d ++ [n]]? ≠ some .directory) := by
  refine .bind (Q := fun _ => CalmOn φ P) (Ends.ofExcept (fun _ _ _ h => h) ?_) fun _ => ?_
  · intro e w he h
    refine ⟨h.1, h.2, fun _ hnf => ?_, fun _ _ hok => nomatch he.symm.trans hok⟩
    exact absurd (he.trans (congrArg _ (Option.some.inj hnf))) component_ne_notFound
  refine .bind ((openNode_calm (d ++ [n])).relax
    fun e w h => ⟨h.1, h.2.1, fun hφ he => h.2.2 hφ (by simp [he]), fun hφ he _ => ?_⟩)
    fun node => ?_
  · rw [h.2.2 hφ he]
    nofun
  have hwrong : node ≠ .directory → ∀ w, CalmOn φ (fun fs => P fs ∧
      fs.names[d ++ [n]]? = some node) w → CalmOn φ (fun fs => P fs ∧
        (φ → some IoErrorKind.other = some .notFound → fs.names[d ++ [n]]? = none) ∧
        (φ → some IoErrorKind.other ≠ none → component n = .ok () →
          fs.names[d ++ [n]]? ≠ some .directory)) w := by
    intro hnode w h
    refine ⟨h.1, h.2.1, nofun, fun _ _ _ hdir => hnode ?_⟩
    rw [h.2.2] at hdir
    exact Option.some.inj hdir
  cases node with
  | directory => exact .pure fun _ h => ⟨h.1, h.2.1, rfl, h.2.2⟩
  | special | file i => exact .fail (hwrong nofun)

/-- Why a private file could not be opened. -/
def Unreadable (φ : Prop) (p : FsPath) (n : Bytes) (e : Option IoErrorKind) (fs : Fs) : Prop :=
  (φ → e = some .notFound → fs.names[p]? = none) ∧
    (φ → e ≠ none → component n = .ok () → ∀ i, ¬ PrivateFile fs p i)

theorem Unreadable.other {p : FsPath} {n : Bytes} {fs : Fs}
    (h : component n = .ok () → ∀ i, ¬ PrivateFile fs p i) :
    Unreadable φ p n (some .other) fs :=
  ⟨nofun, fun _ _ => h⟩

theorem Unreadable.stopped {p : FsPath} {n : Bytes} {fs : Fs} {e : Option IoErrorKind}
    (h : φ → e = none) : Unreadable φ p n e fs :=
  ⟨fun hφ he => (nomatch (h hφ).symm.trans he), fun hφ he => absurd (h hφ) he⟩

theorem sure_calm {α : Type} {f : Fs → α} :
    Ends (CalmOn φ P) (Sys.query fun fs => .ok (f fs)) (fun a => CalmOn φ fun fs => P fs ∧ f fs = a)
      fun e => CalmOn φ fun fs => P fs ∧ (φ → e = none) := by
  refine query_calm.imp (fun _ h => h) (fun _ _ h => ⟨h.1, h.2.1, Except.ok.inj h.2.2⟩)
    fun e _ h => ⟨h.1, h.2.1, fun hφ => ?_⟩
  cases e with
  | none => rfl
  | some kind => cases h.2.2 hφ kind rfl

theorem readFile_calm (d : FsPath) (n : Bytes) :
    Ends (CalmOn φ P) (readFile d n)
      (fun i => CalmOn φ fun fs => P fs ∧ fs.names[d ++ [n]]? = some (.file i))
      fun e => CalmOn φ fun fs => P fs ∧ Unreadable φ (d ++ [n]) n e fs := by
  refine .bind (Q := fun _ => CalmOn φ P) (Ends.ofExcept (fun _ _ _ h => h) ?_) fun _ => ?_
  · intro e w he h
    refine ⟨h.1, h.2, fun _ hnf => ?_, fun _ _ hok => nomatch he.symm.trans hok⟩
    exact absurd (he.trans (congrArg _ (Option.some.inj hnf))) component_ne_notFound
  refine .bind ((openNode_calm (d ++ [n])).relax
    fun e w h => ⟨h.1, h.2.1, fun hφ he => h.2.2 hφ (by simp [he]), fun hφ he _ i hfile => ?_⟩)
    fun node => ?_
  · have hnone := h.2.2 hφ he
    rw [hfile.name] at hnone
    cases hnone
  refine .bind (Q := fun _ => CalmOn φ fun fs => P fs ∧ fs.names[d ++ [n]]? = some node)
    (sure_calm.imp (fun _ h => h) (fun _ _ h => ⟨h.1, h.2.1⟩)
      fun e _ h => ⟨h.1, h.2.1.1, Unreadable.stopped h.2.2⟩) fun _ => ?_
  have hwrong : (∀ i, node ≠ .file i) → ∀ w, CalmOn φ (fun fs => P fs ∧
      fs.names[d ++ [n]]? = some node) w → CalmOn φ (fun fs => P fs ∧
        Unreadable φ (d ++ [n]) n (some .other) fs) w := by
    intro hnode w h
    refine ⟨h.1, h.2.1, Unreadable.other fun _ i hfile => ?_⟩
    have hname := hfile.name
    rw [h.2.2] at hname
    exact hnode i (Option.some.inj hname)
  cases node with
  | directory | special => exact .fail (hwrong nofun)
  | file i => exact .pure fun _ h => h

theorem singleLink_calm (d : FsPath) (n : Bytes) (i : ℕ) :
    Ends (CalmOn φ fun fs => P fs ∧ fs.names[d ++ [n]]? = some (.file i)) (singleLink i)
      (fun _ => CalmOn φ fun fs => P fs ∧ PrivateFile fs (d ++ [n]) i)
      fun e => CalmOn φ fun fs => P fs ∧ Unreadable φ (d ++ [n]) n e fs := by
  refine .bind (sure_calm.relax
    fun e _ h => ⟨h.1, h.2.1.1, Unreadable.stopped h.2.2⟩) fun links => ?_
  split
  · next hlinks =>
    refine .fail fun w h => ⟨h.1, h.2.1.1, Unreadable.other fun _ k hfile => hlinks ?_⟩
    have hname := hfile.name
    rw [h.2.1.2] at hname
    cases hname
    rw [← h.2.2, hfile.links]
  · next hlinks =>
    refine .pure fun w h => ⟨h.1, h.2.1.1, h.2.1.2, ?_⟩
    rw [h.2.2, not_not.mp hlinks]

theorem readState_calm (d : FsPath) (n : Bytes) (limit : ℕ) :
    Ends (CalmOn φ P) (readState d n limit)
      (fun body => CalmOn φ fun fs => P fs ∧ ∃ i, PrivateFile fs (d ++ [n]) i ∧
        body = (fs.inode i).data.take (limit + 1))
      fun e => CalmOn φ fun fs => P fs ∧ Unreadable φ (d ++ [n]) n e fs := by
  refine .bind (readFile_calm d n) fun i => ?_
  refine .bind (singleLink_calm d n i) fun _ => ?_
  refine .bind (sure_calm.relax
    fun e _ h => ⟨h.1, h.2.1.1, Unreadable.stopped h.2.2⟩) fun data => ?_
  refine .pure fun w h => ⟨h.1, h.2.1.1, i, h.2.1.2, ?_⟩
  have hdata : (w.fs.inode i).data = data := h.2.2
  rw [hdata]

end Calm

/-! ### In arbitrary worlds -/

section Readers

variable {P : Fs → Prop}

theorem child_found (d : FsPath) (n : Bytes) :
    Triple (OnFs P) (child d n false)
      (fun q => OnFs fun fs => P fs ∧ q = d ++ [n] ∧ fs.names[d ++ [n]]? = some .directory) (OnFs P) :=
  Ends.onFs (child_calm d n) fun _ _ h => h.1

theorem readFile_spec (d : FsPath) (n : Bytes) :
    Triple (OnFs P) (readFile d n)
      (fun i => OnFs fun fs => P fs ∧ fs.names[d ++ [n]]? = some (.file i)) (OnFs P) :=
  Ends.onFs (readFile_calm d n) fun _ _ h => h.1

theorem singleLink_spec (d : FsPath) (n : Bytes) (i : ℕ) :
    Triple (OnFs fun fs => P fs ∧ fs.names[d ++ [n]]? = some (.file i)) (singleLink i)
      (fun _ => OnFs fun fs => P fs ∧ PrivateFile fs (d ++ [n]) i) (OnFs P) :=
  Ends.onFs (singleLink_calm d n i) fun _ _ h => h.1

end Readers

/-! ### Metadata -/

/-- The metadata of a journal directory: what a private file `meta` in it decodes to. -/
def MetaAt (ext : JournalExternals) (fs : Fs) (dir : FsPath) (info : Meta) : Prop :=
  ∃ i, PrivateFile fs (dir ++ [metaName]) i ∧
    decodeMeta ext ((fs.inode i).data.take (metaLimit + 1)) = some info

section Meta

variable {φ : Prop} {P : Fs → Prop}

/-- If no call fails, metadata is found exactly where it is. -/
theorem readMeta_calm (ext : JournalExternals) (dir : FsPath) :
    Ends (CalmOn φ P) (readMeta ext dir)
      (fun found => CalmOn φ fun fs => P fs ∧ (∀ info, found = some info → MetaAt ext fs dir info) ∧
        (φ → ∀ info, MetaAt ext fs dir info → found = some info))
      fun e => CalmOn φ fun fs => P fs ∧ (φ → e ≠ none → ∀ info, ¬ MetaAt ext fs dir info) := by
  have hname : component metaName = .ok () := by decide
  refine .bind ((readState_calm dir metaName metaLimit).attempt.relax fun _ _ h => ⟨h.2.1, h.2.2.1, fun _ he => absurd h.1 he⟩) fun r => ?_
  cases r with
  | ok body =>
    refine .pure fun w h => ⟨h.1, h.2.1, ?_, ?_⟩
    · intro info hinfo
      obtain ⟨i, hfile, rfl⟩ := h.2.2
      exact ⟨i, hfile, hinfo⟩
    rintro - info ⟨k, hfile', hdecode⟩
    obtain ⟨i, hfile, rfl⟩ := h.2.2
    obtain rfl : i = k := by
      have hname := hfile.name.symm.trans hfile'.name
      simpa using hname
    exact hdecode
  | error e =>
    have habsent : ∀ w, CalmOn φ (fun fs => P fs ∧ Unreadable φ (dir ++ [metaName]) metaName (some e) fs) w →
        φ → ∀ info, ¬ MetaAt ext w.fs dir info := by
      rintro w h hφ info ⟨i, hfile, -⟩
      exact h.2.2.2 hφ nofun hname i hfile
    cases e with
    | notFound =>
      exact .pure fun w h => ⟨h.1, h.2.1, nofun, fun hφ info hinfo => absurd hinfo (habsent w h hφ info)⟩
    | _ => exact .fail fun w h => ⟨h.1, h.2.1, fun hφ _ => habsent w h hφ⟩

theorem readMeta_spec (ext : JournalExternals) (dir : FsPath) :
    Triple (OnFs P) (readMeta ext dir)
      (fun found => OnFs fun fs => P fs ∧ ∀ info, found = some info → MetaAt ext fs dir info) (OnFs P) :=
  (Ends.onFs (readMeta_calm ext dir) fun _ _ h => h.1).imp (fun _ h => h)
    (fun _ _ h => ⟨h.1, h.2.1⟩) fun _ h => h

end Meta

end Rds
