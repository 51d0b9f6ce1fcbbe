import Rds.Framework.CrashFs

/-!
# System calls in an unreliable world

A `World` is a filesystem together with everything the environment decides: the
fate of each system call, what a directory listing reports, and when a caller
asks a long-running operation to stop. Each is a list that is consumed front to
back; an exhausted list means that calls go through, listings are empty and
nobody asks to stop.

Programs over a world are built from the calls below. `call_spec` is the one rule
about them: what a call may leave behind is its effect, if it goes through, or its
torn effect, if it fails. Invariants of the filesystem are lifted to worlds by
`OnFs`.
-/

namespace Framework

/-- The fate of a system call: it goes through, it fails after some progress, or
the process stops before it. -/
inductive Fault where
  | go
  | fail (kind : IoErrorKind) (progress : ℕ)
  | stop

/-- A filesystem and what its environment decides. -/
structure World where
  fs : Fs
  faults : List Fault
  /-- The answers to "should I stop?". -/
  stops : List Bool
  /-- What directory listings report. -/
  listings : List (List Bytes)

/-- A program of system calls. -/
abbrev Sys (α : Type) : Type := Prog World IoErrorKind α

namespace Sys

variable {α : Type}

/-- Let a call go through. -/
def complete (effect : Fs → Except IoErrorKind (α × Fs)) : Sys α := fun w =>
  match effect w.fs with
  | .ok (a, fs) => (.ok a, { w with fs })
  | .error kind => (.err kind, w)

/-- A system call. A failing call may leave a torn effect behind. -/
def call (effect : Fs → Except IoErrorKind (α × Fs)) (torn : ℕ → Fs → Fs) : Sys α := fun w =>
  match w.faults with
  | [] => complete effect w
  | .go :: faults => complete effect { w with faults }
  | .fail kind progress :: faults => (.err kind, { w with faults, fs := torn progress w.fs })
  | .stop :: faults => (.stopped, { w with faults })

/-- A call with an all-or-nothing effect. If it fails, even that is unknown. -/
def atomic (effect : Fs → Except IoErrorKind (α × Fs)) : Sys α :=
  call effect fun progress fs =>
    if progress = 0 then fs
    else match effect fs with
      | .ok (_, fs') => fs'
      | .error _ => fs

/-- A call that changes nothing. -/
def query (f : Fs → Except IoErrorKind α) : Sys α :=
  call (fun fs => (f fs).map fun a => (a, fs)) fun _ fs => fs

/-- A call whose result is of no interest. -/
def probe : Sys Unit := query fun _ => .ok ()

def mkdir (p : FsPath) : Sys Unit := atomic (Fs.mkdir p)

def createExcl (p : FsPath) : Sys ℕ := atomic (Fs.createExcl p)

def openNode (p : FsPath) : Sys Node := query fun fs => (Fs.openNode p fs).map Prod.fst

def openCreate (p : FsPath) : Sys Node := atomic (Fs.openCreate p)

def unlink (p : FsPath) : Sys Unit := atomic (Fs.unlink p)

def rmdir (p : FsPath) : Sys Unit := atomic (Fs.rmdir p)

def rename (a b : FsPath) : Sys Unit := atomic (Fs.rename a b)

/-- The whole data of an open file. -/
def readAll (i : ℕ) : Sys Bytes := query fun fs => .ok (fs.inode i).data

/-- The link count of an open file. -/
def linkCount (i : ℕ) : Sys ℕ := query fun fs => .ok (fs.inode i).links

/-- `write_all` to an open file; a failure may leave a part of the bytes. -/
def writeAll (i : ℕ) (bytes : Bytes) : Sys Unit :=
  call (fun fs => .ok ((), fs.append i bytes)) fun progress fs => fs.append i (bytes.take progress)

/-- `fsync` of a file; a failure promises nothing. -/
def syncFile (i : ℕ) : Sys Unit := call (fun fs => .ok ((), fs.syncFile i)) fun _ fs => fs

/-- `fsync` of a directory; a failure promises nothing. -/
def syncDir (d : FsPath) : Sys Unit := call (fun fs => .ok ((), fs.syncDir d)) fun _ fs => fs

/-- Ask whether to stop. -/
def askStop {ε : Type} : Prog World ε Bool := fun w =>
  match w.stops with
  | [] => (.ok false, w)
  | answer :: stops => (.ok answer, { w with stops })

/-- The names a listing reports. -/
def nextListing {ε : Type} : Prog World ε (List Bytes) := fun w =>
  match w.listings with
  | [] => (.ok [], w)
  | names :: listings => (.ok names, { w with listings })

end Sys

/-! ### Rules -/

/-- An invariant of the filesystem, as one of the world. -/
def OnFs (I : Fs → Prop) (w : World) : Prop := I w.fs

section Rules

open Sys

variable {α ε : Type} {I P E : Fs → Prop} {Q : α → Fs → Prop}

variable {effect : Fs → Except IoErrorKind (α × Fs)}

/-- **The rule of system calls.** -/
theorem call_spec {torn : ℕ → Fs → Fs} (hok : ∀ fs a fs', P fs → effect fs = .ok (a, fs') → Q a fs')
    (herr : ∀ fs, P fs → E fs) (htorn : ∀ n fs, P fs → E (torn n fs)) :
    Triple (OnFs P) (call effect torn) (fun a => OnFs (Q a)) (OnFs E) := by
  have hcomplete : Triple (OnFs P) (complete effect) (fun a => OnFs (Q a)) (OnFs E) := by
    intro w hw
    unfold complete
    cases heff : effect w.fs with
    | ok r => exact hok w.fs r.1 r.2 hw heff
    | error kind => exact herr w.fs hw
  intro w hw
  unfold call
  cases hf : w.faults with
  | nil => exact hcomplete w hw
  | cons f faults =>
    cases f with
    | go => exact hcomplete { w with faults } hw
    | fail kind progress => exact htorn progress w.fs hw
    | stop => exact herr w.fs hw

theorem atomic_spec (hok : ∀ fs a fs', P fs → effect fs = .ok (a, fs') → Q a fs' ∧ E fs')
    (herr : ∀ fs, P fs → E fs) :
    Triple (OnFs P) (atomic effect) (fun a => OnFs (Q a)) (OnFs E) := by
  refine call_spec (fun fs a fs' hp heff => (hok fs a fs' hp heff).1) herr fun n fs hp => ?_
  -- a failing call either did nothing or took effect after all
  split
  · exact herr fs hp
  · cases heff : effect fs with
    | ok r => exact (hok fs r.1 r.2 hp heff).2
    | error kind => exact herr fs hp

theorem query_spec {f : Fs → Except IoErrorKind α} :
    Triple (OnFs P) (query f) (fun a => OnFs fun fs => P fs ∧ f fs = .ok a) (OnFs P) := by
  refine call_spec (fun fs a fs' hp heff => ?_) (fun _ hp => hp) fun _ _ hp => hp
  cases hf : f fs <;> rw [hf] at heff <;> cases heff
  exact ⟨hp, hf⟩

theorem preserves_atomic (h : ∀ fs a fs', I fs → effect fs = .ok (a, fs') → I fs') :
    Preserves (OnFs I) (atomic effect) :=
  atomic_spec (fun fs a fs' hi heff => ⟨h fs a fs' hi heff, h fs a fs' hi heff⟩) fun _ hi => hi

theorem preserves_syncFile {i : ℕ} (h : ∀ fs, I fs → I (fs.syncFile i)) :
    Preserves (OnFs I) (Sys.syncFile i) :=
  call_spec (fun fs _ _ hi heff => by cases heff; exact h fs hi) (fun _ hi => hi) fun _ _ hi => hi

theorem preserves_syncDir {d : FsPath} (h : ∀ fs, I fs → I (fs.syncDir d)) :
    Preserves (OnFs I) (Sys.syncDir d) :=
  call_spec (fun fs _ _ hi heff => by cases heff; exact h fs hi) (fun _ hi => hi) fun _ _ hi => hi

theorem preserves_writeAll {i : ℕ} {bytes : Bytes} (h : ∀ bs fs, I fs → I (fs.append i bs)) :
    Preserves (OnFs I) (Sys.writeAll i bytes) :=
  call_spec (fun fs _ _ hi heff => by cases heff; exact h bytes fs hi) (fun _ hi => hi)
    fun _ fs hi => h _ fs hi

end Rules

/-! ### Invariants of worlds -/

section Steady

open Sys

variable {α ε : Type} {I : Fs → Prop} {J : World → Prop}

/-- The invariant survives what changes no file: queries, listings and asking whether
to stop. -/
class Steady (J : World → Prop) : Prop where
  query {α : Type} (f : Fs → Except IoErrorKind α) : Preserves J (query f)
  askStop {ε : Type} : Preserves J (askStop : Prog World ε Bool)
  nextListing {ε : Type} : Preserves J (nextListing : Prog World ε (List Bytes))

/-- Every invariant of the filesystem is steady. -/
instance steady_onFs : Steady (OnFs I) where
  query f := query_spec.imp (fun _ h => h) (fun _ _ h => h.1) fun _ h => h
  askStop := by
    intro ε w hw
    unfold askStop
    cases w.stops <;> exact hw
  nextListing := by
    intro ε w hw
    unfold nextListing
    cases w.listings <;> exact hw

theorem preserves_query [Steady J] {f : Fs → Except IoErrorKind α} : Preserves J (query f) :=
  Steady.query f

theorem preserves_askStop [Steady J] : Preserves J (askStop : Prog World ε Bool) :=
  Steady.askStop

theorem preserves_nextListing [Steady J] :
    Preserves J (nextListing : Prog World ε (List Bytes)) :=
  Steady.nextListing

end Steady

/-! ### Footprints -/

/-- The invariant is kept by every call that changes allowed names only and writes
to fresh inodes only; a created file is fresh. -/
structure Kept (allowed : FsPath → Prop) (fresh : ℕ → Prop) (I : Fs → Prop) : Prop where
  mkdir : ∀ {p fs u fs'}, allowed p → I fs → Fs.mkdir p fs = .ok (u, fs') → I fs'
  createExcl : ∀ {p fs i fs'}, allowed p → I fs → Fs.createExcl p fs = .ok (i, fs') →
    I fs' ∧ fresh i
  openCreate : ∀ {p fs n fs'}, allowed p → I fs → Fs.openCreate p fs = .ok (n, fs') → I fs'
  unlink : ∀ {p fs u fs'}, allowed p → I fs → Fs.unlink p fs = .ok (u, fs') → I fs'
  rmdir : ∀ {p fs u fs'}, allowed p → I fs → Fs.rmdir p fs = .ok (u, fs') → I fs'
  rename : ∀ {a b fs u fs'}, allowed a → allowed b → I fs → Fs.rename a b fs = .ok (u, fs') →
    I fs'
  append : ∀ {i fs}, fresh i → I fs → ∀ bytes, I (fs.append i bytes)
  syncFile : ∀ {fs}, I fs → ∀ i, I (fs.syncFile i)
  syncDir : ∀ {fs}, I fs → ∀ d, I (fs.syncDir d)

/-- **Frame.** A name is not moved by calls on other names. -/
theorem Unmoved.kept (p : FsPath) (ref : Fs) :
    Kept (fun q => p ≠ q) (fun i => ref.next ≤ i) (Unmoved p ref) where
  mkdir hq h hrun := h.mkdir hq hrun
  createExcl hq h hrun := h.createExcl hq hrun
  openCreate hq h hrun := h.openCreate hq hrun
  unlink hq h hrun := h.unlink hq hrun
  rmdir hq h hrun := h.rmdir hq hrun
  rename ha hb h hrun := h.rename ha hb hrun
  append hi h bytes := h.append hi bytes
  syncFile h i := h.syncFile i
  syncDir h d := h.syncDir d

/-- The invariant of worlds is kept by every call that changes allowed names only and
writes to fresh inodes only; a created file is fresh. -/
structure KeptOn (allowed : FsPath → Prop) (fresh : ℕ → Prop) (J : World → Prop) : Prop where
  preserves_mkdir : ∀ {p}, allowed p → Preserves J (Sys.mkdir p)
  createExcl_spec : ∀ {p}, allowed p →
    Triple J (Sys.createExcl p) (fun i w => J w ∧ fresh i) J
  preserves_openCreate : ∀ {p}, allowed p → Preserves J (Sys.openCreate p)
  preserves_unlink : ∀ {p}, allowed p → Preserves J (Sys.unlink p)
  preserves_rmdir : ∀ {p}, allowed p → Preserves J (Sys.rmdir p)
  preserves_rename : ∀ {a b}, allowed a → allowed b → Preserves J (Sys.rename a b)
  preserves_writeAll : ∀ {i bytes}, fresh i → Preserves J (Sys.writeAll i bytes)
  preserves_syncFile : ∀ i, Preserves J (Sys.syncFile i)
  preserves_syncDir : ∀ d, Preserves J (Sys.syncDir d)

theorem Kept.onFs {allowed : FsPath → Prop} {fresh : ℕ → Prop} {I : Fs → Prop}
    (h : Kept allowed fresh I) : KeptOn allowed fresh (OnFs I) where
  preserves_mkdir hp := preserves_atomic fun _ _ _ hi hrun => h.mkdir hp hi hrun
  createExcl_spec hp := atomic_spec
    (fun _ _ _ hi hrun => ⟨h.createExcl hp hi hrun, (h.createExcl hp hi hrun).1⟩) fun _ hi => hi
  preserves_openCreate hp := preserves_atomic fun _ _ _ hi hrun => h.openCreate hp hi hrun
  preserves_unlink hp := preserves_atomic fun _ _ _ hi hrun => h.unlink hp hi hrun
  preserves_rmdir hp := preserves_atomic fun _ _ _ hi hrun => h.rmdir hp hi hrun
  preserves_rename ha hb := preserves_atomic fun _ _ _ hi hrun => h.rename ha hb hi hrun
  preserves_writeAll hi := preserves_writeAll fun bs _ hfs => h.append hi hfs bs
  preserves_syncFile i := preserves_syncFile fun _ hfs => h.syncFile hfs i
  preserves_syncDir d := preserves_syncDir fun _ hfs => h.syncDir hfs d

/-! ### Calm worlds -/

/-- No call fails of its own accord: it goes through, or the process stops. -/
def Calm (w : World) : Prop := ∀ f ∈ w.faults, ∀ kind progress, f ≠ .fail kind progress

section Calm

open Sys

variable {α ε : Type} {P : Fs → Prop}

/-- An invariant of the filesystem, in a world that is calm if `φ`. -/
def CalmOn (φ : Prop) (P : Fs → Prop) (w : World) : Prop := (φ → Calm w) ∧ P w.fs

/-- In a calm world a query is answered from the filesystem, unless the process
stops. -/
theorem query_calm_apply (f : Fs → Except IoErrorKind α) {w : World} (hw : Calm w) :
    ∃ v, Calm v ∧ v.fs = w.fs ∧ (query f w = (.stopped, v) ∨
      query f w = (match f w.fs with | .ok a => .ok a | .error kind => .err kind, v)) := by
  have hcomplete : ∀ v : World, complete (fun fs => (f fs).map fun a => (a, fs)) v =
      (match f v.fs with | .ok a => .ok a | .error kind => .err kind, v) := by
    intro v
    unfold complete
    dsimp only
    cases f v.fs <;> rfl
  have hcall : query f w = call (fun fs => (f fs).map fun a => (a, fs)) (fun _ fs => fs) w := rfl
  rw [hcall]
  unfold call
  cases hfaults : w.faults with
  | nil => exact ⟨w, hw, rfl, Or.inr (hcomplete w)⟩
  | cons fault faults =>
    have hrest : Calm { w with faults } :=
      fun g hg => hw g (hfaults ▸ List.mem_cons_of_mem fault hg)
    cases fault with
    | go => exact ⟨{ w with faults }, hrest, rfl, Or.inr (hcomplete _)⟩
    | fail kind progress =>
      exact absurd rfl (hw (.fail kind progress) (hfaults ▸ List.mem_cons_self) kind progress)
    | stop => exact ⟨{ w with faults }, hrest, rfl, Or.inl rfl⟩

/-- **A query** answers what the filesystem says; in a calm world so does its error. -/
theorem query_calm {φ : Prop} {f : Fs → Except IoErrorKind α} :
    Ends (CalmOn φ P) (query f) (fun a => CalmOn φ fun fs => P fs ∧ f fs = .ok a)
      fun e => CalmOn φ fun fs => P fs ∧ (φ → ∀ kind, e = some kind → f fs = .error kind) := by
  intro w hw
  by_cases hφ : φ
  · obtain ⟨v, hcalm, hfs, hstop | hrun⟩ := query_calm_apply f (hw.1 hφ)
    · rw [hstop]
      exact ⟨fun _ => hcalm, hfs ▸ hw.2, fun _ kind hk => nomatch hk⟩
    rw [hrun]
    cases hf : f w.fs with
    | ok a => exact ⟨fun _ => hcalm, hfs ▸ hw.2, hfs ▸ hf⟩
    | error kind =>
      refine ⟨fun _ => hcalm, hfs ▸ hw.2, fun _ k hk => ?_⟩
      cases hk
      exact hfs ▸ hf
  · have hrun := (query_spec (f := f)) w hw.2
    rcases hm : query f w with ⟨o, v⟩
    rw [hm] at hrun
    cases o with
    | ok a => exact ⟨fun h => absurd h hφ, hrun⟩
    | err e | stopped => exact ⟨fun h => absurd h hφ, hrun, fun h => absurd h hφ⟩

end Calm

/-! ### What a name holds -/

/-- What is found at a name. -/
inductive Content where
  | directory
  | special
  | file (data : Bytes)
  deriving DecidableEq

/-- What a name that refers to a node holds. -/
def Fs.contentOf (fs : Fs) : Node → Content
  | .directory => .directory
  | .special => .special
  | .file i => .file (fs.inode i).data

/-- What a name holds now; a process that stops leaves it so. -/
def Fs.content (fs : Fs) (p : FsPath) : Option Content := fs.names[p]?.map fs.contentOf

/-- What a node may hold after a power loss: unsynchronised data may be
anything. -/
def Fs.Survives (fs : Fs) : Node → Content → Prop
  | .directory, c => c = .directory
  | .special, c => c = .special
  | .file i, c => ∃ data, c = .file data ∧
      ((fs.inode i).synced = true → data = (fs.inode i).data)

/-- What the name may hold after a power loss, in a directory that survives. -/
inductive Fs.MayHold (fs : Fs) (p : FsPath) : Option Content → Prop where
  | absent (h : none ∈ fs.disk p) : fs.MayHold p none
  | present (n : Node) (c : Content) (h : some n ∈ fs.disk p) (hc : fs.Survives n c) :
      fs.MayHold p (some c)

/-- The name is durable: a power loss cannot change what it holds. -/
structure Fs.Durable (fs : Fs) (p : FsPath) : Prop where
  name : ∀ n ∈ fs.disk p, n = fs.names[p]?
  data : ∀ i, fs.names[p]? = some (.file i) → (fs.inode i).synced = true

theorem Fs.Survives.eq_contentOf {fs : Fs} {n : Node} {c : Content} (h : fs.Survives n c)
    (hsync : ∀ i, n = .file i → (fs.inode i).synced = true) : c = fs.contentOf n := by
  cases n with
  | directory | special => exact h
  | file i =>
    obtain ⟨data, rfl, hdata⟩ := h
    show Content.file data = Content.file (fs.inode i).data
    rw [hdata (hsync i rfl)]

theorem Fs.Durable.mayHold {fs : Fs} {p : FsPath} (h : fs.Durable p) {c : Option Content}
    (hc : fs.MayHold p c) : c = fs.content p := by
  unfold Fs.content
  cases hc with
  | absent hn => rw [← h.name _ hn, Option.map_none]
  | present n c hn hs =>
    have hname := h.name _ hn
    rw [← hname, Option.map_some, Option.some.injEq]
    exact hs.eq_contentOf fun i hi => h.data i (by rw [← hname, hi])

namespace Unmoved

variable {p : FsPath} {ref fs : Fs}

theorem content_eq (h : Unmoved p ref fs) : fs.content p = ref.content p := by
  unfold Fs.content
  rw [h.name]
  cases hn : ref.names[p]? with
  | none => rfl
  | some n =>
    cases n with
    | directory | special => rfl
    | file i =>
      -- its inode existed in `ref`, so its data is still there
      show some (Content.file (fs.inode i).data) = some (Content.file (ref.inode i).data)
      rw [h.data i (ref.names_lt p i hn)]

theorem durable (h : Unmoved p ref fs) (href : ref.Durable p) : fs.Durable p where
  name := by
    intro n hn
    rw [h.name]
    rcases h.disk n hn with hd | hd
    · exact href.name n hd
    · exact hd
  data := by
    intro i hi
    rw [h.name] at hi
    exact h.synced i (ref.names_lt p i hi) (href.data i hi)

/-- A property that survives while the name is not moved is preserved by programs
that do not move it. -/
theorem preserves {α ε : Type} {J : Fs → Prop} {m : Prog World ε α}
    (hJ : ∀ mid fs, J mid → Unmoved p mid fs → J fs)
    (h : ∀ mid, Preserves (OnFs (Unmoved p mid)) m) : Preserves (OnFs J) m := by
  intro w hw
  have hrun : Unmoved p w.fs (m w).2.fs := (h w.fs).final (Unmoved.refl p w.fs)
  cases (m w).1 <;> exact hJ w.fs _ hw hrun

end Unmoved

end Framework
