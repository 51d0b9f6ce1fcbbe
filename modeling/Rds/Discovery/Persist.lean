import Rds.Discovery.Basic
import Rds.Framework.Device

/-!
# Atomic state files

An owned state directory with one file that is replaced atomically
(`rds-discovery/src/persist.rs`). `AtomicFile::write` stages the bytes in a new file, synchronises
it, renames it into place and synchronises the directory: an interruption leaves the old or the new
content, and at worst a staging file. The lock file doubles as a marker that the directory has been
initialised.

An `Owner` is the process that holds the lock: the file, whatever else the directory holds, and
what the process keeps in memory. Storage errors and process stops are those of
`Framework.Device`; two owners of one directory exclude each other, so there is always one.
-/

namespace Rds.Discovery

open Framework

/-- `MAX_STATE`. -/
def maxState : ℕ := 2 * 1024 * 1024

/-- The state file of a directory. -/
structure AtomicFile where
  content : Option Bytes
  /-- The lock file is not empty. -/
  initialized : Bool
  /-- The random numbers in the names of abandoned staging files. -/
  staging : List ℕ

/-- A fresh directory. -/
def AtomicFile.fresh : AtomicFile := ⟨none, false, []⟩

/-- A process and the directory it owns. `δ` is what the directory holds beside the state file,
`ι` what the process keeps in memory. -/
structure Owner (δ ι : Type) where
  file : AtomicFile
  db : δ
  mem : ι

/-- A program of the process that owns a directory. -/
abbrev Owned (δ ι α : Type) : Type := Prog (Device (Owner δ ι)) DiscoveryError α

/-- A program ended by its storage, in a state with `E`: it was stopped, or it returned an error
of the store. -/
def Broken {σ : Type} (E : σ → Prop) (e : Option DiscoveryError) (s : σ) : Prop :=
  (∀ e', e = some e' → e'.IsStore) ∧ E s

theorem Broken.text {σ : Type} {E : σ → Prop} {message : String} {s : σ} (h : E s) :
    Broken E (some (storeError message)) s :=
  ⟨fun _ h => Option.some.inj h ▸ True.intro, h⟩

/-- `persist::write_error`: a full disk is reported as such. -/
def writeError (full : Bool) : DiscoveryError :=
  if full then .storageUnavailable else storeErrorFrom .system

namespace AtomicFile

variable {δ ι : Type}

/-- `AtomicFile::open_named`: the directory and its lock. -/
def openNamed : Owned δ ι Unit := Device.ask (storeErrorFrom .system) fun _ => ()

/-- `AtomicFile::initialized`. -/
def isInitialized : Owned δ ι Bool :=
  Device.ask (storeErrorFrom .system) fun o => o.file.initialized

/-- `AtomicFile::seal`. -/
def sealLock : Owned δ ι Unit :=
  Device.act (fun _ => storeErrorFrom .system)
    (fun o => { o with file := { o.file with initialized := true } }) fun _ o => o

/-- `AtomicFile::read`. -/
def read : Owned δ ι (Option Bytes) := do
  let content ← Device.ask (storeErrorFrom .system) fun o => o.file.content
  if content.any fun bytes => bytes.length > maxState then
    Prog.fail (storeError "policy state exceeds limit")
  else pure content

/-- Replace the content. -/
def put (bytes : Bytes) (o : Owner δ ι) : Owner δ ι :=
  { o with file := { o.file with content := some bytes } }

/-- Abandon a staging file. -/
def abandon (n : ℕ) (o : Owner δ ι) : Owner δ ι :=
  { o with file := { o.file with staging := n :: o.file.staging } }

/-- `AtomicFile::write`. -/
def write (bytes : Bytes) : Owned δ ι Unit :=
  if bytes.length > maxState then Prog.fail (storeError "policy state exceeds limit")
  else do
    let _ ← read
    Device.act writeError (put bytes) abandon

/-! ### Rules -/

variable {P E : Owner δ ι → Prop} {Q : Owner δ ι → Prop}

theorem read_ends (herr : ∀ o, P o → E o) :
    Ends (Device.On P) (read : Owned δ ι (Option Bytes))
      (fun content => Device.On fun o => P o ∧ o.file.content = content)
      fun e => Device.On (Broken E e) := by
  refine .bind (Device.ask_ends (R := fun content o => P o ∧ o.file.content = content)
    (fun o ho => ⟨ho, rfl⟩) fun e o he ho => ⟨fun e' h => ?_, herr o ho⟩) fun content => ?_
  · rw [he e' h]
    exact True.intro
  · split
    · exact .fail fun d hd => Broken.text (herr d.state hd.1)
    · exact .pure fun d hd => hd

/-- **Writing is atomic**: the state before, or the state after. -/
theorem write_ends {bytes : Bytes} (hok : ∀ o, P o → Q (put bytes o)) (herr : ∀ o, P o → E o)
    (hdone : ∀ o, P o → E (put bytes o)) (hlit : ∀ n o, E o → E (abandon n o)) :
    Ends (Device.On P) (write bytes : Owned δ ι Unit) (fun _ => Device.On Q)
      fun e => Device.On (Broken E e) := by
  have hstore : ∀ e : Option DiscoveryError, (∀ e', e = some e' → ∃ full, e' = writeError full) →
      ∀ e', e = some e' → e'.IsStore := by
    intro e he e' h
    obtain ⟨full, rfl⟩ := he e' h
    cases full <;> exact True.intro
  unfold write
  split
  · exact .fail fun d hd => Broken.text (herr d.state hd)
  · refine .bind (read_ends herr) fun content => ?_
    exact Device.act_ends (fun o ho => hok o ho.1) (fun e o he ho => ⟨hstore e he, herr o ho.1⟩)
      (fun e o he ho => ⟨hstore e he, hdone o ho.1⟩) fun e n o ho => ⟨ho.1, hlit n o ho.2⟩

theorem read_calm {o : Owner δ ι} (h : ∀ bytes, o.file.content = some bytes → bytes.length ≤ maxState) :
    (read : Owned δ ι (Option Bytes)) ⟨o, []⟩ = (.ok o.file.content, ⟨o, []⟩) := by
  unfold read
  rw [Prog.bind_apply, Device.ask_calm]
  dsimp only
  rw [if_neg]
  · rfl
  · cases hc : o.file.content with
    | none => simp
    | some bytes => simpa using h bytes hc

theorem write_calm {o : Owner δ ι} {bytes : Bytes}
    (h : ∀ bytes, o.file.content = some bytes → bytes.length ≤ maxState) (hlen : bytes.length ≤ maxState) :
    (write bytes : Owned δ ι Unit) ⟨o, []⟩ = (.ok (), ⟨put bytes o, []⟩) := by
  unfold write
  rw [if_neg (Nat.not_lt.mpr hlen), Prog.bind_apply, read_calm h]
  rfl

end AtomicFile

end Rds.Discovery
