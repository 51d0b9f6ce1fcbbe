import Rds.Discovery.RecordCatalog

/-!
# Commits of the store on disk

A commit changes two durable objects in sequence, the database and then its anchor. `Holds` says
what a directory can look like at any moment, also in the middle of a commit: a blank directory,
or a balanced catalogue whose anchor agrees with it or is one commit behind. `Ready` is the state
of an open store between two operations.

`commit_calm` is the run of a commit on storage that works, and `commit_ends` what an interrupted
one leaves: the catalogue before or after it, and a store that knows it has failed.
-/

namespace Rds.Discovery

open Framework Postcard AtomicFile

/-! ### What a directory holds -/

/-- The database of a catalogue. -/
def dbOf (md : Metadata) (entries : Entries) : DbFile :=
  .database ⟨some (encodeEntries entries), some (some (metadataCodec.encode md))⟩

/-- The anchor is one commit behind. -/
def Precedes (anchor md : Metadata) : Prop :=
  anchor.format = md.format ∧ anchor.database = md.database ∧ anchor.wallFloor ≤ md.wallFloor ∧
    anchor.generation.toNat + 1 = md.generation.toNat

/-- The anchor fits the metadata: it is missing because the directory is still being initialised,
it agrees, or it is one commit behind. -/
def Anchored (x : Crates) (file : AtomicFile) (md : Metadata) : Prop :=
  (file.content = none ∧ file.initialized = false ∧ md.generation = 1 ∧ md.identities = 0) ∨
    ∃ anchor, file.content = some (encodeAnchor x anchor) ∧ (anchor = md ∨ Precedes anchor md)

/-- **What a directory can look like**: blank, or a catalogue with its anchor. -/
inductive Holds (x : Crates) (file : AtomicFile) : DbFile → Option (Metadata × Entries) → Prop where
  | blank (db : DbFile) (hdb : db.open = ⟨none, none⟩) (hcontent : file.content = none)
      (hinit : file.initialized = false) : Holds x file db none
  | filled (md : Metadata) (entries : Entries) (hbal : Balanced x md entries)
      (hanchor : Anchored x file md) : Holds x file (dbOf md entries) (some (md, entries))

theorem Holds.abandon {x : Crates} {ι : Type} {o : Owner DbFile ι} {content : Option (Metadata × Entries)}
    (h : Holds x o.file o.db content) (n : ℕ) :
    Holds x (AtomicFile.abandon n o).file (AtomicFile.abandon n o).db content := by
  rcases o with ⟨file, db, mem⟩
  cases h with
  | blank _ hdb hcontent hinit => exact .blank db hdb hcontent hinit
  | filled md entries hbal hanchor => exact .filled md entries hbal hanchor

namespace FileStore

variable {ω : Type} {x : Crates} {o : FileHost ω} {entries : Entries}

/-- **An open store between two operations**: the database holds a balanced catalogue, and the
anchor and the store in memory agree with its metadata. -/
structure Ready (x : Crates) (o : FileHost ω) (entries : Entries) : Prop where
  db : o.db = dbOf o.mem.inner.metadata entries
  content : o.file.content = some (encodeAnchor x o.mem.inner.metadata)
  balanced : Balanced x o.mem.inner.metadata entries

/-- **An open store** over a directory with this content. If it has failed, the directory may be in
the middle of a commit and the metadata in memory may be behind. -/
structure Live (x : Crates) (o : FileHost ω) (content : Metadata × Entries) :
    Prop where
  holds : Holds x o.file o.db (some content)
  metadata : o.mem.inner.failed = false → o.mem.inner.metadata = content.1
  ready : o.mem.inner.failed = false → Ready x o content.2

theorem Ready.holds (h : Ready x o entries) :
    Holds x o.file o.db (some (o.mem.inner.metadata, entries)) := by
  rw [h.db]
  exact .filled _ _ h.balanced (.inr ⟨_, h.content, .inl rfl⟩)

theorem Ready.live (h : Ready x o entries) : Live x o (o.mem.inner.metadata, entries) :=
  ⟨h.holds, fun _ => rfl, fun _ => h⟩

/-- Change the store in memory. -/
def setInner (f : Inner → Inner) (o : FileHost ω) : FileHost ω :=
  { o with mem := { o.mem with inner := f o.mem.inner } }

/-- Mark the store as failed, or as healthy. -/
def setFailed (failed : Bool) : FileHost ω → FileHost ω :=
  setInner fun inner => { inner with failed }

/-! ### The run of a commit -/

/-- The metadata a commit starts from. -/
def nextMetadata (md : Metadata) (now : Reading) : Metadata :=
  { md with generation := md.generation + 1, wallFloor := max md.wallFloor now.wall }

/-- The metadata a commit writes. -/
def committedMetadata (md : Metadata) (entries : Entries) (changes : List (EndpointKey × Stored))
    (now : Reading) : Metadata :=
  counted (nextMetadata md now) (insertAll entries changes)

/-- The store after a commit. -/
def committed (x : Crates) (entries : Entries) (changes : List (EndpointKey × Stored))
    (now : Reading) (o : FileHost ω) : FileHost ω :=
  let md := committedMetadata o.mem.inner.metadata entries changes now
  { file := { o.file with content := some (encodeAnchor x md) }
    db := dbOf md (insertAll entries changes)
    mem := { o.mem with inner := { o.mem.inner with metadata := md, failed := false } } }

/-- The changes can be committed: each entry verifies, was accepted by now, and there is room for
new identities. -/
structure Applicable (x : Crates) (md : Metadata) (entries : Entries)
    (changes : List (EndpointKey × Stored)) (now : Reading) : Prop where
  sound : ∀ c ∈ changes, ∃ r, c.2.verify x c.1 = .ok r
  floor : ∀ c ∈ changes, c.2.acceptedWall ≤ max md.wallFloor now.wall
  room : ∀ c ∈ changes, entries[c.1]? = none → entries.size + changes.length ≤ maxIdentities

variable {md : Metadata} {changes : List (EndpointKey × Stored)} {now : Reading}

theorem toNat_nextGeneration (now : Reading) (hgen : md.generation.toNat + 1 < 2 ^ 64) :
    (nextMetadata md now).generation.toNat = md.generation.toNat + 1 := by
  show (md.generation + 1).toNat = _
  exact Nat.mod_eq_of_lt hgen

theorem Balanced.nextMetadata (h : Balanced x md entries)
    (hgen : md.generation.toNat + 1 < 2 ^ 64) : Balanced x (nextMetadata md now) entries where
  format := h.format
  generation := by
    intro hzero
    have := toNat_nextGeneration now hgen
    rw [hzero] at this
    exact absurd this (by simp)
  sound := h.sound
  identities := h.identities
  capacity := h.capacity
  live := h.live
  floor key s hs := le_trans (h.floor key s hs) (le_max_left _ _)

theorem transaction (h : Balanced x md entries) (happ : Applicable x md entries changes now)
    (hgen : md.generation.toNat + 1 < 2 ^ 64) :
    changes.foldlM (applyChange x) (FileStore.nextMetadata md now, encodeEntries entries)
        = .ok (committedMetadata md entries changes now, encodeEntries (insertAll entries changes)) ∧
      Balanced x (committedMetadata md entries changes now) (insertAll entries changes) :=
  (Balanced.nextMetadata h hgen).applyChanges
    (fun c hc => ⟨happ.sound c hc, happ.floor c hc⟩) happ.room

theorem precedes_committed (hgen : md.generation.toNat + 1 < 2 ^ 64) :
    Precedes md (committedMetadata md entries changes now) :=
  ⟨rfl, rfl, le_max_left _ _, (toNat_nextGeneration now hgen).symm⟩

theorem Ready.committed (h : Ready x o entries)
    (happ : Applicable x o.mem.inner.metadata entries changes now)
    (hgen : o.mem.inner.metadata.generation.toNat + 1 < 2 ^ 64) :
    Ready x (committed x entries changes now o) (insertAll entries changes) :=
  ⟨rfl, rfl, (transaction h.balanced happ hgen).2⟩

theorem Ready.length_content_le {p : FileHost ω} (h : Ready x o entries)
    (hp : p.file.content = o.file.content) :
    ∀ bytes, p.file.content = some bytes → bytes.length ≤ maxState := by
  intro bytes hbytes
  rw [hp, h.content] at hbytes
  exact Option.some.inj hbytes ▸ length_encodeAnchor_le x _

/-- **A commit on storage that works.** -/
theorem commit_calm (hx : Json.ReadsBack x.parseJson) (h : Ready x o entries)
    (happ : Applicable x o.mem.inner.metadata entries changes now)
    (hgen : o.mem.inner.metadata.generation.toNat + 1 < 2 ^ 64) :
    commit x changes now ⟨o, []⟩ = (.ok (), ⟨committed x entries changes now o, []⟩) := by
  have hmark : (update fun inner => { inner with failed := true } : Run ω Unit) ⟨o, []⟩
      = (.ok (), ⟨setFailed true o, []⟩) := rfl
  refine (Prog.bind_of_ok (read_calm (h.length_content_le (p := setFailed true o) rfl))).trans ?_
  dsimp only [setFailed, setInner]
  rw [h.content]
  refine (Prog.bind_of_ok_except (decodeAnchor_encodeAnchor hx _)).trans ?_
  refine (congrFun (if_neg (not_not.mpr rfl)) _).trans ?_
  refine (congrFun (if_neg (not_not.mpr hgen)) _).trans ?_
  refine (Prog.bind_of_ok rfl).trans ?_
  rw [h.db]
  refine (Prog.bind_of_ok_except (transaction h.balanced happ hgen).1).trans ?_
  refine (Prog.bind_of_ok
    (write_calm (h.length_content_le ?_) (length_encodeAnchor_le x _))).trans ?_
  · rfl
  · rfl

theorem commit_exhausted (hx : Json.ReadsBack x.parseJson) (h : Ready x o entries)
    (hgen : ¬ o.mem.inner.metadata.generation.toNat + 1 < 2 ^ 64) :
    commit x changes now ⟨o, []⟩ =
      (.err (storeError "record commit generation exhausted"), ⟨setFailed true o, []⟩) := by
  have hmark : (update fun inner => { inner with failed := true } : Run ω Unit) ⟨o, []⟩
      = (.ok (), ⟨setFailed true o, []⟩) := rfl
  refine (Prog.bind_of_ok (read_calm (h.length_content_le (p := setFailed true o) rfl))).trans ?_
  dsimp only [setFailed, setInner]
  rw [h.content]
  refine (Prog.bind_of_ok_except (decodeAnchor_encodeAnchor hx _)).trans ?_
  refine (congrFun (if_neg (not_not.mpr rfl)) _).trans ?_
  exact congrFun (if_pos hgen) _

/-! ### Interrupted commits -/

/-- What an interrupted commit leaves: a store that has failed, over the catalogue before or the
catalogue after the commit. -/
structure Torn (x : Crates) (entries : Entries) (changes : List (EndpointKey × Stored))
    (now : Reading) (o p : FileHost ω) : Prop where
  failed : p.mem.inner.failed = true
  holds : Holds x p.file p.db (some (o.mem.inner.metadata, entries)) ∨
    Holds x p.file p.db (some (committedMetadata o.mem.inner.metadata entries changes now,
      insertAll entries changes))

theorem Torn.abandon {p : FileHost ω} (h : Torn x entries changes now o p) (n : ℕ) :
    Torn x entries changes now o (AtomicFile.abandon n p) :=
  ⟨h.failed, h.holds.imp (fun h => h.abandon n) fun h => h.abandon n⟩

/-- **A commit on any storage.** It is carried out, or it leaves the catalogue before or after it
and a store that knows it has failed. -/
theorem commit_ends (hx : Json.ReadsBack x.parseJson) (h : Ready x o entries)
    (happ : Applicable x o.mem.inner.metadata entries changes now) :
    Ends (Device.On (· = o)) (commit x changes now)
      (fun _ => Device.On fun p => p = committed x entries changes now o ∧
        o.mem.inner.metadata.generation.toNat + 1 < 2 ^ 64)
      fun e => Device.On (Broken (Torn x entries changes now o) e) := by
  have hbefore : Torn x entries changes now o (setFailed true o) := ⟨rfl, .inl h.holds⟩
  refine .bind (Device.modify_ends (Q := (· = setFailed true o)) fun p hp => hp ▸ rfl)
    fun _ => ?_
  refine .bind (Device.get_ends (R := fun inner p => p = setFailed true o ∧
    inner = (setFailed true o).mem.inner) fun p hp => ⟨hp, hp ▸ rfl⟩) fun inner => ?_
  refine .bind (read_ends fun p hp => hp.1 ▸ hbefore) fun anchored => ?_
  -- the anchor is the one of the metadata in memory
  refine .given (φ := inner = (setFailed true o).mem.inner ∧
    anchored = some (encodeAnchor x o.mem.inner.metadata)) (fun d hd => ⟨hd.1.2, ?_⟩) ?_
  · rw [← hd.2, hd.1.1]
    exact h.content
  rintro ⟨rfl, rfl⟩
  have hsame : ¬ (o.mem.inner.metadata ≠ (setFailed true o).mem.inner.metadata) :=
    not_not.mpr rfl
  dsimp only
  rw [decodeAnchor_encodeAnchor hx, Prog.ofExcept_ok_bind, if_neg hsame]
  split
  · exact .fail fun d hd => Broken.text (hd.1.1 ▸ hbefore)
  next hgen =>
  rw [not_not] at hgen
  obtain ⟨htxn, hbal⟩ := transaction h.balanced happ hgen
  refine .bind (Device.ask_ends (R := fun records p => p = setFailed true o ∧
    records = some (encodeEntries entries)) (fun p hp => ⟨hp.1.1, ?_⟩) ?_) fun records => ?_
  · rw [hp.1.1]
    show o.db.open.records = _
    rw [h.db]
    rfl
  · exact fun e p he hp => ⟨fun e' h => he e' h ▸ True.intro, hp.1.1 ▸ hbefore⟩
  refine .given (φ := records = some (encodeEntries entries)) (fun d hd => hd.2) ?_
  rintro rfl
  change Ends _ (Prog.ofExcept (changes.foldlM (applyChange x)
    (nextMetadata o.mem.inner.metadata now, encodeEntries entries)) >>= _) _ _
  rw [htxn, Prog.ofExcept_ok_bind]
  -- the database is committed while the anchor is one behind
  let q : FileHost ω := { setFailed true o with
    db := dbOf (committedMetadata o.mem.inner.metadata entries changes now)
      (insertAll entries changes) }
  have hafter : Torn x entries changes now o q :=
    ⟨rfl, .inr (.filled _ _ hbal (.inr ⟨_, h.content, .inr (precedes_committed hgen)⟩))⟩
  refine .bind (Device.act_ends (Q := (· = q)) (fun p hp => hp.1 ▸ rfl)
    (fun e p he hp => ⟨fun e' h => ?_, hp.1 ▸ hbefore⟩)
    (fun e p he hp => ⟨fun e' h => ?_, hp.1 ▸ hafter⟩) fun e n p hp => hp) fun _ => ?_
  · obtain ⟨full, rfl⟩ := he e' h
    exact True.intro
  · obtain ⟨full, rfl⟩ := he e' h
    exact True.intro
  refine .bind (write_ends (Q := (· = put (encodeAnchor x
    (committedMetadata o.mem.inner.metadata entries changes now)) q)) (fun p hp => hp ▸ rfl)
    (fun p hp => hp ▸ hafter) (fun p hp => hp ▸ ?_) fun n p hp => hp.abandon n) fun _ => ?_
  · exact ⟨rfl, .inr (.filled _ _ hbal (.inr ⟨_, rfl, .inl rfl⟩))⟩
  · exact Device.modify_ends fun p hp => ⟨hp ▸ rfl, hgen⟩

end FileStore

end Rds.Discovery
