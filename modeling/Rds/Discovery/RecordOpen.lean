import Rds.Discovery.FileCalls

/-!
# Opening a record store

`FileStore::open_owned` from every directory a store can leave behind. `openStore_ends` is about
any storage: the open returns the store of the content the directory holds, or it leaves that
content; a blank directory may be left with the initial content instead. `openStore_calm` says that
on storage that works the open succeeds, if the directory has no more names than the limit allows.
`openStore_refuses` is the other direction: a database that disagrees with its anchor is refused.
-/

namespace Rds.Discovery

open Framework Postcard List AtomicFile Prog

namespace FileStore

variable {ι : Type} {x : Crates} {o : Owner DbFile ι} {md : Metadata} {entries : Entries}

/-! ### The names in the directory -/

theorem knownName_stagingName (n : ℕ) : knownName (stagingName n) = true := by
  have hstart : (utf8 ".policy-").isPrefixOf (stagingName n) = true := by
    exact isPrefixOf_iff_prefix.mpr (prefix_append _ _)
  have hend : (utf8 ".tmp").isSuffixOf (stagingName n) = true := by
    exact isSuffixOf_iff_suffix.mpr (suffix_append _ _)
  unfold knownName
  simp only [decide_eq_true_eq]
  exact .inr (.inr (.inr (.inr (.inr ⟨hstart, hend⟩))))

theorem knownName_directoryNames {name : Bytes} (h : name ∈ directoryNames o) :
    knownName name = true := by
  unfold directoryNames at h
  simp only [mem_append] at h
  rcases h with ((h | h) | h) | h
  · simp only [mem_cons, not_mem_nil, or_false] at h
    rcases h with rfl | rfl | rfl <;> decide
  · split at h
    · rw [mem_singleton.mp h]
      decide
    · exact absurd h not_mem_nil
  · cases hdb : o.db with
    | absent => rw [hdb] at h; exact absurd h not_mem_nil
    | empty | database db => rw [hdb] at h; rw [mem_singleton.mp h]; decide
  · obtain ⟨n, -, rfl⟩ := mem_map.mp h
    exact knownName_stagingName n

theorem checkNames_eq_ok {names : List Bytes} (hknown : ∀ name ∈ names, knownName name = true)
    (index : ℕ) (hlen : index + names.length ≤ 129) : checkNames index names = .ok () := by
  induction names generalizing index with
  | nil => rfl
  | cons name names ih =>
    rw [length_cons] at hlen
    unfold checkNames
    rw [if_neg (by omega), if_neg (not_not.mpr (hknown name mem_cons_self))]
    exact ih (fun n hn => hknown n (mem_cons_of_mem name hn)) (index + 1) (by omega)

/-! ### The anchor -/

/-- What an open makes of the anchor: it is missing and the catalogue is initial, it agrees, or it
is one commit behind. -/
def Fits (md : Metadata) : Option Metadata → Prop
  | none => md.generation = 1 ∧ md.identities = 0
  | some anchor => anchor = md ∨ Precedes anchor md

theorem checkMetadata_eq_ok (hbal : Balanced x md entries) {anchor : Option Metadata}
    (h : Fits md anchor) : checkMetadata md anchor = .ok () := by
  have hids : md.identities.toNat ≤ maxIdentities := by
    rw [hbal.identities]
    exact hbal.capacity
  unfold checkMetadata
  rw [if_neg]
  · cases anchor with
    | none => exact if_neg (not_or.mpr ⟨not_not.mpr h.1, not_not.mpr h.2⟩)
    | some a =>
      refine if_neg ?_
      have hword : md.generation.toNat < 2 ^ 64 := md.generation.toNat_lt
      rcases h with rfl | ⟨hformat, hdatabase, hfloor, hgen⟩
      · rintro (h | h | h | h | h | h)
        · exact h rfl
        · exact lt_irrefl _ h
        · exact h rfl
        · exact absurd (UInt64.lt_iff_toNat_lt.mp h) (lt_irrefl _)
        · omega
        · exact h.2 rfl
      rintro (h | h | h | h | h | h)
      · exact h hformat
      · exact absurd hfloor (not_le.mpr h)
      · exact h hdatabase
      · have := UInt64.lt_iff_toNat_lt.mp h
        omega
      · omega
      · rw [h.1] at hgen
        omega
  · rintro (hformat | hgen | hmany)
    · exact hformat hbal.format
    · exact hbal.generation hgen
    · exact absurd hids (Nat.not_le.mpr hmany)

theorem Anchored.fits (hx : Json.ReadsBack x.parseJson) {file : AtomicFile} (h : Anchored x file md) :
    ∃ anchor, file.content.mapM (decodeAnchor x) = .ok anchor ∧ Fits md anchor ∧
      (anchor = none → file.initialized = false) := by
  rcases h with ⟨hnone, hinit, hgen, hids⟩ | ⟨a, hcontent, ha⟩
  · exact ⟨none, by rw [hnone]; rfl, ⟨hgen, hids⟩, fun _ => hinit⟩
  · refine ⟨some a, ?_, ha, fun h => absurd h (by simp)⟩
    rw [hcontent, Option.mapM_some, decodeAnchor_encodeAnchor hx]
    rfl

theorem Anchored.length_le {file : AtomicFile} (h : Anchored x file md) :
    ∀ bytes, file.content = some bytes → bytes.length ≤ maxState := by
  intro bytes hbytes
  rcases h with ⟨hnone, -⟩ | ⟨a, hcontent, -⟩
  · rw [hnone] at hbytes
    exact absurd hbytes (by simp)
  · rw [hcontent] at hbytes
    exact Option.some.inj hbytes ▸ length_encodeAnchor_le x a

/-! ### The catalogue -/

/-- A store was opened: the anchor agrees with the catalogue, and the rest is as it was. -/
structure Opened (x : Crates) (o : Owner DbFile ι) (c : Metadata × Entries) (inner : Inner)
    (p : Owner DbFile ι) : Prop where
  mem : p.mem = o.mem
  db : p.db = dbOf c.1 c.2
  content : p.file.content = some (encodeAnchor x c.1)
  balanced : Balanced x c.1 c.2
  inner : inner = ⟨c.1, false, .zero, none⟩
  staging : p.file.staging = o.file.staging

/-- The database of a catalogue, with an anchor that fits. -/
structure Openable (x : Crates) (o : Owner DbFile ι) (c : Metadata × Entries)
    (anchor : Option Metadata) : Prop where
  db : o.db = dbOf c.1 c.2
  balanced : Balanced x c.1 c.2
  anchored : Anchored x o.file c.1
  decoded : o.file.content.mapM (decodeAnchor x) = .ok anchor
  fits : Fits c.1 anchor

variable {c : Metadata × Entries} {anchor : Option Metadata}

theorem Openable.holds (h : Openable x o c anchor) : Holds x o.file o.db (some c) := by
  rw [h.db]
  exact .filled _ _ h.balanced h.anchored

theorem Openable.content (hx : Json.ReadsBack x.parseJson) (h : Openable x o c (some c.1)) :
    o.file.content = some (encodeAnchor x c.1) := by
  have hdec := h.decoded
  rcases h.anchored with ⟨hnone, -⟩ | ⟨a, hcontent, -⟩
  · rw [hnone] at hdec
    exact absurd hdec (by simp [pure, Except.pure])
  · rw [hcontent, Option.mapM_some, decodeAnchor_encodeAnchor hx] at hdec
    have ha : a = c.1 := Option.some.inj (Except.ok.inj hdec)
    rw [hcontent, ha]

/-- The file of the anchor after it was brought up to date and the directory was sealed. -/
def anchoredFile (x : Crates) (md : Metadata) (file : AtomicFile) : AtomicFile :=
  { file with content := some (encodeAnchor x md), initialized := true }

/-- **Bringing the anchor up to date**, on storage that works. -/
theorem anchorAndSeal_calm (hx : Json.ReadsBack x.parseJson) (h : Openable x o c anchor) :
    (anchorAndSeal x anchor c.1 : Owned DbFile ι Unit) ⟨o, []⟩
      = (.ok (), ⟨{ o with file := anchoredFile x c.1 o.file }, []⟩) := by
  have hput : (when (anchor ≠ some c.1) (write (encodeAnchor x c.1)) :
      Owned DbFile ι Unit) ⟨o, []⟩ = (.ok (), ⟨put (encodeAnchor x c.1) o, []⟩) := by
    by_cases heq : anchor = some c.1
    · subst heq
      rw [when_of_not (not_not.mpr rfl)]
      unfold put
      rw [← h.content hx]
      rfl
    · rw [when_of heq]
      exact write_calm (Anchored.length_le h.anchored) (length_encodeAnchor_le x _)
  refine (bind_of_ok hput).trans ?_
  by_cases hinit : o.file.initialized = true
  · refine (congrFun (when_of_not (not_not.mpr hinit) _) _).trans ?_
    unfold put anchoredFile
    rw [← hinit]
    rfl
  · exact congrFun (when_of hinit _) _

/-- **Opening the catalogue**, on storage that works. -/
theorem openCatalog_calm (hx : Json.ReadsBack x.parseJson) (h : Openable x o c anchor) :
    (openCatalog x anchor c.1 : Owned DbFile ι Inner) ⟨o, []⟩
      = (.ok ⟨c.1, false, .zero, none⟩, ⟨{ o with file := anchoredFile x c.1 o.file }, []⟩) := by
  have htable : (table : Owned DbFile ι _) ⟨o, []⟩ = (.ok (encodeEntries c.2), ⟨o, []⟩) := by
    have hrecords : o.db.open.records = some (encodeEntries c.2) := by
      rw [h.db]
      rfl
    unfold table
    rw [bind_apply, Device.ask_calm, hrecords]
    rfl
  refine (bind_of_ok_except (checkMetadata_eq_ok h.balanced h.fits)).trans ?_
  refine (bind_of_ok htable).trans ?_
  refine (bind_of_ok_except h.balanced.countRows).trans ?_
  refine (congrFun (if_neg (by simp)) _).trans ?_
  exact bind_of_ok (anchorAndSeal_calm hx h)

/-- What an interrupted open leaves. -/
def Kept (x : Crates) (o : Owner DbFile ι) (c : Metadata × Entries) (p : Owner DbFile ι) : Prop :=
  p.mem = o.mem ∧ Holds x p.file p.db (some c)

/-- **Bringing the anchor up to date**, on any storage. -/
theorem anchorAndSeal_ends (hx : Json.ReadsBack x.parseJson) (h : Openable x o c anchor) :
    Ends (Device.On (· = o)) (anchorAndSeal x anchor c.1)
      (fun _ => Device.On fun p => p.mem = o.mem ∧ p.db = o.db ∧
        p.file.content = some (encodeAnchor x c.1) ∧ p.file.staging = o.file.staging)
      fun _ => Device.On (Kept x o c) := by
  let q : Owner DbFile ι := put (encodeAnchor x c.1) o
  have hkept : Kept x o c o := ⟨rfl, h.holds⟩
  -- once the anchor is up to date it stays so
  have hnew : ∀ p : Owner DbFile ι, p.mem = o.mem → p.db = o.db →
      p.file.content = some (encodeAnchor x c.1) → Kept x o c p := by
    intro p hmem hdb hcontent
    refine ⟨hmem, ?_⟩
    rw [hdb, h.db]
    exact .filled _ _ h.balanced (.inr ⟨_, hcontent, .inl rfl⟩)
  refine .bind (Q := fun _ => Device.On (· = q)) (Ends.when (fun _ => ?_) fun heq d hd => ?_)
    fun _ => ?_
  · refine (write_ends (P := (· = o)) (Q := (· = q)) (E := Kept x o c)
      (fun p hp => hp ▸ rfl) (fun p hp => hp ▸ hkept) (fun p hp => ?_)
      fun n p hp => ⟨hp.1, hp.2.abandon n⟩).relax fun _ _ h => h.2
    rw [hp]
    exact hnew q rfl rfl rfl
  · show d.state = q
    rw [not_not] at heq
    subst heq
    rw [hd]
    show o = put _ o
    unfold put
    rw [← h.content hx]
  refine .bind (Device.ask_ends (R := fun _ p => p = q) (fun p hp => hp)
    fun e p _ hp => hp ▸ hnew q rfl rfl rfl) fun initialized => ?_
  refine .when (fun _ => ?_) fun _ d hd => ?_
  · exact Device.act_ends (fun p hp => hp ▸ ⟨rfl, rfl, rfl, rfl⟩)
      (fun e p _ hp => hp ▸ hnew q rfl rfl rfl) (fun e p _ hp => hp ▸ hnew _ rfl rfl rfl)
      fun _ _ _ h => h
  · exact show d.state.mem = o.mem ∧ _ from hd ▸ ⟨rfl, rfl, rfl, rfl⟩

/-- **Opening the catalogue**, on any storage. -/
theorem openCatalog_ends (hx : Json.ReadsBack x.parseJson) (h : Openable x o c anchor) :
    Ends (Device.On (· = o)) (openCatalog x anchor c.1)
      (fun inner => Device.On (Opened x o c inner)) fun _ => Device.On (Kept x o c) := by
  have hkept : Kept x o c o := ⟨rfl, h.holds⟩
  unfold openCatalog
  rw [checkMetadata_eq_ok h.balanced h.fits, ofExcept_ok_bind]
  refine .bind ((table_ends h.db).relax fun e d hd => ?_)
    fun records => ?_
  · exact show Kept x o c d.state from hd.2 ▸ hkept
  refine .given (φ := records = encodeEntries c.2) (fun d hd => hd.2) ?_
  rintro rfl
  rw [h.balanced.countRows, ofExcept_ok_bind, if_neg (by simp)]
  refine .bind ((anchorAndSeal_ends hx h).imp (fun d hd => hd.1) (fun _ _ h => h)
    fun _ _ h => h) fun _ => .pure fun d hd => ?_
  obtain ⟨hmem, hdb, hcontent, hstaging⟩ := hd
  exact ⟨hmem, hdb.trans h.db, hcontent, h.balanced, rfl, hstaging⟩

/-! ### A blank directory -/

/-- What an open finds: the content of the directory, or that of a new database. -/
def firstContent (database : Id16) : Option (Metadata × Entries) → Metadata × Entries
  | none => (initialMetadata database, ∅)
  | some c => c

theorem balanced_initial (x : Crates) (database : Id16) :
    Balanced x (initialMetadata database) ∅ where
  format := rfl
  generation := show (1 : UInt64) ≠ 0 by decide
  sound key s h := absurd h (by simp)
  identities := by simp [initialMetadata]
  capacity := by simp
  live := by
    have hnone : liveCount ∅ ≤ 0 := liveCount_le_size ∅
    exact (Nat.le_zero.mp hnone).symm
  floor key s h := absurd h (by simp)

theorem openable_initial (database : Id16) (hcontent : o.file.content = none)
    (hinit : o.file.initialized = false) :
    Openable x { o with db := dbOf (initialMetadata database) ∅ } (initialMetadata database, ∅)
      none where
  db := rfl
  balanced := balanced_initial x database
  anchored := .inl ⟨hcontent, hinit, rfl, rfl⟩
  decoded := by
    rw [hcontent]
    rfl
  fits := ⟨rfl, rfl⟩

/-- The same owner over a new, empty database. -/
def emptied (o : Owner DbFile ι) : Owner DbFile ι := { o with db := .database ⟨none, none⟩ }

theorem openFile_calm (h : o.db.open = ⟨none, none⟩) :
    (openFile false : Owned DbFile ι Unit) ⟨o, []⟩ = (.ok (), ⟨emptied o, []⟩) := by
  rcases o with ⟨file, db, mem⟩
  cases db with
  | absent | empty => rfl
  | database db =>
    have hdb : db = ⟨none, none⟩ := h
    subst hdb
    rfl

/-- A blank directory. -/
def Blank (o p : Owner DbFile ι) : Prop :=
  p.mem = o.mem ∧ p.file = o.file ∧ p.db.open = ⟨none, none⟩

theorem openFile_ends (h : o.db.open = ⟨none, none⟩) :
    Ends (Device.On (· = o)) (openFile false) (fun _ => Device.On (· = emptied o))
      fun _ => Device.On (Blank o) := by
  have hblank : Blank o o := ⟨rfl, rfl, h⟩
  have hcreate : ∀ p : Owner DbFile ι, p.mem = o.mem → p.file = o.file →
      p.db.open = ⟨none, none⟩ → Ends (Device.On (· = p)) openFile.createDatabase
        (fun _ => Device.On (· = emptied o)) fun _ => Device.On (Blank o) := by
    intro p hmem hfile hdb
    refine Device.act_ends (fun q hq => ?_) (fun e q _ hq => hq ▸ ⟨hmem, hfile, hdb⟩)
      (fun e q _ hq => hq ▸ ⟨hmem, hfile, rfl⟩) fun _ _ _ h => h
    rw [hq]
    unfold emptied
    rw [← hmem, ← hfile]
  refine .bind (Device.ask_ends (R := fun db p => p = o ∧ db = o.db)
    (fun p hp => ⟨hp, hp ▸ rfl⟩) fun e p _ hp => hp ▸ hblank) fun db => ?_
  refine .given (φ := db = o.db) (fun d hd => hd.2) ?_
  rintro rfl
  refine .imp (P := Device.On (· = o)) ?_ (fun d hd => hd.1) (fun _ _ h => h) fun _ _ h => h
  cases hdb : o.db with
  | absent =>
    refine .bind (Device.act_ends (Q := (· = { o with db := .empty })) (fun p hp => hp ▸ rfl)
      (fun e p _ hp => hp ▸ hblank) (fun e p _ hp => hp ▸ ⟨rfl, rfl, rfl⟩)
      fun _ _ _ h => h) fun _ => hcreate _ rfl rfl rfl
  | empty => exact hcreate o rfl rfl h
  | database db =>
    refine .pure fun d hd => ?_
    show d.state = emptied o
    have hdb' : db = ⟨none, none⟩ := by
      rw [hdb] at h
      exact h
    rw [hd]
    unfold emptied
    rw [← hdb', ← hdb]

theorem openMetadata_ends (database : Id16) (o : Owner DbFile ι) :
    Ends (Device.On (· = emptied o)) (openMetadata false database)
      (fun md => Device.On fun p => md = initialMetadata database ∧
        p = { o with db := dbOf (initialMetadata database) ∅ })
      fun _ => Device.On fun p => Blank o p ∨ p = { o with db := dbOf (initialMetadata database) ∅ } := by
  have hblank : Blank o (emptied o) := ⟨rfl, rfl, rfl⟩
  refine .bind (Device.ask_ends (R := fun db p => p = emptied o ∧ db = ⟨none, none⟩)
    (fun p hp => ⟨hp, hp ▸ rfl⟩) fun e p _ hp => .inl (hp ▸ hblank)) fun db => ?_
  refine .given (φ := db = ⟨none, none⟩) (fun d hd => hd.2) ?_
  rintro rfl
  refine .bind (Device.act_ends (Q := (· = { o with db := dbOf (initialMetadata database) ∅ }))
    (fun p hp => ?_) (fun e p _ hp => .inl (hp.1 ▸ hblank)) (fun e p _ hp => .inr ?_)
    fun _ _ _ h => h) fun _ => .pure fun d hd => ⟨rfl, hd⟩
  · rw [hp.1]
    rfl
  · rw [hp.1]
    rfl

/-! ### A directory with a database -/

section Filled

variable {db : Database} {row : Bytes}

theorem openMetadata_filled (hdb : o.db = .database db) (hrow : db.metadata = some (some row))
    (hmd : Records.exact metadataCodec row = .ok md) (anchored : Bool) (database : Id16) :
    (openMetadata anchored database : Owned DbFile ι Metadata) ⟨o, []⟩ = (.ok md, ⟨o, []⟩) := by
  unfold openMetadata
  rw [bind_apply, Device.ask_calm, hdb]
  dsimp only [DbFile.open]
  rw [hrow]
  dsimp only
  rw [hmd]
  rfl

theorem openFile_filled_ends (hdb : o.db = .database db) (anchored : Bool) :
    Ends (Device.On (· = o)) (openFile anchored) (fun _ => Device.On (· = o))
      fun _ => Device.On (· = o) := by
  refine .bind (Device.ask_ends (R := fun file p => p = o ∧ file = .database db)
    (fun p hp => ⟨hp, hp ▸ hdb⟩) fun e p _ hp => hp) fun file => ?_
  refine .given (φ := file = .database db) (fun d hd => hd.2) ?_
  rintro rfl
  exact .pure fun d hd => hd.1

theorem openMetadata_filled_ends (hdb : o.db = .database db)
    (hrow : db.metadata = some (some row)) (hmd : Records.exact metadataCodec row = .ok md)
    (anchored : Bool) (database : Id16) :
    Ends (Device.On (· = o)) (openMetadata anchored database)
      (fun m => Device.On fun p => m = md ∧ p = o) fun _ => Device.On (· = o) := by
  refine .bind (Device.ask_ends (R := fun found p => p = o ∧ found = db)
    (fun p hp => ⟨hp, hp ▸ hdb ▸ rfl⟩) fun e p _ hp => hp) fun found => ?_
  refine .given (φ := found = db) (fun d hd => hd.2) ?_
  rintro rfl
  rw [hrow]
  dsimp only
  rw [hmd]
  exact fun d hd => ⟨rfl, hd.1⟩

theorem exact_metadata (md : Metadata) :
    Records.exact metadataCodec (metadataCodec.encode md) = .ok md :=
  Records.exact_encode _ (valid_metadataCodec md)

end Filled

/-! ### Opening -/

/-- An open once the anchor is read. -/
def openAnchored (x : Crates) (database : Id16) (anchor : Option Metadata) :
    Owned DbFile ι Inner := do
  openFile anchor.isSome
  let metadata ← openMetadata anchor.isSome database
  openCatalog x anchor metadata

/-- Past its checks, an open goes on with the anchor. -/
theorem openStore_eq (database : Id16) (hnames : (directoryNames o).length ≤ 129)
    (hlen : ∀ bytes, o.file.content = some bytes → bytes.length ≤ maxState)
    (hanchor : o.file.content.mapM (decodeAnchor x) = .ok anchor)
    (hinit : anchor = none → o.file.initialized = false) :
    (openStore x database : Owned DbFile ι Inner) ⟨o, []⟩ = openAnchored x database anchor ⟨o, []⟩ := by
  have hmissing : (isMissing anchor : Owned DbFile ι Bool) ⟨o, []⟩ = (.ok false, ⟨o, []⟩) := by
    cases anchor with
    | none =>
      refine Prod.ext ?_ rfl
      show Outcome.ok o.file.initialized = _
      rw [hinit rfl]
    | some a => rfl
  refine (bind_of_ok_except (checkNames_eq_ok (fun _ => knownName_directoryNames) 0
    (by simpa using hnames))).trans ?_
  refine (bind_of_ok (read_calm hlen)).trans ?_
  refine (bind_of_ok_except hanchor).trans ?_
  exact bind_of_ok hmissing

/-- The checks write nothing, so one that fails leaves the directory as it was. -/
theorem openStore_ends_of (database : Id16) {Q : Inner → Owner DbFile ι → Prop}
    {E : Owner DbFile ι → Prop} (hE : E o)
    (hanchor : ∀ anchor, o.file.content.mapM (decodeAnchor x) = .ok anchor →
      Ends (Device.On (· = o)) (openAnchored x database anchor) (fun inner => Device.On (Q inner))
        fun _ => Device.On E) :
    Ends (Device.On (· = o)) (openStore x database) (fun inner => Device.On (Q inner))
      fun _ => Device.On E := by
  have hsame : ∀ p, p = o → E p := fun p hp => hp ▸ hE
  refine .bind (Device.ask_ends (R := fun _ p => p = o) (fun _ hp => hp)
    fun e p _ hp => hsame p hp) fun _ => ?_
  refine .bind (Device.ask_ends (R := fun _ p => p = o) (fun _ hp => hp)
    fun e p _ hp => hsame p hp) fun names => ?_
  refine .bind (Ends.ofExcept (Q := fun _ => Device.On (· = o)) (fun _ d _ hd => hd)
    fun e d _ hd => hsame _ hd) fun _ => ?_
  refine .bind ((read_ends (P := (· = o)) (E := (· = o)) fun p hp => hp).relax fun e d hd => hsame _ hd.2) fun stored => ?_
  refine .given (φ := o.file.content = stored) (fun d hd => hd.1 ▸ hd.2) ?_
  rintro rfl
  refine .bind (Q := fun anchor => Device.On fun p => p = o ∧
    o.file.content.mapM (decodeAnchor x) = .ok anchor)
    (Ends.ofExcept (fun _ d hok hd => ⟨hd.1, hok⟩) fun e d _ hd => hsame _ hd.1) fun anchor => ?_
  refine .given (φ := o.file.content.mapM (decodeAnchor x) = .ok anchor) (fun d hd => hd.2)
    fun hok => ?_
  refine .bind (Q := fun _ => Device.On (· = o)) ?_ fun missing => ?_
  · unfold isMissing
    split
    · exact Device.ask_ends (fun p hp => hp.1) fun e p _ hp => hsame p hp.1
    · exact .pure fun d hd => hd.1
  · split
    · exact .fail fun d hd => hsame _ hd
    · exact hanchor anchor hok

/-- The store an open returns. -/
def openedInner (md : Metadata) : Inner :=
  { metadata := md, failed := false, observedWall := .zero, cursor := none }

/-- The directory an open leaves. -/
def openedOwner (x : Crates) (c : Metadata × Entries) (o : Owner DbFile ι) : Owner DbFile ι :=
  { o with file := anchoredFile x c.1 o.file, db := dbOf c.1 c.2 }

/-- **Opening a store** on storage that works, from whatever a store left behind. -/
theorem openStore_calm (hx : Json.ReadsBack x.parseJson) {content : Option (Metadata × Entries)}
    (h : Holds x o.file o.db content) (hnames : (directoryNames o).length ≤ 129) (database : Id16) :
    openStore x database ⟨o, []⟩ = (.ok (openedInner (firstContent database content).1),
      ⟨openedOwner x (firstContent database content) o, []⟩) := by
  rcases o with ⟨file, db, mem⟩
  cases h with
  | blank _ hdb hcontent hinit =>
    have hread : file.content.mapM (decodeAnchor x) = .ok none := by
      rw [show file.content = none from hcontent]
      rfl
    have hopen : Openable x _ _ none :=
      openable_initial (o := ⟨file, db, mem⟩) database hcontent hinit
    rw [openStore_eq database hnames (fun _ h => absurd (hcontent.symm.trans h) (by simp)) hread
      fun _ => hinit]
    refine (bind_of_ok (openFile_calm hdb)).trans ?_
    exact openCatalog_calm hx hopen
  | filled md entries hbal hanchor =>
    obtain ⟨anchor, hread, hfits, hinit⟩ := Anchored.fits hx hanchor
    have hopen : Openable x ⟨file, dbOf md entries, mem⟩ (md, entries) anchor :=
      ⟨rfl, hbal, hanchor, hread, hfits⟩
    rw [openStore_eq database hnames (Anchored.length_le hanchor) hread hinit]
    refine (bind_of_ok (openMetadata_filled rfl rfl (exact_metadata md) _ _)).trans ?_
    exact openCatalog_calm hx hopen

/-- What an interrupted open leaves: the content it found, or that of a new database. -/
def Interrupted (x : Crates) (o : Owner DbFile ι) (content : Option (Metadata × Entries))
    (database : Id16) (p : Owner DbFile ι) : Prop :=
  p.mem = o.mem ∧ (Holds x p.file p.db content ∨
    Holds x p.file p.db (some (firstContent database content)))

/-- **Opening a store** on any storage, from whatever a store left behind. -/
theorem openStore_ends (hx : Json.ReadsBack x.parseJson) {content : Option (Metadata × Entries)}
    (h : Holds x o.file o.db content) (database : Id16) :
    Ends (Device.On (· = o)) (openStore x database)
      (fun inner => Device.On (Opened x o (firstContent database content) inner))
      fun _ => Device.On (Interrupted x o content database) := by
  refine openStore_ends_of database ⟨rfl, .inl h⟩ fun anchor hread => ?_
  rcases o with ⟨file, db, mem⟩
  cases h with
  | blank _ hdb hcontent hinit =>
    have hanchor : anchor = none := by
      rw [show file.content = none from hcontent] at hread
      exact (Except.ok.inj hread).symm
    subst hanchor
    have hopen : Openable x _ _ none :=
      openable_initial (o := ⟨file, db, mem⟩) database hcontent hinit
    -- until the first transaction the directory stays blank
    have hblank : ∀ p, Blank ⟨file, db, mem⟩ p → Interrupted x ⟨file, db, mem⟩ none database p :=
      fun p hp => ⟨hp.1, .inl (.blank _ hp.2.2 (hp.2.1 ▸ hcontent) (hp.2.1 ▸ hinit))⟩
    refine .bind ((openFile_ends hdb).relax
      fun e d hd => hblank _ hd) fun _ => ?_
    refine .bind ((openMetadata_ends database _).relax
      fun e d hd => ?_) fun m => ?_
    · rcases hd with hd | hd
      · exact hblank _ hd
      · exact show Interrupted x _ none database d.state from hd ▸ ⟨rfl, .inr hopen.holds⟩
    refine .given (φ := m = initialMetadata database) (fun d hd => hd.1) ?_
    rintro rfl
    exact (openCatalog_ends hx hopen).imp (fun d hd => hd.2)
      (fun _ d hd => ⟨hd.mem, hd.db, hd.content, hd.balanced, hd.inner, hd.staging⟩)
      fun e d hd => ⟨hd.1, .inr hd.2⟩
  | filled md entries hbal hanchored =>
    obtain ⟨anchor', hread', hfits, -⟩ := Anchored.fits hx hanchored
    have hanchor : anchor = anchor' := Except.ok.inj (hread.symm.trans hread')
    subst hanchor
    have hopen : Openable x ⟨file, dbOf md entries, mem⟩ (md, entries) anchor :=
      ⟨rfl, hbal, hanchored, hread, hfits⟩
    have hsame : ∀ p, p = ⟨file, dbOf md entries, mem⟩ →
        Interrupted x ⟨file, dbOf md entries, mem⟩ (some (md, entries)) database p := by
      rintro p rfl
      exact ⟨rfl, .inl hopen.holds⟩
    refine .bind ((openFile_filled_ends rfl _).relax
      fun e d hd => hsame _ hd) fun _ => ?_
    refine .bind ((openMetadata_filled_ends rfl rfl (exact_metadata md) _ database).relax fun e d hd => hsame _ hd) fun m => ?_
    refine .given (φ := m = md) (fun d hd => hd.1) ?_
    rintro rfl
    exact (openCatalog_ends hx hopen).imp (fun d hd => hd.2) (fun _ _ h => h)
      fun e d hd => ⟨hd.1, .inl hd.2⟩

/-! ### What is refused -/

/-- The database disagrees with its anchor: it was rolled back, it is more than one commit ahead,
or it was replaced. -/
def Disagrees (anchor md : Metadata) : Prop :=
  md.generation.toNat < anchor.generation.toNat ∨
    anchor.generation.toNat + 1 < md.generation.toNat ∨
      (md.generation = anchor.generation ∧ md ≠ anchor)

theorem checkMetadata_ne_ok {anchor md : Metadata} (h : Disagrees anchor md) (u : Unit) :
    checkMetadata md (some anchor) ≠ .ok u := by
  unfold checkMetadata
  split
  · exact nofun
  dsimp only
  rw [if_pos]
  · exact nofun
  rcases h with hlow | hhigh | ⟨hsame, hne⟩
  · exact .inr (.inr (.inr (.inl (UInt64.lt_iff_toNat_lt.mpr hlow))))
  · refine .inr (.inr (.inr (.inr (.inl ?_))))
    exact lt_of_le_of_lt (min_le_left _ _) hhigh
  · exact .inr (.inr (.inr (.inr (.inr ⟨hsame, hne.symm⟩))))

/-- **An open refuses a database that disagrees with its anchor**, whatever storage does. -/
theorem openStore_refuses {d : Device (Owner DbFile ι)} {bytes row : Bytes} {db : Database}
    {anchor : Metadata} (hcontent : d.state.file.content = some bytes)
    (hanchor : decodeAnchor x bytes = .ok anchor) (hdb : d.state.db = .database db)
    (hrow : db.metadata = some (some row)) (hmd : Records.exact metadataCodec row = .ok md)
    (h : Disagrees anchor md) (database : Id16) (inner : Inner) :
    (openStore x database d).1 ≠ .ok inner := by
  have hread : d.state.file.content.mapM (decodeAnchor x) = .ok (some anchor) := by
    rw [hcontent, Option.mapM_some, hanchor]
    rfl
  have hends : Ends (Device.On (· = d.state)) (openStore x database)
      (fun _ => Device.On fun _ => False) fun _ => Device.On fun _ => True := by
    refine openStore_ends_of database True.intro fun anchor' hread' => ?_
    obtain rfl : some anchor = anchor' := Except.ok.inj (hread.symm.trans hread')
    refine .bind ((openFile_filled_ends hdb _).relax
      fun _ _ _ => True.intro) fun _ => ?_
    refine .bind ((openMetadata_filled_ends hdb hrow hmd _ database).relax fun _ _ _ => True.intro) fun m => ?_
    refine .given (φ := m = md) (fun d hd => hd.1) ?_
    rintro rfl
    exact .bind (Q := fun _ => Device.On fun _ => False)
      (Ends.ofExcept (fun u _ hok _ => checkMetadata_ne_ok h u hok) fun _ _ _ _ => True.intro)
      fun _ _ hd => hd.elim
  intro hok
  have hrun := hends d rfl
  rcases hm : openStore x database d with ⟨out, d'⟩
  rw [hm] at hrun hok
  cases hok
  exact hrun

end FileStore

end Rds.Discovery
