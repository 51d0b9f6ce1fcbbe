import Rds.Discovery.MemoryStore
import Rds.Discovery.Persist

/-!
# The store on disk

`FileStore` (`rds-discovery/src/records.rs`): an embedded database with a table of entries and a
row of metadata, and beside it an anchor, an atomic file with a copy of the metadata. A commit
changes the database in one transaction and then writes the anchor; opening the directory compares
the two, so a database that was rolled back is refused and an anchor that is one commit behind is
brought up to date.

A transaction of the database is all or nothing, as `AtomicFile::write` is. The database file is
absent, empty or holds a database; the sizes of its pages are not modelled.
-/

namespace Rds.Discovery

open Framework Postcard Std JsonCodec

/-! ### Metadata and its anchor -/

/-- `Metadata`. -/
structure Metadata where
  format : UInt16
  database : Id16
  generation : UInt64
  live : UInt64
  identities : UInt64
  wallFloor : Duration
  deriving DecidableEq

/-- `Metadata` in postcard. -/
def metadataCodec : Codec Metadata :=
  (Codec.word16.pair ((Codec.fixed 16).pair (Codec.word64.pair (Codec.word64.pair
      (Codec.word64.pair .duration))))).iso
    (fun r => ⟨r.1, r.2.1, r.2.2.1, r.2.2.2.1, r.2.2.2.2.1, r.2.2.2.2.2⟩)
    (fun m => (m.format, m.database, m.generation, m.live, m.identities, m.wallFloor))
    fun _ => rfl

theorem valid_metadataCodec (m : Metadata) : metadataCodec.Valid m :=
  ⟨Codec.valid_word16 _, True.intro, Codec.valid_word64 _, Codec.valid_word64 _,
    Codec.valid_word64 _, True.intro⟩

/-- `Metadata` in JSON. -/
def metadataJson : JsonCodec Metadata :=
  (JsonCodec.object
      (.cons (utf8 "format") .word16 (.cons (utf8 "database") (.fixed 16)
        (.cons (utf8 "generation") .word64 (.cons (utf8 "live") .word64
          (.cons (utf8 "identities") .word64 (.cons (utf8 "wall_floor") .duration .nil))))))
      (by decide) (by decide +kernel)).iso
    (fun r => ⟨r.1, r.2.1, r.2.2.1, r.2.2.2.1, r.2.2.2.2.1, r.2.2.2.2.2.1⟩)
    (fun m => (m.format, m.database, m.generation, m.live, m.identities, m.wallFloor, ()))
    fun _ => rfl

/-- `Anchor` in JSON: metadata and their digest. -/
def anchorJson : JsonCodec (Metadata × Digest) :=
  (JsonCodec.object (.cons (utf8 "metadata") metadataJson (.cons (utf8 "digest") keyJson .nil))
      (by decide) (by decide +kernel)).iso
    (fun r => (r.1, r.2.1)) (fun a => (a.1, a.2, ())) fun _ => rfl

theorem valid_anchorJson (a : Metadata × Digest) : anchorJson.Valid a :=
  ⟨⟨valid_word16 _, True.intro, valid_word64 _, valid_word64 _,
    valid_word64 _, valid_duration _, True.intro⟩, True.intro, True.intro⟩

/-- `encode_anchor`. -/
def encodeAnchor (x : Crates) (metadata : Metadata) : Bytes :=
  anchorJson.toVec (metadata, x.blake3 (metadataCodec.encode metadata))

/-- `decode_anchor`. -/
def decodeAnchor (x : Crates) (bytes : Bytes) : Except DiscoveryError Metadata :=
  match anchorJson.fromSlice x.parseJson bytes with
  | none => throw (storeErrorFrom .json)
  | some anchor =>
    if x.blake3 (metadataCodec.encode anchor.1) ≠ anchor.2 then
      throw (storeError "record commit anchor checksum mismatch")
    else pure anchor.1

theorem decodeAnchor_encodeAnchor {x : Crates} (hx : Json.ReadsBack x.parseJson) (m : Metadata) :
    decodeAnchor x (encodeAnchor x m) = .ok m := by
  unfold decodeAnchor encodeAnchor
  rw [anchorJson.fromSlice_toVec hx (by decide) (valid_anchorJson _)]
  exact if_neg (not_not.mpr rfl)

theorem length_encodeAnchor_le (x : Crates) (m : Metadata) :
    (encodeAnchor x m).length ≤ maxState :=
  Nat.le_trans (anchorJson.size_le _ (valid_anchorJson _)) (by decide)

/-! ### The directory -/

/-- The database: the table of records and the row of metadata; `none` is a table that does not
exist. -/
structure Database where
  records : Option (ExtTreeMap EndpointKey Bytes compare)
  metadata : Option (Option Bytes)

/-- The file `records.redb`. -/
inductive DbFile where
  | absent
  | empty
  | database (db : Database)

/-- The database in a file; a file that is absent or empty holds none. -/
def DbFile.open : DbFile → Database
  | .database db => db
  | _ => ⟨none, none⟩

/-- `Inner`. -/
structure Inner where
  metadata : Metadata
  failed : Bool
  observedWall : Duration
  cursor : Option EndpointKey

/-- What the process keeps in memory: the store, and the state of its caller. -/
structure FileMem (ω : Type) where
  inner : Inner
  env : ω

/-- What a program of an open store runs on: the files, and the memory of the process. -/
abbrev FileHost (ω : Type) : Type := Owner DbFile (FileMem ω)

/-- The name of a staging file. -/
def stagingName (n : ℕ) : Bytes :=
  utf8 ".policy-" ++ (List.range 32).map (fun i => Json.hexDigit (n / 16 ^ (31 - i) % 16)) ++
    utf8 ".tmp"

namespace FileStore

variable {ι ω : Type}

/-- A program of an open store. -/
abbrev Run (ω α : Type) : Type := Owned DbFile (FileMem ω) α

/-- The names in the directory. -/
def directoryNames (o : Owner DbFile ι) : List Bytes :=
  [utf8 ".", utf8 "..", utf8 "records.lock"] ++
    (if o.file.content.isSome then [utf8 "records.anchor"] else []) ++
    (match o.db with
      | .absent => []
      | _ => [utf8 "records.redb"]) ++
    o.file.staging.map stagingName

/-- The name belongs to a record store. -/
def knownName (name : Bytes) : Bool :=
  name = utf8 "." ∨ name = utf8 ".." ∨ name = utf8 "records.lock" ∨ name = utf8 "records.anchor" ∨
    name = utf8 "records.redb" ∨
    ((utf8 ".policy-").isPrefixOf name ∧ (utf8 ".tmp").isSuffixOf name)

/-- The names are few and known; `index` is the position of the next one. -/
def checkNames : ℕ → List Bytes → Except DiscoveryError Unit
  | _, [] => pure ()
  | index, name :: names =>
    if index > 128 then throw (storeError "record state directory requires maintenance")
    else if ¬ knownName name then
      throw (storeError "legacy or unknown record files require explicit migration")
    else checkNames (index + 1) names

/-! ### Opening -/

/-- The metadata of a new database. -/
def initialMetadata (database : Id16) : Metadata :=
  { format := 3, database, generation := 1, live := 0, identities := 0, wallFloor := .zero }

/-- Commit a transaction of the database. -/
def commitDatabase (records : ExtTreeMap EndpointKey Bytes compare) (metadata : Metadata) :
    Owned DbFile ι Unit :=
  Device.act (fun _ => storeErrorFrom .redb)
    (fun o => { o with
      db := .database ⟨some records, some (some (metadataCodec.encode metadata))⟩ })
    fun _ o => o

/-- Read the metadata of the database, or initialise it. `anchored` tells whether there is an
anchor, `database` is the random identity of a new database. -/
def openMetadata (anchored : Bool) (database : Id16) : Owned DbFile ι Metadata := do
  let db ← Device.ask (storeErrorFrom .redb) fun o => o.db.open
  match db.metadata with
  | some none => Prog.fail (storeError "record metadata missing")
  | some (some bytes) => Prog.ofExcept (Records.exact metadataCodec bytes)
  | none =>
    if anchored then Prog.fail (storeErrorFrom .redb)
    else if db.records.isSome then
      Prog.fail (storeError "record metadata absent from nonempty database")
    else do
      commitDatabase ∅ (initialMetadata database)
      pure (initialMetadata database)

/-- The checks of the metadata by themselves and against the anchor. -/
def checkMetadata (metadata : Metadata) (anchor : Option Metadata) : Except DiscoveryError Unit :=
  if metadata.format ≠ 3 ∨ metadata.generation = 0 ∨
      metadata.identities.toNat > maxIdentities then
    throw (storeError "invalid record metadata")
  else
    match anchor with
    | some previous =>
      if previous.format ≠ metadata.format ∨ previous.wallFloor > metadata.wallFloor ∨
          previous.database ≠ metadata.database ∨ metadata.generation < previous.generation ∨
          metadata.generation.toNat > min (previous.generation.toNat + 1) (2 ^ 64 - 1) ∨
          (metadata.generation = previous.generation ∧ previous ≠ metadata) then
        throw (storeError "record database rolled back or disagrees with durable commit anchor")
      else pure ()
    | none =>
      if metadata.generation ≠ 1 ∨ metadata.identities ≠ 0 then
        throw (storeError "record database lacks its commit anchor")
      else pure ()

/-- Validate a row of the catalogue and count it: identities and live records. -/
def countRow (x : Crates) (metadata : Metadata) (count : UInt64 × UInt64)
    (row : EndpointKey × Bytes) : Except DiscoveryError (UInt64 × UInt64) :=
  let identities := count.1 + 1
  if identities.toNat > maxIdentities then throw (storeError "record identity capacity exceeded")
  else do
    let stored ← Records.decode x row.2 row.1
    if stored.acceptedWall > metadata.wallFloor then
      throw (storeError "record lease exceeds catalog clock floor")
    else pure (identities, count.2 + countOf stored.live)

/-- The table of records. -/
def table : Owned DbFile ι (ExtTreeMap EndpointKey Bytes compare) := do
  let records ← Device.ask (storeErrorFrom .redb) fun o => o.db.open.records
  match records with
  | none => Prog.fail (storeErrorFrom .redb)
  | some records => pure records

/-- Bring the anchor up to date and mark the directory as initialised. -/
def anchorAndSeal (x : Crates) (anchor : Option Metadata) (metadata : Metadata) :
    Owned DbFile ι Unit := do
  Prog.when (anchor ≠ some metadata) (AtomicFile.write (encodeAnchor x metadata))
  let initialized ← AtomicFile.isInitialized
  Prog.when (¬ initialized) AtomicFile.sealLock

/-- Open the database file: create it unless there is an anchor, and initialise an empty one. -/
def openFile (anchored : Bool) : Owned DbFile ι Unit := do
  let file ← Device.ask (storeErrorFrom .system) fun o => o.db
  match file with
  | .database _ => pure ()
  | .empty =>
    if anchored then Prog.fail (storeError "record database missing, empty or oversized")
    else createDatabase
  | .absent =>
    if anchored then Prog.fail (storeErrorFrom .system)
    else do
      Device.act (fun _ => storeErrorFrom .system) (fun o => { o with db := .empty }) fun _ o => o
      createDatabase
where
  /-- Initialise an empty file. -/
  createDatabase : Owned DbFile ι Unit :=
    Device.act (fun _ => storeErrorFrom .redb)
      (fun o => { o with db := .database ⟨none, none⟩ }) fun _ o => o

/-- The directory was initialised, so its anchor is missing if there is none. -/
def isMissing (anchor : Option Metadata) : Owned DbFile ι Bool :=
  if anchor.isNone then AtomicFile.isInitialized else pure false

/-- Validate the catalogue against the metadata and the anchor, and bring the anchor up to date. -/
def openCatalog (x : Crates) (anchor : Option Metadata) (metadata : Metadata) :
    Owned DbFile ι Inner := do
  Prog.ofExcept (checkMetadata metadata anchor)
  let records ← table
  let count ← Prog.ofExcept (records.toList.foldlM (countRow x metadata) (0, 0))
  if count.1 ≠ metadata.identities ∨ count.2 ≠ metadata.live then
    Prog.fail (storeError "record metadata/catalog mismatch")
  else do
    anchorAndSeal x anchor metadata
    pure { metadata, failed := false, observedWall := .zero, cursor := none }

/-- `FileStore::open_owned`, of a directory that is not being migrated. -/
def openOwned (x : Crates) (database : Id16) : Owned DbFile ι Inner := do
  let names ← Device.ask (storeErrorFrom .system) directoryNames
  Prog.ofExcept (checkNames 0 names)
  let stored ← AtomicFile.read
  let anchor ← Prog.ofExcept (stored.mapM (decodeAnchor x))
  let missing ← isMissing anchor
  if missing then Prog.fail (storeError "record commit anchor missing")
  else do
    openFile anchor.isSome
    let metadata ← openMetadata anchor.isSome database
    openCatalog x anchor metadata

/-- `FileStore::open`. -/
def openStore (x : Crates) (database : Id16) : Owned DbFile ι Inner := do
  AtomicFile.openNamed
  openOwned x database

/-! ### Commits -/

/-- Change the store in memory. -/
def update (f : Inner → Inner) : Run ω Unit :=
  Device.modify fun o => { o with mem := { o.mem with inner := f o.mem.inner } }

/-- One change of a transaction: the counters, and the row in the table. -/
def applyChange (x : Crates)
    (txn : Metadata × ExtTreeMap EndpointKey Bytes compare) (change : EndpointKey × Stored) :
    Except DiscoveryError (Metadata × ExtTreeMap EndpointKey Bytes compare) :=
  let bytes := storedCodec.encode change.2
  if bytes.length > maxCell then throw (storeError "record exceeds storage limit")
  else do
    let old ← txn.2[change.1]?.mapM fun value => Records.decode x value change.1
    let gone := countOf (old.any Stored.live)
    if old.isNone ∧ ¬ txn.1.identities.toNat + 1 ≤ maxIdentities then
      throw (storeError "record identity capacity exceeded")
    else if txn.1.live < gone ∨
        ¬ (txn.1.live - gone).toNat + (countOf change.2.live).toNat < 2 ^ 64 then
      throw (storeError "record count inconsistent")
    else
      pure
        ({ txn.1 with
            identities := if old.isNone then txn.1.identities + 1 else txn.1.identities
            live := txn.1.live - gone + countOf change.2.live },
          txn.2.insert change.1 bytes)

/-- `Inner::commit`. -/
def commit (x : Crates) (changes : List (EndpointKey × Stored)) (now : Reading) : Run ω Unit := do
  update fun inner => { inner with failed := true }
  let inner ← Device.get fun o : FileHost ω => o.mem.inner
  let anchored ← AtomicFile.read
  match anchored with
  | none => Prog.fail (storeError "record commit anchor disappeared")
  | some anchored => do
    let anchor ← Prog.ofExcept (decodeAnchor x anchored)
    if anchor ≠ inner.metadata then
      Prog.fail (storeError "record commit anchor changed during service lifetime")
    else if ¬ inner.metadata.generation.toNat + 1 < 2 ^ 64 then
      Prog.fail (storeError "record commit generation exhausted")
    else do
      let records ← Device.ask (storeErrorFrom .redb)
        fun o : FileHost ω => o.db.open.records
      let txn ← Prog.ofExcept (changes.foldlM (applyChange x)
        ({ inner.metadata with
            generation := inner.metadata.generation + 1
            wallFloor := max inner.metadata.wallFloor now.wall }, records.getD ∅))
      commitDatabase txn.2 txn.1
      AtomicFile.write (encodeAnchor x txn.1)
      update fun inner => { inner with metadata := txn.1, failed := false }

/-- `Inner::healthy`. -/
def healthy (inner : Inner) : Except DiscoveryError Unit :=
  if inner.failed then throw (storeError "record commit outcome uncertain; reopen required")
  else pure ()

/-! ### Accesses and collections -/

/-- The start of every operation: the store is healthy and the clock has not gone back. -/
def start (now : ClockRead) : Run ω Reading := do
  let inner ← Device.get fun o : FileHost ω => o.mem.inner
  Prog.ofExcept (healthy inner)
  let now ← Prog.ofExcept now
  let wall ← Prog.ofExcept (Records.observe inner.metadata.wallFloor inner.observedWall now)
  update fun inner => { inner with observedWall := wall }
  pure now

/-- Ask the callback. -/
def ask (admission : Callback ω) (known : Bool) : Run ω Unit := fun d =>
  match admission known d.state.mem.env with
  | (.ok (), env) => (.ok (), { d with state := { d.state with mem := { d.state.mem with env } } })
  | (.error e, env) =>
    (.err e, { d with state := { d.state with mem := { d.state.mem with env } } })

/-- Run a read of the database; the store has failed if it does not come back. -/
def guarded {α : Type} (read : Run ω α) : Run ω α := do
  update fun inner => { inner with failed := true }
  let a ← read
  update fun inner => { inner with failed := false }
  pure a

/-- The stored entry of a key. -/
def lookup (x : Crates) (key : EndpointKey) : Run ω (Option Stored) := do
  let records ← table
  Prog.ofExcept (records[key]?.mapM fun value => Records.decode x value key)

/-- `FileStore::access_admitted`. -/
def access (x : Crates) (key : EndpointKey) (entry : Option Entry)
    (now : ClockRead) (admission : Callback ω) :
    Run ω (Option EndpointRecord) := do
  let now ← start now
  let old ← guarded (lookup x key)
  let decision ← Prog.ofExcept (Records.decide x old entry key now)
  match decision.replacement with
  | none => Prog.ofExcept decision.result
  | some replacement => do
    let inner ← Device.get fun o : FileHost ω => o.mem.inner
    if old.isNone ∧ inner.metadata.identities.toNat ≥ maxIdentities then
      Prog.fail (storeError "record identity capacity exceeded")
    else do
      Prog.when replacement.isActive (ask admission old.isSome)
      commit x [(key, replacement)] now
      Prog.ofExcept decision.result

/-- The entries of a batch that have lapsed, retired. -/
def lapsedRows (x : Crates) (now : Reading) :
    List (EndpointKey × Bytes) → Except DiscoveryError (List (EndpointKey × Stored))
  | [] => pure []
  | (key, value) :: rows => do
    let stored ← Records.decode x value key
    let retired ← stored.retire x key now
    let rest ← lapsedRows x now rows
    pure ((retired.map fun s => (key, s)).toList ++ rest)

/-- The batch of a collection, and what has lapsed of it. -/
def scan (x : Crates) (now : Reading) :
    Run ω (List (EndpointKey × Bytes) × List (EndpointKey × Stored)) := do
  let inner ← Device.get fun o : FileHost ω => o.mem.inner
  let records ← table
  let changes ← Prog.ofExcept (lapsedRows x now (collectBatch records inner.cursor))
  pure (collectBatch records inner.cursor, changes)

/-- `FileStore::collect_at`. -/
def collect (x : Crates) (now : ClockRead) : Run ω ℕ := do
  let now ← start now
  let scanned ← guarded (scan x now)
  Prog.when (scanned.2 ≠ []) (commit x scanned.2 now)
  update fun inner => { inner with cursor := nextCursor scanned.1 }
  pure scanned.2.length

/-- The operations of the store. -/
def ops (x : Crates) : StoreOps (Device (FileHost ω)) ω where
  access := access x
  collect := collect x

end FileStore

end Rds.Discovery
