import Rds.Sync.Canonical

/-!
# Directory snapshots on the wire

A directory manifest travels as a header and a sequence of bounded parts
(`rds-sync/src/directory/wire.rs`). The sender cuts the entries into parts by
adding up the sizes of single entries; the receiver measures a part as a whole,
checks the order of paths across parts, and counts entries and bytes against the
header.

`Measured` is the description of a part at which the two meet: the iterator cuts
off measured parts (`nextPart_eq_some`), and the assembler accepts a measured part
that continues a verified manifest (`Verified.pushPart_assembled`). Against a peer
that does not follow the protocol the assembler keeps `Sound`, whatever parts
arrive.

Encoded sizes are those of the postcard format. `serialized_size` is taken to be
exact, the length of the encoding.
-/

namespace Rds

open Framework UnixPath List Postcard

/-! ### Headers and parts -/

/-- `DIRECTORY_SNAPSHOT_VERSION`. -/
def directorySnapshotVersion : UInt16 := 1

/-- `MAX_DIRECTORY_PART_ENTRIES`. -/
def maxDirectoryPartEntries : ℕ := 32

/-- `MAX_DIRECTORY_PART_BYTES`. -/
def maxDirectoryPartBytes : ℕ := 48 * 1024

/-- `DirectorySnapshotHeader`. -/
structure DirectorySnapshotHeader where
  version : UInt16
  root : ChunkHash
  entryCount : UInt32
  metadataBytes : UInt64
  deriving DecidableEq

/-- The loop of `manifest_metadata_bytes`, from a running total. -/
def metadataBytesFrom (total : ℕ) : List DirectoryEntry → Except SyncError ℕ
  | [] => .ok total
  | entry :: entries => do
    entry.validate
    if addDataBytes total entry > maxDirectoryDataBytes then
      throw (.manifest [.text "directory metadata byte budget exceeded"])
    else metadataBytesFrom (addDataBytes total entry) entries

/-- `manifest_metadata_bytes`. -/
def manifestMetadataBytes (entries : List DirectoryEntry) : Except SyncError ℕ :=
  metadataBytesFrom 0 entries

/-- `DirectorySnapshotHeader::from_manifest`. -/
def DirectorySnapshotHeader.fromManifest (ext : Externals) (manifest : DirectoryManifest) :
    Except SyncError DirectorySnapshotHeader := do
  manifest.verify ext
  let metadataBytes ← manifestMetadataBytes manifest.entries
  if 2 ^ 32 ≤ manifest.entries.length then
    throw (.manifest [.text "directory entry count exceeds wire bounds"])
  else if 2 ^ 64 ≤ metadataBytes then
    throw (.manifest [.text "directory metadata exceeds wire bounds"])
  else
    .ok ⟨directorySnapshotVersion, manifest.root, .ofNat manifest.entries.length,
      .ofNat metadataBytes⟩

/-- `DirectorySnapshotPart`. -/
structure DirectorySnapshotPart where
  entries : List DirectoryEntry
  deriving DecidableEq

/-- `serialized_size` of an entry. -/
def serializedSize (ext : Externals) (entry : DirectoryEntry) : Option ℕ :=
  (ext.postcard entry).map List.length

/-- `DirectorySnapshotPart::encoded_len`: a part is encoded as the number of its
entries and then the entries. -/
def DirectorySnapshotPart.encodedLen (ext : Externals) (self : DirectorySnapshotPart) :
    Except SyncError ℕ :=
  match self.entries.mapM ext.postcard with
  | none => throw (.manifest [.text "directory snapshot part cannot be encoded"])
  | some encodings => .ok (Postcard.varint64 self.entries.length ++ encodings.flatten).length

/-- The loop of `validate_part`: entries are valid and paths strictly increase. -/
def validateOrder (prior : Option DirectoryEntry) : List DirectoryEntry → Except SyncError Unit
  | [] => .ok ()
  | entry :: entries => do
    entry.validate
    if ∃ p ∈ prior, entry.path ≤ p.path then
      throw (.manifest [.text "directory snapshot paths are not strictly ordered"])
    else validateOrder (some entry) entries

/-- `validate_part`. -/
def validatePart (ext : Externals) (part : DirectorySnapshotPart)
    (previous : Option DirectoryEntry) : Except SyncError Unit :=
  if part.entries = [] ∨ part.entries.length > maxDirectoryPartEntries then
    throw (.manifest [.text "directory snapshot part entry count is outside bounds"])
  else do
    validateOrder previous part.entries
    let length ← part.encodedLen ext
    if length > maxDirectoryPartBytes then
      throw (.manifest [.text "directory snapshot part exceeds frame budget"])
    else .ok ()

/-! ### The assembler -/

/-- `DirectorySnapshotAssembler`. -/
structure DirectorySnapshotAssembler where
  header : DirectorySnapshotHeader
  entries : List DirectoryEntry
  metadataBytes : ℕ

namespace DirectorySnapshotAssembler

/-- `DirectorySnapshotAssembler::new`. A `u32` and a `u64` fit a `usize`. -/
def new (header : DirectorySnapshotHeader) : Except SyncError DirectorySnapshotAssembler :=
  if header.version ≠ directorySnapshotVersion then
    throw (.manifest [.text "unsupported directory snapshot version ", .num header.version.toNat])
  else if header.entryCount.toNat > maxDirectoryEntries ∨
      header.metadataBytes.toNat > maxDirectoryDataBytes then
    throw (.manifest [.text "directory snapshot header exceeds local bounds"])
  else .ok ⟨header, [], 0⟩

/-- `DirectorySnapshotAssembler::push_part`: the result, and the assembler after
it. -/
def pushPart (ext : Externals) (self : DirectorySnapshotAssembler) (part : DirectorySnapshotPart) :
    Except SyncError Unit × DirectorySnapshotAssembler :=
  match validatePart ext part self.entries.getLast? with
  | .error error => (.error error, self)
  | .ok () =>
    if saturatingAdd self.entries.length part.entries.length > self.header.entryCount.toNat then
      (.error (.manifest [.text "directory snapshot has too many entries"]), self)
    else
      match manifestMetadataBytes part.entries with
      | .error error => (.error error, self)
      | .ok partBytes =>
        let metadataBytes := saturatingAdd self.metadataBytes partBytes
        if metadataBytes > self.header.metadataBytes.toNat then
          (.error (.manifest [.text "directory snapshot exceeds announced metadata bytes"]), self)
        else
          let self := { self with metadataBytes }
          (.ok (), { self with entries := self.entries ++ part.entries })

/-- `DirectorySnapshotAssembler::finish`. -/
def finish (ext : Externals) (self : DirectorySnapshotAssembler) :
    Except SyncError DirectoryManifest :=
  if self.entries.length ≠ self.header.entryCount.toNat ∨
      self.metadataBytes ≠ self.header.metadataBytes.toNat then
    throw (.manifest [.text "directory snapshot is incomplete"])
  else do
    let manifest : DirectoryManifest := ⟨self.header.root, self.entries⟩
    manifest.verify ext
    .ok manifest

end DirectorySnapshotAssembler

/-! ### The iterator -/

/-- The loop of `DirectorySnapshotParts::next`: how many of the entries fit, after
`bytes` bytes. -/
def countFitting (ext : Externals) (bytes : ℕ) : List DirectoryEntry → Except SyncError ℕ
  | [] => .ok 0
  | entry :: entries =>
    match serializedSize ext entry with
    | none => throw (.manifest [.text "directory entry cannot be encoded"])
    | some length =>
      if saturatingAdd bytes length > maxDirectoryPartBytes then .ok 0
      else do
        let count ← countFitting ext (bytes + length) entries
        .ok (count + 1)

/-- `DirectorySnapshotParts::next`: the next item and what remains. -/
def nextPart (ext : Externals) (remaining : List DirectoryEntry) :
    Option (Except SyncError DirectorySnapshotPart × List DirectoryEntry) :=
  if remaining = [] then none
  else
    -- at most 32 entries, so the length of the sequence takes one byte
    match countFitting ext 1 (remaining.take maxDirectoryPartEntries) with
    | .error error => some (.error error, [])
    | .ok count =>
      if count = 0 then
        some (.error (.manifest [.text "directory entry exceeds part bounds"]), [])
      else some (.ok ⟨remaining.take count⟩, remaining.drop count)

theorem length_lt_of_nextPart {ext : Externals} {remaining rest : List DirectoryEntry}
    {item : Except SyncError DirectorySnapshotPart}
    (h : nextPart ext remaining = some (item, rest)) : rest.length < remaining.length := by
  unfold nextPart at h
  split at h
  · cases h
  next hne =>
  have hpos := length_pos_of_ne_nil hne
  split at h
  · cases h
    exact hpos
  split at h
  · cases h
    exact hpos
  next hcount =>
  cases h
  rw [length_drop]
  omega

/-- The items of the iterator. -/
def partItems (ext : Externals) (remaining : List DirectoryEntry) :
    List (Except SyncError DirectorySnapshotPart) :=
  match h : nextPart ext remaining with
  | none => []
  | some (item, rest) =>
    have := length_lt_of_nextPart h
    item :: partItems ext rest
termination_by remaining.length

/-- `DirectoryManifest::snapshot_part_iter`, with all that it yields. -/
def DirectoryManifest.snapshotPartIter (ext : Externals) (self : DirectoryManifest) :
    Except SyncError (List (Except SyncError DirectorySnapshotPart)) := do
  self.verify ext
  .ok (partItems ext self.entries)

/-! ### What a push does -/

namespace DirectorySnapshotAssembler

/-- The assembler after a push that succeeds. -/
def extended (self : DirectorySnapshotAssembler) (part : DirectorySnapshotPart) :
    DirectorySnapshotAssembler where
  header := self.header
  entries := self.entries ++ part.entries
  metadataBytes := self.metadataBytes + totalDataBytes part.entries

/-- The part is well formed, continues the entries, and stays within the header. -/
structure Fits (ext : Externals) (s : DirectorySnapshotAssembler)
    (part : DirectorySnapshotPart) : Prop where
  valid : validatePart ext part s.entries.getLast? = .ok ()
  count : s.entries.length + part.entries.length ≤ s.header.entryCount.toNat
  bytes : s.metadataBytes + totalDataBytes part.entries ≤ s.header.metadataBytes.toNat

end DirectorySnapshotAssembler

variable {entries : List DirectoryEntry}

theorem metadataBytesFrom_eq_ok {total n : ℕ} :
    metadataBytesFrom total entries = .ok n ↔
      validateEntriesFrom total entries = .ok () ∧ n = total + totalDataBytes entries := by
  induction entries generalizing total with
  | nil => simp [metadataBytesFrom, validateEntriesFrom, eq_comm]
  | cons e entries ih =>
    rw [metadataBytesFrom, validateEntriesFrom, check_bind_eq_ok, check_bind_eq_ok, ite_throw_eq_ok,
      ite_throw_eq_ok, ih, totalDataBytes_cons, and_assoc, and_assoc]
    refine and_congr_right fun _ => and_congr_right fun hle => and_congr_right fun _ => ?_
    have hlimit : maxDirectoryDataBytes < usizeMax := by decide
    rw [Nat.not_lt, addDataBytes_le_iff hlimit] at hle
    rw [addDataBytes_eq hlimit hle, Nat.add_assoc]

theorem manifestMetadataBytes_eq_ok {n : ℕ} :
    manifestMetadataBytes entries = .ok n ↔
      (∀ e ∈ entries, e.validate = .ok ()) ∧ totalDataBytes entries ≤ maxDirectoryDataBytes ∧
        n = totalDataBytes entries := by
  unfold manifestMetadataBytes
  rw [metadataBytesFrom_eq_ok, validateEntriesFrom_eq_ok (Nat.zero_le _), Nat.zero_add, and_assoc]

theorem validateOrder_eq_ok {prior : Option DirectoryEntry} :
    validateOrder prior entries = .ok () ↔ (∀ e ∈ entries, e.validate = .ok ()) ∧
        (prior.toList ++ entries).IsChain fun a b => a.path < b.path := by
  induction entries generalizing prior with
  | nil =>
    cases prior with
    | none | some p => simp [validateOrder]
  | cons e entries ih =>
    rw [validateOrder, check_bind_eq_ok, ite_throw_eq_ok, ih, forall_mem_cons]
    cases prior with
    | none => simp [and_assoc]
    | some p =>
      simp only [Option.mem_some_iff, exists_eq_left', Option.toList_some, singleton_append,
        isChain_cons_cons, Std.not_le]
      tauto

theorem validatePart_eq_ok {ext : Externals} {part : DirectorySnapshotPart}
    {previous : Option DirectoryEntry} :
    validatePart ext part previous = .ok () ↔
      (part.entries ≠ [] ∧ part.entries.length ≤ maxDirectoryPartEntries) ∧
        validateOrder previous part.entries = .ok () ∧
        ∃ n ≤ maxDirectoryPartBytes, part.encodedLen ext = .ok n := by
  unfold validatePart
  rw [ite_throw_eq_ok, check_bind_eq_ok, bind_eq_ok, not_or, Nat.not_lt]
  simp only [ite_throw_eq_ok, Nat.not_lt, and_true]
  refine and_congr_right fun _ => and_congr_right fun _ => ?_
  exact exists_congr fun n => and_comm

namespace DirectorySnapshotAssembler

variable {ext : Externals} {s : DirectorySnapshotAssembler} {part : DirectorySnapshotPart}

/-- **A push** extends the assembler if the part fits, and otherwise changes
nothing. -/
theorem pushPart_cases (ext : Externals) (part : DirectorySnapshotPart)
    (hheader : s.header.metadataBytes.toNat ≤ maxDirectoryDataBytes) :
    (s.Fits ext part ∧ s.pushPart ext part = (.ok (), s.extended part)) ∨
      (¬ s.Fits ext part ∧ ∃ error, s.pushPart ext part = (.error error, s)) := by
  have hcount : saturatingAdd s.entries.length part.entries.length ≤ s.header.entryCount.toNat ↔
      s.entries.length + part.entries.length ≤ s.header.entryCount.toNat :=
    saturatingAdd_le_iff (lt_trans s.header.entryCount.toNat_lt (by decide))
  have hlimit : s.header.metadataBytes.toNat < usizeMax :=
    lt_of_le_of_lt hheader (by decide)
  unfold pushPart
  cases hpart : validatePart ext part s.entries.getLast? with
  | error error =>
    refine .inr ⟨fun hfits => ?_, error, rfl⟩
    cases hpart.symm.trans hfits.valid
  | ok u =>
    dsimp only
    split
    · next hc =>
      exact .inr ⟨fun hfits => Nat.not_lt.mpr (hcount.mpr hfits.count) hc, _, rfl⟩
    next hc =>
    rw [Nat.not_lt, hcount] at hc
    -- the entries have been validated, so only the budget can be at fault
    have hall := (validateOrder_eq_ok.mp (validatePart_eq_ok.mp hpart).2.1).1
    cases hm : manifestMetadataBytes part.entries with
    | error error =>
      refine .inr ⟨fun hfits => ?_, error, rfl⟩
      have hbytes := hfits.bytes
      cases hm.symm.trans (manifestMetadataBytes_eq_ok.mpr ⟨hall, by omega, rfl⟩)
    | ok partBytes =>
      obtain ⟨-, -, rfl⟩ := manifestMetadataBytes_eq_ok.mp hm
      dsimp only
      split
      · next hb =>
        refine .inr ⟨fun hfits => ?_, _, rfl⟩
        exact Nat.not_lt.mpr ((saturatingAdd_le_iff hlimit).mpr hfits.bytes) hb
      next hb =>
      rw [Nat.not_lt, saturatingAdd_le_iff hlimit] at hb
      refine .inl ⟨⟨hpart, hc, hb⟩, ?_⟩
      have hsum : saturatingAdd s.metadataBytes (totalDataBytes part.entries) =
          s.metadataBytes + totalDataBytes part.entries := by
        unfold saturatingAdd
        omega
      rw [hsum]
      rfl

/-! ### Any peer -/

/-- Push parts one after another, whether or not one fails. -/
def feed (ext : Externals) : DirectorySnapshotAssembler → List DirectorySnapshotPart →
    List (Except SyncError Unit) × DirectorySnapshotAssembler
  | s, [] => ([], s)
  | s, part :: parts =>
    let pushed := s.pushPart ext part
    let rest := feed ext pushed.2 parts
    (pushed.1 :: rest.1, rest.2)

/-- What an assembler keeps within the announced bounds. -/
structure Sound (header : DirectorySnapshotHeader) (s : DirectorySnapshotAssembler) : Prop where
  announced : s.header = header
  local_bounds : header.metadataBytes.toNat ≤ maxDirectoryDataBytes
  counted : s.metadataBytes = totalDataBytes s.entries
  count : s.entries.length ≤ header.entryCount.toNat
  bytes : s.metadataBytes ≤ header.metadataBytes.toNat

variable {header : DirectorySnapshotHeader}

theorem sound_new (h : new header = .ok s) :
    Sound header s := by
  unfold new at h
  rw [ite_throw_eq_ok, ite_throw_eq_ok, not_or] at h
  obtain ⟨-, ⟨-, hbytes⟩, h⟩ := h
  obtain rfl := Except.ok.inj h
  exact ⟨rfl, Nat.not_lt.mp hbytes, rfl, Nat.zero_le _, Nat.zero_le _⟩

theorem Sound.pushPart (h : Sound header s)
    (part : DirectorySnapshotPart) : Sound header (s.pushPart ext part).2 := by
  rcases pushPart_cases ext part (h.announced ▸ h.local_bounds) with
    ⟨hfits, heq⟩ | ⟨-, _, heq⟩
  · rw [heq]
    have hcount := hfits.count
    have hbytes := hfits.bytes
    rw [h.announced] at hcount hbytes
    refine ⟨h.announced, h.local_bounds, ?_, ?_, hbytes⟩
    · change s.metadataBytes + totalDataBytes part.entries = totalDataBytes (s.entries ++ part.entries)
      rw [h.counted, totalDataBytes_append]
    · change (s.entries ++ part.entries).length ≤ _
      rw [length_append]
      exact hcount
  · rw [heq]
    exact h

theorem Sound.feed (h : Sound header s)
    (parts : List DirectorySnapshotPart) : Sound header (s.feed ext parts).2 := by
  induction parts generalizing s with
  | nil => exact h
  | cons part parts ih => exact ih (h.pushPart part)

theorem finish_eq_ok {m : DirectoryManifest} :
    s.finish ext = .ok m ↔ s.entries.length = s.header.entryCount.toNat ∧
        s.metadataBytes = s.header.metadataBytes.toNat ∧
        m = ⟨s.header.root, s.entries⟩ ∧ m.verify ext = .ok () := by
  unfold finish
  rw [ite_throw_eq_ok, not_or, not_not, not_not, check_bind_eq_ok, Except.ok.injEq]
  constructor
  · rintro ⟨⟨hcount, hbytes⟩, hverify, rfl⟩
    exact ⟨hcount, hbytes, rfl, hverify⟩
  · rintro ⟨hcount, hbytes, rfl, hverify⟩
    exact ⟨⟨hcount, hbytes⟩, hverify, rfl⟩

end DirectorySnapshotAssembler

/-! ### The sender -/

theorem bounded_of_validate {e : DirectoryEntry} (h : e.validate = .ok ()) :
    e.path.length ≤ maxDirectoryPathBytes ∧ ∀ t ∈ e.symlinkTarget, t.length ≤ maxSymlinkTargetBytes := by
  unfold DirectoryEntry.validate at h
  rw [ite_throw_eq_ok, not_or, Nat.not_lt, bind_eq_ok] at h
  obtain ⟨⟨-, hpath⟩, _, -, h⟩ := h
  rw [ite_throw_eq_ok] at h
  refine ⟨hpath, fun t ht => ?_⟩
  rw [Option.mem_def] at ht
  obtain ⟨-, h⟩ := h
  cases hk : e.kind with
  | file | directory =>
    rw [hk] at h
    simp [ht] at h
  | symlink =>
    rw [hk] at h
    simp only [ite_throw_eq_ok, ht, Option.all_some, decide_eq_true_eq, not_or, Nat.not_lt] at h
    exact h.1.2.2.2

theorem length_postcardEntry_le {e : DirectoryEntry} (h : e.validate = .ok ()) :
    1 + (postcardEntry e).length ≤ maxDirectoryPartBytes := by
  obtain ⟨hpath, htarget⟩ := bounded_of_validate h
  have hvarint (fuel n : ℕ) : (varintLoop fuel n).length ≤ fuel :=
    length_varintLoop_le fuel n
  have hbytes (b : Bytes) : (encodeBytes b).length ≤ 10 + b.length := by
    unfold encodeBytes varint64
    rw [length_append]
    exact Nat.add_le_add_right (hvarint 10 _) _
  have hcontent : (encodeOption Subtype.val e.content).length ≤ 33 := by
    cases e.content with
    | none => simp [encodeOption]
    | some hash => simp [encodeOption, hash.2]
  have hlink : (encodeOption encodeBytes e.symlinkTarget).length ≤ 11 + maxSymlinkTargetBytes := by
    cases ht : e.symlinkTarget with
    | none =>
      change 1 ≤ _
      omega
    | some t =>
      have := htarget t ht
      have := hbytes t
      rw [encodeOption, length_cons]
      omega
  have hfile := hvarint 5 0
  have hdirectory := hvarint 5 1
  have hsymlink := hvarint 5 2
  have hsize := hvarint 10 e.size
  have := hbytes e.path
  have hmax : maxDirectoryPathBytes = 512 ∧ maxSymlinkTargetBytes = 4096 ∧
      maxDirectoryPartBytes = 49152 := by decide
  unfold postcardEntry varint32 varint64
  simp only [length_append]
  split <;> omega

/-- How many entries fit: their encodings are within the budget, and the first
entry is among them if it is within the budget. -/
theorem countFitting_eq_ok {ext : Externals} (bytes : ℕ) {l : List DirectoryEntry}
    (hall : ∀ e ∈ l, ∃ b, ext.postcard e = some b) (hbytes : bytes ≤ maxDirectoryPartBytes) :
    ∃ count encodings, countFitting ext bytes l = .ok count ∧ count ≤ l.length ∧
      (l.take count).mapM ext.postcard = some encodings ∧
      bytes + encodings.flatten.length ≤ maxDirectoryPartBytes ∧
      ∀ e rest b, l = e :: rest → ext.postcard e = some b →
        bytes + b.length ≤ maxDirectoryPartBytes → 1 ≤ count := by
  induction l generalizing bytes with
  | nil => exact ⟨0, [], rfl, le_rfl, rfl, by simpa using hbytes, fun _ _ _ h => nomatch h⟩
  | cons e l ih =>
    rw [forall_mem_cons] at hall
    obtain ⟨⟨b, hb⟩, hall⟩ := hall
    have hsize : serializedSize ext e = some b.length := by
      unfold serializedSize
      rw [hb]
      rfl
    have hlimit : maxDirectoryPartBytes < usizeMax := by decide
    unfold countFitting
    rw [hsize]
    dsimp only
    by_cases hfits : bytes + b.length ≤ maxDirectoryPartBytes
    · obtain ⟨count, encodings, hcount, hle, henc, htotal, -⟩ := ih _ hall hfits
      rw [if_neg (Nat.not_lt.mpr ((saturatingAdd_le_iff hlimit).mpr hfits)), hcount]
      refine ⟨count + 1, b :: encodings, rfl, Nat.succ_le_succ hle, ?_, ?_, fun _ _ _ _ _ _ => by omega⟩
      · rw [take_succ_cons, mapM_cons, hb, henc]
        rfl
      · rw [flatten_cons, length_append]
        omega
    -- the entry does not fit, so the part ends before it
    have hover : saturatingAdd bytes b.length > maxDirectoryPartBytes :=
      Nat.lt_of_not_le fun h => hfits ((saturatingAdd_le_iff hlimit).mp h)
    rw [if_pos hover]
    refine ⟨0, [], rfl, Nat.zero_le _, rfl, by simpa using hbytes, ?_⟩
    rintro e' rest b' heq hb' hle
    cases heq
    obtain rfl := Option.some.inj (hb.symm.trans hb')
    exact absurd hle hfits

/-- A part the receiver does not refuse for its size. -/
structure Measured (ext : Externals) (part : DirectorySnapshotPart) : Prop where
  nonempty : part.entries ≠ []
  count : part.entries.length ≤ maxDirectoryPartEntries
  encoded : ∃ n ≤ maxDirectoryPartBytes, part.encodedLen ext = .ok n

/-- **One step of the iterator** cuts a part off the remaining entries. -/
theorem nextPart_eq_some {ext : Externals} (hpost : ∀ e, ext.postcard e = some (postcardEntry e))
    {remaining : List DirectoryEntry} (hne : remaining ≠ [])
    (hvalid : ∀ e ∈ remaining, e.validate = .ok ()) :
    ∃ part rest, nextPart ext remaining = some (.ok part, rest) ∧
      remaining = part.entries ++ rest ∧ Measured ext part := by
  have hall : ∀ e ∈ remaining.take maxDirectoryPartEntries, ∃ b, ext.postcard e = some b :=
    fun e _ => ⟨_, hpost e⟩
  obtain ⟨count, encodings, hcount, hle, henc, htotal, hfirst⟩ :=
    countFitting_eq_ok 1 hall (by decide)
  rw [length_take] at hle
  have hpos : 1 ≤ count := by
    cases remaining with
    | nil => exact absurd rfl hne
    | cons e rest =>
      exact hfirst e (rest.take 31) _ rfl (hpost e)
        (length_postcardEntry_le (hvalid e mem_cons_self))
  have htake : (remaining.take maxDirectoryPartEntries).take count = remaining.take count := by
    rw [take_take, Nat.min_eq_left (by omega)]
  rw [htake] at henc
  have hlength : (remaining.take count).length = count := by
    rw [length_take]
    omega
  refine ⟨⟨remaining.take count⟩, remaining.drop count, ?_, (take_append_drop _ _).symm, ?_⟩
  · unfold nextPart
    rw [if_neg hne, hcount]
    dsimp only
    rw [if_neg (by omega)]
  refine ⟨?_, by rw [hlength]; omega, ?_⟩
  · exact ne_nil_of_length_pos (by rw [hlength]; omega)
  refine ⟨_, ?_, by rw [DirectorySnapshotPart.encodedLen, henc]⟩
  -- up to 32 entries, the length of the sequence is one byte
  have hone : (varint64 (remaining.take count).length).length = 1 := by
    unfold varint64 varintLoop
    rw [if_pos (by have : maxDirectoryPartEntries = 32 := rfl; omega)]
    rfl
  rw [length_append, hone]
  exact htotal

/-! ### The round trip -/

theorem validateOrder_of_sorted {done entries rest : List DirectoryEntry}
    (hvalid : ∀ e ∈ entries, e.validate = .ok ())
    (hsorted : (done ++ (entries ++ rest)).Pairwise fun a b => a.path < b.path) :
    validateOrder done.getLast? entries = .ok () := by
  have hlast : done.getLast?.toList.Sublist done := by
    cases h : done.getLast? with
    | none => exact nil_sublist _
    | some e => exact singleton_sublist.mpr (mem_of_getLast? h)
  have hsub : (done.getLast?.toList ++ entries).Sublist (done ++ (entries ++ rest)) :=
    hlast.append (sublist_append_left _ _)
  exact validateOrder_eq_ok.mpr ⟨hvalid, (hsorted.sublist hsub).isChain⟩

section RoundTrip

variable {ext : Externals} {m : DirectoryManifest}

/-- The header of a manifest. -/
def headerOf (m : DirectoryManifest) : DirectorySnapshotHeader :=
  ⟨directorySnapshotVersion, m.root, .ofNat m.entries.length, .ofNat (totalDataBytes m.entries)⟩

theorem Verified.toNat_headerOf (hm : Verified ext m) :
    (headerOf m).entryCount.toNat = m.entries.length ∧
      (headerOf m).metadataBytes.toNat = totalDataBytes m.entries := by
  have hcount := hm.count
  have hbytes := hm.bytes
  have hmax : maxDirectoryEntries < 2 ^ 32 ∧ maxDirectoryDataBytes < 2 ^ 64 := by decide
  have hsize : UInt32.size = 2 ^ 32 ∧ UInt64.size = 2 ^ 64 := ⟨rfl, rfl⟩
  exact ⟨UInt32.toNat_ofNat_of_lt' (by omega), UInt64.toNat_ofNat_of_lt' (by omega)⟩

theorem Verified.fromManifest (hm : Verified ext m) :
    DirectorySnapshotHeader.fromManifest ext m = .ok (headerOf m) := by
  have hcount := hm.count
  have hbytes := hm.bytes
  have hmax : maxDirectoryEntries < 2 ^ 32 ∧ maxDirectoryDataBytes < 2 ^ 64 := by decide
  unfold DirectorySnapshotHeader.fromManifest
  rw [check_bind_eq_ok, bind_eq_ok]
  refine ⟨verify_eq_ok_iff.mpr hm, _, manifestMetadataBytes_eq_ok.mpr ⟨hm.valid, hbytes, rfl⟩, ?_⟩
  rw [if_neg (by omega), if_neg (by omega)]
  rfl

theorem Verified.new_headerOf (hm : Verified ext m) :
    DirectorySnapshotAssembler.new (headerOf m) = .ok ⟨headerOf m, [], 0⟩ := by
  obtain ⟨hcount, hbytes⟩ := hm.toNat_headerOf
  unfold DirectorySnapshotAssembler.new
  rw [hcount, hbytes, if_neg (by simp [headerOf]), if_neg]
  rw [not_or, Nat.not_lt, Nat.not_lt]
  exact ⟨hm.count, hm.bytes⟩

/-- The assembler after the first entries of a manifest. -/
def assembled (m : DirectoryManifest) (done : List DirectoryEntry) : DirectorySnapshotAssembler :=
  ⟨headerOf m, done, totalDataBytes done⟩

/-- **The assembler accepts a measured part that continues the manifest.** -/
theorem Verified.pushPart_assembled (hm : Verified ext m) {done rest : List DirectoryEntry}
    {part : DirectorySnapshotPart} (hentries : m.entries = done ++ (part.entries ++ rest))
    (hpart : Measured ext part) :
    (assembled m done).pushPart ext part = (.ok (), assembled m (done ++ part.entries)) := by
  obtain ⟨hcount, hbytes⟩ := hm.toNat_headerOf
  have hvalid : ∀ e ∈ part.entries, e.validate = .ok () := by
    intro e he
    refine hm.valid e ?_
    rw [hentries]
    exact mem_append_right _ (mem_append_left _ he)
  have hfits : (assembled m done).Fits ext part := by
    refine ⟨validatePart_eq_ok.mpr ⟨⟨hpart.nonempty, hpart.count⟩, ?_, hpart.encoded⟩, ?_, ?_⟩
    · exact validateOrder_of_sorted hvalid (hentries ▸ hm.sorted)
    · change done.length + part.entries.length ≤ (headerOf m).entryCount.toNat
      rw [hcount, hentries, length_append, length_append]
      omega
    · change totalDataBytes done + totalDataBytes part.entries ≤ (headerOf m).metadataBytes.toNat
      rw [hbytes, hentries, totalDataBytes_append, totalDataBytes_append]
      omega
  have hheader : (assembled m done).header.metadataBytes.toNat ≤ maxDirectoryDataBytes :=
    hbytes ▸ hm.bytes
  rcases DirectorySnapshotAssembler.pushPart_cases ext part hheader with
    ⟨-, heq⟩ | ⟨hnot, -⟩
  · rw [heq]
    unfold DirectorySnapshotAssembler.extended assembled
    rw [totalDataBytes_append]
  · exact absurd hfits hnot

/-- **The rest of a manifest**, from any point: what the iterator still yields is
what the assembler still needs. -/
theorem Verified.feed_partItems (hm : Verified ext m)
    (hpost : ∀ e, ext.postcard e = some (postcardEntry e)) (done : List DirectoryEntry)
    {remaining : List DirectoryEntry} (hentries : m.entries = done ++ remaining) :
    ∃ parts : List DirectorySnapshotPart, partItems ext remaining = parts.map .ok ∧
      parts.flatMap (·.entries) = remaining ∧ (∀ part ∈ parts, Measured ext part) ∧
      (assembled m done).feed ext parts = (parts.map fun _ => .ok (), assembled m m.entries) := by
  -- each step of the iterator leaves fewer entries
  induction hn : remaining.length using Nat.strong_induction_on generalizing done remaining with
  | _ n ih =>
    by_cases hne : remaining = []
    · refine ⟨[], ?_, hne.symm, by simp, ?_⟩
      · rw [partItems]
        split
        · rfl
        next h => exact absurd h (by simp [nextPart, hne])
      · rw [hentries, hne, append_nil]
        rfl
    have hvalid : ∀ e ∈ remaining, e.validate = .ok () :=
      fun e he => hm.valid e (hentries ▸ mem_append_right _ he)
    obtain ⟨part, rest, hnext, hsplit, hpart⟩ := nextPart_eq_some hpost hne hvalid
    obtain ⟨parts, hitems, hflat, hall, hfeed⟩ := ih rest.length
      (hn ▸ length_lt_of_nextPart hnext) (done ++ part.entries)
      (by rw [append_assoc, ← hsplit]; exact hentries) rfl
    refine ⟨part :: parts, ?_, ?_, forall_mem_cons.mpr ⟨hpart, hall⟩, ?_⟩
    · rw [partItems]
      split
      next h => exact absurd (hnext.symm.trans h) (by simp)
      next item rest' h =>
      obtain ⟨rfl, rfl⟩ : .ok part = item ∧ rest = rest' := by
        simpa using hnext.symm.trans h
      rw [hitems, map_cons]
    · rw [flatMap_cons, hflat, ← hsplit]
    · rw [DirectorySnapshotAssembler.feed, hm.pushPart_assembled (hsplit ▸ hentries) hpart, hfeed, map_cons]

end RoundTrip

/-- **Snapshots on the wire.** The parts of a verified manifest are bounded, make
up its entries, and give the manifest back to an assembler with its header. An
assembler fed by any peer is unchanged by a part it refuses, retains no more than
its header announced, and finishes with a verified manifest that has the announced
root. -/
theorem snapshot_wire (ext : Externals) (hpost : ∀ e, ext.postcard e = some (postcardEntry e)) :
    (∀ m : DirectoryManifest, m.verify ext = .ok () →
      ∃ (parts : List DirectorySnapshotPart) (header : DirectorySnapshotHeader)
        (start final : DirectorySnapshotAssembler),
        m.snapshotPartIter ext = .ok (parts.map .ok) ∧
        parts.flatMap (·.entries) = m.entries ∧
        (∀ part ∈ parts, 1 ≤ part.entries.length ∧ part.entries.length ≤ maxDirectoryPartEntries ∧
          ∃ n ≤ maxDirectoryPartBytes, part.encodedLen ext = .ok n) ∧
        DirectorySnapshotHeader.fromManifest ext m = .ok header ∧
        DirectorySnapshotAssembler.new header = .ok start ∧
        start.feed ext parts = (parts.map fun _ => .ok (), final) ∧
        final.finish ext = .ok m) ∧
    ∀ (header : DirectorySnapshotHeader) (start : DirectorySnapshotAssembler)
      (parts : List DirectorySnapshotPart), DirectorySnapshotAssembler.new header = .ok start →
      let s := (start.feed ext parts).2
      (∀ part error, (s.pushPart ext part).1 = .error error → (s.pushPart ext part).2 = s) ∧
        s.entries.length ≤ header.entryCount.toNat ∧
        s.metadataBytes = totalDataBytes s.entries ∧
        totalDataBytes s.entries ≤ header.metadataBytes.toNat ∧
        ∀ m, s.finish ext = .ok m → m.verify ext = .ok () ∧ m.root = header.root := by
  constructor
  · intro m hverify
    have hm := verify_eq_ok_iff.mp hverify
    obtain ⟨parts, hitems, hflat, hall, hfeed⟩ := hm.feed_partItems hpost [] rfl
    obtain ⟨hcount, hbytes⟩ := hm.toNat_headerOf
    refine ⟨parts, headerOf m, _, _, ?_, hflat, ?_, hm.fromManifest, hm.new_headerOf, hfeed, ?_⟩
    · unfold DirectoryManifest.snapshotPartIter
      rw [hverify, hitems]
      rfl
    · intro part hp
      have hpart := hall part hp
      exact ⟨length_pos_of_ne_nil hpart.nonempty, hpart.count, hpart.encoded⟩
    · exact DirectorySnapshotAssembler.finish_eq_ok.mpr ⟨hcount.symm, hbytes.symm, rfl, hverify⟩
  intro header start parts hnew
  have hsound : (start.feed ext parts).2.Sound header :=
    (DirectorySnapshotAssembler.sound_new hnew).feed parts
  refine ⟨fun part error herr => ?_, hsound.count, hsound.counted, hsound.counted ▸ hsound.bytes,
    fun m hfinish => ?_⟩
  · rcases DirectorySnapshotAssembler.pushPart_cases ext part
      (hsound.announced ▸ hsound.local_bounds) with ⟨-, heq⟩ | ⟨-, _, heq⟩
    · rw [heq] at herr
      cases herr
    · rw [heq]
  · obtain ⟨-, -, rfl, hverify⟩ := DirectorySnapshotAssembler.finish_eq_ok.mp hfinish
    exact ⟨hverify, congrArg DirectorySnapshotHeader.root hsound.announced⟩

theorem snapshot_wire_sourceTree :
    sourceTree.verify treeExternals = .ok () ∧ ∃ parts : List DirectorySnapshotPart,
      sourceTree.snapshotPartIter treeExternals = .ok (parts.map .ok) ∧
        parts.flatMap (·.entries) = sourceTree.entries :=
  have h : sourceTree.verify treeExternals = .ok () := by decide +kernel
  have ⟨parts, _, _, _, hitems, hflat, _⟩ := (snapshot_wire treeExternals fun _ => rfl).1 _ h
  ⟨h, parts, hitems, hflat⟩

end Rds
