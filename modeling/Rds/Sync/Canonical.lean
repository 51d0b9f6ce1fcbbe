import Rds.Sync.Mirror

/-!
# The canonical form of a manifest

`from_entries` validates the entries in the order in which they are listed,
sorts them, and then checks duplicates, hierarchy and digest on the sorted list.
`verify` makes the same checks on a list that must already be sorted. The two
agree: `from_entries` returns exactly the verified reordering of its input
(`fromEntries_eq_ok_iff`), and there is at most one.

The order of the input is therefore invisible in what `from_entries` returns,
with one exception. The validation loop stops at the first entry it rejects and
reports that entry, so a list with two different faults is refused with one text
or the other. Lists that pass the validation loop are treated alike in every
order, errors included (`fromEntries_perm`).

The root of a manifest is the digest of the encoded entries, each behind its
length. The length makes the encoding of a list unambiguous
(`framed_injective`), so two verified manifests with one root have the same
entries unless their two encodings are a collision of the hash.
-/

namespace Rds

open Framework UnixPath List DirectoryManifest Except

/-! ### The order of the input -/

theorem validateEntries_perm {l l' : List DirectoryEntry} (hp : l.Perm l') :
    validateEntries l = .ok () ↔ validateEntries l' = .ok () := by
  have hbytes : totalDataBytes l = totalDataBytes l' := (hp.map _).sum_eq
  rw [validateEntries_eq_ok, validateEntries_eq_ok, hp.length_eq, hbytes]
  simp only [hp.mem_iff]

/-- The order in which `from_entries` sorts. -/
abbrev pathLe (a b : DirectoryEntry) : Prop := a.path ≤ b.path

instance : Std.Total pathLe := ⟨fun a b => Std.le_total (a := a.path) (b := b.path)⟩

instance : IsTrans DirectoryEntry pathLe := ⟨fun _ _ _ => Std.le_trans⟩

variable {l : List DirectoryEntry} {ext : Externals}

theorem windows2_duplicate_iff (hsorted : l.Pairwise pathLe) :
    ¬ ((windows2 l).any fun pair => pair.1.path = pair.2.path) = true ↔
      l.Pairwise fun a b => a.path < b.path := by
  have hle := forall_windows2_iff_isChain.mpr hsorted.isChain
  rw [← isChain_iff_pairwise, ← forall_windows2_iff_isChain]
  simp only [any_eq_true, decide_eq_true_eq, not_exists, not_and]
  refine forall_congr' fun w => forall_congr' fun hw => ?_
  exact ⟨fun hne => Std.lt_of_le_of_ne (hle w hw) hne, fun hlt => Std.ne_of_lt hlt⟩

/-- **One sorted order.** Entries with distinct paths have one sorted order. -/
theorem eq_insertionSort_of_perm {l m : List DirectoryEntry}
    (hm : m.Pairwise fun a b => a.path < b.path) (hp : m.Perm l) :
    l.insertionSort pathLe = m := by
  -- entries of `m` with the same path are the same entry
  have hunique : ∀ a ∈ m, ∀ b ∈ m, a.path = b.path → a = b := by
    intro a ha b hb hpath
    have hfind {e : DirectoryEntry} (he : e ∈ m) (hep : e.path = b.path) :
        searchPath m b.path = some e := (searchPath_eq_some (pairwise_path_ne hm)).mpr ⟨he, hep⟩
    exact Option.some.inj ((hfind ha hpath).symm.trans (hfind hb rfl))
  have hperm : (l.insertionSort pathLe).Perm m := (perm_insertionSort _ _).trans hp.symm
  refine List.Perm.eq_of_pairwise ?_ (pairwise_insertionSort _ _)
    (hm.imp fun hlt => Std.le_of_lt hlt) hperm
  intro a b ha hb hab hba
  exact hunique a (hperm.mem_iff.mp ha) b hb (Std.le_antisymm hab hba)

/-- The part of `from_entries` after the validation loop, on the sorted list. -/
def finishEntries (ext : Externals) (sorted : List DirectoryEntry) :
    Except SyncError DirectoryManifest :=
  if (windows2 sorted).any fun pair => pair.1.path = pair.2.path then
    throw (.manifest [.text "directory manifest contains duplicate paths"])
  else do
    validateHierarchy sorted
    let root ← digestEntries ext sorted
    .ok ⟨root, sorted⟩

theorem fromEntries_of_valid (hvalid : validateEntries l = .ok ()) :
    DirectoryManifest.fromEntries ext l = finishEntries ext (l.insertionSort pathLe) := by
  have hcount := (validateEntries_eq_ok.mp hvalid).1
  unfold fromEntries finishEntries
  rw [if_neg (Nat.not_lt.mpr hcount), hvalid]
  rfl

/-- **Valid lists are treated alike in every order**, errors included. -/
theorem fromEntries_perm {l l' : List DirectoryEntry} (hp : l.Perm l')
    (hvalid : validateEntries l = .ok ()) :
    DirectoryManifest.fromEntries ext l = DirectoryManifest.fromEntries ext l' := by
  rw [fromEntries_of_valid hvalid, fromEntries_of_valid ((validateEntries_perm hp).mp hvalid)]
  have hsort := pairwise_insertionSort pathLe l
  have hsort' := pairwise_insertionSort pathLe l'
  by_cases hstrict : (l.insertionSort pathLe).Pairwise fun a b => a.path < b.path
  · rw [eq_insertionSort_of_perm hstrict ((perm_insertionSort _ _).trans hp)]
  -- a repeated path is repeated in the other order as well
  have hstrict' : ¬ (l'.insertionSort pathLe).Pairwise fun a b => a.path < b.path := by
    intro h
    rw [eq_insertionSort_of_perm h ((perm_insertionSort _ _).trans hp.symm)] at hstrict
    exact hstrict h
  unfold finishEntries
  rw [if_pos (not_not.mp (mt (windows2_duplicate_iff hsort).mp hstrict)),
    if_pos (not_not.mp (mt (windows2_duplicate_iff hsort').mp hstrict'))]

/-- **What `from_entries` returns**: the verified reordering of its input. -/
theorem fromEntries_eq_ok_iff {m : DirectoryManifest} :
    DirectoryManifest.fromEntries ext l = .ok m ↔ Verified ext m ∧ m.entries.Perm l := by
  constructor
  · intro h
    have hperm := entries_perm_of_fromEntries h
    have hvalid : validateEntries l = .ok () := by
      unfold fromEntries at h
      rw [ite_throw_eq_ok, check_bind_eq_ok] at h
      exact h.2.1
    obtain ⟨hcount, hall, hbytes⟩ := validateEntries_eq_ok.mp ((validateEntries_perm hperm).mpr hvalid)
    rw [fromEntries_of_valid hvalid, finishEntries, ite_throw_eq_ok,
      windows2_duplicate_iff (pairwise_insertionSort _ _), check_bind_eq_ok, bind_eq_ok] at h
    obtain ⟨hstrict, hplaced, root, hroot, hm⟩ := h
    obtain rfl := ok.inj hm
    exact ⟨⟨hcount, hall, hbytes, hstrict, hroot,
      (validateHierarchy_eq_ok (pairwise_path_ne hstrict)).mp hplaced⟩, hperm⟩
  · rintro ⟨hm, hperm⟩
    have hvalid := validateEntries_eq_ok.mpr ⟨hm.count, hm.valid, hm.bytes⟩
    rw [← fromEntries_perm hperm hvalid]
    exact fromEntries_eq_ok hm

/-! ### The digested bytes -/

/-- Encodings one after another, each behind its length. -/
def framed (encodings : List Bytes) : Bytes :=
  encodings.flatMap fun bytes => leBytes64 bytes.length ++ bytes

theorem length_leBytes64 (n : ℕ) : (leBytes64 n).length = 8 := by
  simp [leBytes64]

theorem leBytes64_injective {n k : ℕ} (hn : n < 2 ^ 64) (hk : k < 2 ^ 64)
    (h : leBytes64 n = leBytes64 k) : n = k := by
  have hbyte : ∀ i < 8, n / 256 ^ i % 256 = k / 256 ^ i % 256 := by
    intro i hi
    have hget := congrArg (·[i]?.map UInt8.toNat) h
    simpa [leBytes64, getElem?_range hi] using hget
  have h0 := hbyte 0 (by decide)
  have h1 := hbyte 1 (by decide)
  have h2 := hbyte 2 (by decide)
  have h3 := hbyte 3 (by decide)
  have h4 := hbyte 4 (by decide)
  have h5 := hbyte 5 (by decide)
  have h6 := hbyte 6 (by decide)
  have h7 := hbyte 7 (by decide)
  omega

/-- **The length makes the framing unambiguous.** -/
theorem framed_injective {a b : List Bytes} (ha : ∀ bytes ∈ a, bytes.length < 2 ^ 64)
    (hb : ∀ bytes ∈ b, bytes.length < 2 ^ 64) (h : framed a = framed b) : a = b := by
  induction a generalizing b with
  | nil =>
    cases b with
    | nil => rfl
    | cons y b =>
      have hlen := congrArg length h
      simp only [framed, flatMap_nil, flatMap_cons, length_nil, length_append, length_leBytes64] at hlen
      omega
  | cons x a ih =>
    cases b with
    | nil =>
      have hlen := congrArg length h
      simp only [framed, flatMap_nil, flatMap_cons, length_nil, length_append, length_leBytes64] at hlen
      omega
    | cons y b =>
      rw [forall_mem_cons] at ha hb
      change leBytes64 x.length ++ x ++ framed a = leBytes64 y.length ++ y ++ framed b at h
      rw [append_assoc, append_assoc] at h
      -- the two length fields agree, so the two encodings end at the same place
      obtain ⟨hlen, hrest⟩ := append_inj h (by rw [length_leBytes64, length_leBytes64])
      obtain ⟨hxy, htail⟩ := append_inj hrest (leBytes64_injective ha.1 hb.1 hlen)
      rw [hxy, ih ha.2 hb.2 htail]

theorem foldlM_digestEntry_eq_ok {entries : List DirectoryEntry} {start hasher : Bytes} :
    entries.foldlM (digestEntry ext) start = .ok hasher ↔
      ∃ encodings, List.Forall₂ (fun e bytes => ext.postcard e = some bytes) entries encodings ∧
        hasher = start ++ framed encodings := by
  induction entries generalizing start with
  | nil => simp [pure, Except.pure, framed, eq_comm]
  | cons e entries ih =>
    rw [foldlM_cons, bind_eq_ok]
    simp only [forall₂_cons_left_iff]
    constructor
    · rintro ⟨mid, hmid, hrest⟩
      unfold digestEntry at hmid
      cases he : ext.postcard e with
      | none => rw [he] at hmid; cases hmid
      | some bytes =>
        rw [he] at hmid
        obtain rfl := ok.inj hmid
        obtain ⟨encodings, hall, rfl⟩ := ih.mp hrest
        exact ⟨_, ⟨bytes, encodings, rfl, hall, rfl⟩, by simp [framed]⟩
    · rintro ⟨_, ⟨bytes, encodings, he, hall, rfl⟩, rfl⟩
      refine ⟨start ++ leBytes64 bytes.length ++ bytes, ?_, ih.mpr ⟨encodings, hall, ?_⟩⟩
      · unfold digestEntry
        rw [he]
      · simp [framed]

/-- The bytes whose digest is the root of a manifest. -/
def hashedBytes (ext : Externals) (m : DirectoryManifest) : Except SyncError Bytes :=
  m.entries.foldlM (digestEntry ext) []

/-- The two manifests are not a collision of the hash: if their digests agree,
so do the digested bytes. -/
def NoCollision (ext : Externals) (m m' : DirectoryManifest) : Prop :=
  ∀ x x', hashedBytes ext m = .ok x → hashedBytes ext m' = .ok x' →
    ext.blake3 x = ext.blake3 x' → x = x'

/-- What is assumed of `postcard::to_stdvec`: different entries have different
encodings, and an encoding is a `Vec`, whose length is a machine word. -/
structure EncodesEntries (ext : Externals) : Prop where
  injective : ∀ e e' bytes, ext.postcard e = some bytes → ext.postcard e' = some bytes → e = e'
  length : ∀ e bytes, ext.postcard e = some bytes → bytes.length < 2 ^ 64

theorem Verified.hashedBytes {m : DirectoryManifest} (h : Verified ext m) :
    ∃ x, Rds.hashedBytes ext m = .ok x ∧ m.root = ext.blake3 x := by
  have hdigest := h.digest
  unfold digestEntries at hdigest
  obtain ⟨x, hx, hroot⟩ := bind_eq_ok.mp hdigest
  exact ⟨x, hx, (ok.inj hroot).symm⟩

/-- **The root determines the entries**, up to collisions of the hash. -/
theorem entries_eq_of_root (henc : EncodesEntries ext)
    {m m' : DirectoryManifest} (hm : Verified ext m) (hm' : Verified ext m')
    (hfree : NoCollision ext m m') (hroot : m.root = m'.root) : m.entries = m'.entries := by
  obtain ⟨x, hx, hxr⟩ := hm.hashedBytes
  obtain ⟨x', hx', hxr'⟩ := hm'.hashedBytes
  obtain rfl := hfree x x' hx hx' (hxr ▸ hxr' ▸ hroot)
  obtain ⟨encodings, hall, hframed⟩ := foldlM_digestEntry_eq_ok.mp hx
  obtain ⟨encodings', hall', hframed'⟩ := foldlM_digestEntry_eq_ok.mp hx'
  have hlength : ∀ {entries : List DirectoryEntry} {encodings : List Bytes},
      List.Forall₂ (fun e bytes => ext.postcard e = some bytes) entries encodings →
        ∀ bytes ∈ encodings, bytes.length < 2 ^ 64 := by
    intro entries encodings h
    induction h with
    | nil => exact fun bytes hb => absurd hb (by simp)
    | cons he _ ih => exact forall_mem_cons.mpr ⟨henc.length _ _ he, ih⟩
  obtain rfl := framed_injective (hlength hall) (hlength hall') (hframed.symm.trans hframed')
  -- the same encodings, entry by entry
  have hunique : Relator.LeftUnique fun e bytes => ext.postcard e = some bytes :=
    fun e e' bytes he he' => henc.injective e e' bytes he he'
  exact left_unique_forall₂' hunique hall hall'

/-! ### The canonical form -/

/-- **Canonical form.** From one list of entries `from_entries` returns the same
manifest in every order or fails in every order, with the same error if the
entries pass the validation loop; what it returns is verified and has the given
entries; a verified manifest is what it returns on that manifest's own entries;
and the revision of a verified manifest determines its entries. -/
theorem fromEntries_canonical (ext : Externals) (henc : EncodesEntries ext) :
    (∀ l l' : List DirectoryEntry, l.Perm l' → (DirectoryManifest.fromEntries ext l).toOption =
          (DirectoryManifest.fromEntries ext l').toOption ∧
        (validateEntries l = .ok () →
          DirectoryManifest.fromEntries ext l = DirectoryManifest.fromEntries ext l')) ∧
    (∀ l m, DirectoryManifest.fromEntries ext l = .ok m → m.verify ext = .ok () ∧ m.entries.Perm l) ∧
    (∀ m : DirectoryManifest, m.verify ext = .ok () → DirectoryManifest.fromEntries ext m.entries = .ok m) ∧
    ∀ m m' : DirectoryManifest, m.verify ext = .ok () → m'.verify ext = .ok () → NoCollision ext m m' →
        (m.root = m'.root ↔ m.entries = m'.entries) ∧
          (Revision.fromManifest ext m = Revision.fromManifest ext m' ↔ m.entries = m'.entries) := by
  refine ⟨fun l l' hp => ⟨?_, fromEntries_perm hp⟩, ?_, ?_, ?_⟩
  · have hiff : ∀ m, fromEntries ext l = .ok m ↔ fromEntries ext l' = .ok m := by
      intro m
      rw [fromEntries_eq_ok_iff, fromEntries_eq_ok_iff]
      exact and_congr_right fun _ => ⟨fun h => h.trans hp, fun h => h.trans hp.symm⟩
    cases h : fromEntries ext l with
    | ok m => rw [(hiff m).mp h]
    | error e =>
      cases h' : fromEntries ext l' with
      | ok m => exact absurd (h.symm.trans ((hiff m).mpr h')) (by simp)
      | error e' => rfl
  · intro l m h
    obtain ⟨hm, hperm⟩ := fromEntries_eq_ok_iff.mp h
    exact ⟨verify_eq_ok_iff.mpr hm, hperm⟩
  · intro m hm
    exact fromEntries_eq_ok_iff.mpr ⟨verify_eq_ok_iff.mp hm, List.Perm.refl _⟩
  · intro m m' hm hm' hfree
    rw [verify_eq_ok_iff] at hm hm'
    have hrev {m : DirectoryManifest} (hm : Verified ext m) :
        Revision.fromManifest ext m = .ok ⟨m.root⟩ := Revision.fromManifest_eq_ok.mpr ⟨hm, rfl⟩
    have hroot : m.root = m'.root ↔ m.entries = m'.entries := by
      refine ⟨entries_eq_of_root henc hm hm' hfree, fun hentries => ?_⟩
      exact ok.inj (hm.digest.symm.trans (hentries ▸ hm'.digest))
    refine ⟨hroot, ?_⟩
    rw [hrev hm, hrev hm', ok.injEq, Revision.mk.injEq, hroot]

/-- The entries of the two example trees. -/
def listedEntries : List DirectoryEntry := sourceTree.entries ++ destinationTree.entries

/-- Postcard on the entries of the example trees, and BLAKE3 on their bytes. -/
def listedExternals : Externals where
  postcard e := if e ∈ listedEntries then some (postcardEntry e) else none
  blake3 := treeExternals.blake3

theorem encodesEntries_listedExternals : EncodesEntries listedExternals := by
  have hlisted : ∀ {e bytes}, listedExternals.postcard e = some bytes →
      e ∈ listedEntries ∧ postcardEntry e = bytes := by
    intro e bytes h
    exact Option.ite_none_right_eq_some.mp h |>.imp_right Option.some.inj
  constructor
  · intro e e' bytes he he'
    obtain ⟨hmem, hbytes⟩ := hlisted he
    obtain ⟨hmem', hbytes'⟩ := hlisted he'
    have hall : ∀ e ∈ listedEntries, ∀ e' ∈ listedEntries,
        postcardEntry e = postcardEntry e' → e = e' := by decide +kernel
    exact hall e hmem e' hmem' (hbytes.trans hbytes'.symm)
  · intro e bytes he
    obtain ⟨hmem, rfl⟩ := hlisted he
    have hall : ∀ e ∈ listedEntries, (postcardEntry e).length < 2 ^ 64 := by decide +kernel
    exact hall e hmem

/-- The two example trees: both are verified, their roots differ, and so do their
entries. -/
theorem fromEntries_canonical_trees :
    sourceTree.verify listedExternals = .ok () ∧ destinationTree.verify listedExternals = .ok () ∧
      NoCollision listedExternals sourceTree destinationTree ∧
      (sourceTree.root = destinationTree.root ↔ sourceTree.entries = destinationTree.entries) := by
  have hs : sourceTree.verify listedExternals = .ok () := by decide +kernel
  have hd : destinationTree.verify listedExternals = .ok () := by decide +kernel
  have hfree : NoCollision listedExternals sourceTree destinationTree := by
    intro x x' hx hx' heq
    obtain ⟨y, hy, hroot⟩ := (verify_eq_ok_iff.mp hs).hashedBytes
    obtain ⟨y', hy', hroot'⟩ := (verify_eq_ok_iff.mp hd).hashedBytes
    obtain rfl := ok.inj (hx.symm.trans hy)
    obtain rfl := ok.inj (hx'.symm.trans hy')
    exact absurd (hroot.trans (heq.trans hroot'.symm)) (by decide)
  exact ⟨hs, hd, hfree,
    ((fromEntries_canonical listedExternals encodesEntries_listedExternals).2.2.2 _ _ hs hd hfree).1⟩

/-- **The error depends on the order**: of two faulty entries, the one listed
first is reported. -/
theorem fromEntries_error_order :
    DirectoryManifest.fromEntries listedExternals
        [⟨utf8 "d", .directory, 1, none, none⟩, ⟨utf8 "l", .symlink, 0, none, none⟩] =
      .error (.manifest [.text "directory entry carries file data"]) ∧
    DirectoryManifest.fromEntries listedExternals
        [⟨utf8 "l", .symlink, 0, none, none⟩, ⟨utf8 "d", .directory, 1, none, none⟩] =
      .error (.manifest [.text "symlink entry target is invalid"]) := by
  decide +kernel

end Rds
