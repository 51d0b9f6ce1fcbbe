import Rds.Sync.Directory

/-!
# Verified snapshots

`Verified` spells out what `DirectoryManifest::verify` accepts
(`verify_eq_ok_iff`), and `fromEntries_eq_ok` gives the converse direction for
`from_entries` on entries that are already sorted.

A verified snapshot denotes a *tree*: a partial function from paths to entries
in which the parent of every entry is present as a directory (`IsTree`). The
abstract statements about plans and merges are statements about such functions;
`Verified.isTree` and `lookup_eq_some_iff` connect them to manifests.
-/

namespace Rds

open Framework UnixPath List

/-! ### Trees -/

/-- A partial function from paths to entries is a tree: each entry sits at its
own path, and below a separator its parent is present as a directory. -/
structure IsTree (s : Bytes → Option DirectoryEntry) : Prop where
  path_eq : ∀ {p e}, s p = some e → e.path = p
  parent : ∀ {p e q n}, s p = some e → rsplitOnce slash p = some (q, n) →
    ∃ d, s q = some d ∧ d.kind = .directory

/-- `p` lies below `d`. -/
def Below (d p : Bytes) : Prop := ∃ r, p = d ++ slash :: r

variable {e : DirectoryEntry} {entries : List DirectoryEntry}

theorem IsTree.ancestor {s : Bytes → Option DirectoryEntry} (h : IsTree s) {d p : Bytes}
    (hp : s p = some e) (hd : Below d p) :
    ∃ x, s d = some x ∧ x.kind = .directory := by
  -- strong induction on the path: its parent is `d` or still below `d`
  induction hn : p.length using Nat.strong_induction_on generalizing p e with
  | _ n ih =>
    obtain ⟨r, rfl⟩ := hd
    obtain ⟨q, name, hq, hcase⟩ := rsplitOnce_append_cons slash d r
    obtain ⟨x, hx, hkind⟩ := h.parent hp hq
    rcases hcase with rfl | ⟨r', rfl⟩
    · exact ⟨x, hx, hkind⟩
    · exact ih _ (hn ▸ length_lt_of_rsplitOnce hq) hx ⟨r', rfl⟩ rfl

theorem below_of_rsplitOnce {p q n : Bytes} (h : rsplitOnce slash p = some (q, n)) : Below q p :=
  ⟨n, (rsplitOnce_eq_some_iff.mp h).1⟩

/-! ### The validation loops -/

theorem addDataBytes_le_iff {bytes limit : ℕ} (hlimit : limit < usizeMax) :
    addDataBytes bytes e ≤ limit ↔ bytes + e.dataBytes ≤ limit := by
  unfold addDataBytes DirectoryEntry.dataBytes
  unfold saturatingAdd
  omega

theorem addDataBytes_eq {bytes limit : ℕ} (hlimit : limit < usizeMax)
    (h : bytes + e.dataBytes ≤ limit) : addDataBytes bytes e = bytes + e.dataBytes := by
  unfold addDataBytes saturatingAdd DirectoryEntry.dataBytes at *
  omega

/-- The bytes a list of entries counts against the metadata budget. -/
def totalDataBytes (entries : List DirectoryEntry) : ℕ :=
  (entries.map DirectoryEntry.dataBytes).sum

@[simp] theorem totalDataBytes_nil : totalDataBytes [] = 0 := rfl

theorem totalDataBytes_cons (e : DirectoryEntry) (entries : List DirectoryEntry) :
    totalDataBytes (e :: entries) = e.dataBytes + totalDataBytes entries := by
  simp [totalDataBytes]

theorem totalDataBytes_append (l l' : List DirectoryEntry) :
    totalDataBytes (l ++ l') = totalDataBytes l + totalDataBytes l' := by
  simp [totalDataBytes]

theorem validateEntriesFrom_eq_ok {bytes : ℕ} (hb : bytes ≤ maxDirectoryDataBytes) :
    validateEntriesFrom bytes entries = .ok () ↔ (∀ e ∈ entries, e.validate = .ok ()) ∧
        bytes + totalDataBytes entries ≤ maxDirectoryDataBytes := by
  induction entries generalizing bytes with
  | nil => simp [validateEntriesFrom, hb]
  | cons e entries ih =>
    rw [validateEntriesFrom, check_bind_eq_ok, forall_mem_cons]
    have hlimit : maxDirectoryDataBytes < usizeMax := by decide
    have hsum := totalDataBytes_cons e entries
    constructor
    · rintro ⟨hv, hrest⟩
      rw [ite_throw_eq_ok, Nat.not_lt, addDataBytes_le_iff hlimit] at hrest
      rw [addDataBytes_eq hlimit hrest.1, ih hrest.1] at hrest
      exact ⟨⟨hv, hrest.2.1⟩, by omega⟩
    rintro ⟨⟨hv, hall⟩, htotal⟩
    have hle : bytes + e.dataBytes ≤ maxDirectoryDataBytes := by omega
    refine ⟨hv, ?_⟩
    rw [ite_throw_eq_ok, Nat.not_lt, addDataBytes_eq hlimit hle, ih hle]
    exact ⟨hle, hall, by omega⟩

theorem validateEntries_eq_ok :
    validateEntries entries = .ok () ↔
      entries.length ≤ maxDirectoryEntries ∧ (∀ e ∈ entries, e.validate = .ok ()) ∧
        totalDataBytes entries ≤ maxDirectoryDataBytes := by
  unfold validateEntries
  rw [ite_throw_eq_ok, validateEntriesFrom_eq_ok (Nat.zero_le _), Nat.not_lt, Nat.zero_add]

theorem forall_windows2_iff_isChain {α : Type} {R : α → α → Prop} {l : List α} :
    (∀ w ∈ windows2 l, R w.1 w.2) ↔ l.IsChain R := by
  unfold windows2
  induction l with
  | nil => simp
  | cons a l ih =>
    cases l with
    | nil => simp
    | cons b l =>
      rw [tail_cons] at ih ⊢
      rw [isChain_cons_cons, ← ih, zip_cons_cons, forall_mem_cons]

instance : IsTrans DirectoryEntry fun a b => a.path < b.path := ⟨fun _ _ _ => Std.lt_trans⟩

theorem windows2_sorted_iff :
    ¬ ((windows2 entries).any fun pair => pair.2.path ≤ pair.1.path) = true ↔
      entries.Pairwise fun a b => a.path < b.path := by
  rw [← isChain_iff_pairwise, ← forall_windows2_iff_isChain]
  simp only [any_eq_true, decide_eq_true_eq, not_exists, not_and]
  exact forall_congr' fun w => imp_congr_right fun _ => Std.not_le

theorem searchPath_eq_some (h : entries.Pairwise fun a b => a.path ≠ b.path) {p : Bytes} :
    searchPath entries p = some e ↔ e ∈ entries ∧ e.path = p := by
  unfold searchPath
  induction entries with
  | nil => simp
  | cons a entries ih =>
    rw [pairwise_cons] at h
    rw [find?_cons, mem_cons]
    by_cases ha : a.path = p
    · simp only [ha, decide_true, Option.some.injEq]
      constructor
      · rintro rfl
        exact ⟨Or.inl rfl, ha⟩
      · rintro ⟨rfl | he, hep⟩
        · rfl
        · exact absurd (ha.trans hep.symm) (h.1 e he)
    simp only [ha, decide_false, ih h.2]
    constructor
    · rintro ⟨he, hep⟩
      exact ⟨Or.inr he, hep⟩
    · rintro ⟨rfl | he, hep⟩
      · exact absurd hep ha
      · exact ⟨he, hep⟩

theorem validateParent_eq_ok (h : entries.Pairwise fun a b => a.path ≠ b.path) {p : Bytes} :
    validateParent entries p = .ok () ↔ ∀ q n, rsplitOnce slash p = some (q, n) →
        ∃ d ∈ entries, d.path = q ∧ d.kind = .directory := by
  unfold validateParent
  cases hr : rsplitOnce slash p with
  | none => simp
  | some qn =>
    obtain ⟨q, n⟩ := qn
    dsimp only
    cases hs : searchPath entries q with
    | none =>
      simp only [reduceCtorEq, false_iff]
      intro hall
      obtain ⟨d, hd, hdq, -⟩ := hall q n rfl
      rw [(searchPath_eq_some h).mpr ⟨hd, hdq⟩] at hs
      exact absurd hs (by simp)
    | some d =>
      obtain ⟨hd, hdq⟩ := (searchPath_eq_some h).mp hs
      simp only [ite_throw_eq_ok, not_not, and_true]
      constructor
      · intro hk q' n' heq
        simp only [Option.some.injEq, Prod.mk.injEq] at heq
        exact ⟨d, hd, hdq.trans heq.1, hk⟩
      intro hall
      obtain ⟨d', hd', hdq', hk⟩ := hall q n rfl
      have hsome := (searchPath_eq_some h).mpr ⟨hd', hdq'⟩
      rw [hs, Option.some.injEq] at hsome
      exact hsome ▸ hk

/-- The placement of one entry: its parent is present as a directory, and its
nesting is bounded. -/
theorem validatePlacement_eq_ok (h : entries.Pairwise fun a b => a.path ≠ b.path) :
    validatePlacement entries e = .ok () ↔ (∀ q n, rsplitOnce slash e.path = some (q, n) →
        ∃ d ∈ entries, d.path = q ∧ d.kind = .directory) ∧
      (e.path.splitOn slash).length ≤ maxDirectoryDepth := by
  unfold validatePlacement
  rw [check_bind_eq_ok, validateParent_eq_ok h, ite_throw_eq_ok, Nat.not_lt]
  simp

/-! ### What `verify` accepts -/

/-- The hierarchy of a list of entries: every parent is present as a directory
and the nesting is bounded. -/
structure Placed (entries : List DirectoryEntry) : Prop where
  parent : ∀ e ∈ entries, ∀ q n, rsplitOnce slash e.path = some (q, n) →
    ∃ d ∈ entries, d.path = q ∧ d.kind = .directory
  depth : ∀ e ∈ entries, (e.path.splitOn slash).length ≤ maxDirectoryDepth

theorem validateHierarchy_eq_ok (h : entries.Pairwise fun a b => a.path ≠ b.path) :
    validateHierarchy entries = .ok () ↔ Placed entries := by
  unfold validateHierarchy
  rw [forM_eq_ok]
  constructor
  · intro hall
    exact ⟨fun e he => ((validatePlacement_eq_ok h).mp (hall e he)).1,
      fun e he => ((validatePlacement_eq_ok h).mp (hall e he)).2⟩
  · intro hp e he
    exact (validatePlacement_eq_ok h).mpr ⟨hp.parent e he, hp.depth e he⟩

/-- What `DirectoryManifest::verify` accepts. -/
structure Verified (ext : Externals) (m : DirectoryManifest) : Prop where
  count : m.entries.length ≤ maxDirectoryEntries
  valid : ∀ e ∈ m.entries, e.validate = .ok ()
  bytes : totalDataBytes m.entries ≤ maxDirectoryDataBytes
  sorted : m.entries.Pairwise fun a b => a.path < b.path
  digest : digestEntries ext m.entries = .ok m.root
  placed : Placed m.entries

theorem pairwise_path_ne (h : entries.Pairwise fun a b => a.path < b.path) :
    entries.Pairwise fun a b => a.path ≠ b.path :=
  h.imp fun hlt => Std.ne_of_lt hlt

/-- **`verify` accepts exactly the verified manifests.** -/
theorem verify_eq_ok_iff {ext : Externals} {m : DirectoryManifest} :
    m.verify ext = .ok () ↔ Verified ext m := by
  unfold DirectoryManifest.verify
  rw [check_bind_eq_ok, ite_throw_eq_ok, bind_eq_ok, validateEntries_eq_ok, windows2_sorted_iff]
  constructor
  · rintro ⟨⟨hc, hv, hb⟩, hs, d, hd, htail⟩
    rw [ite_throw_eq_ok, validateHierarchy_eq_ok (pairwise_path_ne hs)] at htail
    exact ⟨hc, hv, hb, hs, not_not.mp htail.1 ▸ hd, htail.2⟩
  intro h
  refine ⟨⟨h.count, h.valid, h.bytes⟩, h.sorted, m.root, h.digest, ?_⟩
  rw [ite_throw_eq_ok, validateHierarchy_eq_ok (pairwise_path_ne h.sorted)]
  exact ⟨not_not.mpr rfl, h.placed⟩

/-- **`from_entries` on sorted entries** accepts what `verify` accepts, and
returns the entries as they are. -/
theorem fromEntries_eq_ok {ext : Externals} {root : ChunkHash} (h : Verified ext ⟨root, entries⟩) :
    DirectoryManifest.fromEntries ext entries = .ok ⟨root, entries⟩ := by
  unfold DirectoryManifest.fromEntries
  have hsort : entries.insertionSort (fun a b => a.path ≤ b.path) = entries :=
    List.Pairwise.insertionSort_eq (h.sorted.imp fun hlt => Std.le_of_lt hlt)
  have hdup : ((windows2 entries).any fun pair => pair.1.path = pair.2.path) = false := by
    rw [any_eq_false]
    intro w hw
    have hch := h.sorted.isChain
    rw [← forall_windows2_iff_isChain] at hch
    have hlt := hch w hw
    simp only [decide_eq_true_eq]
    exact fun heq => Std.lt_irrefl (heq ▸ hlt)
  rw [ite_throw_eq_ok, check_bind_eq_ok, hsort]
  refine ⟨Nat.not_lt.mpr h.count, validateEntries_eq_ok.mpr ⟨h.count, h.valid, h.bytes⟩, ?_⟩
  rw [ite_throw_eq_ok, check_bind_eq_ok, bind_eq_ok, hdup]
  exact ⟨by decide, (validateHierarchy_eq_ok (pairwise_path_ne h.sorted)).mpr h.placed, root, h.digest, rfl⟩

/-! ### The tree of a verified snapshot -/

namespace DirectoryManifest

/-- The partial function a manifest denotes. -/
def lookup (m : DirectoryManifest) (p : Bytes) : Option DirectoryEntry := m.entryMap[p]?

end DirectoryManifest

section Lookup

variable {ext : Externals} {m : DirectoryManifest}

theorem pairwise_compare {entries : List DirectoryEntry} (h : entries.Pairwise fun a b => a.path < b.path) :
    entries.Pairwise fun a b => compare a.path b.path = .lt :=
  h.imp fun hlt => compare_eq_lt_iff_lt.mpr hlt

/-- **Lookup in a verified manifest** is membership among its entries. -/
theorem Verified.lookup_eq_some_iff (h : Verified ext m) {p : Bytes} {e : DirectoryEntry} :
    m.lookup p = some e ↔ e ∈ m.entries ∧ e.path = p :=
  lookup_indexBy (pairwise_path_ne h.sorted)

theorem Verified.lookup_eq_none_iff (h : Verified ext m) {p : Bytes} :
    m.lookup p = none ↔ ∀ e ∈ m.entries, e.path ≠ p :=
  lookup_indexBy_eq_none (pairwise_path_ne h.sorted)

theorem Verified.lookup_of_mem (h : Verified ext m) {e : DirectoryEntry} (he : e ∈ m.entries) :
    m.lookup e.path = some e :=
  h.lookup_eq_some_iff.mpr ⟨he, rfl⟩

theorem Verified.mapValues_entryMap (h : Verified ext m) : mapValues m.entryMap = m.entries :=
  mapValues_indexBy (pairwise_compare h.sorted)

theorem Verified.isTree (h : Verified ext m) : IsTree m.lookup where
  path_eq hp := (h.lookup_eq_some_iff.mp hp).2
  parent := by
    intro p e q n hp hr
    obtain ⟨he, rfl⟩ := h.lookup_eq_some_iff.mp hp
    obtain ⟨d, hd, rfl, hk⟩ := h.placed.parent e he q n hr
    exact ⟨d, h.lookup_of_mem hd, hk⟩

end Lookup

end Rds
