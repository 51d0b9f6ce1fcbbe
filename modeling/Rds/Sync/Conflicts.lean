import Rds.Sync.Mirror

/-!
# Three-way merging without conflicts

`conflicts` reports the paths at which two descendants of a common base clash and
leaves the resolution to its caller. What an empty report promises is stated
here: the merge that takes the local side where it changed and the remote side
elsewhere (`merge`) is again a tree, and it does not depend on which side is
called local (`merge_of_conflicts_eq_nil`).

`ConflictFree` is what an empty report says about the three trees. It mentions
the parent of a changed path only; the report itself walks all ancestors
(`ancestors_eq`).
-/

namespace Rds

open Framework UnixPath List

/-! ### Merging trees -/

/-- **The merge of two descendants of a base**: the local value at a path that
the local side changed, and the remote value elsewhere. -/
def merge (base localSide remote : Bytes → Option DirectoryEntry) (p : Bytes) :
    Option DirectoryEntry :=
  if localSide p ≠ base p then localSide p else remote p

/-- A path is present as a directory. -/
def DirectoryAt (s : Bytes → Option DirectoryEntry) (p : Bytes) : Prop :=
  ∃ d, s p = some d ∧ d.kind = .directory

/-- Two descendants of a base do not clash: paths that both changed agree, and a
directory of the base that one side kept above a change is kept by the other. -/
structure ConflictFree (base localSide remote : Bytes → Option DirectoryEntry) : Prop where
  agree : ∀ {p}, localSide p ≠ base p → remote p ≠ base p → localSide p = remote p
  keeps_local : ∀ {p q n}, localSide p ≠ base p → rsplitOnce slash p = some (q, n) →
    DirectoryAt base q → DirectoryAt localSide q → DirectoryAt remote q
  keeps_remote : ∀ {p q n}, remote p ≠ base p → rsplitOnce slash p = some (q, n) →
    DirectoryAt base q → DirectoryAt remote q → DirectoryAt localSide q

section Merge

variable {base localSide remote : Bytes → Option DirectoryEntry}

theorem ConflictFree.merge_comm (h : ConflictFree base localSide remote) :
    merge base localSide remote = merge base remote localSide := by
  funext p
  unfold merge
  by_cases hl : localSide p = base p
  · by_cases hr : remote p = base p
    · rw [if_neg (not_not.mpr hl), if_neg (not_not.mpr hr), hl, hr]
    · rw [if_neg (not_not.mpr hl), if_pos hr]
  · by_cases hr : remote p = base p
    · rw [if_pos hl, if_neg (not_not.mpr hr)]
    · rw [if_pos hl, if_pos hr, h.agree hl hr]

/-- **A merge without clashes is a tree.** -/
theorem ConflictFree.isTree_merge (h : ConflictFree base localSide remote)
    (hl : IsTree localSide) (hr : IsTree remote) : IsTree (merge base localSide remote) := by
  constructor
  · intro p e hp
    unfold merge at hp
    split at hp
    · exact hl.path_eq hp
    · exact hr.path_eq hp
  intro p e q n hp hq
  -- it is enough to find the directory on the side the merge takes at `q`
  have hside : (localSide q ≠ base q → DirectoryAt localSide q) →
      (localSide q = base q → DirectoryAt remote q) →
      DirectoryAt (merge base localSide remote) q := by
    intro hchanged hsame
    unfold DirectoryAt merge
    by_cases hlq : localSide q = base q
    · rw [if_neg (not_not.mpr hlq)]
      exact hsame hlq
    · rw [if_pos hlq]
      exact hchanged hlq
  by_cases hlp : localSide p = base p
  · have hrp : remote p = some e := by rwa [merge, if_neg (not_not.mpr hlp)] at hp
    have hdir : DirectoryAt remote q := hr.parent hrp hq
    refine hside (fun hlq => ?_) fun _ => hdir
    by_cases hrp' : remote p = base p
    · -- nobody changed the path, so it is in the local tree as well
      exact hl.parent (hlp.trans (hrp'.symm.trans hrp)) hq
    by_cases hbase : DirectoryAt base q
    · exact h.keeps_remote hrp' hq hbase hdir
    have hrq : remote q ≠ base q := fun heq => hbase (by
      unfold DirectoryAt
      exact heq ▸ hdir)
    unfold DirectoryAt
    exact h.agree hlq hrq ▸ hdir
  · have hlp' : localSide p = some e := by rwa [merge, if_pos hlp] at hp
    have hdir : DirectoryAt localSide q := hl.parent hlp' hq
    refine hside (fun _ => hdir) fun hlq => h.keeps_local hlp hq ?_ hdir
    unfold DirectoryAt
    exact hlq ▸ hdir

end Merge

/-! ### What an empty report says -/

theorem ancestorsFrom_congr {n m : ℕ} {p : Bytes} (hn : p.length ≤ n) (hm : p.length ≤ m) :
    ancestorsFrom n p = ancestorsFrom m p := by
  have hnil : ∀ k, ancestorsFrom k [] = [] := fun k => by cases k <;> rfl
  induction n generalizing p m with
  | zero =>
    obtain rfl := length_eq_zero_iff.mp (Nat.le_zero.mp hn)
    rw [hnil, hnil]
  | succ n ih =>
    cases m with
    | zero =>
      obtain rfl := length_eq_zero_iff.mp (Nat.le_zero.mp hm)
      rw [hnil, hnil]
    | succ m =>
      rw [ancestorsFrom, ancestorsFrom]
      cases hr : rsplitOnce slash p with
      | none => rfl
      | some qn =>
        have hlt := length_lt_of_rsplitOnce (x := qn.1) (y := qn.2) hr
        dsimp only
        rw [ih (p := qn.1) (m := m) (by omega) (by omega)]

theorem ancestors_eq (p : Bytes) :
    ancestors p = match rsplitOnce slash p with
      | none => []
      | some (parent, _) => parent :: ancestors parent := by
  unfold ancestors
  rw [ancestorsFrom_congr le_rfl (Nat.le_succ p.length), ancestorsFrom]
  cases hr : rsplitOnce slash p with
  | none => rfl
  | some qn =>
    have hlt := length_lt_of_rsplitOnce (x := qn.1) (y := qn.2) hr
    dsimp only
    rw [ancestorsFrom_congr hlt.le le_rfl]

theorem mem_ancestors_of_rsplitOnce {p q n : Bytes} (h : rsplitOnce slash p = some (q, n)) :
    q ∈ ancestors p := by
  rw [ancestors_eq, h]
  exact mem_cons_self

theorem isDirectory_iff {entries : EntryMap} {p : Bytes} :
    isDirectory entries p = true ↔ DirectoryAt (EntryMap.view entries) p := by
  unfold isDirectory DirectoryAt EntryMap.view
  cases entries[p]? with
  | none => simp
  | some e => simp

theorem pathConflicts_eq_nil {base localSide remote : EntryMap} {p : Bytes}
    (h : pathConflicts base localSide remote p = []) :
    (localSide[p]? ≠ base[p]? → remote[p]? ≠ base[p]? → localSide[p]? = remote[p]?) ∧
      sideConflicts base localSide remote p = [] ∧ sideConflicts base remote localSide p = [] := by
  unfold pathConflicts at h
  rw [append_eq_nil_iff, append_eq_nil_iff] at h
  obtain ⟨⟨hboth, hl⟩, hr⟩ := h
  refine ⟨fun hlp hrp => ?_, hl, hr⟩
  by_contra hne
  rw [if_pos ⟨hlp.symm, hrp.symm, hne⟩] at hboth
  exact absurd hboth (by simp)

/-- No conflict on a side: the parent of a changed path that is a directory in
the base and on this side is a directory on the other one. -/
theorem directoryAt_of_sideConflicts {base side other : EntryMap} {p q n : Bytes}
    (h : sideConflicts base side other p = []) (hchanged : side[p]? ≠ base[p]?)
    (hq : rsplitOnce slash p = some (q, n)) (hbase : DirectoryAt (EntryMap.view base) q)
    (hside : DirectoryAt (EntryMap.view side) q) : DirectoryAt (EntryMap.view other) q := by
  unfold sideConflicts at h
  rw [if_neg hchanged.symm, filter_eq_nil_iff] at h
  have hq' := h q (mem_ancestors_of_rsplitOnce hq)
  rw [isDirectory_iff.mpr hbase, isDirectory_iff.mpr hside] at hq'
  exact isDirectory_iff.mp (by simpa using hq')

theorem sortedSet_eq_nil {l : List Bytes} : sortedSet l = [] ↔ l = [] := by
  unfold sortedSet
  rw [dedup_eq_nil]
  exact ⟨fun h => perm_nil.mp (h ▸ (perm_insertionSort _ l).symm), fun h => by simp [h]⟩

theorem mem_sortedSet {l : List Bytes} {p : Bytes} : p ∈ sortedSet l ↔ p ∈ l := by
  unfold sortedSet
  rw [mem_dedup, (perm_insertionSort _ l).mem_iff]

/-- **An empty report means no clash.** -/
theorem conflictFree_of_conflicts {ext : Externals} {base localSide remote : DirectoryManifest}
    (h : conflicts ext base localSide remote = .ok []) :
    Verified ext localSide ∧ Verified ext remote ∧
      ConflictFree base.lookup localSide.lookup remote.lookup := by
  unfold conflicts at h
  rw [check_bind_eq_ok, check_bind_eq_ok, check_bind_eq_ok, verify_eq_ok_iff, verify_eq_ok_iff,
    verify_eq_ok_iff, Except.ok.injEq, map_eq_nil_iff, sortedSet_eq_nil,
    flatMap_eq_nil_iff] at h
  obtain ⟨hb, hl, hr, hnil⟩ := h
  -- a path that none of the three holds is not visited, and is unchanged
  have hpath : ∀ p, (localSide.lookup p ≠ base.lookup p ∨ remote.lookup p ≠ base.lookup p) →
      pathConflicts base.entryMap localSide.entryMap remote.entryMap p = [] := by
    intro p hchanged
    refine hnil p (mem_sortedSet.mpr ?_)
    rw [map_append, map_append]
    by_contra hmem
    simp only [mem_append, mem_map, not_or, not_exists, not_and] at hmem
    have hnone := hb.lookup_eq_none_iff.mpr hmem.1.1
    rw [hnone, hl.lookup_eq_none_iff.mpr hmem.1.2, hr.lookup_eq_none_iff.mpr hmem.2] at hchanged
    exact absurd hchanged (by simp)
  refine ⟨hl, hr, ⟨?_, ?_, ?_⟩⟩
  · intro p hlp hrp
    exact (pathConflicts_eq_nil (hpath p (Or.inl hlp))).1 hlp hrp
  · intro p q n hlp hq
    exact directoryAt_of_sideConflicts (pathConflicts_eq_nil (hpath p (Or.inl hlp))).2.1 hlp hq
  · intro p q n hrp hq
    exact directoryAt_of_sideConflicts (pathConflicts_eq_nil (hpath p (Or.inr hrp))).2.2 hrp hq

/-- **Merging without conflicts.** If the report on three snapshots is empty, the
merge has the parent of every entry as a directory, and it is the same merge with
the roles of the two sides swapped. -/
theorem merge_of_conflicts_eq_nil (ext : Externals) (base localSide remote : DirectoryManifest)
    (h : conflicts ext base localSide remote = .ok []) :
    (∀ p e, merge base.lookup localSide.lookup remote.lookup p = some e →
      ∀ q n, rsplitOnce slash p = some (q, n) →
        ∃ d, merge base.lookup localSide.lookup remote.lookup q = some d ∧ d.kind = .directory) ∧
      ∀ p, merge base.lookup localSide.lookup remote.lookup p =
        merge base.lookup remote.lookup localSide.lookup p := by
  obtain ⟨hl, hr, hfree⟩ := conflictFree_of_conflicts h
  refine ⟨fun p e hp q n hq => ?_, fun p => congrFun hfree.merge_comm p⟩
  exact (hfree.isTree_merge hl.isTree hr.isTree).parent hp hq

/-! A file added below a directory on one side and a file added beside it on the
other merge without conflict. -/

/-- `d/` alone. -/
def baseTree : DirectoryManifest where
  root := ⟨[0xce, 0x0f, 0x8a, 0x78, 0x15, 0xdf, 0x5d, 0x7e, 0xbf, 0x36, 0xd6, 0xe7,
    0xa0, 0x1a, 0xc1, 0xf3, 0x68, 0x5d, 0xd5, 0x76, 0x9e, 0xfa, 0xdf, 0xa6,
    0xcc, 0xd9, 0x0e, 0xae, 0x14, 0x70, 0x13, 0x56], rfl⟩
  entries := [directoryEntry "d"]

/-- `d/`, and `x` holding `03`. -/
def remoteTree : DirectoryManifest where
  root := ⟨[0x6c, 0x26, 0x24, 0xdd, 0x09, 0x9e, 0x63, 0xf8, 0x5c, 0x7b, 0x3f, 0x2c,
    0xa3, 0x40, 0x97, 0x9e, 0x3f, 0x46, 0x89, 0xc5, 0xe3, 0xa5, 0x6d, 0xa4,
    0xa7, 0x22, 0x59, 0xe3, 0x9d, 0xa5, 0xad, 0x6e], rfl⟩
  entries := [directoryEntry "d", byteFile "x" contentThree]

/-- Postcard, and BLAKE3 on the bytes of the three trees. -/
def mergeExternals : Externals where
  postcard e := some (postcardEntry e)
  blake3 b := if b = hashedEntries baseTree.entries then baseTree.root
    else if b = hashedEntries sourceTree.entries then sourceTree.root
    else remoteTree.root

theorem merge_of_conflicts_eq_nil_trees :
    conflicts mergeExternals baseTree sourceTree remoteTree = .ok [] ∧
      ∃ d, merge baseTree.lookup sourceTree.lookup remoteTree.lookup (utf8 "d") = some d ∧
        d.kind = .directory := by
  have h : conflicts mergeExternals baseTree sourceTree remoteTree = .ok [] := by decide +kernel
  have hfile : merge baseTree.lookup sourceTree.lookup remoteTree.lookup (utf8 "d/b") =
    some (byteFile "d/b" contentTwo) := by decide +kernel
  exact ⟨h, (merge_of_conflicts_eq_nil _ _ _ _ h).1 _ _ hfile _ (utf8 "b") (by decide +kernel)⟩

end Rds
