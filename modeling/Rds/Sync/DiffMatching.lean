import Rds.Sync.Mirror

/-!
# A diff partitions both sides

Every entry of the right manifest is in one list of the diff, and so is every entry of the left
one, once the entries at common paths are read on the left. The renames are a maximum matching:
the loop pops one removed entry per added one, so for each identity it makes as many renames as
the shorter side has entries (`countP_foldl_pairEntry`).
-/

namespace Rds

open Framework List

/-- The entries of a manifest at the paths of a list. -/
def DirectoryManifest.entriesAt (self : DirectoryManifest) (l : List DirectoryEntry) :
    List DirectoryEntry :=
  self.entries.filter fun e => e.path ∈ l.map (·.path)

/-! ### Counting the renames -/

theorem length_removedByIdentity (removed : List DirectoryEntry) {id : EntryIdentity}
    (hid : id.kind ≠ .directory) :
    (removedByIdentity removed id).length = removed.countP (·.identity = id) := by
  rw [removedByIdentity_eq, length_reverse, length_map, ← countP_eq_length_filter]
  conv_rhs => rw [← zipIdx_map_fst 0 removed, countP_map]
  refine countP_congr fun e _ => ?_
  have hkind : e.1.identity = id → e.1.kind ≠ .directory := fun he hk => hid (he ▸ hk)
  simpa using hkind

/-- **The loop matches as much as it can.** From any state it adds, for each identity, the
smaller of what is on the stack and what is still to come. -/
theorem countP_foldl_pairEntry {removed : List DirectoryEntry} (id : EntryIdentity)
    (todo : List DirectoryEntry) : ∀ done st, PairInv removed done st →
      (todo.foldl (pairEntry removed) st).renamed.countP (·.dst.identity = id) =
        st.renamed.countP (·.dst.identity = id) +
          min (st.byIdentity id).length (todo.countP (·.identity = id)) := by
  induction todo with
  | nil => simp
  | cons entry todo ih =>
    intro done st hinv
    rw [foldl_cons, ih _ _ (hinv.step entry), countP_cons]
    unfold pairEntry
    cases htop : st.byIdentity entry.identity with
    | nil =>
      by_cases hid : entry.identity = id
      · simp [← hid, htop]
      · simp [hid]
    | cons index rest =>
      -- an index on a stack is one of `removed`
      obtain ⟨e, hget, -⟩ := hinv.stack entry.identity index (htop ▸ mem_cons_self)
      simp only [hget, countP_append, countP_singleton]
      by_cases hid : entry.identity = id
      · subst hid
        simp only [Function.update_self, htop, length_cons, decide_true, if_true]
        omega
      · simp [hid, Function.update_of_ne (Ne.symm hid)]

theorem countP_pairEntries (added removed : List DirectoryEntry) {id : EntryIdentity}
    (hid : id.kind ≠ .directory) :
    (pairEntries added removed).renamed.countP (·.dst.identity = id) =
      min (removed.countP (·.identity = id)) (added.countP (·.identity = id)) := by
  have hcount := countP_foldl_pairEntry id added _ _ (pairInv_removedByIdentity removed)
  rw [length_removedByIdentity removed hid] at hcount
  simpa [pairEntries] using hcount

/-! ### The partition -/

/-- How a diff from `left` to `right` divides their entries. -/
structure Divides (left right : DirectoryManifest) (d : DirectoryDiff) : Prop where
  distinct : left.entries.Nodup ∧ right.entries.Nodup
  targets : (d.unchanged ++ (d.renamed.map (·.dst) ++ d.added ++ d.modified)).Perm right.entries
  sources : (d.renamed.map (·.src) ++ d.removed ++
    (left.entriesAt d.unchanged ++ left.entriesAt d.modified)).Perm left.entries
  unchanged : ∀ e, e ∈ d.unchanged ↔
    e ∈ right.entries ∧ ∃ b ∈ left.entries, b.path = e.path ∧ b.identity = e.identity
  modified : ∀ e, e ∈ d.modified ↔
    e ∈ right.entries ∧ ∃ b ∈ left.entries, b.path = e.path ∧ b.identity ≠ e.identity
  renamed : ∀ r ∈ d.renamed, r.src ∈ left.onlyIn right ∧ r.dst ∈ right.onlyIn left ∧
    r.src.identity = r.dst.identity ∧ r.src.kind ≠ .directory ∧ r.dst.kind ≠ .directory
  matched : ∀ id : EntryIdentity, id.kind ≠ .directory →
    d.renamed.countP (·.dst.identity = id) =
      min ((left.onlyIn right).countP (·.identity = id))
        ((right.onlyIn left).countP (·.identity = id))

section Diff

variable {ext : Externals} {left right : DirectoryManifest} {d : DirectoryDiff}

theorem exists_lookup_iff (h : Verified ext left) {p : Bytes} {P : DirectoryEntry → Prop} :
    (∃ b, left.lookup p = some b ∧ P b) ↔ ∃ b ∈ left.entries, b.path = p ∧ P b := by
  simp only [h.lookup_eq_some_iff, and_assoc]

theorem mem_unchanged (h : left.diff ext right = .ok d) (e : DirectoryEntry) :
    e ∈ d.unchanged ↔ e ∈ right.entries ∧ ∃ b, left.lookup e.path = some b ∧ b.identity = e.identity := by
  obtain ⟨-, -, rfl⟩ := diff_eq_ok.mp h
  rw [mem_filter]
  unfold classify DirectoryManifest.lookup
  cases left.entryMap[e.path]? with
  | none => simp
  | some b =>
    split <;> simp_all

/-- **Sources.** Every entry of the left side is in one list of the diff, or at a path of one. -/
theorem perm_sources (h : left.diff ext right = .ok d) :
    (d.renamed.map (·.src) ++ d.removed ++
      (left.entriesAt d.unchanged ++ left.entriesAt d.modified)).Perm left.entries := by
  obtain ⟨-, hright, -⟩ := diff_spec h
  -- the paths of the right side, each in one list
  have hpaths := (perm_targets h).map (·.path)
  have hnodup := hpaths.nodup_iff.mpr (nodup_paths hright)
  have hnew : ∀ e ∈ left.entries, e.path ∉ (d.renamed.map (·.dst) ++ d.added).map (·.path) := by
    intro e he hp
    obtain ⟨b, hb, hpath⟩ := mem_map.mp hp
    have hnot := of_decide_eq_true (mem_filter.mp ((perm_added h).subset hb)).2
    exact hnot (mem_map.mpr ⟨e, he, hpath.symm⟩)
  have hcommon : (left.entriesAt d.unchanged ++ left.entriesAt d.modified).Perm
      (left.entries.filter fun e => !decide (e.path ∉ right.entries.map (·.path))) := by
    refine .trans (.of_eq ?_) (filter_append_perm (·.path ∈ d.unchanged.map (·.path)) _)
    rw [filter_filter, filter_filter]
    refine congrArg₂ _ (filter_congr fun e he => ?_) (filter_congr fun e he => ?_)
    · grind
    · grind
  exact ((perm_removed h).append hcommon).trans (filter_append_perm _ _)

/-- **Partition and maximum matching.** Verified manifests have a diff, which divides the entries
of both, and renames as many entries of each identity as have a partner. -/
theorem diff_divides (hleft : left.verify ext = .ok ()) (hright : right.verify ext = .ok ()) :
    ∃ d, left.diff ext right = .ok d ∧ Divides left right d := by
  have hl := verify_eq_ok_iff.mp hleft
  have hr := verify_eq_ok_iff.mp hright
  obtain ⟨d, hd⟩ : ∃ d, left.diff ext right = .ok d := ⟨_, diff_eq_ok.mpr ⟨hl, hr, rfl⟩⟩
  obtain ⟨-, -, hspec⟩ := diff_spec hd
  refine ⟨d, hd, ⟨(nodup_paths hl).of_map, (nodup_paths hr).of_map⟩, perm_targets hd, perm_sources hd, ?_, ?_, ?_,
    fun id hid => ?_⟩
  · intro e
    rw [mem_unchanged hd, exists_lookup_iff hl]
  · intro e
    rw [hspec.modified, exists_lookup_iff hl]
  · intro r hren
    obtain ⟨hsrc, hdst, hid, hk⟩ := hspec.renamed r hren
    have hk' : r.dst.kind ≠ .directory := fun h => hk ((congrArg EntryIdentity.kind hid).trans h)
    exact ⟨(mem_onlyIn hr).mpr hsrc, (mem_onlyIn hl).mpr hdst, hid, hk, hk'⟩
  · obtain ⟨-, -, rfl⟩ := diff_eq_ok.mp hd
    exact ((perm_insertionSort _ _).countP_eq _).trans (countP_pairEntries _ _ hid)

/-- Between the sample trees the diff renames `a` to `d/b`. -/
theorem diff_divides_trees : ∃ d, destinationTree.diff treeExternals sourceTree = .ok d ∧
    Divides destinationTree sourceTree d :=
  diff_divides (by decide +kernel) (by decide +kernel)

end Diff

end Rds
