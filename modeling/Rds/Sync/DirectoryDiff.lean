import Rds.Sync.Snapshot

/-!
# What a directory diff contains

`DiffSpec` says which entries of two verified manifests end up in which list of
their diff. It is proved once (`diff_spec`), through the loop invariant
`PairInv` of the rename pairing.

Pairing never loses an entry: an added entry is either left in `added` or the
target of a rename, a removed one is either left in `removed` or the source of
one. A rename joins two entries with the same identity, neither of them a
directory.
-/

namespace Rds

open Framework UnixPath List Function

/-! ### The pairing loop -/

/-- The stacks, as lists of positions. -/
theorem removedByIdentity_eq (removed : List DirectoryEntry) (id : EntryIdentity) :
    removedByIdentity removed id = ((removed.zipIdx.filter fun e =>
      e.1.kind ≠ .directory ∧ e.1.identity = id).map Prod.snd).reverse := by
  have hfold : ∀ (l : List (DirectoryEntry × ℕ)) (m : EntryIdentity → List ℕ),
      l.foldl pushRemoved m id = ((l.filter fun e =>
        e.1.kind ≠ .directory ∧ e.1.identity = id).map Prod.snd).reverse ++ m id := by
    intro l
    induction l with
    | nil => exact fun m => rfl
    | cons e l ih =>
      intro m
      rw [foldl_cons, ih]
      unfold pushRemoved
      by_cases hk : e.1.kind = .directory
      · simp [hk]
      · by_cases hid : e.1.identity = id
        · simp [hk, hid]
        · simp [hk, hid, update_of_ne (Ne.symm hid)]
  exact (hfold removed.zipIdx _).trans (append_nil _)

/-- The invariant of the pairing loop. -/
structure PairInv (removed done : List DirectoryEntry) (st : Pairing) : Prop where
  /-- The stacks hold indices of removed entries with their identity, no directories. -/
  stack : ∀ id, ∀ i ∈ st.byIdentity id, ∃ e, removed[i]? = some e ∧ e.identity = id ∧
    e.kind ≠ .directory
  distinct : ∀ id, (st.byIdentity id).Nodup
  fresh : ∀ id, ∀ i ∈ st.byIdentity id, i ∉ st.used
  used : st.used.Nodup
  /-- The used indices are the sources of the renames. -/
  sources : (st.renamed.map (·.src)).map some = st.used.reverse.map (removed[·]?)
  targets : (st.renamed.map (·.dst)).Sublist done
  renamed : ∀ r ∈ st.renamed, r.src.identity = r.dst.identity ∧ r.src.kind ≠ .directory

theorem pairInv_removedByIdentity (removed : List DirectoryEntry) :
    PairInv removed [] ⟨removedByIdentity removed, [], []⟩ where
  stack id i hi := by
    dsimp only at hi
    rw [removedByIdentity_eq, mem_reverse, mem_map] at hi
    obtain ⟨e, he, rfl⟩ := hi
    rw [mem_filter, decide_eq_true_eq] at he
    exact ⟨e.1, mem_zipIdx_iff_getElem?.mp he.1, he.2.2, he.2.1⟩
  distinct id := by
    dsimp only
    rw [removedByIdentity_eq, nodup_reverse]
    refine List.Nodup.sublist ((filter_sublist ..).map _) ?_
    rw [zipIdx_map_snd]
    exact nodup_range'
  fresh _ _ _ := not_mem_nil
  used := nodup_nil
  sources := rfl
  targets := .refl _
  renamed := nofun

/-- An added entry takes an unused removed one of its identity, if there is one. -/
theorem PairInv.step {removed done : List DirectoryEntry} {st : Pairing}
    (h : PairInv removed done st) (entry : DirectoryEntry) :
    PairInv removed (done ++ [entry]) (pairEntry removed st entry) := by
  unfold pairEntry
  cases htop : st.byIdentity entry.identity with
  | nil => exact { h with targets := h.targets.trans (sublist_append_left _ _) }
  | cons index rest =>
    have hmem : index ∈ st.byIdentity entry.identity := htop ▸ mem_cons_self
    have hnodup := h.distinct entry.identity
    rw [htop, nodup_cons] at hnodup
    obtain ⟨e, hget, hide, hkind⟩ := h.stack _ index hmem
    -- only the stack of this identity changes: it loses its top
    have hrest : ∀ id, ∀ i ∈ update st.byIdentity entry.identity rest id,
        i ∈ st.byIdentity id ∧ i ≠ index := by
      intro id i hi
      by_cases hid : id = entry.identity
      · subst hid
        rw [update_self] at hi
        exact ⟨htop ▸ mem_cons_of_mem _ hi, fun heq => hnodup.1 (heq ▸ hi)⟩
      rw [update_of_ne hid] at hi
      refine ⟨hi, fun heq => hid ?_⟩
      obtain ⟨a, ha, hida, -⟩ := h.stack id i hi
      subst heq
      rw [← hida, ← hide, Option.some.inj (ha.symm.trans hget)]
    dsimp only
    rw [hget]
    refine ⟨fun id i hi => h.stack id i (hrest id i hi).1, fun id => ?_, fun id i hi => ?_,
      nodup_cons.mpr ⟨h.fresh _ index hmem, h.used⟩, ?_, ?_, fun r hr => ?_⟩
    · by_cases hid : id = entry.identity
      · simpa [hid] using hnodup.2
      · simpa [update_of_ne hid] using h.distinct id
    · obtain ⟨hold, hne⟩ := hrest id i hi
      exact not_mem_cons_of_ne_of_not_mem hne (h.fresh id i hold)
    · rw [map_append, map_append, h.sources, reverse_cons]
      simp [hget]
    · rw [map_append]
      exact h.targets.append (.refl _)
    rcases mem_append.mp hr with hr | hr
    · exact h.renamed r hr
    · cases mem_singleton.mp hr
      exact ⟨hide, hkind⟩

theorem pairInv_pairEntries (added removed : List DirectoryEntry) :
    PairInv removed added (pairEntries added removed) := by
  have hfold : ∀ (todo done : List DirectoryEntry) (st : Pairing), PairInv removed done st →
      PairInv removed (done ++ todo) (todo.foldl (pairEntry removed) st) := by
    intro todo
    induction todo with
    | nil => exact fun done st h => (append_nil done).symm ▸ h
    | cons entry todo ih =>
      intro done st h
      rw [← singleton_append, ← append_assoc]
      exact ih _ _ (h.step entry)
  exact hfold added [] _ (pairInv_removedByIdentity removed)

/-- The positions that survive a filter on positions. -/
theorem map_some_filter_zipIdx {α : Type} (l : List α) (keep : ℕ → Bool) :
    ((l.zipIdx.filter fun e => keep e.2).map Prod.fst).map some =
      ((List.range l.length).filter keep).map (l[·]?) := by
  have hsnd : (l.zipIdx.filter fun e => keep e.2).map Prod.snd = (range l.length).filter keep := by
    rw [range_eq_range', ← zipIdx_map_snd 0 l, filter_map]
    rfl
  rw [← hsnd, map_map, map_map]
  refine map_congr_left fun e he => ?_
  exact (mem_zipIdx_iff_getElem?.mp (mem_of_mem_filter he)).symm

/-- **The removed entries** are the sources of the renames and those left over. -/
theorem PairInv.perm_removed {removed done : List DirectoryEntry} {st : Pairing}
    (h : PairInv removed done st) :
    (st.renamed.map (·.src) ++ (removed.zipIdx.filter fun e => e.2 ∉ st.used).map Prod.fst).Perm
      removed := by
  have hlt : ∀ i ∈ st.used.reverse, i < removed.length := by
    intro i hi
    have hmem := mem_map_of_mem (f := (removed[·]?)) hi
    rw [← h.sources] at hmem
    obtain ⟨e, -, he⟩ := mem_map.mp hmem
    exact (List.getElem?_eq_some_iff.mp he.symm).1
  have hpositions : (st.used.reverse ++ (range removed.length).filter
      fun i => decide (i ∉ st.used)).Perm (range removed.length) := by
    refine (perm_ext_iff_of_nodup (nodup_append.mpr ⟨nodup_reverse.mpr h.used,
      nodup_range.filter _, ?_⟩) nodup_range).mpr fun i => ?_
    · rintro i hi _ hi' rfl
      exact of_decide_eq_true (mem_filter.mp hi').2 (mem_reverse.mp hi)
    · have := hlt i
      simp only [mem_append, mem_reverse, mem_filter, mem_range, decide_eq_true_eq] at this ⊢
      tauto
  have hall : (range removed.length).map (removed[·]?) = removed.map some := by
    refine ext_getElem? fun i => ?_
    grind
  rw [← map_perm_map_iff (Option.some_injective _), map_append, h.sources,
    map_some_filter_zipIdx removed fun i => decide (i ∉ st.used), ← map_append, ← hall]
  exact hpositions.map _

/-- **The added entries** are the targets of the renames and those left over. -/
theorem PairInv.perm_added {removed added : List DirectoryEntry} {st : Pairing}
    (h : PairInv removed added st) (hpaths : (added.map (·.path)).Nodup) :
    (st.renamed.map (·.dst) ++ added.filter fun e => e.path ∉ st.renamed.map (·.dst.path)).Perm
      added := by
  have hnodup := List.Nodup.of_map _ hpaths
  refine (perm_ext_iff_of_nodup (nodup_append.mpr ⟨hnodup.sublist h.targets,
    hnodup.filter _, ?_⟩) hnodup).mpr fun e => ?_
  · rintro e he _ he' rfl
    obtain ⟨r, hr, rfl⟩ := mem_map.mp he
    exact of_decide_eq_true (mem_filter.mp he').2 (mem_map_of_mem hr)
  rw [mem_append, mem_filter, decide_eq_true_eq]
  refine ⟨fun he => he.elim (fun he => h.targets.subset he) And.left, fun he => ?_⟩
  by_cases hp : e.path ∈ st.renamed.map (·.dst.path)
  · obtain ⟨r, hr, hpath⟩ := mem_map.mp hp
    have hdst := mem_map_of_mem (f := Rename.dst) hr
    exact .inl (inj_on_of_nodup_map hpaths (h.targets.subset hdst) he hpath ▸ hdst)
  · exact .inr ⟨he, hp⟩

theorem perm_classes {α : Type} (f : α → Change) (l : List α) :
    (l.filter (f · = .unchanged) ++ (l.filter (f · = .added) ++ l.filter (f · = .modified))).Perm
      l := by
  induction l with
  | nil => exact .nil
  | cons a l ih =>
    cases h : f a with
    | unchanged => simpa [h] using ih
    | added => simpa [h] using perm_middle.trans (ih.cons a)
    | modified =>
      simp only [h, reduceCtorEq, decide_false, decide_true, filter_cons_of_pos,
        not_false_eq_true, filter_cons_of_neg]
      rw [← append_assoc]
      refine perm_middle.trans ?_
      rw [append_assoc]
      exact ih.cons a

/-! ### The lists of a diff -/

/-- Which entries of `left` and `right` a diff from `left` to `right` lists. -/
structure DiffSpec (left right : DirectoryManifest) (d : DirectoryDiff) : Prop where
  added : ∀ e ∈ d.added, e ∈ right.entries ∧ left.lookup e.path = none
  modified : ∀ e, e ∈ d.modified ↔
    e ∈ right.entries ∧ ∃ b, left.lookup e.path = some b ∧ b.identity ≠ e.identity
  removed : ∀ e ∈ d.removed, e ∈ left.entries ∧ right.lookup e.path = none
  renamed : ∀ r ∈ d.renamed, (r.src ∈ left.entries ∧ right.lookup r.src.path = none) ∧
    (r.dst ∈ right.entries ∧ left.lookup r.dst.path = none) ∧
    r.src.identity = r.dst.identity ∧ r.src.kind ≠ .directory
  cover_added : ∀ e ∈ right.entries, left.lookup e.path = none →
    e ∈ d.added ∨ ∃ r ∈ d.renamed, r.dst = e
  cover_removed : ∀ e ∈ left.entries, right.lookup e.path = none →
    e ∈ d.removed ∨ ∃ r ∈ d.renamed, r.src = e

theorem classify_eq_added {left : DirectoryManifest} {e : DirectoryEntry} :
    classify left.entryMap e = .added ↔ left.lookup e.path = none := by
  unfold classify DirectoryManifest.lookup
  cases left.entryMap[e.path]? with
  | none => simp
  | some b =>
    dsimp only
    split <;> simp

theorem classify_eq_modified {left : DirectoryManifest} {e : DirectoryEntry} :
    classify left.entryMap e = .modified ↔ ∃ b, left.lookup e.path = some b ∧ b.identity ≠ e.identity := by
  unfold classify DirectoryManifest.lookup
  cases left.entryMap[e.path]? with
  | none => simp
  | some b =>
    split <;> simp_all

/-- The entries of a manifest at paths the other one does not have. -/
def DirectoryManifest.onlyIn (self other : DirectoryManifest) : List DirectoryEntry :=
  self.entries.filter fun e => e.path ∉ other.entries.map (·.path)

section Diff

variable {ext : Externals} {left right : DirectoryManifest} {d : DirectoryDiff}

theorem lookup_eq_none_iff_notMem (h : Verified ext left) {p : Bytes} :
    left.lookup p = none ↔ p ∉ left.entries.map (·.path) := by
  rw [h.lookup_eq_none_iff, mem_map]
  push Not
  rfl

theorem mem_onlyIn (h : Verified ext left) {e : DirectoryEntry} :
    e ∈ right.onlyIn left ↔ e ∈ right.entries ∧ left.lookup e.path = none := by
  rw [DirectoryManifest.onlyIn, mem_filter, decide_eq_true_eq, lookup_eq_none_iff_notMem h]

theorem filter_added (h : Verified ext left) :
    right.entries.filter (fun e => classify left.entryMap e = .added) = right.onlyIn left :=
  filter_congr fun e _ => by
    rw [decide_eq_decide, classify_eq_added, lookup_eq_none_iff_notMem h]

/-- **When there is a diff**, and what it is computed to. -/
theorem diff_eq_ok : left.diff ext right = .ok d ↔ Verified ext left ∧ Verified ext right ∧
    d = { added := (renameCandidates (right.onlyIn left) (left.onlyIn right)).1
          removed := (renameCandidates (right.onlyIn left) (left.onlyIn right)).2.1
          modified := right.entries.filter fun e => classify left.entryMap e = .modified
          unchanged := right.entries.filter fun e => classify left.entryMap e = .unchanged
          renamed := (renameCandidates (right.onlyIn left) (left.onlyIn right)).2.2 } := by
  unfold DirectoryManifest.diff
  rw [check_bind_eq_ok, check_bind_eq_ok, verify_eq_ok_iff, verify_eq_ok_iff, Except.ok.injEq]
  refine and_congr_right fun hleft => and_congr_right fun hright => ?_
  have hremoved : left.entries.filter (fun e => right.entryMap[e.path]? = none) =
      left.onlyIn right := filter_congr fun e _ => by
    rw [decide_eq_decide]
    exact lookup_eq_none_iff_notMem hright
  rw [hleft.mapValues_entryMap, hright.mapValues_entryMap, filter_added hleft, hremoved]
  exact eq_comm

theorem nodup_paths (h : Verified ext left) : (left.entries.map (·.path)).Nodup :=
  pairwise_map.mpr (pairwise_path_ne h.sorted)

section

variable (h : left.diff ext right = .ok d)
include h

/-- The right entries at paths the left side does not have. -/
theorem perm_added :
    (d.renamed.map (·.dst) ++ d.added).Perm (right.onlyIn left) := by
  obtain ⟨-, hright, rfl⟩ := diff_eq_ok.mp h
  refine .trans (.append_right _ ((perm_insertionSort _ _).map _)) ?_
  exact (pairInv_pairEntries (right.onlyIn left) (left.onlyIn right)).perm_added
    ((nodup_paths hright).sublist ((filter_sublist ..).map _))

/-- The left entries at paths the right side does not have. -/
theorem perm_removed :
    (d.renamed.map (·.src) ++ d.removed).Perm (left.onlyIn right) := by
  obtain ⟨-, -, rfl⟩ := diff_eq_ok.mp h
  refine .trans (.append_right _ ((perm_insertionSort _ _).map _)) ?_
  exact (pairInv_pairEntries (right.onlyIn left) (left.onlyIn right)).perm_removed

/-- **Targets.** Every entry of the right side is in one list of the diff. -/
theorem perm_targets :
    (d.unchanged ++ (d.renamed.map (·.dst) ++ d.added ++ d.modified)).Perm right.entries := by
  refine .trans (.append_left _ (.append_right _ (perm_added h))) ?_
  obtain ⟨hleft, -, rfl⟩ := diff_eq_ok.mp h
  rw [← filter_added hleft]
  exact perm_classes _ _

theorem nodup_targets :
    ((d.renamed.map (·.dst) ++ d.added ++ d.modified).map (·.path)).Nodup := by
  have hall := ((perm_targets h).map (·.path)).nodup_iff.mpr (nodup_paths (diff_eq_ok.mp h).2.1)
  rw [map_append] at hall
  exact hall.of_append_right

theorem nodup_sources :
    ((d.renamed.map (·.src) ++ d.removed).map (·.path)).Nodup :=
  ((perm_removed h).map _).nodup_iff.mpr
    ((nodup_paths (diff_eq_ok.mp h).1).sublist ((filter_sublist ..).map _))

/-- **What a diff contains.** -/
theorem diff_spec :
    Verified ext left ∧ Verified ext right ∧ DiffSpec left right d := by
  have hadded := fun e => (perm_added h).mem_iff (a := e)
  have hremoved := fun e => (perm_removed h).mem_iff (a := e)
  obtain ⟨hleft, hright, hd⟩ := diff_eq_ok.mp h
  simp only [mem_append, mem_map, mem_onlyIn hleft] at hadded
  simp only [mem_append, mem_map, mem_onlyIn hright] at hremoved
  refine ⟨hleft, hright, fun e he => (hadded e).mp (.inr he), fun e => ?_,
    fun e he => (hremoved e).mp (.inr he), fun r hr => ?_,
    fun e he hnone => ((hadded e).mpr ⟨he, hnone⟩).symm,
    fun e he hnone => ((hremoved e).mpr ⟨he, hnone⟩).symm⟩
  · rw [hd, mem_filter, decide_eq_true_eq, classify_eq_modified]
  · refine ⟨(hremoved _).mp (.inl ⟨r, hr, rfl⟩), (hadded _).mp (.inl ⟨r, hr, rfl⟩), ?_⟩
    rw [hd] at hr
    exact (pairInv_pairEntries _ _).renamed r ((perm_insertionSort _ _).mem_iff.mp hr)

end

end Diff

end Rds
