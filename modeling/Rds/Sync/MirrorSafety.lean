import Rds.Sync.Mirror

/-!
# Every prefix of a one-way plan is safe

A plan is executed one operation at a time, so what holds between two operations
matters as much as the result. After any prefix of a one-way plan the destination
is a tree, the next operation finds its preconditions, and a directory is removed
only when nothing is left below it (`oneWay_prefix_safe`).

After a prefix a path holds the mirror's entry if the prefix has written it and
the destination's entry otherwise (`OneWayPlan.partway_eq`). The order of the
operations says which paths are written together: a directory is created before
anything is written below it (`lt_of_put_directory`), and everything below a
directory is gone before it is deleted (`exists_removal_lt`).
-/

namespace Rds

open Framework UnixPath List ReconcileOperation

/-! ### The preconditions of an operation -/

/-- What an operation must find: a target that is absent, entries that are
present, and nothing below a directory it deletes. -/
def ReconcileOperation.Ready (entries : EntryMap) : ReconcileOperation → Prop
  | put e => entries[e.path]? = none
  | replace before _ => entries[before.path]? = some before
  | move src dst => entries[src.path]? = some src ∧ entries[dst.path]? = none
  | delete t => entries[t.previous.path]? = some t.previous ∧
      (t.previous.kind = .directory → ∀ p, Below t.previous.path p → entries[p]? = none)

/-! ### What the order of the operations says -/

theorem mem_of_key_lt {done rest : List ReconcileOperation} {op op' : ReconcileOperation}
    (hsorted : (done ++ op :: rest).Pairwise fun a b =>
      (operationSortKey a).Le (operationSortKey b)) (hmem : op' ∈ done ++ op :: rest)
    (hlt : (operationSortKey op').Lt (operationSortKey op)) : op' ∈ done := by
  rcases mem_append.mp hmem with hdone | hrest
  · exact hdone
  have hle := (pairwise_append.mp hsorted).2.1
  rcases mem_cons.mp hrest with rfl | hrest
  · -- the order is irreflexive
    rcases hlt with hlt | ⟨-, hlt | ⟨-, hlt⟩⟩
    · exact absurd hlt (lt_irrefl _)
    · exact absurd hlt (lt_irrefl _)
    · exact absurd hlt Std.lt_irrefl
  · exact absurd hlt ((pairwise_cons.mp hle).1 op' hrest)

/-- A directory is put before anything happens below it. -/
theorem lt_of_put_directory {d : DirectoryEntry} (hd : d.kind = .directory)
    {op : ReconcileOperation} {p : Bytes} (hp : p = op.path ∨ op.moveSource = some p)
    (hbelow : Below d.path p) :
    (operationSortKey (.put d)).Lt (operationSortKey op) := by
  have hrank : (operationSortKey (.put d)).rank = 0 := if_pos hd
  have hdepth : (operationSortKey (.put d)).deleteDepth = 0 := by
    simp [operationSortKey, operationRank, hd]
  by_cases hop : operationRank op = 0
  · -- only the creation of a directory has rank 0, and paths increase downwards
    have hpath : p = op.path := by
      cases op with
      | move src dst => exact absurd hop (by simp [operationRank])
      | put e | replace b a | delete t =>
        exact hp.resolve_right (by simp [moveSource])
    obtain ⟨r, hr⟩ := hbelow
    refine .inr ⟨hrank.trans hop.symm, Or.inr ⟨hdepth.trans ?_, ?_⟩⟩
    · simp [operationSortKey, hop]
    · change d.path < op.path
      rw [← hpath, hr]
      exact lt_append_cons d.path slash r
  · exact .inl (hrank ▸ Nat.pos_of_ne_zero hop)

namespace OneWayPlan

variable {ext : Externals} {source destination : DirectoryManifest} {plan : ReconcilePlan}

theorem put_mem (h : OneWayPlan ext source destination plan) {q : Bytes} {d : DirectoryEntry}
    (hs : source.lookup q = some d) (hk : d.kind = .directory)
    (hd : destination.lookup q ≠ some d) : .put d ∈ plan.operations := by
  have hnone : destination.lookup q = none := by
    cases hq : destination.lookup q with
    | none => rfl
    | some b => exact absurd (h.directory_stable hs hq (Or.inl hk) ▸ hq) hd
  obtain ⟨op, hop, hq⟩ := ReconcilePlan.mem_keys.mp
    (h.cover (p := q) ((mirror_of_source hs).symm ▸ hd))
  rcases (h.fits op hop).at_path hq with ⟨e, hs', -, hput⟩ | ⟨_, _, -, hsome, -⟩ | ⟨_, hnone', -⟩
  · obtain rfl : d = e := Option.some.inj (hs.symm.trans hs')
    rcases hput with rfl | ⟨x, rfl⟩
    · exact hop
    -- the target of a move is no directory
    obtain ⟨-, -, -, hk', -⟩ := validate_move_eq_ok.mp
      (h.wellFormed.valid _ hop)
    exact absurd hk hk'
  · exact absurd (hnone.symm.trans hsome) (by simp)
  · exact absurd (hs.symm.trans hnone') (by simp)

theorem source_below_delete (h : OneWayPlan ext source destination plan) {t : Tombstone}
    (ht : .delete t ∈ plan.operations) {p : Bytes} (hbelow : Below t.path p) :
    source.lookup p = none := by
  cases hs : source.lookup p with
  | none => rfl
  | some x =>
    obtain ⟨y, hy, -⟩ := h.source_verified.isTree.ancestor hs hbelow
    exact absurd (hy.symm.trans (h.fits _ ht).1) (by simp)

/-- What lies below a directory that is deleted is removed by an earlier
operation. -/
theorem exists_removal_lt (h : OneWayPlan ext source destination plan) {t : Tombstone}
    (ht : .delete t ∈ plan.operations) (hk : t.previous.kind = .directory) {p : Bytes}
    (hbelow : Below t.path p) {e : DirectoryEntry} (hp : destination.lookup p = some e) :
    ∃ op ∈ plan.operations, (p = op.path ∨ op.moveSource = some p) ∧
      (operationSortKey op).Lt (operationSortKey (.delete t)) := by
  have hpolicy : plan.deletePolicy = .delete := (h.wellFormed.allowed _ ht).1
  have hsource := h.source_below_delete ht hbelow
  obtain ⟨op, hop, hq⟩ := ReconcilePlan.mem_keys.mp (h.cover (p := p) (by
    rw [hpolicy, hp]
    simp [mirror, hsource]))
  refine ⟨op, hop, hq, ?_⟩
  have hrank : (operationSortKey (.delete t)).rank = 5 := by
    simp [operationSortKey, operationRank, hk]
  rcases (h.fits op hop).at_path hq with ⟨_, hsome, -⟩ | ⟨_, _, hsome, -⟩ | ⟨e', -, -, hrem⟩
  · exact absurd (hsource.symm.trans hsome) (by simp)
  · exact absurd (hsource.symm.trans hsome) (by simp)
  rcases hrem with ⟨t', rfl, rfl, -⟩ | ⟨x, rfl⟩
  · by_cases hk' : t'.previous.kind = .directory
    · -- both are directories: the deeper one goes first
      obtain ⟨r, hr⟩ := hbelow
      have hdepth := length_splitOn_append_cons slash t.path r
      rw [← hr] at hdepth
      refine .inr ⟨hrank ▸ ?_, Or.inl ?_⟩
      · simp [operationSortKey, operationRank, hk']
      · simpa [operationSortKey, operationRank, hk, hk', path] using hdepth
    · exact .inl (hrank ▸ by simp [operationSortKey, operationRank, hk'])
  · exact .inl (hrank ▸ by simp [operationSortKey, operationRank])

end OneWayPlan

/-! ### After a prefix -/

/-- Some operation of the list touches the path. -/
def Touched (ops : List ReconcileOperation) (p : Bytes) : Prop :=
  ∃ op ∈ ops, p = op.path ∨ op.moveSource = some p

theorem touched_iff_mem_keys {ops : List ReconcileOperation} {p : Bytes} :
    Touched ops p ↔ p ∈ (ops.flatMap (·.writes)).map Write.key := by
  rw [map_flatMap, mem_flatMap]
  simp only [mem_keys_writes, Touched]

namespace OneWayPlan

variable {ext : Externals} {source destination : DirectoryManifest} {plan : ReconcilePlan}
  {done rest : List ReconcileOperation}

section

variable (h : OneWayPlan ext source destination plan)
include h

theorem partway_eq (hsplit : plan.operations = done ++ rest) (p : Bytes) :
    (Touched done p ∧ overwrite (done.flatMap (·.writes)) destination.lookup p =
        mirror plan.deletePolicy source.lookup destination.lookup p) ∨
      (¬ Touched done p ∧
        overwrite (done.flatMap (·.writes)) destination.lookup p = destination.lookup p) := by
  have hnodup := h.wellFormed.nodup_keys
  have hspec := fun w => h.write_spec (w := w)
  rw [hsplit, flatMap_append] at hnodup hspec
  rw [map_append] at hnodup
  by_cases hp : Touched done p
  · refine .inl ⟨hp, ?_⟩
    obtain ⟨w, hw, rfl⟩ := mem_map.mp (touched_iff_mem_keys.mp hp)
    rw [overwrite_of_mem (nodup_append.mp hnodup).1 hw]
    exact (hspec w (mem_append_left _ hw)).2.symm
  · exact .inr ⟨hp, overwrite_of_notMem fun hmem => hp (touched_iff_mem_keys.mpr hmem)⟩

theorem run_prefix (hsplit : plan.operations = done ++ rest) :
    ∃ entries, done.foldlM applyOperation destination.entryMap = .ok entries ∧
      EntryMap.view entries = overwrite (done.flatMap (·.writes)) destination.lookup := by
  have hvalid : ∀ op ∈ done, op.validate = .ok () := fun op hop =>
    h.wellFormed.valid op (hsplit ▸ mem_append_left rest hop)
  have hnodup := h.wellFormed.nodup_keys
  rw [hsplit, flatMap_append, map_append] at hnodup
  rw [foldlM_applyOperation_iff hvalid, runWrites_eq_some_iff (nodup_append.mp hnodup).1]
  refine ⟨fun w hw => (h.write_spec ?_).1, rfl⟩
  rw [hsplit, flatMap_append]
  exact mem_append_left _ hw

theorem mem_done_of_lt
    (hsplit : plan.operations = done ++ rest) {op op' : ReconcileOperation} (hop : op ∈ done)
    (hop' : op' ∈ plan.operations)
    (hlt : (operationSortKey op').Lt (operationSortKey op)) : op' ∈ done := by
  obtain ⟨before, after, rfl⟩ := append_of_mem hop
  have hsorted := h.wellFormed.sorted
  rw [hsplit, append_assoc] at hsorted hop'
  exact mem_append_left _ (mem_of_key_lt hsorted hop' hlt)

/-- **After every prefix the destination is a tree.** -/
theorem isTree_partway (hsplit : plan.operations = done ++ rest) :
    IsTree (overwrite (done.flatMap (·.writes)) destination.lookup) := by
  have hdst := h.destination_verified.isTree
  have hmirror := h.isTree_mirror
  constructor
  · intro p e hp
    rcases h.partway_eq hsplit p with ⟨-, heq⟩ | ⟨-, heq⟩
    · exact hmirror.path_eq (heq ▸ hp)
    · exact hdst.path_eq (heq ▸ hp)
  intro p e q n hp hq
  rcases h.partway_eq hsplit p with ⟨htouched, heq⟩ | ⟨hfree, heq⟩
  · -- written: the mirror has the parent, and a new parent is created first
    obtain ⟨d, hd, hk⟩ := hmirror.parent (heq ▸ hp) hq
    refine ⟨d, ?_, hk⟩
    rcases h.partway_eq hsplit q with ⟨-, heq'⟩ | ⟨hfree', heq'⟩
    · exact heq'.trans hd
    refine heq'.trans (not_not.mp fun hne => hfree' ?_)
    have hs : source.lookup q = some d := by
      cases hpolicy : plan.deletePolicy with
      | delete =>
        rw [hpolicy] at hd
        exact hd
      | keep =>
        rw [hpolicy] at hd
        exact (Option.or_eq_some_iff.mp hd).resolve_right fun hdest => hne hdest.2
    obtain ⟨op, hop, hpop⟩ := htouched
    obtain rfl := h.source_verified.isTree.path_eq hs
    have hlt := lt_of_put_directory hk hpop (below_of_rsplitOnce hq)
    exact ⟨_, h.mem_done_of_lt hsplit hop (h.put_mem hs hk hne) hlt, Or.inl rfl⟩
  -- not written: the destination has the parent, and it is deleted later
  obtain ⟨d, hd, hk⟩ := hdst.parent (heq ▸ hp) hq
  rcases h.partway_eq hsplit q with ⟨⟨op, hop, hqop⟩, heq'⟩ | ⟨-, heq'⟩
  · refine ⟨d, heq'.trans ?_, hk⟩
    have hmem : op ∈ plan.operations := hsplit ▸ mem_append_left rest hop
    rcases (h.fits op hmem).at_path hqop with
      ⟨_, -, hnone, -⟩ | ⟨e', b, hs, hd', -⟩ | ⟨e', -, hd', hrem⟩
    · exact absurd (hd.symm.trans hnone) (by simp)
    · exact mirror_of_source (h.directory_stable hs hd (Or.inr hk) ▸ hs)
    obtain rfl : d = e' := Option.some.inj (hd.symm.trans hd')
    rcases hrem with ⟨t, rfl, rfl, rfl⟩ | ⟨x, rfl⟩
    · obtain ⟨op', hop', hpop', hlt⟩ := h.exists_removal_lt hmem hk
        (below_of_rsplitOnce hq) (heq ▸ hp)
      exact absurd ⟨op', h.mem_done_of_lt hsplit hop hop' hlt, hpop'⟩ hfree
    · obtain ⟨-, -, hk', -⟩ := validate_move_eq_ok.mp
        (h.wellFormed.valid _ hmem)
      exact absurd hk hk'
  · exact ⟨d, heq'.trans hd, hk⟩

/-- **The next operation finds its preconditions.** -/
theorem ready_next {op : ReconcileOperation}
    (hsplit : plan.operations = done ++ op :: rest) {entries : EntryMap}
    (hview : EntryMap.view entries = overwrite (done.flatMap (·.writes)) destination.lookup) :
    op.Ready entries := by
  have hmem : op ∈ plan.operations := by simp [hsplit]
  have hvalid := h.wellFormed.valid op hmem
  -- the keys of this operation are still untouched
  have hguard : ∀ w ∈ op.writes, EntryMap.view entries w.key = w.old := by
    intro w hw
    have hkey : w.key ∉ (done.flatMap (·.writes)).map Write.key := by
      have hnodup := h.wellFormed.nodup_keys
      rw [hsplit, flatMap_append, map_append] at hnodup
      refine fun hin => (nodup_append.mp hnodup).2.2 _ hin _ ?_ rfl
      rw [flatMap_cons, map_append]
      exact mem_append_left _ (mem_map_of_mem hw)
    rw [hview, overwrite_of_notMem hkey]
    exact (h.write_spec (mem_flatMap.mpr ⟨op, hmem, hw⟩)).1
  cases op with
  | put e => exact hguard _ mem_cons_self
  | replace b a =>
    obtain ⟨-, -, hpath, -⟩ := validate_replace_eq_ok.mp hvalid
    have hold := hguard _ mem_cons_self
    rw [← hpath] at hold
    exact hold
  | move e e' =>
    exact ⟨hguard _ mem_cons_self, hguard _ (mem_cons_of_mem _ mem_cons_self)⟩
  | delete t =>
    obtain ⟨-, hpath⟩ := validate_delete_eq_ok.mp hvalid
    have hold := hguard _ mem_cons_self
    rw [← hpath] at hold
    refine ⟨hold, fun hk p hbelow => ?_⟩
    rw [hpath] at hbelow
    change EntryMap.view entries p = none
    rw [hview]
    rcases h.partway_eq hsplit p with ⟨-, heq⟩ | ⟨hfree, heq⟩
    · rw [heq, (h.wellFormed.allowed _ hmem).1]
      exact h.source_below_delete hmem hbelow
    cases hp : destination.lookup p with
    | none => exact heq.trans hp
    | some e =>
      obtain ⟨op', hop', hpop', hlt⟩ := h.exists_removal_lt hmem hk hbelow hp
      have hsorted := h.wellFormed.sorted
      rw [hsplit] at hsorted hop'
      exact absurd ⟨op', mem_of_key_lt hsorted hop' hlt, hpop'⟩ hfree

end

end OneWayPlan

/-- **Every prefix of a one-way plan is safe.** Executed on its destination in
the listed order, under either policy, the plan passes through trees only, and
every operation finds what it requires: an absent target, the entries it names,
and nothing below a directory it deletes. -/
theorem oneWay_prefix_safe (ext : Externals) (source destination : DirectoryManifest)
    (policy : DeletePolicy) (plan : ReconcilePlan)
    (h : ReconcilePlan.oneWay ext source destination policy = .ok plan)
    (done rest : List ReconcileOperation) (hsplit : plan.operations = done ++ rest) :
    ∃ entries, done.foldlM applyOperation destination.entryMap = .ok entries ∧
      IsTree (EntryMap.view entries) ∧ ∀ op ∈ rest.head?, op.Ready entries := by
  obtain ⟨hplan, -⟩ := oneWay_spec h
  obtain ⟨entries, hrun, hview⟩ := hplan.run_prefix hsplit
  refine ⟨entries, hrun, hview ▸ hplan.isTree_partway hsplit, fun op hop => ?_⟩
  obtain ⟨rest', rfl⟩ := head?_eq_some_iff.mp hop
  exact hplan.ready_next hsplit hview

theorem oneWay_prefix_safe_treePlan :
    ReconcilePlan.oneWay treeExternals sourceTree destinationTree .delete = .ok treePlan ∧
      ∃ entries, (treePlan.operations.take 2).foldlM applyOperation destinationTree.entryMap =
          .ok entries ∧ IsTree (EntryMap.view entries) ∧
        ∀ op ∈ (treePlan.operations.drop 2).head?, op.Ready entries :=
  have h : ReconcilePlan.oneWay treeExternals sourceTree destinationTree .delete =
    .ok treePlan := by decide +kernel
  ⟨h, oneWay_prefix_safe _ _ _ _ _ h _ _ (take_append_drop 2 _).symm⟩

end Rds
