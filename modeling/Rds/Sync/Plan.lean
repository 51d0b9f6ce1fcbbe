import Rds.Framework.KeyedWrites
import Rds.Sync.Reconcile
import Rds.Sync.Snapshot

/-!
# Plans as guarded writes

`WellFormed` spells out what `ReconcilePlan::verify` accepts
(`ReconcilePlan.verify_eq_ok_iff`).

Each operation is a short list of guarded writes to the map from paths to
entries (`ReconcileOperation.writes`): a `Put` creates, a `Replace` overwrites, a
`Delete` removes, a `Move` removes at one path and creates at another. Running
the operations with the preconditions of `project_destination` is running their
writes (`foldlM_applyOperation_iff`), and in a well-formed plan the writes have
distinct keys (`WellFormed.nodup_keys`). What a plan does to a destination is
then read off pointwise by the rules for guarded writes.
-/

namespace Rds

open Framework UnixPath List ReconcileOperation ReconcilePlan

/-! ### Operations as writes -/

namespace ReconcileOperation

/-- The path a `Move` empties. -/
def moveSource : ReconcileOperation → Option Bytes
  | move src _ => some src.path
  | _ => none

/-- The entries whose bytes a plan counts for an operation. -/
def counted : ReconcileOperation → List DirectoryEntry
  | put entry => [entry]
  | replace before after => [before, after]
  | move src dst => [src, dst]
  | delete tombstone => [tombstone.previous]

/-- The guarded writes of an operation. -/
def writes : ReconcileOperation → List (Write Bytes DirectoryEntry)
  | put entry => [⟨entry.path, none, some entry⟩]
  | replace before after => [⟨after.path, some before, some after⟩]
  | move src dst => [⟨src.path, some src, none⟩, ⟨dst.path, none, some dst⟩]
  | delete tombstone => [⟨tombstone.path, some tombstone.previous, none⟩]

theorem mem_keys_writes {op : ReconcileOperation} {p : Bytes} :
    p ∈ op.writes.map Write.key ↔ p = op.path ∨ op.moveSource = some p := by
  cases op with
  | put entry | replace before after => simp [writes, path, moveSource]
  | move src dst =>
    simp only [writes, path, moveSource, map_cons, map_nil, mem_cons,
      not_mem_nil, or_false, Option.some.injEq]
    rw [or_comm, eq_comm (a := src.path)]
  | delete tombstone => simp [writes, path, moveSource]

/-! What `validate` accepts, by kind of operation. -/

theorem validate_replace_eq_ok {before after : DirectoryEntry} :
    (replace before after).validate = .ok () ↔
      before.validate = .ok () ∧ after.validate = .ok () ∧ before.path = after.path ∧
        before.identity ≠ after.identity ∧ before.kind ≠ .directory ∧ after.kind ≠ .directory := by
  simp only [validate, check_bind_eq_ok, ite_throw_eq_ok, not_or, and_true, not_not, and_assoc]

theorem validate_move_eq_ok {src dst : DirectoryEntry} :
    (move src dst).validate = .ok () ↔ src.validate = .ok () ∧ dst.validate = .ok () ∧ src.kind ≠ .directory ∧
        dst.kind ≠ .directory ∧ src.path ≠ dst.path ∧ src.identity = dst.identity := by
  simp only [validate, check_bind_eq_ok, ite_throw_eq_ok, not_or, and_true, not_not, and_assoc]

theorem validate_delete_eq_ok {tombstone : Tombstone} :
    (delete tombstone).validate = .ok () ↔
      tombstone.previous.validate = .ok () ∧ tombstone.previous.path = tombstone.path := by
  simp only [validate, check_bind_eq_ok, ite_throw_eq_ok, and_true, not_not]

end ReconcileOperation

/-! ### Applying operations -/

/-- The partial function a map denotes. -/
def EntryMap.view (entries : EntryMap) (p : Bytes) : Option DirectoryEntry := entries[p]?

theorem EntryMap.view_insert (entries : EntryMap) (p : Bytes) (e : DirectoryEntry) :
    EntryMap.view (entries.insert p e) = Function.update (EntryMap.view entries) p (some e) := by
  funext q
  unfold EntryMap.view
  rw [Std.ExtTreeMap.getElem?_insert, Function.update_apply]
  simp only [Std.LawfulEqCmp.compare_eq_iff_eq, @eq_comm _ q p]

theorem EntryMap.view_erase (entries : EntryMap) (p : Bytes) :
    EntryMap.view (entries.erase p) = Function.update (EntryMap.view entries) p none := by
  funext q
  unfold EntryMap.view
  rw [Std.ExtTreeMap.getElem?_erase, Function.update_apply]
  simp only [Std.LawfulEqCmp.compare_eq_iff_eq, @eq_comm _ q p]

variable {entries : EntryMap}

theorem requirePrevious_eq_ok {previous : DirectoryEntry} :
    requirePrevious entries previous = .ok () ↔ EntryMap.view entries previous.path = some previous := by
  unfold requirePrevious EntryMap.view
  rw [ite_throw_eq_ok, not_not, and_iff_left rfl]

/-- **One operation is its writes.** -/
theorem applyOperation_iff {op : ReconcileOperation}
    (hv : op.validate = .ok ()) {s : Bytes → Option DirectoryEntry} :
    (∃ entries', applyOperation entries op = .ok entries' ∧ EntryMap.view entries' = s) ↔
      runWrites op.writes (EntryMap.view entries) = some s := by
  cases op with
  | put entry =>
    simp only [applyOperation, ite_throw_eq_ok, writes, runWrites]
    change (∃ e', (¬ (EntryMap.view entries entry.path).isSome = true ∧ _) ∧ _) ↔ _
    by_cases hnone : EntryMap.view entries entry.path = none
    · simp [Write.set, EntryMap.view_insert]
    · simp [hnone]
  | replace before after =>
    obtain ⟨-, -, hpath, -⟩ := validate_replace_eq_ok.mp hv
    simp only [applyOperation, check_bind_eq_ok, requirePrevious_eq_ok, writes, runWrites, hpath]
    by_cases hold : EntryMap.view entries after.path = some before
    · simp [Write.set, EntryMap.view_insert]
    · simp [hold]
  | move src dst =>
    obtain ⟨-, -, -, -, hpath, -⟩ := validate_move_eq_ok.mp hv
    simp only [applyOperation, check_bind_eq_ok, requirePrevious_eq_ok, ite_throw_eq_ok, writes, runWrites]
    -- the code tests the target before it empties the source; they differ
    rw [Write.set_of_ne _ _ (Ne.symm hpath)]
    change (∃ e', (_ ∧ ¬ (EntryMap.view entries dst.path).isSome = true ∧ _) ∧ _) ↔ _
    by_cases hold : EntryMap.view entries src.path = some src
    · by_cases hnone : EntryMap.view entries dst.path = none
      · simp [hold, Write.set, EntryMap.view_insert, EntryMap.view_erase]
      · simp [hnone]
    · simp [hold]
  | delete tombstone =>
    obtain ⟨-, hpath⟩ := validate_delete_eq_ok.mp hv
    simp only [applyOperation, check_bind_eq_ok, requirePrevious_eq_ok, writes, runWrites, hpath]
    by_cases hold : EntryMap.view entries tombstone.path = some tombstone.previous
    · simp [Write.set, EntryMap.view_erase]
    · simp [hold]

/-- **A run of operations is the run of their writes.** -/
theorem foldlM_applyOperation_iff {ops : List ReconcileOperation} (hv : ∀ op ∈ ops, op.validate = .ok ())
    {s : Bytes → Option DirectoryEntry} :
    (∃ entries', ops.foldlM applyOperation entries = .ok entries' ∧ EntryMap.view entries' = s) ↔
      runWrites (ops.flatMap (·.writes)) (EntryMap.view entries) = some s := by
  induction ops generalizing entries with
  | nil => simp [runWrites, pure, Except.pure]
  | cons op ops ih =>
    rw [forall_mem_cons] at hv
    rw [flatMap_cons, runWrites_append, Option.bind_eq_some_iff]
    simp only [foldlM_cons, bind_eq_ok]
    constructor
    · rintro ⟨out, ⟨mid, hmid, hrest⟩, hout⟩
      exact ⟨_, (applyOperation_iff hv.1).mp ⟨mid, hmid, rfl⟩, (ih hv.2).mp ⟨out, hrest, hout⟩⟩
    rintro ⟨sMid, hmid, hrest⟩
    obtain ⟨mid, happ, rfl⟩ := (applyOperation_iff hv.1).mpr hmid
    obtain ⟨out, hout, hs⟩ := (ih hv.2).mpr hrest
    exact ⟨out, ⟨mid, happ, hout⟩, hs⟩

/-! ### The canonical order -/

/-- The weak order of sort keys. -/
def SortKey.Le (a b : SortKey) : Prop := ¬ b.Lt a

theorem SortKey.le_iff {a b : SortKey} :
    a.Le b ↔ a.rank < b.rank ∨ a.rank = b.rank ∧
      (b.deleteDepth < a.deleteDepth ∨ a.deleteDepth = b.deleteDepth ∧ a.path ≤ b.path) := by
  unfold SortKey.Le SortKey.Lt
  have hpath : ¬ b.path < a.path ↔ a.path ≤ b.path := Std.not_lt
  grind

theorem SortKey.le_trans {a b c : SortKey} (h : a.Le b) (h' : b.Le c) : a.Le c := by
  rw [SortKey.le_iff] at *
  rcases h with h | ⟨hr, h | ⟨hd, hp⟩⟩
  · omega
  · omega
  rcases h' with h' | ⟨hr', h' | ⟨hd', hp'⟩⟩
  · omega
  · omega
  · exact .inr ⟨hr.trans hr', Or.inr ⟨hd.trans hd', Std.le_trans hp hp'⟩⟩

theorem windows2_operations_iff {ops : List ReconcileOperation} :
    ¬ ((windows2 ops).any fun pair =>
        (operationSortKey pair.2).Lt (operationSortKey pair.1)) = true ↔
      ops.Pairwise fun a b => (operationSortKey a).Le (operationSortKey b) := by
  have htrans : Trans
      (fun a b : ReconcileOperation => (operationSortKey a).Le (operationSortKey b))
      (fun a b : ReconcileOperation => (operationSortKey a).Le (operationSortKey b))
      (fun a b : ReconcileOperation => (operationSortKey a).Le (operationSortKey b)) :=
    ⟨fun h h' => SortKey.le_trans h h'⟩
  rw [← isChain_iff_pairwise, ← forall_windows2_iff_isChain]
  simp only [any_eq_true, decide_eq_true_eq, not_exists, not_and, SortKey.Le]

/-! ### The scanning loop -/

/-- The operation is allowed by the policy and the revision of the plan. -/
def ReconcilePlan.Allows (plan : ReconcilePlan) : ReconcileOperation → Prop
  | .put _ => True
  | .replace _ _ => True
  | .move _ _ => plan.deletePolicy = .delete
  | .delete tombstone =>
    plan.deletePolicy = .delete ∧ tombstone.sourceRevision = plan.sourceRevision

namespace PlanScan

/-- What a scan has accumulated after more operations. -/
def after (st : PlanScan) (ops : List ReconcileOperation) : PlanScan where
  paths := (ops.map (·.path)).reverse ++ st.paths
  moveSources := (ops.filterMap (·.moveSource)).reverse ++ st.moveSources
  dataBytes := st.dataBytes + totalDataBytes (ops.flatMap (·.counted))

theorem after_cons (st : PlanScan) (op : ReconcileOperation) (ops : List ReconcileOperation) :
    st.after (op :: ops) = (st.after [op]).after ops := by
  unfold after
  cases hm : op.moveSource with
  | none | some p => simp [hm, totalDataBytes_append, Nat.add_assoc]

/-- A scan that has met no duplicates and is within its budget. -/
structure Clean (st : PlanScan) : Prop where
  paths : st.paths.Nodup
  moveSources : st.moveSources.Nodup
  dataBytes : st.dataBytes ≤ 2 * maxDirectoryDataBytes

theorem Clean.of_after {st : PlanScan} {ops : List ReconcileOperation}
    (h : (st.after ops).Clean) : st.Clean where
  paths := (List.nodup_append.mp h.paths).2.1
  moveSources := (List.nodup_append.mp h.moveSources).2.1
  dataBytes := (Nat.le_add_right _ _).trans h.dataBytes

end PlanScan

variable {plan : ReconcilePlan}

theorem operationEntries_eq_ok {moveSources : List Bytes}
    {op : ReconcileOperation} {r : List Bytes × List DirectoryEntry} :
    plan.operationEntries moveSources op = .ok r ↔ plan.Allows op ∧ (∀ p ∈ op.moveSource, p ∉ moveSources) ∧
        r = (op.moveSource.toList ++ moveSources, op.counted) := by
  cases op with
  | put entry | replace before after =>
    simp [operationEntries, ReconcilePlan.Allows, moveSource, counted, eq_comm]
  | move src dst | delete tombstone =>
    rw [operationEntries, ite_throw_eq_ok]
    simp [ReconcilePlan.Allows, moveSource, counted, and_assoc, eq_comm]

theorem foldlM_countEntry_eq_ok {entries : List DirectoryEntry} {bytes bytes' : ℕ}
    (hb : bytes ≤ 2 * maxDirectoryDataBytes) :
    entries.foldlM ReconcilePlan.countEntry bytes = .ok bytes' ↔
      bytes + totalDataBytes entries ≤ 2 * maxDirectoryDataBytes ∧
        bytes' = bytes + totalDataBytes entries := by
  induction entries generalizing bytes with
  | nil => simp [pure, Except.pure, hb, eq_comm]
  | cons e entries ih =>
    have hlimit : 2 * maxDirectoryDataBytes < usizeMax := by decide
    have hsum := totalDataBytes_cons e entries
    rw [foldlM_cons, bind_eq_ok]
    simp only [countEntry, ite_throw_eq_ok, Nat.not_lt, addDataBytes_le_iff hlimit, Except.ok.injEq]
    constructor
    · rintro ⟨mid, ⟨hle, rfl⟩, hrest⟩
      rw [addDataBytes_eq hlimit hle, ih hle] at hrest
      omega
    rintro ⟨htotal, rfl⟩
    have hle : bytes + e.dataBytes ≤ 2 * maxDirectoryDataBytes := by omega
    refine ⟨_, ⟨hle, rfl⟩, ?_⟩
    rw [addDataBytes_eq hlimit hle, ih hle]
    omega

/-- **One iteration of the scan.** -/
theorem scanOperation_eq_ok {st st' : PlanScan} (hst : st.Clean) {op : ReconcileOperation} :
    plan.scanOperation st op = .ok st' ↔
      op.validate = .ok () ∧ plan.Allows op ∧ (st.after [op]).Clean ∧ st' = st.after [op] := by
  unfold scanOperation
  rw [check_bind_eq_ok, ite_throw_eq_ok]
  simp only [operationEntries_eq_ok, bind_eq_ok, Except.ok.injEq]
  have hsources : (op.moveSource.toList ++ st.moveSources).Nodup ↔
      ∀ p ∈ op.moveSource, p ∉ st.moveSources := by
    cases hm : op.moveSource with
    | none | some p => simp [hst.moveSources]
  have hafter : st.after [op] = ⟨op.path :: st.paths, op.moveSource.toList ++ st.moveSources,
      st.dataBytes + totalDataBytes op.counted⟩ := by
    unfold PlanScan.after
    cases hm : op.moveSource with
    | none | some p => simp [hm]
  rw [hafter]
  constructor
  · rintro ⟨hv, hp, _, ⟨hallow, hsrc, rfl⟩, bytes, hbytes, rfl⟩
    rw [foldlM_countEntry_eq_ok hst.dataBytes] at hbytes
    obtain ⟨hle, rfl⟩ := hbytes
    exact ⟨hv, hallow, ⟨nodup_cons.mpr ⟨hp, hst.paths⟩, hsources.mpr hsrc, hle⟩, rfl⟩
  · rintro ⟨hv, hallow, hclean, rfl⟩
    exact ⟨hv, (nodup_cons.mp hclean.paths).1, _, ⟨hallow, hsources.mp hclean.moveSources, rfl⟩,
      _, (foldlM_countEntry_eq_ok hst.dataBytes).mpr ⟨hclean.dataBytes, rfl⟩, rfl⟩

/-- **The scan of all operations.** -/
theorem foldlM_scanOperation_eq_ok {ops : List ReconcileOperation} {st st' : PlanScan} (hst : st.Clean) :
    ops.foldlM plan.scanOperation st = .ok st' ↔
      (∀ op ∈ ops, op.validate = .ok ()) ∧ (∀ op ∈ ops, plan.Allows op) ∧
        (st.after ops).Clean ∧ st' = st.after ops := by
  induction ops generalizing st with
  | nil => simp [pure, Except.pure, PlanScan.after, hst, eq_comm]
  | cons op ops ih =>
    rw [foldlM_cons, bind_eq_ok, forall_mem_cons, forall_mem_cons, PlanScan.after_cons]
    simp only [scanOperation_eq_ok hst]
    constructor
    · rintro ⟨mid, ⟨hv, hallow, hclean, rfl⟩, hrest⟩
      obtain ⟨hvs, hallows, hfinal, rfl⟩ := (ih hclean).mp hrest
      exact ⟨⟨hv, hvs⟩, ⟨hallow, hallows⟩, hfinal, rfl⟩
    · rintro ⟨⟨hv, hvs⟩, ⟨hallow, hallows⟩, hfinal, rfl⟩
      have hclean := hfinal.of_after
      exact ⟨_, ⟨hv, hallow, hclean, rfl⟩, (ih hclean).mpr ⟨hvs, hallows, hfinal, rfl⟩⟩

/-! ### What `verify` accepts -/

/-- What `ReconcilePlan::verify` accepts. -/
structure WellFormed (plan : ReconcilePlan) : Prop where
  count : plan.operations.length ≤ maxDirectoryEntries * 2
  valid : ∀ op ∈ plan.operations, op.validate = .ok ()
  allowed : ∀ op ∈ plan.operations, plan.Allows op
  nodup_paths : (plan.operations.map (·.path)).Nodup
  nodup_sources : (plan.operations.filterMap (·.moveSource)).Nodup
  disjoint : ∀ p ∈ plan.operations.map (·.path), p ∉ plan.operations.filterMap (·.moveSource)
  bytes : totalDataBytes (plan.operations.flatMap (·.counted)) ≤ 2 * maxDirectoryDataBytes
  sorted : plan.operations.Pairwise fun a b => (operationSortKey a).Le (operationSortKey b)

/-- **`verify` accepts exactly the well-formed plans.** -/
theorem ReconcilePlan.verify_eq_ok_iff :
    plan.verify = .ok () ↔ WellFormed plan := by
  have hinit : PlanScan.Clean ⟨[], [], 0⟩ := ⟨nodup_nil, nodup_nil, Nat.zero_le _⟩
  unfold verify
  rw [ite_throw_eq_ok, bind_eq_ok, Nat.not_lt]
  simp only [foldlM_scanOperation_eq_ok hinit, ite_throw_eq_ok, windows2_operations_iff]
  constructor
  · rintro ⟨hcount, _, ⟨hv, hallow, hclean, rfl⟩, hdisj, hsorted, -⟩
    have hpaths := hclean.paths
    have hsources := hclean.moveSources
    have hbytes := hclean.dataBytes
    simp only [PlanScan.after, append_nil, nodup_reverse, Nat.zero_add] at hpaths hsources hbytes
    simp only [PlanScan.after, append_nil, mem_reverse, not_exists, not_and] at hdisj
    exact ⟨hcount, hv, hallow, hpaths, hsources, hdisj, hbytes, hsorted⟩
  · intro h
    refine ⟨h.count, _, ⟨h.valid, h.allowed, ⟨?_, ?_, ?_⟩, rfl⟩, ?_, h.sorted, trivial⟩
    · simpa [PlanScan.after] using h.nodup_paths
    · simpa [PlanScan.after] using h.nodup_sources
    · simpa [PlanScan.after] using h.bytes
    · simpa [PlanScan.after] using h.disjoint

/-- **The writes of a well-formed plan have distinct keys.** -/
theorem WellFormed.nodup_keys (h : WellFormed plan) :
    ((plan.operations.flatMap (·.writes)).map Write.key).Nodup := by
  rw [map_flatMap, nodup_flatMap]
  constructor
  · intro op hop
    cases op with
    | put entry | replace before after => simp [writes]
    | move src dst =>
      obtain ⟨-, -, -, -, hpath, -⟩ := validate_move_eq_ok.mp (h.valid _ hop)
      simpa [writes] using hpath
    | delete tombstone => simp [writes]
  have hpaths := pairwise_map.mp h.nodup_paths
  have hsources := pairwise_filterMap.mp h.nodup_sources
  refine ((hpaths.and hsources).imp_of_mem ?_)
  rintro a b ha hb ⟨hne, hsrc⟩ p hpa hpb
  rw [mem_keys_writes] at hpa hpb
  -- a key of both would be a repeated target, a repeated source, or a target
  -- of one and the source of the other
  have hsource : ∀ op ∈ plan.operations, op.moveSource = some p →
      p ∈ plan.operations.filterMap (·.moveSource) :=
    fun op hop hm => mem_filterMap.mpr ⟨op, hop, hm⟩
  rcases hpa with rfl | hpa <;> rcases hpb with hpb | hpb
  · exact hne hpb
  · exact h.disjoint _ (mem_map_of_mem ha) (hsource b hb hpb)
  · exact h.disjoint _ (hpb ▸ mem_map_of_mem hb) (hsource a ha hpa)
  · exact hsrc p hpa p hpb rfl

end Rds
