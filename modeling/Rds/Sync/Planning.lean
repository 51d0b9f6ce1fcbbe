import Rds.Sync.Canonical

/-!
# Planning: order, success and fixed points

Three facts about one-way plans that a peer may rely on.

*Order.* The writes of a plan that passes `verify` have distinct keys, so its
operations may run in any order (`applied_perm`). This uses nothing of `one_way`;
it holds for a plan that a peer made up.

*Success.* `diff` lists each entry of the source and of the destination at most
once. The plan built from it therefore has distinct targets, distinct
move sources, and counts no more bytes than the two manifests have together. The
sort puts it in order. Of the checks of `verify` only the one that refuses to
replace a directory is left, and it fails exactly if some path is a directory on
one side only (`oneWay_ok_iff`).

*Fixed point.* The projection of a plan is the mirror, and planning towards a
destination that is already the mirror leaves nothing to do.
-/

namespace Rds

open Framework UnixPath List ReconcilePlan ReconcileOperation

/-! ### The order of operations -/

theorem EntryMap.ext_view {a b : EntryMap} (h : EntryMap.view a = EntryMap.view b) : a = b :=
  Std.ExtTreeMap.ext_getElem? fun p => congrFun h p

/-- **Operations commute.** Two orders of the operations of a plan that passes
`verify` either both fail or give the same map, whatever the map they start
from. -/
theorem applied_perm (plan : ReconcilePlan) (h : plan.verify = .ok ())
    (destination : DirectoryManifest) (ops ops' : List ReconcileOperation)
    (hp : ops.Perm plan.operations) (hp' : ops'.Perm plan.operations) (entries : EntryMap) :
    ops.foldlM applyOperation destination.entryMap = .ok entries ↔
      ops'.foldlM applyOperation destination.entryMap = .ok entries := by
  have hwf := ReconcilePlan.verify_eq_ok_iff.mp h
  -- a run in either order is a run of the plan's writes
  have hrun : ∀ ops : List ReconcileOperation, ops.Perm plan.operations →
      (ops.foldlM applyOperation destination.entryMap = .ok entries ↔
        runWrites (plan.operations.flatMap (·.writes)) (EntryMap.view destination.entryMap) =
          some (EntryMap.view entries)) := by
    intro ops hp
    have hvalid : ∀ op ∈ ops, op.validate = .ok () :=
      fun op hop => hwf.valid op (hp.mem_iff.mp hop)
    have hwrites : (plan.operations.flatMap (·.writes)).Perm (ops.flatMap (·.writes)) :=
      (hp.symm.flatMap_right _)
    rw [runWrites_perm hwrites hwf.nodup_keys, ← foldlM_applyOperation_iff hvalid]
    constructor
    · intro hfold
      exact ⟨entries, hfold, rfl⟩
    · rintro ⟨entries', hfold, hview⟩
      rw [hfold, EntryMap.ext_view hview]
  rw [hrun ops hp, hrun ops' hp']

theorem applied_perm_treePlan :
    treePlan.verify = .ok () ∧ ∀ entries,
      treePlan.operations.reverse.foldlM applyOperation destinationTree.entryMap = .ok entries ↔
        treePlan.operations.foldlM applyOperation destinationTree.entryMap = .ok entries :=
  have h : treePlan.verify = .ok () := by decide +kernel
  ⟨h, applied_perm treePlan h destinationTree _ _ (reverse_perm _) (List.Perm.refl _)⟩

/-! ### The operations that are built -/

/-- What the destination holds at the path of a modified entry. -/
def heldBefore (destination : DirectoryManifest) (e : DirectoryEntry) : DirectoryEntry :=
  (destination.lookup e.path).getD e

/-- The operations that `one_way` builds from a diff, before they are sorted. -/
def builtOperations (source destination : DirectoryManifest) (policy : DeletePolicy)
    (d : DirectoryDiff) : List ReconcileOperation :=
  d.renamed.map (ReconcilePlan.renameOperation policy) ++ d.added.map .put ++
    d.modified.map (fun e => .replace (heldBefore destination e) e) ++
    if policy = .delete then d.removed.map fun e => .delete ⟨e.path, e, ⟨source.root⟩⟩ else []

/-- The plan that `one_way` builds from a diff, before its operations are sorted. -/
def builtPlan (source destination : DirectoryManifest) (policy : DeletePolicy)
    (d : DirectoryDiff) : ReconcilePlan where
  sourceRevision := ⟨source.root⟩
  expectedDestinationRevision := ⟨destination.root⟩
  deletePolicy := policy
  operations := builtOperations source destination policy d

section Built

variable {ext : Externals} {source destination : DirectoryManifest} {policy : DeletePolicy}
  {d : DirectoryDiff}

theorem lookup_heldBefore (hspec : DiffSpec destination source d) {e : DirectoryEntry}
    (he : e ∈ d.modified) :
    destination.lookup e.path = some (heldBefore destination e) ∧
      (heldBefore destination e).identity ≠ e.identity := by
  obtain ⟨-, b, hb, hid⟩ := (hspec.modified e).mp he
  unfold heldBefore
  rw [hb]
  exact ⟨rfl, hid⟩

/-- **`one_way` on verified manifests** sorts and verifies the plan it built. -/
theorem exists_oneWay_eq (hs : Verified ext source) (hd : Verified ext destination) :
    ∃ d, destination.diff ext source = .ok d ∧ ∀ policy, ReconcilePlan.oneWay ext source destination policy =
        (builtPlan source destination policy d).canonicalizeAndVerify := by
  obtain ⟨d, hdiff⟩ : ∃ d, destination.diff ext source = .ok d :=
    ⟨_, diff_eq_ok.mpr ⟨hd, hs, rfl⟩⟩
  obtain ⟨-, -, hspec⟩ := diff_spec hdiff
  have hreplaces : d.modified.mapM (replaceOperation destination) =
      .ok (d.modified.map fun e => .replace (heldBefore destination e) e) := by
    rw [mapM_eq_ok_iff, forall₂_map_right_iff, forall₂_same]
    intro e he
    exact (replaceOperation_eq_ok hd).mpr ⟨_, (lookup_heldBefore hspec he).1, rfl⟩
  refine ⟨d, hdiff, fun policy => ?_⟩
  unfold oneWay
  rw [Revision.fromManifest_eq_ok.mpr ⟨hs, rfl⟩, Revision.fromManifest_eq_ok.mpr ⟨hd, rfl⟩, hdiff]
  change (d.modified.mapM (replaceOperation destination) >>= _) = _
  rw [hreplaces]
  rfl

/-! The entries that an operation takes from the source and from the destination. -/

theorem map_path_builtOperations (source destination : DirectoryManifest) (policy : DeletePolicy)
    (d : DirectoryDiff) :
    (builtOperations source destination policy d).map (·.path) =
      (d.renamed.map (·.dst) ++ d.added ++ d.modified).map (·.path) ++
        if policy = .delete then d.removed.map (·.path) else [] := by
  unfold builtOperations
  simp only [map_append, map_map]
  cases policy with
  | keep => rfl
  | delete => simp only [if_true, map_map]; rfl

theorem filterMap_moveSource_builtOperations (source destination : DirectoryManifest)
    (policy : DeletePolicy) (d : DirectoryDiff) :
    (builtOperations source destination policy d).filterMap (·.moveSource) =
      if policy = .delete then d.renamed.map (·.src.path) else [] := by
  unfold builtOperations
  cases policy with
  | keep | delete =>
    simp [Function.comp_def, renameOperation, moveSource]

theorem totalDataBytes_builtOperations_le (source destination : DirectoryManifest)
    (policy : DeletePolicy) (d : DirectoryDiff) :
    totalDataBytes ((builtOperations source destination policy d).flatMap (·.counted)) ≤
      totalDataBytes (d.renamed.map (·.dst) ++ d.added ++ d.modified) +
        totalDataBytes (d.renamed.map (·.src) ++ d.removed ++ d.modified.map (heldBefore destination)) := by
  have hflat : ∀ {α : Type} (l : List α) (f : α → ReconcileOperation),
      totalDataBytes ((l.map f).flatMap (·.counted)) = (l.map fun a => totalDataBytes (f a).counted).sum := by
    intro α l f
    induction l with
    | nil => rfl
    | cons a l ih =>
      rw [map_cons, flatMap_cons, totalDataBytes_append, ih, map_cons, sum_cons]
  have hmap : ∀ {α : Type} (l : List α) (f : α → DirectoryEntry),
      totalDataBytes (l.map f) = (l.map fun a => (f a).dataBytes).sum := by
    intro α l f
    rw [totalDataBytes, map_map]
    rfl
  have hself : ∀ l : List DirectoryEntry, totalDataBytes l = (l.map fun e => e.dataBytes).sum := fun l => rfl
  have hmodified : (d.modified.map DirectoryEntry.dataBytes).sum =
      (d.modified.map fun e => e.dataBytes).sum := rfl
  unfold builtOperations
  simp only [flatMap_append, totalDataBytes_append, hflat, hmap]
  cases policy with
  | keep =>
    simp only [renameOperation, if_true, reduceCtorEq, if_false, flatMap_nil]
    simp only [counted, totalDataBytes_cons, totalDataBytes_nil, Nat.add_zero, sum_map_add]
    simp only [hself]
    omega
  | delete =>
    simp only [renameOperation, if_true, reduceCtorEq, if_false, hflat]
    simp only [counted, totalDataBytes_cons, totalDataBytes_nil, Nat.add_zero, sum_map_add]
    simp only [hself]
    omega

theorem length_builtOperations_le (source destination : DirectoryManifest)
    (policy : DeletePolicy) (d : DirectoryDiff) :
    (builtOperations source destination policy d).length ≤
      (d.renamed.map (·.dst) ++ d.added ++ d.modified).length + d.removed.length := by
  unfold builtOperations
  simp only [length_append, length_map]
  split
  · rw [length_map]
  · simp

/-! Entries with distinct paths among those of a manifest. -/

theorem subperm_of_paths {l m : List DirectoryEntry} (hnd : (l.map (·.path)).Nodup)
    (hsub : l ⊆ m) : l.Subperm m :=
  List.Nodup.subperm (List.Nodup.of_map _ hnd) hsub

theorem totalDataBytes_le_of_subperm {l m : List DirectoryEntry} (h : l.Subperm m) :
    totalDataBytes l ≤ totalDataBytes m := by
  obtain ⟨l', hperm, hsub⟩ := h
  calc totalDataBytes l = totalDataBytes l' := ((hperm.map _).sum_eq).symm
    _ ≤ totalDataBytes m := (hsub.map _).sum_le_sum (fun _ _ => Nat.zero_le _)

theorem subperm_targets (h : destination.diff ext source = .ok d) :
    (d.renamed.map (·.dst) ++ d.added ++ d.modified).Subperm source.entries :=
  (sublist_append_right ..).subperm.trans (perm_targets h).subperm

/-- The entries taken from the destination are entries of the destination, each
once. -/
theorem subperm_sources (h : destination.diff ext source = .ok d) :
    (d.renamed.map (·.src) ++ d.removed ++ d.modified.map (heldBefore destination)).Subperm
      destination.entries := by
  obtain ⟨hd, hs, hspec⟩ := diff_spec h
  have hheld : ∀ e ∈ d.modified, heldBefore destination e ∈ destination.entries ∧
      (heldBefore destination e).path = e.path :=
    fun e he => hd.lookup_eq_some_iff.mp (lookup_heldBefore hspec he).1
  -- what is modified is at a path of both sides
  have hmodified : (d.modified.map (heldBefore destination)).Subperm
      (destination.entries.filter fun e => !decide (e.path ∉ source.entries.map (·.path))) := by
    refine subperm_of_paths ?_ fun e he => ?_
    · have htargets := nodup_targets h
      rw [map_append] at htargets
      rw [map_map]
      exact map_congr_left (fun e he => (hheld e he).2) ▸ htargets.of_append_right
    obtain ⟨a, ha, rfl⟩ := mem_map.mp he
    refine mem_filter.mpr ⟨(hheld a ha).1, ?_⟩
    rw [(hheld a ha).2]
    simpa using ⟨a, ((hspec.modified a).mp ha).1, rfl⟩
  exact ((perm_removed h).subperm.append hmodified).trans (filter_append_perm _ _).subperm

/-! ### The checks on a built plan -/

/-- What `verify` demands of a plan apart from the order of its operations and
the checks on each one. -/
structure Bounded (plan : ReconcilePlan) : Prop where
  count : plan.operations.length ≤ maxDirectoryEntries * 2
  allowed : ∀ op ∈ plan.operations, plan.Allows op
  nodup_paths : (plan.operations.map (·.path)).Nodup
  nodup_sources : (plan.operations.filterMap (·.moveSource)).Nodup
  disjoint : ∀ p ∈ plan.operations.map (·.path), p ∉ plan.operations.filterMap (·.moveSource)
  bytes : totalDataBytes (plan.operations.flatMap (·.counted)) ≤ 2 * maxDirectoryDataBytes

variable {plan : ReconcilePlan}

theorem Bounded.perm (h : Bounded plan) {ops : List ReconcileOperation}
    (hp : ops.Perm plan.operations) : Bounded { plan with operations := ops } where
  count := hp.length_eq ▸ h.count
  allowed op hop := by
    have hallow := h.allowed op (hp.mem_iff.mp hop)
    cases op with
    | put e | replace b e => trivial
    | move src dst | delete t => exact hallow
  nodup_paths := (hp.map _).nodup_iff.mpr h.nodup_paths
  nodup_sources := (hp.filterMap _).nodup_iff.mpr h.nodup_sources
  disjoint p hpath hsrc := h.disjoint p ((hp.map _).mem_iff.mp hpath)
    ((hp.filterMap _).mem_iff.mp hsrc)
  bytes := ((hp.flatMap_right _).map _).sum_eq.trans_le h.bytes

theorem allows_builtOperations {policy : DeletePolicy} {op : ReconcileOperation}
    (hop : op ∈ builtOperations source destination policy d) :
    (builtPlan source destination policy d).Allows op := by
  unfold builtOperations at hop
  simp only [mem_append, mem_map] at hop
  rcases hop with ((⟨r, -, rfl⟩ | ⟨e, -, rfl⟩) | ⟨e, -, rfl⟩) | hop
  · cases policy with
    | keep => trivial
    | delete => exact rfl
  · trivial
  · trivial
  split at hop
  · next hdelete =>
    obtain ⟨e, -, rfl⟩ := mem_map.mp hop
    exact ⟨hdelete, rfl⟩
  · cases hop

section Built

variable (policy : DeletePolicy) (h : destination.diff ext source = .ok d)

include h

theorem length_built_le : (builtOperations source destination policy d).length ≤ maxDirectoryEntries * 2 := by
  obtain ⟨hd, hs, -⟩ := diff_spec h
  have hlen := length_builtOperations_le source destination policy d
  have htargets := (subperm_targets h).length_le
  have hsources := (subperm_sources h).length_le
  have hcount := hs.count
  have hcount' := hd.count
  simp only [length_append] at hsources
  omega

/-- Targets are held by the source, removed and moved entries are not. -/
theorem target_notMem_sources {p : Bytes}
    (hp : p ∈ (d.renamed.map (·.dst) ++ d.added ++ d.modified).map (·.path)) :
    p ∉ (d.renamed.map (·.src) ++ d.removed).map (·.path) := by
  obtain ⟨-, hs, -⟩ := diff_spec h
  obtain ⟨e, he, rfl⟩ := mem_map.mp hp
  intro hsource
  obtain ⟨e', he', heq⟩ := mem_map.mp hsource
  have hnone := ((mem_onlyIn hs).mp ((perm_removed h).subset he')).2
  rw [heq, hs.lookup_of_mem ((subperm_targets h).subset he)] at hnone
  cases hnone

theorem nodup_paths_built : ((builtOperations source destination policy d).map (·.path)).Nodup := by
  have hsources := nodup_sources h
  rw [map_append] at hsources
  rw [map_path_builtOperations]
  refine nodup_append.mpr ⟨nodup_targets h, ?_, ?_⟩
  · split
    · exact hsources.of_append_right
    · exact nodup_nil
  · rintro p hp _ hq rfl
    split at hq
    · exact target_notMem_sources h hp (by rw [map_append]; exact mem_append_right _ hq)
    · cases hq

theorem nodup_moves_built :
    ((builtOperations source destination policy d).filterMap (·.moveSource)).Nodup := by
  have hsources := nodup_sources h
  rw [map_append, map_map] at hsources
  rw [filterMap_moveSource_builtOperations]
  split
  · exact hsources.of_append_left
  · exact nodup_nil

theorem disjoint_built {p : Bytes} (hp : p ∈ (builtOperations source destination policy d).map (·.path)) :
    p ∉ (builtOperations source destination policy d).filterMap (·.moveSource) := by
  rw [filterMap_moveSource_builtOperations]
  rw [map_path_builtOperations] at hp
  intro hsrc
  split at hsrc
  · next hdelete =>
    rw [if_pos hdelete] at hp
    have hsources := nodup_sources h
    rw [map_append, map_map] at hsources
    rcases mem_append.mp hp with hp | hp
    · refine target_notMem_sources h hp ?_
      rw [map_append, map_map]
      exact mem_append_left _ hsrc
    · exact (nodup_append.mp hsources).2.2 p hsrc p hp rfl
  · cases hsrc

/-- **A built plan is within the bounds**, whatever the two manifests hold. -/
theorem bounded_builtPlan : Bounded (builtPlan source destination policy d) where
  count := length_built_le policy h
  allowed _ := allows_builtOperations
  nodup_paths := nodup_paths_built policy h
  nodup_sources := nodup_moves_built policy h
  disjoint _ := disjoint_built policy h
  bytes := by
    obtain ⟨hd, hs, -⟩ := diff_spec h
    have hbytes := totalDataBytes_builtOperations_le source destination policy d
    have htargets := totalDataBytes_le_of_subperm (subperm_targets h)
    have hsources := totalDataBytes_le_of_subperm (subperm_sources h)
    have hmax := hs.bytes
    have hmax' := hd.bytes
    show totalDataBytes ((builtOperations source destination policy d).flatMap (·.counted)) ≤ _
    omega

end Built

/-! ### When planning succeeds -/

/-- The error of `validate` for a replacement that involves a directory. -/
def directoryRefusal : SyncError :=
  .manifest [.text "directory type replacement requires subtree conflict resolution"]

theorem foldlM_scanOperation_eq_error {ops : List ReconcileOperation}
    {st : PlanScan} {refusal : SyncError} (hst : st.Clean) (hclean : (st.after ops).Clean)
    (hallow : ∀ op ∈ ops, plan.Allows op)
    (hv : ∀ op ∈ ops, op.validate = .ok () ∨ op.validate = .error refusal)
    (hbad : ∃ op ∈ ops, op.validate ≠ .ok ()) :
    ops.foldlM plan.scanOperation st = .error refusal := by
  induction ops generalizing st with
  | nil =>
    obtain ⟨op, hop, -⟩ := hbad
    exact absurd hop (by simp)
  | cons op ops ih =>
    rw [forall_mem_cons] at hallow hv
    rw [PlanScan.after_cons] at hclean
    rw [foldlM_cons]
    rcases hv.1 with hok | herr
    · have hstep := (scanOperation_eq_ok hst).mpr ⟨hok, hallow.1, hclean.of_after, rfl⟩
      have hrest : ∃ op ∈ ops, op.validate ≠ .ok () := by
        obtain ⟨bad, hmem, hne⟩ := hbad
        rcases mem_cons.mp hmem with rfl | hmem
        · exact absurd hok hne
        · exact ⟨bad, hmem, hne⟩
      rw [hstep]
      exact ih hclean.of_after hclean hallow.2 hv.2 hrest
    · unfold scanOperation
      rw [herr]
      rfl

/-- **Sorting and verifying a bounded plan**: it is accepted if all its operations
validate, and otherwise refused with their error. -/
theorem Bounded.canonicalizeAndVerify (h : Bounded plan) {refusal : SyncError}
    (hv : ∀ op ∈ plan.operations, op.validate = .ok () ∨ op.validate = .error refusal) :
    ((∃ sorted, plan.canonicalizeAndVerify = .ok sorted) ↔ ∀ op ∈ plan.operations, op.validate = .ok ()) ∧
      ∀ error, plan.canonicalizeAndVerify = .error error → error = refusal := by
  set ops := plan.operations.insertionSort fun left right =>
    ¬ (operationSortKey right).Lt (operationSortKey left) with hops
  have hperm : ops.Perm plan.operations := perm_insertionSort _ _
  have hbounded := h.perm hperm
  have hsorted : ops.Pairwise fun a b => (operationSortKey a).Le (operationSortKey b) := by
    have htotal : Std.Total fun a b : ReconcileOperation =>
        ¬ (operationSortKey b).Lt (operationSortKey a) := by
      refine ⟨fun a b => ?_⟩
      change (operationSortKey a).Le (operationSortKey b) ∨ (operationSortKey b).Le (operationSortKey a)
      rw [SortKey.le_iff, SortKey.le_iff]
      grind
    have htrans : IsTrans ReconcileOperation fun a b =>
        ¬ (operationSortKey b).Lt (operationSortKey a) :=
      ⟨fun _ _ _ hab hbc => SortKey.le_trans hab hbc⟩
    exact pairwise_insertionSort (fun a b : ReconcileOperation =>
      ¬ (operationSortKey b).Lt (operationSortKey a)) plan.operations
  have hrun : plan.canonicalizeAndVerify = (verify { plan with operations := ops } >>= fun _ =>
        .ok { plan with operations := ops }) := rfl
  by_cases hall : ∀ op ∈ plan.operations, op.validate = .ok ()
  · have hok : verify { plan with operations := ops } = .ok () :=
      ReconcilePlan.verify_eq_ok_iff.mpr
        ⟨hbounded.count, fun op hop => hall op (hperm.mem_iff.mp hop), hbounded.allowed,
          hbounded.nodup_paths, hbounded.nodup_sources, hbounded.disjoint, hbounded.bytes, hsorted⟩
    rw [hrun, hok]
    exact ⟨⟨fun _ => hall, fun _ => ⟨_, rfl⟩⟩, fun _ herr => nomatch herr⟩
  have hbad : ∃ op ∈ ops, op.validate ≠ .ok () := by
    push Not at hall
    obtain ⟨op, hop, hne⟩ := hall
    exact ⟨op, hperm.mem_iff.mpr hop, hne⟩
  -- no other check fails, so the error is that of an operation
  have hclean : (PlanScan.after ⟨[], [], 0⟩ ops).Clean := by
    refine ⟨?_, ?_, ?_⟩
    · simpa [PlanScan.after] using hbounded.nodup_paths
    · simpa [PlanScan.after] using hbounded.nodup_sources
    · simpa [PlanScan.after] using hbounded.bytes
  have hscan := foldlM_scanOperation_eq_error
    ⟨nodup_nil, nodup_nil, Nat.zero_le _⟩ hclean hbounded.allowed
    (fun op hop => hv op (hperm.mem_iff.mp hop)) hbad
  have herr : verify { plan with operations := ops } = .error refusal := by
    unfold verify
    rw [if_neg (Nat.not_lt.mpr hbounded.count), hscan]
    rfl
  rw [hrun, herr]
  refine ⟨⟨?_, fun h => absurd h hall⟩, fun _ h => (Except.error.inj h).symm⟩
  rintro ⟨_, hok⟩
  cases hok

theorem identity_of_directory {a b : DirectoryEntry} (ha : a.validate = .ok ())
    (hb : b.validate = .ok ()) (hka : a.kind = .directory) (hkb : b.kind = .directory) :
    a.identity = b.identity := by
  have hempty : ∀ {e : DirectoryEntry}, e.validate = .ok () → e.kind = .directory →
      e.identity = ⟨.directory, 0, none, none⟩ := by
    intro e he hk
    unfold DirectoryEntry.validate at he
    rw [ite_throw_eq_ok, bind_eq_ok] at he
    obtain ⟨-, _, -, he⟩ := he
    rw [ite_throw_eq_ok, hk] at he
    obtain ⟨-, he⟩ := he
    rw [ite_throw_eq_ok] at he
    simp only [not_or, not_not, Bool.not_eq_true, Option.isSome_eq_false_iff, Option.isNone_iff_eq_none] at he
    obtain ⟨⟨hsize, hcontent, htarget⟩, -⟩ := he
    unfold DirectoryEntry.identity
    rw [hk, hsize, hcontent, htarget]
  rw [hempty ha hka, hempty hb hkb]

/-- The two sides hold a path as a directory together or not at all. -/
def DirectoriesAgree (source destination : DirectoryManifest) : Prop :=
  ∀ e ∈ source.entries, ∀ b ∈ destination.entries, e.path = b.path →
    (e.kind = .directory ↔ b.kind = .directory)

section Validate

variable (hs : Verified ext source) (hd : Verified ext destination)
  (hspec : DiffSpec destination source d)
include hs hd hspec

theorem validate_replace_heldBefore {e : DirectoryEntry} (he : e ∈ d.modified) :
    (ReconcileOperation.replace (heldBefore destination e) e).validate =
      if (heldBefore destination e).kind = .directory ∨ e.kind = .directory then
        .error directoryRefusal else .ok () := by
  obtain ⟨hlookup, hid⟩ := lookup_heldBefore hspec he
  obtain ⟨hmem, hpath⟩ := hd.lookup_eq_some_iff.mp hlookup
  unfold validate
  dsimp only
  rw [hd.valid _ hmem, hs.valid _ ((hspec.modified e).mp he).1]
  rw [if_neg (by rw [not_or, not_not]; exact ⟨hpath, hid⟩)]
  rfl

/-- Every operation that is built validates, but for replacements that involve a
directory. -/
theorem validate_builtOperations {op : ReconcileOperation}
    (hop : op ∈ builtOperations source destination policy d) :
    op.validate = .ok () ∨ op.validate = .error directoryRefusal ∧
      ∃ e ∈ d.modified, op = .replace (heldBefore destination e) e := by
  unfold builtOperations at hop
  simp only [mem_append, mem_map] at hop
  rcases hop with ((⟨r, hr, rfl⟩ | ⟨e, he, rfl⟩) | ⟨e, he, rfl⟩) | hop
  · obtain ⟨⟨hsrc, hsrcNone⟩, ⟨hdst, hdstNone⟩, hid, hkind⟩ := hspec.renamed r hr
    refine .inl ?_
    cases policy with
    | keep => exact hs.valid _ hdst
    | delete =>
      have hkind' : r.dst.kind ≠ .directory := by
        rw [← show r.src.kind = r.dst.kind from congrArg EntryIdentity.kind hid]
        exact hkind
      refine validate_move_eq_ok.mpr
        ⟨hd.valid _ hsrc, hs.valid _ hdst, hkind, hkind', fun hpath => ?_, hid⟩
      rw [← hpath, hd.lookup_of_mem hsrc] at hdstNone
      exact absurd hdstNone (by simp)
  · exact .inl (hs.valid _ (hspec.added e he).1)
  · rw [validate_replace_heldBefore hs hd hspec he]
    split
    · exact .inr ⟨rfl, e, he, rfl⟩
    · exact .inl rfl
  · refine .inl ?_
    by_cases hp : policy = .delete
    · rw [if_pos hp] at hop
      obtain ⟨e, he, rfl⟩ := mem_map.mp hop
      exact validate_delete_eq_ok.mpr ⟨hd.valid _ (hspec.removed e he).1, rfl⟩
    · rw [if_neg hp] at hop
      exact absurd hop (by simp)

/-- A plan is refused only for a path that is a directory on one side. -/
theorem forall_validate_iff :
    (∀ op ∈ builtOperations source destination policy d, op.validate = .ok ()) ↔
      DirectoriesAgree source destination := by
  constructor
  · intro hall e he b hb hpath
    have hlookup : destination.lookup e.path = some b :=
      hd.lookup_eq_some_iff.mpr ⟨hb, hpath.symm⟩
    by_cases hid : b.identity = e.identity
    · rw [show b.kind = e.kind from congrArg EntryIdentity.kind hid]
    -- the path is replaced, and the replacement validates
    have hmod : e ∈ d.modified := (hspec.modified e).mpr ⟨he, b, hlookup, hid⟩
    have hheld : heldBefore destination e = b := by rw [heldBefore, hlookup]; rfl
    have hvalid := hall (.replace (heldBefore destination e) e) (by
      unfold builtOperations
      simp only [mem_append, mem_map]
      exact .inl (Or.inr ⟨e, hmod, rfl⟩))
    obtain ⟨-, -, -, -, hbk, hek⟩ := validate_replace_eq_ok.mp hvalid
    rw [hheld] at hbk
    exact iff_of_false hek hbk
  · intro hagree op hop
    rcases validate_builtOperations hs hd hspec hop with hok | ⟨-, e, he, rfl⟩
    · exact hok
    obtain ⟨hlookup, hid⟩ := lookup_heldBefore hspec he
    obtain ⟨hmem, hpath⟩ := hd.lookup_eq_some_iff.mp hlookup
    have hsrc := ((hspec.modified e).mp he).1
    have hiff := hagree e hsrc _ hmem hpath.symm
    rw [validate_replace_heldBefore hs hd hspec he, if_neg]
    -- two directories would have one identity
    rintro (hk | hk)
    · exact hid (identity_of_directory (hd.valid _ hmem) (hs.valid _ hsrc) hk (hiff.mpr hk))
    · exact hid (identity_of_directory (hd.valid _ hmem) (hs.valid _ hsrc) (hiff.mp hk) hk)

end Validate

theorem oneWay_verdict (hs : Verified ext source) (hd : Verified ext destination) (policy : DeletePolicy) :
    ((∃ plan, ReconcilePlan.oneWay ext source destination policy = .ok plan) ↔
        DirectoriesAgree source destination) ∧
      ∀ error, ReconcilePlan.oneWay ext source destination policy = .error error →
        error = directoryRefusal := by
  obtain ⟨d, hdiff, heq⟩ := exists_oneWay_eq hs hd
  obtain ⟨-, -, hspec⟩ := diff_spec hdiff
  have hverdict := (bounded_builtPlan policy hdiff).canonicalizeAndVerify fun op hop =>
    (validate_builtOperations hs hd hspec hop).imp_right And.left
  rw [heq policy]
  exact ⟨hverdict.1.trans (forall_validate_iff hs hd hspec), hverdict.2⟩

end Built

/-- **Planning succeeds exactly when the plan can be represented.** On verified
manifests `one_way` fails only if some path is a directory on one side and not on
the other, and then with the error for that case: no other check of `verify` fails
on the plan it built. -/
theorem oneWay_ok_iff (ext : Externals) (source destination : DirectoryManifest)
    (policy : DeletePolicy) (hs : source.verify ext = .ok ()) (hd : destination.verify ext = .ok ()) :
    ((∃ plan, ReconcilePlan.oneWay ext source destination policy = .ok plan) ↔
        DirectoriesAgree source destination) ∧
      ∀ error, ReconcilePlan.oneWay ext source destination policy = .error error → error = directoryRefusal :=
  oneWay_verdict (verify_eq_ok_iff.mp hs) (verify_eq_ok_iff.mp hd) policy

theorem oneWay_ok_iff_trees :
    sourceTree.verify treeExternals = .ok () ∧ destinationTree.verify treeExternals = .ok () ∧
      ((∃ plan, ReconcilePlan.oneWay treeExternals sourceTree destinationTree .delete = .ok plan) ↔
        DirectoriesAgree sourceTree destinationTree) :=
  have hs : sourceTree.verify treeExternals = .ok () := by decide +kernel
  have hd : destinationTree.verify treeExternals = .ok () := by decide +kernel
  ⟨hs, hd, (oneWay_ok_iff treeExternals sourceTree destinationTree .delete hs hd).1⟩

/-! ### Fixed points -/

/-- `ReconcilePlan::check_inputs`. -/
def ReconcilePlan.checkInputs (ext : Externals) (self : ReconcilePlan)
    (source destination : DirectoryManifest) : Except SyncError Unit := do
  self.verify
  let expected ← ReconcilePlan.oneWay ext source destination self.deletePolicy
  if self ≠ expected then
    throw (.manifest [.text "reconcile plan does not match its inputs"])
  else
    let _ ← self.projectDestination ext destination
    .ok ()

variable {ext : Externals}

/-- What `check_inputs` accepts: the plan `one_way` builds, if it can be
projected. -/
theorem checkInputs_eq_ok {plan : ReconcilePlan} {source destination : DirectoryManifest} :
    plan.checkInputs ext source destination = .ok () ↔
      ReconcilePlan.oneWay ext source destination plan.deletePolicy = .ok plan ∧
        ∃ result, plan.projectDestination ext destination = .ok result := by
  unfold checkInputs
  rw [check_bind_eq_ok]
  simp only [ite_throw_eq_ok, bind_eq_ok, not_not, and_true]
  constructor
  · rintro ⟨-, _, hexpected, rfl, hproject⟩
    exact ⟨hexpected, hproject⟩
  · rintro ⟨hone, hproject⟩
    have hwf := (oneWay_eq_ok hone).1
    exact ⟨ReconcilePlan.verify_eq_ok_iff.mpr hwf, plan, hone, rfl, hproject⟩

/-- **The projection is the mirror.** -/
theorem OneWayPlan.lookup_projectDestination
    {source destination result : DirectoryManifest} {plan : ReconcilePlan}
    (h : OneWayPlan ext source destination plan)
    (hproject : plan.projectDestination ext destination = .ok result) :
    Verified ext result ∧ result.lookup = mirror plan.deletePolicy source.lookup destination.lookup := by
  obtain ⟨entries, hview, heq⟩ := h.projectDestination_eq
  obtain ⟨hresult, hperm⟩ := fromEntries_eq_ok_iff.mp (heq.symm.trans hproject)
  have htree : IsTree (EntryMap.view entries) := hview ▸ h.isTree_mirror
  refine ⟨hresult, ?_⟩
  rw [← hview]
  funext p
  refine Option.ext fun e => ?_
  rw [hresult.lookup_eq_some_iff, hperm.mem_iff, mem_mapValues]
  constructor
  · rintro ⟨⟨q, hq⟩, rfl⟩
    exact (htree.path_eq hq).symm ▸ hq
  · intro hp
    exact ⟨⟨p, hp⟩, htree.path_eq hp⟩

/-- **Planning towards the mirror leaves nothing to do.** -/
theorem oneWay_mirror {source destination result : DirectoryManifest}
    {policy : DeletePolicy} (hs : Verified ext source) (hr : Verified ext result)
    (hlookup : result.lookup = mirror policy source.lookup destination.lookup) :
    ∃ plan, ReconcilePlan.oneWay ext source result policy = .ok plan ∧ plan.operations = [] := by
  -- every entry of the source is held by the result as it is
  have hheld : ∀ {p e}, source.lookup p = some e → result.lookup p = some e :=
    fun h => hlookup ▸ mirror_of_source h
  have hagree : DirectoriesAgree source result := by
    intro e he b hb hpath
    have hb' := hr.lookup_of_mem hb
    rw [← hpath, hheld (hs.lookup_of_mem he)] at hb'
    rw [Option.some.inj hb']
  obtain ⟨plan, hplan⟩ := (oneWay_verdict hs hr policy).1.mpr hagree
  refine ⟨plan, hplan, eq_nil_iff_forall_not_mem.mpr fun op hop => ?_⟩
  obtain ⟨hone, hpolicy⟩ := oneWay_spec hplan
  have hfits := hone.fits op hop
  have hvalid := hone.wellFormed.valid op hop
  cases op with
  | put e => exact absurd ((hheld hfits.1).symm.trans hfits.2) (by simp)
  | replace b e =>
    obtain rfl : e = b := Option.some.inj ((hheld hfits.1).symm.trans hfits.2)
    exact (validate_replace_eq_ok.mp hvalid).2.2.2.1 rfl
  | move src dst => exact absurd ((hheld hfits.2.1).symm.trans hfits.2.2) (by simp)
  | delete t =>
    -- a deletion needs the policy `Delete`, under which the result is the source
    have hdelete := (hone.wellFormed.allowed _ hop).1
    rw [hpolicy] at hdelete
    have hsome := hfits.2
    rw [hlookup, hdelete] at hsome
    exact absurd (hfits.1.symm.trans hsome) (by simp)

/-- **Reconcile reaches a fixed point.** After a plan has been carried out there
is nothing left to do; and the plan is the only one with its policy that its
inputs admit. -/
theorem oneWay_fixed_point (ext : Externals) (source destination result : DirectoryManifest)
    (policy : DeletePolicy) (plan : ReconcilePlan)
    (hplan : ReconcilePlan.oneWay ext source destination policy = .ok plan)
    (hproject : plan.projectDestination ext destination = .ok result) :
    (∃ next, ReconcilePlan.oneWay ext source result policy = .ok next ∧ next.operations = []) ∧
      plan.checkInputs ext source destination = .ok () ∧
      ∀ other : ReconcilePlan, other.deletePolicy = policy →
        other.checkInputs ext source destination = .ok () → other = plan := by
  obtain ⟨hone, hpolicy⟩ := oneWay_spec hplan
  obtain ⟨hresult, hlookup⟩ := hone.lookup_projectDestination hproject
  refine ⟨?_, ?_, ?_⟩
  · rw [hpolicy] at hlookup
    exact oneWay_mirror hone.source_verified hresult hlookup
  · rw [checkInputs_eq_ok, hpolicy]
    exact ⟨hplan, result, hproject⟩
  intro other hother hcheck
  obtain ⟨hexpected, -⟩ := checkInputs_eq_ok.mp hcheck
  rw [hother] at hexpected
  exact Except.ok.inj (hexpected.symm.trans hplan)

theorem oneWay_fixed_point_treePlan :
    ReconcilePlan.oneWay treeExternals sourceTree destinationTree .delete = .ok treePlan ∧
      treePlan.projectDestination treeExternals destinationTree = .ok sourceTree ∧
      treePlan.checkInputs treeExternals sourceTree destinationTree = .ok () :=
  have h : ReconcilePlan.oneWay treeExternals sourceTree destinationTree .delete =
    .ok treePlan := by decide +kernel
  have hproject : treePlan.projectDestination treeExternals destinationTree = .ok sourceTree := by
    decide +kernel
  ⟨h, hproject, (oneWay_fixed_point _ _ _ _ _ _ h hproject).2.1⟩

end Rds
