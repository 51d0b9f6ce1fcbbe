import Rds.Framework.Postcard
import Rds.Sync.DirectoryDiff
import Rds.Sync.Plan

/-!
# One-way mirroring

What a one-way plan is for: `mirror` is the tree a destination should become,
the source's tree under `Delete`, and the source's tree laid over the
destination's under `Keep`.

`OneWayPlan` says what the operations of a plan built by `one_way` are
(`oneWay_spec`). Each write of such a plan takes a path from what the destination
holds to what the mirror holds, and every path on which they differ is written,
so running the plan on its destination gives the mirror
(`OneWayPlan.run_eq_mirror`). The convergence of `project_destination` under both
policies follows.
-/

namespace Rds

open Framework UnixPath List ReconcilePlan

/-- **The purpose of a one-way plan**: the tree the destination should become. -/
def mirror (policy : DeletePolicy) (source destination : Bytes → Option DirectoryEntry)
    (p : Bytes) : Option DirectoryEntry :=
  match policy with
  | .delete => source p
  | .keep => (source p).or (destination p)

theorem mirror_of_source {policy : DeletePolicy} {source destination : Bytes → Option DirectoryEntry}
    {p : Bytes} {e : DirectoryEntry} (h : source p = some e) :
    mirror policy source destination p = some e := by
  cases policy with
  | delete => exact h
  | keep => exact Option.or_eq_some_iff.mpr (Or.inl h)

/-! ### The operations of a one-way plan -/

/-- The paths a plan writes. -/
def ReconcilePlan.keys (plan : ReconcilePlan) : List Bytes :=
  (plan.operations.flatMap (·.writes)).map Write.key

theorem ReconcilePlan.mem_keys {plan : ReconcilePlan} {p : Bytes} :
    p ∈ plan.keys ↔ ∃ op ∈ plan.operations, p = op.path ∨ op.moveSource = some p := by
  unfold keys
  rw [map_flatMap, mem_flatMap]
  simp only [ReconcileOperation.mem_keys_writes]

/-- An operation takes paths from what the destination holds to what the source
holds. -/
def ReconcileOperation.Fits (source destination : Bytes → Option DirectoryEntry) :
    ReconcileOperation → Prop
  | put e => source e.path = some e ∧ destination e.path = none
  | replace b a => source a.path = some a ∧ destination a.path = some b
  | move e e' => (source e.path = none ∧ destination e.path = some e) ∧
      source e'.path = some e' ∧ destination e'.path = none
  | delete t => source t.path = none ∧ destination t.path = some t.previous

/-- The three ways an operation can touch a path, told apart by what the two
sides hold there. -/
theorem ReconcileOperation.Fits.at_path {source destination : Bytes → Option DirectoryEntry}
    {op : ReconcileOperation} (h : op.Fits source destination) {p : Bytes}
    (hp : p = op.path ∨ op.moveSource = some p) :
    (∃ e, source p = some e ∧ destination p = none ∧ (op = .put e ∨ ∃ x, op = .move x e)) ∨
    (∃ e b, source p = some e ∧ destination p = some b ∧ op = .replace b e) ∨
    (∃ e, source p = none ∧ destination p = some e ∧
      ((∃ t : Tombstone, op = .delete t ∧ t.path = p ∧ t.previous = e) ∨ ∃ x, op = .move e x)) := by
  cases op with
  | put e =>
    obtain rfl : p = e.path := hp.resolve_right (by simp [moveSource])
    exact .inl ⟨e, h.1, h.2, Or.inl rfl⟩
  | replace b a =>
    obtain rfl : p = a.path := hp.resolve_right (by simp [moveSource])
    exact .inr (Or.inl ⟨a, b, h.1, h.2, rfl⟩)
  | move e e' =>
    rcases hp with rfl | hp
    · exact .inl ⟨e', h.2.1, h.2.2, Or.inr ⟨e, rfl⟩⟩
    · obtain rfl := Option.some.inj hp
      exact .inr (Or.inr ⟨e, h.1.1, h.1.2, Or.inr ⟨e', rfl⟩⟩)
  | delete t =>
    obtain rfl : p = t.path := hp.resolve_right (by simp [moveSource])
    exact .inr (Or.inr ⟨t.previous, h.1, h.2, Or.inl ⟨t, rfl, rfl, rfl⟩⟩)

/-- What `one_way` builds from a source and a destination. -/
structure OneWayPlan (ext : Externals) (source destination : DirectoryManifest)
    (plan : ReconcilePlan) : Prop where
  source_verified : Verified ext source
  destination_verified : Verified ext destination
  wellFormed : WellFormed plan
  expected : plan.expectedDestinationRevision = ⟨destination.root⟩
  fits : ∀ op ∈ plan.operations, op.Fits source.lookup destination.lookup
  cover : ∀ {p}, destination.lookup p ≠
    mirror plan.deletePolicy source.lookup destination.lookup p → p ∈ plan.keys

variable {ext : Externals}

theorem Revision.fromManifest_eq_ok {m : DirectoryManifest} {r : Revision} :
    Revision.fromManifest ext m = .ok r ↔ Verified ext m ∧ r = ⟨m.root⟩ := by
  unfold Revision.fromManifest
  rw [check_bind_eq_ok, verify_eq_ok_iff, Except.ok.injEq, eq_comm (a := r)]

theorem replaceOperation_eq_ok {destination : DirectoryManifest}
    (hd : Verified ext destination) {e : DirectoryEntry} {op : ReconcileOperation} :
    ReconcilePlan.replaceOperation destination e = .ok op ↔
      ∃ b, destination.lookup e.path = some b ∧ op = .replace b e := by
  have hsearch : searchPath destination.entries e.path = destination.lookup e.path :=
    Option.ext fun b => (searchPath_eq_some (pairwise_path_ne hd.sorted)).trans
      hd.lookup_eq_some_iff.symm
  unfold replaceOperation
  rw [hsearch]
  cases destination.lookup e.path with
  | none => simp
  | some b => simp [eq_comm]

/-- The operations `one_way` emits for a diff. -/
inductive Emitted (source destination : DirectoryManifest) (policy : DeletePolicy)
    (d : DirectoryDiff) : ReconcileOperation → Prop where
  | rename (r : Rename) (h : r ∈ d.renamed) :
      Emitted source destination policy d (ReconcilePlan.renameOperation policy r)
  | put (e : DirectoryEntry) (h : e ∈ d.added) :
      Emitted source destination policy d (.put e)
  | replace (e b : DirectoryEntry) (h : e ∈ d.modified) (hb : destination.lookup e.path = some b) :
      Emitted source destination policy d (.replace b e)
  | delete (e : DirectoryEntry) (hp : policy = .delete) (h : e ∈ d.removed) :
      Emitted source destination policy d (.delete ⟨e.path, e, ⟨source.root⟩⟩)

/-- What a plan that was made contains. -/
theorem oneWay_eq_ok {source destination : DirectoryManifest} {policy : DeletePolicy} {plan : ReconcilePlan}
    (h : ReconcilePlan.oneWay ext source destination policy = .ok plan) :
    WellFormed plan ∧ plan.expectedDestinationRevision = ⟨destination.root⟩ ∧ plan.deletePolicy = policy ∧
      ∃ d, destination.diff ext source = .ok d ∧
        ∀ op, op ∈ plan.operations ↔ Emitted source destination policy d op := by
  unfold oneWay at h
  simp only [bind_eq_ok, Revision.fromManifest_eq_ok] at h
  obtain ⟨_, ⟨-, rfl⟩, _, ⟨hd, rfl⟩, d, hdiff, replaces, hreplaces, hplan⟩ := h
  unfold canonicalizeAndVerify at hplan
  rw [check_bind_eq_ok, ReconcilePlan.verify_eq_ok_iff, Except.ok.injEq] at hplan
  obtain ⟨hwf, rfl⟩ := hplan
  refine ⟨hwf, rfl, rfl, d, hdiff, fun op => ?_⟩
  rw [(perm_insertionSort _ _).mem_iff]
  simp only [mem_append, mem_map, mem_of_mapM_eq_ok hreplaces, replaceOperation_eq_ok hd]
  constructor
  · rintro (((⟨r, hr, rfl⟩ | ⟨e, he, rfl⟩) | ⟨e, he, b, hb, rfl⟩) | hdel)
    · exact .rename r hr
    · exact .put e he
    · exact .replace e b he hb
    by_cases hp : policy = .delete
    · rw [if_pos hp, mem_map] at hdel
      obtain ⟨e, he, rfl⟩ := hdel
      exact .delete e hp he
    · rw [if_neg hp] at hdel
      exact absurd hdel (by simp)
  · intro hop
    cases hop with
    | rename r hr => exact .inl (Or.inl (Or.inl ⟨r, hr, rfl⟩))
    | put e he => exact .inl (Or.inl (Or.inr ⟨e, he, rfl⟩))
    | replace e b he hb => exact .inl (Or.inr ⟨e, he, b, hb, rfl⟩)
    | delete e hp he =>
      rw [if_pos hp]
      exact .inr (mem_map_of_mem he)

section Spec

variable {ext : Externals} {source destination : DirectoryManifest} {policy : DeletePolicy}
  {d : DirectoryDiff}

theorem Emitted.fits (hsrc : Verified ext source) (hdst : Verified ext destination)
    (hspec : DiffSpec destination source d) {op : ReconcileOperation}
    (h : Emitted source destination policy d op) :
    op.Fits source.lookup destination.lookup := by
  cases h with
  | rename r hr =>
    obtain ⟨⟨hmem, hnone⟩, ⟨hmem', hnone'⟩, -⟩ := hspec.renamed r hr
    have hput := And.intro (hsrc.lookup_of_mem hmem') hnone'
    cases policy with
    | keep => exact hput
    | delete => exact ⟨⟨hnone, hdst.lookup_of_mem hmem⟩, hput⟩
  | put e he =>
    obtain ⟨hmem, hnone⟩ := hspec.added e he
    exact ⟨hsrc.lookup_of_mem hmem, hnone⟩
  | replace e b he hb => exact ⟨hsrc.lookup_of_mem ((hspec.modified e).mp he).1, hb⟩
  | delete e hp he =>
    obtain ⟨hmem, hnone⟩ := hspec.removed e he
    exact ⟨hnone, hdst.lookup_of_mem hmem⟩

/-- Nothing is missed: each path that differs from the mirror has its operation. -/
theorem Emitted.cover (hsrc : Verified ext source) (hdst : Verified ext destination)
    (hspec : DiffSpec destination source d) {p : Bytes}
    (hne : destination.lookup p ≠ mirror policy source.lookup destination.lookup p) :
    ∃ op, Emitted source destination policy d op ∧ (p = op.path ∨ op.moveSource = some p) := by
  cases hs : source.lookup p with
  | some e =>
    obtain ⟨hmem, rfl⟩ := hsrc.lookup_eq_some_iff.mp hs
    rw [mirror_of_source hs] at hne
    cases hd : destination.lookup e.path with
    | none =>
      rcases hspec.cover_added e hmem hd with hadd | ⟨r, hr, rfl⟩
      · exact ⟨_, .put e hadd, Or.inl rfl⟩
      · refine ⟨_, .rename r hr, Or.inl ?_⟩
        cases policy <;> rfl
    | some b =>
      -- same path, so it is the identity that differs
      have hid : b.identity ≠ e.identity := fun hid =>
        hne (hd.trans (congrArg some (DirectoryEntry.eq_of_path_of_identity
          (hdst.lookup_eq_some_iff.mp hd).2 hid)))
      exact ⟨_, .replace e b ((hspec.modified e).mpr ⟨hmem, b, hd, hid⟩) hd, Or.inl rfl⟩
  | none =>
    cases policy with
    | keep => exact absurd (by simp [mirror, hs]) hne
    | delete =>
      cases hd : destination.lookup p with
      | none => exact absurd (by simp [mirror, hs, hd]) hne
      | some e =>
        obtain ⟨hmem, rfl⟩ := hdst.lookup_eq_some_iff.mp hd
        rcases hspec.cover_removed e hmem hs with hrem | ⟨r, hr, rfl⟩
        · exact ⟨_, .delete e rfl hrem, Or.inl rfl⟩
        · exact ⟨_, .rename r hr, Or.inr rfl⟩

/-- **What `one_way` builds.** -/
theorem oneWay_spec {plan : ReconcilePlan}
    (h : ReconcilePlan.oneWay ext source destination policy = .ok plan) :
    OneWayPlan ext source destination plan ∧ plan.deletePolicy = policy := by
  obtain ⟨hwf, hexp, rfl, d, hdiff, hops⟩ := oneWay_eq_ok h
  obtain ⟨hdst, hsrc, hspec⟩ := diff_spec hdiff
  refine ⟨⟨hsrc, hdst, hwf, hexp, ?_, ?_⟩, rfl⟩
  · intro op hop
    exact ((hops op).mp hop).fits hsrc hdst hspec
  · intro p hne
    obtain ⟨op, hop, hp⟩ := Emitted.cover hsrc hdst hspec hne
    exact mem_keys.mpr ⟨op, (hops op).mpr hop, hp⟩

end Spec

/-! ### Running a one-way plan -/

namespace OneWayPlan

variable {ext : Externals} {source destination : DirectoryManifest} {plan : ReconcilePlan}

section

variable (h : OneWayPlan ext source destination plan)
include h

/-- Each write of a one-way plan takes its path from the destination's entry to
the mirror's. -/
theorem write_spec {w : Write Bytes DirectoryEntry} (hw : w ∈ plan.operations.flatMap (·.writes)) :
    destination.lookup w.key = w.old ∧
      mirror plan.deletePolicy source.lookup destination.lookup w.key = w.new := by
  obtain ⟨op, hop, hw⟩ := mem_flatMap.mp hw
  have hfits := h.fits op hop
  have hallow := h.wellFormed.allowed op hop
  cases op with
  | put e | replace b a =>
    obtain rfl := mem_singleton.mp hw
    exact ⟨hfits.2, mirror_of_source hfits.1⟩
  | move e e' =>
    obtain ⟨⟨hnone, hsome⟩, hsome', hnone'⟩ := hfits
    rcases mem_cons.mp hw with rfl | hw
    · refine ⟨hsome, ?_⟩
      rw [show plan.deletePolicy = .delete from hallow]
      exact hnone
    · obtain rfl := mem_singleton.mp hw
      exact ⟨hnone', mirror_of_source hsome'⟩
  | delete t =>
    obtain rfl := mem_singleton.mp hw
    refine ⟨hfits.2, ?_⟩
    rw [hallow.1]
    exact hfits.1

/-- **Overwriting the destination gives the mirror.** -/
theorem overwrite_eq_mirror :
    overwrite (plan.operations.flatMap (·.writes)) destination.lookup =
      mirror plan.deletePolicy source.lookup destination.lookup := by
  funext p
  by_cases hp : p ∈ plan.keys
  · obtain ⟨w, hw, rfl⟩ := mem_map.mp hp
    rw [overwrite_of_mem h.wellFormed.nodup_keys hw, (h.write_spec hw).2]
  · rw [overwrite_of_notMem hp]
    exact not_not.mp fun hne => hp (h.cover hne)

/-- **Running the plan on its destination gives the mirror.** -/
theorem run_eq_mirror :
    ∃ entries, plan.operations.foldlM applyOperation destination.entryMap = .ok entries ∧
      EntryMap.view entries = mirror plan.deletePolicy source.lookup destination.lookup := by
  rw [foldlM_applyOperation_iff h.wellFormed.valid, runWrites_eq_some_iff h.wellFormed.nodup_keys]
  exact ⟨fun w hw => (h.write_spec hw).1, h.overwrite_eq_mirror.symm⟩

theorem projectDestination_eq :
    ∃ entries : EntryMap, EntryMap.view entries = mirror plan.deletePolicy source.lookup destination.lookup ∧
      plan.projectDestination ext destination = DirectoryManifest.fromEntries ext (mapValues entries) := by
  obtain ⟨entries, hrun, hview⟩ := h.run_eq_mirror
  refine ⟨entries, hview, ?_⟩
  have hverify := ReconcilePlan.verify_eq_ok_iff.mpr h.wellFormed
  have hrev := Revision.fromManifest_eq_ok.mpr ⟨h.destination_verified, rfl⟩
  simp [projectDestination, hverify, hrev, hrun, h.expected, bind, Except.bind]

end

end OneWayPlan

namespace OneWayPlan

variable {ext : Externals} {source destination : DirectoryManifest} {plan : ReconcilePlan}

theorem exists_replace (h : OneWayPlan ext source destination plan) {p : Bytes}
    {e b : DirectoryEntry} (hs : source.lookup p = some e) (hd : destination.lookup p = some b)
    (hne : b ≠ e) : .replace b e ∈ plan.operations := by
  obtain ⟨op, hop, hp⟩ := mem_keys.mp (h.cover (p := p) (by
    rw [hd, mirror_of_source hs]
    simpa using hne))
  rcases (h.fits op hop).at_path hp with ⟨_, -, hnone, -⟩ | ⟨e', b', hs', hd', rfl⟩ | ⟨_, hnone, -⟩
  · exact absurd (hd.symm.trans hnone) (by simp)
  · obtain rfl : e = e' := Option.some.inj (hs.symm.trans hs')
    obtain rfl : b = b' := Option.some.inj (hd.symm.trans hd')
    exact hop
  · exact absurd (hs.symm.trans hnone) (by simp)

/-- **Directories are stable.** A path that both sides hold, one of them as a
directory, is held alike: a plan never replaces a directory. -/
theorem directory_stable (h : OneWayPlan ext source destination plan) {p : Bytes}
    {e b : DirectoryEntry} (hs : source.lookup p = some e) (hd : destination.lookup p = some b)
    (hdir : e.kind = .directory ∨ b.kind = .directory) : b = e := by
  by_contra hne
  obtain ⟨-, -, -, -, hb, he⟩ := ReconcileOperation.validate_replace_eq_ok.mp
    (h.wellFormed.valid _ (h.exists_replace hs hd hne))
  exact hdir.elim he hb

/-- **The mirror is a tree.** -/
theorem isTree_mirror (h : OneWayPlan ext source destination plan) :
    IsTree (mirror plan.deletePolicy source.lookup destination.lookup) := by
  have hsrc := h.source_verified.isTree
  have hdst := h.destination_verified.isTree
  cases hpolicy : plan.deletePolicy with
  | delete => exact ⟨hsrc.path_eq, hsrc.parent⟩
  | keep =>
    constructor
    · intro p e hp
      rcases Option.or_eq_some_iff.mp hp with hp | ⟨-, hp⟩
      · exact hsrc.path_eq hp
      · exact hdst.path_eq hp
    intro p e q n hp hq
    rcases Option.or_eq_some_iff.mp hp with hp | ⟨-, hp⟩
    · obtain ⟨x, hx, hk⟩ := hsrc.parent hp hq
      exact ⟨x, Option.or_eq_some_iff.mpr (Or.inl hx), hk⟩
    obtain ⟨x, hx, hk⟩ := hdst.parent hp hq
    cases hq' : source.lookup q with
    | none => exact ⟨x, Option.or_eq_some_iff.mpr (Or.inr ⟨hq', hx⟩), hk⟩
    | some y =>
      -- the source holds the parent too, and then as the same directory
      obtain rfl := h.directory_stable hq' hx (Or.inr hk)
      exact ⟨x, Option.or_eq_some_iff.mpr (Or.inl hq'), hk⟩

end OneWayPlan

/-! ### Convergence under `Delete` -/

/-- **Mirror convergence.** Projecting a one-way plan that deletes on its own
destination gives back the source, root and entries. -/
theorem project_oneWay_delete (ext : Externals) (source destination : DirectoryManifest)
    (plan : ReconcilePlan) (h : ReconcilePlan.oneWay ext source destination .delete = .ok plan) :
    plan.projectDestination ext destination = .ok source := by
  obtain ⟨hplan, hpolicy⟩ := oneWay_spec h
  have hsrc := hplan.source_verified
  obtain ⟨entries, hview, hproject⟩ := hplan.projectDestination_eq
  rw [hpolicy] at hview
  have hvalues : mapValues entries = source.entries := by
    refine values_eq_of_lookup (pairwise_compare hsrc.sorted) fun p e => ?_
    rw [← hsrc.lookup_eq_some_iff]
    exact iff_of_eq (congrArg (· = some e) (congrFun hview p))
  rw [hproject, hvalues]
  exact fromEntries_eq_ok hsrc

/-! A tree with a new directory, a file moved into it and a stale file shows that
the hypothesis is met. Its digests are BLAKE3 digests. -/

/-- A regular file of one byte. -/
def byteFile (path : String) (content : ChunkHash) : DirectoryEntry :=
  ⟨utf8 path, .file, 1, some content, none⟩

/-- `DirectoryEntry::directory`. -/
def directoryEntry (path : String) : DirectoryEntry := ⟨utf8 path, .directory, 0, none, none⟩

/-- The derived postcard encoding of an entry. -/
def postcardEntry (e : DirectoryEntry) : Bytes :=
  Postcard.encodeBytes e.path ++
    Postcard.varint32 (match e.kind with | .file => 0 | .directory => 1 | .symlink => 2) ++
    Postcard.varint64 e.size ++ Postcard.encodeOption Subtype.val e.content ++
    Postcard.encodeOption Postcard.encodeBytes e.symlinkTarget

/-- What the hasher of `digest_entries` is fed. -/
def hashedEntries (entries : List DirectoryEntry) : Bytes :=
  entries.flatMap fun e => leBytes64 (postcardEntry e).length ++ postcardEntry e

/-- `d/`, and `d/b` holding `02`. -/
def sourceTree : DirectoryManifest where
  root := ⟨[0x6a, 0x48, 0xa1, 0x3c, 0xc0, 0xae, 0x8c, 0x40, 0xaf, 0x64, 0xe3, 0x33,
    0xb9, 0x8f, 0xb3, 0xfb, 0x0b, 0x20, 0x5a, 0xc6, 0x3d, 0xd9, 0xfc, 0x8e,
    0x78, 0xbf, 0x85, 0xee, 0x9c, 0x99, 0x8f, 0x51], rfl⟩
  entries := [directoryEntry "d", byteFile "d/b" contentTwo]

/-- `a` holding `02`, and `x` holding `03`. -/
def destinationTree : DirectoryManifest where
  root := ⟨[0x42, 0x34, 0x21, 0x59, 0x4f, 0x3a, 0x60, 0x5d, 0xd6, 0x56, 0x1e, 0x1e,
    0xb3, 0xc2, 0x33, 0xce, 0xeb, 0xd4, 0x8f, 0x32, 0xee, 0x1c, 0xb2, 0xf1,
    0xea, 0x3f, 0xf9, 0x1e, 0x7a, 0x02, 0x0d, 0x55], rfl⟩
  entries := [byteFile "a" contentTwo, byteFile "x" contentThree]

/-- Both trees together. -/
def unionTree : DirectoryManifest where
  root := ⟨[0x74, 0xdd, 0x9a, 0x15, 0xc5, 0xdc, 0xf0, 0x8f, 0x8c, 0xeb, 0x36, 0xd8,
    0x97, 0x74, 0xfc, 0x4e, 0x43, 0x61, 0x48, 0xc5, 0xb9, 0x50, 0xca, 0x14,
    0xfd, 0xcb, 0xec, 0xe9, 0x97, 0xf2, 0x6f, 0x18], rfl⟩
  entries := [byteFile "a" contentTwo, directoryEntry "d", byteFile "d/b" contentTwo,
    byteFile "x" contentThree]

/-- Postcard, and BLAKE3 on the bytes of the three trees. -/
def treeExternals : Externals where
  postcard e := some (postcardEntry e)
  blake3 b := if b = hashedEntries sourceTree.entries then sourceTree.root
    else if b = hashedEntries destinationTree.entries then destinationTree.root
    else unionTree.root

/-- The plan between the two trees: create `d`, move `a` to `d/b`, delete `x`. -/
def treePlan : ReconcilePlan where
  sourceRevision := ⟨sourceTree.root⟩
  expectedDestinationRevision := ⟨destinationTree.root⟩
  deletePolicy := .delete
  operations := [.put (directoryEntry "d"),
    .move (byteFile "a" contentTwo) (byteFile "d/b" contentTwo),
    .delete ⟨utf8 "x", byteFile "x" contentThree, ⟨sourceTree.root⟩⟩]

theorem project_oneWay_delete_treePlan :
    ReconcilePlan.oneWay treeExternals sourceTree destinationTree .delete = .ok treePlan ∧
      treePlan.projectDestination treeExternals destinationTree = .ok sourceTree :=
  have h : ReconcilePlan.oneWay treeExternals sourceTree destinationTree .delete =
    .ok treePlan := by decide +kernel
  ⟨h, project_oneWay_delete _ _ _ _ h⟩

/-! ### The union under `Keep` -/

/-- The source's entries, together with the destination's entries whose path the
source lacks. -/
def keepUnion (source destination : DirectoryManifest) : List DirectoryEntry :=
  source.entries ++ destination.entries.filter fun e => source.lookup e.path = none

variable {ext : Externals} {source destination : DirectoryManifest} {entries : List DirectoryEntry}

theorem mem_keepUnion (hsrc : Verified ext source) (hdst : Verified ext destination) {e : DirectoryEntry} :
    e ∈ keepUnion source destination ↔ mirror .keep source.lookup destination.lookup e.path = some e := by
  unfold keepUnion mirror
  rw [mem_append, mem_filter, decide_eq_true_eq, Option.or_eq_some_iff,
    hsrc.lookup_eq_some_iff, hdst.lookup_eq_some_iff, and_iff_left rfl, and_iff_left rfl,
    and_comm]

theorem nodup_keepUnion (hsrc : Verified ext source) (hdst : Verified ext destination) :
    (keepUnion source destination).Nodup := by
  have hnodup : ∀ {m : DirectoryManifest}, Verified ext m → m.entries.Nodup := fun hm =>
    (pairwise_path_ne hm.sorted).imp fun hne heq => hne (congrArg _ heq)
  refine nodup_append.mpr ⟨hnodup hsrc, (hnodup hdst).filter _, fun a ha b hb hab => ?_⟩
  obtain ⟨-, hnone⟩ := mem_filter.mp hb
  rw [← hab, hsrc.lookup_of_mem ha] at hnone
  exact absurd hnone (by simp)

theorem mapValues_perm_keepUnion
    (hsrc : Verified ext source) (hdst : Verified ext destination) {entries : EntryMap}
    (hview : EntryMap.view entries = mirror .keep source.lookup destination.lookup)
    (htree : IsTree (EntryMap.view entries)) :
    ((mapValues entries).Pairwise fun a b => a.path < b.path) ∧
      (mapValues entries).Perm (keepUnion source destination) := by
  have hsorted : (mapValues entries).Pairwise fun a b => compare a.path b.path = .lt :=
    pairwise_mapValues fun _ _ hp => htree.path_eq hp
  refine ⟨hsorted.imp fun hlt => compare_eq_lt_iff_lt.mp hlt, ?_⟩
  refine (perm_ext_iff_of_nodup ?_ (nodup_keepUnion hsrc hdst)).mpr fun e => ?_
  · exact hsorted.imp fun hlt heq => ne_of_compare_lt hlt (congrArg _ heq)
  · rw [mem_mapValues, mem_keepUnion hsrc hdst, ← hview]
    exact ⟨fun ⟨p, hp⟩ => (htree.path_eq hp).symm ▸ hp, fun hp => ⟨_, hp⟩⟩

theorem exists_digestEntries :
    (∃ root, digestEntries ext entries = .ok root) ↔ ∀ e ∈ entries, ∃ bytes, ext.postcard e = some bytes := by
  have hfold : ∀ hasher : Bytes, (∃ out, entries.foldlM (digestEntry ext) hasher = .ok out) ↔
      ∀ e ∈ entries, ∃ bytes, ext.postcard e = some bytes := by
    induction entries with
    | nil => simp [pure, Except.pure]
    | cons e entries ih =>
      intro hasher
      rw [forall_mem_cons]
      simp only [foldlM_cons, bind_eq_ok, digestEntry]
      cases ext.postcard e with
      | none => simp
      | some bytes =>
        simp only [Except.ok.injEq, exists_eq_left', Option.some.injEq, exists_eq', true_and]
        exact ih _
  unfold digestEntries
  simp only [bind_eq_ok]
  rw [← hfold []]
  exact ⟨fun ⟨_, out, hout, _⟩ => ⟨out, hout⟩, fun ⟨out, hout⟩ => ⟨_, out, hout, rfl⟩⟩

theorem entries_perm_of_fromEntries
    {m : DirectoryManifest} (h : DirectoryManifest.fromEntries ext entries = .ok m) :
    m.entries.Perm entries := by
  unfold DirectoryManifest.fromEntries at h
  rw [ite_throw_eq_ok, check_bind_eq_ok] at h
  obtain ⟨-, -, h⟩ := h
  rw [ite_throw_eq_ok, check_bind_eq_ok, bind_eq_ok] at h
  obtain ⟨-, -, root, -, hm⟩ := h
  rw [← Except.ok.inj hm]
  exact perm_insertionSort _ _

theorem OneWayPlan.verified_union {plan : ReconcilePlan} (h : OneWayPlan ext source destination plan)
    (hpolicy : plan.deletePolicy = .keep) (hsorted : entries.Pairwise fun a b => a.path < b.path)
    (hperm : entries.Perm (keepUnion source destination))
    (hcount : (keepUnion source destination).length ≤ maxDirectoryEntries)
    (hbytes : totalDataBytes (keepUnion source destination) ≤ maxDirectoryDataBytes) :
    ∃ root, Verified ext ⟨root, entries⟩ := by
  have hsrc := h.source_verified
  have hdst := h.destination_verified
  -- every entry comes from one of the two snapshots
  have hside : ∀ e ∈ entries, e ∈ source.entries ∨ e ∈ destination.entries := fun e he =>
    (mem_append.mp (hperm.mem_iff.mp he)).imp_right mem_of_mem_filter
  have hmem : ∀ {e : DirectoryEntry}, e ∈ entries ↔
      mirror .keep source.lookup destination.lookup e.path = some e :=
    hperm.mem_iff.trans (mem_keepUnion hsrc hdst)
  have htree := hpolicy ▸ h.isTree_mirror
  obtain ⟨root, hroot⟩ := exists_digestEntries.mpr fun e he => (hside e he).elim
    (exists_digestEntries.mp ⟨_, hsrc.digest⟩ e) (exists_digestEntries.mp ⟨_, hdst.digest⟩ e)
  refine ⟨root, ⟨hperm.length_eq ▸ hcount, ?_, ?_, hsorted, hroot, ?_, ?_⟩⟩
  · exact fun e he => (hside e he).elim (hsrc.valid e) (hdst.valid e)
  · exact (hperm.map DirectoryEntry.dataBytes).sum_eq.trans_le hbytes
  · intro e he q n hq
    obtain ⟨d, hd, hk⟩ := htree.parent (hmem.mp he) hq
    obtain rfl := htree.path_eq hd
    exact ⟨d, hmem.mpr hd, rfl, hk⟩
  · exact fun e he => (hside e he).elim (hsrc.placed.depth e) (hdst.placed.depth e)

/-- **Keeping mirror.** A plan under `Keep` has no `Move` and no `Delete`; what it
projects on its destination has exactly the entries of the source and the
destination's entries at paths the source lacks; and the projection succeeds
whenever that union is within the limits of a snapshot. -/
theorem project_oneWay_keep (ext : Externals) (source destination : DirectoryManifest)
    (plan : ReconcilePlan) (h : ReconcilePlan.oneWay ext source destination .keep = .ok plan) :
    (∀ op ∈ plan.operations, (∀ src dst, op ≠ .move src dst) ∧ ∀ t, op ≠ .delete t) ∧
      (∀ result, plan.projectDestination ext destination = .ok result →
        result.entries.Perm (keepUnion source destination)) ∧
      ((keepUnion source destination).length ≤ maxDirectoryEntries →
        totalDataBytes (keepUnion source destination) ≤ maxDirectoryDataBytes →
        ∃ result, plan.projectDestination ext destination = .ok result) := by
  obtain ⟨hplan, hpolicy⟩ := oneWay_spec h
  obtain ⟨entries, hview, hproject⟩ := hplan.projectDestination_eq
  have htree := hplan.isTree_mirror
  rw [← hview] at htree
  rw [hpolicy] at hview
  obtain ⟨hsorted, hperm⟩ := mapValues_perm_keepUnion hplan.source_verified
    hplan.destination_verified hview htree
  refine ⟨?_, ?_, ?_⟩
  · intro op hop
    -- `verify` refuses both kinds of operation under `Keep`
    have hallow := hplan.wellFormed.allowed op hop
    constructor
    · rintro src dst rfl
      exact absurd (hpolicy.symm.trans hallow) (by decide)
    · rintro t rfl
      exact absurd (hpolicy.symm.trans hallow.1) (by decide)
  · intro result hresult
    rw [hproject] at hresult
    exact (entries_perm_of_fromEntries hresult).trans hperm
  · intro hcount hbytes
    obtain ⟨root, hverified⟩ := hplan.verified_union hpolicy hsorted hperm hcount hbytes
    exact ⟨_, hproject.trans (fromEntries_eq_ok hverified)⟩

/-- The same two trees under `Keep`: the rename becomes a `Put`. -/
def treeKeepPlan : ReconcilePlan where
  sourceRevision := ⟨sourceTree.root⟩
  expectedDestinationRevision := ⟨destinationTree.root⟩
  deletePolicy := .keep
  operations := [.put (directoryEntry "d"), .put (byteFile "d/b" contentTwo)]

theorem project_oneWay_keep_treeKeepPlan :
    ReconcilePlan.oneWay treeExternals sourceTree destinationTree .keep = .ok treeKeepPlan ∧
      treeKeepPlan.projectDestination treeExternals destinationTree = .ok unionTree ∧
      unionTree.entries.Perm (keepUnion sourceTree destinationTree) := by
  have h : oneWay treeExternals sourceTree destinationTree .keep = .ok treeKeepPlan := by decide +kernel
  have hproject : treeKeepPlan.projectDestination treeExternals destinationTree =
    .ok unionTree := by decide +kernel
  obtain ⟨-, hentries, -⟩ := project_oneWay_keep _ _ _ _ h
  exact ⟨h, hproject, hentries unionTree hproject⟩

end Rds
