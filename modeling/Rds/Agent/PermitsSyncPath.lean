import Rds.Agent.SyncScope

/-!
# Two tests of one scope

A verified grant answers for itself whether a path is in its scope
(`VerifiedGrant::permits_sync_path`), and the agent asks the `Access` it builds from the grant.
The agent splits the entries of the grant on both separators first; the grant reads them as
Unix paths. The readings agree on entries without `\` whose first segment is not `.`, and no
normalized path is inside an entry spelled otherwise (`startsWith_iff`).
-/

namespace Rds

open Framework UnixPath List

/-- `VerifiedGrant::permits_sync_path`, on the `sync_paths` of the grant. -/
def permitsSyncPath (syncPaths : Option (List Bytes)) (rel : Bytes) : Bool :=
  match syncPaths with
  | some paths => paths.any fun scope => pathEq rel scope || startsWith rel scope
  | none => true

/-- An entry that reads the same with either separator set. -/
def SpelledPlainly (scope : Bytes) : Prop :=
  backslash ∉ scope ∧ (scope.splitOn slash).head? ≠ some dot

theorem splitOnP_congr {p q : UInt8 → Bool} {l : Bytes} (h : ∀ b ∈ l, p b = q b) :
    l.splitOnP p = l.splitOnP q := by
  induction l with
  | nil => rfl
  | cons a l ih =>
    rw [forall_mem_cons] at h
    rw [splitOnP_cons_eq_if_modifyHead, splitOnP_cons_eq_if_modifyHead, h.1, ih h.2]

/-- A byte that does not separate is in some segment. -/
theorem exists_mem_splitOn {sep b : UInt8} (hne : b ≠ sep) {l : Bytes} (hb : b ∈ l) :
    ∃ t ∈ l.splitOn sep, b ∈ t := by
  unfold splitOn
  induction l with
  | nil => simp at hb
  | cons a l ih =>
    rw [splitOnP_cons_eq_if_modifyHead]
    rcases mem_cons.mp hb with rfl | hb
    · rw [if_neg (by simpa using hne)]
      obtain ⟨t, ts, hts⟩ := exists_cons_of_ne_nil (splitOnP_ne_nil (· == sep) l)
      exact ⟨b :: t, by simp [hts]⟩
    obtain ⟨t, ht, hbt⟩ := ih hb
    split
    · exact ⟨t, mem_cons_of_mem _ ht, hbt⟩
    cases hl : l.splitOnP (· == sep) with
    | nil => simp [hl] at ht
    | cons u us =>
      rw [hl, mem_cons] at ht
      rcases ht with rfl | ht
      · exact ⟨a :: t, mem_cons_self, mem_cons_of_mem _ hbt⟩
      · exact ⟨t, mem_cons_of_mem _ ht, hbt⟩

/-- Without a `..` the components are the segments that are neither empty nor `.`. -/
theorem filterMap_segment {l : List Bytes} (h : ∀ s ∈ l.filter (fun s => s ≠ [] ∧ s ≠ dot), s ≠ dotDot) :
    l.filterMap segment = (l.filter fun s => s ≠ [] ∧ s ≠ dot).map .normal := by
  induction l with
  | nil => rfl
  | cons s l ih =>
    by_cases hs : s ≠ [] ∧ s ≠ dot
    · rw [filter_cons_of_pos (by simpa using hs), forall_mem_cons] at h
      rw [filter_cons_of_pos (by simpa using hs), map_cons, ← ih h.2]
      exact filterMap_cons_some (by simp [UnixPath.segment, hs.1, hs.2, h.1])
    · have hnone : segment s = none := if_pos (by simpa [imp_iff_not_or] using hs)
      rw [filter_cons_of_neg (by simpa using hs)] at h ⊢
      rw [filterMap_cons_none hnone, ih h]

section Scope

variable {scope rel n : Bytes}

theorem not_isAbsolute_scope (hs : checkScopePath scope = .ok ()) : isAbsolute scope = false := by
  unfold checkScopePath at hs
  rw [ite_throw_eq_ok, ite_throw_eq_ok, ite_throw_eq_ok] at hs
  obtain ⟨-, -, hsep, -⟩ := hs
  unfold isAbsolute
  rw [decide_eq_false_iff_not]
  intro hhead
  exact hsep (.inl (by rw [hhead]; decide))

/-- The components of an accepted entry that is spelled plainly. -/
theorem components_scope (hs : checkScopePath scope = .ok ()) (hplain : SpelledPlainly scope) :
    components scope = (realParts scope).map .normal := by
  obtain ⟨hnames, -⟩ := checkScopePath_eq_ok hs
  have hsplit : scope.splitOnP isSep = scope.splitOn slash := splitOnP_congr fun b hb => by
    have : b ≠ backslash := fun h => hplain.1 (h ▸ hb)
    simp [isSep, this]
  unfold components
  unfold realParts at hnames ⊢
  rw [hsplit] at hnames ⊢
  rw [not_isAbsolute_scope hs, if_neg Bool.false_ne_true, if_neg hplain.2, nil_append,
    filterMap_segment fun s h => (hnames s h).ne_dotDot]

/-- **One entry, read as a Unix path.** -/
theorem startsWith_iff (hs : checkScopePath scope = .ok ()) (hr : checkRelPath rel = .ok n) :
    (pathEq n scope || startsWith n scope) = true ↔
      SpelledPlainly scope ∧ realParts scope <+: realParts rel := by
  obtain ⟨rfl, hnames, -⟩ := checkRelPath_eq_ok hr
  have hn := components_foldl_push hnames
  have hinj : Function.Injective Component.normal := fun a b h => by simpa using h
  have hiff : (pathEq ((realParts rel).foldl push []) scope ||
      startsWith ((realParts rel).foldl push []) scope) = true ↔
        components scope <+: (realParts rel).map .normal := by
    unfold pathEq startsWith
    rw [Bool.or_eq_true, hn, isPrefixOf_iff_prefix, decide_eq_true_eq]
    exact ⟨fun h => h.elim (fun heq => heq ▸ prefix_refl _) id, .inr⟩
  rw [hiff]
  constructor
  · intro hpre
    have hplain : SpelledPlainly scope := by
      refine ⟨fun hback => ?_, fun hdot => ?_⟩
      · -- the component around a `\` is not a segment of a normalized path
        obtain ⟨t, ht, hbt⟩ : ∃ t ∈ scope.splitOn slash, backslash ∈ t :=
          exists_mem_splitOn (by decide) hback
        have hseg : segment t = some (.normal t) := by
          unfold UnixPath.segment
          rw [if_neg, if_neg]
          · rintro rfl
            exact absurd hbt (by decide)
          · rintro (rfl | rfl) <;> exact absurd hbt (by decide)
        have hmem : Component.normal t ∈ components scope :=
          mem_append_right _ (mem_filterMap.mpr ⟨t, ht, hseg⟩)
        obtain ⟨t', ht', heq⟩ := mem_map.mp (hpre.subset hmem)
        rw [hinj heq] at ht'
        have hsep := isSep_of_mem_splitOnP (mem_of_mem_filter ht') backslash hbt
        exact absurd hsep (by decide)
      · have hmem : Component.curDir ∈ components scope := by
          unfold components
          rw [not_isAbsolute_scope hs, if_pos hdot]
          exact mem_cons_self
        obtain ⟨t, -, heq⟩ := mem_map.mp (hpre.subset hmem)
        cases heq
    refine ⟨hplain, ?_⟩
    rw [components_scope hs hplain] at hpre
    exact (prefix_map_iff_of_injective hinj).mp hpre
  · rintro ⟨hplain, hpre⟩
    rw [components_scope hs hplain]
    exact hpre.map _

/-- **When the tests agree.** Exactly when a path inside some entry is also inside an entry
spelled plainly. -/
theorem permitsSyncPath_eq_iff {read write : Bool} {syncPaths : Option (List Bytes)}
    (hscopes : ∀ scopes ∈ syncPaths, ∀ s ∈ scopes, checkScopePath s = .ok ())
    (hr : checkRelPath rel = .ok n) :
    permitsSyncPath syncPaths n = (grantAccess read write syncPaths).permitsPath n ↔
      ∀ scopes ∈ syncPaths, (∃ s ∈ scopes, realParts s <+: realParts rel) →
        ∃ s ∈ scopes, SpelledPlainly s ∧ realParts s <+: realParts rel := by
  cases syncPaths with
  | none => simp [permitsSyncPath, grantAccess, Access.permitsPath]
  | some scopes =>
    have hs := hscopes scopes rfl
    have haccess : (grantAccess read write (some scopes)).permitsPath n = true ↔
        ∃ s ∈ scopes, realParts s <+: realParts rel := by
      change ((scopes.map scopePath).any _) = true ↔ _
      rw [any_map, any_eq_true]
      exact exists_congr fun s => and_congr_right fun h => permits_scopePath_iff (hs s h) hr
    have hgrant : permitsSyncPath (some scopes) n = true ↔
        ∃ s ∈ scopes, SpelledPlainly s ∧ realParts s <+: realParts rel := by
      change scopes.any _ = true ↔ _
      rw [any_eq_true]
      exact exists_congr fun s => and_congr_right fun h => startsWith_iff (hs s h) hr
    rw [Bool.eq_iff_iff, haccess, hgrant]
    simp only [Option.mem_def, Option.some.injEq, forall_eq']
    exact ⟨Iff.mpr, fun h => ⟨fun ⟨s, hmem, _, hp⟩ => ⟨s, hmem, hp⟩, h⟩⟩

/-- The entry `docs` is spelled plainly, so the tests agree on `docs/a`. -/
theorem permitsSyncPath_docs :
    permitsSyncPath (some [utf8 "docs"]) (utf8 "docs/a") =
        (grantAccess true true (some [utf8 "docs"])).permitsPath (utf8 "docs/a") ↔
      ∀ scopes ∈ some [utf8 "docs"], (∃ s ∈ scopes, realParts s <+: realParts (utf8 "docs/a")) →
          ∃ s ∈ scopes, SpelledPlainly s ∧ realParts s <+: realParts (utf8 "docs/a") :=
  permitsSyncPath_eq_iff (by decide) (by decide)

/-- The entry `a\b` is accepted; the agent reads it as `a/b`, the grant as one name. -/
theorem permitsSyncPath_backslash :
    checkScopePath (utf8 "a\\b") = .ok () ∧ checkRelPath (utf8 "a/b") = .ok (utf8 "a/b") ∧
      (grantAccess true true (some [utf8 "a\\b"])).permitsPath (utf8 "a/b") = true ∧
      permitsSyncPath (some [utf8 "a\\b"]) (utf8 "a/b") = false := by
  decide

end Scope

end Rds
