import Rds.Sync.RelPath

/-!
# Normalizing a path twice

A path that `check_rel_path` accepted is passed on in its normalized form: `serve_inner` hands it to
`Journal::open` or sends it to the other peer, and both call `check_rel_path` again. So the
normalized form should be accepted, and normalize to itself.

The segment loop does its part (`foldlM_checkPart_realParts`): the segments of the normalized path
are the real segments of the path, none of which it refuses. But the test for absolute spellings looks
at the first bytes of the string it is given, before removable segments are dropped. A path such as
`./~x` passes it, and its normalized form `~x` does not. `checkRelPath_again_iff` says exactly when
the second check accepts.
-/

namespace Rds

open Framework UnixPath List

/-- The normalized form has a first segment that spells an absolute path: it begins with `~`, or its
second byte is `:`. -/
def looksAbsolute (segment : Bytes) : Prop :=
  segment.head? = some 126 ∨ segment[1]? = some 58

instance (segment : Bytes) : Decidable (looksAbsolute segment) :=
  inferInstanceAs (Decidable (_ ∨ _))

/-! ### Segments of a joined path -/

theorem splitOnP_intercalate {ps : List Bytes} (hps : ∀ s ∈ ps, ∀ b ∈ s, isSep b = false)
    (hne : ps ≠ []) : ([slash].intercalate ps).splitOnP isSep = ps := by
  induction ps with
  | nil => exact absurd rfl hne
  | cons s ps ih =>
    have hs : ∀ b ∈ s, isSep b = false := hps s mem_cons_self
    have hrest : ∀ t ∈ ps, ∀ b ∈ t, isSep b = false :=
      fun t ht => hps t (mem_cons_of_mem s ht)
    cases ps with
    | nil =>
      rw [intercalate_singleton]
      exact splitOnP_eq_singleton hs
    | cons t ps =>
      rw [intercalate_cons_cons, append_assoc, singleton_append,
        splitOnP_append_cons_of_forall_mem hs slash (by decide), ih hrest (by simp)]

theorem length_intercalate {ps : List Bytes} (hne : ps ≠ []) :
    ([slash].intercalate ps).length + 1 = (ps.map fun s => s.length + 1).sum := by
  induction ps with
  | nil => exact absurd rfl hne
  | cons s ps ih =>
    cases ps with
    | nil => simp [intercalate_singleton]
    | cons t ps =>
      have htail := ih (by simp)
      rw [intercalate_cons_cons, map_cons, sum_cons]
      simp only [length_append, length_singleton]
      omega

theorem length_splitOnP (rel : Bytes) :
    ((rel.splitOnP isSep).map fun s => s.length + 1).sum = rel.length + 1 := by
  induction rel with
  | nil => rfl
  | cons b rel ih =>
    rw [splitOnP_cons_eq_if_modifyHead]
    by_cases hb : isSep b = true
    · rw [if_pos hb, map_cons, sum_cons, length_nil, length_cons]
      omega
    rw [if_neg hb]
    obtain ⟨s, ps, hsplit⟩ := exists_cons_of_ne_nil (splitOnP_ne_nil isSep rel)
    rw [hsplit, map_cons, sum_cons] at ih
    rw [hsplit, modifyHead_cons, map_cons, sum_cons, length_cons, length_cons]
    omega

theorem mem_of_mem_splitOnP {rel s : Bytes} {b : UInt8} (hs : s ∈ rel.splitOnP isSep)
    (hb : b ∈ s) : b ∈ rel := by
  induction rel generalizing s with
  | nil =>
    rw [splitOnP_nil, mem_singleton] at hs
    exact hs ▸ hb
  | cons a rel ih =>
    rw [splitOnP_cons_eq_if_modifyHead] at hs
    obtain ⟨t, ps, hsplit⟩ := exists_cons_of_ne_nil (splitOnP_ne_nil isSep rel)
    by_cases ha : isSep a = true
    · rw [if_pos ha] at hs
      rcases mem_cons.mp hs with rfl | hs
      · exact absurd hb not_mem_nil
      · exact mem_cons_of_mem a (ih hs hb)
    rw [if_neg ha, hsplit] at hs
    rcases mem_cons.mp hs with rfl | hs
    · rcases mem_cons.mp hb with rfl | hb
      · exact mem_cons_self
      · exact mem_cons_of_mem a (ih (hsplit ▸ mem_cons_self) hb)
    · exact mem_cons_of_mem a (ih (hsplit ▸ mem_cons_of_mem t hs) hb)

/-! ### The normalized form -/

variable {rel n : Bytes}

theorem mem_splitOnP_of_mem_realParts {s : Bytes} (hs : s ∈ realParts rel) :
    s ∈ rel.splitOnP isSep :=
  mem_of_mem_filter hs

section

variable (h : checkRelPath rel = .ok n)
include h

theorem eq_intercalate_of_checkRelPath :
    n = [slash].intercalate (realParts rel) := by
  obtain ⟨hn, hplain, -⟩ := checkRelPath_eq_ok h
  rw [hn, foldl_push hplain]

/-- **The segments of the normalized form** are the real segments of the path. -/
theorem splitOnP_of_checkRelPath :
    n.splitOnP isSep = realParts rel := by
  obtain ⟨-, -, hne⟩ := checkRelPath_eq_ok h
  rw [eq_intercalate_of_checkRelPath h]
  exact splitOnP_intercalate
    (fun s hs => isSep_of_mem_splitOnP (mem_splitOnP_of_mem_realParts hs)) hne

theorem realParts_of_checkRelPath :
    realParts n = realParts rel := by
  have hfilter : (realParts rel).filter (fun s => s ≠ [] ∧ s ≠ dot) = realParts rel :=
    filter_eq_self.mpr fun s hs =>
      of_mem_filter (p := fun s => decide (s ≠ [] ∧ s ≠ dot)) hs
  rw [← hfilter, ← splitOnP_of_checkRelPath h]
  rfl

/-- **The segment loop accepts segments it has accepted before.** -/
theorem foldlM_checkPart_realParts (rel' : Bytes)
    {parts : List Bytes} (hparts : ∀ s ∈ parts, s ∈ realParts rel) (out : Bytes) :
    parts.foldlM (checkPart rel') out = .ok (parts.foldl push out) := by
  obtain ⟨-, hall⟩ := foldlM_checkPart (foldlM_of_checkRelPath h).1
  induction parts generalizing out with
  | nil => rfl
  | cons s parts ih =>
    have hs := hparts s mem_cons_self
    obtain ⟨hdd, hstate⟩ := hall s hs
    have hreal := of_mem_filter hs
    rw [decide_eq_true_eq] at hreal
    have hpart : checkPart rel' out s = .ok (push out s) := by
      unfold checkPart
      rw [if_neg (not_or.mpr hreal), if_neg hdd, if_neg (by simp [hstate])]
    rw [foldlM_cons, hpart]
    exact ih (fun t ht => hparts t (mem_cons_of_mem s ht)) (push out s)

theorem ne_nil_of_checkRelPath : n ≠ [] :=
  (foldlM_of_checkRelPath h).2

theorem length_le_of_checkRelPath : n.length ≤ rel.length := by
  obtain ⟨-, -, hne⟩ := checkRelPath_eq_ok h
  have hjoined := length_intercalate hne
  rw [← eq_intercalate_of_checkRelPath h] at hjoined
  have hsplit := length_splitOnP rel
  -- dropping segments makes the sum smaller
  have hle : ((realParts rel).map fun s => s.length + 1).sum
      ≤ ((rel.splitOnP isSep).map fun s => s.length + 1).sum :=
    List.Sublist.sum_le_sum (filter_sublist.map _) fun _ _ => Nat.zero_le _
  omega

theorem zero_notMem_of_checkRelPath : 0 ∉ n := by
  have hrel : 0 ∉ rel := by
    unfold checkRelPath at h
    rw [ite_throw_eq_ok, ite_throw_eq_ok] at h
    exact h.2.1
  intro hzero
  -- the bytes of the normalized form are separators and bytes of the path
  have hmem : ∀ (ps : List Bytes) (b : UInt8), b ∈ [slash].intercalate ps → b = slash ∨ ∃ s ∈ ps, b ∈ s := by
    intro ps b hb
    induction ps with
    | nil => exact absurd hb not_mem_nil
    | cons s ps ih =>
      cases ps with
      | nil => exact .inr ⟨s, mem_cons_self, by rwa [intercalate_singleton] at hb⟩
      | cons t ps =>
        rw [intercalate_cons_cons, mem_append, mem_append, mem_singleton] at hb
        rcases hb with (hb | hb) | hb
        · exact .inr ⟨s, mem_cons_self, hb⟩
        · exact .inl hb
        · rcases ih hb with hb | ⟨u, hu, hbu⟩
          · exact .inl hb
          · exact .inr ⟨u, mem_cons_of_mem s hu, hbu⟩
  rw [eq_intercalate_of_checkRelPath h] at hzero
  rcases hmem _ _ hzero with hslash | ⟨s, hs, hb⟩
  · exact absurd hslash (by decide)
  · exact hrel (mem_of_mem_splitOnP (mem_splitOnP_of_mem_realParts hs) hb)

end

theorem absolute_iff_looksAbsolute {s : Bytes} {ps : List Bytes} (hs : s ≠ [])
    (hsep : ∀ b ∈ s, isSep b = false) :
    (([slash].intercalate (s :: ps)).head?.any isSep ∨ ([slash].intercalate (s :: ps))[1]? = some 58 ∨
        ([slash].intercalate (s :: ps)).head? = some 126) ↔ looksAbsolute s := by
  obtain ⟨a, t, rfl⟩ := exists_cons_of_ne_nil hs
  have ha : isSep a = false := hsep a mem_cons_self
  unfold looksAbsolute
  cases ps with
  | nil => simp [ha, or_comm]
  | cons u ps =>
    cases t with
    | nil => simp [ha, slash]
    | cons b t => simp [ha, or_comm]

/-- **A normalized path is accepted again** unless its first segment spells an absolute path. Then it
normalizes to itself. -/
theorem checkRelPath_again_iff {rel n : Bytes} (h : checkRelPath rel = .ok n) :
    (checkRelPath n = .ok n ↔ ∀ s, (realParts rel).head? = some s → ¬ looksAbsolute s) ∧
      ∀ m, checkRelPath n = .ok m → m = n := by
  obtain ⟨hn, hplain, hne⟩ := checkRelPath_eq_ok h
  obtain ⟨s, ps, hparts⟩ := exists_cons_of_ne_nil hne
  have hself : ∀ m, checkRelPath n = .ok m → m = n := by
    intro m hm
    rw [eq_intercalate_of_checkRelPath hm, realParts_of_checkRelPath h, ← eq_intercalate_of_checkRelPath h]
  have habs : (n.head?.any isSep ∨ n[1]? = some 58 ∨ n.head? = some 126) ↔ looksAbsolute s := by
    rw [eq_intercalate_of_checkRelPath h, hparts]
    have hs : s ∈ realParts rel := hparts ▸ mem_cons_self
    exact absolute_iff_looksAbsolute (hplain s hs).ne_nil
      (isSep_of_mem_splitOnP (mem_splitOnP_of_mem_realParts hs))
  refine ⟨?_, hself⟩
  rw [hparts]
  constructor
  · intro hm t ht
    cases ht
    unfold checkRelPath at hm
    rw [ite_throw_eq_ok, ite_throw_eq_ok, ite_throw_eq_ok] at hm
    exact fun hlooks => hm.2.2.1 (habs.mpr hlooks)
  intro hlooks
  have hlen : rel.length ≤ maxRelPath := by
    unfold checkRelPath at h
    rw [ite_throw_eq_ok, not_or, Nat.not_lt] at h
    exact h.1.2
  have hbound := (length_le_of_checkRelPath h).trans hlen
  unfold checkRelPath
  rw [if_neg (by simpa [ne_nil_of_checkRelPath h] using hbound),
    if_neg (zero_notMem_of_checkRelPath h), if_neg (fun hx => hlooks s rfl (habs.mp hx)),
    splitOnP_of_checkRelPath h, foldlM_checkPart_realParts h n (fun _ ht => ht) [], ← hn]
  exact if_neg (ne_nil_of_checkRelPath h)

/-- A path with a segment to drop. -/
theorem checkRelPath_again_iff_docs :
    checkRelPath (utf8 "./docs//a") = .ok (utf8 "docs/a") ∧
      ((checkRelPath (utf8 "docs/a") = .ok (utf8 "docs/a") ↔
          ∀ s, (realParts (utf8 "./docs//a")).head? = some s → ¬ looksAbsolute s) ∧
        ∀ m, checkRelPath (utf8 "docs/a") = .ok m → m = utf8 "docs/a") := by
  have h : checkRelPath (utf8 "./docs//a") = .ok (utf8 "docs/a") := by decide
  exact ⟨h, checkRelPath_again_iff h⟩

/-- The path `./~x` is accepted, and its normalized form is not. -/
theorem checkRelPath_again_tilde :
    checkRelPath (utf8 "./~x") = .ok (utf8 "~x") ∧ checkRelPath (utf8 "~x")
        = .error (.manifest [.text "absolute rel_path ", .debug (utf8 "~x")]) := by
  decide

end Rds
