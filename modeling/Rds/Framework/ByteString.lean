import Mathlib

/-!
# Byte strings, separators and bytewise order

A text of the modelled programs is its sequence of UTF-8 bytes. Every operation
they apply to a text — splitting at an ASCII separator, cutting at the last
separator, comparing — acts on bytes, so nothing is lost by forgetting the
scalar values, and every statement over `Bytes` covers all texts.

The file collects what the rest of the development uses about such strings:

* `rsplitOnce` cuts a list at the last occurrence of a separator; a path and its
  parent are related by it (`rsplitOnce_eq_some_iff`);
* the order `<` of lists is the one `compare` computes
  (`compare_eq_lt_iff_lt`), and a proper extension of a list is larger than the
  list (`lt_append_cons`);
* the number of segments of a list is one more than the number of separators
  (`length_splitOn`), so extending a list by a separator adds a segment.
-/

namespace Framework

open List

/-- A text, as the sequence of its UTF-8 bytes. -/
abbrev Bytes := List UInt8

/-- Equality of byte strings. A definition that uses one of these three facts names it. -/
instance instLawfulBEqBytes : LawfulBEq Bytes := inferInstance

/-- Byte strings are the keys of ordered maps. -/
instance instTransOrdBytes : Std.TransOrd Bytes := inferInstance

/-- So are lists of them. -/
instance instTransOrdListBytes : Std.TransOrd (List Bytes) := inferInstance

/-- One byte, `n` times. -/
def repeated (n : ℕ) (b : UInt8) : { bs : Bytes // bs.length = n } :=
  ⟨List.replicate n b, List.length_replicate⟩

/-- The bytes of a literal. -/
def utf8 (s : String) : Bytes := s.toList.flatMap String.utf8EncodeChar

/-! ### The last separator -/

section RSplit

variable {α : Type} [DecidableEq α]

/-- Cut a list at the last occurrence of `sep`, dropping that occurrence. -/
def rsplitOnce (sep : α) : List α → Option (List α × List α)
  | [] => none
  | a :: l =>
    match rsplitOnce sep l with
    | some (x, y) => some (a :: x, y)
    | none => if a = sep then some ([], l) else none

theorem rsplitOnce_eq_none_iff {sep : α} {l : List α} :
    rsplitOnce sep l = none ↔ sep ∉ l := by
  induction l with
  | nil => simp [rsplitOnce]
  | cons a l ih =>
    unfold rsplitOnce
    cases h : rsplitOnce sep l with
    | some xy =>
      have hmem : sep ∈ l := by
        by_contra hn
        rw [ih.mpr hn] at h
        exact absurd h (by simp)
      simp [hmem]
    | none =>
      have hn := ih.mp h
      by_cases ha : a = sep
      · simp [ha]
      · simp [ha, hn, Ne.symm ha]

/-- **The cut is the last one**: nothing after it is a separator. -/
theorem rsplitOnce_eq_some_iff {sep : α} {l x y : List α} :
    rsplitOnce sep l = some (x, y) ↔ l = x ++ sep :: y ∧ sep ∉ y := by
  induction l generalizing x y with
  | nil => simp [rsplitOnce]
  | cons a l ih =>
    unfold rsplitOnce
    cases h : rsplitOnce sep l with
    | some uv =>
      -- the first element is no cut, since another one is behind it
      have hmem : sep ∈ l := by
        rw [(ih.mp h).1]
        simp
      cases x with
      | nil => grind
      | cons b x =>
        have hrest := @ih x y
        grind
    | none =>
      have hn := rsplitOnce_eq_none_iff.mp h
      cases x <;> grind

/-- Cutting strictly shortens the list, which is what a walk over the successive
cuts recurses on. -/
theorem length_lt_of_rsplitOnce {sep : α} {l x y : List α}
    (h : rsplitOnce sep l = some (x, y)) : x.length < l.length := by
  rw [(rsplitOnce_eq_some_iff.mp h).1, length_append, length_cons]
  omega

theorem rsplitOnce_append_cons (sep : α) (d r : List α) :
    ∃ x y, rsplitOnce sep (d ++ sep :: r) = some (x, y) ∧ (x = d ∨ ∃ r', x = d ++ sep :: r') := by
  cases h : rsplitOnce sep (d ++ sep :: r) with
  | none => exact absurd (by simp) (rsplitOnce_eq_none_iff.mp h)
  | some xy =>
    obtain ⟨x, y⟩ := xy
    refine ⟨x, y, rfl, ?_⟩
    obtain ⟨hl, hy⟩ := rsplitOnce_eq_some_iff.mp h
    rcases append_eq_append_iff.mp hl with ⟨a, hx, ha⟩ | ⟨a, hd, ha⟩
    · cases a with
      | nil => exact .inl (by rw [hx, append_nil])
      | cons b a =>
        simp only [cons_append, cons.injEq] at ha
        exact .inr ⟨a, by rw [hx, ha.1]⟩
    cases a with
    | nil => exact .inl (by rw [hd, append_nil])
    | cons b a =>
      simp only [cons_append, cons.injEq] at ha
      exact absurd (by rw [ha.2]; simp) hy

end RSplit

/-! ### Segments -/

theorem length_splitOn {α : Type} [DecidableEq α] (sep : α) (l : List α) :
    (l.splitOn sep).length = l.count sep + 1 := by
  unfold splitOn
  induction l with
  | nil => rfl
  | cons a l ih =>
    rw [splitOnP_cons_eq_if_modifyHead]
    by_cases h : a = sep
    · simp [h, ih]
    · simp [h, ih]

theorem length_splitOn_append_cons {α : Type} [DecidableEq α] (sep : α) (d r : List α) :
    (d.splitOn sep).length < ((d ++ sep :: r).splitOn sep).length := by
  rw [length_splitOn, length_splitOn, count_append, count_cons_self]
  omega

/-! ### The bytewise order -/

section Order

variable {α : Type} [LT α]

theorem compare_eq_lt_iff_lt [Ord α] [LE α] [Std.LawfulOrderOrd α] [Std.LawfulOrderLT α]
    [Std.LawfulEqOrd α] {l l' : List α} : compare l l' = .lt ↔ l < l' := by
  induction l generalizing l' with
  | nil =>
    cases l' with
    | nil => simp
    | cons b l' => simp
  | cons a l ih =>
    cases l' with
    | nil => simp
    | cons b l' =>
      rw [List.compare_cons_cons, List.cons_lt_cons_iff, Ordering.then_eq_lt, ih,
        Std.compare_eq_lt, Std.LawfulEqOrd.compare_eq_iff_eq]

theorem lt_append_cons (d : List α) (a : α) (r : List α) : d < d ++ a :: r := by
  induction d with
  | nil => simp
  | cons b d ih => rw [cons_append, List.cons_lt_cons_iff]; exact .inr ⟨rfl, ih⟩

end Order

end Framework
