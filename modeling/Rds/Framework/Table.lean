import Mathlib

/-!
# Tables

A map that a program keeps in a hash table: rows with distinct keys, in an order that means nothing. A
lookup is membership (`get_eq_some_iff`), and each operation has one lemma that says what it makes of the
lookups, and one for the number of rows.
-/

namespace Framework

open List Option

/-- Rows with distinct keys. -/
structure Table (κ ν : Type) where
  rows : List (κ × ν)
  nodup : (rows.map Prod.fst).Nodup

namespace Table

variable {κ ν : Type} [DecidableEq κ]

/-- No rows. -/
def empty : Table κ ν := ⟨[], List.nodup_nil⟩

/-- The number of rows. -/
def size (t : Table κ ν) : ℕ := t.rows.length

/-- The value of a key. -/
def get (t : Table κ ν) (k : κ) : Option ν := (t.rows.find? fun r => r.1 = k).map Prod.snd

/-- Keep the rows that pass a test. -/
def retain (p : κ → ν → Bool) (t : Table κ ν) : Table κ ν where
  rows := t.rows.filter fun r => p r.1 r.2
  nodup := t.nodup.sublist (List.filter_sublist.map _)

/-- Take a key out. -/
def remove (k : κ) (t : Table κ ν) : Table κ ν := t.retain fun k' _ => k' ≠ k

/-- Give a key a value. -/
def insert (k : κ) (v : ν) (t : Table κ ν) : Table κ ν where
  rows := (k, v) :: (t.remove k).rows
  nodup := by
    rw [List.map_cons, List.nodup_cons]
    refine ⟨fun hmem => ?_, (t.remove k).nodup⟩
    obtain ⟨r, hr, hk⟩ := List.mem_map.mp hmem
    have hne := (List.mem_filter.mp hr).2
    exact absurd hk (by simpa using hne)

/-- Change every value. -/
def mapValues (f : ν → ν) (t : Table κ ν) : Table κ ν where
  rows := t.rows.map fun r => (r.1, f r.2)
  nodup := by
    rw [List.map_map]
    exact t.nodup

variable {t : Table κ ν} {k k' : κ} {v : ν}

/-- **A lookup is membership.** -/
theorem get_eq_some_iff : t.get k = some v ↔ (k, v) ∈ t.rows := by
  unfold get
  rw [map_eq_some_iff]
  constructor
  · rintro ⟨r, hr, rfl⟩
    have hk := find?_some hr
    rw [decide_eq_true_eq] at hk
    rw [← hk]
    exact mem_of_find?_eq_some hr
  intro hmem
  cases hfind : t.rows.find? fun r => r.1 = k with
  | none => exact absurd (find?_eq_none.mp hfind _ hmem) (by simp)
  | some r =>
    -- two rows of one key are one row
    have hk := find?_some hfind
    rw [decide_eq_true_eq] at hk
    have heq : r = (k, v) :=
      inj_on_of_nodup_map t.nodup (mem_of_find?_eq_some hfind) hmem hk
    exact ⟨r, rfl, by rw [heq]⟩

theorem get_retain (p : κ → ν → Bool) : (t.retain p).get k = (t.get k).filter (p k) := by
  refine ext fun v => ?_
  rw [get_eq_some_iff, filter_eq_some_iff, get_eq_some_iff]
  exact mem_filter

theorem get_remove : (t.remove k).get k' = if k' = k then none else t.get k' := by
  unfold remove
  rw [get_retain]
  by_cases h : k' = k
  · cases t.get k' <;> simp [h]
  · cases t.get k' <;> simp [h]

theorem get_insert : (t.insert k v).get k' = if k' = k then some v else t.get k' := by
  refine ext fun w => ?_
  rw [get_eq_some_iff]
  show (k', w) ∈ (k, v) :: (t.remove k).rows ↔ _
  rw [mem_cons, ← get_eq_some_iff, get_remove]
  by_cases h : k' = k
  · simp [h, eq_comm]
  · simp [h]

theorem get_of_get_remove (h : (t.remove k).get k' = some v) : t.get k' = some v := by
  rw [get_remove] at h
  split at h
  · cases h
  · exact h

theorem get_insert_cases {v' : ν} (h : (t.insert k v).get k' = some v') :
    (k' = k ∧ v' = v) ∨ t.get k' = some v' := by
  rw [get_insert] at h
  split at h
  next heq => exact .inl ⟨heq, (some.inj h).symm⟩
  · exact .inr h

theorem get_mapValues (f : ν → ν) : (t.mapValues f).get k = (t.get k).map f := by
  refine ext fun v => ?_
  rw [get_eq_some_iff, map_eq_some_iff]
  constructor
  · intro hmem
    obtain ⟨r, hr, heq⟩ := mem_map.mp hmem
    obtain ⟨rfl, rfl⟩ := Prod.mk.inj heq
    exact ⟨r.2, get_eq_some_iff.mpr hr, rfl⟩
  · rintro ⟨w, hw, rfl⟩
    exact mem_map.mpr ⟨(k, w), get_eq_some_iff.mp hw, rfl⟩

omit [DecidableEq κ] in
theorem size_retain_le (p : κ → ν → Bool) : (t.retain p).size ≤ t.size := length_filter_le _ _

theorem size_insert : (t.insert k v).size = (t.remove k).size + 1 := rfl

/-- A key that is there has one row. -/
theorem rows_perm (h : t.get k = some v) : t.rows ~ (k, v) :: (t.remove k).rows := by
  have hnodup : t.rows.Nodup := .of_map _ t.nodup
  refine (perm_ext_iff_of_nodup hnodup (.of_map Prod.fst (t.insert k v).nodup)).mpr fun r => ?_
  have hrest : r ∈ (t.remove k).rows ↔ r ∈ t.rows ∧ r.1 ≠ k := by
    rw [remove, retain, mem_filter, decide_eq_true_eq]
  show r ∈ t.rows ↔ r ∈ (k, v) :: (t.remove k).rows
  rw [mem_cons, hrest]
  refine ⟨fun hr => ?_, ?_⟩
  · by_cases hk : r.1 = k
    · have hget : t.get k = some r.2 := hk ▸ get_eq_some_iff.mpr hr
      cases h.symm.trans hget
      exact .inl (Prod.ext hk rfl)
    · exact .inr ⟨hr, hk⟩
  · rintro (rfl | hr)
    · exact get_eq_some_iff.mp h
    · exact hr.1

theorem size_remove_of_get (h : t.get k = some v) : (t.remove k).size + 1 = t.size :=
  (rows_perm h).length_eq.symm

theorem get_of_size_zero (h : t.size = 0) (k : κ) : t.get k = none := by
  cases hget : t.get k with
  | none => rfl
  | some v => exact absurd (size_remove_of_get hget) (by omega)

theorem size_remove_of_none (h : t.get k = none) : (t.remove k).size = t.size := by
  refine congrArg length (filter_eq_self.mpr fun r hr => ?_)
  rw [decide_eq_true_eq]
  rintro rfl
  rw [get_eq_some_iff.mpr hr] at h
  cases h

/-! ### Weights -/

/-- The sum of a measure over the values. -/
def weight (f : ν → ℕ) (t : Table κ ν) : ℕ := (t.rows.map fun r => f r.2).sum

/-- **Taking out a key** takes out its weight. -/
theorem weight_remove (f : ν → ℕ) (h : t.get k = some v) :
    (t.remove k).weight f + f v = t.weight f := by
  unfold weight
  rw [((rows_perm h).map _).sum_eq, map_cons, sum_cons, Nat.add_comm]

theorem weight_remove_of_none (f : ν → ℕ) (h : t.get k = none) :
    (t.remove k).weight f = t.weight f := by
  refine congrArg sum (congrArg (map _) (filter_eq_self.mpr fun r hr => ?_))
  rw [decide_eq_true_eq]
  rintro rfl
  rw [get_eq_some_iff.mpr hr] at h
  cases h

theorem weight_insert_of_none (f : ν → ℕ) (h : t.get k = none) :
    (t.insert k v).weight f = f v + t.weight f := by
  rw [← weight_remove_of_none f h]
  rfl

/-- **A new value** for a key that is there. -/
theorem weight_insert {old : ν} (f : ν → ℕ) (h : t.get k = some old) :
    (t.insert k v).weight f + f old = f v + t.weight f := by
  rw [← weight_remove f h]
  show f v + (t.remove k).weight f + f old = _
  omega

theorem size_insert_of_get {old : ν} (h : t.get k = some old) : (t.insert k v).size = t.size := by
  rw [size_insert, size_remove_of_get h]

theorem size_le_card {keys : Finset κ} (h : ∀ k v, t.get k = some v → k ∈ keys) : t.size ≤ keys.card := by
  have hsub : (t.rows.map Prod.fst).toFinset ⊆ keys := by
    intro k hk
    obtain ⟨r, hr, rfl⟩ := mem_map.mp (mem_toFinset.mp hk)
    exact h r.1 r.2 (get_eq_some_iff.mpr hr)
  calc t.size = (t.rows.map Prod.fst).length := (length_map _).symm
    _ = (t.rows.map Prod.fst).toFinset.card := (toFinset_card_of_nodup t.nodup).symm
    _ ≤ keys.card := Finset.card_le_card hsub

theorem size_lt_card {keys : Finset κ} (h : ∀ k v, t.get k = some v → k ∈ keys) (hk : k ∈ keys)
    (hnone : t.get k = none) : t.size < keys.card := by
  have hle : t.size ≤ (keys.erase k).card := by
    refine size_le_card fun k' v hv => Finset.mem_erase.mpr ⟨?_, h k' v hv⟩
    rintro rfl
    cases hnone.symm.trans hv
  calc t.size ≤ (keys.erase k).card := hle
    _ < keys.card := Finset.card_erase_lt_of_mem hk

end Table

end Framework
