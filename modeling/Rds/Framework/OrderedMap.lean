import Mathlib

/-!
# Ordered maps

An ordered map is `ExtTreeMap`: two maps with the same lookups are equal,
and `toList` enumerates the bindings by increasing key. `lookup_insert`,
`lookup_erase` and `lookup_filter` say what an update does to the lookups.

Many maps store values under a key computed from the value itself (`key v`), and
are built from, or flattened to, lists of such values. The three facts that carry
every argument about those are

* `lookup_indexBy` — the map built from a list with distinct keys holds exactly
  the members of the list, each at its own key;
* `toList_indexBy` — built from a strictly increasing list, the map enumerates
  that list;
* `values_eq_of_lookup` — a map with the lookups of a strictly increasing list
  has that list as its values.
-/

namespace Framework

open Std (TransOrd LawfulEqOrd ExtTreeMap)

/-! ### Keys of a subtype -/

section Subtype

variable {α : Type} [Ord α] {P : α → Prop}

/-- The order of a subtype is the one of its values. -/
instance instTransOrdSubtype [TransOrd α] : TransOrd { a // P a } where
  eq_swap {a b} := by
    show compare a.1 b.1 = (compare b.1 a.1).swap
    exact Std.OrientedCmp.eq_swap
  isLE_trans {a b c} hab hbc := by
    change (compare a.1 b.1).isLE at hab
    change (compare b.1 c.1).isLE at hbc
    show (compare a.1 c.1).isLE
    exact Std.TransCmp.isLE_trans hab hbc

instance instLawfulEqOrdSubtype [LawfulEqOrd α] : LawfulEqOrd { a // P a } where
  compare_self {a} := by
    show compare a.1 a.1 = .eq
    exact Std.ReflCmp.compare_self
  eq_of_compare {a b} h := by
    change compare a.1 b.1 = .eq at h
    exact Subtype.ext (LawfulEqOrd.eq_of_compare h)

end Subtype

variable {K V : Type} [Ord K] [TransOrd K] [LawfulEqOrd K]

/-! ### Lookups -/

section Lookup

variable [DecidableEq K] {m : ExtTreeMap K V compare} {k j : K} {v : V}

theorem lookup_insert : (m.insert k v)[j]? = if k = j then some v else m[j]? := by
  rw [ExtTreeMap.getElem?_insert]
  simp only [Std.LawfulEqCmp.compare_eq_iff_eq]

theorem lookup_erase : (m.erase k)[j]? = if k = j then none else m[j]? := by
  rw [ExtTreeMap.getElem?_erase]
  simp only [Std.LawfulEqCmp.compare_eq_iff_eq]

omit [LawfulEqOrd K] [DecidableEq K] in
theorem lookup_filter {f : V → Bool} : (m.filter fun _ v => f v)[k]? = m[k]?.filter f := by
  rw [ExtTreeMap.getElem?_filter]
  exact Option.pfilter_eq_filter

omit [LawfulEqOrd K] [DecidableEq K] in
theorem size_insert_of_lookup (h : m[k]? = some v) {w : V} : (m.insert k w).size = m.size := by
  rw [ExtTreeMap.size_insert]
  rw [ExtTreeMap.contains_eq_isSome_getElem?, h]
  rfl

end Lookup

/-! ### Values that carry their key -/

omit [LawfulEqOrd K] in
theorem ne_of_compare_lt {a b : K} (h : compare a b = .lt) : a ≠ b := by
  rintro rfl
  have hself : compare a a = .eq := Std.ReflCmp.compare_self
  rw [hself] at h
  exact absurd h (by decide)

/-- Index the members of a list by their key; a later member replaces an earlier
one with the same key. -/
def indexBy (key : V → K) (l : List V) : ExtTreeMap K V compare :=
  .ofList (l.map fun v => (key v, v)) compare

/-- The values of a map, by increasing key. -/
def mapValues (m : ExtTreeMap K V compare) : List V := m.toList.map Prod.snd

variable {key : V → K} {l : List V} {m : ExtTreeMap K V compare}

/-- **Lookup in an index.** Over a list with distinct keys the index holds
exactly the members of the list. -/
theorem lookup_indexBy (h : l.Pairwise fun a b => key a ≠ key b) {k : K} {v : V} :
    (indexBy key l)[k]? = some v ↔ v ∈ l ∧ key v = k := by
  have hpair : (l.map fun v => (key v, v)).Pairwise
      (fun a b => ¬ compare a.1 b.1 = Ordering.eq) := by
    rw [List.pairwise_map]
    exact h.imp fun hne heq => hne (LawfulEqOrd.eq_of_compare heq)
  have hmem : ∀ w ∈ l, (indexBy key l)[key w]? = some w := fun w hw =>
    ExtTreeMap.getElem?_ofList_of_mem Std.ReflCmp.compare_self hpair
      (List.mem_map.mpr ⟨w, hw, rfl⟩)
  constructor
  · intro hv
    by_cases hk : ∃ w ∈ l, key w = k
    · obtain ⟨w, hw, rfl⟩ := hk
      rw [hmem w hw, Option.some.injEq] at hv
      subst hv
      exact ⟨hw, rfl⟩
    -- no member carries the key, so the lookup misses
    let _ : BEq K := ⟨fun a b => compare a b == .eq⟩
    have : Std.LawfulBEqCmp (compare : K → K → Ordering) := ⟨by
      intro a b
      change compare a b = .eq ↔ (compare a b == .eq) = true
      rw [beq_iff_eq]⟩
    have hnone : (indexBy key l)[k]? = none := by
      refine ExtTreeMap.getElem?_ofList_of_contains_eq_false ?_
      rw [Bool.eq_false_iff]
      intro hc
      rw [List.contains_iff_exists_mem_beq] at hc
      obtain ⟨k', hk', hbeq⟩ := hc
      rw [List.map_map] at hk'
      obtain ⟨w, hw, rfl⟩ := List.mem_map.mp hk'
      have heq : compare k (key w) = .eq := by
        simpa [BEq.beq] using hbeq
      exact hk ⟨w, hw, (LawfulEqOrd.eq_of_compare heq).symm⟩
    rw [hnone] at hv
    exact absurd hv (by simp)
  · rintro ⟨hw, rfl⟩
    exact hmem v hw

theorem lookup_indexBy_eq_none (h : l.Pairwise fun a b => key a ≠ key b) {k : K} :
    (indexBy key l)[k]? = none ↔ ∀ v ∈ l, key v ≠ k := by
  constructor
  · intro hn v hv hk
    rw [(lookup_indexBy h).mpr ⟨hv, hk⟩] at hn
    exact absurd hn (by simp)
  intro hall
  cases hk : (indexBy key l)[k]? with
  | none => rfl
  | some v =>
    obtain ⟨hv, hkv⟩ := (lookup_indexBy h).mp hk
    exact absurd hkv (hall v hv)

omit [LawfulEqOrd K] in
theorem pairwise_ne_of_lt (h : l.Pairwise fun a b => compare (key a) (key b) = .lt) :
    l.Pairwise fun a b => key a ≠ key b :=
  h.imp fun hlt => ne_of_compare_lt hlt

omit [LawfulEqOrd K] in
/-- Two enumerations with strictly increasing keys and the same members are the
same list. -/
theorem eq_of_sorted_of_mem_iff {l l' : List (K × V)} (h : l.Pairwise fun a b => compare a.1 b.1 = .lt)
    (h' : l'.Pairwise fun a b => compare a.1 b.1 = .lt) (hmem : ∀ x, x ∈ l ↔ x ∈ l') : l = l' := by
  have hnodup : ∀ {l : List (K × V)}, l.Pairwise (fun a b => compare a.1 b.1 = .lt) → l.Nodup :=
    fun h => h.imp fun hlt heq => ne_of_compare_lt hlt (congrArg Prod.fst heq)
  refine List.Perm.eq_of_pairwise (fun a b _ _ hab hba => ?_) h h'
    ((List.perm_ext_iff_of_nodup (hnodup h) (hnodup h')).mpr hmem)
  rw [@Std.OrientedCmp.eq_swap _ compare, hba] at hab
  exact absurd hab (by decide)

/-- **Values by lookup.** A map with the lookups of a strictly increasing list
has that list as its values. -/
theorem values_eq_of_lookup (hl : l.Pairwise fun a b => compare (key a) (key b) = .lt)
    (h : ∀ k v, m[k]? = some v ↔ v ∈ l ∧ key v = k) : mapValues m = l := by
  have hlist : m.toList = l.map fun v => (key v, v) := by
    refine eq_of_sorted_of_mem_iff ExtTreeMap.ordered_keys_toList ?_ ?_
    · rw [List.pairwise_map]
      exact hl
    rintro ⟨k, v⟩
    rw [ExtTreeMap.mem_toList_iff_getElem?_eq_some, h, List.mem_map]
    constructor
    · rintro ⟨hv, rfl⟩
      exact ⟨v, hv, rfl⟩
    · rintro ⟨w, hw, heq⟩
      obtain ⟨rfl, rfl⟩ := heq
      exact ⟨hw, rfl⟩
  unfold mapValues
  rw [hlist, List.map_map]
  exact List.map_id l

theorem mapValues_indexBy (h : l.Pairwise fun a b => compare (key a) (key b) = .lt) :
    mapValues (indexBy key l) = l :=
  values_eq_of_lookup h fun _ _ => lookup_indexBy (pairwise_ne_of_lt h)

theorem mem_mapValues {v : V} :
    v ∈ mapValues m ↔ ∃ k : K, m[k]? = some v := by
  unfold mapValues
  rw [List.mem_map]
  constructor
  · rintro ⟨⟨k, w⟩, hmem, rfl⟩
    exact ⟨k, ExtTreeMap.mem_toList_iff_getElem?_eq_some.mp hmem⟩
  · rintro ⟨k, hk⟩
    exact ⟨(k, v), ExtTreeMap.mem_toList_iff_getElem?_eq_some.mpr hk, rfl⟩

/-! ### Counting values -/

omit [LawfulEqOrd K] in
theorem nodup_toList (m : ExtTreeMap K V compare) : m.toList.Nodup :=
  ExtTreeMap.ordered_keys_toList.imp fun hlt heq =>
    ne_of_compare_lt hlt (congrArg Prod.fst heq)

theorem toList_insert_perm [DecidableEq K] (m : ExtTreeMap K V compare) (k : K) (v : V) :
    (m.insert k v).toList.Perm ((k, v) :: (m.erase k).toList) := by
  refine (List.perm_ext_iff_of_nodup (nodup_toList _) ?_).mpr ?_
  · refine List.nodup_cons.mpr ⟨fun hmem => ?_, nodup_toList _⟩
    exact absurd hmem (by simp)
  rintro ⟨j, w⟩
  rw [List.mem_cons, ExtTreeMap.mem_toList_iff_getElem?_eq_some,
    ExtTreeMap.mem_toList_iff_getElem?_eq_some, lookup_insert, lookup_erase]
  by_cases h : k = j
  · subst h
    simp [eq_comm]
  · simp [h, Ne.symm h]

theorem toList_perm_of_lookup [DecidableEq K] {k : K} {v : V}
    (h : m[k]? = some v) : m.toList.Perm ((k, v) :: (m.erase k).toList) := by
  have hself : m.insert k v = m := by
    refine ExtTreeMap.ext_getElem? fun j => ?_
    rw [lookup_insert]
    split
    next hj => rw [← hj, h]
    · rfl
  have hperm := toList_insert_perm m k v
  rwa [hself] at hperm

/-- **Counting after an update**: the new value counts, the old one no longer does. -/
theorem countP_insert [DecidableEq K] (p : V → Bool) (m : ExtTreeMap K V compare) (k : K) (v : V) :
    (mapValues (m.insert k v)).countP p + (m[k]?.any p).toNat
      = (mapValues m).countP p + (p v).toNat := by
  have hcons : ∀ (w : V) (l : List V), (w :: l).countP p = l.countP p + (p w).toNat := by
    intro w l
    rw [List.countP_cons]
    cases p w <;> rfl
  have hnew := ((toList_insert_perm m k v).map Prod.snd).countP_eq p
  rw [List.map_cons, hcons] at hnew
  unfold mapValues
  rw [hnew]
  cases hk : m[k]? with
  | none =>
    have herase : m.erase k = m := by
      refine ExtTreeMap.ext_getElem? fun j => ?_
      rw [lookup_erase]
      split
      next hj => rw [← hj, hk]
      · rfl
    rw [herase]
    rfl
  | some w =>
    have hold := ((toList_perm_of_lookup hk).map Prod.snd).countP_eq p
    rw [List.map_cons, hcons] at hold
    rw [hold, Option.any_some]
    dsimp only
    omega

theorem pairwise_mapValues (h : ∀ k v, m[k]? = some v → key v = k) :
    (mapValues m).Pairwise fun a b => compare (key a) (key b) = .lt := by
  unfold mapValues
  rw [List.pairwise_map]
  refine ExtTreeMap.ordered_keys_toList.imp_of_mem fun {a b} ha hb hlt => ?_
  have hkey : ∀ x ∈ m.toList, key x.2 = x.1 := fun x hx =>
    h x.1 x.2 (ExtTreeMap.mem_toList_iff_getElem?_eq_some.mp hx)
  rw [hkey a ha, hkey b hb]
  exact hlt

end Framework
