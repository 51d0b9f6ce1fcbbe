import Rds.Discovery.FileStore

/-!
# The catalogue on disk

What the database of a `FileStore` holds: encoded entries, and metadata that count them. `Balanced`
is the relation between the two. A commit updates the counters change by change
(`Balanced.applyChange`), while opening a directory counts the table from the start
(`Balanced.countRows`); both agree on every balanced catalogue.
-/

namespace Rds.Discovery

open Framework Postcard List

/-- The entries of a catalogue. -/
abbrev Entries := Std.ExtTreeMap EndpointKey Stored compare

/-- The rows of the table. -/
def encodeEntries (entries : Entries) : Std.ExtTreeMap EndpointKey Bytes compare :=
  entries.map fun _ s => storedCodec.encode s

/-- The number of live records. -/
def liveCount (entries : Entries) : ℕ := (mapValues entries).countP Stored.live

/-- Carry out the changes of a transaction. -/
def insertAll (entries : Entries) (changes : List (EndpointKey × Stored)) : Entries :=
  changes.foldl (fun m c => m.insert c.1 c.2) entries

/-- **The metadata count the catalogue**, every entry verifies for its key, and no lease was
accepted later than the clock floor. -/
structure Balanced (x : Crates) (md : Metadata) (entries : Entries) : Prop where
  format : md.format = 3
  generation : md.generation ≠ 0
  sound : ∀ (key : EndpointKey) (s : Stored), entries[key]? = some s → ∃ r, s.verify x key = .ok r
  identities : md.identities.toNat = entries.size
  capacity : entries.size ≤ maxIdentities
  live : md.live.toNat = liveCount entries
  floor : ∀ (key : EndpointKey) (s : Stored), entries[key]? = some s → s.acceptedWall ≤ md.wallFloor

theorem encodeEntries_insert (entries : Entries) (key : EndpointKey) (s : Stored) :
    encodeEntries (entries.insert key s) = (encodeEntries entries).insert key (storedCodec.encode s) := by
  refine Std.ExtTreeMap.ext_getElem? fun k => ?_
  unfold encodeEntries
  rw [Std.ExtTreeMap.getElem?_map, lookup_insert, lookup_insert, Std.ExtTreeMap.getElem?_map]
  split <;> rfl

theorem lookup_encodeEntries (entries : Entries) (key : EndpointKey) :
    (encodeEntries entries)[key]? = entries[key]?.map storedCodec.encode :=
  Std.ExtTreeMap.getElem?_map

theorem toList_encodeEntries (entries : Entries) :
    (encodeEntries entries).toList = entries.toList.map fun e => (e.1, storedCodec.encode e.2) :=
  Std.ExtTreeMap.toList_map

theorem liveCount_insert (entries : Entries) (key : EndpointKey) (s : Stored) :
    liveCount (entries.insert key s) + (entries[key]?.any Stored.live).toNat
      = liveCount entries + s.live.toNat :=
  countP_insert Stored.live entries key s

theorem liveCount_le_size (entries : Entries) : liveCount entries ≤ entries.size := by
  refine Nat.le_trans countP_le_length ?_
  unfold mapValues
  rw [length_map, Std.ExtTreeMap.length_toList]

theorem size_insert_eq (entries : Entries) (key : EndpointKey) (s : Stored) :
    (entries.insert key s).size = if entries[key]?.isNone then entries.size + 1 else entries.size := by
  rw [Std.ExtTreeMap.size_insert, Std.ExtTreeMap.contains_eq_isSome_getElem?]
  cases entries[key]? <;> rfl

theorem toNat_countOf (b : Bool) : (countOf b).toNat = b.toNat := by
  cases b <;> rfl

theorem countOf_le {live : UInt64} {entries : Entries} (h : live.toNat = liveCount entries)
    (key : EndpointKey) : countOf (entries[key]?.any Stored.live) ≤ live := by
  rw [UInt64.le_iff_toNat_le, h]
  cases hk : entries[key]? with
  | none => exact Nat.zero_le _
  | some s =>
    rw [Option.any_some]
    cases hs : s.live with
    | false => exact Nat.zero_le _
    | true => exact countP_pos_iff.mpr ⟨s, mem_mapValues.mpr ⟨key, hk⟩, hs⟩

theorem live_insert {live : UInt64} {entries : Entries} (h : live.toNat = liveCount entries)
    (key : EndpointKey) (s : Stored) :
    live - countOf (entries[key]?.any Stored.live) + countOf s.live
      = UInt64.ofNat (liveCount (entries.insert key s)) := by
  have hinsert := liveCount_insert entries key s
  have hgone := countOf_le h key
  have hle := UInt64.le_iff_toNat_le.mp hgone
  have hsub := UInt64.toNat_sub_of_le _ _ hgone
  rw [toNat_countOf] at hsub hle
  apply UInt64.toNat_inj.mp
  rw [UInt64.toNat_add, toNat_countOf, UInt64.toNat_ofNat']
  omega

/-- The metadata with the counters of a catalogue. -/
def counted (md : Metadata) (entries : Entries) : Metadata :=
  { md with identities := UInt64.ofNat entries.size, live := UInt64.ofNat (liveCount entries) }

namespace Balanced

variable {x : Crates} {md : Metadata} {entries : Entries}

theorem eq_counted {identities live : UInt64} (h : Balanced x { md with identities, live } entries) :
    { md with identities, live } = counted md entries := by
  unfold counted
  rw [← h.identities, ← h.live, UInt64.ofNat_toNat, UInt64.ofNat_toNat]

theorem decode_row (h : Balanced x md entries) (key : EndpointKey) :
    ((encodeEntries entries)[key]?.mapM fun value => Records.decode x value key)
      = .ok entries[key]? := by
  rw [lookup_encodeEntries]
  cases hk : entries[key]? with
  | none => rfl
  | some s =>
    obtain ⟨r, hr⟩ := h.sound key s hk
    rw [Option.map_some, Option.mapM_some, Records.decode_encode hr]
    rfl

/-- **One change of a transaction** keeps the catalogue balanced. It touches the counters only. -/
theorem applyChange (h : Balanced x md entries) {key : EndpointKey} {s : Stored} {r : UInt64}
    (hs : s.verify x key = .ok r) (hfloor : s.acceptedWall ≤ md.wallFloor)
    (hroom : entries[key]? = none → entries.size < maxIdentities) :
    ∃ identities live, FileStore.applyChange x (md, encodeEntries entries) (key, s)
        = .ok ({ md with identities, live }, encodeEntries (entries.insert key s)) ∧
      Balanced x { md with identities, live } (entries.insert key s) := by
  have hgone := countOf_le h.live key
  have hlive := liveCount_insert entries key s
  have hbound := liveCount_le_size (entries.insert key s)
  have hsize := size_insert_eq entries key s
  have hcap := h.capacity
  have hsub := UInt64.toNat_sub_of_le _ _ hgone
  rw [toNat_countOf, h.live] at hsub
  have hmax : maxIdentities = 4096 := rfl
  have hroom' : ¬ (entries[key]?.isNone = true ∧ ¬ md.identities.toNat + 1 ≤ maxIdentities) := by
    rintro ⟨hnone, hfull⟩
    have := hroom (Option.isNone_iff_eq_none.mp hnone)
    have := h.identities
    omega
  -- the counters are words, but neither the subtraction nor the sum wraps
  have hsum : (md.live - countOf (entries[key]?.any Stored.live)).toNat + (countOf s.live).toNat
      = liveCount (entries.insert key s) := by
    have hle := UInt64.le_iff_toNat_le.mp hgone
    rw [toNat_countOf, h.live] at hle
    rw [toNat_countOf]
    omega
  have hsizeMax : (entries.insert key s).size ≤ maxIdentities := by
    rw [hsize]
    split
    next hnone => exact hroom (Option.isNone_iff_eq_none.mp hnone)
    · exact hcap
  refine ⟨if entries[key]?.isNone then md.identities + 1 else md.identities,
    md.live - countOf (entries[key]?.any Stored.live) + countOf s.live, ?_, ?_⟩
  · unfold FileStore.applyChange
    dsimp only
    rw [if_neg (Nat.not_lt.mpr (Stored.valid_of_verify hs).2), h.decode_row, encodeEntries_insert]
    refine bind_eq_ok.mpr ⟨_, rfl, ?_⟩
    rw [if_neg hroom', if_neg]
    · rfl
    · rintro (hlt | hover)
      · exact absurd hgone (UInt64.not_le.mpr hlt)
      · omega
  refine
    { format := h.format, generation := h.generation, sound := ?_, identities := ?_,
      capacity := hsizeMax, live := ?_, floor := ?_ }
  · intro k t hk
    rw [lookup_insert] at hk
    split at hk
    · next heq =>
      cases hk
      exact ⟨r, heq ▸ hs⟩
    · exact h.sound k t hk
  · rw [hsize]
    split
    · next hnone =>
      rw [UInt64.toNat_add, h.identities]
      exact Nat.mod_eq_of_lt (by have : (1 : UInt64).toNat = 1 := rfl; omega)
    · exact h.identities
  · rw [UInt64.toNat_add, hsum]
    exact Nat.mod_eq_of_lt (by omega)
  · intro k t hk
    rw [lookup_insert] at hk
    split at hk
    · cases hk
      exact hfloor
    · exact h.floor k t hk

/-- **The changes of a transaction** keep the catalogue balanced. -/
theorem applyChanges (h : Balanced x md entries) {changes : List (EndpointKey × Stored)}
    (hs : ∀ c ∈ changes, (∃ r, c.2.verify x c.1 = .ok r) ∧ c.2.acceptedWall ≤ md.wallFloor)
    (hroom : ∀ c ∈ changes, entries[c.1]? = none → entries.size + changes.length ≤ maxIdentities) :
    changes.foldlM (FileStore.applyChange x) (md, encodeEntries entries)
        = .ok (counted md (insertAll entries changes), encodeEntries (insertAll entries changes)) ∧
      Balanced x (counted md (insertAll entries changes)) (insertAll entries changes) := by
  induction changes generalizing md entries with
  | nil =>
    have hself : counted md entries = md := (eq_counted h).symm
    rw [show insertAll entries [] = entries from rfl, hself]
    exact ⟨rfl, h⟩
  | cons c changes ih =>
    obtain ⟨⟨r, hr⟩, hfloor⟩ := hs c mem_cons_self
    obtain ⟨i, l, hstep, hbal⟩ := h.applyChange hr hfloor fun hnone => by
      have := hroom c mem_cons_self hnone
      rw [length_cons] at this
      omega
    obtain ⟨hrest, hbal'⟩ := ih hbal (fun d hd => hs d (mem_cons_of_mem c hd)) (by
      intro d hd hnone
      have hsize := size_insert_eq entries c.1 c.2
      rw [lookup_insert] at hnone
      split at hnone
      · exact absurd hnone (by simp)
      have := hroom d (mem_cons_of_mem c hd) hnone
      rw [length_cons] at this
      rw [hsize]
      split <;> omega)
    refine ⟨?_, hbal'⟩
    exact bind_eq_ok.mpr ⟨_, hstep, hrest⟩

/-- **Counting from the start** finds what the metadata say. -/
theorem countRows (h : Balanced x md entries) :
    (encodeEntries entries).toList.foldlM (FileStore.countRow x md) (0, 0)
      = .ok (md.identities, md.live) := by
  -- over any part of the catalogue, from any counters that leave room for it
  have hfold : ∀ (l : List (EndpointKey × Stored)) (i n : UInt64),
      (∀ e ∈ l, entries[e.1]? = some e.2) → i.toNat + l.length ≤ maxIdentities →
      n.toNat + (l.map Prod.snd).countP Stored.live ≤ maxIdentities →
      ∃ i' n' : UInt64, (l.map fun e => (e.1, storedCodec.encode e.2)).foldlM
          (FileStore.countRow x md) (i, n) = .ok (i', n') ∧
        i'.toNat = i.toNat + l.length ∧
        n'.toNat = n.toNat + (l.map Prod.snd).countP Stored.live := by
    have hmax : maxIdentities = 4096 := rfl
    intro l
    induction l with
    | nil => exact fun i n _ _ _ => ⟨i, n, rfl, rfl, rfl⟩
    | cons e l ih =>
      intro i n hmem hi hn
      have he := hmem e mem_cons_self
      obtain ⟨r, hr⟩ := h.sound e.1 e.2 he
      rw [length_cons] at hi
      rw [map_cons, countP_cons] at hn
      have hi1 : (i + 1).toNat = i.toNat + 1 := by
        rw [UInt64.toNat_add]
        exact Nat.mod_eq_of_lt (by have : (1 : UInt64).toNat = 1 := rfl; omega)
      have hlive : (countOf e.2.live).toNat = if e.2.live = true then 1 else 0 := by
        cases e.2.live <;> rfl
      have hn1 : (n + countOf e.2.live).toNat = n.toNat + if e.2.live = true then 1 else 0 := by
        rw [UInt64.toNat_add, hlive]
        exact Nat.mod_eq_of_lt (by omega)
      have hrow : FileStore.countRow x md (i, n) (e.1, storedCodec.encode e.2)
          = .ok (i + 1, n + countOf e.2.live) := by
        unfold FileStore.countRow
        dsimp only
        rw [if_neg (by omega), Records.decode_encode hr]
        exact if_neg (not_lt.mpr (h.floor e.1 e.2 he))
      obtain ⟨i', n', hrest, hi', hn'⟩ := ih (i + 1) (n + countOf e.2.live)
        (fun f hf => hmem f (mem_cons_of_mem e hf)) (by omega) (by omega)
      refine ⟨i', n', ?_, by rw [length_cons]; omega, by
        rw [map_cons, countP_cons]; omega⟩
      exact bind_eq_ok.mpr ⟨_, hrow, hrest⟩
  have hsize : entries.toList.length = entries.size := Std.ExtTreeMap.length_toList
  have hcap := h.capacity
  have hle := liveCount_le_size entries
  have hcount : (entries.toList.map Prod.snd).countP Stored.live = liveCount entries := rfl
  have hzero : (0 : UInt64).toNat = 0 := rfl
  obtain ⟨i, n, hrows, hi, hn⟩ := hfold entries.toList 0 0
    (fun e he => Std.ExtTreeMap.mem_toList_iff_getElem?_eq_some.mp he) (by omega) (by omega)
  rw [toList_encodeEntries, hrows]
  have hi' : i = md.identities := UInt64.toNat_inj.mp (by rw [h.identities]; omega)
  have hn' : n = md.live := UInt64.toNat_inj.mp (by rw [h.live]; omega)
  rw [hi', hn']

end Balanced

end Rds.Discovery
