import Rds.Discovery.RecordCommit

/-!
# The steps of an operation of the store on disk

Every operation of a `FileStore` reads the clock, reads the database and may come to a commit.
The rules here are those of the steps before the commit, on any storage: they leave the directory
as it is (`Untouched`), and what they read is the catalogue the directory holds. What they offer to
commit can be committed (`applicable_decide`, `applicable_lapsed`).
-/

namespace Rds.Discovery

open Framework Postcard List Records

/-! ### Catalogues and their changes -/

/-- What the database of a file stores for each key. -/
def catalogOf (x : Crates) (db : DbFile) : Catalog := fun key =>
  (db.open.records.bind fun records => records[key]?).bind fun value =>
    (Records.decode x value key).toOption

variable {x : Crates} {md : Metadata} {entries : Entries}

theorem catalogOf_dbOf (h : Balanced x md entries)
    (md' : Metadata) : catalogOf x (dbOf md' entries) = fun key => entries[key]? := by
  funext key
  show ((encodeEntries entries)[key]?).bind _ = _
  rw [lookup_encodeEntries]
  cases hk : entries[key]? with
  | none => rfl
  | some s =>
    obtain ⟨r, hr⟩ := h.sound key s hk
    rw [Option.map_some, Option.bind_some, decode_encode hr]
    rfl

theorem Holds.catalogOf {file : AtomicFile} {db : DbFile} (h : Holds x file db (some (md, entries))) :
    catalogOf x db = fun key => entries[key]? := by
  cases h with
  | filled _ _ hbal _ => exact catalogOf_dbOf hbal md

theorem Holds.balanced {file : AtomicFile} {db : DbFile}
    (h : Holds x file db (some (md, entries))) : Balanced x md entries := by
  cases h with
  | filled _ _ hbal _ => exact hbal

theorem lookup_insertAll_singleton (entries : Entries) (key : EndpointKey) (s : Stored) :
    (fun k => (insertAll entries [(key, s)])[k]?)
      = Function.update (fun k => entries[k]?) key (some s) := by
  funext k
  show (entries.insert key s)[k]? = _
  rw [lookup_insert, Function.update_apply]
  exact ite_congr (propext eq_comm) (fun _ => rfl) fun _ => rfl

theorem lookup_insertAll (entries : Entries) (changes : List (EndpointKey × Stored)) (key : EndpointKey) :
    (insertAll entries changes)[key]? = entries[key]? ∨
      ∃ s, (key, s) ∈ changes ∧ (insertAll entries changes)[key]? = some s := by
  induction changes generalizing entries with
  | nil => exact .inl rfl
  | cons c changes ih =>
    rcases ih (entries.insert c.1 c.2) with heq | ⟨s, hs, heq⟩
    · rw [lookup_insert] at heq
      split at heq
      next hkey => exact .inr ⟨c.2, by rw [← hkey]; exact mem_cons_self, heq⟩
      · exact .inl heq
    · exact .inr ⟨s, mem_cons_of_mem c hs, heq⟩

/-- The entries of a batch that have lapsed, retired. -/
def lapsed (x : Crates) (now : Reading) (batch : List (EndpointKey × Stored)) :
    List (EndpointKey × Stored) :=
  batch.filterMap fun e =>
    match e.2.retire x e.1 now with
    | .ok (some s) => some (e.1, s)
    | _ => none

theorem mem_lapsed {now : Reading} {batch : List (EndpointKey × Stored)} {c : EndpointKey × Stored} :
    c ∈ lapsed x now batch ↔ ∃ s, (c.1, s) ∈ batch ∧ s.retire x c.1 now = .ok (some c.2) := by
  unfold lapsed
  rw [mem_filterMap]
  constructor
  · rintro ⟨e, he, heq⟩
    split at heq
    · next s hs =>
      cases heq
      exact ⟨e.2, he, hs⟩
    · exact absurd heq (by simp)
  · rintro ⟨s, hs, hret⟩
    refine ⟨(c.1, s), hs, ?_⟩
    rw [hret]

theorem collectBatch_encodeEntries (entries : Entries) (cursor : Option EndpointKey) :
    collectBatch (encodeEntries entries) cursor
      = (collectBatch entries cursor).map fun e => (e.1, storedCodec.encode e.2) := by
  unfold collectBatch
  rw [toList_encodeEntries, map_take, filter_map]
  rfl

theorem mem_of_mem_collectBatch {cursor : Option EndpointKey}
    {e : EndpointKey × Stored} (h : e ∈ collectBatch entries cursor) : entries[e.1]? = some e.2 :=
  Std.ExtTreeMap.mem_toList_iff_getElem?_eq_some.mp
    (mem_of_mem_filter (mem_of_mem_take h))

namespace FileStore

variable {ω : Type} {x : Crates} {o : FileHost ω} {entries : Entries}
  {md : Metadata} {now : Reading}

theorem lapsedRows_encode {batch : List (EndpointKey × Stored)}
    (h : ∀ e ∈ batch, ∃ r, e.2.verify x e.1 = .ok r) :
    lapsedRows x now (batch.map fun e => (e.1, storedCodec.encode e.2))
      = .ok (lapsed x now batch) := by
  induction batch with
  | nil => rfl
  | cons e batch ih =>
    obtain ⟨r, hr⟩ := h e mem_cons_self
    have hrest := ih fun f hf => h f (mem_cons_of_mem e hf)
    rw [map_cons, lapsedRows, decode_encode hr, hrest]
    refine bind_eq_ok.mpr ⟨_, rfl, ?_⟩
    rcases Stored.retire_spec now hr with ⟨hnone, -⟩ | ⟨entry, lease, hs, -, hret, -⟩
    · unfold lapsed
      rw [filterMap_cons, hnone]
      rfl
    · unfold lapsed
      rw [filterMap_cons, hret]
      rfl

/-- Lapsed records can be committed, since they replace records that verified. -/
theorem applicable_lapsed (now : Reading) (h : Balanced x md entries) (cursor : Option EndpointKey) :
    Applicable x md entries (lapsed x now (collectBatch entries cursor)) now := by
  have hretired : ∀ c ∈ lapsed x now (collectBatch entries cursor), ∃ s e l r,
      entries[c.1]? = some s ∧ s = .active e l ∧ c.2 = .retired r (e.digest x) e.isDeleted ∧
        c.2.verify x c.1 = .ok r := by
    intro c hc
    obtain ⟨s, hs, hret⟩ := mem_lapsed.mp hc
    have hstored := mem_of_mem_collectBatch hs
    obtain ⟨r, hr⟩ := h.sound c.1 s hstored
    rcases Stored.retire_spec now hr with ⟨hnone, -⟩ | ⟨e, l, hs, -, hsome, hver⟩
    · rw [hnone] at hret
      exact absurd hret (by simp)
    · rw [hsome] at hret
      have hc2 := Option.some.inj (Except.ok.inj hret)
      exact ⟨s, e, l, r, hstored, hs, hc2.symm, hc2 ▸ hver⟩
  refine ⟨fun c hc => ?_, fun c hc => ?_, fun c hc hnone => ?_⟩
  · obtain ⟨-, -, -, r, -, -, -, hver⟩ := hretired c hc
    exact ⟨r, hver⟩
  · obtain ⟨_, _, _, _, _, _, hc2, _⟩ := hretired c hc
    rw [hc2]
    exact Duration.zero_le _
  · obtain ⟨s, -, -, -, hstored, -⟩ := hretired c hc
    rw [hstored] at hnone
    exact absurd hnone (by simp)

/-- A decided record can be committed: a new identity has room, and the lease starts now. -/
theorem applicable_decide (h : Balanced x md entries) {key : EndpointKey} {entry : Option Entry}
    {d : Records.Decision} {s : Stored}
    (hdec : Records.decide x entries[key]? entry key now = .ok d) (hs : d.replacement = some s)
    (hroom : ¬ (entries[key]?.isNone = true ∧ md.identities.toNat ≥ maxIdentities)) :
    Applicable x md entries [(key, s)] now := by
  obtain ⟨retired, current, hobs, heq⟩ :=
    exists_observed now fun s hs => h.sound key s hs
  rw [heq] at hdec
  have hdecided := settle_cases (fun s hs => hobs.verify hs) hdec
  -- a replacement is the retired entry, or a fresh one
  have hcase : retired = some s ∨ ∃ e dd lease, entry = some e ∧ e.details x key = .ok dd ∧
      Lease.new dd.issued dd.expires now = .ok lease ∧ s = .active e lease := by
    cases hdecided with
    | read _ _ => exact .inl hs
    | noLease _ _ _ _ _ => exact .inl hs
    | accept e dd lease hd hlease _ =>
      exact .inr ⟨e, dd, lease, rfl, hd, hlease, (Option.some.inj hs).symm⟩
    | retry _ _ _ _ _ _ _ => exact .inl hs
    | stale _ _ _ _ _ _ _ _ _ => exact .inl hs
  have hsound : (∃ r, s.verify x key = .ok r) ∧ s.acceptedWall ≤ now.wall := by
    rcases hcase with hret | ⟨e, dd, lease, -, hd, hlease, rfl⟩
    · obtain ⟨hver, hwall⟩ := hobs.verify_retired hret
      exact ⟨hver, hwall ▸ Duration.zero_le _⟩
    · refine ⟨⟨_, Stored.verify_active hd hlease⟩, ?_⟩
      obtain ⟨-, -, -, -, -, hwall, -⟩ := Lease.new_eq_ok hlease
      exact le_of_eq hwall
  refine ⟨?_, ?_, ?_⟩
  · intro c hc
    rw [mem_singleton.mp hc]
    exact hsound.1
  · intro c hc
    rw [mem_singleton.mp hc]
    exact le_trans hsound.2 (le_max_right _ _)
  intro c hc hnone
  rw [mem_singleton.mp hc] at hnone
  have hlt : md.identities.toNat < maxIdentities := by
    by_contra hge
    exact hroom ⟨by rw [hnone]; rfl, Nat.not_lt.mp hge⟩
  rw [h.identities] at hlt
  exact hlt

/-! ### The steps of an operation -/

variable {clock : ClockRead}

/-- What the steps before a commit keep: the directory, and the metadata in memory. They may mark
the store as failed. -/
structure Untouched (o p : FileHost ω) : Prop where
  file : p.file = o.file
  db : p.db = o.db
  metadata : p.mem.inner.metadata = o.mem.inner.metadata
  failed : p.mem.inner.failed = false → o.mem.inner.failed = false

theorem Untouched.refl (o : FileHost ω) : Untouched o o := ⟨rfl, rfl, rfl, id⟩

theorem Untouched.trans {o p q : FileHost ω} (hp : Untouched o p)
    (hq : Untouched p q) : Untouched o q :=
  ⟨hq.file.trans hp.file, hq.db.trans hp.db, hq.metadata.trans hp.metadata, fun h => hp.failed (hq.failed h)⟩

theorem Ready.untouched (h : Ready x o entries) {p : FileHost ω}
    (hp : Untouched o p) : Ready x p entries where
  db := by rw [hp.db, hp.metadata, h.db]
  content := by rw [hp.file, hp.metadata, h.content]
  balanced := hp.metadata ▸ h.balanced

theorem Live.untouched {content : Metadata × Entries} (h : Live x o content)
    {p : FileHost ω} (hp : Untouched o p) : Live x p content where
  holds := by
    rw [hp.file, hp.db]
    exact h.holds
  metadata hf := hp.metadata.trans (h.metadata (hp.failed hf))
  ready hf := (h.ready (hp.failed hf)).untouched hp

/-- The store after the clock was read. -/
def observing (now : Reading) : FileHost ω → FileHost ω :=
  FileStore.setInner fun inner => { inner with observedWall := now.wall }

/-- **The start of an operation.** -/
theorem start_ends :
    Ends (Device.On (· = o)) (start clock)
      (fun now => Device.On fun p => clock = .ok now ∧ o.mem.inner.failed = false ∧ p = observing now o)
      fun e => Device.On fun p => p = o ∧ ∃ e', e = some e' ∧ (clock = .error e' ∨ e'.IsStore) := by
  refine .bind (Device.get_ends (R := fun inner p => p = o ∧ inner = o.mem.inner)
    fun p hp => ⟨hp, hp ▸ rfl⟩) fun inner => ?_
  refine .given (φ := inner = o.mem.inner) (fun d hd => hd.2) ?_
  rintro rfl
  refine .bind (Q := fun _ => Device.On fun p => p = o ∧ o.mem.inner.failed = false)
    (Ends.ofExcept (fun _ d hok hd => ⟨hd.1, ?_⟩) fun e d herr hd => ⟨hd.1, e, rfl, .inr ?_⟩)
    fun _ => ?_
  · exact Bool.eq_false_iff.mpr (ite_throw_eq_ok.mp hok).1
  · unfold healthy at herr
    split at herr
    · cases herr
      exact True.intro
    · exact absurd herr (by simp [pure, Except.pure])
  refine .bind (Q := fun now => Device.On fun p => p = o ∧ o.mem.inner.failed = false ∧
    clock = .ok now) (Ends.ofExcept (fun _ d hok hd => ⟨hd.1, hd.2, hok⟩)
      fun e d herr hd => ⟨hd.1, e, rfl, .inl herr⟩) fun now => ?_
  refine .bind (Q := fun wall => Device.On fun p => (p = o ∧ o.mem.inner.failed = false ∧
    clock = .ok now) ∧ wall = now.wall) (Ends.ofExcept
      (fun wall d hok hd => ⟨hd, (observe_eq_ok.mp hok).2.2⟩)
      fun e d herr hd => ⟨hd.1, e, rfl, .inr (isStore_of_observe herr)⟩) fun wall => ?_
  refine .given (φ := wall = now.wall) (fun d hd => hd.2) ?_
  rintro rfl
  refine .bind (Device.modify_ends (Q := fun p => clock = .ok now ∧
    o.mem.inner.failed = false ∧ p = observing now o) fun p hp => ⟨hp.1.2.2, hp.1.2.1, ?_⟩)
    fun _ => .pure fun d hd => hd
  rw [hp.1.1]
  rfl

theorem guarded_ends {α : Type} {read : Run ω α} {R : α → Prop}
    (hread : Ends (Device.On (· = setFailed true o)) read
      (fun a => Device.On fun p => p = setFailed true o ∧ R a)
      fun e => Device.On (Broken (· = setFailed true o) e)) :
    Ends (Device.On (· = o)) (guarded read) (fun a => Device.On fun p => p = setFailed false o ∧ R a)
      fun e => Device.On (Broken (· = setFailed true o) e) := by
  refine .bind (Device.modify_ends (Q := (· = setFailed true o)) fun p hp => hp ▸ rfl)
    fun _ => ?_
  refine .bind hread fun a => ?_
  refine .bind (Device.modify_ends (Q := fun p => p = setFailed false o ∧ R a)
    fun p hp => ⟨hp.1 ▸ rfl, hp.2⟩) fun _ => .pure fun d hd => hd

theorem table_ends {ι : Type} {o : Owner DbFile ι} (hdb : o.db = dbOf md entries) :
    Ends (Device.On (· = o)) (table : Owned DbFile ι _)
      (fun records => Device.On fun p => p = o ∧ records = encodeEntries entries)
      fun e => Device.On (Broken (· = o) e) := by
  refine .bind (Device.ask_ends (R := fun records p => p = o ∧
    records = some (encodeEntries entries)) (fun p hp => ⟨hp, ?_⟩)
    fun e p he hp => ⟨fun e' h => he e' h ▸ True.intro, hp⟩) fun records => ?_
  · rw [hp, hdb]
    rfl
  · refine .given (φ := records = some (encodeEntries entries)) (fun d hd => hd.2) ?_
    rintro rfl
    exact .pure fun d hd => ⟨hd.1, rfl⟩

theorem lookup_ends (hdb : o.db = dbOf md entries) (hbal : Balanced x md entries) (key : EndpointKey) :
    Ends (Device.On (· = o)) (lookup x key : Run ω _)
      (fun old => Device.On fun p => p = o ∧ old = entries[key]?)
      fun e => Device.On (Broken (· = o) e) := by
  refine .bind (table_ends hdb) fun records => ?_
  refine .given (φ := records = encodeEntries entries) (fun d hd => hd.2) ?_
  rintro rfl
  rw [hbal.decode_row]
  exact .pure fun d hd => ⟨hd.1, rfl⟩

theorem scan_ends (hdb : o.db = dbOf md entries) (hbal : Balanced x md entries) :
    Ends (Device.On (· = o)) (scan x now : Run ω _) (fun scanned => Device.On fun p => p = o ∧
        scanned = (collectBatch (encodeEntries entries) o.mem.inner.cursor,
          lapsed x now (collectBatch entries o.mem.inner.cursor)))
      fun e => Device.On (Broken (· = o) e) := by
  refine .bind (Device.get_ends (R := fun inner p => p = o ∧ inner = o.mem.inner)
    fun p hp => ⟨hp, hp ▸ rfl⟩) fun inner => ?_
  refine .given (φ := inner = o.mem.inner) (fun d hd => hd.2) ?_
  rintro rfl
  refine .bind ((table_ends hdb).imp (fun d hd => hd.1) (fun _ _ h => h) fun _ _ h => h)
    fun records => ?_
  refine .given (φ := records = encodeEntries entries) (fun d hd => hd.2) ?_
  rintro rfl
  have hrows : lapsedRows x now (collectBatch (encodeEntries entries) o.mem.inner.cursor)
      = .ok (lapsed x now (collectBatch entries o.mem.inner.cursor)) := by
    rw [collectBatch_encodeEntries]
    exact lapsedRows_encode fun e he => hbal.sound e.1 e.2 (mem_of_mem_collectBatch he)
  rw [hrows]
  exact .pure fun d hd => ⟨hd.1, rfl⟩

theorem ask_ends (admission : Callback ω) (known : Bool) :
    Ends (Device.On (· = o)) (ask admission known)
      (fun _ => Device.On fun p => ∃ env, p = { o with mem := { o.mem with env } })
      fun e => Device.On fun p => (∃ e', e = some e') ∧ ∃ env, p = { o with mem := { o.mem with env } } := by
  rintro ⟨p, faults⟩ (rfl : p = o)
  unfold ask
  rcases admission known p.mem.env with ⟨result, env⟩
  cases result with
  | ok _ => exact ⟨env, rfl⟩
  | error e => exact ⟨⟨e, rfl⟩, env, rfl⟩

end FileStore

end Rds.Discovery
