import Rds.Discovery.RecordHistory

/-!
# The two record stores agree

On storage that works, a `FileStore` and a `MemoryStore` of the same capacity are one store. The
relation `Sim` says how their states correspond: the same entries, the same clock, the same
position of the collector. They keep different things (the store on disk has a clock floor of its
own and counters in its metadata), and `Sim` says why that makes no difference.

Every call takes related stores to related stores with the same answer (`run_sim`), until the store
on disk has used up its commit generations: the counter is a `u64`, and a commit that cannot count
it up is an error. So every run agrees up to that point (`trace_sim`).
-/

namespace Rds.Discovery

open Framework List Prog MemoryStore Records

variable {ω : Type} {x : Crates}

/-! ### The relation -/

/-- **Corresponding states** of the two stores. -/
structure Sim (x : Crates) (h : MemoryHost ω) (o : FileHost ω) : Prop where
  ready : FileStore.Ready x o h.memory.entries
  healthy : o.mem.inner.failed = false
  observed : h.memory.observedWall
    = max o.mem.inner.metadata.wallFloor o.mem.inner.observedWall
  live : h.memory.live = o.mem.inner.metadata.live
  cursor : h.memory.cursor = o.mem.inner.cursor
  env : h.env = o.mem.env

/-- The store on disk cannot count up its generation. -/
def Spent (o : FileHost ω) : Prop :=
  ¬ o.mem.inner.metadata.generation.toNat + 1 < 2 ^ 64

/-- The error of a commit that cannot count up the generation. -/
def exhausted : DiscoveryError := storeError "record commit generation exhausted"

/-- Two runs agree: they end alike, in corresponding states, and changed nothing or took one
generation; or the store on disk had used up its generations. -/
inductive Agree (x : Crates) (h : MemoryHost ω) (o : FileHost ω) {α : Type} :
    Outcome DiscoveryError α × Device (FileHost ω) →
      Outcome DiscoveryError α × MemoryHost ω → Prop where
  | same (result : Except DiscoveryError α) (o' : FileHost ω) (h' : MemoryHost ω)
      (hsim : Sim x h' o') (hstaging : o'.file.staging = o.file.staging)
      (hgen : (o'.mem.inner.metadata = o.mem.inner.metadata ∧
          h'.memory.entries = h.memory.entries) ∨
        o'.mem.inner.metadata.generation.toNat = o.mem.inner.metadata.generation.toNat + 1) :
      Agree x h o (outcomeOf result, ⟨o', []⟩) (outcomeOf result, h')
  | spent (o' : FileHost ω) (r : Outcome DiscoveryError α × MemoryHost ω)
      (hspent : Spent o) (entries : Entries) (hready : FileStore.Ready x o' entries)
      (hstaging : o'.file.staging = o.file.staging) (hfailed : o'.mem.inner.failed = true) :
      Agree x h o (.err exhausted, ⟨o', []⟩) r

variable {h : MemoryHost ω} {o : FileHost ω} {clock : ClockRead}

theorem Agree.of_sim {α : Type} (result : Except DiscoveryError α)
    {o' : FileHost ω} {h' : MemoryHost ω} (hsim : Sim x h' o')
    (hfile : o'.file = o.file) (hmd : o'.mem.inner.metadata = o.mem.inner.metadata)
    (hentries : h'.memory.entries = h.memory.entries) :
    Agree x h o (outcomeOf result, ⟨o', []⟩) (outcomeOf result, h') :=
  .same result o' h' hsim (congrArg _ hfile) (.inl ⟨hmd, hentries⟩)

theorem Sim.observe (hs : Sim x h o) (now : Reading) :
    Records.observe o.mem.inner.metadata.wallFloor o.mem.inner.observedWall now
      = Records.observe .zero h.memory.observedWall now := by
  rw [hs.observed]
  refine if_congr ?_ rfl rfl
  rw [lt_max_iff]
  constructor
  · exact .inr
  · rintro (hlt | hlt)
    · exact absurd hlt (not_lt.mpr (Duration.zero_le _))
    · exact hlt

/-- The store in memory after the clock was read. -/
def MemoryStore.observing (now : Reading) (h : MemoryHost ω) : MemoryHost ω :=
  { h with memory := { h.memory with observedWall := now.wall } }

theorem Sim.observing (hs : Sim x h o) {now : Reading}
    (hobs : Records.observe .zero h.memory.observedWall now = .ok now.wall) :
    Sim x (MemoryStore.observing now h) (FileStore.observing now o) := by
  obtain ⟨-, hle, -⟩ := observe_eq_ok.mp hobs
  refine ⟨hs.ready.untouched (FileStore.untouched_observing now o), hs.healthy, ?_, hs.live,
    hs.cursor, hs.env⟩
  -- the reading is not below the floor, so it is the later of the two
  rw [hs.observed] at hle
  exact (max_eq_right (le_trans (le_max_left _ _) hle)).symm

namespace FileStore

/-! ### Operations on storage that works -/

theorem start_error {e : DiscoveryError} (hf : o.mem.inner.failed = false) (hclock : clock = .error e) :
    (start clock : Run ω Reading) ⟨o, []⟩ = (.err e, ⟨o, []⟩) := by
  refine (bind_of_ok_except (if_neg (by simp [hf]))).trans ?_
  exact bind_of_error_except hclock

theorem start_backwards {now : Reading} {e : DiscoveryError} (hf : o.mem.inner.failed = false)
    (hclock : clock = .ok now)
    (hobs : Records.observe o.mem.inner.metadata.wallFloor o.mem.inner.observedWall now = .error e) :
    (start clock : Run ω Reading) ⟨o, []⟩ = (.err e, ⟨o, []⟩) := by
  refine (bind_of_ok_except (if_neg (by simp [hf]))).trans ?_
  refine (bind_of_ok_except hclock).trans ?_
  exact bind_of_error_except hobs

theorem start_calm {now : Reading} (hf : o.mem.inner.failed = false) (hclock : clock = .ok now)
    (hobs : Records.observe o.mem.inner.metadata.wallFloor o.mem.inner.observedWall now
      = .ok now.wall) :
    (start clock : Run ω Reading) ⟨o, []⟩ = (.ok now, ⟨observing now o, []⟩) := by
  refine (bind_of_ok_except (if_neg (by simp [hf]))).trans ?_
  refine (bind_of_ok_except hclock).trans ?_
  exact bind_of_ok_except hobs

theorem guarded_calm {α : Type} {read : Run ω α} {a : α} (hf : o.mem.inner.failed = false)
    (hread : read ⟨setFailed true o, []⟩ = (.ok a, ⟨setFailed true o, []⟩)) :
    guarded read ⟨o, []⟩ = (.ok a, ⟨o, []⟩) := by
  have hclean : setFailed false (setFailed true o) = o := by
    unfold setFailed setInner
    rw [← hf]
  refine (bind_of_ok hread).trans ?_
  exact Prod.ext rfl (congrArg (Device.mk · []) hclean)

variable {entries : Entries}

theorem table_calm {md : Metadata} (hdb : o.db = dbOf md entries) :
    (table : Run ω _) ⟨o, []⟩ = (.ok (encodeEntries entries), ⟨o, []⟩) := by
  have hrecords : o.db.open.records = some (encodeEntries entries) := by
    rw [hdb]
    rfl
  unfold table
  rw [bind_apply, Device.ask_calm, hrecords]
  rfl

theorem lookup_calm (h : Ready x o entries) (key : EndpointKey) :
    (lookup x key : Run ω _) ⟨o, []⟩ = (.ok entries[key]?, ⟨o, []⟩) := by
  refine (bind_of_ok (table_calm h.db)).trans ?_
  rw [h.balanced.decode_row]
  rfl

theorem scan_calm (h : Ready x o entries) (now : Reading) :
    (scan x now : Run ω _) ⟨o, []⟩ = (.ok (collectBatch (encodeEntries entries) o.mem.inner.cursor,
        lapsed x now (collectBatch entries o.mem.inner.cursor)), ⟨o, []⟩) := by
  have hrows : lapsedRows x now (collectBatch (encodeEntries entries) o.mem.inner.cursor)
      = .ok (lapsed x now (collectBatch entries o.mem.inner.cursor)) := by
    rw [collectBatch_encodeEntries]
    exact lapsedRows_encode fun e he => h.balanced.sound e.1 e.2 (mem_of_mem_collectBatch he)
  refine (bind_of_ok (table_calm h.db)).trans ?_
  exact bind_of_ok_except hrows

end FileStore

/-! ### The collector -/

theorem Sim.liveCount (hs : Sim x h o) : h.memory.live.toNat = liveCount h.memory.entries := by
  rw [hs.live]
  exact hs.ready.balanced.live

theorem pairwise_collectBatch {V : Type} (entries : Std.ExtTreeMap EndpointKey V compare)
    (cursor : Option EndpointKey) :
    (collectBatch entries cursor).Pairwise fun a b => a.1 ≠ b.1 := by
  have hall : entries.toList.Pairwise fun a b => a.1 ≠ b.1 :=
    Std.ExtTreeMap.ordered_keys_toList.imp fun hlt => ne_of_compare_lt hlt
  exact (hall.filter _).sublist (take_sublist _ _)

theorem nextCursor_encodeEntries (entries : Entries) (cursor : Option EndpointKey) :
    nextCursor (collectBatch (encodeEntries entries) cursor)
      = nextCursor (collectBatch entries cursor) := by
  rw [collectBatch_encodeEntries]
  unfold nextCursor
  rw [length_map, getLast?_map, Option.map_map]
  rfl

/-- The store in memory with these entries. -/
def MemoryStore.holding (entries : Entries) (h : MemoryHost ω) : MemoryHost ω :=
  { h with memory := { h.memory with entries, live := UInt64.ofNat (liveCount entries) } }

/-- **The loop of a collection in memory** retires what has lapsed of the batch. -/
theorem MemoryStore.foldlM_collectOne (now : Reading) (batch : List (EndpointKey × Stored))
    (hkeys : batch.Pairwise fun a b => a.1 ≠ b.1) (entries : Entries) (n : ℕ)
    (hstored : ∀ e ∈ batch, entries[e.1]? = some e.2)
    (hsound : ∀ e ∈ batch, ∃ r, e.2.verify x e.1 = .ok r) (hsize : entries.size ≤ maxIdentities)
    (h : MemoryHost ω) :
    (batch.map Prod.fst).foldlM (collectOne x now) n (holding entries h)
      = (.ok (n + (lapsed x now batch).length), holding (insertAll entries (lapsed x now batch)) h) := by
  induction batch generalizing entries n with
  | nil => rfl
  | cons e batch ih =>
    obtain ⟨hfirst, hrest⟩ := pairwise_cons.mp hkeys
    obtain ⟨r, hr⟩ := hsound e mem_cons_self
    have hstored' : ∀ f ∈ batch, entries[f.1]? = some f.2 :=
      fun f hf => hstored f (mem_cons_of_mem e hf)
    have hsound' : ∀ f ∈ batch, ∃ r, f.2.verify x f.1 = .ok r :=
      fun f hf => hsound f (mem_cons_of_mem e hf)
    have hlookup := hstored e mem_cons_self
    rw [map_cons, foldlM_cons]
    rcases Stored.retire_spec now hr with ⟨hnone, -⟩ | ⟨entry, lease, hs, -, hret, -⟩
    · have hlapsed : lapsed x now (e :: batch) = lapsed x now batch := by
        unfold lapsed
        rw [filterMap_cons, hnone]
      have hone : collectOne x now n e.1 (holding entries h) = (.ok n, holding entries h) := by
        refine (bind_of_ok (a := some e.2) (by rw [← hlookup]; rfl)).trans ?_
        refine (bind_of_ok_except hnone).trans ?_
        rfl
      rw [hlapsed, bind_of_ok hone]
      exact ih hrest entries n hstored' hsound' hsize
    let s' : Stored := .retired r (entry.digest x) entry.isDeleted
    have hlapsed : lapsed x now (e :: batch) = (e.1, s') :: lapsed x now batch := by
      unfold lapsed
      rw [filterMap_cons, hret]
    have hcount : (UInt64.ofNat (liveCount entries)).toNat = liveCount entries := by
      have hle := liveCount_le_size entries
      have hmax : maxIdentities = 4096 := rfl
      rw [UInt64.toNat_ofNat']
      omega
    have hlive := live_insert hcount e.1 s'
    rw [hlookup] at hlive
    -- a retired entry is not live
    have hzero : ∀ w : UInt64, w + countOf s'.live = w := fun w => UInt64.add_zero w
    rw [hzero] at hlive
    have hone : collectOne x now n e.1 (holding entries h)
        = (.ok (n + 1), holding (entries.insert e.1 s') h) := by
      refine (bind_of_ok (a := some e.2) (by rw [← hlookup]; rfl)).trans ?_
      refine (bind_of_ok_except hret).trans ?_
      unfold holding
      rw [← hlive]
      rfl
    rw [hlapsed, bind_of_ok hone, length_cons]
    have hstored'' : ∀ f ∈ batch, (entries.insert e.1 s')[f.1]? = some f.2 := by
      intro f hf
      rw [lookup_insert, if_neg (hfirst f hf)]
      exact hstored' f hf
    rw [ih hrest _ (n + 1) hstored'' hsound' (by rw [size_insert_of_lookup hlookup]; exact hsize)]
    refine Prod.ext ?_ rfl
    rw [Nat.add_assoc, Nat.add_comm 1]

/-! ### Accesses -/

theorem ofExcept_apply {σ α : Type} (result : Except DiscoveryError α) (s : σ) :
    (Prog.ofExcept result : Prog σ DiscoveryError α) s = (outcomeOf result, s) := by
  cases result <;> rfl

variable {α : Type}

theorem Agree.of_untouched {h₁ : MemoryHost ω} {o₁ : FileHost ω}
    {r : Outcome DiscoveryError α × Device (FileHost ω)}
    {m : Outcome DiscoveryError α × MemoryHost ω} (hagree : Agree x h₁ o₁ r m)
    (hu : FileStore.Untouched o o₁) (hentries : h₁.memory.entries = h.memory.entries) :
    Agree x h o r m := by
  cases hagree with
  | same result o' h' hsim hstaging hgen =>
    refine .same result o' h' hsim (hu.file ▸ hstaging) ?_
    rw [hu.metadata, hentries] at hgen
    exact hgen
  | spent o' m hspent entries hready hstaging hfailed =>
    unfold Spent at hspent
    rw [hu.metadata] at hspent
    exact .spent o' m hspent entries hready (hu.file ▸ hstaging) hfailed

theorem Sim.committed (hs : Sim x h o) {changes : List (EndpointKey × Stored)} {now : Reading}
    (happ : FileStore.Applicable x o.mem.inner.metadata h.memory.entries changes now)
    (hwall : o.mem.inner.observedWall = now.wall)
    (hgen : o.mem.inner.metadata.generation.toNat + 1 < 2 ^ 64) :
    Sim x (MemoryStore.holding (insertAll h.memory.entries changes) h)
      (FileStore.committed x h.memory.entries changes now o) where
  ready := hs.ready.committed happ hgen
  healthy := rfl
  observed := by
    show h.memory.observedWall = max (max o.mem.inner.metadata.wallFloor now.wall)
      o.mem.inner.observedWall
    rw [hs.observed, hwall, max_assoc, max_self]
  live := rfl
  cursor := hs.cursor
  env := hs.env

/-- **A commit and what it is in memory.** -/
theorem commit_sim (hx : Json.ReadsBack x.parseJson) (hs : Sim x h o)
    {changes : List (EndpointKey × Stored)} {now : Reading}
    (happ : FileStore.Applicable x o.mem.inner.metadata h.memory.entries changes now)
    (hwall : o.mem.inner.observedWall = now.wall)
    {finish : FileStore.Run ω α} (result : Except DiscoveryError α)
    {f : FileHost ω → FileHost ω} {g : MemoryHost ω → MemoryHost ω}
    (hfinish : ∀ p, finish ⟨p, []⟩ = (outcomeOf result, ⟨f p, []⟩))
    (hrest : ∀ h' p, Sim x h' p → Sim x (g h') (f p) ∧ (f p).file = p.file ∧
      (f p).mem.inner.metadata = p.mem.inner.metadata) :
    Agree x h o ((FileStore.commit x changes now >>= fun _ => finish) ⟨o, []⟩)
      (outcomeOf result, g (MemoryStore.holding (insertAll h.memory.entries changes) h)) := by
  by_cases hgen : o.mem.inner.metadata.generation.toNat + 1 < 2 ^ 64
  · rw [bind_of_ok (FileStore.commit_calm hx hs.ready happ hgen), hfinish]
    obtain ⟨hsim, hfile, hmd⟩ := hrest _ _ (hs.committed happ hwall hgen)
    refine .same result _ _ hsim ((congrArg AtomicFile.staging hfile).trans rfl) ?_
    rw [hmd]
    exact .inr (FileStore.toNat_nextGeneration now hgen)
  · rw [bind_of_err (FileStore.commit_exhausted hx hs.ready hgen)]
    exact .spent _ _ hgen h.memory.entries ⟨hs.ready.db, hs.ready.content, hs.ready.balanced⟩ rfl rfl

theorem Sim.room (hs : Sim x h o) (key : EndpointKey) :
    (h.memory.entries[key]?.isNone = true ∧ o.mem.inner.metadata.identities.toNat ≥ maxIdentities) ↔
      ¬ h.memory.entries.contains key ∧ h.memory.entries.size ≥ maxIdentities := by
  rw [hs.ready.balanced.identities, Std.ExtTreeMap.contains_eq_isSome_getElem?]
  cases h.memory.entries[key]? <;> simp

/-- The start of an operation of the store in memory. -/
def MemoryStore.start (now : ClockRead) : MemoryStore.Run ω Reading := do
  let now ← Prog.ofExcept now
  let m ← Prog.look MemoryHost.memory
  let wall ← Prog.ofExcept (Records.observe .zero m.observedWall now)
  update fun m => { m with observedWall := wall }
  pure now

/-- **Operations start alike**: the clock fails, or went back, for both stores or for neither. -/
theorem start_sim (hs : Sim x h o) {file : Reading → FileStore.Run ω α}
    {memory : Reading → MemoryStore.Run ω α}
    (hstep : ∀ now, Records.observe .zero h.memory.observedWall now = .ok now.wall →
      Agree x (MemoryStore.observing now h) (FileStore.observing now o)
    (file now ⟨FileStore.observing now o, []⟩) (memory now (MemoryStore.observing now h))) :
    Agree x h o ((FileStore.start clock >>= file) ⟨o, []⟩) ((MemoryStore.start clock >>= memory) h) := by
  cases hclock : clock with
  | error e =>
    rw [bind_of_err (FileStore.start_error hs.healthy rfl)]
    exact .of_sim (.error e) hs rfl rfl rfl
  | ok now =>
    cases hobs : observe .zero h.memory.observedWall now with
    | error e =>
      have hmemory : start (.ok now) h = (.err e, h) := by
        exact (bind_of_ok rfl).trans ((bind_of_ok rfl).trans
          (bind_of_error_except hobs))
      rw [bind_of_err (FileStore.start_backwards hs.healthy rfl ((hs.observe now).trans hobs)),
        bind_of_err hmemory]
      exact .of_sim (.error e) hs rfl rfl rfl
    | ok wall =>
      obtain rfl : wall = now.wall := (observe_eq_ok.mp hobs).2.2
      have hmemory : start (.ok now) h = (.ok now, observing now h) := by
        exact (bind_of_ok rfl).trans ((bind_of_ok rfl).trans
          (bind_of_ok_except hobs))
      rw [bind_of_ok (FileStore.start_calm hs.healthy rfl ((hs.observe now).trans hobs)), bind_of_ok hmemory]
      exact (hstep now hobs).of_untouched (FileStore.untouched_observing now o) rfl

theorem Sim.setEnv (hs : Sim x h o) (env : ω) :
    Sim x { h with env } { o with mem := { o.mem with env } } :=
  ⟨⟨hs.ready.db, hs.ready.content, hs.ready.balanced⟩, hs.healthy, hs.observed, hs.live, hs.cursor, rfl⟩

/-- **Both stores ask the callback alike.** -/
theorem ask_sim (hs : Sim x h o) (ask : Prop) [Decidable ask] (admission : Callback ω) (known : Bool)
    {file : FileStore.Run ω α} {memory : MemoryStore.Run ω α}
    (hstep : ∀ env, Agree x { h with env } { o with mem := { o.mem with env } }
      (file ⟨{ o with mem := { o.mem with env } }, []⟩) (memory { h with env })) :
    Agree x h o ((Prog.when ask (FileStore.ask admission known) >>= fun _ => file) ⟨o, []⟩)
      ((Prog.when ask (MemoryStore.ask admission known) >>= fun _ => memory) h) := by
  by_cases hask : ask
  · rw [when_of hask, when_of hask, bind_apply, bind_apply]
    unfold FileStore.ask MemoryStore.ask
    rw [hs.env]
    rcases admission known o.mem.env with ⟨result, env⟩
    cases result with
    | error e => exact .of_sim (.error e) (hs.setEnv env) rfl rfl rfl
    | ok _ => exact (hstep env).of_untouched ⟨rfl, rfl, rfl, id⟩ rfl
  rw [when_of_not hask, when_of_not hask]
  -- nothing is asked, and the caller's state stays
  have hkept : ({ o with mem := { o.mem with env := h.env } } : FileHost ω) = o := by
    rw [hs.env]
  have hsame := hstep h.env
  rw [hkept] at hsame
  exact hsame

/-- What an access does after the clock was read. -/
def MemoryStore.decided (x : Crates) (capacity : ℕ) (key : EndpointKey) (entry : Option Entry)
    (admission : Callback ω) (now : Reading) : MemoryStore.Run ω (Option EndpointRecord) := do
  let m ← Prog.look MemoryHost.memory
  let decision ← Prog.ofExcept (Records.decide x m.entries[key]? entry key now)
  match decision.replacement with
  | none => Prog.ofExcept decision.result
  | some replacement =>
    if ¬ m.entries.contains key ∧ m.entries.size ≥ capacity then
      Prog.fail (storeError "record identity capacity exceeded")
    else do
      Prog.when replacement.isActive (ask admission (m.entries.contains key))
      update (replace key replacement)
      Prog.ofExcept decision.result

theorem MemoryStore.access_eq (capacity : ℕ) (key : EndpointKey) (entry : Option Entry)
    (admission : Callback ω) :
    access x capacity key entry clock admission
      = start clock >>= decided x capacity key entry admission := by
  funext h
  cases clock with
  | error e => rfl
  | ok now =>
    unfold access start
    simp only [bind_apply, ofExcept_ok_apply, look_apply]
    cases observe .zero h.memory.observedWall now <;> rfl

/-- **Accesses agree.** -/
theorem access_sim (hx : Json.ReadsBack x.parseJson) (hs : Sim x h o) (key : EndpointKey)
    (entry : Option Entry) (admission : Callback ω) :
    Agree x h o (FileStore.access x key entry clock admission ⟨o, []⟩)
      (MemoryStore.access x maxIdentities key entry clock admission h) := by
  rw [access_eq]
  refine start_sim hs fun now hobs => ?_
  have hs₁ := hs.observing hobs
  have hwall : (FileStore.observing now o).mem.inner.observedWall = now.wall := rfl
  generalize FileStore.observing now o = o₁ at hs₁ hwall
  generalize observing now h = h₁ at hs₁
  -- both stores read the same entry
  have hread := FileStore.guarded_calm hs₁.healthy (FileStore.lookup_calm
    (o := FileStore.setFailed true o₁)
    ⟨hs₁.ready.db, hs₁.ready.content, hs₁.ready.balanced⟩ key)
  rw [bind_of_ok hread]
  unfold decided
  rw [bind_of_ok (look_apply _ _)]
  cases hdec : decide x h₁.memory.entries[key]? entry key now with
  | error e => exact .of_sim (.error e) hs₁ rfl rfl rfl
  | ok d =>
    rw [ofExcept_ok_bind, ofExcept_ok_bind]
    cases hrep : d.replacement with
    | none =>
      dsimp only
      rw [ofExcept_apply, ofExcept_apply]
      exact .of_sim _ hs₁ rfl rfl rfl
    | some s =>
      dsimp only
      rw [bind_of_ok (Device.get_apply _ _), if_congr (hs₁.room key) rfl rfl]
      by_cases hfull : ¬ h₁.memory.entries.contains key ∧ h₁.memory.entries.size ≥ maxIdentities
      · rw [if_pos hfull, if_pos hfull]
        exact .of_sim (.error _) hs₁ rfl rfl rfl
      rw [if_neg hfull, if_neg hfull, ← Std.ExtTreeMap.contains_eq_isSome_getElem?]
      refine ask_sim hs₁ _ admission _ fun env => ?_
      have hs₂ := hs₁.setEnv env
      have happ := FileStore.applicable_decide hs₁.ready.balanced hdec hrep
        (fun hno => hfull ((hs₁.room key).mp hno))
      have hreplaced : MemoryStore.update (MemoryStore.replace key s) { h₁ with env }
          = (.ok (), MemoryStore.holding (insertAll h₁.memory.entries [(key, s)])
              { h₁ with env }) := by
        have hlive := live_insert hs₁.liveCount key s
        unfold MemoryStore.update MemoryStore.replace MemoryStore.holding
        rw [modify_apply, hlive]
        rfl
      rw [bind_of_ok hreplaced, ofExcept_apply]
      exact commit_sim hx hs₂ happ hwall d.result (f := id) (g := id)
        (fun p => ofExcept_apply _ _) fun h' p hp => ⟨hp, rfl, rfl⟩

/-! ### Collections -/

/-- What a collection does after the clock was read. -/
def MemoryStore.gathered (x : Crates) (now : Reading) : MemoryStore.Run ω ℕ := do
  let m ← Prog.look MemoryHost.memory
  let batch := collectBatch m.entries m.cursor
  update fun m => { m with cursor := nextCursor batch }
  (batch.map Prod.fst).foldlM (collectOne x now) 0

theorem MemoryStore.collect_eq :
    (collect x clock : MemoryStore.Run ω ℕ) = start clock >>= gathered x := by
  funext h
  cases clock with
  | error e => rfl
  | ok now =>
    unfold collect start
    simp only [bind_apply, ofExcept_ok_apply, look_apply]
    cases observe .zero h.memory.observedWall now <;> rfl

theorem Sim.setCursor (hs : Sim x h o) (cursor : Option EndpointKey) :
    Sim x { h with memory := { h.memory with cursor } }
      (FileStore.setInner (fun inner => { inner with cursor }) o) :=
  ⟨⟨hs.ready.db, hs.ready.content, hs.ready.balanced⟩, hs.healthy, hs.observed, hs.live, rfl, hs.env⟩

/-- **A collection in memory**, computed. -/
theorem Sim.gathered (hs : Sim x h o) (now : Reading) :
    MemoryStore.gathered x now h
      = (.ok (lapsed x now (collectBatch h.memory.entries h.memory.cursor)).length,
          MemoryStore.holding (insertAll h.memory.entries
            (lapsed x now (collectBatch h.memory.entries h.memory.cursor)))
            { h with memory := { h.memory with
              cursor := nextCursor (collectBatch h.memory.entries h.memory.cursor) } }) := by
  -- the number of live records is the one `holding` sets
  have hholding : ∀ cursor, ({ h with memory := { h.memory with cursor } } : MemoryHost ω)
      = MemoryStore.holding h.memory.entries { h with memory := { h.memory with cursor } } := by
    intro cursor
    unfold MemoryStore.holding
    rw [← hs.liveCount, UInt64.ofNat_toNat]
  have hloop := foldlM_collectOne now
    (collectBatch h.memory.entries h.memory.cursor)
    (pairwise_collectBatch _ _) h.memory.entries 0
    (fun e he => mem_of_mem_collectBatch he)
    (fun e he => hs.ready.balanced.sound e.1 e.2 (mem_of_mem_collectBatch he))
    hs.ready.balanced.capacity
    { h with memory := { h.memory with
      cursor := nextCursor (collectBatch h.memory.entries h.memory.cursor) } }
  rw [Nat.zero_add, ← hholding] at hloop
  exact (bind_of_ok rfl).trans hloop

/-- **Collections agree.** -/
theorem collect_sim (hx : Json.ReadsBack x.parseJson) (hs : Sim x h o) :
    Agree x h o (FileStore.collect x clock ⟨o, []⟩) (MemoryStore.collect x clock h) := by
  rw [collect_eq]
  refine start_sim hs fun now hobs => ?_
  have hs₁ := hs.observing hobs
  have hwall : (FileStore.observing now o).mem.inner.observedWall = now.wall := rfl
  generalize FileStore.observing now o = o₁ at hs₁ hwall
  generalize observing now h = h₁ at hs₁
  have hread := FileStore.guarded_calm hs₁.healthy (FileStore.scan_calm
    (o := FileStore.setFailed true o₁)
    ⟨hs₁.ready.db, hs₁.ready.content, hs₁.ready.balanced⟩ now)
  rw [bind_of_ok hread, hs₁.gathered now]
  have hcursor : (FileStore.setFailed true o₁).mem.inner.cursor = h₁.memory.cursor :=
    hs₁.cursor.symm
  rw [hcursor, nextCursor_encodeEntries]
  have happ := FileStore.applicable_lapsed now hs₁.ready.balanced h₁.memory.cursor
  generalize lapsed x now (collectBatch h₁.memory.entries h₁.memory.cursor) = changes at happ
  generalize nextCursor (collectBatch h₁.memory.entries h₁.memory.cursor) = cursor
  by_cases hne : changes ≠ []
  · rw [when_of hne]
    exact commit_sim hx hs₁ happ hwall (.ok changes.length)
      (f := FileStore.setInner fun inner => { inner with cursor })
      (g := fun h => { h with memory := { h.memory with cursor } })
      (fun p => rfl) fun h' p hp => ⟨hp.setCursor cursor, rfl, rfl⟩
  -- nothing has lapsed: only the position moves
  obtain rfl := not_not.mp hne
  have hkept : MemoryStore.holding h₁.memory.entries h₁ = h₁ := by
    unfold MemoryStore.holding
    rw [← hs₁.liveCount, UInt64.ofNat_toNat]
  have hmoved : MemoryStore.holding (insertAll h₁.memory.entries [])
      { h₁ with memory := { h₁.memory with cursor } }
        = { h₁ with memory := { h₁.memory with cursor } } :=
    congrArg (fun h : MemoryHost ω => { h with memory := { h.memory with cursor } }) hkept
  rw [hmoved]
  exact .of_sim (.ok 0) (hs₁.setCursor cursor) rfl rfl rfl

/-! ### Calls -/

theorem Agree.andThen {α β : Type} {r : Outcome DiscoveryError α × Device (FileHost ω)}
    {m : Outcome DiscoveryError α × MemoryHost ω} (hagree : Agree x h o r m)
    (f : α → Except DiscoveryError β) :
    Agree x h o (r.1.andThen f, r.2) (m.1.andThen f, m.2) := by
  cases hagree with
  | same result o' h' hsim hstaging hgen =>
    have hout : (outcomeOf result).andThen f = outcomeOf (result >>= f) := by
      cases result with
      | ok a => cases h : f a <;> simp [outcomeOf, Outcome.andThen, h, bind, Except.bind]
      | error e => rfl
    rw [hout]
    exact .same _ o' h' hsim hstaging hgen
  | spent o' m hspent entries hready hstaging hfailed =>
    exact .spent o' _ hspent entries hready hstaging hfailed

/-- **Calls agree.** -/
theorem run_sim (hx : Json.ReadsBack x.parseJson) (clock : ClockRead)
    (hs : Sim x h o) (call : Call ω) :
    Agree x h o (call.run (FileStore.ops x) x clock ⟨o, []⟩)
      (call.run (MemoryStore.ops x maxIdentities) x clock h) := by
  cases htarget : call.target x with
  | none =>
    rw [Call.run_collect htarget, Call.run_collect htarget]
    exact (collect_sim hx hs).andThen _
  | some target =>
    cases target with
    | error e =>
      rw [Call.run_unverified htarget, Call.run_unverified htarget]
      exact .of_sim (.error e) hs rfl rfl rfl
    | ok target =>
      rw [Call.run_access htarget, Call.run_access htarget]
      exact (access_sim hx hs target.1 target.2 call.callback).andThen _

end Rds.Discovery
