import Rds.Discovery.CalmHistory

/-!
# What a caller sees of the two record stores

A caller of a store sees how each call ended, what its admission callbacks were asked, and the
counts the store reports (`Sight`). A `FileStore` on storage that works and a `MemoryStore` of the
same capacity give the same sights for every script of calls, up to the point where the store on
disk has used up its commit generations (`stores_agree`). That point exists: a script with one
accepted deletion for every revision of a `u64` reaches it (`stores_disagree`).
-/

namespace Rds.Discovery

open Framework Postcard List UInt64

/-! ### Sights -/

/-- What a caller sees of a call. The state `env` is that of its callbacks, so it records what they
were asked. `len` is `RecordStore::len`; `records` and `identities` are those of the snapshot the
call publishes. -/
structure Sight (ω : Type) where
  outcome : Outcome DiscoveryError Reply
  env : ω
  len : ℕ
  records : ℕ
  identities : ℕ

/-- A script of calls and clock readings. -/
abbrev Script (ω : Type) := List (Call ω × ClockRead)

/-- What the caller of a store on disk sees. -/
def FileStore.sight {ω : Type}
    (r : Outcome DiscoveryError Reply × Device (FileHost ω)) : Sight ω where
  outcome := r.1
  env := r.2.state.mem.env
  len := r.2.state.mem.inner.metadata.live.toNat
  records := r.2.state.mem.inner.metadata.live.toNat
  identities := r.2.state.mem.inner.metadata.identities.toNat

/-- What the caller of a store in memory sees. -/
def MemoryStore.sight {ω : Type} (r : Outcome DiscoveryError Reply × MemoryHost ω) : Sight ω where
  outcome := r.1
  env := r.2.env
  len := liveCount r.2.memory.entries
  records := r.2.memory.live.toNat
  identities := r.2.memory.entries.size

section Trace

variable {σ ω : Type} (ops : StoreOps σ ω) (x : Crates)

/-- The store after a script. -/
def after (s : σ) (script : Script ω) : σ :=
  script.foldl (fun s c => (c.1.run ops x c.2 s).2) s

/-- What the caller sees of a script. -/
def trace (sight : Outcome DiscoveryError Reply × σ → Sight ω) : σ → Script ω → List (Sight ω)
  | _, [] => []
  | s, c :: script =>
    sight (c.1.run ops x c.2 s) :: trace sight (c.1.run ops x c.2 s).2 script

variable {ops x}

theorem after_append (s : σ) (script script' : Script ω) :
    after ops x s (script ++ script') = after ops x (after ops x s script) script' :=
  foldl_append

theorem trace_append (sight : Outcome DiscoveryError Reply × σ → Sight ω) (s : σ)
    (script script' : Script ω) :
    trace ops x sight s (script ++ script')
      = trace ops x sight s script ++ trace ops x sight (after ops x s script) script' := by
  induction script generalizing s with
  | nil => rfl
  | cons c script ih => exact congrArg _ (ih _)

end Trace

variable {ω : Type} {x : Crates} {h : MemoryHost ω} {o : FileHost ω}

theorem Sim.sight (hs : Sim x h o) (out : Outcome DiscoveryError Reply) :
    FileStore.sight (out, ⟨o, []⟩) = MemoryStore.sight (out, h) := by
  unfold FileStore.sight MemoryStore.sight
  rw [← hs.live, hs.liveCount, hs.ready.balanced.identities, hs.env]

/-! ### Traces -/

/-- Where two traces part: after a common part, which used up the generations of the store on disk,
it refuses a call for that reason. -/
structure Parting (x : Crates) (d : Device (FileHost ω)) (h : MemoryHost ω)
    (common : Script ω) (call : Call ω × ClockRead) : Prop where
  same : trace (FileStore.ops x) x FileStore.sight d common
    = trace (MemoryStore.ops x maxIdentities) x MemoryStore.sight h common
  spent : Spent (after (FileStore.ops x) x d common).state
  refused : (call.1.run (FileStore.ops x) x call.2 (after (FileStore.ops x) x d common)).1
    = .err exhausted

/-- **Traces agree**, or part where the generations are used up. -/
theorem trace_sim (hx : Json.ReadsBack x.parseJson) (hs : Sim x h o) (script : Script ω) :
    trace (FileStore.ops x) x FileStore.sight ⟨o, []⟩ script
        = trace (MemoryStore.ops x maxIdentities) x MemoryStore.sight h script ∨
      ∃ common call rest, script = common ++ call :: rest ∧
        2 ^ 64 ≤ o.mem.inner.metadata.generation.toNat + common.length + 1 ∧
        Parting x ⟨o, []⟩ h common call := by
  induction script generalizing h o with
  | nil => exact .inl rfl
  | cons c script ih =>
    have hagree := run_sim hx c.2 hs c.1
    rcases hfile : c.1.run (FileStore.ops x) x c.2 ⟨o, []⟩ with ⟨out, d⟩
    rcases hmemory : c.1.run (MemoryStore.ops x maxIdentities) x c.2 h with ⟨out', h'⟩
    rw [hfile, hmemory] at hagree
    cases hagree with
    | same result o' _ hsim _ hgen =>
      have hhead := hsim.sight (outcomeOf result)
      -- the head looks the same, and the tails agree or part later
      have hcons : ∀ tail, trace (FileStore.ops x) x FileStore.sight ⟨o', []⟩ tail
              = trace (MemoryStore.ops x maxIdentities) x MemoryStore.sight h' tail →
            trace (FileStore.ops x) x FileStore.sight ⟨o, []⟩ (c :: tail)
              = trace (MemoryStore.ops x maxIdentities) x MemoryStore.sight h (c :: tail) := by
        intro tail htail
        unfold trace
        rw [hfile, hmemory, hhead]
        exact congrArg _ htail
      rcases ih hsim with htail | ⟨common, call, rest, rfl, hlen, hpart⟩
      · exact .inl (hcons script htail)
      have hafter : after (FileStore.ops x) x ⟨o, []⟩ (c :: common)
          = after (FileStore.ops x) x ⟨o', []⟩ common := by
        unfold after
        rw [foldl_cons, hfile]
      refine .inr ⟨c :: common, call, rest, rfl, ?_, hcons common hpart.same, ?_, ?_⟩
      · rw [length_cons]
        rcases hgen with ⟨hmd, -⟩ | hgen
        · rw [hmd] at hlen
          omega
        · omega
      · rw [hafter]
        exact hpart.spent
      · rw [hafter]
        exact hpart.refused
    | spent o' _ hspent _ _ _ _ =>
      refine .inr ⟨[], c, script, rfl, ?_, rfl, hspent, ?_⟩
      · exact Nat.not_lt.mp hspent
      · exact congrArg Prod.fst hfile

theorem sim_fresh (hx : Json.ReadsBack x.parseJson) (env : ω) (database : Id16) :
    ∃ inner, (Site.step x (Site.fresh env) (.reopen database) []).inst = some inner ∧
      inner.metadata.generation = 1 ∧
      Sim x ⟨.fresh, env⟩ ((Site.step x (Site.fresh env) (.reopen database) []).device inner []).state := by
  have hcalm := Site.calm_reopen hx (Site.inv_fresh env).holds rfl database
  refine ⟨_, hcalm.inst, rfl, hcalm.ready, rfl, ?_, rfl, rfl, ?_⟩
  · exact (max_self Duration.zero).symm
  · rfl

/-- **The two stores agree.** A new store on disk, on storage that works, and a fresh store in memory
of the same capacity are given the same script. The caller sees the same; or the script has used up
the commit generations of the store on disk, which takes at least `2 ^ 64 - 2` calls, the caller saw
the same until then, and the next call that has something to commit is refused for that reason. -/
theorem stores_agree {ω : Type} {x : Crates} (hx : Json.ReadsBack x.parseJson) (env : ω)
    (database : Id16) (script : Script ω) :
    ∃ inner, (Site.step x (Site.fresh env) (.reopen database) []).inst = some inner ∧
      (trace (FileStore.ops x) x FileStore.sight
          ((Site.step x (Site.fresh env) (.reopen database) []).device inner []) script
        = trace (MemoryStore.ops x maxIdentities) x MemoryStore.sight ⟨.fresh, env⟩ script ∨
      ∃ common call rest, script = common ++ call :: rest ∧ 2 ^ 64 - 2 ≤ common.length ∧
        Parting x ((Site.step x (Site.fresh env) (.reopen database) []).device inner [])
          ⟨.fresh, env⟩ common call) := by
  obtain ⟨inner, hinst, hgen, hsim⟩ := sim_fresh hx env database
  refine ⟨inner, hinst, ?_⟩
  rcases trace_sim hx hsim script with hsame | ⟨common, call, rest, hscript, hlen, hpart⟩
  · exact .inl hsame
  refine .inr ⟨common, call, rest, hscript, ?_, hpart⟩
  have hone : ((Site.step x (Site.fresh env) (.reopen database) []).device inner
      []).state.mem.inner.metadata.generation.toNat = 1 := congrArg toNat hgen
  omega

/-- A record is stored and found, and offered again after its successor. -/
def putAndGet : Script Unit :=
  let now := .ok ⟨repeated 16 2, .fromSecs 1000, .fromSecs 10⟩
  [(.put (signedRecord 1 900) .admitAll, now), (.get (repeated 32 1), now),
    (.put (signedRecord 2 950) .admitAll, now), (.put (signedRecord 1 900) .admitAll, now)]

theorem stores_agree_putAndGet :
    (trace (MemoryStore.ops namingCrates maxIdentities) namingCrates MemoryStore.sight
        ⟨.fresh, ()⟩ putAndGet).map (·.outcome) =
      [.ok .done, .ok (.record (signedRecord 1 900)), .ok .done, .err .stale] ∧
    ∃ inner, (Site.step namingCrates (Site.fresh ()) (.reopen (repeated 16 0)) []).inst = some inner ∧
      trace (FileStore.ops namingCrates) namingCrates FileStore.sight
          ((Site.step namingCrates (Site.fresh ()) (.reopen (repeated 16 0)) []).device inner []) putAndGet
        = trace (MemoryStore.ops namingCrates maxIdentities) namingCrates MemoryStore.sight
            ⟨.fresh, ()⟩ putAndGet := by
  refine ⟨by decide +kernel, ?_⟩
  obtain ⟨inner, hinst, hsame | ⟨common, call, rest, hscript, hlen, -⟩⟩ :=
    stores_agree (x := namingCrates) Json.readsBack_parse () (repeated 16 0) putAndGet
  · exact ⟨inner, hinst, hsame⟩
  · have hfour := congrArg length hscript
    rw [length_append, show putAndGet.length = 4 from rfl] at hfour
    omega

/-! ### A script that uses up the generations -/

section Exhaust

variable (x : Crates) (key : SigningKey)

/-- The reading at which the deletions are made. -/
def deletionTime : Reading := ⟨repeated 16 2, .fromSecs 1000, .fromSecs 10⟩

/-- The deletion with a revision. -/
def deletionOf (revision : ℕ) : DeletePayload :=
  ⟨recordVersion, x.verifyingKey key, UInt64.ofNat revision, 1000, 1100⟩

/-- The deletion, signed. -/
def signedDeletion (revision : ℕ) : DeleteRequest :=
  { key := x.verifyingKey key
    payload := deletePayloadCodec.encode (deletionOf x key revision)
    signature := Authority.sign x deleteDomain
      (deletePayloadCodec.encode (deletionOf x key revision)) key }

/-- Deletions of one key with the revisions up to `n`, one after the other. -/
def deletions (n : ℕ) : Script Unit :=
  (List.range n).map fun i => (.remove (signedDeletion x key (i + 1)) .admitAll, .ok deletionTime)

/-- The lease of a deletion. -/
def deletionLease : Lease where
  boot := repeated 16 2
  issuedAt := 1000
  expiresAt := 1100
  acceptedWall := .fromSecs 1000
  acceptedContinuous := .fromSecs 10
  deadline := .fromSecs 110

variable {x key}

theorem lease_deletionTime : Lease.new 1000 1100 deletionTime = .ok deletionLease := by
  decide

theorem verify_signedDeletion (hx : x.Signs key) {n : ℕ} (hn : 0 < n) (hlt : n < 2 ^ 64) :
    (signedDeletion x key n).verify x = .ok (deletionOf x key n) := by
  refine DeleteRequest.verify_of_sign hx ?_
  have hpos : ofNat n ≠ 0 := by
    intro hzero
    have hnat := congrArg toNat hzero
    rw [toNat_ofNat_of_lt' hlt] at hnat
    exact absurd hnat (by simpa using hn.ne')
  refine check_bind_eq_ok.mpr ⟨?_, ite_throw_eq_ok.mpr ⟨not_not.mpr rfl, rfl⟩⟩
  have hinterval : (1000 : UInt64) < 1100 ∧ (1100 : UInt64) - 1000 ≤ deleteTtl := by decide
  exact RecordWire.metadata_eq_ok.mpr ⟨rfl, hpos, hinterval⟩

/-- The store in memory has accepted the deletions up to `n`. -/
structure Floored (x : Crates) (key : SigningKey) (n : ℕ) (h : MemoryHost Unit) : Prop where
  observed : h.memory.observedWall ≤ deletionTime.wall
  room : ¬ (¬ h.memory.entries.contains (x.verifyingKey key) ∧
    h.memory.entries.size ≥ maxIdentities)
  floor : ∀ s, h.memory.entries[x.verifyingKey key]? = some s →
    s.verify x (x.verifyingKey key) = .ok (UInt64.ofNat n)

theorem floored_fresh (x : Crates) (key : SigningKey) : Floored x key 0 ⟨.fresh, ()⟩ where
  observed := Duration.zero_le _
  room h := absurd h.2 (by decide)
  floor s hs := absurd hs (by
    show (∅ : Std.ExtTreeMap EndpointKey Stored compare)[x.verifyingKey key]? ≠ some s
    rw [Std.ExtTreeMap.getElem?_empty]
    exact nofun)

/-- **The next deletion is accepted** by the store in memory, and changes its entries. -/
theorem Floored.step (hx : x.Signs key) {n : ℕ} {h : MemoryHost Unit} (hf : Floored x key n h)
    (hlt : n + 1 < 2 ^ 64) :
    ∃ h', (Call.remove (signedDeletion x key (n + 1)) .admitAll : Call Unit).run
        (MemoryStore.ops x maxIdentities) x (.ok deletionTime) h = (.ok .done, h') ∧
      Floored x key (n + 1) h' ∧ h'.memory.entries ≠ h.memory.entries := by
  have hverify := verify_signedDeletion hx n.succ_pos hlt
  let entry : Entry := .deleted (signedDeletion x key (n + 1))
  let s : Stored := .active entry deletionLease
  have hdetails : entry.details x (x.verifyingKey key)
      = .ok ⟨ofNat (n + 1), 1000, 1100⟩ :=
    bind_eq_ok.mpr ⟨_, hverify, if_neg (not_not.mpr rfl)⟩
  have hnext : ofNat n < ofNat (n + 1) := by
    rw [lt_iff_toNat_lt, toNat_ofNat_of_lt' hlt, toNat_ofNat_of_lt' (Nat.lt_of_succ_lt hlt)]
    exact n.lt_succ_self
  have hstored : s.verify x (x.verifyingKey key) = .ok (ofNat (n + 1)) :=
    Stored.verify_active hdetails lease_deletionTime
  have hdecide : Records.decide x h.memory.entries[x.verifyingKey key]? (some entry)
      (x.verifyingKey key) deletionTime = .ok ⟨some s, .ok none⟩ :=
    Records.decide_of_fresh hdetails lease_deletionTime fun s hs => ⟨_, hf.floor s hs, hnext⟩
  have hobs : Records.observe .zero h.memory.observedWall deletionTime = .ok deletionTime.wall :=
    Records.observe_eq_ok.mpr ⟨Duration.zero_le _, hf.observed, rfl⟩
  let m : Memory := MemoryStore.replace (x.verifyingKey key) s
    { h.memory with observedWall := deletionTime.wall }
  have hkey : m.entries[x.verifyingKey key]? = some s := by
    show (h.memory.entries.insert (x.verifyingKey key) s)[x.verifyingKey key]? = some s
    rw [lookup_insert, if_pos rfl]
  refine ⟨⟨m, h.env⟩, ?_, ⟨le_rfl, ?_, ?_⟩, ?_⟩
  · have htarget : (Call.remove (signedDeletion x key (n + 1)) .admitAll : Call Unit).target x
        = some (.ok (x.verifyingKey key, some entry)) := by
      show some ((DeleteRequest.verify x _).map _) = _
      rw [hverify]
      rfl
    have haccess : MemoryStore.access x maxIdentities (x.verifyingKey key) (some entry)
        (.ok deletionTime) .admitAll h
          = (.ok none, ⟨m, h.env⟩) := by
      refine (Prog.bind_of_ok_except hobs).trans ?_
      refine (Prog.bind_of_ok_except hdecide).trans ?_
      exact (congrFun (if_neg hf.room) _).trans rfl
    rw [Call.run_access htarget]
    show ((MemoryStore.access x maxIdentities (x.verifyingKey key) (some entry)
      (.ok deletionTime) .admitAll h).1.andThen _, (MemoryStore.access x maxIdentities
        (x.verifyingKey key) (some entry) (.ok deletionTime) .admitAll h).2) = _
    rw [haccess]
    rfl
  · rintro ⟨hno, -⟩
    refine hno ?_
    rw [Std.ExtTreeMap.contains_eq_isSome_getElem?, hkey]
    rfl
  · intro s' hs'
    have hsame : s = s' := Option.some.inj (hkey.symm.trans hs')
    exact hsame ▸ hstored
  · -- the entry of the key has another revision now
    intro hsame
    have hold : h.memory.entries[x.verifyingKey key]? = some s := hsame ▸ hkey
    have hrev := (hf.floor s hold).symm.trans hstored
    exact absurd (Except.ok.inj hrev ▸ hnext) (UInt64.lt_irrefl _)

theorem deletions_succ (n : ℕ) :
    deletions x key (n + 1) = deletions x key n ++
      [(.remove (signedDeletion x key (n + 1)) .admitAll, .ok deletionTime)] := by
  unfold deletions
  rw [range_succ, map_append]
  rfl

/-- **Every deletion takes a generation**, as long as there is one. -/
theorem after_deletions (hr : Json.ReadsBack x.parseJson) (hx : x.Signs key)
    {o : Owner DbFile (FileMem Unit)} (hs : Sim x ⟨.fresh, ()⟩ o)
    (hone : o.mem.inner.metadata.generation = 1) {n : ℕ} (hn : n + 1 < 2 ^ 64) :
    ∃ o' h', after (FileStore.ops x) x ⟨o, []⟩ (deletions x key n) = ⟨o', []⟩ ∧
      after (MemoryStore.ops x maxIdentities) x ⟨.fresh, ()⟩ (deletions x key n) = h' ∧
      Sim x h' o' ∧ o'.mem.inner.metadata.generation.toNat = n + 1 ∧ Floored x key n h' := by
  induction n with
  | zero => exact ⟨o, _, rfl, rfl, hs, congrArg toNat hone, floored_fresh x key⟩
  | succ n ih =>
    obtain ⟨o₁, h₁, hfile, hmemory, hsim, hgen, hfloored⟩ := ih (Nat.lt_of_succ_lt hn)
    obtain ⟨h₂, hrun, hfloored₂, hne⟩ := hfloored.step hx (Nat.lt_of_succ_lt hn)
    have hagree := run_sim hr (.ok deletionTime) hsim
      (.remove (signedDeletion x key (n + 1)) .admitAll)
    rw [deletions_succ, after_append, after_append, hfile, hmemory]
    unfold after
    rw [foldl_cons, foldl_cons, hrun]
    rw [hrun] at hagree
    generalize Call.run (FileStore.ops x) x (.ok deletionTime) _ _ = r at hagree
    generalize (Outcome.ok Reply.done : Outcome DiscoveryError Reply) = done at hagree
    cases hagree with
    | same result o₂ _ hsim₂ _ hgen₂ =>
      refine ⟨o₂, h₂, rfl, rfl, hsim₂, ?_, hfloored₂⟩
      rcases hgen₂ with ⟨-, hkept⟩ | hgen₂
      · exact absurd hkept hne
      · rw [hgen₂, hgen]
    | spent _ _ hspent _ _ _ _ =>
      exact absurd (hgen ▸ hn) hspent

/-- **The stores part**, whatever the keys and the digests are: the deletion with the last revision
is accepted in memory and refused on disk. -/
theorem trace_deletions_ne (hr : Json.ReadsBack x.parseJson) (hx : x.Signs key)
    {o : Owner DbFile (FileMem Unit)} (hs : Sim x ⟨.fresh, ()⟩ o)
    (hone : o.mem.inner.metadata.generation = 1) {n : ℕ} (hn : n + 2 = 2 ^ 64) :
    trace (FileStore.ops x) x FileStore.sight ⟨o, []⟩ (deletions x key (n + 1))
      ≠ trace (MemoryStore.ops x maxIdentities) x MemoryStore.sight ⟨.fresh, ()⟩
          (deletions x key (n + 1)) := by
  have hlt : n + 1 < 2 ^ 64 := by omega
  obtain ⟨o₁, h₁, hfile, hmemory, hsim, hgen, hfloored⟩ := after_deletions hr hx hs hone hlt
  obtain ⟨h₂, hrun, -, hne⟩ := hfloored.step hx hlt
  have hagree := run_sim hr (.ok deletionTime) hsim
    (.remove (signedDeletion x key (n + 1)) .admitAll)
  rw [deletions_succ, trace_append, trace_append, hfile, hmemory]
  intro heq
  have hlast := (append_inj' heq rfl).2
  unfold trace at hlast
  rw [hrun] at hlast hagree
  have hout := congrArg Sight.outcome (cons.inj hlast).1
  generalize Call.run (FileStore.ops x) x (.ok deletionTime) _ _ = r at hagree hout
  generalize hdone : (Outcome.ok Reply.done : Outcome DiscoveryError Reply) = done at hagree hout
  cases hagree with
  | same result o₂ _ hsim₂ _ hgen₂ =>
    rcases hgen₂ with ⟨-, hkept⟩ | hgen₂
    · exact hne hkept
    · have hbound := o₂.mem.inner.metadata.generation.toNat_lt
      omega
  | spent _ _ _ _ _ _ _ =>
    have hno : (Outcome.ok Reply.done : Outcome DiscoveryError Reply) = .err exhausted :=
      hdone.trans hout.symm
    exact absurd hno nofun

end Exhaust

theorem signs_namingCrates (key : SigningKey) : namingCrates.Signs key where
  validKey := rfl
  verifyStrict _ := decide_eq_true rfl

/-- One deletion for each revision of a `u64`: the traces are not the same. -/
theorem stores_disagree :
    ∃ inner, (Site.step namingCrates (Site.fresh ()) (.reopen (repeated 16 0)) []).inst
        = some inner ∧
      trace (FileStore.ops namingCrates) namingCrates FileStore.sight
          ((Site.step namingCrates (Site.fresh ()) (.reopen (repeated 16 0)) []).device inner [])
          (deletions namingCrates (repeated 32 1) (2 ^ 64 - 1))
        ≠ trace (MemoryStore.ops namingCrates maxIdentities) namingCrates MemoryStore.sight
            ⟨.fresh, ()⟩ (deletions namingCrates (repeated 32 1) (2 ^ 64 - 1)) := by
  obtain ⟨inner, hinst, hone, hsim⟩ := sim_fresh (x := namingCrates) Json.readsBack_parse ()
    (repeated 16 0)
  refine ⟨inner, hinst, ?_⟩
  have hn : 2 ^ 64 - 1 = (2 ^ 64 - 2) + 1 := by omega
  exact trace_deletions_ne Json.readsBack_parse (signs_namingCrates _) hsim hone (by omega)

end Rds.Discovery
