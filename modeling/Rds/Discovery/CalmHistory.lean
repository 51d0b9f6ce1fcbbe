import Rds.Discovery.StoreEquivalence

/-!
# Histories on storage that works

As long as storage works, the metadata of an open store describe its directory exactly: they count
its keys and its live records, no lease was accepted above their clock floor, and the anchor holds
them. A commit counts up incrementally and an open counts from scratch (`FileStore.openCatalog`), so
this is what makes every directory a store has worked on one that can be opened again.

`Calm` is what one command keeps (`Calm.step`); a commit that cannot count up its generation leaves a
store that has failed, over a directory that is still exact. `Described` is what follows from it.
-/

namespace Rds.Discovery

open Framework FileStore

namespace Site

variable {ω : Type} {x : Crates}

/-- **An exact directory**: the open store, failed or not, agrees with it, and no staging file was
left behind. -/
structure Calm (x : Crates) (site : Site ω) (inner : Inner) (entries : Entries) : Prop where
  inst : site.inst = some inner
  ready : FileStore.Ready x (site.device inner []).state entries
  staging : site.file.staging = []

theorem length_directoryNames_le {ι : Type} (o : Owner DbFile ι) :
    (FileStore.directoryNames o).length ≤ 5 + o.file.staging.length := by
  rcases o with ⟨⟨content, initialized, staging⟩, db, mem⟩
  unfold directoryNames
  cases content <;> cases db <;>
    simp only [Option.isSome, List.length_append, List.length_map, List.length_cons,
      List.length_nil, if_true, if_false, Bool.false_eq_true] <;> omega

theorem calm_reopen (hx : Json.ReadsBack x.parseJson) {site : Site ω}
    {content : Option (Metadata × Entries)} (h : Holds x site.file site.db content)
    (hstaging : site.file.staging = []) (database : Id16) :
    let c := FileStore.firstContent database content
    Calm x (step x site (.reopen database) []) (FileStore.openedInner c.1) c.2 := by
  intro c
  have hnames : (directoryNames (site.directory []).state).length ≤ 129 := by
    refine (length_directoryNames_le _).trans ?_
    show 5 + site.file.staging.length ≤ 129
    rw [hstaging]
    decide
  have hopen := openStore_calm (o := (site.directory []).state) hx h hnames database
  have hstep : step x site (.reopen database) [] = afterOpen site.env
      (.ok (openedInner c.1), ⟨openedOwner x c (site.directory []).state, []⟩) :=
    congrArg (afterOpen site.env) hopen
  have hbal : Balanced x c.1 c.2 := by
    cases hcontent : content with
    | none =>
      have hc : c = firstContent database none :=
        congrArg (firstContent database) hcontent
      rw [hc]
      exact balanced_initial x database
    | some stored =>
      have hc : c = stored := congrArg (firstContent database) hcontent
      rw [hc]
      exact Holds.balanced (hcontent ▸ h)
  rw [hstep]
  exact ⟨rfl, ⟨rfl, rfl, hbal⟩, hstaging⟩

variable {site : Site ω} {inner : Inner} {entries : Entries}

theorem Calm.holds (h : Calm x site inner entries) :
    Holds x site.file site.db (some (inner.metadata, entries)) :=
  h.ready.holds

theorem Calm.exists_sim (h : Calm x site inner entries) (hf : inner.failed = false) :
    Sim x ⟨⟨entries, max inner.metadata.wallFloor inner.observedWall, inner.metadata.live,
      inner.cursor⟩, site.env⟩ (site.device inner []).state :=
  ⟨h.ready, hf, rfl, rfl, rfl, rfl⟩

/-- **A call keeps a directory exact.** A store that has failed does nothing; one that has not does
what a store in memory does, or has used up its generations. -/
theorem Calm.call (hx : Json.ReadsBack x.parseJson) (h : Calm x site inner entries)
    (call : Call ω) (now : ClockRead) :
    ∃ inner' entries', Calm x (step x site (.call call now) []) inner' entries' := by
  have hstep : step x site (.call call now) []
      = afterCall (call.run (ops x) x now (site.device inner [])) := by
    unfold step
    rw [h.inst]
  rw [hstep]
  cases hf : inner.failed with
  | true =>
    obtain ⟨e, hrun⟩ := run_failed x now (d := site.device inner []) hf call
    rw [hrun]
    exact ⟨inner, entries, rfl, h.ready, h.staging⟩
  | false =>
    have hagree := run_sim hx now (h.exists_sim hf) call
    show ∃ inner' entries', Calm x (afterCall (call.run (ops x) x now ⟨(site.device inner []).state, []⟩)) _ _
    generalize call.run (ops x) x now ⟨(site.device inner []).state, []⟩ = r at hagree
    generalize call.run (MemoryStore.ops x maxIdentities) x now _ = m at hagree
    cases hagree with
    | same result o' h' hsim hstaging _ =>
      refine ⟨o'.mem.inner, h'.memory.entries, ?_, hsim.ready, hstaging.trans h.staging⟩
      cases result <;> rfl
    | spent o' _ _ entries' hready hstaging _ =>
      exact ⟨o'.mem.inner, entries', rfl, hready, hstaging.trans h.staging⟩

/-- **A command keeps a directory exact.** -/
theorem Calm.step (hx : Json.ReadsBack x.parseJson) (h : Calm x site inner entries) (command : Command ω) :
    ∃ inner' entries', Calm x (Site.step x site command []) inner' entries' := by
  cases command with
  | call call now => exact h.call hx call now
  | reopen database => exact ⟨_, _, calm_reopen hx h.holds h.staging database⟩

/-- A history on storage that works. -/
def calmHistory (commands : List (Command ω)) : History ω := commands.map fun c => (c, [])

theorem run_calmHistory_cons (site : Site ω) (command : Command ω) (commands : List (Command ω)) :
    Site.run x site (calmHistory (command :: commands))
      = Site.run x (Site.step x site command []) (calmHistory commands) :=
  rfl

/-- **Histories on storage that works keep a directory exact.** -/
theorem Calm.run (hx : Json.ReadsBack x.parseJson) (h : Calm x site inner entries)
    (commands : List (Command ω)) :
    ∃ inner' entries', Calm x (Site.run x site (calmHistory commands)) inner' entries' := by
  induction commands generalizing site inner entries with
  | nil => exact ⟨inner, entries, h⟩
  | cons command commands ih =>
    obtain ⟨inner', entries', hnext⟩ := h.step hx command
    exact ih hnext

/-- **The metadata of the open store describe the directory**, and it can be opened again. -/
structure Described (x : Crates) (site : Site ω) (inner : Inner) (entries : Entries) : Prop where
  stored : contentOf x site.db = some (inner.metadata, fun key => entries[key]?)
  identities : inner.metadata.identities.toNat = entries.size
  capacity : inner.metadata.identities.toNat ≤ maxIdentities
  live : inner.metadata.live.toNat = liveCount entries
  floor : ∀ (key : EndpointKey) (entry : Entry) (lease : Lease),
    entries[key]? = some (.active entry lease) → lease.acceptedWall ≤ inner.metadata.wallFloor
  rows : ∃ table, site.db.open.records = some table ∧ ∀ key : EndpointKey,
    table[key]?.mapM (fun value => Records.decode x value key) = .ok entries[key]?
  anchor : site.file.content = some (encodeAnchor x inner.metadata)
  reopens : ∀ database, ∃ inner',
    (Site.step x site (.reopen database) []).inst = some inner' ∧
      inner'.metadata = inner.metadata ∧ inner'.failed = false ∧
      contentOf x (Site.step x site (.reopen database) []).db = contentOf x site.db

theorem Calm.described (hx : Json.ReadsBack x.parseJson) (h : Calm x site inner entries) :
    Described x site inner entries where
  stored := found_of_holds h.holds
  identities := h.ready.balanced.identities
  capacity := h.ready.balanced.identities ▸ h.ready.balanced.capacity
  live := h.ready.balanced.live
  floor key entry lease hkey := h.ready.balanced.floor key _ hkey
  rows := by
    refine ⟨encodeEntries entries, ?_, h.ready.balanced.decode_row⟩
    rw [show site.db = dbOf inner.metadata entries from h.ready.db]
    rfl
  anchor := h.ready.content
  reopens database := by
    have hopened := calm_reopen hx h.holds h.staging database
    refine ⟨_, hopened.inst, rfl, rfl, ?_⟩
    exact (found_of_holds hopened.holds).trans (found_of_holds h.holds).symm

end Site

/-- **The metadata are exact and every directory reopens.** A store is opened on a new directory;
then come calls, and stores opened again, in any order, on storage that works. -/
theorem fileStore_described {ω : Type} {x : Crates} (hx : Json.ReadsBack x.parseJson) (env : ω)
    (database : Id16) (commands : List (Command ω)) :
    ∃ inner entries, (Site.run x (Site.fresh env) (Site.calmHistory (.reopen database :: commands))).inst
        = some inner ∧
      Site.Described x (Site.run x (Site.fresh env) (Site.calmHistory (.reopen database :: commands)))
        inner entries := by
  have hfresh := Site.calm_reopen hx (Site.inv_fresh env).holds rfl database
  obtain ⟨inner, entries, hcalm⟩ := hfresh.run hx commands
  rw [Site.run_calmHistory_cons]
  exact ⟨inner, entries, hcalm.inst, hcalm.described hx⟩

/-- A record is stored, the store opened again, and the record collected after its end. -/
def putAndCollect : List (Command Unit) :=
  [.reopen (repeated 16 0), callAt (.put (signedRecord 1 900) .admitAll) 1000, .reopen (repeated 16 0),
    callAt .collect 1200]

theorem fileStore_described_putAndCollect :
    (Site.events namingCrates (Site.fresh ()) (Site.calmHistory putAndCollect)).map Event.outcome =
        [.ok .done, .ok (.collected 1)] ∧
      ∃ inner entries, (Site.run namingCrates (Site.fresh ()) (Site.calmHistory putAndCollect)).inst = some inner ∧
        Site.Described namingCrates (Site.run namingCrates (Site.fresh ()) (Site.calmHistory putAndCollect))
          inner entries :=
  ⟨by decide +kernel, fileStore_described Json.readsBack_parse () _ putAndCollect.tail⟩

end Rds.Discovery
