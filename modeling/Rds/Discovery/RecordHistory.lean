import Rds.Discovery.AntiReplay
import Rds.Discovery.RecordOpen
import Rds.Framework.JsonParse

/-!
# Histories of the store on disk

A directory over its whole life: stores are opened on it, called, and stopped, and storage may
fail at any step. `Site.step` is one command with the faults that strike it, `Site.run` a history.

The invariant `Site.Inv` says what the directory holds and that an open store agrees with it
unless it has failed. Each command keeps it, and what the directory holds after the command is what
it held before or what the command commits (`Site.step_content`). So a store that is opened on
storage that works finds exactly that (`Site.reopen`).
-/

namespace Rds.Discovery

open Framework FileStore

/-! ### The model -/

/-- A directory, the store that is open on it, if one is, and the state of its caller. -/
structure Site (ω : Type) where
  file : AtomicFile
  db : DbFile
  inst : Option Inner
  env : ω

/-- What happens to a directory: a call to the open store, or a store is opened, after the process
that had the last one open has ended. -/
inductive Command (ω : Type) where
  | call (call : Call ω) (now : ClockRead)
  | reopen (database : Id16)

namespace Site

variable {ω : Type} {x : Crates}

/-- A new directory. -/
def fresh (env : ω) : Site ω := ⟨.fresh, .absent, none, env⟩

/-- The open store and its directory, before a command. -/
def device (site : Site ω) (inner : Inner) (faults : List Device.Fault) :
    Device (FileHost ω) :=
  ⟨⟨site.file, site.db, inner, site.env⟩, faults⟩

/-- The directory alone, before a store is opened. -/
def directory (site : Site ω) (faults : List Device.Fault) : Device (Owner DbFile Unit) :=
  ⟨⟨site.file, site.db, ()⟩, faults⟩

/-- The site after a call; a process that was stopped has no store open. -/
def afterCall (r : Outcome DiscoveryError Reply × Device (FileHost ω)) : Site ω where
  file := r.2.state.file
  db := r.2.state.db
  inst :=
    match r.1 with
    | .stopped => none
    | _ => some r.2.state.mem.inner
  env := r.2.state.mem.env

/-- The site after an open. -/
def afterOpen (env : ω) (r : Outcome DiscoveryError Inner × Device (Owner DbFile Unit)) :
    Site ω where
  file := r.2.state.file
  db := r.2.state.db
  inst :=
    match r.1 with
    | .ok inner => some inner
    | _ => none
  env := env

/-- One command, with the faults that strike it. Nothing answers a call while no store is open. -/
def step (x : Crates) (site : Site ω) (command : Command ω) (faults : List Device.Fault) :
    Site ω :=
  match command with
  | .reopen database =>
    afterOpen site.env (FileStore.openStore x database (site.directory faults))
  | .call call now =>
    match site.inst with
    | none => site
    | some inner => afterCall (call.run (FileStore.ops x) x now (site.device inner faults))

/-- A history: commands and their faults. -/
abbrev History (ω : Type) := List (Command ω × List Device.Fault)

/-- A history, from a site on. -/
def run (x : Crates) (site : Site ω) (history : History ω) : Site ω :=
  history.foldl (fun s c => step x s c.1 c.2) site

/-! ### The invariant -/

/-- **What a directory holds**, and that the open store agrees with it. -/
structure Inv (x : Crates) (site : Site ω) (content : Option (Metadata × Entries)) : Prop where
  holds : Holds x site.file site.db content
  live : ∀ inner, site.inst = some inner → ∃ c, content = some c ∧
    FileStore.Live x (site.device inner []).state c

theorem inv_fresh (env : ω) : Inv x (fresh env) none where
  holds := .blank _ rfl rfl rfl
  live _ h := absurd h (by simp [fresh])

variable {site : Site ω} {content : Option (Metadata × Entries)}

/-- **An open keeps the invariant**, on any storage. It leaves the content it found, or
initialises a blank directory. -/
theorem Inv.reopen (hx : Json.ReadsBack x.parseJson) (h : Inv x site content) (database : Id16)
    (faults : List Device.Fault) :
    ∃ content', Inv x (step x site (.reopen database) faults) content' ∧
      (content' = content ∨ content' = some (FileStore.firstContent database content)) := by
  have hends := openStore_ends (o := (site.directory faults).state) hx h.holds database
    (site.directory faults) rfl
  show ∃ content', Inv x (afterOpen site.env
    (openStore x database (site.directory faults))) content' ∧ _
  rcases hr : openStore x database (site.directory faults) with ⟨out, d⟩
  rw [hr] at hends
  -- an open that did not return leaves no store
  have hbroken : FileStore.Interrupted x (site.directory faults).state content database d.state →
      (∀ inner, out ≠ .ok inner) → ∃ content', Inv x (afterOpen site.env (out, d)) content' ∧
        (content' = content ∨ content' = some (firstContent database content)) := by
    rintro ⟨-, hholds⟩ hout
    have hnone : ∀ inner, (afterOpen site.env (out, d)).inst ≠ some inner := by
      intro inner hinst
      cases out with
      | ok inner => exact hout inner rfl
      | err e | stopped => exact absurd hinst (by simp [afterOpen])
    rcases hholds with hh | hh
    · exact ⟨content, ⟨hh, fun inner hi => absurd hi (hnone inner)⟩, .inl rfl⟩
    · exact ⟨_, ⟨hh, fun inner hi => absurd hi (hnone inner)⟩, .inr rfl⟩
  cases out with
  | err e | stopped => exact hbroken hends (by simp)
  | ok inner =>
    have hopened : FileStore.Opened x (site.directory faults).state
      (firstContent database content) inner d.state := hends
    have hready : FileStore.Ready x (Site.device (afterOpen site.env (.ok inner, d)) inner []).state
        (firstContent database content).2 := by
      refine ⟨?_, ?_, ?_⟩
      · show d.state.db = dbOf inner.metadata _
        rw [hopened.inner, hopened.db]
      · show d.state.file.content = some (encodeAnchor x inner.metadata)
        rw [hopened.inner, hopened.content]
      · rw [hopened.inner]
        exact hopened.balanced
    have hlive := hready.live
    have hmd : (Site.device (afterOpen site.env (.ok inner, d)) inner []).state.mem.inner.metadata
        = (firstContent database content).1 := by
      show inner.metadata = _
      rw [hopened.inner]
    rw [hmd] at hlive
    refine ⟨some (firstContent database content), ⟨hlive.holds, ?_⟩, .inr rfl⟩
    intro inner' hinst
    cases hinst
    exact ⟨_, rfl, hlive⟩

/-- **A call keeps the invariant**, on any storage. -/
theorem Inv.call (hx : Json.ReadsBack x.parseJson) {c : Metadata × Entries}
    {inner : Inner} (hlive : FileStore.Live x (site.device inner []).state c) (call : Call ω)
    (now : ClockRead) (faults : List Device.Fault) :
    ∃ c', Inv x (afterCall (call.run (FileStore.ops x) x now (site.device inner faults))) (some c') := by
  have hrun : ∀ c', FileStore.Live x
      (call.run (ops x) x now (site.device inner faults)).2.state c' →
      Inv x (afterCall (call.run (ops x) x now (site.device inner faults)))
        (some c') := by
    intro c' h
    refine ⟨h.holds, fun inner' hinst => ⟨c', rfl, ?_⟩⟩
    rcases hr : call.run (ops x) x now (site.device inner faults) with ⟨out, d⟩
    rw [hr] at h hinst
    cases out with
    | stopped => exact absurd hinst (by simp [afterCall])
    | ok _ | err _ => cases hinst; exact h
  rcases run_content (d := site.device inner faults) hx now hlive call with
    ⟨h, -⟩ | ⟨changes, reading, d₁, -, -, hsettled⟩
  · exact ⟨c, hrun c h⟩
  · cases hsettled with
    | committed _ h => exact ⟨_, hrun _ h⟩
    | interrupted _ _ _ h => exact h.elim (fun h => ⟨_, hrun _ h⟩) fun h => ⟨_, hrun _ h⟩

/-- **Every command keeps the invariant.** -/
theorem Inv.step (hx : Json.ReadsBack x.parseJson) (h : Inv x site content) (command : Command ω)
    (faults : List Device.Fault) : ∃ content', Inv x (step x site command faults) content' := by
  cases command with
  | reopen database =>
    obtain ⟨content', h', -⟩ := h.reopen hx database faults
    exact ⟨content', h'⟩
  | call call now =>
    cases hinst : site.inst with
    | none =>
      refine ⟨content, ?_⟩
      unfold Site.step
      rw [hinst]
      exact h
    | some inner =>
      obtain ⟨c, -, hlive⟩ := h.live inner hinst
      obtain ⟨c', h'⟩ := Inv.call hx hlive call now faults
      refine ⟨some c', ?_⟩
      unfold Site.step
      rw [hinst]
      exact h'

/-- **The invariant holds along every history.** -/
theorem Inv.run (hx : Json.ReadsBack x.parseJson) (h : Inv x site content) (history : History ω) :
    ∃ content', Inv x (run x site history) content' := by
  induction history generalizing site content with
  | nil => exact ⟨content, h⟩
  | cons c history ih =>
    obtain ⟨content', h'⟩ := h.step hx c.1 c.2
    exact ih h'

/-! ### Catalogues along a history -/

/-- The catalogue of a content. -/
def catalogIn (content : Option (Metadata × Entries)) : Catalog :=
  fun key => content.bind fun c => c.2[key]?

theorem catalogOf_of_holds {file : AtomicFile} {db : DbFile} (h : Holds x file db content) :
    catalogOf x db = catalogIn content := by
  cases h with
  | blank _ hdb _ _ =>
    unfold catalogOf
    rw [hdb]
    rfl
  | filled md entries hbal _ => exact catalogOf_dbOf hbal md

theorem catalogIn_firstContent (database : Id16) (content : Option (Metadata × Entries)) :
    catalogIn (some (FileStore.firstContent database content)) = catalogIn content := by
  cases content with
  | none =>
    funext key
    exact Std.ExtTreeMap.getElem?_empty
  | some c => rfl

/-- The calls of a history and what they did. -/
def events (x : Crates) : Site ω → History ω → List (Event ω)
  | _, [] => []
  | site, (.reopen database, faults) :: history =>
    events x (step x site (.reopen database) faults) history
  | site, (.call call now, faults) :: history =>
    match site.inst with
    | none => events x site history
    | some inner =>
      let r := call.run (FileStore.ops x) x now (site.device inner faults)
      { before := catalogOf x site.db, call, now, outcome := r.1,
        after := catalogOf x r.2.state.db } :: events x (afterCall r) history

/-- **The calls of a history are a run of the store.** -/
theorem chained_events (hx : Json.ReadsBack x.parseJson) (h : Inv x site content) (history : History ω) :
    Chained x (catalogOf x site.db) (events x site history) := by
  induction history generalizing site content with
  | nil => exact .nil _
  | cons c history ih =>
    obtain ⟨command, faults⟩ := c
    cases command with
    | reopen database =>
      obtain ⟨content', h', hcontent⟩ := h.reopen hx database faults
      -- the catalogue is the one before the open
      have hcat : catalogOf x (step x site (.reopen database) faults).db = catalogOf x site.db := by
        rw [catalogOf_of_holds h'.holds, catalogOf_of_holds h.holds]
        rcases hcontent with rfl | rfl
        · rfl
        · exact catalogIn_firstContent database content
      rw [← hcat]
      exact ih h'
    | call call now =>
      unfold events
      cases hinst : site.inst with
      | none => exact ih h
      | some inner =>
        obtain ⟨c, -, hlive⟩ := h.live inner hinst
        obtain ⟨c', h'⟩ := Inv.call hx hlive call now faults
        refine Chained.cons { before := catalogOf x site.db, .. } _ ?_ ?_
        · exact called (d := site.device inner faults) hx hlive call
        · exact ih h'

end Site

/-- The calls of a run of the store in memory and what they did. -/
def MemoryStore.events {ω : Type} (x : Crates) (capacity : ℕ) :
    MemoryHost ω → List (Call ω × ClockRead) → List (Event ω)
  | _, [] => []
  | h, (call, now) :: calls =>
    let r := call.run (MemoryStore.ops x capacity) x now h
    { before := catalog h, call, now, outcome := r.1, after := catalog r.2 } ::
      events x capacity r.2 calls

theorem MemoryStore.chained_events {ω : Type} (x : Crates) (capacity : ℕ) (h : MemoryHost ω)
    (calls : List (Call ω × ClockRead)) :
    Chained x (catalog h) (events x capacity h calls) := by
  induction calls generalizing h with
  | nil => exact .nil _
  | cons c calls ih =>
    refine Chained.cons { before := catalog h, .. } _ ?_ ?_
    · exact MemoryStore.called c.1 h
    · exact ih _

/-- **Anti-replay of the record stores.** Over every history of a directory, with stores opened and
stopped on it and storage failing anywhere, and over every run of a store in memory. -/
theorem recordStores_antiReplay {ω : Type} {x : Crates} (hx : Json.ReadsBack x.parseJson) :
    (∀ (env : ω) (history : Site.History ω), AntiReplay x (Site.events x (Site.fresh env) history)) ∧
      ∀ (capacity : ℕ) (env : ω) (calls : List (Call ω × ClockRead)),
        AntiReplay x (MemoryStore.events x capacity ⟨.fresh, env⟩ calls) := by
  refine ⟨fun env history => antiReplay_of_chained ?_, fun capacity env calls =>
    antiReplay_of_chained ?_⟩
  · exact Site.chained_events hx (Site.inv_fresh env) history
  have hrun := MemoryStore.chained_events x capacity ⟨.fresh, env⟩ calls
  exact hrun

/-- Crates with a signature that only names its key, and a digest that keeps the end of what it digests. -/
def namingCrates : Crates where
  validKey _ := true
  verifyStrict key _ signature := signature.val = key.val ++ key.val
  verifyingKey key := ⟨key.val, key.property⟩
  sign key _ := ⟨key.val ++ key.val, by rw [List.length_append, key.property]⟩
  blake3 b := ⟨(b.reverse ++ List.replicate 32 0).take 32, by simp⟩
  parseUrl _ := none
  parseIp _ := none
  parseJson := Json.parse

/-- A record that its endpoint signed, for two hundred seconds. -/
def signedRecord (revision issuedAt : UInt64) : EndpointRecord where
  key := repeated 32 1
  payload := payloadCodec.encode
    ⟨recordVersion, repeated 32 1, revision, [], [], [], issuedAt, issuedAt + 200⟩
  signature := List.replicate 64 1

/-- A call at a second of the wall clock. -/
def callAt (call : Call Unit) (secs : UInt64) : Command Unit :=
  .call call (.ok ⟨repeated 16 2, .fromSecs secs, .fromSecs secs⟩)

/-- A record is stored; its successor is stopped before the database is committed. After the next open the
first one is found; its successor is stored, the first one offered again, and the key looked up. -/
def interruptedPut : Site.History Unit :=
  [(.reopen (repeated 16 0), []), (callAt (.put (signedRecord 1 900) .admitAll) 1000, []),
    (callAt (.put (signedRecord 2 950) .admitAll) 1000, [.go, .stop false none]),
    (.reopen (repeated 16 0), []), (callAt (.get (repeated 32 1)) 1000, []),
    (callAt (.put (signedRecord 2 950) .admitAll) 1001, []),
    (callAt (.put (signedRecord 1 900) .admitAll) 1002, []), (callAt (.get (repeated 32 1)) 1003, [])]

theorem outcome_interruptedPut :
    (Site.events namingCrates (Site.fresh ()) interruptedPut).map Event.outcome =
      [.ok .done, .stopped, .ok (.record (signedRecord 1 900)), .ok .done, .err .stale,
        .ok (.record (signedRecord 2 950))] := by
  decide +kernel

theorem recordStores_antiReplay_interruptedPut :
    (Site.events namingCrates (Site.fresh ()) interruptedPut).map Event.outcome =
        [.ok .done, .stopped, .ok (.record (signedRecord 1 900)), .ok .done, .err .stale,
          .ok (.record (signedRecord 2 950))] ∧
      AntiReplay namingCrates (Site.events namingCrates (Site.fresh ()) interruptedPut) :=
  ⟨outcome_interruptedPut, (recordStores_antiReplay Json.readsBack_parse).1 () interruptedPut⟩

/-! ### Records stay readable -/

section Readable

variable {ω : Type} {x : Crates} {key : EndpointKey} {record : EndpointRecord} {lease : Lease} {r : UInt64}

namespace Event

/-- No reading finds the lease lapsed, and no mutation of the key is above the revision. -/
def Spares (x : Crates) (key : EndpointKey) (lease : Lease) (r : UInt64) (ev : Event ω) : Prop :=
  (∀ reading, ev.now = .ok reading → lease.validAt reading = true) ∧
    ∀ e d, ev.call.target x = some (.ok (key, some e)) → e.details x key = .ok d → d.revision ≤ r

/-- The record stays, and a `get` of its key returns it unless the clock or the store fails. -/
def Reads (key : EndpointKey) (record : EndpointRecord) (lease : Lease) (ev : Event ω) : Prop :=
  ev.after key = some (.active (.record record) lease) ∧
    (ev.call = .get key → ev.outcome = .ok (.record record) ∨ Failed ev.outcome ∨ ∃ e, ev.now = .error e)

end Event

theorem decide_get {reading : Reading} (hvalid : lease.validAt reading = true) :
    Records.decide x (some (.active (.record record) lease)) none key reading = .ok ⟨none, .ok (some record)⟩ := by
  have hretire : (Stored.active (.record record) lease).retire x key reading = .ok none :=
    if_neg (not_not.mpr hvalid)
  show (Option.mapM (Stored.retire x key reading) (some _) >>= _) = _
  rw [Option.mapM_some, hretire]
  rfl

/-- **A live record is read.** -/
theorem Called.get_of_live {call : Call ω} {now : ClockRead} {old new : Catalog}
    {o : Outcome DiscoveryError Reply} (h : Called x now old call o new) (hcall : call = .get key)
    (hold : old key = some (.active (.record record) lease))
    (hlive : ∀ reading, now = .ok reading → lease.validAt reading = true) :
    o = .ok (.record record) ∨ Failed o ∨ ∃ e, now = .error e := by
  subst hcall
  cases h with
  | failed _ _ ho => exact .inr (.inl ho)
  | unverified _ e htarget => cases htarget
  | unread _ e hnow => exact .inr (.inr ⟨e, hnow⟩)
  | accessed _ _ _ reading out _ htarget hnow haccess =>
    cases htarget
    have hdecide : Records.decide x (old key) none key reading = .ok ⟨none, .ok (some record)⟩ :=
      hold ▸ decide_get (hlive reading hnow)
    cases haccess with
    | failed _ ho => exact .inr (.inl (ho.andThen _))
    | undecided e he => cases hdecide.symm.trans he
    | kept d hd =>
      cases hdecide.symm.trans hd
      exact .inl rfl
    -- there is nothing to replace
    | refused d s _ hd hs | replaced d s hd hs | torn d s _ hd hs =>
      cases hdecide.symm.trans hd
      cases hs

/-- **One event.** -/
theorem Event.reads {ev : Event ω} (hcalled : Called x ev.now ev.before ev.call ev.outcome ev.after)
    (hsound : ev.before.Sound x) (hstored : ev.before key = some (.active (.record record) lease))
    (hr : (Stored.active (.record record) lease).verify x key = .ok r) (h : ev.Spares x key lease r) :
    ev.Reads key record lease := by
  refine ⟨?_, fun hcall => hcalled.get_of_live hcall hstored h.1⟩
  have hstep := hcalled.keyStep hsound key
  generalize ev.after key = after at hstep
  cases hstep with
  | keep => exact hstored
  | retire reading e l r' hnow hold _ hlapsed =>
    cases hstored.symm.trans hold
    cases (h.1 reading hnow).symm.trans hlapsed
  | accept reading e l d _ htarget hd _ hfloor =>
    exact absurd (hfloor _ _ hstored hr) (UInt64.not_lt.mpr (h.2 e d htarget hd))

theorem Chained.reads {start : Catalog} {events : List (Event ω)} (h : Chained x start events)
    (hstart : start.Sound x) (hstored : start key = some (.active (.record record) lease))
    (hr : (Stored.active (.record record) lease).verify x key = .ok r)
    (hspares : ∀ ev ∈ events, ev.Spares x key lease r) : ∀ ev ∈ events, ev.Reads key record lease := by
  induction h with
  | nil => simp
  | cons ev events hcalled _ ih =>
    obtain ⟨hev, hspares⟩ := List.forall_mem_cons.mp hspares
    have hreads := Event.reads hcalled hstart hstored hr hev
    exact List.forall_mem_cons.mpr ⟨hreads, ih (hcalled.sound hstart) hreads.1 hspares⟩

/-- Whatever event a record is stored after, it is read as long as it is spared. -/
def Readable (x : Crates) (events : List (Event ω)) : Prop :=
  ∀ l₁ ev l₂, events = l₁ ++ ev :: l₂ → ∀ key record lease r, ev.after key = some (.active (.record record) lease) →
    (Stored.active (.record record) lease).verify x key = .ok r →
    (∀ later ∈ l₂, later.Spares x key lease r) → ∀ later ∈ l₂, later.Reads key record lease

theorem readable_of_chained {events : List (Event ω)} (h : Chained x (fun _ => none) events) : Readable x events := by
  rintro l₁ ev l₂ rfl key record lease r hstored hr hspares
  obtain ⟨hsound, hcalled⟩ := h.called nofun ev (List.mem_append_right _ List.mem_cons_self)
  exact h.drop.2.reads (hcalled.sound hsound) hstored hr hspares

/-- **Records stay readable** in both stores, on disk across failures, stops and opens. -/
theorem recordStores_readable {ω : Type} {x : Crates} (hx : Json.ReadsBack x.parseJson) :
    (∀ (env : ω) (history : Site.History ω), Readable x (Site.events x (Site.fresh env) history)) ∧
      ∀ (capacity : ℕ) (env : ω) (calls : List (Call ω × ClockRead)),
        Readable x (MemoryStore.events x capacity ⟨.fresh, env⟩ calls) := by
  refine ⟨fun env history => readable_of_chained ?_, fun capacity env calls => readable_of_chained ?_⟩
  · exact Site.chained_events hx (Site.inv_fresh env) history
  have hrun := MemoryStore.chained_events x capacity ⟨.fresh, env⟩ calls
  exact hrun

theorem recordStores_readable_interruptedPut :
    (Site.events namingCrates (Site.fresh ()) interruptedPut).map Event.outcome =
        [.ok .done, .stopped, .ok (.record (signedRecord 1 900)), .ok .done, .err .stale,
          .ok (.record (signedRecord 2 950))] ∧
      Readable namingCrates (Site.events namingCrates (Site.fresh ()) interruptedPut) :=
  ⟨outcome_interruptedPut, (recordStores_readable Json.readsBack_parse).1 () interruptedPut⟩

end Readable

/-! ### Crash consistency -/

/-- What a database holds: its metadata and its catalogue. -/
def contentOf (x : Crates) (db : DbFile) : Option (Metadata × Catalog) :=
  match db.open.metadata with
  | some (some row) => (Records.exact metadataCodec row).toOption.map fun md => (md, catalogOf x db)
  | _ => none

/-- The database holds this content. -/
def Found (x : Crates) (db : DbFile) (content : Option (Metadata × Entries)) : Prop :=
  contentOf x db = content.map fun c => (c.1, fun key => c.2[key]?)

theorem found_dbOf {x : Crates} {md : Metadata} {entries : Entries} (h : Balanced x md entries) :
    Found x (dbOf md entries) (some (md, entries)) := by
  show ((Records.exact metadataCodec (metadataCodec.encode md)).toOption.map fun md' =>
    (md', catalogOf x (dbOf md entries))) = _
  rw [exact_metadata, catalogOf_dbOf h]
  rfl

theorem found_of_holds {x : Crates} {file : AtomicFile} {db : DbFile}
    {content : Option (Metadata × Entries)} (h : Holds x file db content) : Found x db content := by
  cases h with
  | blank _ hdb _ _ =>
    unfold Found contentOf
    rw [hdb]
    rfl
  | filled md entries hbal _ => exact found_dbOf hbal

namespace Site

variable {ω : Type} {x : Crates}

/-- How the open store answers a call; nothing answers while none is open. -/
def answer (x : Crates) (site : Site ω) (call : Call ω) (now : ClockRead)
    (faults : List Device.Fault) : Outcome DiscoveryError Reply :=
  match site.inst with
  | none => .stopped
  | some inner => (call.run (FileStore.ops x) x now (site.device inner faults)).1

/-- How the open store answers calls, one after the other. -/
def answers (x : Crates) : Site ω →
    List (Call ω × ClockRead × List Device.Fault) →
    List (Outcome DiscoveryError Reply)
  | _, [] => []
  | site, (call, now, faults) :: calls =>
    answer x site call now faults :: answers x (step x site (.call call now) faults) calls

/-- No store is open, or it has failed. -/
def Down (site : Site ω) : Prop := ∀ inner, site.inst = some inner → inner.failed = true

variable {site : Site ω}

theorem Down.call (h : Down site) (call : Call ω)
    (now : ClockRead) (faults : List Device.Fault) :
    (∀ reply, answer x site call now faults ≠ .ok reply) ∧ Down (step x site (.call call now) faults) := by
  unfold answer step
  cases hinst : site.inst with
  | none => exact ⟨by simp, h⟩
  | some inner =>
    obtain ⟨e, hrun⟩ := run_failed x now
      (d := site.device inner faults) (h inner hinst) call
    dsimp only
    rw [hrun]
    refine ⟨by simp, fun inner' hinner' => ?_⟩
    cases hinner'
    exact h inner hinst

/-- **A store that has failed answers nothing**, until another one is opened. -/
theorem Down.answers (h : Down site)
    (calls : List (Call ω × ClockRead × List Device.Fault)) :
    ∀ out ∈ answers x site calls, ∀ reply, out ≠ .ok reply := by
  induction calls generalizing site with
  | nil => simp [Site.answers]
  | cons c calls ih =>
    obtain ⟨hanswer, hdown⟩ := h.call (x := x) c.1 c.2.1 c.2.2
    intro out hout
    rcases List.mem_cons.mp hout with rfl | hmem
    · exact hanswer
    · exact ih hdown out hmem

/-- **Crash consistency** of a site whose directory holds this content. -/
structure Consistent (x : Crates) (site : Site ω) (content : Option (Metadata × Entries)) :
    Prop where
  found : Found x site.db content
  /-- An open that finds no more names than its limit succeeds and yields the content. -/
  opens : ∀ database, (FileStore.directoryNames (site.directory []).state).length ≤ 129 →
    ∃ d, FileStore.openStore x database (site.directory []) =
        (.ok (FileStore.openedInner (FileStore.firstContent database content).1), d) ∧
      Found x d.state.db (some (FileStore.firstContent database content))
  /-- An open on failing storage leaves the content, or initialises a blank directory. -/
  reopen : ∀ database faults, Found x (step x site (.reopen database) faults).db content ∨
    Found x (step x site (.reopen database) faults).db
      (some (FileStore.firstContent database content))
  /-- A call comes to no commit and leaves the content; or to one that succeeds and leaves the
  content after it; or to one that fails, leaves the content before or after it, and leaves no store
  that answers. -/
  call : ∀ inner call now faults, site.inst = some inner →
    (Found x (step x site (.call call now) faults).db content ∧
        ∀ changes reading d₁,
          ¬ FileStore.Reaches x now call (site.device inner faults) changes reading d₁) ∨
      ∃ c changes reading d₁, content = some c ∧
        FileStore.Reaches x now call (site.device inner faults) changes reading d₁ ∧
        ((FileStore.commit x changes reading d₁).1 = .ok () ∧
            Found x (step x site (.call call now) faults).db
              (some (FileStore.afterCommit c changes reading)) ∨
          (FileStore.commit x changes reading d₁).1 ≠ .ok () ∧
            (Found x (step x site (.call call now) faults).db content ∨
              Found x (step x site (.call call now) faults).db
                (some (FileStore.afterCommit c changes reading))) ∧
            (∀ reply, answer x site call now faults ≠ .ok reply) ∧
            ∀ calls, ∀ out ∈ answers x (step x site (.call call now) faults) calls,
              ∀ reply, out ≠ .ok reply)

/-- The invariant gives each part of crash consistency. -/
theorem Inv.consistent (hx : Json.ReadsBack x.parseJson)
    {content : Option (Metadata × Entries)} (h : Inv x site content) :
    Consistent x site content where
  found := found_of_holds h.holds
  opens database hnames := by
    refine ⟨_, openStore_calm (o := (site.directory []).state) hx h.holds hnames database, found_dbOf ?_⟩
    cases content with
    | none => exact balanced_initial x database
    | some c => exact h.holds.balanced
  reopen database faults := by
    obtain ⟨content', h', rfl | rfl⟩ := h.reopen hx database faults
    · exact .inl (found_of_holds h'.holds)
    · exact .inr (found_of_holds h'.holds)
  call inner call now faults hinst := by
    obtain ⟨c, rfl, hlive⟩ := h.live inner hinst
    have hstep : Site.step x site (.call call now) faults
        = afterCall (call.run (ops x) x now (site.device inner faults)) := by
      unfold Site.step
      rw [hinst]
    have hanswer : answer x site call now faults
        = (call.run (ops x) x now (site.device inner faults)).1 := by
      unfold answer
      rw [hinst]
    rw [hstep, hanswer]
    have hfound : ∀ c', FileStore.Live x
        (call.run (ops x) x now (site.device inner faults)).2.state c' →
        Found x (afterCall (call.run (ops x) x now (site.device inner faults))).db
          (some c') := fun c' h' => found_of_holds h'.holds
    rcases run_content (d := site.device inner faults) hx now hlive call with
      ⟨h', hnone⟩ | ⟨changes, reading, d₁, hreach, -, hsettled⟩
    · exact .inl ⟨hfound c h', hnone⟩
    refine .inr ⟨c, changes, reading, d₁, rfl, hreach, ?_⟩
    cases hsettled with
    | committed hok h' => exact .inl ⟨hok, hfound _ h'⟩
    | interrupted hfail hfailed hout h' =>
      refine .inr ⟨hfail, h'.imp (hfound _) (hfound _), fun reply hreply => (hreply ▸ hout : Failed (.ok reply)),
        Down.answers fun inner' hinner' => ?_⟩
      -- the store that is left, if the process goes on, has failed
      rcases hr : call.run (ops x) x now (site.device inner faults) with ⟨out, d⟩
      rw [hr] at hfailed hinner'
      cases out with
      | stopped => exact absurd hinner' (by simp [afterCall])
      | ok _ | err _ => cases hinner'; exact hfailed

end Site

/-- **Crash consistency of the store on disk.** After every history, whatever storage did in it, the
directory is consistent; and no open accepts a database that disagrees with its anchor. -/
theorem fileStore_crashConsistent {ω : Type} {x : Crates} (hx : Json.ReadsBack x.parseJson) :
    (∀ (env : ω) (history : Site.History ω),
        ∃ content, Site.Consistent x (Site.run x (Site.fresh env) history) content) ∧
      ∀ (d : Device (Owner DbFile Unit)) (bytes row : Bytes) (db : Database) (anchor md : Metadata),
        d.state.file.content = some bytes → decodeAnchor x bytes = .ok anchor →
        d.state.db = .database db → db.metadata = some (some row) →
        Records.exact metadataCodec row = .ok md → FileStore.Disagrees anchor md →
        ∀ database inner, (FileStore.openStore x database d).1 ≠ .ok inner := by
  refine ⟨fun env history => ?_, ?_⟩
  · obtain ⟨content, h⟩ := (Site.inv_fresh (x := x) env).run hx history
    exact ⟨content, h.consistent hx⟩
  · intro d bytes row db anchor md hcontent hanchor hdb hrow hmd hdis database inner
    exact openStore_refuses hcontent hanchor hdb hrow hmd hdis database inner

/-- After the second put was stopped there is no store, and the directory has the first record. -/
theorem fileStore_crashConsistent_interruptedPut :
    (Site.run namingCrates (Site.fresh ()) (interruptedPut.take 3)).inst = none ∧
      catalogOf namingCrates (Site.run namingCrates (Site.fresh ()) (interruptedPut.take 3)).db (repeated 32 1) =
        some (.active (.record (signedRecord 1 900))
          ⟨repeated 16 2, 900, 1100, .fromSecs 1000, .fromSecs 1000, .fromSecs 1100⟩) ∧
      ∃ content, Site.Consistent namingCrates
        (Site.run namingCrates (Site.fresh ()) (interruptedPut.take 3)) content :=
  ⟨by decide +kernel, by decide +kernel, (fileStore_crashConsistent Json.readsBack_parse).1 () _⟩

end Rds.Discovery
