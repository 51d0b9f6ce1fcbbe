import Rds.Discovery.RecordStore

/-!
# The store in memory

`MemoryStore` (`rds-discovery/src/records/memory.rs`): a map from keys to stored entries, the latest
wall clock it has seen, the number of live records and the position of the next collection. It
remembers at most `capacity` identities and never forgets one.
-/

namespace Rds.Discovery

open Framework

/-- `Memory`. -/
structure Memory where
  entries : Std.ExtTreeMap EndpointKey Stored compare
  observedWall : Duration
  live : UInt64
  cursor : Option EndpointKey

/-- `Memory::default`. -/
def Memory.fresh : Memory := ⟨∅, .zero, 0, none⟩

/-- A store and its caller. -/
structure MemoryHost (ω : Type) where
  memory : Memory
  env : ω

/-- `u64::from` of a truth value. -/
def countOf (b : Bool) : UInt64 := if b then 1 else 0

/-- The entries a collection looks at: those behind the cursor, at most a batch of them. -/
def collectBatch {V : Type} (entries : Std.ExtTreeMap EndpointKey V compare)
    (cursor : Option EndpointKey) : List (EndpointKey × V) :=
  (entries.toList.filter fun e => cursor.all fun c => compare c e.1 == .lt).take gcBatch

/-- Where the next collection starts. -/
def nextCursor {V : Type} (batch : List (EndpointKey × V)) : Option EndpointKey :=
  if batch.length = gcBatch then batch.getLast?.map Prod.fst else none

namespace MemoryStore

variable {ω : Type}

/-- A program of the store. -/
abbrev Run (ω α : Type) : Type := Prog (MemoryHost ω) DiscoveryError α

/-- Change the store. -/
def update (f : Memory → Memory) : Run ω Unit :=
  Prog.modify fun h => { h with memory := f h.memory }

/-- Ask the callback. -/
def ask (admission : Callback ω) (known : Bool) : Run ω Unit := fun h =>
  match admission known h.env with
  | (.ok (), env) => (.ok (), { h with env })
  | (.error e, env) => (.err e, { h with env })

/-- Store a replacement. -/
def replace (key : EndpointKey) (replacement : Stored) (m : Memory) : Memory :=
  { m with
    live := m.live - countOf (m.entries[key]?.any Stored.live) + countOf replacement.live
    entries := m.entries.insert key replacement }

/-- `MemoryStore::access_admitted`. -/
def access (x : Crates) (capacity : ℕ) (key : EndpointKey) (entry : Option Entry)
    (now : ClockRead) (admission : Callback ω) :
    Run ω (Option EndpointRecord) := do
  let now ← Prog.ofExcept now
  let m ← Prog.look MemoryHost.memory
  let wall ← Prog.ofExcept (Records.observe .zero m.observedWall now)
  update fun m => { m with observedWall := wall }
  let decision ← Prog.ofExcept (Records.decide x m.entries[key]? entry key now)
  match decision.replacement with
  | none => Prog.ofExcept decision.result
  | some replacement =>
    if ¬ m.entries.contains key ∧ m.entries.size ≥ capacity then
      Prog.fail (storeError "record identity capacity exceeded")
    else do
      Prog.when replacement.isActive (ask admission (m.entries.contains key))
      update (replace key replacement)
      Prog.ofExcept decision.result

/-- One entry of a collection; `retired` counts those retired so far. -/
def collectOne (x : Crates) (now : Reading) (retired : ℕ) (key : EndpointKey) : Run ω ℕ := do
  let old ← Prog.look fun h : MemoryHost ω => h.memory.entries[key]?
  match old with
  | none => pure retired
  | some old => do
    let floor ← Prog.ofExcept (old.retire x key now)
    match floor with
    | none => pure retired
    | some floor => do
      update fun m =>
        { m with live := m.live - countOf old.live, entries := m.entries.insert key floor }
      pure (retired + 1)

/-- `MemoryStore::collect_at`. -/
def collect (x : Crates) (now : ClockRead) : Run ω ℕ := do
  let now ← Prog.ofExcept now
  let m ← Prog.look MemoryHost.memory
  let wall ← Prog.ofExcept (Records.observe .zero m.observedWall now)
  update fun m => { m with observedWall := wall }
  let batch := collectBatch m.entries m.cursor
  update fun m => { m with cursor := nextCursor batch }
  (batch.map Prod.fst).foldlM (collectOne x now) 0

/-- The operations of the store. -/
def ops (x : Crates) (capacity : ℕ) : StoreOps (MemoryHost ω) ω where
  access := access x capacity
  collect := collect x

/-! ### Effects -/

/-- What is stored. -/
def catalog (h : MemoryHost ω) : Catalog := fun key => h.memory.entries[key]?

theorem catalog_replace (h : MemoryHost ω) (m : Memory) (key : EndpointKey) (s : Stored)
    (hm : m.entries = h.memory.entries.insert key s) (env : ω) :
    catalog ⟨m, env⟩ = Function.update (catalog h) key (some s) := by
  funext k
  show m.entries[k]? = _
  rw [hm, lookup_insert, Function.update_apply]
  exact ite_congr (propext eq_comm) (fun _ => rfl) fun _ => rfl

variable {x : Crates} {capacity : ℕ} {now : ClockRead}

/-- **The effect of an access to the store in memory.** -/
theorem access_effect (key : EndpointKey) (entry : Option Entry) (admission : Callback ω)
    (h : MemoryHost ω) :
    AtReading now (catalog h) (access x capacity key entry now admission h).1
      (catalog (access x capacity key entry now admission h).2) fun reading =>
        Accessed x key entry reading (catalog h) (access x capacity key entry now admission h).1
          (catalog (access x capacity key entry now admission h).2) := by
  cases hnow : now with
  | error e => exact .inl ⟨e, rfl, rfl, rfl⟩
  | ok reading =>
    refine .inr (.inr ⟨reading, rfl, ?_⟩)
    unfold access
    simp only [Prog.bind_apply, Prog.ofExcept_ok_apply, Prog.look_apply]
    cases hobs : Records.observe .zero h.memory.observedWall reading with
    | error e => exact .failed _ (Records.isStore_of_observe hobs)
    | ok wall =>
      simp only [update, Prog.modify_apply]
      cases hdec : Records.decide x h.memory.entries[key]? entry key reading with
      | error e => exact .undecided e hdec
      | ok d =>
        simp only [Prog.ofExcept_ok_apply]
        cases hrep : d.replacement with
        | none =>
          have hkept : Accessed x key entry reading (catalog h) (outcomeOf d.result) (catalog h) :=
            .kept d hdec hrep
          cases hres : d.result with
          | ok r => rwa [hres] at hkept
          | error e => rwa [hres] at hkept
        | some s =>
          dsimp only
          split
          · exact .failed _ True.intro
          -- the callback is asked about a fresh entry only
          have hdone : ∀ env : ω, Accessed x key entry reading (catalog h) (outcomeOf d.result)
              (catalog ⟨replace key s { h.memory with observedWall := wall }, env⟩) := by
            intro env
            rw [catalog_replace h _ key s rfl env]
            exact .replaced d s hdec hrep
          have hres : ∀ t : MemoryHost ω, (Prog.ofExcept d.result : Run ω _) t
              = (outcomeOf d.result, t) := by
            intro t
            cases d.result <;> rfl
          cases hact : s.isActive with
          | false =>
            simp only [Prog.bind_apply, hres]
            exact hdone _
          | true =>
            simp only [Prog.bind_apply, Prog.when, if_true, ask]
            rcases admission (h.memory.entries.contains key) h.env with ⟨o, env⟩
            cases o with
            | error e => exact .refused d s e hdec hrep hact
            | ok _ =>
              simp only [hres]
              exact hdone env

theorem collectOne_spec {reading : Reading} {old : Catalog} (n : ℕ) (key : EndpointKey) :
    Preserves (fun h : MemoryHost ω => Collected x reading old (catalog h))
      (collectOne x reading n key) := by
  intro h hh
  unfold collectOne
  simp only [Prog.bind_apply, Prog.look_apply]
  cases hkey : h.memory.entries[key]? with
  | none => exact hh
  | some s =>
    dsimp only
    cases hret : s.retire x key reading with
    | error e => exact hh
    | ok floor =>
      cases floor with
      | none => exact hh
      | some s' =>
        show Collected x reading old (catalog _)
        rw [catalog_replace h _ key s' rfl]
        intro k
        by_cases hk : k = key
        · subst hk
          rw [Function.update_self]
          -- an entry that was retired before is not retired again
          rcases hh k with heq | ⟨t, t', -, ht, hcat⟩
          · exact .inr ⟨s, s', heq ▸ hkey, hret, rfl⟩
          have hs : s = t' := Option.some.inj (hkey.symm.trans hcat)
          subst hs
          cases t with
          | retired _ _ _ => exact absurd ht (by simp [Stored.retire, pure, Except.pure])
          | active e l =>
            unfold Stored.retire at ht
            dsimp only at ht
            split at ht
            · obtain ⟨r, -, hr⟩ := bind_eq_ok.mp ht
              cases hr
              exact absurd hret (by simp [Stored.retire, pure, Except.pure])
            · exact absurd ht (by simp [pure, Except.pure])
        · rw [Function.update_of_ne hk]
          exact hh k

/-- **The effect of a collection of the store in memory.** -/
theorem collect_effect (h : MemoryHost ω) :
    AtReading now (catalog h) (collect x now h).1 (catalog (collect x now h).2) fun reading =>
      Collected x reading (catalog h) (catalog (collect x now h).2) := by
  cases hnow : now with
  | error e => exact .inl ⟨e, rfl, rfl, rfl⟩
  | ok reading =>
    refine .inr (.inr ⟨reading, rfl, ?_⟩)
    unfold collect
    simp only [Prog.bind_apply, Prog.ofExcept_ok_apply, Prog.look_apply]
    cases hobs : Records.observe .zero h.memory.observedWall reading with
    | error e => exact fun _ => .inl rfl
    | ok wall =>
      exact (Preserves.foldlM (fun n key _ => collectOne_spec n key) 0).final fun _ => .inl rfl

/-- **The effect of a call to the store in memory.** -/
theorem called (call : Call ω) (h : MemoryHost ω) :
    Called x now (catalog h) call (call.run (ops x capacity) x now h).1
      (catalog (call.run (ops x capacity) x now h).2) :=
  called_run catalog (fun key entry admission => access_effect key entry admission h) (collect_effect h) call

end MemoryStore

end Rds.Discovery
