import Rds.Discovery.Entry
import Rds.Framework.Interrupt

/-!
# Record stores

The calls every record store answers (`RecordStore` in `rds-discovery/src/lib.rs`). Both stores
implement them by two operations: an access to one key, which reads it or offers a mutation for it,
and a collection that retires what has expired. `Call.run` is the trait's side of a call, over the
operations of a store.

What a call may do is said once, for every store, in terms of the *catalogue*: what is stored for
each key. `Accessed` is the effect of an access, `Called` that of a call. The admission callback is
code of the caller with a state of its own, of any type `ω`.
-/

namespace Rds.Discovery

open Framework

/-- `MAX_IDENTITIES`. -/
def maxIdentities : ℕ := 4096

/-- `GC_BATCH`. -/
def gcBatch : ℕ := 64

/-- The admission callback: it is told whether the identity is known, may refuse, and may change
its own state. -/
abbrev Callback (ω : Type) : Type := Bool → ω → Except DiscoveryError Unit × ω

/-- The callback that admits everything. -/
def Callback.admitAll {ω : Type} : Callback ω := fun _ env => (.ok (), env)

/-- A call of the trait. -/
inductive Call (ω : Type) where
  | put (record : EndpointRecord) (admission : Callback ω)
  | remove (tomb : DeleteRequest) (admission : Callback ω)
  | get (key : EndpointKey)
  | collect

/-- What a call returns. -/
inductive Reply where
  | done
  | record (record : EndpointRecord)
  | collected (count : ℕ)
  deriving DecidableEq

/-- The two operations of a store over a state `σ`: `access_admitted` and `collect_at`. -/
structure StoreOps (σ ω : Type) where
  access : EndpointKey → Option Entry → ClockRead → Callback ω →
    Prog σ DiscoveryError (Option EndpointRecord)
  collect : ClockRead → Prog σ DiscoveryError ℕ

namespace Call

variable {σ ω : Type}

/-- The key a call accesses and the mutation it offers; `none` for a collection. -/
def target (x : Crates) : Call ω → Option (Except DiscoveryError (EndpointKey × Option Entry))
  | .put record _ => some ((record.verify x).map fun p => (p.key, some (.record record)))
  | .remove tomb _ => some ((tomb.verify x).map fun p => (p.key, some (.deleted tomb)))
  | .get key => some (.ok (key, none))
  | .collect => none

/-- The callback of a call. -/
def callback : Call ω → Callback ω
  | .put _ admission => admission
  | .remove _ admission => admission
  | _ => .admitAll

/-- What a call makes of the result of its access. -/
def answer (call : Call ω) (result : Option EndpointRecord) : Except DiscoveryError Reply :=
  match call, result with
  | .get _, some record => pure (.record record)
  | .get _, none => throw .notFound
  | _, _ => pure .done

/-- `put_admitted`, `remove_admitted`, `get` and `collect_expired`. -/
def run (ops : StoreOps σ ω) (x : Crates) (now : ClockRead) (call : Call ω) :
    Prog σ DiscoveryError Reply :=
  match call.target x with
  | none => do
    let count ← ops.collect now
    pure (.collected count)
  | some target => do
    let target ← Prog.ofExcept target
    let result ← ops.access target.1 target.2 now call.callback
    Prog.ofExcept (call.answer result)

end Call

/-! ### The effect of a call -/

/-- What is stored for each key. -/
abbrev Catalog := EndpointKey → Option Stored

/-- Every stored entry verifies for its key. -/
def Catalog.Sound (x : Crates) (catalog : Catalog) : Prop :=
  ∀ key s, catalog key = some s → ∃ r, s.verify x key = .ok r

/-- The call was stopped, or failed for a reason of the store. -/
def Failed {α : Type} : Outcome DiscoveryError α → Prop
  | .ok _ => False
  | .err e => e.IsStore
  | .stopped => True

/-- A result, as the end of a run. -/
def outcomeOf {α : Type} : Except DiscoveryError α → Outcome DiscoveryError α
  | .ok a => .ok a
  | .error e => .err e

/-- **The effect of an access.** The mutation is decided on what is stored. The store may fail
before or after it has made the change, and the callback may refuse a fresh entry. -/
inductive Accessed (x : Crates) (key : EndpointKey) (entry : Option Entry) (now : Reading)
    (old : Catalog) : Outcome DiscoveryError (Option EndpointRecord) → Catalog → Prop where
  | failed (o : Outcome DiscoveryError (Option EndpointRecord)) (ho : Failed o) :
      Accessed x key entry now old o old
  | undecided (e : DiscoveryError) (h : Records.decide x (old key) entry key now = .error e) :
      Accessed x key entry now old (.err e) old
  | refused (d : Records.Decision) (s : Stored) (e : DiscoveryError)
      (h : Records.decide x (old key) entry key now = .ok d) (hs : d.replacement = some s)
      (hactive : s.isActive = true) : Accessed x key entry now old (.err e) old
  | kept (d : Records.Decision) (h : Records.decide x (old key) entry key now = .ok d)
      (hs : d.replacement = none) : Accessed x key entry now old (outcomeOf d.result) old
  | replaced (d : Records.Decision) (s : Stored)
      (h : Records.decide x (old key) entry key now = .ok d) (hs : d.replacement = some s) :
      Accessed x key entry now old (outcomeOf d.result) (Function.update old key (some s))
  | torn (d : Records.Decision) (s : Stored) (o : Outcome DiscoveryError (Option EndpointRecord))
      (h : Records.decide x (old key) entry key now = .ok d) (hs : d.replacement = some s)
      (ho : Failed o) : Accessed x key entry now old o (Function.update old key (some s))

/-- The effect of a collection: some entries that have lapsed are retired. -/
def Collected (x : Crates) (now : Reading) (old new : Catalog) : Prop :=
  ∀ key, new key = old key ∨
    ∃ s s', old key = some s ∧ s.retire x key now = .ok (some s') ∧ new key = some s'

/-- **The effect of a call.** -/
inductive Called {ω : Type} (x : Crates) (now : ClockRead) (old : Catalog) :
    Call ω → Outcome DiscoveryError Reply → Catalog → Prop where
  | failed (call : Call ω) (o : Outcome DiscoveryError Reply) (ho : Failed o) :
      Called x now old call o old
  | unverified (call : Call ω) (e : DiscoveryError) (h : call.target x = some (.error e)) :
      Called x now old call (.err e) old
  | unread (call : Call ω) (e : DiscoveryError) (h : now = .error e) :
      Called x now old call (.err e) old
  | accessed (call : Call ω) (key : EndpointKey) (entry : Option Entry) (reading : Reading)
      (o : Outcome DiscoveryError (Option EndpointRecord)) (new : Catalog)
      (ht : call.target x = some (.ok (key, entry))) (hn : now = .ok reading)
      (h : Accessed x key entry reading old o new) : Called x now old call (o.andThen call.answer) new
  | collected (reading : Reading) (o : Outcome DiscoveryError Reply) (new : Catalog)
      (hn : now = .ok reading) (h : Collected x reading old new) :
      Called x now old .collect o new

/-- The effect of an operation that needs the clock: it could not be read, the store failed, or
the operation had its effect. -/
def AtReading {α : Type} (now : ClockRead) (old : Catalog)
    (o : Outcome DiscoveryError α) (new : Catalog) (effect : Reading → Prop) : Prop :=
  (∃ e, now = .error e ∧ o = .err e ∧ new = old) ∨ (Failed o ∧ new = old) ∨
    ∃ reading, now = .ok reading ∧ effect reading

theorem Failed.andThen {α β : Type} {o : Outcome DiscoveryError α} (h : Failed o)
    (f : α → Except DiscoveryError β) : Failed (o.andThen f) := by
  cases o with
  | ok a => exact h.elim
  | err e => exact h
  | stopped => exact h

variable {σ ω : Type} {x : Crates} {ops : StoreOps σ ω}

section Run

variable {call : Call ω} {now : ClockRead} {s : σ}

theorem Call.run_collect (h : call.target x = none) :
    call.run ops x now s = ((ops.collect now s).1.andThen fun count => .ok (.collected count),
      (ops.collect now s).2) := by
  unfold Call.run
  rw [h]
  exact Prog.bind_ofExcept_apply (ops.collect now) (fun count => .ok (Reply.collected count)) s

theorem Call.run_unverified {e : DiscoveryError} (h : call.target x = some (.error e)) :
    call.run ops x now s = (.err e, s) := by
  unfold Call.run
  rw [h]
  rfl

theorem Call.run_access {target : EndpointKey × Option Entry} (h : call.target x = some (.ok target)) :
    call.run ops x now s = ((ops.access target.1 target.2 now call.callback s).1.andThen call.answer,
        (ops.access target.1 target.2 now call.callback s).2) := by
  unfold Call.run
  rw [h]
  exact Prog.bind_ofExcept_apply (ops.access target.1 target.2 now call.callback) call.answer s

theorem Call.eq_collect (h : call.target x = none) : call = .collect := by
  cases call with
  | collect => rfl
  | _ => exact absurd h (by simp [Call.target])

end Run

/-- **A store whose operations have these effects has calls with these effects.** -/
theorem called_run (catalog : σ → Catalog) {now : ClockRead} {s : σ}
    (haccess : ∀ key entry admission, AtReading now (catalog s) (ops.access key entry now admission s).1
      (catalog (ops.access key entry now admission s).2) fun reading =>
        Accessed x key entry reading (catalog s) (ops.access key entry now admission s).1
          (catalog (ops.access key entry now admission s).2))
    (hcollect : AtReading now (catalog s) (ops.collect now s).1 (catalog (ops.collect now s).2)
      fun reading => Collected x reading (catalog s) (catalog (ops.collect now s).2)) (call : Call ω) :
    Called x now (catalog s) call (call.run ops x now s).1 (catalog (call.run ops x now s).2) := by
  cases htarget : call.target x with
  | none =>
    rw [Call.run_collect htarget, Call.eq_collect htarget]
    dsimp only
    rcases hcollect with ⟨e, hn, ho, hcat⟩ | ⟨hfail, hcat⟩ | ⟨reading, hn, hcol⟩
    · rw [ho, hcat]
      exact .unread _ e hn
    · rw [hcat]
      exact .failed _ _ (hfail.andThen _)
    · exact .collected reading _ _ hn hcol
  | some target =>
    cases target with
    | error e =>
      rw [Call.run_unverified htarget]
      exact .unverified _ e htarget
    | ok target =>
      rw [Call.run_access htarget]
      rcases haccess target.1 target.2 call.callback with
        ⟨e, hn, ho, hcat⟩ | ⟨hfail, hcat⟩ | ⟨reading, hn, hacc⟩
      · rw [ho, hcat]
        exact .unread _ e hn
      · rw [hcat]
        exact .failed _ _ (hfail.andThen _)
      · exact .accessed call target.1 target.2 reading _ _ htarget hn hacc

end Rds.Discovery
