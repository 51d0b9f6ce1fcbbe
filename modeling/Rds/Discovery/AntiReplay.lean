import Rds.Discovery.RecordStore

/-!
# Anti-replay of record stores

What holds of every run of a record store, for any store whose calls have the effects of
`RecordStore`. A run is a list of events: the catalogue before a call, the call and how it ended,
and the catalogue after it.

`KeyStep` says what a call can do to one key: leave it, retire what has lapsed, or accept the
mutation the call offers if it is above the floor. Everything about floors, digests and leases is
read off that one step (`KeyStep.floor`) and carried over runs by induction (`Chained.floor`).
`antiReplay_of_chained` puts the results together.
-/

namespace Rds.Discovery

open Framework Stored Records

variable {ω : Type} {x : Crates}

/-! ### One key in one call -/

/-- **What a call can do to one key.** -/
inductive KeyStep (x : Crates) (call : Call ω) (now : ClockRead)
    (key : EndpointKey) (old : Option Stored) : Option Stored → Prop where
  | keep : KeyStep x call now key old old
  | retire (reading : Reading) (e : Entry) (l : Lease) (r : UInt64) (hnow : now = .ok reading)
      (hold : old = some (.active e l)) (hs : (Stored.active e l).verify x key = .ok r)
      (hlapsed : l.validAt reading = false)
      (hr : (Stored.retired r (e.digest x) e.isDeleted).verify x key = .ok r) :
      KeyStep x call now key old (some (.retired r (e.digest x) e.isDeleted))
  | accept (reading : Reading) (e : Entry) (l : Lease) (d : Details) (hnow : now = .ok reading)
      (htarget : call.target x = some (.ok (key, some e))) (hd : e.details x key = .ok d)
      (hl : Lease.new d.issued d.expires reading = .ok l)
      (hfloor : ∀ s r, old = some s → s.verify x key = .ok r → r < d.revision) :
      KeyStep x call now key old (some (.active e l))

/-- Of all that can be decided, only a lapse and a newer record change the key. -/
theorem keyStep_of_decide {call : Call ω} {key : EndpointKey} {entry : Option Entry}
    {now : ClockRead} {reading : Reading} {old : Option Stored}
    {d : Records.Decision} {s : Stored} (hnow : now = .ok reading)
    (htarget : call.target x = some (.ok (key, entry)))
    (hold : ∀ s, old = some s → ∃ r, s.verify x key = .ok r)
    (hdec : Records.decide x old entry key reading = .ok d) (hs : d.replacement = some s) :
    KeyStep x call now key old (some s) := by
  obtain ⟨retired, current, hobs, heq⟩ := exists_observed reading hold
  rw [heq] at hdec
  have hdecided := settle_cases (fun s hs => hobs.verify hs) hdec
  -- what is left of a lapsed entry
  have hretired : retired = some s → KeyStep x call now key old (some s) := by
    intro hret
    cases hobs with
    | absent | kept _ _ _ _ => exact absurd hret (by simp)
    | lapsed e l r hver hlapsed hr =>
      rw [← Option.some.inj hret]
      exact .retire reading e l r hnow rfl hver hlapsed hr
  cases hdecided with
  | read _ _ | noLease _ _ _ _ _ | retry _ _ _ _ _ _ _ | stale _ _ _ _ _ _ _ _ _ =>
    exact hretired hs
  | accept e dd lease hd hlease hfloor =>
    rw [← Option.some.inj hs]
    refine .accept reading e lease dd hnow htarget hd hlease fun s₀ r hs₀ hr => ?_
    -- the floor of what is left is the floor of what was stored
    cases hobs with
    | absent => exact absurd hs₀ (by simp)
    | kept _ _ _ _ => exact hfloor s₀ r hs₀ hr
    | lapsed e' l' r' hver _ hr' =>
      cases hs₀
      rw [hver] at hr
      cases hr
      exact hfloor _ _ rfl hr'

/-- **A call takes every key one step.** -/
theorem Called.keyStep {now : ClockRead} {old new : Catalog} {call : Call ω}
    {o : Outcome DiscoveryError Reply} (hold : old.Sound x) (h : Called x now old call o new)
    (key : EndpointKey) : KeyStep x call now key (old key) (new key) := by
  cases h with
  | failed _ _ _ | unverified _ _ _ | unread _ _ _ => exact .keep
  | accessed _ key' entry reading out _ ht hn hacc =>
    have hupdate : ∀ (d : Records.Decision) (s : Stored),
        decide x (old key') entry key' reading = .ok d → d.replacement = some s →
        KeyStep x call now key (old key) (Function.update old key' (some s) key) := by
      intro d s hdec hs
      by_cases hkey : key = key'
      · subst hkey
        rw [Function.update_self]
        exact keyStep_of_decide hn ht (hold key) hdec hs
      · rw [Function.update_of_ne hkey]
        exact .keep
    cases hacc with
    | failed _ _ | undecided _ _ | refused _ _ _ _ _ _ | kept _ _ _ => exact .keep
    | replaced d s hdec hs | torn d s _ hdec hs _ => exact hupdate d s hdec hs
  | collected reading _ _ hn hcol =>
    rcases hcol key with heq | ⟨s, s', hs, hret, hnew⟩
    · rw [heq]
      exact .keep
    obtain ⟨r, hr⟩ := hold key s hs
    rcases retire_spec reading hr with ⟨hnone, -⟩ | ⟨e, l, rfl, hlapsed, hsome, hver⟩
    · rw [hnone] at hret
      exact absurd hret (by simp)
    · rw [hsome] at hret
      rw [hnew, ← Option.some.inj (Except.ok.inj hret)]
      exact .retire reading e l r hn hs hr hlapsed hver

section Step

variable {call : Call ω} {now : ClockRead} {key : EndpointKey}
  {old new : Option Stored}

theorem KeyStep.verify (h : KeyStep x call now key old new)
    (hold : ∀ s, old = some s → ∃ r, s.verify x key = .ok r) :
    ∀ s, new = some s → ∃ r, s.verify x key = .ok r := by
  cases h with
  | keep => exact hold
  | retire _ e l r _ _ _ _ hr => exact fun s hs => ⟨r, Option.some.inj hs ▸ hr⟩
  | accept _ e l d _ _ hd hl _ =>
    exact fun s hs => ⟨d.revision, Option.some.inj hs ▸ verify_active hd hl⟩

/-- **The floor never decreases.** While it stays, so does the digest, and the entry is the same or
has been retired. -/
theorem KeyStep.floor (h : KeyStep x call now key old new) {s : Stored} {r : UInt64}
    (hs : old = some s) (hr : s.verify x key = .ok r) :
    ∃ s' r', new = some s' ∧ s'.verify x key = .ok r' ∧ r ≤ r' ∧
      (r' = r → s'.digest x = s.digest x ∧ (s' = s ∨ s'.isActive = false)) := by
  cases h with
  | keep => exact ⟨s, r, hs, hr, UInt64.le_refl r, fun _ => ⟨rfl, .inl rfl⟩⟩
  | retire _ e l r' _ hold hver _ hret =>
    rw [hold] at hs
    cases hs
    rw [hver] at hr
    cases hr
    exact ⟨_, r, rfl, hret, UInt64.le_refl r, fun _ => ⟨rfl, .inr rfl⟩⟩
  | accept _ e l d _ _ hd hl hfloor =>
    have hlt := hfloor s r hs hr
    refine ⟨_, d.revision, rfl, verify_active hd hl, UInt64.le_of_lt hlt, fun heq => ?_⟩
    rw [heq] at hlt
    exact absurd hlt (UInt64.lt_irrefl _)

end Step

/-! ### How a call ended -/

section Ended

variable {now : ClockRead} {old new : Catalog} {call : Call ω}
  {o : Outcome DiscoveryError Reply} {key : EndpointKey} {entry : Option Entry}

theorem eq_ok_of_outcomeOf {α : Type} {result : Except DiscoveryError α} {a : α}
    (h : outcomeOf result = .ok a) : result = .ok a := by
  cases result with
  | ok b =>
    cases h
    rfl
  | error e => cases h

theorem andThen_ok {α β : Type} (a : α) (f : α → Except DiscoveryError β) :
    (Outcome.ok a).andThen f = outcomeOf (f a) := by
  unfold Outcome.andThen outcomeOf
  dsimp only
  cases f a <;> rfl

theorem Accessed.of_ok {reading : Reading} {out : Outcome DiscoveryError (Option EndpointRecord)}
    (h : Accessed x key entry reading old out new) {result : Option EndpointRecord}
    (hout : out = .ok result) :
    ∃ d, Records.decide x (old key) entry key reading = .ok d ∧ d.result = .ok result ∧
      ((d.replacement = none ∧ new = old) ∨
        ∃ s, d.replacement = some s ∧ new = Function.update old key (some s)) := by
  cases h with
  | failed _ hfail => exact (hout ▸ hfail : Failed (.ok result)).elim
  | undecided e _ | refused _ _ e _ _ _ => exact absurd hout (by simp)
  | kept d hdec hs => exact ⟨d, hdec, eq_ok_of_outcomeOf hout, .inl ⟨hs, rfl⟩⟩
  | replaced d s hdec hs => exact ⟨d, hdec, eq_ok_of_outcomeOf hout, .inr ⟨s, hs, rfl⟩⟩
  | torn d s _ _ _ hfail => exact (hout ▸ hfail : Failed (.ok result)).elim

/-- A call that is answered was decided, and changed its own key at most. -/
theorem Called.of_ok (h : Called x now old call o new)
    (htarget : call.target x = some (.ok (key, entry))) {reply : Reply} (ho : o = .ok reply) :
    ∃ reading d result, now = .ok reading ∧
      Records.decide x (old key) entry key reading = .ok d ∧ d.result = .ok result ∧
      call.answer result = .ok reply ∧
      ((d.replacement = none ∧ new = old) ∨
        ∃ s, d.replacement = some s ∧ new = Function.update old key (some s)) := by
  cases h with
  | failed _ _ hfail => exact (ho ▸ hfail : Failed (.ok reply)).elim
  | unverified _ e _ | unread _ e _ => exact absurd ho (by simp)
  | collected _ _ _ _ _ => exact absurd htarget (by simp [Call.target])
  | accessed _ key' entry' reading out _ ht hn hacc =>
    rw [htarget] at ht
    cases ht
    cases out with
    | err e | stopped => exact absurd ho (by simp [Outcome.andThen])
    | ok result =>
      obtain ⟨d, hdec, hres, hnew⟩ := hacc.of_ok rfl
      rw [andThen_ok] at ho
      exact ⟨reading, d, result, hn, hdec, hres, eq_ok_of_outcomeOf ho, hnew⟩

/-- **A mutation that was acknowledged is what is stored**: its revision is the floor, its digest
is the digest. -/
theorem Called.acknowledged (hold : old.Sound x) (h : Called x now old call o new) {e : Entry}
    (htarget : call.target x = some (.ok (key, some e))) {reply : Reply} (ho : o = .ok reply) :
    ∃ d s, e.details x key = .ok d ∧ new key = some s ∧ s.verify x key = .ok d.revision ∧
      s.digest x = e.digest x ∧ s.isActive = true := by
  obtain ⟨reading, d, result, hn, hdec, hres, -, hnew⟩ := h.of_ok htarget ho
  obtain ⟨retired, current, hobs, heq⟩ := exists_observed reading (hold key)
  rw [heq] at hdec
  cases settle_cases (fun s hs => hobs.verify hs) hdec with
  | noLease _ _ _ _ _ | stale _ _ _ _ _ _ _ _ _ => exact absurd hres (by simp)
  | accept _ dd lease hd hlease _ =>
    rcases hnew with ⟨hnone, -⟩ | ⟨s, hs, rfl⟩
    · exact absurd hnone (by simp)
    · cases hs
      exact ⟨dd, _, hd, Function.update_self _ _ _, verify_active hd hlease, rfl, rfl⟩
  | retry _ dd s hd hs hr hdigest =>
    -- a retired entry cannot be acknowledged, so it is the entry that was stored
    have hactive : s.isActive = true := by
      by_contra hnot
      rw [Bool.not_eq_true] at hnot
      rw [hnot] at hres
      exact absurd hres (by simp)
    generalize hstored : old key = stored at hobs
    cases hobs with
    | absent => exact absurd hs (by simp)
    | lapsed _ _ _ _ _ _ =>
      cases hs
      exact absurd hactive (by simp [isActive])
    | kept s' r hver hvalid =>
      cases hs
      rcases hnew with ⟨-, rfl⟩ | ⟨_, hsome, -⟩
      · exact ⟨dd, s, hd, hstored, hr, hdigest, hactive⟩
      · exact absurd hsome (by simp)

/-- **A record that was read** is stored, with a lease that is valid. -/
theorem Called.got (hold : old.Sound x) (h : Called x now old call o new) (hcall : call = .get key)
    {record : EndpointRecord} (ho : o = .ok (.record record)) :
    ∃ reading lease, now = .ok reading ∧ old key = some (.active (.record record) lease) ∧
      lease.validAt reading = true := by
  have htarget : call.target x = some (.ok (key, none)) := by
    rw [hcall]
    rfl
  obtain ⟨reading, d, result, hn, hdec, hres, hans, -⟩ := h.of_ok htarget ho
  have hresult : result = some record := by
    rw [hcall] at hans
    cases result with
    | none => cases hans
    | some r =>
      cases hans
      rfl
  subst hresult
  obtain ⟨retired, current, hobs, heq⟩ := exists_observed reading (hold key)
  rw [heq] at hdec
  cases settle_cases (fun s hs => hobs.verify hs) hdec with
  | read _ hread =>
    have hvalue := hread.symm.trans hres
    generalize hstored : old key = stored at hobs
    cases hobs with
    | absent => exact absurd hvalue (by simp)
    | lapsed e l r _ _ _ => cases e <;> exact absurd hvalue (by simp [Stored.read, Entry.isDeleted])
    | kept s r hver hvalid =>
      cases s with
      | retired _ _ deleted => cases deleted <;> exact absurd hvalue (by simp [Stored.read])
      | active e lease =>
        cases e with
        | deleted _ => exact absurd hvalue (by simp [Stored.read])
        | record r =>
          cases hvalue
          exact ⟨reading, lease, hn, rfl, hvalid _ _ rfl⟩

end Ended

/-! ### Runs -/

/-- A call in a run. -/
structure Event (ω : Type) where
  before : Catalog
  call : Call ω
  now : ClockRead
  outcome : Outcome DiscoveryError Reply
  after : Catalog

/-- The event accepted the mutation `e` for the key: the call was acknowledged, or it failed with
the mutation stored all the same. -/
def Event.Accepts (x : Crates) (ev : Event ω) (key : EndpointKey) (e : Entry) : Prop :=
  ev.call.target x = some (.ok (key, some e)) ∧
    ((∃ reply, ev.outcome = .ok reply) ∨ ∃ lease, ev.after key = some (.active e lease))

/-- A run: every call has one of its effects, and starts where the one before it ended. -/
inductive Chained (x : Crates) : Catalog → List (Event ω) → Prop where
  | nil (start : Catalog) : Chained x start []
  | cons (ev : Event ω) (events : List (Event ω))
      (h : Called x ev.now ev.before ev.call ev.outcome ev.after)
      (rest : Chained x ev.after events) : Chained x ev.before (ev :: events)

/-- What is stored for a key has risen: the floor is not lower, and if it is the same, so is the
digest. -/
def Rises (x : Crates) (key : EndpointKey) (old new : Option Stored) : Prop :=
  ∀ s r, old = some s → s.verify x key = .ok r → ∃ s' r', new = some s' ∧
    s'.verify x key = .ok r' ∧ r ≤ r' ∧ (r' = r → s'.digest x = s.digest x)

theorem Rises.refl (key : EndpointKey) (old : Option Stored) : Rises x key old old :=
  fun s r hs hr => ⟨s, r, hs, hr, UInt64.le_refl r, fun _ => rfl⟩

theorem Rises.trans {key : EndpointKey} {a b c : Option Stored} (hab : Rises x key a b)
    (hbc : Rises x key b c) : Rises x key a c := by
  intro s r hs hr
  obtain ⟨s', r', hs', hr', hle, hdigest⟩ := hab s r hs hr
  obtain ⟨s'', r'', hs'', hr'', hle', hdigest'⟩ := hbc s' r' hs' hr'
  refine ⟨s'', r'', hs'', hr'', UInt64.le_trans hle hle', fun heq => ?_⟩
  have hmid : r' = r := UInt64.le_antisymm (heq ▸ hle') hle
  rw [hdigest' (heq.trans hmid.symm), hdigest hmid]

theorem KeyStep.rises {call : Call ω} {now : ClockRead} {key : EndpointKey}
    {old new : Option Stored} (h : KeyStep x call now key old new) : Rises x key old new := by
  intro s r hs hr
  obtain ⟨s', r', hs', hr', hle, hsame⟩ := h.floor hs hr
  exact ⟨s', r', hs', hr', hle, fun heq => (hsame heq).1⟩

section Chained

variable {start : Catalog} {events : List (Event ω)}

theorem Called.sound {now : ClockRead} {old new : Catalog} {call : Call ω}
    {o : Outcome DiscoveryError Reply} (hold : old.Sound x) (h : Called x now old call o new) :
    new.Sound x :=
  fun key => (h.keyStep hold key).verify (hold key)

theorem Chained.called (h : Chained x start events) (hstart : start.Sound x) :
    ∀ ev ∈ events, ev.before.Sound x ∧ Called x ev.now ev.before ev.call ev.outcome ev.after := by
  induction h with
  | nil _ => simp
  | cons ev events hcall _ ih =>
    intro ev' hev'
    rcases List.mem_cons.mp hev' with rfl | hmem
    · exact ⟨hstart, hcall⟩
    · exact ih (hcall.sound hstart) ev' hmem

/-- **What is stored rises along a run.** -/
theorem Chained.rises (h : Chained x start events) (hstart : start.Sound x) (key : EndpointKey) :
    ∀ ev ∈ events, Rises x key (start key) (ev.before key) ∧ Rises x key (start key) (ev.after key) := by
  induction h with
  | nil _ => simp
  | cons ev events hcall _ ih =>
    have hstep := (hcall.keyStep hstart key).rises
    intro ev' hev'
    rcases List.mem_cons.mp hev' with rfl | hmem
    · exact ⟨.refl key _, hstep⟩
    · obtain ⟨hbefore, hafter⟩ := ih (hcall.sound hstart) ev' hmem
      exact ⟨hstep.trans hbefore, hstep.trans hafter⟩

theorem Chained.drop {l₁ l₂ : List (Event ω)} {ev : Event ω}
    (h : Chained x start (l₁ ++ ev :: l₂)) : Chained x ev.before (ev :: l₂) ∧ Chained x ev.after l₂ := by
  induction l₁ generalizing start with
  | nil =>
    cases h with
    | cons _ _ hcall rest => exact ⟨.cons ev l₂ hcall rest, rest⟩
  | cons ev₀ l₁ ih =>
    cases h with
    | cons _ _ _ rest => exact ih rest

/-- **An active entry was accepted**, at the start or by a call of the run. -/
theorem Chained.origin {l₁ l₂ : List (Event ω)} {ev : Event ω}
    (h : Chained x start (l₁ ++ ev :: l₂)) (hstart : start.Sound x) {key : EndpointKey} {e : Entry}
    {lease : Lease} (hstored : ev.before key = some (.active e lease)) :
    start key = some (.active e lease) ∨ ∃ ev' ∈ l₁, ev'.call.target x = some (.ok (key, some e)) ∧
        ev'.after key = some (.active e lease) := by
  induction l₁ generalizing start with
  | nil =>
    cases h with
    | cons _ _ _ _ => exact .inl hstored
  | cons ev₀ l₁ ih =>
    cases h with
    | cons _ _ hcall rest =>
      rcases ih rest (hcall.sound hstart) with hafter | ⟨ev', hmem, hev'⟩
      · have hstep := hcall.keyStep hstart key
        rw [hafter] at hstep
        -- the entry was there before the call, or it is the one the call offered
        generalize hold : ev₀.before key = old at hstep
        cases hstep with
        | keep => exact .inl rfl
        | accept _ _ _ _ _ htarget _ _ _ =>
          exact .inr ⟨ev₀, List.mem_cons_self, htarget, hafter⟩
      · exact .inr ⟨ev', List.mem_cons_of_mem ev₀ hmem, hev'⟩

end Chained

/-! ### Anti-replay -/

/-- **Anti-replay**, of a run of a store. -/
structure AntiReplay (x : Crates) (events : List (Event ω)) : Prop where
  /-- What has been stored for a key is never forgotten, and its floor never decreases. -/
  floor : ∀ l₁ ev l₂, events = l₁ ++ ev :: l₂ → ∀ key s, ev.before key = some s →
    ∃ r, s.verify x key = .ok r ∧ ∀ later ∈ ev :: l₂, ∃ s' r', later.after key = some s' ∧
      s'.verify x key = .ok r' ∧ r ≤ r'
  /-- A new entry is a mutation the call offered, strictly above the floor. -/
  fresh : ∀ ev ∈ events, ∀ key e lease, ev.after key = some (.active e lease) →
    ev.before key ≠ some (.active e lease) → ∃ d, ev.call.target x = some (.ok (key, some e)) ∧
      e.details x key = .ok d ∧
      ∀ s r, ev.before key = some s → s.verify x key = .ok r → r < d.revision
  /-- A mutation at the floor with another digest is refused. -/
  clash : ∀ ev ∈ events, ∀ key e d s, ev.call.target x = some (.ok (key, some e)) →
    e.details x key = .ok d → ev.before key = some s → s.verify x key = .ok d.revision →
    s.digest x ≠ e.digest x → ∀ reply, ev.outcome ≠ .ok reply
  /-- Repeating the stored mutation changes nothing but to retire it if it has lapsed. -/
  again : ∀ ev ∈ events, ∀ key e d s, ev.call.target x = some (.ok (key, some e)) →
    e.details x key = .ok d → ev.before key = some s → s.verify x key = .ok d.revision →
    ev.after key = some s ∨ ∃ reading e' lease, ev.now = .ok reading ∧ s = .active e' lease ∧
      lease.validAt reading = false ∧
      ev.after key = some (.retired d.revision (e'.digest x) e'.isDeleted)
  /-- A record is returned while it is stored, its lease is valid, it was accepted, and nothing
  above it was. -/
  get : ∀ l₁ ev l₂, events = l₁ ++ ev :: l₂ → ∀ key record, ev.call = .get key →
    ev.outcome = .ok (.record record) → ∃ reading lease d, ev.now = .ok reading ∧
      ev.before key = some (.active (.record record) lease) ∧ lease.validAt reading = true ∧
      (Entry.record record).details x key = .ok d ∧
      (∃ ev' ∈ l₁, ev'.Accepts x key (.record record)) ∧
      ∀ ev' ∈ l₁, ∀ e d', ev'.Accepts x key e → e.details x key = .ok d' →
        d'.revision ≤ d.revision ∧
          (d'.revision = d.revision → e.digest x = (Entry.record record).digest x)

section Results

variable {start : Catalog} {events : List (Event ω)}

theorem Event.Accepts.stored {ev : Event ω} {key : EndpointKey} {e : Entry} {d : Details}
    (h : ev.Accepts x key e) (hsound : ev.before.Sound x)
    (hcall : Called x ev.now ev.before ev.call ev.outcome ev.after)
    (hd : e.details x key = .ok d) : ∃ s, ev.after key = some s ∧
      s.verify x key = .ok d.revision ∧ s.digest x = e.digest x := by
  obtain ⟨htarget, ⟨reply, hreply⟩ | ⟨lease, hlease⟩⟩ := h
  · obtain ⟨d', s, hd', hs, hver, hdigest, -⟩ := hcall.acknowledged hsound htarget hreply
    rw [hd] at hd'
    cases hd'
    exact ⟨s, hs, hver, hdigest⟩
  obtain ⟨r, hr⟩ := hcall.sound hsound key _ hlease
  refine ⟨_, hlease, ?_, rfl⟩
  obtain ⟨d', hd', hrest⟩ := bind_eq_ok.mp hr
  rw [hd] at hd'
  cases hd'
  obtain ⟨-, hrev⟩ := ite_throw_eq_ok.mp hrest
  cases hrev
  exact hr

/-- **Every run of a store from an empty catalogue is free of replays.** -/
theorem antiReplay_of_chained (h : Chained x (fun _ => none) events) : AntiReplay x events := by
  have hnone : Catalog.Sound x fun _ => none := fun _ _ hs => absurd hs (by simp)
  have hcalled := h.called hnone
  refine ⟨?_, ?_, ?_, ?_, ?_⟩
  · rintro l₁ ev l₂ rfl key s hs
    obtain ⟨hsound, -⟩ := hcalled ev (by simp)
    obtain ⟨r, hr⟩ := hsound key s hs
    refine ⟨r, hr, fun later hlater => ?_⟩
    obtain ⟨s', r', hs', hr', hle, -⟩ := (h.drop.1.rises hsound key later hlater).2 s r hs hr
    exact ⟨s', r', hs', hr', hle⟩
  · intro ev hev key e lease hafter hne
    obtain ⟨hsound, hcall⟩ := hcalled ev hev
    have hstep := hcall.keyStep hsound key
    rw [hafter] at hstep
    generalize hold : ev.before key = old at hstep hne
    cases hstep with
    | keep => exact absurd rfl hne
    | accept _ _ _ d _ htarget hd _ hfloor => exact ⟨d, htarget, hd, hfloor⟩
  · intro ev hev key e d s htarget hd hs hr hdigest reply hreply
    obtain ⟨hsound, hcall⟩ := hcalled ev hev
    obtain ⟨d', s', hd', hs', hr', hdigest', -⟩ := hcall.acknowledged hsound htarget hreply
    rw [hd] at hd'
    cases hd'
    -- the floor did not move, so neither did the digest
    obtain ⟨s'', r'', hs'', hr'', -, hsame⟩ := (hcall.keyStep hsound key).floor hs hr
    rw [hs'] at hs''
    cases hs''
    rw [hr'] at hr''
    cases hr''
    exact hdigest ((hsame rfl).1.symm.trans hdigest')
  · intro ev hev key e d s htarget hd hs hr
    obtain ⟨hsound, hcall⟩ := hcalled ev hev
    have hstep := hcall.keyStep hsound key
    rw [hs] at hstep
    generalize hnew : ev.after key = new at hstep
    cases hstep with
    | keep => exact .inl rfl
    | retire reading e' l r hnow hold hver hlapsed _ =>
      cases hold
      rw [hver] at hr
      cases hr
      exact .inr ⟨reading, e', l, hnow, rfl, hlapsed, rfl⟩
    | accept _ _ _ d' _ htarget' hd' _ hfloor =>
      rw [htarget] at htarget'
      cases htarget'
      rw [hd] at hd'
      cases hd'
      exact absurd (hfloor s _ rfl hr) (UInt64.lt_irrefl _)
  rintro l₁ ev l₂ rfl key record hget hreply
  obtain ⟨hsound, hcall⟩ := hcalled ev (by simp)
  obtain ⟨reading, lease, hnow, hstored, hvalid⟩ := hcall.got hsound hget hreply
  obtain ⟨r, hr⟩ := hsound key _ hstored
  obtain ⟨d, hd, hrest⟩ := bind_eq_ok.mp hr
  obtain ⟨-, hrev⟩ := ite_throw_eq_ok.mp hrest
  cases hrev
  refine ⟨reading, lease, d, hnow, hstored, hvalid, hd, ?_, ?_⟩
  · rcases h.origin hnone hstored with hstart | ⟨ev', hmem, htarget, hafter⟩
    · exact absurd hstart (by simp)
    · exact ⟨ev', hmem, htarget, .inr ⟨lease, hafter⟩⟩
  intro ev' hmem e d' haccepts hd'
  obtain ⟨hsound', hcall'⟩ := hcalled ev' (by simp [hmem])
  obtain ⟨s', hs', hr', hdigest'⟩ := haccepts.stored hsound' hcall' hd'
  -- from that call on, what is stored for the key has only risen
  obtain ⟨a, b, rfl⟩ := List.append_of_mem hmem
  rw [List.append_assoc] at h
  have hrises := (h.drop.2.rises (hcall'.sound hsound') key ev (by simp)).1
  obtain ⟨s'', r'', hs'', hr'', hle, hsame⟩ := hrises s' _ hs' hr'
  rw [hstored] at hs''
  cases hs''
  rw [hr] at hr''
  cases hr''
  refine ⟨hle, fun heq => ?_⟩
  exact hdigest'.symm.trans (hsame heq.symm).symm

end Results

end Rds.Discovery
