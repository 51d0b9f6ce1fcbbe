import Rds.Agent.GrantSlots
import Rds.Agent.GrantVerify

/-!
# What a connection may do with its grant

`ConnAuthz::scope` (`rds-agent/src/authz.rs`) answers each request of a connection with the grant in
force. `grant_scope` is about any two answers along any run of the agent.

From what an action does to a connection (`Change`): at most one task at a time is between `begin` and its end (`Txn`), so what `prepare_renewal` compared with is still the
current grant when `commit_renewal` replaces it, and the grants of a connection form a chain of renewals
(`Renews`).

An expiry is not latched. While a wall clock that passed the end of the grant goes back, the lease is live
again until its continuous deadline (`scope_revives`). An expiry is final if the clock that showed it does not
go back.
-/

namespace Rds.Agent.Authz

open Framework Discovery List

/-- `ScopeError`, as far as `scope` gives it. -/
inductive ScopeError where
  | pending
  | authorizing
  | closed
  | expired
  | revoked
  | policyStale
  deriving DecidableEq

/-- `scope` with a lease. -/
def GrantLease.scope (self : GrantLease) (view : View) : Except ScopeError (Option VerifiedGrant) :=
  if !self.current.live view.now then throw .expired
  else if !view.revocations.fresh view.nowFresh then throw .policyStale
  else if view.revocations.contains self.current.grant.id then throw .revoked
  else pure (some self.current.grant)

/-- `ConnAuthz::scope`. -/
def scope (state : State) (view : View) : Except ScopeError (Option VerifiedGrant) :=
  match state with
  | .opened => pure none
  | .pending => throw .pending
  | .authorizing _ => throw .authorizing
  | .closed => throw .closed
  | .granted lease | .renewing lease => lease.scope view

variable {view : View} {state : State}

theorem GrantLease.scope_eq_ok {lease : GrantLease} {grant : VerifiedGrant}
    (h : lease.scope view = .ok (some grant)) :
    lease.current.grant = grant ∧ lease.current.live view.now = true ∧
      view.revocations.fresh view.nowFresh = true ∧ view.revocations.contains grant.id = false := by
  obtain ⟨hlive, h⟩ := ite_throw_eq_ok.mp h
  obtain ⟨hfresh, h⟩ := ite_throw_eq_ok.mp h
  obtain ⟨hfree, h⟩ := ite_throw_eq_ok.mp h
  cases h
  exact ⟨rfl, by simpa using hlive, by simpa using hfresh, by simpa using hfree⟩

/-- **What `scope` returns** is the current grant, live now, with a fresh denylist that does not have it. -/
theorem scope_eq_ok {grant : VerifiedGrant} (h : scope state view = .ok (some grant)) :
    ∃ lease, state.lease = some lease ∧ lease.current.grant = grant ∧
      lease.current.live view.now = true ∧ view.revocations.fresh view.nowFresh = true ∧
      view.revocations.contains grant.id = false := by
  cases state with
  | granted lease | renewing lease => exact ⟨lease, rfl, GrantLease.scope_eq_ok h⟩
  | opened | pending | authorizing lease | closed => cases h

theorem scope_ne_none (h : state ≠ .opened) : scope state view ≠ .ok none := by
  have hlease : ∀ lease : GrantLease, lease.scope view ≠ .ok none := by
    intro lease hscope
    obtain ⟨-, hscope⟩ := ite_throw_eq_ok.mp hscope
    obtain ⟨-, hscope⟩ := ite_throw_eq_ok.mp hscope
    obtain ⟨-, hscope⟩ := ite_throw_eq_ok.mp hscope
    cases hscope
  cases state with
  | granted lease | renewing lease => exact hlease lease
  | opened => exact absurd rfl h
  | pending | authorizing lease | closed => nofun

/-! ### Renewals -/

theorem Renews.refl (active : ActiveGrant) : Renews active active := .inl rfl

theorem Renews.trans {a b c : ActiveGrant} (hab : Renews a b) (hbc : Renews b c) : Renews a c := by
  rcases hab with rfl | ⟨hid, hservices, hconstraints, htenant, hpolicy, hrevision, hexpires⟩
  · exact hbc
  rcases hbc with rfl | ⟨hid', hservices', hconstraints', htenant', hpolicy', hrevision', hexpires'⟩
  · exact .inr ⟨hid, hservices, hconstraints, htenant, hpolicy, hrevision, hexpires⟩
  · exact .inr ⟨hid'.trans hid, hservices'.trans hservices, hconstraints'.trans hconstraints,
      htenant'.trans htenant, hpolicy'.trans hpolicy, UInt64.lt_trans hrevision hrevision',
      UInt64.lt_trans hexpires hexpires'⟩

theorem Renews.keeps {old new : ActiveGrant} (h : Renews old new) :
    new.grant.id = old.grant.id ∧ new.grant.payload.services = old.grant.payload.services ∧
      new.grant.payload.constraints = old.grant.payload.constraints ∧
      new.grant.payload.tenant = old.grant.payload.tenant ∧
      new.grant.payload.policyRevision = old.grant.payload.policyRevision ∧
      old.grant.payload.revision ≤ new.grant.payload.revision ∧
      old.grant.payload.expiresAt ≤ new.grant.payload.expiresAt := by
  rcases h with rfl | ⟨hid, hservices, hconstraints, htenant, hpolicy, hrevision, hexpires⟩
  · exact ⟨rfl, rfl, rfl, rfl, rfl, UInt64.le_refl _, UInt64.le_refl _⟩
  · exact ⟨hid, hservices, hconstraints, htenant, hpolicy, UInt64.le_of_lt hrevision,
      UInt64.le_of_lt hexpires⟩

theorem Renews.eq_of_payload {old new : ActiveGrant} (h : Renews old new)
    (hpayload : new.grant.payload = old.grant.payload) : new = old := by
  rcases h with heq | ⟨-, -, -, -, -, hrevision, -⟩
  · exact heq
  · rw [hpayload] at hrevision
    exact absurd hrevision (UInt64.lt_irrefl _)

variable {conn conn' : Conn} {active : Finset GrantId} {t : ℕ} {act : Act} {r : Finset GrantId × Conn}

/-! ### One transaction at a time -/

/-- The task is busy. -/
def Conn.Busy (conn : Conn) (t : ℕ) : Prop := ∃ phase, conn.tasks.get t = some phase ∧ phase.busy = true

/-- Unless the connection is closed, at most one task is busy, and only while the state says so; what is
prepared renews the current grant. -/
structure Txn (conn : Conn) : Prop where
  one : conn.state ≠ .closed → ∀ t u, conn.Busy t → conn.Busy u → t = u
  idle : ∀ t, conn.Busy t →
    (∃ lease, conn.state = .authorizing lease) ∨ (∃ lease, conn.state = .renewing lease) ∨
      conn.state = .closed
  next : ∀ t next, conn.tasks.get t = some (.replying (some next)) →
    conn.state = .closed ∨ ∃ lease, conn.state = .renewing lease ∧ Renews lease.current next

section Insert

variable {phase : Phase} {u : ℕ} (htasks : conn'.tasks = conn.tasks.insert t phase)

include htasks

theorem get_of_insert {p : Phase} (h : conn'.tasks.get u = some p) :
    (u = t ∧ p = phase) ∨ (u ≠ t ∧ conn.tasks.get u = some p) := by
  rw [htasks, Table.get_insert] at h
  split at h
  next hu => exact .inl ⟨hu, (Option.some.inj h).symm⟩
  next hu => exact .inr ⟨hu, h⟩

theorem busy_of_stopped (hphase : phase.busy = false) (h : conn'.Busy u) : u ≠ t ∧ conn.Busy u := by
  obtain ⟨p, hp, hbusy⟩ := h
  rcases get_of_insert htasks hp with ⟨-, rfl⟩ | ⟨hu, hold⟩
  · cases hphase.symm.trans hbusy
  · exact ⟨hu, p, hold, hbusy⟩

theorem busy_of_moved (hbusy : conn.Busy t) (h : conn'.Busy u) : conn.Busy u := by
  obtain ⟨p, hp, hpbusy⟩ := h
  rcases get_of_insert htasks hp with ⟨rfl, -⟩ | ⟨-, hold⟩
  · exact hbusy
  · exact ⟨p, hold, hpbusy⟩

end Insert

theorem txn_of_kept {phase : Phase} (h : Txn conn)
    (htasks : conn'.tasks = conn.tasks.insert t phase) (hstate : conn'.state = conn.state)
    (hbusy : ∀ u, conn'.Busy u → conn.Busy u) (hnext : ∀ next, phase = .replying (some next) →
      ∃ lease, conn.state = .renewing lease ∧ Renews lease.current next) : Txn conn' := by
  refine ⟨fun hopen u v hu hv => h.one (hstate ▸ hopen) u v (hbusy u hu) (hbusy v hv),
    fun u hu => hstate ▸ h.idle u (hbusy u hu), fun u next hu => ?_⟩
  rw [hstate]
  rcases get_of_insert htasks hu with ⟨-, hp⟩ | ⟨-, hold⟩
  · exact .inr (hnext next hp.symm)
  · exact h.next u next hold

theorem txn_of_stopped {phase : Phase} (h : Txn conn) (hopen : conn.state ≠ .closed) (hbusy : conn.Busy t)
    (hphase : phase.busy = false) (htasks : conn'.tasks = conn.tasks.insert t phase) : Txn conn' := by
  have hnone : ∀ u, ¬ conn'.Busy u := by
    intro u hu
    obtain ⟨hne, hold⟩ := busy_of_stopped htasks hphase hu
    exact hne (h.one hopen u t hold hbusy)
  exact ⟨fun _ u _ hu => absurd hu (hnone u), fun u hu => absurd hu (hnone u),
    fun u next hu => absurd ⟨_, hu, rfl⟩ (hnone u)⟩

theorem txn_began {phase : Phase} {state : State} (h : Txn conn) (hphase : ∀ next, phase ≠ .replying next)
    (hbegins : Begins conn.state state) : Txn ({ conn with state }.goto t phase) := by
  have hnone : ∀ u, ¬ conn.Busy u := by
    intro u hu
    rcases h.idle u hu with ⟨lease, hold⟩ | ⟨lease, hold⟩ | hold <;> rw [hold] at hbegins <;> cases hbegins
  have honly : ∀ u, Conn.Busy ({ conn with state }.goto t phase) u → u = t := by
    rintro u ⟨p, hp, hbusy⟩
    rcases get_of_insert rfl hp with ⟨hu, -⟩ | ⟨-, hold⟩
    · exact hu
    · exact absurd ⟨p, hold, hbusy⟩ (hnone u)
  refine ⟨fun _ u v hu hv => (honly u hu).trans (honly v hv).symm, fun u _ => ?_, fun u next hu => ?_⟩
  · exact hbegins.waits.imp (⟨_, ·⟩) .inl
  · rcases get_of_insert rfl hu with ⟨-, hp⟩ | ⟨-, hold⟩
    · exact absurd hp.symm (hphase _)
    · exact absurd ⟨_, hold, rfl⟩ (hnone u)

theorem txn_of_closed (hclosed : conn.state = .closed) : Txn conn where
  one hopen := absurd hclosed hopen
  idle _ _ := .inr (.inr hclosed)
  next _ _ _ := .inl hclosed

/-- **Actions keep transactions apart.** -/
theorem txn_change (hinv : conn.Inv) (h : Txn conn) (hchange : Change active conn t act r) : Txn r.2 := by
  cases hchange with
  | moved hphase =>
    exact txn_of_kept h rfl rfl (fun u hu => (busy_of_stopped rfl hphase.1 hu).2) fun next hp =>
      absurd hphase.1 (hp ▸ nofun)
  | began _ _ hbegins => exact txn_began h (by simp) hbegins
  | claimed _ ht =>
    exact txn_of_kept h rfl rfl (fun u hu => busy_of_moved rfl ⟨_, ht, rfl⟩ hu) (by simp)
  | prepared ht hstate hrenews =>
    refine txn_of_kept h rfl rfl (fun u hu => busy_of_moved rfl ⟨_, ht, rfl⟩ hu) ?_
    rintro _ ⟨⟩
    exact ⟨_, hstate, hrenews⟩
  | built hclaimed ht =>
    have hwas := hinv.claimed _ hclaimed
    have hbusy : conn.Busy t := ⟨_, ht, rfl⟩
    refine ⟨fun _ u v hu hv => ?_, fun u _ => .inl ⟨_, rfl⟩, fun u next hu => ?_⟩
    · exact h.one (by simp [hwas]) u v (busy_of_moved rfl hbusy hu) (busy_of_moved rfl hbusy hv)
    rcases get_of_insert rfl hu with ⟨-, hp⟩ | ⟨-, hnext⟩
    · cases hp
    · rcases h.next u next hnext with hclosed | ⟨lease, hrenewing, -⟩
      · cases hwas.symm.trans hclosed
      · cases hwas.symm.trans hrenewing
  | unbuilt | released => exact txn_of_kept h rfl rfl (fun u hu => (busy_of_stopped rfl rfl hu).2) (by simp)
  | committed _ ht hstate | renewed _ ht hstate =>
    exact txn_of_stopped h (by simp [hstate]) ⟨_, ht, rfl⟩ rfl rfl
  | interrupted | closed => exact txn_of_closed rfl

/-! ### The chain of grants -/

variable {lease : GrantLease} {active : ActiveGrant} {now : ClockRead}

/-- **A lease lasts.** An action closes the connection, keeps the current grant, or renews it at a time at
which it is live. -/
theorem lease_change {slots : Finset GrantId} (hinv : conn.Inv) (h : Txn conn)
    (hlease : conn.state.lease = some lease) (hchange : Change slots conn t act r) :
    r.2.state = .closed ∨ ∃ lease', r.2.state.lease = some lease' ∧
      (lease'.current = lease.current ∨ Renews lease.current lease'.current ∧
        ∃ view, act = .reply true view ∧ lease.current.live view.now = true) := by
  cases hchange with
  | moved | claimed | prepared | unbuilt | released => exact .inr ⟨lease, hlease, .inl rfl⟩
  | began _ _ hbegins => exact .inr ⟨lease, hbegins.lease.trans hlease, .inl rfl⟩
  | built hclaimed => simp [hinv.claimed _ hclaimed, State.lease] at hlease
  | committed _ _ hstate =>
    rw [hstate] at hlease
    exact .inr ⟨lease, hlease, .inl rfl⟩
  | renewed _ ht hstate hlive =>
    rw [hstate] at hlease
    cases hlease
    rcases h.next _ _ ht with hclosed | ⟨lease', hrenewing, hrenews⟩
    · cases hstate.symm.trans hclosed
    · -- the lock was free in between, but no other transaction: the state has the lease it was prepared for
      cases hstate.symm.trans hrenewing
      exact .inr ⟨_, rfl, .inr ⟨hrenews, _, rfl, hlive⟩⟩
  | interrupted | closed => exact .inl rfl

/-- Every grant of a connection satisfies `P`: the claimed one, the current one and the prepared one. -/
structure Vouched (P : VerifiedGrant → Prop) (conn : Conn) : Prop where
  claimed : ∀ r, conn.claimed = some r → P r.2.1
  lease : ∀ lease, conn.state.lease = some lease → P lease.current.grant
  next : ∀ t next, conn.tasks.get t = some (.replying (some next)) → P next.grant

theorem Vouched.goto {P : VerifiedGrant → Prop} {phase : Phase} (h : Vouched P conn)
    (hphase : ∀ next, phase = .replying (some next) → P next.grant) : Vouched P (conn.goto t phase) where
  claimed := h.claimed
  lease := h.lease
  next u next hu := by
    rcases Table.get_insert_cases hu with ⟨-, hp⟩ | hold
    · exact hphase next hp.symm
    · exact h.next u next hold

/-- **Actions keep grants vouched for**, if what they offer is. -/
theorem vouched_change {P : VerifiedGrant → Prop} {slots : Finset GrantId} (h : Vouched P conn)
    (hoffer : ∀ verified view, act = .offer (.ok verified) view → P verified)
    (hchange : Change slots conn t act r) : Vouched P r.2 := by
  cases hchange with
  | moved hphase => exact h.goto fun next hp => absurd hphase.1 (hp ▸ nofun)
  | began _ _ hbegins =>
    exact .goto ⟨h.claimed, fun lease hlease => h.lease lease (hbegins.lease ▸ hlease), h.next⟩ (by simp)
  | claimed =>
    refine .goto ⟨?_, h.lease, h.next⟩ (by simp)
    rintro _ ⟨⟩
    exact hoffer _ _ rfl
  | prepared _ hstate _ hnext =>
    refine h.goto ?_
    rintro _ ⟨⟩
    rcases hnext with rfl | hgrant
    · exact h.lease _ (congrArg State.lease hstate)
    · exact hgrant ▸ hoffer _ _ rfl
  | built hclaimed _ hcurrent =>
    refine .goto ⟨by simp, ?_, h.next⟩ (by simp)
    rintro _ ⟨⟩
    exact hcurrent ▸ h.claimed _ hclaimed
  | unbuilt => exact .goto ⟨by simp, h.lease, h.next⟩ (by simp)
  | committed _ _ hstate =>
    refine .goto ⟨h.claimed, ?_, h.next⟩ (by simp)
    rintro _ ⟨⟩
    exact h.lease _ (congrArg State.lease hstate)
  | renewed _ ht =>
    refine .goto ⟨h.claimed, ?_, h.next⟩ (by simp)
    rintro _ ⟨⟩
    exact h.next _ _ ht
  | interrupted => exact .goto ⟨h.claimed, by simp, h.next⟩ (by simp)
  | closed =>
    show Vouched P (conn.close t)
    unfold Conn.close
    exact .goto ⟨h.claimed, by simp, h.next⟩ (by simp)
  | released => exact .goto ⟨h.claimed, h.lease, h.next⟩ (by simp)

theorem opened_change {slots : Finset GrantId} (h : conn.state ≠ .opened)
    (hchange : Change slots conn t act r) : r.2.state ≠ .opened := by
  cases hchange with
  | moved | claimed | prepared | unbuilt | released => exact h
  | began _ _ hbegins => rcases hbegins.waits with rfl | ⟨lease, rfl⟩ <;> nofun
  | built | committed | renewed | interrupted | closed => nofun

/-! ### Whole runs -/

/-- What runs keep about connection `c`. -/
structure Chain (P : VerifiedGrant → Prop) (c : ℕ) (s : World) : Prop where
  inv : s.Inv
  txn : Txn (s.conns c)
  vouched : Vouched P (s.conns c)
  required : (s.conns c).state ≠ .opened

variable {setup : Setup} {s s' : World} {a : ℕ × ℕ × Act} {acts : List (ℕ × ℕ × Act)} {c : ℕ}
  {P : VerifiedGrant → Prop}

theorem change_of_agent (h : (agent setup).step a s = some s') (c : ℕ) :
    s'.conns c = s.conns c ∨
      (a.1 = c ∧ Change s.active (s.conns c) a.2.1 a.2.2 (s'.active, s'.conns c)) := by
  obtain ⟨r, hr, rfl⟩ := agent_step h
  by_cases hc : a.1 = c
  · subst hc
    right
    simpa using change_of_step hr
  · left
    exact Function.update_of_ne (Ne.symm hc) _ _

/-- What the actions of `c` offer satisfies `P`. -/
def Offers (P : VerifiedGrant → Prop) (c : ℕ) (acts : List (ℕ × ℕ × Act)) : Prop :=
  ∀ t verified view, (c, t, Act.offer (.ok verified) view) ∈ acts → P verified

/-- The commits of `c` see what satisfies `Q`. -/
def Commits (Q : View → Prop) (c : ℕ) (acts : List (ℕ × ℕ × Act)) : Prop :=
  ∀ t view, (c, t, Act.reply true view) ∈ acts → Q view

theorem chain_step (h : Chain P c s)
    (hoffer : ∀ t verified view, a = (c, t, .offer (.ok verified) view) → P verified)
    (hstep : (agent setup).step a s = some s') : Chain P c s' := by
  have hinv := inv_step h.inv hstep
  rcases change_of_agent hstep c with hsame | ⟨hc, hchange⟩
  · exact ⟨hinv, hsame ▸ h.txn, hsame ▸ h.vouched, hsame ▸ h.required⟩
  refine ⟨hinv, txn_change (h.inv.conns c) h.txn hchange, vouched_change h.vouched ?_ hchange,
    opened_change h.required hchange⟩
  intro verified view hact
  exact hoffer a.2.1 verified view (by rw [← hc, ← hact])

theorem chain_run (h : Chain P c s) (hoffers : Offers P c acts) (hrun : (agent setup).run acts s = some s') :
    Chain P c s' := by
  have hall : Chain P c s' ∧ Offers P c [] := by
    refine Machine.run_induction (P := fun acts w => Chain P c w ∧ Offers P c acts) ?_ ⟨h, hoffers⟩ hrun
    rintro a acts w w' ⟨hw, hacts⟩ hstep
    refine ⟨chain_step hw ?_ hstep, fun t verified view hmem => hacts t verified view (mem_cons_of_mem a hmem)⟩
    rintro t verified view rfl
    exact hacts t verified view mem_cons_self
  exact hall.1

theorem chain_start (hrequired : setup.required c = true) : Chain P c (start setup) := by
  have hconn : (start setup).conns c = Conn.new true := congrArg Conn.new hrequired
  have hidle : ∀ t phase, (Conn.new true).tasks.get t ≠ some phase := fun _ _ h => nomatch h
  refine ⟨inv_start setup, ?_, ?_, ?_⟩ <;> rw [hconn]
  · exact ⟨fun _ t _ ⟨p, hp, _⟩ => absurd hp (hidle t p), fun t ⟨p, hp, _⟩ => absurd hp (hidle t p),
      fun t next hp => absurd hp (hidle t _)⟩
  · exact ⟨by simp [Conn.new], by simp [Conn.new, newState, State.lease],
      fun t next hp => absurd hp (hidle t _)⟩
  · simp [Conn.new, newState]

/-- An invariant of the current grant of `c`, up to its closing: kept by renewals at times at which the
grant is live. -/
theorem current_run {I : ActiveGrant → Prop} {Q : View → Prop} (h : Chain P c s)
    (hoffers : Offers P c acts) (hlease : (s.conns c).state.lease = some lease) (hI : I lease.current)
    (hQ : Commits Q c acts)
    (hrenew : ∀ old new view, I old → Renews old new → Q view → old.live view.now = true → I new)
    (hrun : (agent setup).run acts s = some s') :
    (s'.conns c).state = .closed ∨ ∃ lease', (s'.conns c).state.lease = some lease' ∧ I lease'.current := by
  have hall : (Chain P c s' ∧ Offers P c [] ∧ Commits Q c []) ∧ ((s'.conns c).state = .closed ∨
        ∃ lease', (s'.conns c).state.lease = some lease' ∧ I lease'.current) := by
    refine Machine.run_induction (P := fun acts w =>
      (Chain P c w ∧ Offers P c acts ∧ Commits Q c acts) ∧
      ((w.conns c).state = .closed ∨ ∃ lease', (w.conns c).state.lease = some lease' ∧ I lease'.current))
      ?_ ⟨⟨h, hoffers, hQ⟩, .inr ⟨lease, hlease, hI⟩⟩ hrun
    rintro a acts w w' ⟨⟨hw, hacts, hreplies⟩, hcase⟩ hstep
    refine ⟨⟨chain_step hw ?_ hstep, fun t verified view hmem =>
      hacts t verified view (mem_cons_of_mem a hmem), fun t view hmem =>
      hreplies t view (mem_cons_of_mem a hmem)⟩, ?_⟩
    · rintro t verified view rfl
      exact hacts t verified view mem_cons_self
    rcases change_of_agent hstep c with hsame | ⟨hc, hchange⟩
    · rwa [hsame]
    rcases hcase with hclosed | ⟨mid, hmid, hImid⟩
    · exact .inl (closed_step hw.inv hclosed hstep).1
    rcases lease_change (hw.inv.conns c) hw.txn hmid hchange with
      hclosed | ⟨last, hlast, heq | ⟨hrenews, view, hact, hlive⟩⟩
    · exact .inl hclosed
    · exact .inr ⟨last, hlast, by rwa [heq]⟩
    · have hmem : a = (c, a.2.1, Act.reply true view) := by rw [← hc, ← hact]
      exact .inr ⟨last, hlast, hrenew _ _ view hImid hrenews
        (hreplies a.2.1 view (by rw [← hmem]; exact mem_cons_self)) hlive⟩
  exact hall.2

/-- **The grants of a connection are a chain of renewals.** -/
theorem renews_run {lease lease' : GrantLease} (h : Chain P c s) (hoffers : Offers P c acts)
    (hlease : (s.conns c).state.lease = some lease) (hrun : (agent setup).run acts s = some s')
    (hlease' : (s'.conns c).state.lease = some lease') : Renews lease.current lease'.current := by
  rcases current_run (I := fun active => Renews lease.current active) h hoffers hlease
      (.refl _) (fun _ _ _ => trivial) (fun old new view hold hrenews _ _ => hold.trans hrenews) hrun with
    hclosed | ⟨last, hlast, hrenews⟩
  · simp [hclosed] at hlease'
  · cases hlast.symm.trans hlease'
    exact hrenews

/-- **An expiry that lasts.** If the current grant is dead at all times at which the connection commits,
`scope` does not succeed at such a time. -/
theorem expired_run {Q : ClockRead → Prop} (h : Chain P c s)
    (hoffers : Offers P c acts) (hlease : (s.conns c).state.lease = some lease)
    (hdead : ∀ now, Q now → lease.current.live now = false)
    (hlater : Commits (fun view => Q view.now) c acts) (hrun : (agent setup).run acts s = some s') (view : View)
    (grant : VerifiedGrant) (hview : Q view.now) : scope (s'.conns c).state view ≠ .ok (some grant) := by
  intro hscope
  obtain ⟨lease', hlease', -, hlive, -⟩ := scope_eq_ok hscope
  -- it is never replaced
  rcases current_run (I := fun active => active = lease.current) h hoffers
      hlease rfl hlater
      (fun old new view hold _ hview hlive => by
        subst hold
        cases (hdead view.now hview).symm.trans hlive) hrun with
    hclosed | ⟨last, hlast, hsame⟩
  · simp [hclosed] at hlease'
  · cases hlast.symm.trans hlease'
    rw [hsame, hdead _ hview] at hlive
    cases hlive

/-! ### The two clocks -/

/-- A reading whose continuous clock is not behind `past`. -/
def ContinuousFrom (past : Reading) (now : ClockRead) : Prop :=
  ∀ r, now = .ok r → past.continuous ≤ r.continuous

/-- A reading whose wall clock is not behind `past`. -/
def WallFrom (past : Reading) (now : ClockRead) : Prop :=
  ∀ r, now = .ok r → past.wall ≤ r.wall

theorem live_eq_true (h : active.live now = true) :
    ∃ r, now = .ok r ∧ active.grant.liveAt r.wall.asSecs = true ∧ active.validity.validAt r = true := by
  cases now with
  | error e => cases h
  | ok r =>
    have hboth : (active.grant.liveAt r.wall.asSecs && active.validity.validAt r) = true := h
    rw [Bool.and_eq_true] at hboth
    exact ⟨r, rfl, hboth⟩

theorem dead_of_deadline {past : Reading} (h : active.validity.deadline ≤ past.continuous)
    (hnow : ContinuousFrom past now) : active.live now = false := by
  by_contra hlive
  obtain ⟨r, hr, -, hvalid⟩ := live_eq_true (by simpa using hlive)
  obtain ⟨-, -, -, -, -, hlt⟩ := of_decide_eq_true hvalid
  have hle := hnow r hr
  rw [Duration.le_def] at h hle
  rw [Duration.lt_def] at hlt
  omega

theorem dead_of_expiresAt {past : Reading} (h : active.grant.payload.expiresAt ≤ past.wall.asSecs)
    (hnow : WallFrom past now) : active.live now = false := by
  by_contra hlive
  obtain ⟨r, hr, hgrant, -⟩ := live_eq_true (by simpa using hlive)
  unfold VerifiedGrant.liveAt at hgrant
  simp only [Bool.and_eq_true, decide_eq_true_eq] at hgrant
  have hmono := Duration.asSecs_mono (hnow r hr)
  exact absurd (UInt64.le_trans h hmono) (UInt64.not_le.mpr hgrant.2)

/-! ### What `scope` returns -/

/-- What the actions of `c` offer was verified by `authorize`. -/
def Genuine (x : Crates) (texts : Texts) (policy : AuthorizePolicy) (remote audience : EndpointKey) (c : ℕ)
    (acts : List (ℕ × ℕ × Act)) : Prop :=
  ∀ t verified view, (c, t, Act.offer verified view) ∈ acts →
    ∃ grant now, verified = admitted x texts policy remote audience grant now

theorem Genuine.offers {x : Crates} {texts : Texts} {policy : AuthorizePolicy} {remote audience : EndpointKey}
    (h : Genuine x texts policy remote audience c acts) :
    Offers (Trusted x texts policy remote audience) c acts := by
  intro t verified view hmem
  obtain ⟨grant, now, heq⟩ := h t _ view hmem
  exact trusted_of_admitted heq.symm

/-- **Authorization does not widen.** For a connection `c` that requires grants, after any run whose
messages are verified by `authorize`, with any clocks and any revocations:

* `scope` returns only a grant that a trusted issuer signed for this peer and this device, with the pinned
  claims, live on both clocks and not in the fresh denylist it looked at;
* later grants have the same id, services, constraints, tenant and policy revision, and revision and end do
  not decrease;
* the same payload has the same deadline, whatever retries there were;
* once the continuous clock has reached the deadline of the current lease, or the wall clock the end of its
  grant, no renewal makes `scope` succeed while that clock does not go back. -/
theorem grant_scope (x : Crates) (texts : Texts) (policy : AuthorizePolicy) (remote : EndpointKey)
    (setup : Setup) (c : ℕ) (acts : List (ℕ × ℕ × Act)) (s : World) (hrequired : setup.required c = true)
    (hgenuine : Genuine x texts policy remote (setup.audience c) c acts)
    (hrun : (agent setup).run acts (start setup) = some s) :
    (∀ view result, scope (s.conns c).state view = .ok result →
      ∃ grant lease now, result = some grant ∧ (s.conns c).state.lease = some lease ∧
        lease.current.grant = grant ∧ Trusted x texts policy remote (setup.audience c) grant ∧
        view.now = .ok now ∧ grant.liveAt now.wall.asSecs = true ∧ lease.current.validity.validAt now = true ∧
        view.revocations.fresh view.nowFresh = true ∧ view.revocations.contains grant.id = false) ∧
    (∀ acts' s', Genuine x texts policy remote (setup.audience c) c acts' →
      (agent setup).run acts' s = some s' →
      (∀ view view' grant grant', scope (s.conns c).state view = .ok (some grant) →
        scope (s'.conns c).state view' = .ok (some grant') →
        grant'.id = grant.id ∧ grant'.payload.services = grant.payload.services ∧
          grant'.payload.constraints = grant.payload.constraints ∧
          grant'.payload.tenant = grant.payload.tenant ∧
          grant'.payload.policyRevision = grant.payload.policyRevision ∧
          grant.payload.revision ≤ grant'.payload.revision ∧
          grant.payload.expiresAt ≤ grant'.payload.expiresAt) ∧
      (∀ lease lease', (s.conns c).state.lease = some lease → (s'.conns c).state.lease = some lease' →
        lease'.current.grant.payload = lease.current.grant.payload →
        lease'.current.validity.deadline = lease.current.validity.deadline) ∧
      ∀ lease past, (s.conns c).state.lease = some lease →
        (lease.current.validity.deadline ≤ past.continuous →
          Commits (fun view => ContinuousFrom past view.now) c acts' →
          ∀ view grant, ContinuousFrom past view.now → scope (s'.conns c).state view ≠ .ok (some grant)) ∧
        (lease.current.grant.payload.expiresAt ≤ past.wall.asSecs →
          Commits (fun view => WallFrom past view.now) c acts' →
          ∀ view grant, WallFrom past view.now → scope (s'.conns c).state view ≠ .ok (some grant))) := by
  have hchain : Chain (Trusted x texts policy remote (setup.audience c)) c s :=
    chain_run (chain_start hrequired) hgenuine.offers hrun
  refine ⟨?_, fun acts' s' hgenuine' hrun' => ⟨?_, ?_, fun lease past hlease => ⟨?_, ?_⟩⟩⟩
  · intro view result hscope
    cases result with
    | none => exact absurd hscope (scope_ne_none hchain.required)
    | some grant =>
      obtain ⟨lease, hlease, rfl, hlive, hfresh, hfree⟩ := scope_eq_ok hscope
      obtain ⟨now, hnow, hgrant, hvalid⟩ := live_eq_true hlive
      exact ⟨_, lease, now, rfl, hlease, rfl, hchain.vouched.lease lease hlease, hnow, hgrant, hvalid,
        hfresh, hfree⟩
  · intro view view' grant grant' hscope hscope'
    obtain ⟨lease, hlease, rfl, -⟩ := scope_eq_ok hscope
    obtain ⟨lease', hlease', rfl, -⟩ := scope_eq_ok hscope'
    exact (renews_run hchain hgenuine'.offers hlease hrun' hlease').keeps
  · intro lease lease' hlease hlease' hpayload
    rw [(renews_run hchain hgenuine'.offers hlease hrun' hlease').eq_of_payload hpayload]
  · intro hdeadline hlater
    exact expired_run hchain hgenuine'.offers hlease (fun _ => dead_of_deadline hdeadline) hlater hrun'
  · intro hexpires hlater
    exact expired_run hchain hgenuine'.offers hlease (fun _ => dead_of_expiresAt hexpires) hlater hrun'

/-! ### A wall clock that goes back -/

/-- A session of one peer with the agent, in the layout of version 3: its revision and its end. -/
def sessionGrant (revision expiresAt : UInt64) : Grant where
  payload := grantHeadCodec.encode (3, revision, repeated 32 1, repeated 32 2, repeated 32 7, repeated 16 4,
    [.ping], 0, expiresAt) ++ List.replicate 6 0
  signature := List.replicate 64 1

/-- An agent that trusts one issuer and pins nothing. -/
def sessionPolicy : AuthorizePolicy := ⟨{repeated 32 1}, .fromSecs 1000, none, none⟩

/-- No texts of other crates. -/
def noTexts : Texts := ⟨fun _ => [], fun _ => []⟩

/-- Crates that know one signature, of the issuer of the session. -/
def sessionCrates : Crates where
  validKey _ := true
  verifyStrict key _ signature := key = repeated 32 1 ∧ signature = repeated 64 1
  verifyingKey _ := repeated 32 1
  sign _ _ := repeated 64 1
  blake3 _ := repeated 32 9
  parseUrl _ := none
  parseIp _ := none
  parseJson _ := none

/-- What `authorize` makes of a session grant at second `now`. -/
def sessionOffer (revision expiresAt now : UInt64) : Except GrantError VerifiedGrant :=
  admitted sessionCrates noTexts sessionPolicy (repeated 32 2) (repeated 32 7) (sessionGrant revision expiresAt) now

/-- Both clocks, with an agent that has its own empty denylist and an open connection. -/
def clockView (wall continuous : UInt64) : View :=
  ⟨false, false, .ok ⟨repeated 16 0, .fromSecs wall, .fromSecs continuous⟩,
    .ok ⟨repeated 16 0, .fromSecs wall, .fromSecs continuous⟩,
    { RevocationPolicy.default with isLocal := true }, .error .busy, RevocationPolicy.default⟩

/-- A grant until second 100 is accepted at second 10. -/
def sessionStart : List (ℕ × ℕ × Act) :=
  [(0, 0, .authorize false), (0, 0, .offer (sessionOffer 1 100 10) (clockView 10 10)), (0, 0, .build),
    (0, 0, .reply true (clockView 10 10)), (0, 0, .finish true)]

/-- It is renewed until second 150, on a wall clock at second 20. -/
def sessionRenewal : List (ℕ × ℕ × Act) :=
  [(0, 1, .authorize true), (0, 1, .offer (sessionOffer 2 150 20) (clockView 20 30)),
    (0, 1, .reply true (clockView 20 30)), (0, 1, .finish true)]

/-- The world with the first grant. -/
def sessionWorld : World := ((agent twoConnections).run sessionStart (start twoConnections)).getD (start twoConnections)

/-- The world with its renewal. -/
def renewedWorld : World := ((agent twoConnections).run sessionRenewal sessionWorld).getD (start twoConnections)

theorem run_sessionStart :
    (agent twoConnections).run sessionStart (start twoConnections) = some sessionWorld :=
  Machine.run_eq_some_getD (by decide +kernel)

theorem run_sessionRenewal : (agent twoConnections).run sessionRenewal sessionWorld = some renewedWorld :=
  Machine.run_eq_some_getD (by decide +kernel)

/-- Whether `scope` returns a grant of a revision. -/
def returns (revision : UInt64) : Except ScopeError (Option VerifiedGrant) → Bool
  | .ok (some grant) => grant.payload.revision = revision
  | _ => false

theorem genuine_sessionStart :
    Genuine sessionCrates noTexts sessionPolicy (repeated 32 2) (repeated 32 7) 0 sessionStart := by
  intro t verified view hmem
  simp only [sessionStart, mem_cons, Prod.mk.injEq, reduceCtorEq, and_false, false_or, or_false,
    Act.offer.injEq, not_mem_nil] at hmem
  obtain ⟨-, -, hverified, -⟩ := hmem
  exact ⟨sessionGrant 1 100, 10, hverified⟩

theorem genuine_sessionRenewal :
    Genuine sessionCrates noTexts sessionPolicy (repeated 32 2) (repeated 32 7) 0 sessionRenewal := by
  intro t verified view hmem
  simp only [sessionRenewal, mem_cons, Prod.mk.injEq, reduceCtorEq, and_false, false_or, or_false,
    Act.offer.injEq, not_mem_nil] at hmem
  obtain ⟨-, -, hverified, -⟩ := hmem
  exact ⟨sessionGrant 2 150, 20, hverified⟩

theorem exists_of_returns {revision : UInt64} {result : Except ScopeError (Option VerifiedGrant)}
    (h : returns revision result = true) :
    ∃ grant, result = .ok (some grant) ∧ grant.payload.revision = revision := by
  unfold returns at h
  split at h
  · exact ⟨_, rfl, of_decide_eq_true h⟩
  · cases h

theorem grant_scope_session :
    (∃ grant, scope (sessionWorld.conns 0).state (clockView 10 10) = .ok (some grant) ∧
      Trusted sessionCrates noTexts sessionPolicy (repeated 32 2) (repeated 32 7) grant) ∧
    ∃ grant grant', scope (sessionWorld.conns 0).state (clockView 10 10) = .ok (some grant) ∧
      scope (renewedWorld.conns 0).state (clockView 21 31) = .ok (some grant') ∧
      grant'.id = grant.id ∧ grant.payload.revision = 1 ∧ grant'.payload.revision = 2 := by
  obtain ⟨hone, hlater⟩ := grant_scope sessionCrates noTexts sessionPolicy (repeated 32 2) twoConnections 0
    sessionStart sessionWorld rfl genuine_sessionStart run_sessionStart
  have hfirst : returns 1 (scope (sessionWorld.conns 0).state (clockView 10 10)) = true := by decide +kernel
  have hsecond : returns 2 (scope (renewedWorld.conns 0).state (clockView 21 31)) = true := by decide +kernel
  obtain ⟨grant, hgrant, hrevision⟩ := exists_of_returns hfirst
  obtain ⟨grant', hgrant', hrevision'⟩ := exists_of_returns hsecond
  obtain ⟨hsame, -⟩ := hlater sessionRenewal renewedWorld genuine_sessionRenewal run_sessionRenewal
  obtain ⟨returned, -, -, heq, -, -, htrusted, -⟩ := hone (clockView 10 10) (some grant) hgrant
  cases heq
  exact ⟨⟨grant, hgrant, htrusted⟩, grant, grant', hgrant, hgrant',
    (hsame _ _ grant grant' hgrant hgrant').1, hrevision, hrevision'⟩

/-- **An expiry that does not last.** At a wall clock of second 200 `scope` fails because the grant has
expired. The clock goes back, the renewal is accepted, and `scope` returns the renewed grant. -/
theorem scope_revives :
    Genuine sessionCrates noTexts sessionPolicy (repeated 32 2) (repeated 32 7) 0
    (sessionStart ++ sessionRenewal) ∧
    (agent twoConnections).run sessionStart (start twoConnections) = some sessionWorld ∧
    returns 1 (scope (sessionWorld.conns 0).state (clockView 10 10)) = true ∧
    scope (sessionWorld.conns 0).state (clockView 200 20) = .error .expired ∧
    (agent twoConnections).run sessionRenewal sessionWorld = some renewedWorld ∧
    returns 2 (scope (renewedWorld.conns 0).state (clockView 21 31)) = true := by
  refine ⟨?_, run_sessionStart, by decide +kernel, ?_, run_sessionRenewal, by decide +kernel⟩
  · intro t verified view hmem
    rcases mem_append.mp hmem with hfirst | hsecond
    · exact genuine_sessionStart t verified view hfirst
    · exact genuine_sessionRenewal t verified view hsecond
  have hexpired : (match scope (sessionWorld.conns 0).state (clockView 200 20) with
      | .error why => decide (why = .expired)
      | .ok _ => false) = true := by decide +kernel
  split at hexpired
  · next why heq =>
    rw [heq, of_decide_eq_true hexpired]
  · cases hexpired

end Rds.Agent.Authz
