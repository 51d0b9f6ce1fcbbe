import Rds.Agent.Authz

/-!
# What an action does to a connection

`Change` lists, once, all that an action of a task does to its connection and to `active_grants`, with what
the code has checked before. `change_of_step` is the one place where the step function is taken apart; that
slots are exclusive and that authorization does not widen are both read off `Change`.
-/

namespace Rds.Agent.Authz

open Framework Discovery

variable {view : View} {state : State} {conn : Conn} {active : Finset GrantId} {t : ℕ} {act : Act}
  {renewal : Bool}

@[simp] theorem State.lease_closed : State.closed.lease = none := rfl

/-! ### Renewals -/

/-- A later grant of the same session and scope. -/
def Continues (old new : VerifiedGrant) : Prop :=
  new.id = old.id ∧ new.payload.services = old.payload.services ∧
    new.payload.constraints = old.payload.constraints ∧ new.payload.tenant = old.payload.tenant ∧
    new.payload.policyRevision = old.payload.policyRevision ∧
    old.payload.revision < new.payload.revision ∧ old.payload.expiresAt < new.payload.expiresAt

/-- The same grant with the same deadline, or one that continues it. -/
def Renews (old new : ActiveGrant) : Prop := new = old ∨ Continues old.grant new.grant

theorem new_eq_ok {verified : VerifiedGrant} {now : Reading} {current : ActiveGrant}
    (h : ActiveGrant.new verified now = .ok current) : current.grant = verified := by
  obtain ⟨-, h⟩ := ite_throw_eq_ok.mp h
  split at h <;> cases h
  rfl

theorem continues_of_permitsRenewal {old new : VerifiedGrant} (h : old.permitsRenewal new = .ok true) :
    Continues old new := by
  unfold VerifiedGrant.permitsRenewal at h
  split at h
  · cases h
  obtain ⟨hall, -⟩ := ite_throw_eq_ok.mp h
  simp only [not_or, not_not] at hall
  obtain ⟨hid, hservices, hconstraints, htenant, hpolicy, hrevision, -, hexpires⟩ := hall
  exact ⟨hid.symm, hservices.symm, hconstraints.symm, htenant.symm, hpolicy.symm,
    UInt64.not_le.mp hrevision, UInt64.not_le.mp hexpires⟩

/-- **What is prepared** renews the grant of the state: it is the current one, or the new one. -/
theorem prepareRenewal_eq_ok {verified : VerifiedGrant} {next : ActiveGrant}
    (h : prepareRenewal state view verified = .ok next) :
    ∃ lease, state = .renewing lease ∧ Renews lease.current next ∧
      (next = lease.current ∨ next.grant = verified) := by
  unfold prepareRenewal at h
  split at h
  · next lease =>
    split at h
    · cases h
    next now _ =>
    obtain ⟨-, h⟩ := ite_throw_eq_ok.mp h
    split at h
    · cases h
    · next hpermit =>
      have hgrant := new_eq_ok h
      exact ⟨lease, rfl, .inr (hgrant ▸ continues_of_permitsRenewal hpermit), .inr hgrant⟩
    · cases h
      exact ⟨lease, rfl, .inl rfl, .inl rfl⟩
  · cases h

/-! ### The changes -/

/-- The task is between `begin` and its end. -/
def Phase.busy : Phase → Bool
  | .verifying _ | .installing | .replying _ => true
  | _ => false

/-- The task has run `close`. -/
def Phase.closer : Phase → Bool
  | .closing | .ended => true
  | _ => false

/-- `begin` and `begin_renewal`, where they succeed. -/
inductive Begins : State → State → Prop
  | first : Begins .pending (.authorizing none)
  | renewal (lease : GrantLease) : Begins (.granted lease) (.renewing lease)

theorem Begins.lease {state' : State} (h : Begins state state') : state'.lease = state.lease := by
  cases h <;> rfl

theorem Begins.waits {state' : State} (h : Begins state state') :
    state' = .authorizing none ∨ ∃ lease, state' = .renewing lease := by
  cases h with
  | first => exact .inl rfl
  | renewal lease => exact .inr ⟨lease, rfl⟩

/-- What action `act` of task `t` does to `active_grants` and to its connection. -/
inductive Change (active : Finset GrantId) (conn : Conn) (t : ℕ) : Act → Finset GrantId × Conn → Prop
  /-- The task fails before it has changed anything, or ends. -/
  | moved {act : Act} {phase : Phase} (hphase : phase.busy = false ∧ phase.closer = false)
      (ht : conn.tasks.get t ≠ some .closing) : Change active conn t act (active, conn.goto t phase)
  | began {renewal : Bool} {state : State} (hfree : conn.claimed = none) (ht : conn.tasks.get t = none)
      (hbegins : Begins conn.state state) : Change active conn t (.authorize renewal)
        (active, { conn with state }.goto t (.verifying renewal))
  | claimed {renewal : Bool} {verified : VerifiedGrant} {view : View} {now : Reading}
      (hfree : conn.claimed = none) (ht : conn.tasks.get t = some (.verifying renewal))
      (hstate : conn.state = .authorizing none) (hid : verified.id ∉ active) :
      Change active conn t (.offer (.ok verified) view)
        (insert verified.id active, { conn with claimed := some (t, verified, now) }.goto t .installing)
  | prepared {renewal : Bool} {verified : VerifiedGrant} {view : View} {lease : GrantLease}
      {next : ActiveGrant} (ht : conn.tasks.get t = some (.verifying renewal))
      (hstate : conn.state = .renewing lease) (hrenews : Renews lease.current next)
      (hnext : next = lease.current ∨ next.grant = verified) :
      Change active conn t (.offer (.ok verified) view) (active, conn.goto t (.replying (some next)))
  | built {verified : VerifiedGrant} {now : Reading} {current : ActiveGrant}
      (hclaimed : conn.claimed = some (t, verified, now)) (ht : conn.tasks.get t = some .installing)
      (hcurrent : current.grant = verified) : Change active conn t .build
        (active, { conn with
          state := .authorizing (some ⟨current, verified.id⟩), claimed := none }.goto t (.replying none))
  | unbuilt {verified : VerifiedGrant} {now : Reading} (hclaimed : conn.claimed = some (t, verified, now))
      (ht : conn.tasks.get t = some .installing) : Change active conn t .build
        (active.erase verified.id, { conn with claimed := none }.goto t .unwinding)
  | committed {view : View} {lease : GrantLease} {next : Option ActiveGrant} (hfree : conn.claimed = none)
      (ht : conn.tasks.get t = some (.replying next)) (hstate : conn.state = .authorizing (some lease))
      (hlive : lease.current.live view.now = true) : Change active conn t (.reply true view)
        (active, { conn with state := .granted lease }.goto t .finishing)
  | renewed {view : View} {lease : GrantLease} {next : ActiveGrant} (hfree : conn.claimed = none)
      (ht : conn.tasks.get t = some (.replying (some next))) (hstate : conn.state = .renewing lease)
      (hlive : lease.current.live view.now = true) : Change active conn t (.reply true view)
        (active, { conn with state := .granted { lease with current := next } }.goto t .finishing)
  | interrupted {view : View} {next : Option ActiveGrant} (hfree : conn.claimed = none)
      (ht : conn.tasks.get t = some (.replying next)) : Change active conn t (.reply true view)
        (Conn.dropLease active conn.state.lease, { conn with state := .closed }.goto t .unwinding)
  | closed (hfree : conn.claimed = none) (ht : conn.tasks.get t = some .unwinding) :
      Change active conn t .close (active, conn.close t)
  | released (ht : conn.tasks.get t = some .closing) : Change active conn t .release (conn.release active t)

theorem change_authorize (hfree : conn.claimed = none) (ht : conn.tasks.get t = none) (renewal : Bool) :
    Change active conn t (.authorize renewal) (active, conn.authorize t renewal) := by
  have hnot : conn.tasks.get t ≠ some .closing := by simp [ht]
  obtain ⟨state, claimed, dropping, tasks⟩ := conn
  cases renewal with
  | false =>
    cases state with
    | pending => exact .began hfree ht .first
    | opened | authorizing lease | granted lease | renewing lease | closed => exact .moved ⟨rfl, rfl⟩ hnot
  | true =>
    cases state with
    | granted lease => exact .began hfree ht (.renewal lease)
    | pending | opened | authorizing lease | renewing lease | closed => exact .moved ⟨rfl, rfl⟩ hnot

theorem installChecks_eq_ok {audience : EndpointKey} {verified : VerifiedGrant} {now : Reading}
    (h : installChecks audience state view verified = .ok now) : state = .authorizing none := by
  unfold installChecks at h
  split at h
  · rfl
  · cases h

theorem change_offer {audience : EndpointKey} {verified : Except GrantError VerifiedGrant}
    (hfree : conn.claimed = none) (ht : conn.tasks.get t = some (.verifying renewal)) :
    Change active conn t (.offer verified view) (conn.offer audience active t renewal verified view) := by
  have hfailed : Change active conn t (.offer verified view) (active, conn.goto t .unwinding) :=
    .moved ⟨rfl, rfl⟩ (by simp [ht])
  unfold Conn.offer
  cases verified with
  | error e => exact hfailed
  | ok verified =>
    dsimp only
    split
    · split
      · next hprepare =>
        obtain ⟨lease, hstate, hrenews, hnext⟩ := prepareRenewal_eq_ok hprepare
        exact .prepared ht hstate hrenews hnext
      · exact hfailed
    split
    · exact hfailed
    next hchecks =>
    split
    · exact hfailed
    · next hclaim =>
      obtain ⟨hid, heq⟩ := ite_throw_eq_ok.mp hclaim
      cases heq
      exact .claimed hfree ht (installChecks_eq_ok hchecks) hid

theorem change_build {r : Finset GrantId × Conn} (ht : conn.tasks.get t = some .installing)
    (hown : conn.claimed.any (·.1 = t) = true) (h : conn.build active = some r) :
    Change active conn t .build r := by
  unfold Conn.build at h
  split at h
  · cases h
  next u verified now hclaimed =>
  have hu : u = t := by simpa [hclaimed] using hown
  subst hu
  split at h <;> cases h
  · next hnew => exact .built hclaimed ht (new_eq_ok hnew)
  · exact .unbuilt hclaimed ht

/-- The commits keep the lease, or close the connection and drop it. -/
theorem change_settle {next : Option ActiveGrant} (hfree : conn.claimed = none)
    (ht : conn.tasks.get t = some (.replying next)) :
    Change active conn t (.reply true view) (conn.settle active t next view) := by
  have hdropped : ∀ lease, conn.state.lease = lease → Change active conn t (.reply true view)
      (Conn.dropLease active lease, { conn with state := .closed }.goto t .unwinding) := by
    rintro _ rfl
    exact .interrupted hfree ht
  unfold Conn.settle Conn.conclude
  cases next with
  | none =>
    unfold commit
    cases hstate : conn.state with
    | authorizing lease =>
      cases lease with
      | none => exact hdropped _ (congrArg State.lease hstate)
      | some lease =>
        dsimp only
        split_ifs with hcheck
        · simp only [Bool.and_eq_true] at hcheck
          exact .committed hfree ht hstate hcheck.1.2
        · exact hdropped _ (congrArg State.lease hstate)
    | opened | pending | granted lease | renewing lease | closed => exact hdropped _ (congrArg State.lease hstate)
  | some next =>
    unfold commitRenewal
    cases hstate : conn.state with
    | renewing lease =>
      dsimp only
      split_ifs with hcheck hafter
      · exact hdropped _ (congrArg State.lease hstate)
      · simp only [Bool.and_eq_true] at hcheck
        exact .renewed hfree ht hstate hcheck.1.1.2
      · exact hdropped _ (congrArg State.lease hstate)
    | opened | pending | authorizing lease | granted lease | closed => exact hdropped _ (congrArg State.lease hstate)

/-- **What an action changes.** -/
theorem change_of_step {audience : EndpointKey} {r : Finset GrantId × Conn}
    (hstep : conn.step audience t act active = some r) : Change active conn t act r := by
  have hlocked : ∀ {r' : Finset GrantId × Conn}, (if conn.unlocked then some r' else none) = some r →
      conn.claimed = none ∧ r' = r := by
    intro r' h
    obtain ⟨hfree, heq⟩ := Option.ite_none_right_eq_some.mp h
    exact ⟨Option.isNone_iff_eq_none.mp hfree, Option.some.inj heq⟩
  unfold Conn.step at hstep
  split at hstep
  · next ht =>
    obtain ⟨hfree, rfl⟩ := hlocked hstep
    exact change_authorize hfree ht _
  · next ht =>
    obtain ⟨hfree, rfl⟩ := hlocked hstep
    exact change_offer hfree ht
  · next ht =>
    obtain ⟨hown, hbuild⟩ := Option.ite_none_right_eq_some.mp hstep
    exact change_build ht hown hbuild
  · next sent view next ht =>
    cases sent with
    | false =>
      cases hstep
      exact .moved ⟨rfl, rfl⟩ (by simp [ht])
    | true =>
      obtain ⟨hfree, rfl⟩ := hlocked hstep
      exact change_settle hfree ht
  · next ok ht =>
    cases hstep
    exact .moved (by cases ok <;> exact ⟨rfl, rfl⟩) (by simp [ht])
  · next ht =>
    cases hstep
    exact .moved ⟨rfl, rfl⟩ (by simp [ht])
  · next ht =>
    obtain ⟨hfree, rfl⟩ := hlocked hstep
    exact .closed hfree ht
  · next ht =>
    cases hstep
    exact .released ht
  · cases hstep

end Rds.Agent.Authz
