import Rds.Discovery.Clock
import Rds.Framework.Machine

/-!
# Who owns the revocation feed

The agent keeps one watched value with the revoked grants and their freshness
(`rds-agent/src/revocations.rs`). A feed claims it with a token of its own, publishes snapshots with a
lease, and gives it up when it is dropped. An embedder may take the authority itself, or demand a managed
feed. Tasks and guards of feeds that lost the value may still run.

Each operation is one atomic change of the value. `feed_ownership` is about every list of operations of
any owners, hence about every interleaving: an owner that is not current changes nothing, and the value
is fresh only through local authority or a lease that the owner of the last claim published since.
-/

namespace Rds.Agent

open Framework Discovery

/-- `GrantId`. -/
abbrev GrantId := { b : Bytes // b.length = 32 }

/-- What a snapshot stamp says: the epoch of its authority, and its revision. -/
structure SnapshotStamp where
  epoch : UInt64
  revision : UInt64
  deriving DecidableEq

/-- `RevocationPolicy`. An owner is the number of its token. -/
structure RevocationPolicy where
  ids : Finset GrantId
  lease : Option Lease
  revision : Option (UInt64 × UInt64)
  isLocal : Bool
  owner : Option ℕ
  deriving DecidableEq

namespace RevocationPolicy

/-- `RevocationPolicy::default`. -/
def default : RevocationPolicy := ⟨∅, none, none, false, none⟩

/-- `RevocationPolicy::contains`. -/
def contains (self : RevocationPolicy) (id : GrantId) : Bool := id ∈ self.ids

/-- `RevocationPolicy::fresh`, with what `Reading::now` gives. -/
def fresh (self : RevocationPolicy) (now : ClockRead) : Bool :=
  self.isLocal || match now with
    | .ok now => self.lease.any (·.validAt now)
    | .error _ => false

/-- `AgentPolicy::use_local_revocations`. -/
def useLocalRevocations (self : RevocationPolicy) : RevocationPolicy :=
  { self with isLocal := true, owner := none, revision := none }

/-- `AgentPolicy::require_managed_revocations`. -/
def requireManagedRevocations (self : RevocationPolicy) : RevocationPolicy :=
  { self with isLocal := false, lease := none, owner := none, revision := none }

/-- `AgentPolicy::claim_feed`. -/
def claimFeed (self : RevocationPolicy) (owner : ℕ) : Except DiscoveryError Unit × RevocationPolicy :=
  if self.owner.isSome then (throw .busy, self)
  else (pure (), { self with isLocal := false, lease := none, owner := some owner, revision := none })

/-- `AgentPolicy::update_feed`. -/
def updateFeed (self : RevocationPolicy) (owner : ℕ) (update : RevocationPolicy → RevocationPolicy) :
    RevocationPolicy :=
  if self.owner.any (· = owner) then update self else self

/-- `AgentPolicy::publish_revocations`. -/
def publishRevocations (self : RevocationPolicy) (owner : ℕ) (ids : Finset GrantId) (lease : Lease)
    (stamp : SnapshotStamp) : RevocationPolicy :=
  self.updateFeed owner fun policy =>
    { policy with ids, lease := some lease, revision := some (stamp.epoch, stamp.revision) }

/-- What the task of a feed does before it gives up. -/
def failFeed (self : RevocationPolicy) (owner : ℕ) : RevocationPolicy :=
  self.updateFeed owner fun policy => { policy with lease := none }

/-- `RevocationFeed::drop`. -/
def dropFeed (self : RevocationPolicy) (owner : ℕ) : RevocationPolicy :=
  self.updateFeed owner fun policy => { policy with lease := none, owner := none, revision := none }

/-- `AgentPolicy::revoke`. -/
def revoke (self : RevocationPolicy) (id : GrantId) : RevocationPolicy :=
  { self with ids := insert id self.ids }

/-- `AgentPolicy::replace_denylist`. -/
def replaceDenylist (self : RevocationPolicy) (ids : Finset GrantId) : RevocationPolicy :=
  { self with ids }

/-- `AgentPolicy::revocations_permit`. -/
def revocationsPermit (self : RevocationPolicy) (id : GrantId) (now : ClockRead) :
    Bool :=
  self.fresh now && !self.contains id

end RevocationPolicy

/-! ### Operations -/

/-- One change of the value. -/
inductive Op where
  | useLocal
  | requireManaged
  | claim (owner : ℕ)
  | publish (owner : ℕ) (ids : Finset GrantId) (lease : Lease) (stamp : SnapshotStamp)
  | fail (owner : ℕ)
  | drop (owner : ℕ)
  | revoke (id : GrantId)
  | replace (ids : Finset GrantId)

namespace Op

/-- The owner that makes an update. -/
def updater : Op → Option ℕ
  | .publish owner _ _ _ | .fail owner | .drop owner => some owner
  | .useLocal | .requireManaged | .claim _ | .revoke _ | .replace _ => none

/-- Carry an operation out. -/
def apply (policy : RevocationPolicy) : Op → RevocationPolicy
  | .useLocal => policy.useLocalRevocations
  | .requireManaged => policy.requireManagedRevocations
  | .claim owner => (policy.claimFeed owner).2
  | .publish owner ids lease stamp => policy.publishRevocations owner ids lease stamp
  | .fail owner => policy.failFeed owner
  | .drop owner => policy.dropFeed owner
  | .revoke id => policy.revoke id
  | .replace ids => policy.replaceDenylist ids

end Op

/-- The value after a list of operations. -/
def policyAfter (ops : List Op) : RevocationPolicy := ops.foldl Op.apply .default

/-! ### The feed -/

/-- How one poll of the task of a feed ends. -/
inductive Polled where
  /-- The server has no snapshot, or it was not reached. -/
  | missing
  /-- The snapshot was refused, and the store is healthy. -/
  | rejected
  /-- The store failed, or the job of the store did. -/
  | failed
  /-- The store has no snapshot. -/
  | unchanged
  /-- The store has a snapshot. -/
  | snapshot (ids : Finset GrantId) (lease : Lease) (stamp : SnapshotStamp)

/-- The loop of the task of `watch_revocations`. -/
def taskOps (owner : ℕ) : List Polled → List Op
  | [] => []
  | .failed :: _ => [.fail owner]
  | .snapshot ids lease stamp :: polls => .publish owner ids lease stamp :: taskOps owner polls
  | .missing :: polls | .rejected :: polls | .unchanged :: polls => taskOps owner polls

/-- `watch_revocations`: the operations of a feed, with what the clock, the claim and the store say. -/
def watchRevocations (interval : Duration) (now : ClockRead) (owner : ℕ)
    (claimed : Except DiscoveryError Unit) (cached : Option (Finset GrantId × Lease × SnapshotStamp))
    (polls : List Polled) : Except DiscoveryError (List Op) := do
  if interval < Duration.fromSecs 1 ∨ Duration.fromSecs 60 < interval then
    throw (.configuration (.text "revocation interval must be 1..60 seconds"))
  let _ ← now
  claimed
  let cached := cached.map fun (ids, lease, stamp) => Op.publish owner ids lease stamp
  return .claim owner :: (cached.toList ++ taskOps owner polls)

/-- A feed claims first, and then updates in its own name. -/
theorem watchRevocations_ops {interval : Duration} {now : ClockRead} {owner : ℕ}
    {claimed : Except DiscoveryError Unit} {cached : Option (Finset GrantId × Lease × SnapshotStamp)}
    {polls : List Polled} {ops : List Op}
    (h : watchRevocations interval now owner claimed cached polls = .ok ops) :
    ∃ updates, ops = .claim owner :: updates ∧ ∀ op ∈ updates, op.updater = some owner := by
  -- by induction on the polls of the task
  have htask : ∀ polls, ∀ op ∈ taskOps owner polls, op.updater = some owner := by
    intro polls
    induction polls with
    | nil => exact fun _ hop => nomatch hop
    | cons poll polls ih =>
      cases poll with
      | missing | rejected | unchanged => exact ih
      | failed =>
        intro op hop
        cases List.mem_singleton.mp hop
        rfl
      | snapshot ids lease stamp =>
        intro op hop
        rcases List.mem_cons.mp hop with rfl | hop
        · rfl
        · exact ih op hop
  unfold watchRevocations at h
  split at h
  · cases h
  cases now with
  | error e => cases h
  | ok _ =>
    cases claimed with
    | error e => cases h
    | ok _ =>
      cases h
      refine ⟨_, rfl, fun op hop => ?_⟩
      rcases List.mem_append.mp hop with hop | hop
      · cases cached with
        | none => cases hop
        | some snapshot =>
          cases List.mem_singleton.mp hop
          rfl
      · exact htask polls op hop

/-! ### What one operation does -/

namespace RevocationPolicy

variable {p : RevocationPolicy} {owner : ℕ} {update : RevocationPolicy → RevocationPolicy}

theorem updateFeed_of_ne (h : p.owner ≠ some owner) : p.updateFeed owner update = p := by
  refine if_neg fun hany => h ?_
  cases howner : p.owner with
  | none =>
    rw [howner] at hany
    cases hany
  | some o =>
    rw [howner, Option.any_some, decide_eq_true_eq] at hany
    rw [hany]

theorem updateFeed_of_eq (h : p.owner = some owner) : p.updateFeed owner update = update p := by
  unfold updateFeed
  rw [h]
  exact if_pos (decide_eq_true rfl)

theorem updateFeed_induction {P : RevocationPolicy → Prop} (hstay : P p)
    (hupdate : p.owner = some owner → P (update p)) : P (p.updateFeed owner update) := by
  by_cases h : p.owner = some owner
  · rw [updateFeed_of_eq h]
    exact hupdate h
  · rw [updateFeed_of_ne h]
    exact hstay

end RevocationPolicy

variable {p : RevocationPolicy}

/-- **An update by an owner that is not current changes nothing.** -/
theorem Op.apply_of_not_current {op : Op} {owner : ℕ}
    (hop : op.updater = some owner) (howner : p.owner ≠ some owner) : op.apply p = p := by
  cases op with
  | publish o ids lease stamp =>
    cases hop
    show p.publishRevocations owner ids lease stamp = p
    exact RevocationPolicy.updateFeed_of_ne howner
  | fail o =>
    cases hop
    show p.failFeed owner = p
    exact RevocationPolicy.updateFeed_of_ne howner
  | drop o =>
    cases hop
    show p.dropFeed owner = p
    exact RevocationPolicy.updateFeed_of_ne howner
  | useLocal | requireManaged | claim _ | revoke _ | replace _ => cases hop

/-- How the owner of the value came to be after an operation. -/
inductive Owned (p : RevocationPolicy) : Op → ℕ → Option Lease → Prop where
  /-- It claimed the value, which starts without a lease. -/
  | claimed {owner : ℕ} (hfree : p.owner = none) : Owned p (.claim owner) owner none
  /-- It was the owner, and the lease is the one there was. -/
  | kept {op : Op} {owner : ℕ} (howner : p.owner = some owner) : Owned p op owner p.lease
  /-- It was the owner, and it gave the lease up. -/
  | lapsed {op : Op} {owner : ℕ} (howner : p.owner = some owner) : Owned p op owner none
  /-- It was the owner, and it published the lease. -/
  | published {owner : ℕ} {ids : Finset GrantId} {lease : Lease} {stamp : SnapshotStamp}
      (howner : p.owner = some owner) : Owned p (.publish owner ids lease stamp) owner (some lease)

/-- **The owner after an operation.** -/
theorem Op.owned (op : Op) {owner : ℕ} (h : (op.apply p).owner = some owner) :
    Owned p op owner (op.apply p).lease := by
  revert h
  cases op with
  | useLocal | requireManaged => exact fun h => nomatch h
  | claim o =>
    show (p.claimFeed o).2.owner = _ → Owned p _ owner (p.claimFeed o).2.lease
    unfold RevocationPolicy.claimFeed
    split
    · exact .kept
    next hfree =>
    intro h
    cases h
    exact .claimed (Option.not_isSome_iff_eq_none.mp hfree)
  | publish o ids lease stamp =>
    refine RevocationPolicy.updateFeed_induction
      (P := fun p' => p'.owner = some owner → Owned p _ owner p'.lease) .kept fun howner h => ?_
    cases howner.symm.trans h
    exact .published howner
  | fail o =>
    exact RevocationPolicy.updateFeed_induction
      (P := fun p' => p'.owner = some owner → Owned p _ owner p'.lease) .kept fun _ h => .lapsed h
  | drop o =>
    exact RevocationPolicy.updateFeed_induction
      (P := fun p' => p'.owner = some owner → Owned p _ owner p'.lease) .kept fun _ h => nomatch h
  | revoke id | replace ids => exact fun h : p.owner = some owner => .kept h

/-- There is a lease only with local authority or an owner. -/
def Covered (p : RevocationPolicy) : Prop := p.lease.isSome → p.isLocal = true ∨ p.owner.isSome

theorem Covered.apply (h : Covered p) (op : Op) : Covered (op.apply p) := by
  -- an operation that takes the authority or the owner away takes the lease away too
  cases op with
  | useLocal => exact fun _ => Or.inl rfl
  | requireManaged => exact fun hlease => nomatch hlease
  | claim o =>
    show Covered (p.claimFeed o).2
    unfold RevocationPolicy.claimFeed
    split
    · exact h
    · exact fun _ => Or.inr rfl
  | publish o ids lease stamp =>
    refine RevocationPolicy.updateFeed_induction h fun howner _ => Or.inr ?_
    rw [howner]
    rfl
  | fail o =>
    exact RevocationPolicy.updateFeed_induction h fun _ hlease => nomatch hlease
  | drop o =>
    exact RevocationPolicy.updateFeed_induction h fun _ hlease => nomatch hlease
  | revoke id | replace ids => exact h

/-! ### Whole runs -/

/-- Operation `m` is the last claim that was granted among the first `n`, and it is that of `owner`. -/
structure LastClaim (ops : List Op) (n m owner : ℕ) : Prop where
  before : m < n
  claim : ops[m]? = some (.claim owner)
  granted : (policyAfter (ops.take m)).owner = none
  refused : ∀ k, m < k → k < n → ∀ o, ops[k]? = some (.claim o) →
    (policyAfter (ops.take k)).owner.isSome

/-- The owner `owner` published a lease between the operations `m` and `n`. -/
def PublishedSince (ops : List Op) (n m owner : ℕ) (lease : Lease) : Prop :=
  ∃ k ids stamp, m < k ∧ k < n ∧ ops[k]? = some (.publish owner ids lease stamp)

/-- The current owner made the last claim, and the lease is one it published since. -/
def OwnerSince (ops : List Op) (n : ℕ) (p : RevocationPolicy) : Prop :=
  ∀ owner, p.owner = some owner → ∃ m, LastClaim ops n m owner ∧
    ∀ lease, p.lease = some lease → PublishedSince ops n m owner lease

theorem PublishedSince.mono {ops : List Op} {n m owner : ℕ} {lease : Lease}
    (h : PublishedSince ops n m owner lease) : PublishedSince ops (n + 1) m owner lease := by
  obtain ⟨k, ids, stamp, hmk, hkn, hop⟩ := h
  exact ⟨k, ids, stamp, hmk, Nat.lt_succ_of_lt hkn, hop⟩

theorem LastClaim.succ {ops : List Op} {n m owner : ℕ} (h : LastClaim ops n m owner)
    (howner : (policyAfter (ops.take n)).owner = some owner) : LastClaim ops (n + 1) m owner where
  before := Nat.lt_succ_of_lt h.before
  claim := h.claim
  granted := h.granted
  refused k hmk hkn o hop := by
    rcases Nat.lt_succ_iff_lt_or_eq.mp hkn with hkn | rfl
    · exact h.refused k hmk hkn o hop
    · rw [howner]
      rfl

/-- **The owner of a whole run.** -/
theorem ownerSince_policyAfter (ops : List Op) :
    ∀ n, OwnerSince ops n (policyAfter (ops.take n)) := by
  refine foldl_take_induction (P := OwnerSince ops) (fun _ h => nomatch h) ?_ ?_
  · intro n op hop ih owner howner
    have howned := op.owned howner
    generalize (op.apply _).lease = after at howned ⊢
    cases howned with
    | claimed hfree =>
      exact ⟨n, ⟨Nat.lt_succ_self n, hop, hfree, fun k hk hk' => by omega⟩, fun _ hlease => nomatch hlease⟩
    | kept hbefore =>
      obtain ⟨m, hlast, hlease⟩ := ih owner hbefore
      exact ⟨m, hlast.succ hbefore, fun lease h => (hlease lease h).mono⟩
    | lapsed hbefore =>
      obtain ⟨m, hlast, -⟩ := ih owner hbefore
      exact ⟨m, hlast.succ hbefore, fun _ hlease => nomatch hlease⟩
    | published hbefore =>
      obtain ⟨m, hlast, -⟩ := ih owner hbefore
      refine ⟨m, hlast.succ hbefore, fun lease h => ?_⟩
      cases h
      exact ⟨n, _, _, hlast.before, Nat.lt_succ_self n, hop⟩
  · intro n hend ih owner howner
    obtain ⟨m, hlast, hlease⟩ := ih owner howner
    exact ⟨m, hlast.succ howner, fun lease h => (hlease lease h).mono⟩

theorem Covered.default : Covered .default := fun h => nomatch h

theorem covered_policyAfter (ops : List Op) (n : ℕ) : Covered (policyAfter (ops.take n)) :=
  foldl_take_induction (P := fun _ p => Covered p) .default (fun _ op _ h => h.apply op)
    (fun _ _ h => h) n

theorem RevocationPolicy.lease_of_fresh {now : ClockRead}
    (hfresh : p.fresh now) (hmanaged : p.isLocal = false) :
    ∃ reading lease, now = .ok reading ∧ p.lease = some lease ∧ lease.validAt reading := by
  unfold fresh at hfresh
  rw [hmanaged] at hfresh
  cases now with
  | error _ => cases hfresh
  | ok reading =>
    cases hlease : p.lease with
    | none =>
      rw [hlease] at hfresh
      cases hfresh
    | some lease =>
      rw [hlease] at hfresh
      exact ⟨reading, lease, rfl, rfl, hfresh⟩

/-- **The ownership of the feed.** After any operations in any order: at most one owner can still make an
update that changes the value; an update by an owner that is not current changes nothing; there is a
lease only with local authority or a current owner; and the value is fresh only through local authority,
or because the owner of the last claim that was granted is current and published a lease since that claim
that is valid now. -/
theorem feed_ownership (ops : List Op) (n : ℕ) :
    (∀ (op op' : Op) (o o' : ℕ), op.updater = some o → op'.updater = some o' →
      op.apply (policyAfter (ops.take n)) ≠ policyAfter (ops.take n) →
      op'.apply (policyAfter (ops.take n)) ≠ policyAfter (ops.take n) → o = o') ∧
    (∀ (op : Op) (o : ℕ), op.updater = some o → (policyAfter (ops.take n)).owner ≠ some o →
      op.apply (policyAfter (ops.take n)) = policyAfter (ops.take n)) ∧
    ((policyAfter (ops.take n)).lease.isSome →
      (policyAfter (ops.take n)).isLocal = true ∨ (policyAfter (ops.take n)).owner.isSome) ∧
    ∀ now, (policyAfter (ops.take n)).fresh now → (policyAfter (ops.take n)).isLocal = true ∨
      ∃ m o lease reading, LastClaim ops n m o ∧ (policyAfter (ops.take n)).owner = some o ∧
        PublishedSince ops n m o lease ∧ (policyAfter (ops.take n)).lease = some lease ∧
        now = .ok reading ∧ lease.validAt reading := by
  have hcovered := covered_policyAfter ops n
  have howner := ownerSince_policyAfter ops n
  refine ⟨fun op op' o o' hop hop' hchange hchange' => ?_,
    fun op o hop hne => Op.apply_of_not_current hop hne, hcovered, fun now hfresh => ?_⟩
  · have hcurrent := not_imp_comm.mp (Op.apply_of_not_current hop) hchange
    have hcurrent' := not_imp_comm.mp (Op.apply_of_not_current hop') hchange'
    exact Option.some.inj (hcurrent.symm.trans hcurrent')
  cases hlocal : (policyAfter (ops.take n)).isLocal with
  | true => exact .inl rfl
  | false =>
    obtain ⟨reading, lease, hnow, hlease, hvalid⟩ :=
      RevocationPolicy.lease_of_fresh hfresh hlocal
    -- without local authority, a lease has an owner
    have hsome : (policyAfter (ops.take n)).owner.isSome := by
      rcases hcovered (by rw [hlease]; rfl) with h | h
      · rw [hlocal] at h
        cases h
      · exact h
    obtain ⟨o, ho⟩ := Option.isSome_iff_exists.mp hsome
    obtain ⟨m, hlast, hpublished⟩ := howner o ho
    exact .inr ⟨m, o, lease, reading, hlast, ho, hpublished lease hlease, hlease, hnow, hvalid⟩

/-! ### A feed that lost the value -/

theorem Op.owner_ne {op : Op} {owner : ℕ} (hop : op ≠ .claim owner) (howner : p.owner ≠ some owner) :
    (op.apply p).owner ≠ some owner := by
  intro h
  have howned := op.owned h
  generalize (op.apply p).lease = lease at howned
  cases howned with
  | claimed _ => exact hop rfl
  | kept hbefore | lapsed hbefore | published hbefore => exact howner hbefore

/-- **An obsolete feed is invisible.** All its task does after its claim are updates of its owner. When that is not
the owner of the value and does not claim it again, every run ends as it does without these and the guard's. -/
theorem obsolete_feed_invisible {interval : Duration} {now : ClockRead} {owner : ℕ}
    {claimed : Except DiscoveryError Unit} {cached : Option (Finset GrantId × Lease × SnapshotStamp)}
    {polls : List Polled} {feed run : List Op} (h : watchRevocations interval now owner claimed cached polls = .ok feed)
    (howner : p.owner ≠ some owner) (hrun : .claim owner ∉ run) :
    (∀ op ∈ feed.tail, op.updater = some owner) ∧
      run.foldl Op.apply p = (run.filter (·.updater ≠ some owner)).foldl Op.apply p := by
  obtain ⟨updates, rfl, hupdates⟩ := watchRevocations_ops h
  refine ⟨hupdates, ?_⟩
  clear h
  induction run generalizing p with
  | nil => rfl
  | cons op run ih =>
    obtain ⟨hop, hrun⟩ := not_or.mp (List.mem_cons.not.mp hrun)
    by_cases hupdater : op.updater = some owner
    · rw [List.filter_cons_of_neg (by simpa using hupdater), List.foldl_cons, Op.apply_of_not_current hupdater howner]
      exact ih howner hrun
    · rw [List.filter_cons_of_pos (by simpa using hupdater)]
      exact ih (Op.owner_ne (Ne.symm hop) howner) hrun

/-- The feed of owner 1 fails, and is dropped, after owner 2 has claimed. -/
theorem obsolete_feed_invisible_successor :
    [.claim 2, .fail 1, .drop 1].foldl Op.apply (policyAfter [.claim 1, .useLocal]) =
      policyAfter [.claim 1, .useLocal, .claim 2] := by
  have hfeed : watchRevocations (.fromSecs 5) (.ok ⟨repeated 16 0, .zero, .zero⟩) 1 (.ok ()) none [.failed] =
    .ok [.claim 1, .fail 1] := rfl
  exact (obsolete_feed_invisible hfeed (by decide) (by simp)).2

end Rds.Agent
