import Rds.Discovery.Basic
import Rds.Framework.Machine
import Rds.Net.AckProgress

/-!
# Path selection

A connection has several validated paths, and `reselect` (`rds-net/src/backends/noq/policy.rs`) decides
which of them carries its traffic. One pass closes the paths of dead relay attachments, observes the
paths that are left, retires a path whose reliable work is stalled while a sibling makes progress, and
makes the path of the lowest round trip the available one, with a margin in favour of the current one.

The engine is another crate. A pass asks it for the state of a path and to change it, and every answer is
possible: `Engine` is an arbitrary one. What a path is during the pass (`Facts`) is its addresses, its
statistics and the callbacks that its congestion controller has seen.

A pass closes paths in two places, and `Outcome.closed` has every path it asks the engine to close.
`retirement_sound` says when a path is closed as unresponsive, that neither its sibling nor all candidates
are closed in that pass for any reason, and what the pass leaves selected. A pass that finds its connection
gone decides nothing and leaves the selection as it was (`reselect_of_gone`).
-/

namespace Rds.Path

open Framework Discovery List Option

/-! ### Addresses -/

theorem length_drop_twelve (octets : { b : Bytes // b.length = 16 }) :
    (octets.val.drop 12).length = 4 := by
  rw [length_drop, octets.property]

/-- `IpAddr::to_canonical`: an IPv4-mapped address as the IPv4 address. -/
def toCanonical : IpAddr → IpAddr
  | .v4 octets => .v4 octets
  | .v6 octets =>
    if octets.val.take 12 = [0, 0, 0, 0, 0, 0, 0, 0, 0, 0, 255, 255] then
      .v4 ⟨octets.val.drop 12, length_drop_twelve octets⟩
    else .v6 octets

/-- `IpAddr::is_ipv4`. -/
def isIpv4 : IpAddr → Bool
  | .v4 _ => true
  | .v6 _ => false

/-- `candidates::canonical`, of the address alone: no rule below reads the port. -/
def canonical (address : SocketAddr) : IpAddr := toCanonical address.ip

/-- `synthetic_slot`: the third octet under the relay's first two. -/
def syntheticSlot (ip : IpAddr) : Option UInt8 :=
  match toCanonical ip with
  | .v4 ⟨[198, 19, slot, _], _⟩ => some slot
  | _ => none

/-- `is_synthetic`. -/
def isSynthetic (address : SocketAddr) : Bool := (syntheticSlot address.ip).isSome

/-- A bound socket of the multiplexer and whether it was retired. -/
structure Child where
  address : SocketAddr
  stopped : Bool

/-- `Health`. -/
abbrev Health := List Child

namespace Health

/-- `Health::route`. -/
def route (health : Health) (remote : SocketAddr) (source : Option IpAddr) : Option ℕ :=
  let remote := canonical remote
  let source := source.map toCanonical
  match syntheticSlot remote with
  | some slot => health.findIdx? fun c => syntheticSlot c.address.ip = some slot
  | none =>
    let family := fun c : Child =>
      !isSynthetic c.address && isIpv4 (toCanonical c.address.ip) == isIpv4 remote
    match source with
    | some source =>
      if isIpv4 source != isIpv4 remote then none
      else
        match health.findIdx? fun c => family c && toCanonical c.address.ip = source with
        | some index => some index
        | none => health.findIdx? fun c => family c && c.address.ip.isUnspecified
    | none => health.findIdx? family

/-- `Health::alive`. -/
def alive (health : Health) (index : ℕ) : Bool := health[index]?.any fun c => !c.stopped

/-- `Health::path_available`. -/
def pathAvailable (health : Health) (remote : SocketAddr) (source : Option IpAddr) : Bool :=
  (health.route remote source).any health.alive

end Health

/-! ### The engine -/

/-- `noq::PathId`. -/
abbrev PathId := UInt32

/-- `noq::PathStatus`. -/
inductive PathStatus where
  | available
  | backup
  deriving DecidableEq

/-- The two ends of a path. -/
structure NetworkPath where
  remote : SocketAddr
  localIp : Option IpAddr

/-- What a pass reads of a path: its addresses, its round trip, whether it has stream data that was not
acknowledged, the callbacks of its controller if the controller is a tracked one, and the reading of the
clock at its snapshot. -/
structure Facts where
  remoteAddress : PathId → Option SocketAddr
  networkPath : PathId → Option NetworkPath
  rtt : PathId → Duration
  unacknowledgedStreamFrames : PathId → Bool
  history : PathId → Option (List Callback)
  now : PathId → Instant

/-- The answers of the engine: any, and each may move its state `W`. A call that can fail answers
whether it did not. -/
structure Engine (W : Type) where
  isAlive : StateM W Bool
  upgradeConnection : StateM W Bool
  upgrade : PathId → StateM W Bool
  status : PathId → StateM W (Option PathStatus)
  setStatus : PathId → PathStatus → StateM W Bool
  close : PathId → StateM W Bool
  path : PathId → StateM W Bool
  ping : PathId → StateM W Bool

/-! ### The pass -/

/-- `RTT_SWITCHING_MIN`. -/
def rttSwitchingMin : Duration := Duration.fromMillis 5

/-- `DRAIN_SHIFT`. -/
def drainShift : UInt64 := 8

/-- `PathRtt`. -/
structure PathRtt where
  measured : Duration
  rank : Duration

/-- `PathRtt::new`. -/
def PathRtt.new (measured : Duration) (draining : Bool) : PathRtt where
  measured := measured
  rank := if draining then Duration.maxValue else measured

/-- A path that may be selected, as the pass observed it. -/
structure Candidate where
  id : PathId
  rtt : PathRtt
  progress : Option Observation
  streamWork : Bool

namespace Candidate

/-- The path is observed to be stalled. -/
def stalled (c : Candidate) : Bool := c.progress.any fun state => state.stalled c.rtt.measured

/-- The path is observed to be confirmed. -/
def confirmed (c : Candidate) : Bool := c.progress.any fun state => state.confirmed c.rtt.measured

/-- The sibling may take over from a failed path. -/
def canReplace (sibling failed : Candidate) : Bool :=
  match failed.progress, sibling.progress with
  | some state, some other => other.canReplace state sibling.rtt.measured
  | _, _ => false

end Candidate

/-- `min_by_key` of the rank: the first of the least. -/
def minByRank : List (PathId × Duration) → Option (PathId × Duration)
  | [] => none
  | x :: rest => some (rest.foldl (fun best y => if y.2 < best.2 then y else best) x)

/-- What a pass leaves: the paths it keeps and the selected one. The other fields say what it did: the
paths it could select, each path it asked the engine to close as unresponsive with its sibling, and every
path it asked the engine to close, for whatever reason and whatever the engine answered. -/
structure Outcome where
  paths : List PathId
  selected : Option PathId
  candidates : List Candidate := []
  retired : List (PathId × PathId) := []
  closed : List PathId := []

section Pass

variable {W : Type} (E : Engine W) (F : Facts)

/-- `on_masked_slot`. A shift is by the slot modulo 64. -/
def onMaskedSlot (id : PathId) (mask : UInt64) : Bool :=
  ((F.remoteAddress id).bind fun address => syntheticSlot address.ip).any fun slot =>
    (mask >>> slot.toUInt64) &&& 1 = 1

/-- A path that is open: a handle also upgrades after its path is closed. -/
def isOpen (id : PathId) : StateM W Bool := do
  if ← E.upgrade id then
    return (← E.status id).isSome
  return false

/-- `paths.retain`: the paths that are open. -/
def retainOpen : List PathId → StateM W (List PathId)
  | [] => pure []
  | id :: rest => do
    let keep ← isOpen E id
    let kept ← retainOpen rest
    return if keep then id :: kept else kept

/-- One path of the loop over dead and draining attachments. The answer is the path it closes. -/
def retireSlot (dead draining : UInt64) (id : PathId) : StateM W (Option PathId) := do
  if ← E.upgrade id then
    if onMaskedSlot F id dead then
      let _ ← E.setStatus id .backup
      let _ ← E.close id
      return some id
    else if onMaskedSlot F id draining then
      let _ ← E.setStatus id .backup
  return none

/-- The loop that retires the paths of dead and draining attachments. -/
def retireSlots (dead draining : UInt64) : List PathId → StateM W (List PathId)
  | [] => pure []
  | id :: rest => do
    let one ← retireSlot E F dead draining id
    let others ← retireSlots dead draining rest
    return one.toList ++ others

/-- `snapshot` of a path's controller. -/
def snapshot (id : PathId) : Option Observation :=
  (F.history id).map fun h => ⟨(track h).progress, F.now id⟩

/-- The local transport of a path can carry it. -/
def transportAvailable (transport : Option Health) (id : PathId) : Bool :=
  transport.all fun health =>
    (F.networkPath id).any fun network => health.pathAvailable network.remote network.localIp

/-- The observation of one path, if it may be selected. -/
def candidate (dead draining : UInt64) (transport : Option Health) (id : PathId) :
    Option Candidate :=
  if !transportAvailable F transport id then none
  else if dead != 0 && onMaskedSlot F id dead then none
  else some
    { id
      rtt := PathRtt.new (F.rtt id) (draining != 0 && onMaskedSlot F id draining)
      progress := snapshot F id
      streamWork := F.unacknowledgedStreamFrames id }

/-- The observation of one path. A path without a fresh acknowledgement is probed. -/
def observeOne (dead draining : UInt64) (transport : Option Health) (id : PathId) :
    StateM W (Option Candidate) := do
  if ← E.upgrade id then
    match candidate F dead draining transport id with
    | none => return none
    | some c =>
      if c.progress.any fun state => state.needsProbe then
        let _ ← E.ping id
      return some c
  return none

/-- The candidates of a pass. -/
def observe (dead draining : UInt64) (transport : Option Health) :
    List PathId → StateM W (List Candidate)
  | [] => pure []
  | id :: rest => do
    let one ← observeOne E F dead draining transport id
    let others ← observe dead draining transport rest
    return one.toList ++ others

/-- The retirement of one candidate: it has reliable work and is stalled, and a sibling can replace it
and was made available. Whether the engine then closes it is only logged. -/
def retireOne (candidates : List Candidate) (c : Candidate) : StateM W (Option (PathId × PathId)) :=
  if !c.streamWork then return none
  else if !c.stalled then return none
  else
    match candidates.find? fun other => other.id != c.id && other.canReplace c with
    | none => return none
    | some other => do
      if ← E.path other.id then
        if ← E.setStatus other.id .available then
          if ← E.path c.id then
            let _ ← E.close c.id
            return some (c.id, other.id)
      return none

/-- The loop over the candidates that retires the unresponsive ones. -/
def retire (candidates : List Candidate) : List Candidate → StateM W (List (PathId × PathId))
  | [] => pure []
  | c :: rest => do
    let one ← retireOne E candidates c
    let others ← retire candidates rest
    return one.toList ++ others

/-- The paths that can be selected, with their ranks. -/
def ranked (candidates : List Candidate) : List (PathId × Duration) :=
  let hasConfirmed := candidates.any fun c => c.confirmed && !c.stalled
  candidates.filterMap fun c =>
    if c.stalled || (hasConfirmed && c.progress.isSome && !c.confirmed) then none
    else some (c.id, c.rtt.rank)

/-- The choice among the ranked paths: the best, unless the current one is within the margin. -/
def choose (selected : Option PathId) (rtts : List (PathId × Duration)) : Option PathId :=
  (minByRank rtts).map fun best =>
    match selected.bind fun current =>
      if current = best.1 then none else rtts.find? fun r => r.1 = current with
    | none => best.1
    | some cur => if cur.2 < best.2.saturatingAdd rttSwitchingMin then cur.1 else best.1

/-- The loop that applies the choice. -/
def applyStatus (choice : PathId) : List PathId → StateM W Unit
  | [] => pure ()
  | id :: rest => do
    if ← E.upgrade id then
      let want := if id = choice then PathStatus.available else .backup
      if (← E.status id) ≠ some want then
        let _ ← E.setStatus id want
    applyStatus choice rest

/-- The selection after a choice: it stands if the engine applied it. -/
def published (paths : List PathId) (choice : PathId) : StateM W (Option PathId) := do
  if choice ∈ paths then
    if ← E.upgrade choice then
      if (← E.status choice) = some .available then
        return some choice
  return none

/-- The paths left after those of dead attachments are closed, and the closed ones. -/
def retainServed (dead draining : UInt64) (paths : List PathId) :
    StateM W (List PathId × List PathId) := do
  if dead ≠ 0 ∨ draining ≠ 0 then
    let closed ← retireSlots E F dead draining paths
    let paths ← retainOpen E paths
    return (paths, closed)
  else return (paths, [])

/-- The pass over a connection that is there. -/
def reselectLive (paths : List PathId) (selected : Option PathId) (relayMask : UInt64)
    (transport : Option Health) : StateM W Outcome := do
  let paths ← retainOpen E paths
  let dead := relayMask &&& 0xff
  let draining := relayMask >>> drainShift
  let (paths, unserved) ← retainServed E F dead draining paths
  if paths = [] then return { paths, selected := none, closed := unserved }
  let candidates ← observe E F dead draining transport paths
  let retired ← retire E candidates candidates
  let closed := unserved ++ retired.map Prod.fst
  match choose selected (ranked candidates) with
  | none => return { paths, selected := none, candidates, retired, closed }
  | some choice =>
    applyStatus E choice paths
    let selected ← published E paths choice
    return { paths, selected, candidates, retired, closed }

/-- `reselect`. A pass that finds the connection gone changes nothing. -/
def reselect (paths : List PathId) (selected : Option PathId) (relayMask : UInt64)
    (transport : Option Health) : StateM W Outcome := do
  if !(← E.isAlive) then return { paths, selected }
  if !(← E.upgradeConnection) then return { paths, selected }
  reselectLive E F paths selected relayMask transport

end Pass

/-! ### What one step of the pass decides -/

section Steps

variable {W : Type} {E : Engine W} {F : Facts} {dead draining : UInt64} {transport : Option Health}
  {cs : List Candidate}

/-- A path on which data waits for an acknowledgement for too long. -/
def Stalled (F : Facts) (id : PathId) : Prop :=
  (snapshot F id).any (fun state => state.stalled (F.rtt id)) = true

theorem onMaskedSlot_zero (id : PathId) : onMaskedSlot F id 0 = false := by
  unfold onMaskedSlot
  cases (F.remoteAddress id).bind fun address => syntheticSlot address.ip with
  | none => rfl
  | some slot => simp

variable {c : Candidate}

theorem candidate_eq_some {id : PathId} (h : candidate F dead draining transport id = some c) :
    c.id = id ∧ c.rtt.measured = F.rtt id ∧ c.progress = snapshot F id ∧
      c.streamWork = F.unacknowledgedStreamFrames id ∧ transportAvailable F transport id = true ∧
      onMaskedSlot F id dead = false := by
  unfold candidate at h
  split at h
  · cases h
  next htransport =>
  split at h
  · cases h
  next hdead =>
  cases h
  refine ⟨rfl, rfl, rfl, rfl, by simpa using htransport, ?_⟩
  by_cases hzero : dead = 0
  · rw [hzero]
    exact onMaskedSlot_zero id
  · simpa [hzero] using hdead

/-- A candidate is what the facts of its path say. -/
def Observed (F : Facts) (dead draining : UInt64) (transport : Option Health) (c : Candidate) :
    Prop := candidate F dead draining transport c.id = some c

theorem Observed.stalled_iff (h : Observed F dead draining transport c) :
    c.stalled = true ↔ Stalled F c.id := by
  obtain ⟨-, hrtt, hprogress, -⟩ := candidate_eq_some h
  unfold Candidate.stalled Stalled
  rw [hrtt, hprogress]

/-- The first loop closes only paths of dead attachments. -/
theorem retireSlots_dead (paths : List PathId) :
    Always (retireSlots E F dead draining paths) fun closed => ∀ id ∈ closed, onMaskedSlot F id dead = true := by
  induction paths with
  | nil => exact .pure (by simp)
  | cons id rest ih =>
    have hone : Always (retireSlot E F dead draining id) fun one => ∀ id ∈ one, onMaskedSlot F id dead = true := by
      refine .ask fun _ => .ite (fun _ => .ite (fun hdead => ?_) fun _ => ?_) fun _ => .pure (by simp)
      · exact .ask fun _ => .ask fun _ => .pure (by simpa using hdead)
      · exact .ite (fun _ => .ask fun _ => .pure (by simp)) fun _ => .pure (by simp)
    refine .bind hone fun one hone => .bind ih fun others hothers => .pure ?_
    intro id hid
    rcases mem_append.mp hid with hid | hid
    · exact hone id (mem_toList.mp hid)
    · exact hothers id hid

theorem retainServed_dead (paths : List PathId) :
    Always (retainServed E F dead draining paths)
      fun served => ∀ id ∈ served.2, onMaskedSlot F id dead = true :=
  .ite (fun _ => .bind (retireSlots_dead paths) fun _ h => .ask fun _ => .pure h) fun _ => .pure (by simp)

theorem observeOne_observed (id : PathId) :
    Always (observeOne E F dead draining transport id)
      fun one => ∀ c ∈ one, Observed F dead draining transport c := by
  refine .ask fun up => .ite (fun _ => ?_) fun _ => .pure (by simp)
  cases hc : candidate F dead draining transport id with
  | none => exact .pure (by simp)
  | some c =>
    have hobserved : Observed F dead draining transport c := by
      unfold Observed
      rw [(candidate_eq_some hc).1, hc]
    have hreturn : ∀ d ∈ some c, Observed F dead draining transport d := by
      intro d hd
      cases hd
      exact hobserved
    exact .ite (fun _ => .ask fun _ => .pure hreturn) fun _ => .pure hreturn

theorem observe_observed (paths : List PathId) :
    Always (observe E F dead draining transport paths)
      fun cs => ∀ c ∈ cs, Observed F dead draining transport c := by
  induction paths with
  | nil => exact .pure (by simp)
  | cons id rest ih =>
    refine .bind (observeOne_observed id) fun one hone => .bind ih fun others hothers => .pure ?_
    intro c hc
    rcases mem_append.mp hc with hc | hc
    · exact hone c (mem_toList.mp hc)
    · exact hothers c hc

/-- **A retirement.** The path has reliable work and is stalled; another candidate can replace it. -/
def Retires (cs : List Candidate) (ab : PathId × PathId) : Prop :=
  ∃ a ∈ cs, ∃ b ∈ cs, ab = (a.id, b.id) ∧ a.streamWork = true ∧ a.stalled = true ∧ b.id ≠ a.id ∧
    b.canReplace a = true

theorem retireOne_retires (hc : c ∈ cs) :
    Always (retireOne E cs c) fun one => ∀ ab ∈ one, Retires cs ab := by
  refine .ite (fun _ => .pure (by simp)) fun hwork => .ite (fun _ => .pure (by simp)) fun hstalled => ?_
  cases hfind : cs.find? fun other => other.id != c.id && other.canReplace c with
  | none => exact .pure (by simp)
  | some other =>
    have htest := find?_some hfind
    rw [Bool.and_eq_true, bne_iff_ne] at htest
    have hretires : ∀ ab ∈ some (c.id, other.id), Retires cs ab := by
      intro ab hab
      cases hab
      exact ⟨c, hc, other, mem_of_find?_eq_some hfind, rfl, by simpa using hwork,
        by simpa using hstalled, htest.1, htest.2⟩
    -- each of the three calls before the close may fail
    refine .ask fun _ => .ite (fun _ => ?_) fun _ => .pure (by simp)
    refine .ask fun _ => .ite (fun _ => ?_) fun _ => .pure (by simp)
    exact .ask fun _ => .ite (fun _ => .ask fun _ => .pure hretires) fun _ => .pure (by simp)

theorem retire_retires {rest : List Candidate} (hrest : rest ⊆ cs) :
    Always (retire E cs rest) fun retired => ∀ ab ∈ retired, Retires cs ab := by
  induction rest with
  | nil => exact .pure (by simp)
  | cons c rest ih =>
    obtain ⟨hc, hrest⟩ := cons_subset.mp hrest
    refine .bind (retireOne_retires hc) fun one hone => .bind (ih hrest) fun others hothers => .pure ?_
    intro ab hab
    rcases mem_append.mp hab with hab | hab
    · exact hone ab (mem_toList.mp hab)
    · exact hothers ab hab

theorem minByRank_mem {rtts : List (PathId × Duration)} {best : PathId × Duration}
    (h : minByRank rtts = some best) : best ∈ rtts := by
  cases rtts with
  | nil => cases h
  | cons x rest =>
    cases h
    refine foldlRecOn rest _ (motive := fun best => best ∈ x :: rest) mem_cons_self ?_
    intro best hbest y hy
    split
    · exact mem_cons_of_mem x hy
    · exact hbest

theorem choose_mem {selected : Option PathId} {rtts : List (PathId × Duration)} {id : PathId}
    (h : choose selected rtts = some id) : ∃ r ∈ rtts, r.1 = id := by
  obtain ⟨best, hbest, hid⟩ := map_eq_some_iff.mp h
  have hmem := minByRank_mem hbest
  split at hid
  · exact ⟨best, hmem, hid⟩
  next cur hcur =>
  obtain ⟨current, -, hfind⟩ := bind_eq_some_iff.mp hcur
  split at hfind
  · cases hfind
  · split at hid
    · exact ⟨cur, mem_of_find?_eq_some hfind, hid⟩
    · exact ⟨best, hmem, hid⟩

theorem exists_of_mem_ranked {r : PathId × Duration} (h : r ∈ ranked cs) :
    ∃ c ∈ cs, c.id = r.1 ∧ c.stalled = false := by
  obtain ⟨c, hc, hr⟩ := mem_filterMap.mp h
  split at hr
  · cases hr
  next hkeep =>
  cases hr
  rw [Bool.or_eq_true, not_or] at hkeep
  exact ⟨c, hc, rfl, by simpa using hkeep.1⟩

theorem published_eq (paths : List PathId) (choice : PathId) :
    Always (published E paths choice) fun selected => ∀ id, selected = some id → id = choice := by
  have hnone : ∀ id, (none : Option PathId) = some id → id = choice := by
    intro id h
    cases h
  refine .ite (fun _ => ?_) fun _ => .pure hnone
  refine .ask fun _ => .ite (fun _ => ?_) fun _ => .pure hnone
  refine .ask fun _ => .ite (fun _ => .pure ?_) fun _ => .pure hnone
  intro id h
  exact (some.inj h).symm

end Steps

/-! ### A whole pass -/

section Whole

variable {W : Type} {E : Engine W} {F : Facts} {dead draining : UInt64} {transport : Option Health}

/-- What a pass decides, in terms of its candidates. -/
structure Decided (F : Facts) (dead draining : UInt64) (transport : Option Health)
    (out : Outcome) : Prop where
  observed : ∀ c ∈ out.candidates, Observed F dead draining transport c
  retired : ∀ ab ∈ out.retired, Retires out.candidates ab
  closed : ∃ unserved, out.closed = unserved ++ out.retired.map Prod.fst ∧
    ∀ id ∈ unserved, onMaskedSlot F id dead = true
  selected : ∀ id, out.selected = some id → ∃ c ∈ out.candidates, c.id = id ∧ c.stalled = false

/-- Whatever the engine answers, the pass decides by its candidates. -/
theorem reselectLive_decided (paths : List PathId) (selected : Option PathId) (relayMask : UInt64) :
    Always (reselectLive E F paths selected relayMask transport)
      (Decided F (relayMask &&& 0xff) (relayMask >>> drainShift) transport) := by
  refine .ask fun kept => .bind (retainServed_dead kept) fun served hserved => ?_
  obtain ⟨paths, unserved⟩ := served
  refine .ite (fun _ => .pure ?_) fun _ => ?_
  · exact ⟨by simp, by simp, ⟨unserved, (append_nil _).symm, hserved⟩, by simp⟩
  refine .bind (observe_observed paths) fun cs hcs => ?_
  refine .bind (retire_retires (List.Subset.refl cs)) fun retired hretired => ?_
  cases hchoice : choose selected (ranked cs) with
  | none => exact .pure ⟨hcs, hretired, ⟨unserved, rfl, hserved⟩, by simp⟩
  | some choice =>
    obtain ⟨r, hr, hid⟩ := choose_mem hchoice
    obtain ⟨c, hc, hcid, hstalled⟩ := exists_of_mem_ranked hr
    refine .ask fun _ => .bind (published_eq paths choice) fun chosen hchosen => .pure ?_
    refine ⟨hcs, hretired, ⟨unserved, rfl, hserved⟩, ?_⟩
    intro id hsel
    exact ⟨c, hc, by rw [hcid, hid, hchosen id hsel], hstalled⟩

/-- **Why a path is closed as unresponsive.** Its data is outstanding without an acknowledgement for
four round trips and half a second; meanwhile a sibling was acknowledged, recently, and is not stalled
itself. -/
def Unresponsive (F : Facts) (a b : PathId) : Prop :=
  a ≠ b ∧ F.unacknowledgedStreamFrames a = true ∧ ¬ Stalled F b ∧
  ∃ ha hb since t, F.history a = some ha ∧ F.history b = some hb ∧
    Outstanding ha since ∧ max (4 * (F.rtt a).ns) 500000000 ≤ (F.now a).ns - since.ns ∧
    Acknowledged hb t ∧ since < t ∧ (F.now b).ns - t.ns < max (8 * (F.rtt b).ns) 2000000000

variable {out : Outcome}

/-- What retires a path is backed by the calls on it and on its sibling. -/
theorem Decided.unresponsive (hdec : Decided F dead draining transport out)
    (hord : ∀ id h, F.history id = some h → InOrder h) {x y : PathId} (h : (x, y) ∈ out.retired) :
    Unresponsive F x y := by
  obtain ⟨a, ha, b, hb, heq, hwork, hstalled, hne, hreplace⟩ := hdec.retired _ h
  obtain ⟨rfl, rfl⟩ := Prod.mk.inj heq
  obtain ⟨-, hrttA, hprogressA, hworkA, -⟩ := candidate_eq_some (hdec.observed a ha)
  obtain ⟨-, hrttB, hprogressB, -⟩ := candidate_eq_some (hdec.observed b hb)
  -- both paths have a tracked controller, or there would be nothing to compare
  unfold Candidate.canReplace at hreplace
  unfold Candidate.stalled at hstalled
  rw [hprogressA] at hstalled
  rw [hprogressA, hprogressB, hrttB] at hreplace
  cases hA : F.history a.id with
  | none => simp [snapshot, hA] at hstalled
  | some callsA =>
    cases hB : F.history b.id with
    | none => simp [snapshot, hB] at hreplace
    | some callsB =>
      have hsnapA : snapshot F a.id = some ⟨(track callsA).progress, F.now a.id⟩ := by
        rw [snapshot, hA, map_some]
      have hsnapB : snapshot F b.id = some ⟨(track callsB).progress, F.now b.id⟩ := by
        rw [snapshot, hB, map_some]
      rw [hsnapA, hrttA] at hstalled
      rw [hsnapA, hsnapB] at hreplace
      obtain ⟨since, hsince, hout, hlong⟩ := outstanding_of_stalled (hord _ _ hA) hstalled
      obtain ⟨t, hack, hafter, hfresh, hbusy⟩ :=
        acknowledged_of_canReplace (hord _ _ hB) hsince hreplace
      refine ⟨hne.symm, hworkA ▸ hwork, ?_, callsA, callsB, since, t, hA, hB, hout, hlong, hack,
        hafter, hfresh⟩
      unfold Stalled
      rw [hsnapB]
      show ¬ (track callsB).progress.stalled (F.now b.id) (F.rtt b.id) = true
      rw [hbusy]
      exact Bool.false_ne_true

theorem Decided.stalled_of_retired (hdec : Decided F dead draining transport out)
    {x y : PathId} (h : (x, y) ∈ out.retired) : Stalled F x := by
  obtain ⟨a, ha, b, -, heq, -, hstalled, -⟩ := hdec.retired _ h
  obtain ⟨rfl, rfl⟩ := Prod.mk.inj heq
  exact (hdec.observed a ha).stalled_iff.mp hstalled

/-- A candidate that is not stalled is not closed: it is on no dead attachment either. -/
theorem Decided.notMem_closed (hdec : Decided F dead draining transport out) {c : Candidate}
    (hc : c ∈ out.candidates) (hfree : ∀ y, (c.id, y) ∉ out.retired) : c.id ∉ out.closed := by
  obtain ⟨unserved, hclosed, hdead⟩ := hdec.closed
  obtain ⟨-, -, -, -, -, hserved⟩ := candidate_eq_some (hdec.observed c hc)
  rw [hclosed]
  intro hmem
  rcases mem_append.mp hmem with hmem | hmem
  · rw [hdead _ hmem] at hserved
    cases hserved
  · obtain ⟨⟨x, y⟩, hxy, rfl⟩ := mem_map.mp hmem
    exact hfree y hxy

/-- The sibling of a path that is closed as unresponsive is a candidate and stays open. -/
theorem Decided.sibling (hdec : Decided F dead draining transport out)
    (hord : ∀ id h, F.history id = some h → InOrder h) {x y : PathId} (h : (x, y) ∈ out.retired) :
    ∃ c ∈ out.candidates, c.id = y ∧ c.id ∉ out.closed := by
  obtain ⟨a, -, b, hb, heq, -⟩ := hdec.retired _ h
  obtain rfl : y = b.id := (Prod.mk.inj heq).2
  refine ⟨b, hb, rfl, hdec.notMem_closed hb fun z hz => ?_⟩
  exact (hdec.unresponsive hord h).2.2.1 (hdec.stalled_of_retired hz)

/-- The connection is there when a pass begins. -/
def Engine.Live (E : Engine W) (w : W) : Prop :=
  (E.isAlive w).1 = true ∧ (E.upgradeConnection (E.isAlive w).2).1 = true

theorem reselect_of_live {w : W} (hlive : E.Live w) (paths : List PathId)
    (selected : Option PathId) (relayMask : UInt64) :
    reselect E F paths selected relayMask transport w
      = reselectLive E F paths selected relayMask transport (E.upgradeConnection (E.isAlive w).2).2 := by
  unfold reselect
  rw [Always.bind_apply, hlive.1, Bool.not_true, if_neg Bool.false_ne_true, Always.bind_apply, hlive.2,
    Bool.not_true, if_neg Bool.false_ne_true]

/-- **A pass without a connection.** -/
theorem reselect_of_gone {w : W} (hgone : ¬ E.Live w) (paths : List PathId)
    (selected : Option PathId) (relayMask : UInt64) :
    (reselect E F paths selected relayMask transport w).1 = { paths, selected } := by
  unfold reselect
  cases halive : (E.isAlive w).1 with
  | false =>
    rw [Always.bind_apply, halive, Bool.not_false]
    rfl
  | true =>
    have hupgrade : (E.upgradeConnection (E.isAlive w).2).1 = false := by
      cases hup : (E.upgradeConnection (E.isAlive w).2).1 with
      | false => rfl
      | true => exact absurd ⟨halive, hup⟩ hgone
    rw [Always.bind_apply, halive, Bool.not_true, if_neg Bool.false_ne_true, Always.bind_apply, hupgrade,
      Bool.not_false]
    rfl

/-- **Retirement is sound.** Whatever the engine answers, a pass closes a path as unresponsive only for
the reason `Unresponsive`, and its sibling is not closed in that pass for any reason. A path that is closed
and not retired is on a dead relay attachment. A pass never closes every candidate. A pass over a
connection that is there selects no path that is stalled, on a dead relay attachment or on a failed local
transport. -/
theorem retirement_sound (E : Engine W) (F : Facts)
    (hord : ∀ id h, F.history id = some h → InOrder h) (paths : List PathId)
    (selected : Option PathId) (relayMask : UInt64) (transport : Option Health) (w : W) :
    let out := (reselect E F paths selected relayMask transport w).1
    (∀ a b, (a, b) ∈ out.retired → Unresponsive F a b ∧ b ∉ out.closed) ∧
    (∃ unserved, out.closed = unserved ++ out.retired.map Prod.fst ∧
      ∀ id ∈ unserved, onMaskedSlot F id (relayMask &&& 0xff) = true) ∧
    (out.candidates ≠ [] → ∃ c ∈ out.candidates, c.id ∉ out.closed) ∧
    (E.Live w → ∀ id, out.selected = some id → ¬ Stalled F id ∧
      onMaskedSlot F id (relayMask &&& 0xff) = false ∧ transportAvailable F transport id = true) := by
  intro out
  by_cases hlive : E.Live w
  · have hdec : Decided F (relayMask &&& 0xff) (relayMask >>> drainShift) transport out := by
      show Decided _ _ _ _ (reselect E F paths selected relayMask transport w).1
      rw [reselect_of_live hlive]
      exact reselectLive_decided paths selected relayMask _
    refine ⟨fun a b hab => ⟨hdec.unresponsive hord hab, ?_⟩, hdec.closed, fun hne => ?_, fun _ id hsel => ?_⟩
    · obtain ⟨c, -, rfl, hopen⟩ := hdec.sibling hord hab
      exact hopen
    · -- a sibling stays open, and without retirements every candidate does
      cases hretired : out.retired with
      | nil =>
        obtain ⟨c, hc⟩ := exists_mem_of_ne_nil _ hne
        exact ⟨c, hc, hdec.notMem_closed hc fun y => hretired ▸ not_mem_nil⟩
      | cons ab rest =>
        obtain ⟨c, hc, -, hopen⟩ := hdec.sibling hord (x := ab.1) (y := ab.2) (hretired ▸ mem_cons_self)
        exact ⟨c, hc, hopen⟩
    · obtain ⟨c, hc, rfl, hfree⟩ := hdec.selected id hsel
      have hobs := hdec.observed c hc
      obtain ⟨-, -, -, -, htransport, hdead⟩ := candidate_eq_some hobs
      refine ⟨fun hstalled => ?_, hdead, htransport⟩
      rw [hobs.stalled_iff.mpr hstalled] at hfree
      cases hfree
  · -- the pass returned at once: nothing was observed and nothing closed
    have hout : out = { paths, selected } := reselect_of_gone hlive paths selected relayMask
    rw [hout]
    refine ⟨?_, ⟨[], rfl, by simp⟩, fun hne => absurd rfl hne, fun h => absurd h hlive⟩
    intro a b hab
    cases hab

end Whole

/-! ### Two paths -/

/-- An engine that does everything it is asked. -/
def obedient : Engine Unit where
  isAlive := pure true
  upgradeConnection := pure true
  upgrade _ := pure true
  status _ := pure (some .available)
  setStatus _ _ := pure true
  close _ := pure true
  path _ := pure true
  ping _ := pure true

/-- The engine of a connection that is closed. -/
def departed : Engine Unit := { obedient with isAlive := pure false }

/-- So many milliseconds after the clock started. -/
def atMillis (ms : Fin 1000000) : Instant :=
  ⟨ms.val * 1000000, by
    have h := ms.isLt
    have hlimit : instantLimit = 9223372036854775808000000000 := rfl
    omega⟩

/-- Path 1 sent data at one second and heard nothing; path 2 was acknowledged half a second later. Both
are seen at 1.6 seconds, with a round trip of 70 milliseconds. Path 1 leads over the relay attachment in
slot 0. -/
def twoPaths : Facts where
  remoteAddress id := if id = 1 then some (.v4 ⟨[198, 19, 0, 5], rfl⟩ 1) else none
  networkPath _ := none
  rtt _ := Duration.fromMillis 70
  unacknowledgedStreamFrames id := id = 1
  history id :=
    if id = 1 then some [.packetSent (atMillis 1000) 1200]
    else if id = 2 then
      some [.packetSent (atMillis 1400) 1200, .ack (atMillis 1500) 1200, .endAcks (atMillis 1500) 0]
    else none
  now _ := atMillis 1600

theorem inOrder_twoPaths (id : PathId) (h : List Callback) (hh : twoPaths.history id = some h) :
    InOrder h := by
  unfold twoPaths at hh
  dsimp only at hh
  split at hh
  · cases hh
    exact pairwise_singleton _ _
  split at hh
  · cases hh
    show List.Pairwise (· ≤ ·) [atMillis 1400, atMillis 1500, atMillis 1500]
    decide +kernel
  · cases hh

/-- Path 1 is retired for path 2, which stays open and is selected. -/
theorem retirement_sound_twoPaths :
    let out := (reselect obedient twoPaths [1, 2] (some 1) 0 none ()).1
    (1, 2) ∈ out.retired ∧ Unresponsive twoPaths 1 2 ∧ out.closed = [1] ∧ 2 ∉ out.closed ∧
      out.selected = some 2 ∧ ¬ Stalled twoPaths 2 := by
  obtain ⟨hretire, -, -, hselect⟩ :=
    retirement_sound obedient twoPaths inOrder_twoPaths [1, 2] (some 1) 0 none ()
  have hretired : (1, 2) ∈ (reselect obedient twoPaths [1, 2] (some 1) 0 none ()).1.retired := by
    decide +kernel
  have hselected : (reselect obedient twoPaths [1, 2] (some 1) 0 none ()).1.selected = some 2 := by
    decide +kernel
  obtain ⟨hwhy, hopen⟩ := hretire 1 2 hretired
  exact ⟨hretired, hwhy, by decide +kernel, hopen, hselected, (hselect ⟨rfl, rfl⟩ 2 hselected).1⟩

/-- A pass that finds its connection closed leaves path 1 selected although the attachment that carries
it is dead and its data is stalled. -/
theorem reselect_departed :
    (reselect departed twoPaths [1, 2] (some 1) 1 none ()).1.selected = some 1 ∧
      onMaskedSlot twoPaths 1 (1 &&& 0xff) = true ∧ Stalled twoPaths 1 := by
  unfold Stalled
  decide +kernel

end Rds.Path
