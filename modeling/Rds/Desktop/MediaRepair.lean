import Rds.Framework.Machine
import Rds.Framework.Table

/-!
# The repair gate of a desktop session

`MediaRepair` (`rds-desktop/src/media_repair.rs`) keeps a repair epoch and two flags in one atomic word.
`request` opens a new epoch, `key` takes the gate of an epoch for one independent picture, and the
`KeyPermit` it returns gives the gate back when it is dropped. An unconfirmed permit asks for another
picture first, through the `idr` signal.

An atomic update is one step here, and a drop is three: it compares generations, it stores to `idr`, it
releases the gate. Any steps of any permits and requests may come in between.

The comparison guards the store, but a request that is accepted between the two makes the permit old: it
then sets the signal of an epoch that is not its own (`repairGate_lateStore`). `repairGate` says what
holds of every run without such a request.
-/

namespace Rds.MediaRepair

open Framework BitVec Table

/-- The value of an `AtomicU64`. -/
abbrev Word := BitVec 64

/-- `ACTIVE`. -/
def activeFlag : Word := 1

/-- `KEY_PENDING`. -/
def keyPendingFlag : Word := 2

/-- `FLAGS`. -/
def flags : Word := activeFlag ||| keyPendingFlag

/-- `NEXT_EPOCH`. -/
def nextEpoch : Word := flags + 1

/-- `u64::checked_add`. -/
def checkedAdd (a b : Word) : Option Word :=
  if a.toNat + b.toNat < 2 ^ 64 then some (a + b) else none

/-- `Request`. -/
inductive Request where
  | accepted
  | coalesced
  | exhausted
  deriving DecidableEq

/-- `MediaRepair::generation` of a word. -/
def generation (state : Word) : Word := state &&& ~~~flags

/-- `MediaRepair::key_pending` of a word. -/
def keyPending (state : Word) : Bool := state &&& keyPendingFlag ≠ 0#64

/-- `MediaRepair::active` of a word. -/
def active (state : Word) : Bool := state &&& activeFlag ≠ 0#64

/-- The update of `request`. -/
def requestUpdate (state : Word) : Option Word :=
  if state &&& activeFlag ≠ 0#64 then none
  else (checkedAdd (state &&& ~~~flags) nextEpoch).map (· ||| activeFlag)

/-- The update of `key`. -/
def keyUpdate (generation state : Word) : Option Word :=
  if state &&& ~~~flags = generation ∧ state &&& keyPendingFlag = 0#64 then some (state ||| keyPendingFlag)
  else none

/-- The update of `release_key`. -/
def releaseUpdate (generation : Word) (confirmed : Bool) (state : Word) : Option Word :=
  if state &&& ~~~flags ≠ generation then none
  else some (state &&& ~~~(keyPendingFlag ||| if confirmed then activeFlag else 0#64))

/-! ### What the updates do to the flags -/

theorem toNat_generation (state : Word) : (generation state).toNat = 4 * (state.toNat / 4) := by
  have hsplit : (state &&& ~~~flags) + (state &&& flags) = state := by
    rw [add_eq_or_of_and_eq_zero]
    · rw [← BitVec.and_or_distrib_left, BitVec.or_comm, BitVec.or_not_self, BitVec.and_allOnes]
    · rw [BitVec.and_comm state flags, ← BitVec.and_assoc, BitVec.and_assoc state]
      simp
  have hlow : (state &&& flags).toNat = state.toNat % 4 := by
    exact Nat.and_two_pow_sub_one_eq_mod state.toNat 2
  have hsum := congrArg BitVec.toNat hsplit
  rw [toNat_add] at hsum
  unfold generation
  omega

section Word

variable {state state' g : Word}

theorem generation_or (state b : Word) (hb : b &&& ~~~flags = 0#64) :
    generation (state ||| b) = generation state := by
  unfold generation
  rw [and_or_distrib_right, hb, or_zero]

theorem generation_and (state b : Word) (hb : b &&& ~~~flags = ~~~flags) :
    generation (state &&& b) = generation state := by
  unfold generation
  rw [BitVec.and_assoc, hb]

/-- **A request that is accepted** opens a later generation, active and with its gate free. -/
theorem requestUpdate_spec (h : requestUpdate state = some state') :
    active state = false ∧ (generation state).toNat < (generation state').toNat ∧
      keyPending state' = false ∧ active state' = true := by
  unfold requestUpdate at h
  split at h
  · cases h
  next hidle =>
  obtain ⟨epoch, hepoch, rfl⟩ := Option.map_eq_some_iff.mp h
  unfold checkedAdd at hepoch
  split at hepoch
  · next hfits =>
    cases hepoch
    have hgen := toNat_generation state
    have hnext : nextEpoch.toNat = 4 := rfl
    have hsum : (generation state + nextEpoch).toNat = 4 * (state.toNat / 4) + 4 := by
      unfold generation at hgen ⊢
      rw [toNat_add, hgen, hnext]
      omega
    -- the sum has no flags
    have hflags : (generation state + nextEpoch) &&& keyPendingFlag = 0#64 := by
      have hand : (generation state + nextEpoch) &&& flags = 0#64 := by
        apply eq_of_toNat_eq
        rw [toNat_and, hsum]
        show (4 * (state.toNat / 4) + 4) &&& (2 ^ 2 - 1) = 0
        rw [Nat.and_two_pow_sub_one_eq_mod]
        omega
      have hsub : flags &&& keyPendingFlag = keyPendingFlag := rfl
      rw [← hsub, ← BitVec.and_assoc, hand, BitVec.zero_and]
    refine ⟨by simpa [active] using hidle, ?_, ?_, ?_⟩
    · show _ < (generation (generation state + nextEpoch ||| activeFlag)).toNat
      rw [generation_or _ _ rfl, toNat_generation (_ + _), hgen]
      omega
    · unfold keyPending
      rw [and_or_distrib_right]
      show decide (((generation state + nextEpoch) &&& keyPendingFlag) ||| 0#64 ≠ 0#64) = false
      rw [hflags]
      rfl
    · unfold active
      rw [and_or_distrib_right, decide_eq_true_eq, Ne, or_eq_zero_iff]
      exact fun hzero => absurd hzero.2 (by decide)
  · cases hepoch

/-- **A gate that is taken** was free, and it is the gate of the generation asked for. -/
theorem keyUpdate_spec (h : keyUpdate g state = some state') :
    generation state = g ∧ keyPending state = false ∧ generation state' = g ∧
      keyPending state' = true ∧ active state' = active state := by
  unfold keyUpdate at h
  split at h
  · next hfree =>
    cases h
    refine ⟨hfree.1, by simp [keyPending, hfree.2], ?_, ?_, ?_⟩
    · rw [generation_or _ _ rfl]
      exact hfree.1
    · unfold keyPending
      rw [and_or_distrib_right, hfree.2]
      rfl
    unfold active
    rw [and_or_distrib_right]
    show decide ((state &&& activeFlag) ||| 0#64 ≠ 0#64) = _
    rw [or_zero]
  · cases h

/-- **A release** of the current generation frees the gate, and only a confirmed one ends the repair. -/
theorem releaseUpdate_spec {confirmed : Bool} (h : releaseUpdate g confirmed state = some state') :
    generation state = g ∧ generation state' = g ∧ keyPending state' = false ∧
      active state' = (active state && !confirmed) := by
  unfold releaseUpdate at h
  split at h
  · cases h
  next hgen =>
  have hgen := not_not.mp hgen
  cases h
  refine ⟨hgen, ?_, ?_, ?_⟩
  · rw [generation_and]
    · exact hgen
    · cases confirmed <;> rfl
  · unfold keyPending
    rw [BitVec.and_assoc]
    have hclear : ~~~(keyPendingFlag ||| if confirmed then activeFlag else 0#64) &&& keyPendingFlag = 0#64 := by
      cases confirmed <;> rfl
    rw [hclear, and_zero]
    rfl
  unfold active
  rw [BitVec.and_assoc]
  cases confirmed with
  | true =>
    show decide (state &&& 0#64 ≠ 0#64) = _
    rw [and_zero, Bool.not_true, Bool.and_false]
    rfl
  | false =>
    show decide (state &&& activeFlag ≠ 0#64) = _
    rw [Bool.not_false, Bool.and_true]

end Word

/-! ### The machine -/

/-- How far the drop of a permit is. -/
inductive Stage where
  | held
  | checked
  | signalled
  deriving DecidableEq

/-- `KeyPermit`. Its `idr` is the number of a signal. -/
structure KeyPermit where
  generation : Word
  idr : ℕ
  confirmed : Bool
  stage : Stage
  deriving DecidableEq

/-- The shared word, the signals, the permits that are not released, and the requests that still have
to be counted. -/
structure World where
  state : Word
  idr : ℕ → Bool
  permits : Table ℕ KeyPermit
  next : ℕ
  asked : List Request
  requests : ℕ
  coalesced : ℕ

/-- One step of a thread. -/
inductive Act where
  /-- The update of `request`. -/
  | request
  /-- The rest of a `request`: its counter. -/
  | count (i : ℕ)
  /-- `key`, with a signal. -/
  | key (generation : Word) (idr : ℕ)
  /-- The owner of a permit sets `confirmed`. -/
  | confirm (ticket : ℕ)
  /-- A drop compares generations. -/
  | check (ticket : ℕ)
  /-- A drop stores to its signal. -/
  | store (ticket : ℕ)
  /-- A drop releases the gate. -/
  | release (ticket : ℕ)
  /-- The producer or its control writes a signal. -/
  | write (idr : ℕ) (value : Bool)

namespace World

/-- A new gate. -/
def new : World := ⟨0, fun _ => false, .empty, 0, [], 0, 0⟩

/-- What `request` answers. -/
def answer (w : World) : Request :=
  match requestUpdate w.state with
  | some _ => .accepted
  | none => if w.state &&& activeFlag ≠ 0#64 then .coalesced else .exhausted

/-- A permit in a stage of its drop moves on. -/
def whenAt (w : World) (ticket : ℕ) (stage : Stage) (next : KeyPermit → World) : World :=
  match w.permits.get ticket with
  | some p => if p.stage = stage then next p else w
  | none => w

/-- One step. -/
def step (w : World) : Act → World
  | .request =>
    { w with state := (requestUpdate w.state).getD w.state, asked := w.answer :: w.asked }
  | .count i =>
    let asked := w.asked.eraseIdx i
    match w.asked[i]? with
    | some .accepted => { w with asked, requests := (w.requests + 1) % 2 ^ 64 }
    | some .coalesced => { w with asked, coalesced := (w.coalesced + 1) % 2 ^ 64 }
    | some .exhausted => { w with asked }
    | none => w
  | .key generation idr =>
    match keyUpdate generation w.state with
    | some state =>
      { w with
        state
        permits := w.permits.insert w.next ⟨generation, idr, false, .held⟩
        next := w.next + 1 }
    | none => w
  | .confirm ticket => w.whenAt ticket .held fun p =>
      { w with permits := w.permits.insert ticket { p with confirmed := true } }
  | .check ticket => w.whenAt ticket .held fun p =>
      if generation w.state = p.generation then
        { w with permits := w.permits.insert ticket { p with stage := .checked } }
      else { w with permits := w.permits.remove ticket }
  | .store ticket => w.whenAt ticket .checked fun p =>
      { w with
        idr := if p.confirmed then w.idr else Function.update w.idr p.idr true
        permits := w.permits.insert ticket { p with stage := .signalled } }
  | .release ticket => w.whenAt ticket .signalled fun p =>
      { w with
        state := (releaseUpdate p.generation p.confirmed w.state).getD w.state
        permits := w.permits.remove ticket }
  | .write idr value => { w with idr := Function.update w.idr idr value }

/-- A run. -/
def run (acts : List Act) : World := acts.foldl step new

end World

/-! ### The invariant -/

/-- The generation of a permit that is not released. -/
def World.epoch (w : World) (t : ℕ) : Option Word := (w.permits.get t).map KeyPermit.generation

/-- **The gate is taken exactly if a permit of the current generation is not released**, and then by one
permit. -/
structure Inv (w : World) : Prop where
  ticket : ∀ t g, w.epoch t = some g → t < w.next
  older : ∀ t g, w.epoch t = some g → g.toNat ≤ (generation w.state).toNat
  gate : keyPending w.state ↔ ∃ t, w.epoch t = some (generation w.state)
  unique : ∀ t t', w.epoch t = some (generation w.state) → w.epoch t' = some (generation w.state) → t = t'

namespace World

variable {w : World} {t i : ℕ}

theorem whenAt_induction {P : World → Prop} {stage : Stage} {next : KeyPermit → World} (hstay : P w)
    (hnext : ∀ p, w.permits.get t = some p → p.stage = stage → P (next p)) :
    P (w.whenAt t stage next) := by
  unfold whenAt
  cases hp : w.permits.get t with
  | none => exact hstay
  | some p =>
    show P (if p.stage = stage then next p else w)
    split
    next hstage => exact hnext p hp hstage
    · exact hstay

theorem step_count (w : World) (i : ℕ) : (w.step (.count i)).state = w.state ∧
    (w.step (.count i)).idr = w.idr ∧ (w.step (.count i)).permits = w.permits ∧
      (w.step (.count i)).next = w.next := by
  unfold step
  dsimp only
  split <;> exact ⟨rfl, rfl, rfl, rfl⟩

end World

namespace Inv

variable {w w' : World} {t : ℕ} {p p' : KeyPermit}

theorem new : Inv World.new where
  ticket _ _ h := nomatch h
  older _ _ h := nomatch h
  gate := ⟨fun h => (nomatch h), fun ⟨_, h⟩ => nomatch h⟩
  unique _ _ h := nomatch h

theorem of_eq (h : Inv w) (hstate : w'.state = w.state) (hepoch : w'.epoch = w.epoch)
    (hnext : w'.next = w.next) : Inv w' where
  ticket := by rw [hepoch, hnext]; exact h.ticket
  older := by rw [hepoch, hstate]; exact h.older
  gate := by rw [hepoch, hstate]; exact h.gate
  unique := by rw [hepoch, hstate]; exact h.unique

theorem epoch_insert (hpermits : w'.permits = w.permits.insert t p') (t₁ : ℕ) :
    w'.epoch t₁ = if t₁ = t then some p'.generation else w.epoch t₁ := by
  unfold World.epoch
  rw [hpermits, get_insert]
  split <;> rfl

/-- A permit changes, but not its generation. -/
theorem touch (h : Inv w) (hp : w.permits.get t = some p)
    (hpermits : w'.permits = w.permits.insert t p') (hgen : p'.generation = p.generation)
    (hstate : w'.state = w.state) (hnext : w'.next = w.next) : Inv w' := by
  refine h.of_eq hstate (funext fun t₁ => ?_) hnext
  rw [epoch_insert hpermits, hgen]
  split
  next heq => rw [heq, World.epoch, hp]; rfl
  · rfl

theorem discard (h : Inv w) (hp : w.permits.get t = some p)
    (hgen : generation w'.state = generation w.state)
    (hpending : keyPending w'.state ↔ keyPending w.state ∧ p.generation ≠ generation w.state)
    (hpermits : w'.permits = w.permits.remove t) (hnext : w'.next = w.next) : Inv w' := by
  have hepoch : w.epoch t = some p.generation := by rw [World.epoch, hp]; rfl
  have hback : ∀ t₁ g, w'.epoch t₁ = some g ↔ t₁ ≠ t ∧ w.epoch t₁ = some g := by
    intro t₁ g
    unfold World.epoch
    rw [hpermits, get_remove]
    split
    next heq => exact ⟨fun hno => absurd hno (by simp), fun hno => absurd heq hno.1⟩
    next hne => exact ⟨fun h₁ => ⟨hne, h₁⟩, And.right⟩
  refine ⟨fun t₁ g h₁ => ?_, fun t₁ g h₁ => ?_, ?_, fun t₁ t₂ h₁ h₂ => ?_⟩
  · rw [hnext]
    exact h.ticket t₁ g ((hback t₁ g).mp h₁).2
  · rw [hgen]
    exact h.older t₁ g ((hback t₁ g).mp h₁).2
  · rw [hpending, hgen, h.gate]
    constructor
    · rintro ⟨⟨t₀, h₀⟩, hold⟩
      refine ⟨t₀, (hback t₀ _).mpr ⟨?_, h₀⟩⟩
      rintro rfl
      exact hold (Option.some.inj (hepoch.symm.trans h₀))
    · rintro ⟨t₁, h₁⟩
      obtain ⟨hne, h₁⟩ := (hback t₁ _).mp h₁
      exact ⟨⟨t₁, h₁⟩, fun hcur => hne (h.unique t₁ t h₁ (hcur ▸ hepoch))⟩
  · rw [hgen] at h₁ h₂
    exact h.unique t₁ t₂ ((hback t₁ _).mp h₁).2 ((hback t₂ _).mp h₂).2

theorem request (h : Inv w) : Inv (w.step .request) := by
  cases hupd : requestUpdate w.state with
  | none => exact h.of_eq (by simp [World.step, hupd]) rfl rfl
  | some state =>
    have hstate : (w.step .request).state = state := by simp [World.step, hupd]
    obtain ⟨-, hlater, hfree, -⟩ := requestUpdate_spec hupd
    -- every permit is older now
    have hold : ∀ t, w.epoch t ≠ some (generation (w.step .request).state) := by
      intro t hp
      have := h.older t _ hp
      rw [hstate] at this
      omega
    refine ⟨h.ticket, fun t g hp => ?_, ?_, fun t _ hp => absurd hp (hold t)⟩
    · rw [hstate]
      exact (h.older t g hp).trans hlater.le
    · rw [hstate, hfree, ← hstate]
      exact ⟨fun hno => (nomatch hno), fun ⟨t, hp⟩ => absurd hp (hold t)⟩

theorem issue (h : Inv w) (hfree : keyPending w.state = false) (hp : p.generation = generation w.state)
    (hgen : generation w'.state = generation w.state) (hpending : keyPending w'.state = true)
    (hpermits : w'.permits = w.permits.insert w.next p) (hnext : w'.next = w.next + 1) : Inv w' := by
  have hepoch := epoch_insert hpermits
  -- the gate was free, so no other permit is of this generation
  have honly : ∀ t, w'.epoch t = some (generation w'.state) → t = w.next := by
    intro t ht
    rw [hepoch, hgen] at ht
    split at ht
    next heq => exact heq
    · cases hfree.symm.trans (h.gate.mpr ⟨t, ht⟩)
  refine ⟨fun t g ht => ?_, fun t g ht => ?_, ?_, fun t t' ht ht' => (honly t ht).trans (honly t' ht').symm⟩
  · rw [hepoch] at ht
    rw [hnext]
    split at ht
    next heq => exact heq ▸ Nat.lt_succ_self _
    · exact Nat.lt_succ_of_lt (h.ticket t g ht)
  · rw [hepoch] at ht
    rw [hgen]
    split at ht
    · cases ht
      rw [hp]
    · exact h.older t g ht
  · rw [hpending, hgen, ← hp]
    exact ⟨fun _ => ⟨w.next, (hepoch w.next).trans (if_pos rfl)⟩, fun _ => rfl⟩

theorem key (h : Inv w) (g : Word) (idr : ℕ) : Inv (w.step (.key g idr)) := by
  unfold World.step
  dsimp only
  cases hupd : keyUpdate g w.state with
  | none => exact h
  | some state =>
    obtain ⟨hgen, hfree, hgen', hpending, -⟩ := keyUpdate_spec hupd
    exact h.issue hfree hgen.symm (hgen'.trans hgen.symm) hpending rfl rfl

theorem release (h : Inv w) (t : ℕ) : Inv (w.step (.release t)) := by
  refine World.whenAt_induction h fun p hp _ => ?_
  cases hupd : releaseUpdate p.generation p.confirmed w.state with
  | none =>
    have hold : p.generation ≠ generation w.state := by
      intro hcur
      unfold releaseUpdate at hupd
      split at hupd
      next hne => exact hne hcur.symm
      · cases hupd
    exact h.discard hp rfl ⟨fun hk => ⟨hk, hold⟩, And.left⟩ rfl rfl
  | some state =>
    obtain ⟨hgen, hgen', hfree, -⟩ := releaseUpdate_spec hupd
    refine h.discard hp (hgen'.trans hgen.symm) ?_ rfl rfl
    show keyPending state ↔ _
    rw [hfree]
    exact ⟨fun hfalse => (nomatch hfalse), fun hboth => absurd hgen.symm hboth.2⟩

/-- **One step keeps the invariant.** -/
theorem step (h : Inv w) (act : Act) : Inv (w.step act) := by
  cases act with
  | request => exact h.request
  | count i =>
    obtain ⟨hstate, -, hpermits, hnext⟩ := w.step_count i
    exact h.of_eq hstate (funext fun t => by rw [World.epoch, hpermits]; rfl) hnext
  | key g idr => exact h.key g idr
  | confirm t => exact World.whenAt_induction h fun p hp _ => h.touch hp rfl rfl rfl rfl
  | check t =>
    refine World.whenAt_induction h fun p hp _ => ?_
    split
    · exact h.touch hp rfl rfl rfl rfl
    · next hold =>
      exact h.discard hp rfl ⟨fun hk => ⟨hk, fun hcur => hold hcur.symm⟩, And.left⟩ rfl rfl
  | store t => exact World.whenAt_induction h fun p hp _ => h.touch hp rfl rfl rfl rfl
  | release t => exact h.release t
  | write idr value => exact h.of_eq rfl rfl rfl

theorem run (acts : List Act) (n : ℕ) : Inv (World.run (acts.take n)) :=
  foldl_take_induction (P := fun _ w => Inv w) new (fun _ act _ h => h.step act)
    (fun _ _ h => h) n

theorem gate_unique (h : Inv w) : keyPending w.state ↔
    ∃! t, ∃ p, w.permits.get t = some p ∧ p.generation = generation w.state := by
  have hepoch : ∀ t, w.epoch t = some (generation w.state) ↔
      ∃ p, w.permits.get t = some p ∧ p.generation = generation w.state := fun _ => Option.map_eq_some_iff
  simp only [h.gate, ← hepoch]
  constructor
  · rintro ⟨t, ht⟩
    exact ⟨t, ht, fun t' ht' => h.unique t' t ht' ht⟩
  · rintro ⟨t, ht, -⟩
    exact ⟨t, ht⟩

end Inv

/-! ### What the steps do -/

/-- The permit that a step belongs to. -/
def Act.owner : Act → Option ℕ
  | .confirm t | .check t | .store t | .release t => some t
  | .request | .count _ | .key _ _ | .write _ _ => none

/-- **What a step may do.** -/
structure StepOk (w : World) (act : Act) : Prop where
  /-- A permit of an older generation changes neither the flags nor a signal. -/
  older : ∀ t p, act.owner = some t → w.permits.get t = some p →
    p.generation ≠ generation w.state → (w.step act).state = w.state ∧ (w.step act).idr = w.idr
  /-- Only a confirmed permit of the generation ends a repair. -/
  active : active w.state = true → active (w.step act).state = false →
    ∃ t p, act = .release t ∧ w.permits.get t = some p ∧ p.confirmed = true ∧
      p.generation = generation w.state
  /-- A request that is accepted opens a later generation. -/
  accepted : act = .request → w.answer = .accepted →
    (generation w.state).toNat < (generation (w.step act).state).toNat

/-- No request is accepted while an unconfirmed drop in the current generation is between its comparison
and its store. -/
def Act.Careful (w : World) (act : Act) : Prop :=
  act = .request → w.answer = .accepted → ∀ t p, w.permits.get t = some p → p.stage = .checked →
    p.generation = generation w.state → p.confirmed = true

/-- Every unconfirmed drop that is about to store is of the current generation. -/
def Current (w : World) : Prop :=
  ∀ t p, w.permits.get t = some p → p.stage = .checked → p.confirmed = false →
    p.generation = generation w.state

namespace World

variable {w : World}

theorem step_request_state (w : World) :
    (w.step .request).state = (requestUpdate w.state).getD w.state := rfl

theorem answer_eq_accepted : w.answer = .accepted ↔ ∃ state, requestUpdate w.state = some state := by
  unfold answer
  cases requestUpdate w.state with
  | some state => exact ⟨fun _ => ⟨state, rfl⟩, fun _ => rfl⟩
  | none =>
    refine ⟨fun h => ?_, fun ⟨_, h⟩ => nomatch h⟩
    dsimp only at h
    split at h <;> cases h

end World

/-- **Only three kinds of steps change the word.** -/
theorem World.state_step (w : World) (act : Act) : (w.step act).state = w.state ∨
    (act = .request ∧ requestUpdate w.state = some (w.step act).state) ∨
    (∃ g idr, act = .key g idr ∧ keyUpdate g w.state = some (w.step act).state) ∨
    ∃ t p, act = .release t ∧ w.permits.get t = some p ∧
      releaseUpdate p.generation p.confirmed w.state = some (w.step act).state := by
  cases act with
  | request =>
    rw [step_request_state]
    cases requestUpdate w.state with
    | none => exact .inl rfl
    | some state => exact .inr (Or.inl ⟨rfl, rfl⟩)
  | count i => exact .inl (w.step_count i).1
  | key g idr =>
    unfold World.step
    dsimp only
    cases hupd : keyUpdate g w.state with
    | none => exact .inl rfl
    | some state => exact .inr (Or.inr (Or.inl ⟨g, idr, rfl, hupd⟩))
  | confirm t => exact .inl (whenAt_induction (P := fun w' => w'.state = w.state) rfl fun _ _ _ => rfl)
  | check t =>
    refine .inl (whenAt_induction (P := fun w' => w'.state = w.state) rfl fun p _ _ => ?_)
    split <;> rfl
  | store t => exact .inl (whenAt_induction (P := fun w' => w'.state = w.state) rfl fun _ _ _ => rfl)
  | release t =>
    refine whenAt_induction (P := fun w' => w'.state = w.state ∨ _ ∨ _ ∨ ∃ t' p, Act.release t = .release t' ∧
      w.permits.get t' = some p ∧ releaseUpdate p.generation p.confirmed w.state = some w'.state)
      (Or.inl rfl) fun p hp _ => ?_
    cases hupd : releaseUpdate p.generation p.confirmed w.state with
    | none => exact .inl rfl
    | some state => exact .inr (Or.inr (Or.inr ⟨t, p, rfl, hp, hupd⟩))
  | write idr value => exact .inl rfl

/-- Of the steps of a permit only its store asks for a keyframe, if it is unconfirmed. -/
theorem World.idr_step (w : World) {act : Act} {t : ℕ} (hact : act.owner = some t) :
    (w.step act).idr = w.idr ∨ (act = .store t ∧ ∃ p, w.permits.get t = some p ∧
      p.stage = .checked ∧ p.confirmed = false ∧
      (w.step act).idr = Function.update w.idr p.idr true) := by
  cases act with
  | request | count _ | key _ _ | write _ _ => cases hact
  | confirm t' => exact .inl (whenAt_induction (P := fun w' => w'.idr = w.idr) rfl fun _ _ _ => rfl)
  | check t' =>
    refine .inl (whenAt_induction (P := fun w' => w'.idr = w.idr) rfl fun p _ _ => ?_)
    split <;> rfl
  | store t' =>
    cases hact
    refine whenAt_induction (P := fun w' => w'.idr = w.idr ∨ (Act.store t = .store t ∧ ∃ p,
      w.permits.get t = some p ∧ p.stage = .checked ∧ p.confirmed = false ∧
      w'.idr = Function.update w.idr p.idr true)) (Or.inl rfl) fun p hp hstage => ?_
    cases hconfirmed : p.confirmed with
    | true => exact .inl rfl
    | false => exact .inr ⟨rfl, p, hp, hstage, hconfirmed, rfl⟩
  | release t' => exact .inl (whenAt_induction (P := fun w' => w'.idr = w.idr) rfl fun _ _ _ => rfl)

/-- **A step is as it should be** if the drops that are about to store are current. -/
theorem stepOk {w : World} (hcurrent : Current w) (act : Act) : StepOk w act where
  older t p hact hp hold := by
    constructor
    · rcases w.state_step act with heq | ⟨rfl, -⟩ | ⟨g, idr, rfl, -⟩ | ⟨t', p', rfl, hp', hupd⟩
      · exact heq
      · cases hact
      · cases hact
      · cases hact
        cases hp.symm.trans hp'
        exact absurd (releaseUpdate_spec hupd).1.symm hold
    · rcases w.idr_step hact with heq | ⟨-, p', hp', hstage, hconfirmed, -⟩
      · exact heq
      · cases hp.symm.trans hp'
        exact absurd (hcurrent t p hp hstage hconfirmed) hold
  active hactive hidle := by
    rcases w.state_step act with heq | ⟨-, hupd⟩ | ⟨g, idr, -, hupd⟩ | ⟨t, p, rfl, hp, hupd⟩
    · rw [heq, hactive] at hidle
      cases hidle
    · rw [(requestUpdate_spec hupd).2.2.2] at hidle
      cases hidle
    · rw [(keyUpdate_spec hupd).2.2.2.2, hactive] at hidle
      cases hidle
    obtain ⟨hgen, -, -, hafter⟩ := releaseUpdate_spec hupd
    rw [hidle, hactive] at hafter
    refine ⟨t, p, rfl, hp, ?_, hgen.symm⟩
    simpa using hafter.symm
  accepted hact haccepted := by
    obtain ⟨state, hupd⟩ := World.answer_eq_accepted.mp haccepted
    rw [hact, World.step_request_state, hupd]
    exact (requestUpdate_spec hupd).2.1

/-! ### Whole runs -/

/-- How a permit can come to be what it is after a step. -/
inductive Moved (w : World) : Act → ℕ → KeyPermit → Prop where
  | same {act : Act} {t : ℕ} {p : KeyPermit} (hp : w.permits.get t = some p) : Moved w act t p
  | made {g : Word} {idr t : ℕ} : Moved w (.key g idr) t ⟨g, idr, false, .held⟩
  | confirmed {t : ℕ} {p : KeyPermit} (hstage : p.stage = .held) :
      Moved w (.confirm t) t { p with confirmed := true }
  | checked {t : ℕ} {p : KeyPermit} (hgen : generation w.state = p.generation) :
      Moved w (.check t) t { p with stage := .checked }
  | stored {t : ℕ} {p : KeyPermit} (hp : w.permits.get t = some p) (hstage : p.stage = .checked)
      (hidr : p.confirmed = false → (w.step (.store t)).idr p.idr = true) :
      Moved w (.store t) t { p with stage := .signalled }

namespace World

variable {w : World}

theorem idr_store {t : ℕ} {p : KeyPermit} (hp : w.permits.get t = some p)
    (hstage : p.stage = .checked) (hconfirmed : p.confirmed = false) :
    (w.step (.store t)).idr p.idr = true := by
  show (w.whenAt t .checked _).idr p.idr = true
  unfold whenAt
  rw [hp]
  dsimp only
  rw [if_pos hstage]
  dsimp only
  rw [hconfirmed, if_neg Bool.false_ne_true, Function.update_self]

/-- **The permits after a step.** -/
theorem permits_step (act : Act) {t : ℕ} {p : KeyPermit}
    (h : (w.step act).permits.get t = some p) : Moved w act t p := by
  cases act with
  | request => exact .same h
  | count i =>
    rw [(w.step_count i).2.2.1] at h
    exact .same h
  | key g idr =>
    unfold step at h
    dsimp only at h
    cases hupd : keyUpdate g w.state with
    | none =>
      rw [hupd] at h
      exact .same h
    | some state =>
      rw [hupd] at h
      rcases get_insert_cases h with ⟨-, rfl⟩ | h
      · exact .made
      · exact .same h
  | confirm k =>
    revert h
    refine whenAt_induction (P := fun w' => w'.permits.get t = some p → _) .same fun q _ hstage h => ?_
    rcases get_insert_cases h with ⟨rfl, rfl⟩ | h
    · exact .confirmed hstage
    · exact .same h
  | check k =>
    revert h
    refine whenAt_induction (P := fun w' => w'.permits.get t = some p → _) .same fun q _ _ h => ?_
    split at h
    · next hgen =>
      rcases get_insert_cases h with ⟨rfl, rfl⟩ | h
      · exact .checked hgen
      · exact .same h
    · exact .same (get_of_get_remove h)
  | store k =>
    revert h
    refine whenAt_induction (P := fun w' => w'.permits.get t = some p → _) .same
      fun q hq hstage h => ?_
    rcases get_insert_cases h with ⟨rfl, rfl⟩ | h
    · exact .stored hq hstage fun hconfirmed => idr_store hq hstage hconfirmed
    · exact .same h
  | release k =>
    revert h
    exact whenAt_induction (P := fun w' => w'.permits.get t = some p → _) .same
      fun _ _ _ h => .same (get_of_get_remove h)
  | write idr value => exact .same h

theorem generation_step (act : Act) : generation (w.step act).state = generation w.state ∨
    (act = .request ∧ w.answer = .accepted) := by
  rcases w.state_step act with heq | ⟨rfl, hupd⟩ | ⟨g, idr, -, hupd⟩ | ⟨t, p, -, -, hupd⟩
  · exact .inl (congrArg generation heq)
  · exact .inr ⟨rfl, answer_eq_accepted.mpr ⟨_, hupd⟩⟩
  · obtain ⟨hgen, -, hgen', -⟩ := keyUpdate_spec hupd
    exact .inl (hgen'.trans hgen.symm)
  · obtain ⟨hgen, hgen', -⟩ := releaseUpdate_spec hupd
    exact .inl (hgen'.trans hgen.symm)

end World

/-- **A careful step** leaves no drop that is about to store in an old generation. -/
theorem Current.step {w : World} (h : Current w) (act : Act) (hcareful : act.Careful w) :
    Current (w.step act) := by
  intro t p hp hstage hconfirmed
  have hmoved := World.permits_step act hp
  rcases World.generation_step act with hgen | ⟨rfl, haccepted⟩
  · rw [hgen]
    cases hmoved with
    | same hp => exact h t p hp hstage hconfirmed
    | made => cases hstage
    | confirmed hheld => exact absurd hconfirmed (by simp)
    | checked hcur => exact hcur.symm
    | stored _ _ _ => cases hstage
  · cases hmoved with
    | same hp =>
      -- such a drop would be confirmed
      have := hcareful rfl haccepted t p hp hstage (h t p hp hstage hconfirmed)
      rw [hconfirmed] at this
      cases this

/-- The store of a drop that is about to release. -/
def Stored (acts : List Act) (n : ℕ) (w : World) : Prop :=
  ∀ t p, w.permits.get t = some p → p.stage = .signalled → p.confirmed = false →
    ∃ m < n, acts[m]? = some (.store t) ∧ (World.run (acts.take (m + 1))).idr p.idr = true

/-- **An unconfirmed drop has stored** before it releases. -/
theorem stored_run (acts : List Act) : ∀ n, Stored acts n (World.run (acts.take n)) := by
  refine foldl_take_induction (fun _ _ hp => nomatch hp) ?_ ?_
  · intro n act hact ih t p hp hstage hconfirmed
    cases World.permits_step act hp with
    | same hp =>
      obtain ⟨m, hm, hstore, hidr⟩ := ih t p hp hstage hconfirmed
      exact ⟨m, Nat.lt_succ_of_lt hm, hstore, hidr⟩
    | made => cases hstage
    | confirmed hheld =>
      rw [hheld] at hstage
      cases hstage
    | checked _ => cases hstage
    | stored _ _ hidr =>
      refine ⟨n, Nat.lt_succ_self n, hact, ?_⟩
      rw [World.run, foldl_take_succ hact]
      exact hidr hconfirmed
  · intro n _ ih t p hp hstage hconfirmed
    obtain ⟨m, hm, hstore, hidr⟩ := ih t p hp hstage hconfirmed
    exact ⟨m, Nat.lt_succ_of_lt hm, hstore, hidr⟩

theorem World.keyPending_release {w : World} {t : ℕ} {p : KeyPermit}
    (hp : w.permits.get t = some p) (hstage : p.stage = .signalled)
    (hcur : p.generation = generation w.state) : keyPending (w.step (.release t)).state = false := by
  have hstate : (w.step (.release t)).state
      = (releaseUpdate p.generation p.confirmed w.state).getD w.state := by
    show (w.whenAt t .signalled _).state = _
    unfold whenAt
    rw [hp]
    dsimp only
    rw [if_pos hstage]
  cases hupd : releaseUpdate p.generation p.confirmed w.state with
  | none =>
    unfold releaseUpdate at hupd
    split at hupd
    next hne => exact absurd hcur.symm hne
    · cases hupd
  | some state =>
    rw [hstate, hupd]
    exact (releaseUpdate_spec hupd).2.2.1

/-- **The repair gate.** In every run that accepts no request between the comparison and the store of an
unconfirmed drop: the gate is taken exactly if one permit of the current generation is not released,
every step is as it should be, and a release of an unconfirmed current permit, which frees the gate,
comes after a store to its signal. -/
theorem repairGate (acts : List Act)
    (hcareful : ∀ (n : ℕ) (act : Act), acts[n]? = some act → act.Careful (World.run (acts.take n)))
    (n : ℕ) :
    (keyPending (World.run (acts.take n)).state ↔
      ∃! t, ∃ p, (World.run (acts.take n)).permits.get t = some p ∧
        p.generation = generation (World.run (acts.take n)).state) ∧
    ∀ act, acts[n]? = some act → StepOk (World.run (acts.take n)) act ∧
      ∀ t p, act = .release t → (World.run (acts.take n)).permits.get t = some p →
        p.stage = .signalled → p.generation = generation (World.run (acts.take n)).state →
        p.confirmed = false →
        keyPending (World.run (acts.take n)).state = true ∧
        keyPending (World.run (acts.take (n + 1))).state = false ∧
        ∃ m < n, acts[m]? = some (.store t) ∧ (World.run (acts.take (m + 1))).idr p.idr = true := by
  have hinv := Inv.run acts n
  have hcurrent : ∀ n, Current (World.run (acts.take n)) :=
    foldl_take_induction (fun _ _ hp => nomatch hp)
      (fun k act hact h => h.step act (hcareful k act hact)) (fun _ _ h => h)
  refine ⟨hinv.gate_unique, fun act hact => ⟨stepOk (hcurrent n) act, ?_⟩⟩
  rintro t p rfl hp hstage hcur hconfirmed
  refine ⟨hinv.gate.mpr ⟨t, Option.map_eq_some_iff.mpr ⟨p, hp, hcur⟩⟩, ?_, stored_run acts n t p hp hstage hconfirmed⟩
  rw [World.run, foldl_take_succ hact]
  exact World.keyPending_release hp hstage hcur

/-- A key of the first epoch is dropped unconfirmed, and the request comes after the store. -/
def calmDrop : List Act := [.key 0 0, .check 0, .store 0, .request, .release 0]

/-- The same, but the request comes before the store. -/
def lateStore : List Act := [.key 0 0, .check 0, .request, .store 0]

theorem repairGate_calmDrop : StepOk (World.run (calmDrop.take 3)) .request := by
  refine ((repairGate calmDrop ?_ 3).2 .request rfl).1
  intro n act hact hrequest _ t p hp hstage
  -- at the only request, the drop has stored
  have hn : n = 3 := by
    match n, hact with
    | 0, hact => cases hact; cases hrequest
    | 1, hact => cases hact; cases hrequest
    | 2, hact => cases hact; cases hrequest
    | 3, _ => rfl
    | 4, hact => cases hact; cases hrequest
  subst hn
  have hrows := get_eq_some_iff.mp hp
  have hall : (World.run (calmDrop.take 3)).permits.rows.all fun r => r.2.stage ≠ .checked := by decide
  have := List.all_eq_true.mp hall _ hrows
  simp [hstage] at this

/-- **A permit of an old epoch sets a signal of the new one**: a request was accepted between the
comparison and the store of its drop. -/
theorem repairGate_lateStore :
    (World.run (lateStore.take 3)).idr 0 = false ∧ generation (World.run (lateStore.take 3)).state = 4 ∧
      (World.run (lateStore.take 3)).permits.get 0 = some ⟨0, 0, false, .checked⟩ ∧
      (World.run lateStore).idr 0 = true ∧
      ¬ StepOk (World.run (lateStore.take 3)) (.store 0) := by
  refine ⟨by decide, by decide, by decide, by decide, fun hok => ?_⟩
  have hsame := (hok.older 0 ⟨0, 0, false, .checked⟩ rfl (by decide) (by decide)).2
  have hvalue := congrFun hsame 0
  revert hvalue
  decide

end Rds.MediaRepair
