import Rds.Desktop.MediaRepair

/-!
# The frame writer of a desktop session

The writer task (`rds-desktop/src/session.rs`) takes encoded frames from the producer's queue and passes
them to `send_frame`, one stream each. A delta needs its predecessor, so the writer keeps a `FrameChain`:
a delta goes only if it continues the chain, and a failed receipt, a task that did not join, an empty
frame, a refused one or a new repair generation breaks the chain until a keyframe starts it again.

The loop is a machine whose stages are the points where it waits. What the rest of the session does in
between is free: which receipts are joined, in which order and with what result, what the producer
queues, when a repair opens a new generation, how a send ends. Pacing only decides how long a wait is and
is left out.

`frameChain_sound` is about the log of a whole run: what was passed to `send_frame` and what broke the
chain.
-/

namespace Rds.Desktop.Writer

open Framework MediaRepair List

/-- `MAX_PENDING_FRAME_ACKS`. -/
def maxPendingFrameAcks : ℕ := 3

/-- `AdmittedFrame`: what the writer reads of a frame, with the length of its payload. -/
structure Frame where
  seq : UInt64
  keyframe : Bool
  payload : ℕ
  generation : Word
  deriving DecidableEq

/-- The result of joining a receipt task. -/
inductive Receipt where
  | delivered
  | obsolete
  | failed
  /-- The task panicked or was cancelled. -/
  | unjoined
  deriving DecidableEq

/-! ### The chain -/

/-- `FrameChain`. -/
structure FrameChain where
  next : Option UInt64
  lastKeySeq : Option UInt64
  deriving DecidableEq

namespace FrameChain

/-- `FrameChain::default`. -/
def default : FrameChain := ⟨none, none⟩

/-- `chain.next = None`. -/
def broken (self : FrameChain) : FrameChain := { self with next := none }

/-- `FrameChain::failed_receipt`. -/
def failedReceipt (self : FrameChain) (seq : UInt64) : FrameChain :=
  if self.lastKeySeq.all (· ≤ seq) then self.broken else self

/-- `u64::checked_add(1)`. -/
def checkedSucc (seq : UInt64) : Option UInt64 :=
  if seq = UInt64.ofNat (2 ^ 64 - 1) then none else some (seq + 1)

/-- `FrameChain::admit`. -/
def admitFrame (self : FrameChain) (produced : Frame) : Bool × FrameChain :=
  if produced.payload = 0 ∨ produced.seq = UInt64.ofNat (2 ^ 64 - 1) ∨
      (produced.keyframe = false ∧ self.next ≠ some produced.seq) then
    (false, self.broken)
  else
    (true,
      { next := checkedSucc produced.seq
        lastKeySeq := if produced.keyframe then some produced.seq else self.lastKeySeq })

end FrameChain

/-! ### The loop -/

/-- What happened, as far as the chain is concerned. -/
inductive Event where
  /-- The frame was passed to `send_frame`. -/
  | passed (f : Frame)
  /-- A failed receipt of this sequence number was joined. -/
  | failed (seq : UInt64)
  /-- A receipt task did not join. -/
  | unjoined
  /-- The writer took an empty frame. -/
  | empty (f : Frame)
  /-- The chain refused the frame. -/
  | refused (f : Frame)
  deriving DecidableEq

/-- Where the writer waits. -/
inductive Stage where
  /-- Before it reads the generation. -/
  | top
  /-- It retires the receipts that are there. -/
  | draining
  /-- Too many receipts are outstanding: it waits for one. -/
  | full
  /-- It takes a frame. -/
  | ready
  /-- It has a frame, and retires receipts again. -/
  | holding (f : Frame)
  /-- It waits until the frame may go. -/
  | pacing (f : Frame)
  /-- `send_frame` has the frame. -/
  | sending (f : Frame)
  | ended
  deriving DecidableEq

/-- How `send_frame` ends. -/
inductive SendOutcome where
  | sent
  /-- The receiver does not want the frame. A newer frame may have been taken, and is lost. -/
  | obsolete (taken : Bool)
  /-- A newer frame was taken, which is next. -/
  | superseded
  /-- The producer is gone. -/
  | done
  | failed
  deriving DecidableEq

/-- The writer with its queue, and the parts of the session it shares. The log has the newest event
first; no code reads it. -/
structure World where
  stage : Stage
  generation : Word
  chain : FrameChain
  pending : Option Frame
  receipts : List UInt64
  queue : List Frame
  closed : Bool
  repair : Word
  latestKeySeq : UInt64
  idr : Bool
  log : List Event

/-- One step, of the writer or of the rest of the session. -/
inductive Act where
  /-- The producer queues a frame. -/
  | push (f : Frame)
  /-- The producer is gone. -/
  | close
  /-- A repair opens another generation. -/
  | repair (generation : Word)
  /-- The producer records a keyframe. -/
  | record (seq : UInt64)
  /-- Someone writes the signal. -/
  | signal (value : Bool)
  /-- The writer reads the generation. -/
  | look
  /-- The writer joins the receipt at this place. -/
  | join (i : ℕ) (result : Receipt)
  /-- No receipt is there. -/
  | drained
  /-- The writer sees a new generation while it waits. A send may have taken a newer frame. -/
  | changed (taken : Bool)
  | take
  /-- The frame may go. -/
  | go
  | outcome (o : SendOutcome)
  deriving DecidableEq

namespace World

/-- A new session. -/
def new : World :=
  { stage := .top, generation := 0, chain := .default, pending := none, receipts := [], queue := []
    closed := false, repair := 0, latestKeySeq := UInt64.ofNat (2 ^ 64 - 1), idr := false, log := [] }

/-- `request_frame_repair`. -/
def requestFrameRepair (w : World) (failedSeq : UInt64) : World :=
  if w.latestKeySeq = UInt64.ofNat (2 ^ 64 - 1) ∨ w.latestKeySeq ≤ failedSeq then { w with idr := true }
  else w

/-- The start of a round: a new generation retires the receipts and the chain. -/
def look (w : World) : World :=
  if w.repair ≠ w.generation then
    { w with
      receipts := []
      pending := w.pending.filter fun p => p.generation = w.repair
      chain := .default
      generation := w.repair
      stage := .draining }
  else { w with stage := .draining }

/-- A receipt is joined (`drain_frame_receipts`, and the wait for one receipt). -/
def joined (w : World) (i : ℕ) (seq : UInt64) : Receipt → World
  | .delivered | .obsolete => { w with receipts := w.receipts.eraseIdx i }
  | .failed =>
    { w with
      receipts := w.receipts.eraseIdx i
      chain := w.chain.failedReceipt seq
      log := .failed seq :: w.log }
  | .unjoined =>
    { w with
      receipts := w.receipts.eraseIdx i
      chain := w.chain.broken
      idr := true
      log := .unjoined :: w.log }

/-- A frame was taken. -/
def took (w : World) (f : Frame) : World :=
  if f.generation ≠ w.generation then { w with stage := .top }
  else if f.payload = 0 then
    { w with stage := .top, chain := w.chain.broken, log := .empty f :: w.log }.requestFrameRepair f.seq
  else { w with stage := .holding f }

/-- The frame is passed to `send_frame`, or the chain refuses it. -/
def go (w : World) (f : Frame) : World :=
  match w.chain.admitFrame f with
  | (true, chain) => { w with stage := .sending f, chain, log := .passed f :: w.log }
  | (false, chain) =>
    { w with stage := .top, chain, log := .refused f :: w.log }.requestFrameRepair f.seq

/-- `send_frame` returned. A frame whose payload was written has a receipt task. -/
def sendEnded (w : World) (f : Frame) : SendOutcome → World
  | .sent => { w with stage := .top, receipts := w.receipts ++ [f.seq] }
  | .obsolete taken => { w with stage := .top, queue := if taken then w.queue.tail else w.queue }
  | .superseded =>
    match w.queue with
    | [] => w
    | newer :: queue =>
      -- a delta is abandoned for a keyframe
      let written := f.keyframe || !newer.keyframe
      { w with
        stage := .top, pending := some newer, queue
        receipts := if written then w.receipts ++ [f.seq] else w.receipts }
  | .done => if w.queue = [] ∧ w.closed then { w with stage := .ended, receipts := [] } else w
  | .failed => { w with stage := .ended }

/-- One step. A step that is not possible in the stage does nothing. -/
def step (w : World) : Act → World
  | .push f => { w with queue := w.queue ++ [f] }
  | .close => { w with closed := true }
  | .repair generation => { w with repair := generation }
  | .record seq => { w with latestKeySeq := seq }
  | .signal value => { w with idr := value }
  | .look => if w.stage = .top then w.look else w
  | .join i result =>
    match w.receipts[i]?, w.stage with
    | some seq, .draining => w.joined i seq result
    | some seq, .holding _ => w.joined i seq result
    | some seq, .full => { w.joined i seq result with stage := .top }
    | _, _ => w
  | .drained =>
    match w.stage with
    | .draining =>
      if w.receipts.length ≥ maxPendingFrameAcks then { w with stage := .full }
      else { w with stage := .ready }
    | .holding f => { w with stage := .pacing f }
    | _ => w
  | .changed taken =>
    if w.repair = w.generation then w
    else
      match w.stage with
      | .full | .pacing _ => { w with stage := .top }
      | .ready => if w.pending.isNone then { w with stage := .top } else w
      | .sending _ => { w with stage := .top, queue := if taken then w.queue.tail else w.queue }
      | _ => w
  | .take =>
    if w.stage = .ready then
      match w.pending, w.queue with
      | some p, _ => { w with pending := none }.took p
      | none, p :: queue => { w with queue }.took p
      | none, [] => if w.closed then { w with stage := .ended } else w
    else w
  | .go =>
    match w.stage with
    | .pacing f => w.go f
    | _ => w
  | .outcome o =>
    match w.stage with
    | .sending f => w.sendEnded f o
    | _ => w

/-- A run. -/
def run (acts : List Act) : World := acts.foldl step new

end World

/-! ### What the chain stands for -/

/-- The frames of a generation that were passed to `send_frame`, the newest first. -/
def passedIn (generation : Word) (log : List Event) : List Frame :=
  log.filterMap fun
    | .passed f => if f.generation = generation then some f else none
    | _ => none

/-- The event does not break a chain that started with a keyframe of this sequence number, and is not
the start of another one. -/
def Event.Harmless (key : UInt64) : Event → Prop
  | .passed f => f.keyframe = false
  | .failed seq => seq < key
  | .unjoined | .empty _ | .refused _ => False

/-- **The log supports a delta** of this generation and sequence number: the frame passed before it has
the number before, and nothing broke the chain since the last keyframe was passed. -/
structure Supported (log : List Event) (generation : Word) (seq : UInt64) : Prop where
  pred : ∃ p, (passedIn generation log).head? = some p ∧ p.seq.toNat + 1 = seq.toNat
  key : ∃ since k before, log = since ++ .passed k :: before ∧ k.keyframe = true ∧
    k.generation = generation ∧ ∀ e ∈ since, e.Harmless k.seq

/-- The chain knows the keyframe too. -/
structure Linked (log : List Event) (generation : Word) (chain : FrameChain) (seq : UInt64) :
    Prop where
  pred : ∃ p, (passedIn generation log).head? = some p ∧ p.seq.toNat + 1 = seq.toNat
  key : ∃ since k before, log = since ++ .passed k :: before ∧ k.keyframe = true ∧
    k.generation = generation ∧ chain.lastKeySeq = some k.seq ∧ ∀ e ∈ since, e.Harmless k.seq

theorem Linked.supported {log : List Event} {generation : Word} {chain : FrameChain} {seq : UInt64}
    (h : Linked log generation chain seq) : Supported log generation seq := by
  obtain ⟨since, k, before, hlog, hkey, hgen, -, hsince⟩ := h.key
  exact ⟨h.pred, since, k, before, hlog, hkey, hgen, hsince⟩

/-- A frame that the writer holds is of its generation and not empty. -/
def Stage.Holds (generation : Word) : Stage → Prop
  | .holding f | .pacing f | .sending f => f.generation = generation ∧ f.payload ≠ 0
  | .top | .draining | .full | .ready | .ended => True

/-- **The invariant.** A chain that can go on is one that the log supports, and every delta that was
passed was supported by what came before. -/
structure Inv (w : World) : Prop where
  chain : ∀ seq, w.chain.next = some seq → Linked w.log w.generation w.chain seq
  stage : w.stage.Holds w.generation
  deltas : ∀ after f before, w.log = after ++ .passed f :: before → f.keyframe = false →
    Supported before f.generation f.seq

theorem FrameChain.checkedSucc_eq_some {seq next : UInt64} (h : checkedSucc seq = some next) :
    seq.toNat + 1 = next.toNat := by
  unfold checkedSucc at h
  split at h
  · cases h
  next hne =>
  cases h
  have hlt := seq.toNat_lt
  have hne' : seq.toNat ≠ 2 ^ 64 - 1 := fun heq => hne (UInt64.toNat_inj.mp heq)
  rw [UInt64.toNat_add]
  show _ = (seq.toNat + 1) % 2 ^ 64
  omega

theorem FrameChain.failedReceipt_next {chain : FrameChain} {failed seq : UInt64}
    (h : (chain.failedReceipt failed).next = some seq) :
    chain.failedReceipt failed = chain ∧ ∃ key, chain.lastKeySeq = some key ∧ failed < key := by
  unfold failedReceipt at h ⊢
  split at h
  · cases h
  next hkey =>
  rw [if_neg hkey]
  refine ⟨rfl, ?_⟩
  cases hlast : chain.lastKeySeq with
  | none =>
    rw [hlast] at hkey
    exact absurd rfl hkey
  | some key =>
    rw [hlast, Option.all_some, decide_eq_true_eq, UInt64.not_le] at hkey
    exact ⟨key, rfl, hkey⟩

theorem FrameChain.admitFrame_true {chain chain' : FrameChain} {f : Frame}
    (h : chain.admitFrame f = (true, chain')) : (f.keyframe = false → chain.next = some f.seq) ∧
      chain'.next = checkedSucc f.seq ∧
      chain'.lastKeySeq = if f.keyframe then some f.seq else chain.lastKeySeq := by
  unfold admitFrame at h
  split at h
  · cases h
  next hok =>
  cases h
  refine ⟨fun hdelta => ?_, rfl, rfl⟩
  by_contra hne
  exact hok (Or.inr (Or.inr ⟨hdelta, hne⟩))

theorem FrameChain.admitFrame_false {chain chain' : FrameChain} {f : Frame}
    (h : chain.admitFrame f = (false, chain')) : chain' = chain.broken := by
  unfold admitFrame at h
  split at h
  · cases h
    rfl
  · cases h

namespace Inv

variable {w w' : World}

theorem of_eq (h : Inv w) (hchain : w'.chain = w.chain) (hgen : w'.generation = w.generation)
    (hlog : w'.log = w.log) (hstage : w'.stage.Holds w'.generation) : Inv w' where
  chain := by rw [hchain, hgen, hlog]; exact h.chain
  stage := hstage
  deltas := by rw [hlog]; exact h.deltas

theorem breaks (h : Inv w) {e : Event} (hlog : w'.log = e :: w.log)
    (hchain : w'.chain.next = none) (he : ∀ f, e ≠ .passed f)
    (hstage : w'.stage.Holds w'.generation) : Inv w' where
  chain seq hseq := by
    rw [hchain] at hseq
    cases hseq
  stage := hstage
  deltas after f before hsplit hdelta := by
    rw [hlog] at hsplit
    -- the new event is not the delta
    cases after with
    | nil => exact absurd (cons.inj hsplit).1 (he f)
    | cons e' after => exact h.deltas after f before (cons.inj hsplit).2 hdelta

theorem requestFrameRepair (h : Inv w) (seq : UInt64) : Inv (w.requestFrameRepair seq) := by
  unfold World.requestFrameRepair
  split
  · exact h.of_eq rfl rfl rfl h.stage
  · exact h

theorem Linked.failed {log : List Event} {generation : Word} {chain : FrameChain}
    {seq failed key : UInt64} (h : Linked log generation chain seq)
    (hlast : chain.lastKeySeq = some key) (hlt : failed < key) :
    Linked (.failed failed :: log) generation chain seq := by
  obtain ⟨since, k, before, hlog, hkey, hgen, hk, hsince⟩ := h.key
  cases hlast.symm.trans hk
  refine ⟨h.pred, .failed failed :: since, k, before, by rw [hlog]; rfl, hkey, hgen, hk, ?_⟩
  intro e he
  rcases mem_cons.mp he with rfl | he
  · exact hlt
  · exact hsince e he

theorem joined (h : Inv w) (i : ℕ) (seq : UInt64) (result : Receipt) :
    Inv (w.joined i seq result) := by
  cases result with
  | delivered | obsolete => exact h.of_eq rfl rfl rfl h.stage
  | unjoined => exact h.breaks rfl rfl (fun _ heq => nomatch heq) h.stage
  | failed =>
    refine ⟨fun next hnext => ?_, h.stage, ?_⟩
    · obtain ⟨hsame, key, hlast, hlt⟩ := FrameChain.failedReceipt_next hnext
      have hnext' : w.chain.next = some next := by
        rw [← hsame]
        exact hnext
      show Linked (.failed seq :: w.log) w.generation (w.chain.failedReceipt seq) next
      rw [hsame]
      exact Linked.failed (h.chain next hnext') hlast hlt
    · intro after f before hsplit hdelta
      cases after with
      | nil => cases (cons.inj hsplit).1
      | cons e after => exact h.deltas after f before (cons.inj hsplit).2 hdelta

theorem look (h : Inv w) : Inv w.look := by
  unfold World.look
  split
  · exact { chain := fun _ hnext => (nomatch hnext), stage := trivial, deltas := h.deltas }
  · exact h.of_eq rfl rfl rfl trivial

theorem took (h : Inv w) (f : Frame) : Inv (w.took f) := by
  unfold World.took
  split
  · exact h.of_eq rfl rfl rfl trivial
  next hgen =>
  split
  · refine Inv.requestFrameRepair ?_ f.seq
    exact h.breaks rfl rfl (fun _ heq => nomatch heq) trivial
  next hpayload => exact h.of_eq rfl rfl rfl ⟨not_not.mp hgen, hpayload⟩

theorem passedIn_cons {generation : Word} {f : Frame} {log : List Event}
    (hf : f.generation = generation) : passedIn generation
    (.passed f :: log) = f :: passedIn generation log := by
  unfold passedIn
  rw [filterMap_cons_some]
  exact if_pos hf

/-- A frame that is refused asks for a repair; one that passes continues from its keyframe. -/
theorem go (h : Inv w) {f : Frame} (hf : f.generation = w.generation ∧ f.payload ≠ 0) :
    Inv (w.go f) := by
  unfold World.go
  cases hadmit : w.chain.admitFrame f with
  | mk ok chain =>
    cases ok with
    | false =>
      refine Inv.requestFrameRepair ?_ f.seq
      rw [FrameChain.admitFrame_false hadmit]
      exact h.breaks rfl rfl (fun _ heq => nomatch heq) trivial
    | true =>
      obtain ⟨hdelta, hnext, hlast⟩ := FrameChain.admitFrame_true hadmit
      refine ⟨fun seq hseq => ?_, hf, ?_⟩
      · have hsucc := FrameChain.checkedSucc_eq_some (hnext.symm.trans hseq)
        refine ⟨⟨f, ?_, hsucc⟩, ?_⟩
        · show (passedIn w.generation (.passed f :: w.log)).head? = some f
          rw [passedIn_cons hf.1]
          rfl
        show ∃ since k before, (.passed f :: w.log) = since ++ .passed k :: before ∧ _
        cases hkey : f.keyframe with
        | true =>
          rw [hkey] at hlast
          exact ⟨[], f, w.log, rfl, hkey, hf.1, hlast, fun _ he => nomatch he⟩
        | false =>
          rw [hkey] at hlast
          obtain ⟨since, k, before, hlog, hkk, hgen, hk, hsince⟩ := (h.chain f.seq (hdelta hkey)).key
          refine ⟨.passed f :: since, k, before, by rw [hlog]; rfl, hkk, hgen, hlast.trans hk, ?_⟩
          intro e he
          rcases mem_cons.mp he with rfl | he
          · exact hkey
          · exact hsince e he
      · intro after g before hsplit hg
        cases after with
        | nil =>
          obtain ⟨heq, rfl⟩ := cons.inj hsplit
          cases heq
          rw [hf.1]
          exact (h.chain f.seq (hdelta hg)).supported
        | cons e after => exact h.deltas after g before (cons.inj hsplit).2 hg

theorem sendEnded (h : Inv w) (f : Frame) (o : SendOutcome) : Inv (w.sendEnded f o) := by
  cases o with
  | sent | obsolete taken => exact h.of_eq rfl rfl rfl trivial
  | superseded =>
    unfold World.sendEnded
    dsimp only
    split
    · exact h
    · exact h.of_eq rfl rfl rfl trivial
  | done =>
    unfold World.sendEnded
    dsimp only
    split
    · exact h.of_eq rfl rfl rfl trivial
    · exact h
  | failed => exact h.of_eq rfl rfl rfl trivial

/-- **One step keeps the invariant.** -/
theorem step (h : Inv w) (act : Act) : Inv (w.step act) := by
  cases act with
  | push f | close | repair generation | record seq | signal value =>
    exact h.of_eq rfl rfl rfl h.stage
  | look =>
    unfold World.step
    dsimp only
    split
    · exact h.look
    · exact h
  | join i result =>
    unfold World.step
    dsimp only
    split
    · exact h.joined i _ result
    · exact h.joined i _ result
    · exact (h.joined i _ result).of_eq rfl rfl rfl trivial
    · exact h
  | drained =>
    unfold World.step
    dsimp only
    split
    · split <;> exact h.of_eq rfl rfl rfl trivial
    · next f hstage =>
      refine h.of_eq rfl rfl rfl ?_
      have hholds := h.stage
      rw [hstage] at hholds
      exact hholds
    · exact h
  | changed taken =>
    unfold World.step
    dsimp only
    split
    · exact h
    split
    · exact h.of_eq rfl rfl rfl trivial
    · exact h.of_eq rfl rfl rfl trivial
    · split
      · exact h.of_eq rfl rfl rfl trivial
      · exact h
    · exact h.of_eq rfl rfl rfl trivial
    · exact h
  | take =>
    unfold World.step
    dsimp only
    split
    · split
      · have htaken : Inv { w with pending := none } := h.of_eq rfl rfl rfl h.stage
        exact htaken.took _
      · next p queue _ _ =>
        have htaken : Inv { w with queue } := h.of_eq rfl rfl rfl h.stage
        exact htaken.took p
      · split
        · exact h.of_eq rfl rfl rfl trivial
        · exact h
    · exact h
  | go =>
    unfold World.step
    dsimp only
    split
    · next f hstage =>
      have hholds := h.stage
      rw [hstage] at hholds
      exact h.go hholds
    · exact h
  | outcome o =>
    unfold World.step
    dsimp only
    split
    · exact h.sendEnded _ o
    · exact h

theorem new : Inv World.new where
  chain _ hnext := nomatch hnext
  stage := trivial
  deltas after _ _ hsplit := by cases after <;> cases hsplit

theorem run (acts : List Act) (n : ℕ) : Inv (World.run (acts.take n)) :=
  foldl_take_induction (P := fun _ w => Inv w) new (fun _ act _ h => h.step act) (fun _ _ h => h) n

end Inv

/-! ### Refusals ask for a keyframe -/

namespace World

variable {w : World}

/-- No keyframe after this sequence number is recorded. -/
def NoLaterKey (w : World) (seq : UInt64) : Prop :=
  w.latestKeySeq = UInt64.ofNat (2 ^ 64 - 1) ∨ w.latestKeySeq ≤ seq

theorem idr_requestFrameRepair {seq : UInt64} (h : w.NoLaterKey seq) :
    (w.requestFrameRepair seq).idr = true := by
  exact congrArg idr (if_pos h)

theorem log_requestFrameRepair (seq : UInt64) : (w.requestFrameRepair seq).log = w.log := by
  unfold requestFrameRepair
  split <;> rfl

/-- What a step logs. If it refuses a frame or finds it empty, it asks for a keyframe. -/
inductive Logged (w w' : World) : Prop where
  | same (hlog : w'.log = w.log)
  | broke (e : Event) (hlog : w'.log = e :: w.log) (he : ∀ f, e ≠ .refused f ∧ e ≠ .empty f)
  | turnedDown (e : Event) (f : Frame) (hlog : w'.log = e :: w.log) (he : e = .refused f ∨ e = .empty f)
      (hidr : w.NoLaterKey f.seq → w'.idr = true)

theorem logged_joined (i : ℕ) (seq : UInt64) (result : Receipt) : Logged w (w.joined i seq result) := by
  cases result with
  | delivered | obsolete => exact .same rfl
  | failed | unjoined => exact .broke _ rfl fun _ => ⟨nofun, nofun⟩

theorem logged_took {w' : World} (f : Frame) (hlog : w'.log = w.log)
    (hkey : w'.latestKeySeq = w.latestKeySeq) : Logged w (w'.took f) := by
  unfold took
  split
  · exact .same hlog
  split
  · refine .turnedDown (.empty f) f ?_ (Or.inr rfl) fun hlater => ?_
    · rw [log_requestFrameRepair, hlog]
    · refine idr_requestFrameRepair ?_
      rw [hkey]
      exact hlater
  · exact .same hlog

theorem logged_go (f : Frame) : Logged w (w.go f) := by
  unfold go
  split
  · exact .broke (.passed f) rfl fun _ => ⟨nofun, nofun⟩
  · refine .turnedDown (.refused f) f ?_ (Or.inl rfl) fun hlater => idr_requestFrameRepair hlater
    rw [log_requestFrameRepair]

theorem logged_sendEnded (f : Frame) (o : SendOutcome) : Logged w (w.sendEnded f o) := by
  cases o with
  | sent | obsolete _ | failed => exact .same rfl
  | superseded | done =>
    unfold sendEnded
    dsimp only
    split <;> exact .same rfl

/-- **What a step logs.** -/
theorem logged_step (act : Act) : Logged w (w.step act) := by
  cases act with
  | push _ | close | repair _ | record _ | signal _ => exact .same rfl
  | look =>
    unfold step look
    dsimp only
    split
    · split <;> exact .same rfl
    · exact .same rfl
  | join i result =>
    unfold step
    dsimp only
    split
    · exact logged_joined i _ result
    · exact logged_joined i _ result
    · -- the stage is not logged
      cases logged_joined (w := w) i _ result with
      | same hlog => exact .same hlog
      | broke e hlog he => exact .broke e hlog he
      | turnedDown e f hlog he hidr => exact .turnedDown e f hlog he hidr
    · exact .same rfl
  | drained =>
    unfold step
    dsimp only
    split
    · split <;> exact .same rfl
    · exact .same rfl
    · exact .same rfl
  | changed taken =>
    unfold step
    dsimp only
    split
    · exact .same rfl
    split
    · exact .same rfl
    · exact .same rfl
    · split <;> exact .same rfl
    · exact .same rfl
    · exact .same rfl
  | take =>
    unfold step
    dsimp only
    split
    · split
      · exact logged_took _ rfl rfl
      · exact logged_took _ rfl rfl
      · split <;> exact .same rfl
    · exact .same rfl
  | go =>
    unfold step
    dsimp only
    split
    · exact logged_go _
    · exact .same rfl
  | outcome o =>
    unfold step
    dsimp only
    split
    · exact logged_sendEnded _ o
    · exact .same rfl

/-- **A frame that is turned down without a later keyframe** sets the signal. -/
theorem idr_step (act : Act) {f : Frame}
    (h : (w.step act).log = .refused f :: w.log ∨ (w.step act).log = .empty f :: w.log)
    (hkey : w.NoLaterKey f.seq) : (w.step act).idr = true := by
  cases w.logged_step act with
  | same hlog =>
    rw [hlog] at h
    rcases h with h | h
    · exact absurd h.symm (cons_ne_self _ _)
    · exact absurd h.symm (cons_ne_self _ _)
  | broke e hlog he =>
    rw [hlog] at h
    rcases h with h | h
    · exact absurd (cons.inj h).1 (he f).1
    · exact absurd (cons.inj h).1 (he f).2
  | turnedDown e g hlog he hidr =>
    have hfg : g = f := by
      rw [hlog] at h
      rcases h with h | h <;> rcases he with rfl | rfl <;> cases (cons.inj h).1 <;> rfl
    rw [hfg] at hidr
    exact hidr hkey

end World

/-- **The sender's reference chain.** In the log of every run, every delta that was passed to `send_frame`
was supported: the frame passed before it in its generation has the sequence number before, and since the
last keyframe was passed no failed receipt of that keyframe or later was joined, no receipt task failed to
join, and no frame was empty or refused. And a step that refuses a frame or takes an empty one while no
later keyframe is recorded sets the signal. -/
theorem frameChain_sound (acts : List Act) :
    (∀ after f before, (World.run acts).log = after ++ .passed f :: before → f.keyframe = false →
      Supported before f.generation f.seq) ∧
    ∀ (n : ℕ) (act : Act) (f : Frame), acts[n]? = some act →
      ((World.run (acts.take (n + 1))).log = .refused f :: (World.run (acts.take n)).log ∨
        (World.run (acts.take (n + 1))).log = .empty f :: (World.run (acts.take n)).log) →
      (World.run (acts.take n)).NoLaterKey f.seq → (World.run (acts.take (n + 1))).idr = true := by
  constructor
  · have hinv := Inv.run acts acts.length
    rw [take_length] at hinv
    exact hinv.deltas
  intro n act f hact hlog hkey
  have hstep : World.run (acts.take (n + 1)) = (World.run (acts.take n)).step act :=
    foldl_take_succ hact
  rw [hstep] at hlog ⊢
  exact World.idr_step act hlog hkey

/-- A key and its delta are passed; the delta's receipt fails, and the next delta is refused. -/
example :
    (World.run [.push ⟨5, true, 9, 0⟩, .push ⟨6, false, 9, 0⟩, .push ⟨7, false, 9, 0⟩, .look, .drained,
      .take, .drained, .go, .outcome .superseded, .look, .drained, .take, .drained, .go, .outcome .sent,
      .look, .join 1 .failed, .drained, .take, .drained, .go]).log
      = [.refused ⟨7, false, 9, 0⟩, .failed 6, .passed ⟨6, false, 9, 0⟩, .passed ⟨5, true, 9, 0⟩] := by
  decide

end Rds.Desktop.Writer
