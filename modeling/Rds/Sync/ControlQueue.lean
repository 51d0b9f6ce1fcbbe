import Rds.Sync.Control

/-!
# When the control queue is lossless

A conforming holder can have all of its `Offer` and `ManifestPart` frames on the
way before the receiving role takes the first one. The reader does not wait for
room, so the exchange is lossless on every schedule exactly when all the frames
fit into the queue at once: at most seven parts beside the offer
(`lossless_iff`).

* If they fit, the messages are at any time split between the queue, the stream and
  the holder, in order, and the role stands where the messages it has taken put it
  (`Flowing`). Every step keeps this, and a state in which nothing is enabled has
  nothing left to deliver.
* If they do not fit, the schedule that lets the holder and the reader run nine
  times before the role polls once ends in a flood.
-/

namespace Rds

open Framework List ControlFrames ReadManifest Exchange Control

/-! ### Conforming exchanges -/

/-- The role lets the offered path pass. -/
def Role.Accepts : Role → Bytes → Prop
  | .serve access preflight, rel =>
    access.write = true ∧ (∃ n, checkRelPath rel = .ok n ∧ access.permitsPath n = true) ∧
      preflight = .ok ()
  | .pull relPath, rel => ∃ n, checkRelPath relPath = .ok n ∧ checkRelPath rel = .ok n

namespace Exchange

/-- The manifest is well formed and within the negotiated bounds, and the role
accepts the path. -/
structure Conforming (x : Exchange) : Prop where
  tiling : Tiling x.manifest
  chunks : x.wire.isV2 = true → x.manifest.chunks.length ≤ x.wire.limits.maxChunks
  chunk : x.wire.isV2 = true → ∀ c ∈ x.manifest.chunks, c.len ≤ x.wire.limits.maxChunk
  accepted : x.role.Accepts x.rel

/-- On every schedule the reader does not flood, and the exchange comes to an end
with `read_manifest` returning the manifest that was sent. -/
structure Lossless (x : Exchange) : Prop where
  never_floods : ∀ acts s, x.machine.run acts x.start = some s → s.frames.cause ≠ some flooded
  ends : ∃ bound, ∀ acts s, x.machine.run acts x.start = some s → acts.length ≤ bound
  returns : ∀ acts s, x.machine.run acts x.start = some s → x.machine.Stuck s →
    s.consumer = .returned x.manifest

/-- The parts of the manifest. -/
def parts (x : Exchange) : List (List Chunk) := batches manifestBatch x.manifest.chunks

theorem length_messages_le_iff (x : Exchange) :
    x.messages.length ≤ controlQueue ↔ x.manifest.chunks.length ≤ 7 * manifestBatch := by
  have hbatch : 0 < manifestBatch := by decide
  show (_ :: (batches manifestBatch x.manifest.chunks).map _).length ≤ 8 ↔ _
  rw [length_cons, length_map, Nat.succ_le_succ_iff, length_batches_le_iff hbatch]

end Exchange

/-! ### Every schedule ends -/

/-- How many waits a role has before it. -/
def Consumer.rank : Consumer → ℕ
  | .first => 3
  | .preflight .. => 2
  | .answer _ => 2
  | .manifest .. => 1
  | _ => 0

theorem Role.rank_ofReadManifest_le (role : Role) (size : ℕ) (root : ChunkHash) (chunkCount : ℕ)
    (r : ReadManifest) : (role.ofReadManifest size root chunkCount r).rank ≤ 1 := by
  cases r with
  | reading chunks => exact le_rfl
  | ok m | bail why => exact Nat.zero_le 1

theorem Role.rank_resume_le {wire : Wire} {role : Role} {c : Consumer}
    {f : Except Bail SyncMsg → Consumer} (h : role.resume wire c = some f)
    (msg : Except Bail SyncMsg) : (f msg).rank ≤ c.rank := by
  have hread := role.rank_ofReadManifest_le
  cases c with
  | first =>
    cases role with
    | pull relPath => cases h
    | serve access result =>
      cases h
      unfold onFirst
      repeat' split
      all_goals exact Nat.le_add_left _ _
  | answer requested =>
    cases h
    show (onAnswer wire role requested msg).rank ≤ 2
    unfold onAnswer
    repeat' split
    all_goals first | exact Nat.zero_le 2 | exact (hread ..).trans (by decide)
  | manifest size root chunkCount chunks =>
    cases h
    exact hread ..
  | preflight size root chunkCount | returned m | serving rel | failed told why => cases h

theorem Role.rank_resume_error_lt {wire : Wire} {role : Role} {c : Consumer}
    {f : Except Bail SyncMsg → Consumer} (h : role.resume wire c = some f) (e : Bail) :
    (f (.error e)).rank < c.rank := by
  cases c with
  | first =>
    cases role with
    | pull relPath => cases h
    | serve access result =>
      cases h
      exact Nat.succ_pos 2
  | answer requested =>
    cases h
    exact Nat.succ_pos 1
  | manifest size root chunkCount chunks =>
    cases h
    exact Nat.succ_pos 0
  | preflight size root chunkCount | returned m | serving rel | failed told why => cases h

theorem ControlFrames.length_queue_trySend_le {frames : ControlFrames} (other : ControlFrames)
    (msg : SyncMsg) (ho : other.queue.length ≤ frames.queue.length + 1) :
    ((frames.trySend msg).getD other).queue.length ≤ frames.queue.length + 1 := by
  unfold trySend
  split
  · show (frames.queue ++ [msg]).length ≤ _
    rw [length_append, length_singleton]
  · exact ho

theorem ControlFrames.length_queue_readerTurn_le (wire : Wire) (frames : ControlFrames)
    (frame : Except IoErrorKind SyncMsg) :
    (frames.readerTurn wire frame).queue.length ≤ frames.queue.length + 1 := by
  unfold readerTurn
  split
  · exact Nat.le_succ _
  split
  · exact Nat.le_succ _
  · exact length_queue_trySend_le frames _ (Nat.le_succ _)
  · exact length_queue_trySend_le frames _ (Nat.le_succ _)
  · exact length_queue_trySend_le (frames.break_ flooded) _ (Nat.le_succ _)

/-- What is left to do: a frame is written, read and taken. -/
def Control.work (s : Control) : ℕ :=
  3 * s.unsent.length + 2 * s.inFlight.length + s.frames.queue.length + s.consumer.rank

/-- **Every action does some of the work.** -/
theorem Exchange.work_lt (x : Exchange) (a : ControlAct) (s t : Control)
    (h : x.machine.step a s = some t) : t.work < s.work := by
  cases a with
  | write =>
    change write s = some t at h
    unfold write at h
    split at h
    · cases h
    next f unsent hu =>
    cases h
    simp only [work, hu, length_append, length_cons, length_nil]
    omega
  | read =>
    change x.read s = some t at h
    unfold Exchange.read at h
    split at h
    · split at h
      · cases h
      next f inFlight hf =>
      cases h
      have hq := s.frames.length_queue_readerTurn_le x.wire (.ok f)
      simp only [work, hf, length_cons]
      omega
    · cases h
  | poll =>
    change x.poll s = some t at h
    unfold poll at h
    split at h
    · next f msg frames hf hn =>
      cases h
      unfold ControlFrames.next at hn
      split at hn
      · next m queue hq =>
        -- a message was taken
        cases hn
        have hr := Role.rank_resume_le hf (.ok m)
        simp only [work, hq, length_cons]
        omega
      split at hn
      · cases hn
      cases hn
      have hr := Role.rank_resume_error_lt hf (.message [.text "sync control stream closed"])
      simp only [work]
      omega
    · cases h
  | preflight =>
    change x.preflight s = some t at h
    unfold preflight at h
    split at h
    · next size root chunkCount access result hc hrole =>
      cases h
      have hr : (x.role.onPreflight x.wire size root chunkCount result).rank ≤ 1 := by
        cases result with
        | error e => exact Nat.zero_le 1
        | ok u => exact x.role.rank_ofReadManifest_le ..
      have hs : s.consumer.rank = 2 := by
        rw [hc]
        rfl
      simp only [work]
      omega
    · cases h

/-! ### Where the role stands -/

/-- The role has taken a part of the messages; these are left. -/
inductive Phase (x : Exchange) : Consumer → List SyncMsg → Prop where
  | first (access : Access) (h : x.role = .serve access (.ok ())) : Phase x .first x.messages
  | answer (relPath n : Bytes) (h : x.role = .pull relPath) (hn : checkRelPath x.rel = .ok n) :
      Phase x (.answer n) x.messages
  | preflight (access : Access) (h : x.role = .serve access (.ok ())) :
      Phase x (.preflight x.manifest.size x.manifest.root x.manifest.chunks.length)
        (x.parts.map .manifestPart)
  | reading (taken : List (List Chunk)) (part : List Chunk) (left : List (List Chunk))
      (h : taken ++ part :: left = x.parts) :
      Phase x (.manifest x.manifest.size x.manifest.root x.manifest.chunks.length taken.flatten)
        ((part :: left).map .manifestPart)
  | returned : Phase x (.returned x.manifest) []

section Phases

variable {x : Exchange} {c : Consumer} {msg : SyncMsg} {rest : List SyncMsg}

theorem phase_start (hx : x.Conforming) : Phase x x.role.start x.messages := by
  have hacc := hx.accepted
  cases hrole : x.role with
  | serve access result =>
    rw [hrole] at hacc
    obtain ⟨-, -, rfl⟩ := hacc
    exact .first access hrole
  | pull relPath =>
    rw [hrole] at hacc
    obtain ⟨n, hreq, hn⟩ := hacc
    simp only [Role.start, hreq]
    exact .answer relPath n hrole hn

theorem Phase.suffix (h : Phase x c rest) : rest <:+ x.messages := by
  cases h with
  | first | answer => exact suffix_refl _
  | preflight => exact suffix_cons _ _
  | reading taken part left h =>
    refine List.IsSuffix.trans ?_ (suffix_cons _ _)
    show _ <:+ x.parts.map _
    rw [← h, map_append]
    exact suffix_append _ _
  | returned => exact nil_suffix

/-- A part that is left has a chunk, is not too long, and does not exceed what is
missing. -/
theorem part_spec {taken left : List (List Chunk)} {part : List Chunk}
    (h : taken ++ part :: left = x.parts) : part ≠ [] ∧ part.length ≤ manifestBatch ∧
      taken.flatten.length + part.length ≤ x.manifest.chunks.length := by
  have hpart : part ≠ [] ∧ part.length ≤ manifestBatch := by
    refine mem_batches (by decide) (?_ : part ∈ x.parts)
    rw [← h]
    exact mem_append_right _ mem_cons_self
  have hflat : x.parts.flatten = x.manifest.chunks := flatten_batches (by decide) _
  refine ⟨hpart.1, hpart.2, ?_⟩
  rw [← hflat, ← h, flatten_append, flatten_cons, length_append, length_append]
  omega

theorem ReadManifest.start_eq (hx : x.Conforming) :
    ReadManifest.start x.wire x.manifest.size x.manifest.root x.manifest.chunks.length =
      ReadManifest.loop x.wire x.manifest.size x.manifest.root x.manifest.chunks.length [] := by
  have hcount := hx.tiling.count
  unfold start
  rw [if_neg (by omega), if_neg]
  rintro ⟨hv2, hgt⟩
  have := hx.chunks hv2
  omega

theorem ReadManifest.finish_eq (hx : x.Conforming) :
    ReadManifest.finish x.wire x.manifest x.manifest.chunks.length = .ok x.manifest := by
  unfold finish
  rw [if_neg (not_not.mpr rfl), checkManifest_eq_ok_iff.mpr hx.tiling]
  rw [if_neg]
  rintro ⟨hv2, hany⟩
  obtain ⟨c, hc, hlen⟩ := any_eq_true.mp hany
  exact absurd (hx.chunk hv2 c hc) (by simpa using hlen)

/-- The head of the loop: it goes on while a part is left. -/
theorem phase_loop (hx : x.Conforming) {taken left : List (List Chunk)} (h : taken ++ left = x.parts) :
    Phase x (x.role.ofReadManifest x.manifest.size x.manifest.root x.manifest.chunks.length
      (loop x.wire x.manifest.size x.manifest.root x.manifest.chunks.length taken.flatten))
      (left.map .manifestPart) := by
  unfold loop
  cases left with
  | nil =>
    have hflat : taken.flatten = x.manifest.chunks := by
      rw [append_nil] at h
      rw [h]
      exact flatten_batches (by decide) _
    rw [hflat, if_neg (lt_irrefl _), finish_eq hx]
    exact .returned
  | cons part left =>
    obtain ⟨hne, -, hle⟩ := part_spec h
    have hpos := length_pos_iff.mpr hne
    rw [if_pos (by omega)]
    exact .reading taken part left h

theorem phase_readManifest (hx : x.Conforming) :
    Phase x (x.role.ofReadManifest x.manifest.size x.manifest.root x.manifest.chunks.length
      (ReadManifest.start x.wire x.manifest.size x.manifest.root x.manifest.chunks.length))
      (x.parts.map .manifestPart) := by
  rw [start_eq hx]
  exact @phase_loop x hx [] x.parts rfl

/-- **Taking a message** moves the role on. -/
theorem Phase.resume (hx : x.Conforming) (h : Phase x c (msg :: rest))
    {f : Except Bail SyncMsg → Consumer} (hf : x.role.resume x.wire c = some f) :
    Phase x (f (.ok msg)) rest := by
  have hacc := hx.accepted
  generalize hm : msg :: rest = all at h
  cases h with
  | first access h =>
    -- the message is the offer
    cases hm
    rw [h] at hf hacc
    cases hf
    obtain ⟨hwrite, ⟨n, hn, hpermits⟩, -⟩ := hacc
    have hfirst : Role.onFirst access (.ok (.offer x.rel x.manifest.size x.manifest.root
        x.manifest.chunks.length)) =
        .preflight x.manifest.size x.manifest.root x.manifest.chunks.length := by
      simp only [Role.onFirst, hwrite, hn, hpermits, Bool.not_true, Bool.false_eq_true, if_false]
    rw [hfirst]
    exact .preflight access h
  | answer relPath n h hn =>
    cases hm
    cases hf
    simp only [Role.onAnswer, hn, ne_eq, not_true_eq_false, if_false]
    exact phase_readManifest hx
  | preflight => cases hf
  | returned => cases hm
  | reading taken part left h =>
    cases hm
    cases hf
    obtain ⟨hne, hlen, hle⟩ := part_spec h
    have htake : take x.wire x.manifest.size x.manifest.root
        x.manifest.chunks.length taken.flatten (.ok (.manifestPart part)) =
        loop x.wire x.manifest.size x.manifest.root x.manifest.chunks.length
          (taken ++ [part]).flatten := by
      show (if _ then _ else _) = _
      rw [if_neg, flatten_append, flatten_singleton]
      rintro (hnil | hbig | hover)
      · exact hne hnil
      · omega
      · omega
    show Phase x (x.role.ofReadManifest _ _ _ (take ..)) _
    rw [htake]
    exact phase_loop hx (by rw [← h, append_assoc]; rfl)

theorem Phase.onPreflight (hx : x.Conforming) {size : ℕ} {root : ChunkHash} {chunkCount : ℕ}
    (h : Phase x (.preflight size root chunkCount) rest) :
    ∃ access, x.role = .serve access (.ok ()) ∧
      Phase x (x.role.onPreflight x.wire size root chunkCount (.ok ())) rest := by
  cases h with
  | preflight access h => exact ⟨access, h, phase_readManifest hx⟩

theorem Phase.enabled (h : Phase x c (msg :: rest)) :
    (∃ f, x.role.resume x.wire c = some f) ∨ ∃ size root chunkCount, c = .preflight size root chunkCount := by
  generalize hm : msg :: rest = all at h
  cases h with
  | first access h =>
    rw [h]
    exact .inl ⟨_, rfl⟩
  | answer | reading => exact .inl ⟨_, rfl⟩
  | preflight => exact .inr ⟨_, _, _, rfl⟩
  | returned => cases hm

/-- A role with no message left has returned the manifest, unless its preflight is
still running. -/
theorem Phase.returned_of_nil (h : Phase x c [])
    (hpre : ∀ size root chunkCount, c ≠ .preflight size root chunkCount) :
    c = .returned x.manifest := by
  generalize hm : ([] : List SyncMsg) = all at h
  cases h with
  | first | answer | reading => cases hm
  | preflight => exact absurd rfl (hpre _ _ _)
  | returned => rfl

end Phases

/-! ### The messages flow -/

/-- A message the reader only queues. -/
def SyncMsg.Plain : SyncMsg → Prop
  | .cancel _ => False
  | .refuse _ => False
  | .session _ _ => False
  | _ => True

theorem plain_of_mem_messages {x : Exchange} {msg : SyncMsg} (h : msg ∈ x.messages) :
    msg.Plain := by
  rcases mem_cons.mp h with rfl | hpart
  · trivial
  · obtain ⟨part, -, rfl⟩ := mem_map.mp hpart
    trivial

theorem ControlFrames.readerTurn_frame (wire : Wire) (frames : ControlFrames) {msg : SyncMsg}
    (h : msg.Plain) :
    frames.readerTurn wire (.ok (wire.frame msg)) = (frames.trySend msg).getD (frames.break_ flooded) := by
  have hdec : wire.decode (wire.frame msg) = .ok msg := by
    refine wire.decode_frame ?_
    cases msg <;> trivial
  unfold readerTurn
  dsimp only
  rw [hdec]
  cases msg <;> first | rfl | exact h.elim

/-- **The invariant.** The reader runs, and the messages the role has still to take
are in the queue, on their way, or with the holder, in this order. -/
structure Flowing (x : Exchange) (s : Control) : Prop where
  running : s.frames.running = true
  cause : s.frames.cause = none
  flow : ∃ sent unsent, Phase x s.consumer (s.frames.queue ++ sent ++ unsent) ∧
    s.inFlight = sent.map x.wire.frame ∧ s.unsent = unsent.map x.wire.frame

theorem flowing_start {x : Exchange} (hx : x.Conforming) : Flowing x x.start :=
  ⟨rfl, rfl, [], x.messages, phase_start hx, rfl, rfl⟩

/-- **Every action keeps the messages flowing**, if they fit into the queue. -/
theorem Flowing.step {x : Exchange} (hx : x.Conforming) (hfit : x.messages.length ≤ controlQueue)
    (a : ControlAct) (s t : Control) (h : Flowing x s) (hstep : x.machine.step a s = some t) :
    Flowing x t := by
  obtain ⟨hrun, hcause, sent, unsent, hphase, hflight, hunsent⟩ := h
  cases a with
  | write =>
    change write s = some t at hstep
    unfold write at hstep
    cases unsent with
    | nil =>
      rw [hunsent] at hstep
      cases hstep
    | cons msg unsent =>
      rw [hunsent] at hstep
      cases hstep
      refine ⟨hrun, hcause, sent ++ [msg], unsent, ?_, ?_, rfl⟩
      · rw [append_assoc, append_assoc, singleton_append, ← append_assoc]
        exact hphase
      · rw [hflight, map_append]
        rfl
  | read =>
    change x.read s = some t at hstep
    unfold Exchange.read at hstep
    rw [if_pos hrun] at hstep
    cases sent with
    | nil =>
      rw [hflight] at hstep
      cases hstep
    | cons msg sent =>
      rw [hflight] at hstep
      cases hstep
      have hsuffix := hphase.suffix
      have hplain : msg.Plain := plain_of_mem_messages (hsuffix.subset (by simp))
      -- all messages together fit, so there is room for this one
      have hroom : s.frames.queue.length < controlQueue := by
        have hlen := hsuffix.length_le
        simp only [length_append, length_cons] at hlen
        omega
      have hturn : s.frames.readerTurn x.wire (.ok (x.wire.frame msg)) =
          { s.frames with queue := s.frames.queue ++ [msg] } := by
        rw [readerTurn_frame x.wire _ hplain]
        unfold trySend
        rw [if_pos hroom]
        rfl
      rw [hturn]
      refine ⟨hrun, hcause, sent, unsent, ?_, rfl, hunsent⟩
      rw [append_assoc s.frames.queue, singleton_append]
      exact hphase
  | poll =>
    change x.poll s = some t at hstep
    unfold poll at hstep
    split at hstep
    · next f msg frames hf hn =>
      cases hstep
      unfold ControlFrames.next at hn
      split at hn
      · next m queue hq =>
        cases hn
        rw [hq] at hphase
        exact ⟨hrun, hcause, sent, unsent, hphase.resume hx hf, hflight, hunsent⟩
      · rw [if_pos hrun] at hn
        cases hn
    · cases hstep
  | preflight =>
    change x.preflight s = some t at hstep
    unfold preflight at hstep
    split at hstep
    · next size root chunkCount access result hc hrole =>
      cases hstep
      rw [hc] at hphase
      obtain ⟨access', hrole', hphase'⟩ := hphase.onPreflight hx
      obtain ⟨rfl, rfl⟩ := Role.serve.inj (hrole.symm.trans hrole')
      exact ⟨hrun, hcause, sent, unsent, hphase', hflight, hunsent⟩
    · cases hstep

/-- No deadlock: the exchange stops only when the manifest has been returned. -/
theorem Flowing.returned {x : Exchange} (hx : x.Conforming) {s : Control} (h : Flowing x s)
    (hstuck : x.machine.Stuck s) : s.consumer = .returned x.manifest := by
  obtain ⟨hrun, hcause, sent, unsent, hphase, hflight, hunsent⟩ := h
  have hwrite : write s = none := hstuck .write
  have hread : x.read s = none := hstuck .read
  have hpoll : x.poll s = none := hstuck .poll
  have hpre : x.preflight s = none := hstuck .preflight
  -- the holder has written everything, and the reader has read it
  obtain rfl : unsent = [] := by
    cases unsent with
    | nil => rfl
    | cons msg unsent =>
      unfold write at hwrite
      rw [hunsent] at hwrite
      cases hwrite
  obtain rfl : sent = [] := by
    cases sent with
    | nil => rfl
    | cons msg sent =>
      unfold Exchange.read at hread
      rw [if_pos hrun, hflight] at hread
      cases hread
  rw [append_nil, append_nil] at hphase
  have hno : ∀ size root chunkCount, s.consumer ≠ .preflight size root chunkCount := by
    intro size root chunkCount hc
    rw [hc] at hphase
    obtain ⟨access, hrole, -⟩ := hphase.onPreflight hx
    unfold preflight at hpre
    rw [hc, hrole] at hpre
    cases hpre
  -- a queued message would be taken
  cases hq : s.frames.queue with
  | cons msg queue =>
    rw [hq] at hphase
    rcases hphase.enabled with ⟨f, hf⟩ | ⟨size, root, chunkCount, hc⟩
    · unfold poll ControlFrames.next at hpoll
      rw [hf, hq] at hpoll
      cases hpoll
    · exact absurd hc (hno _ _ _)
  | nil =>
    rw [hq] at hphase
    exact hphase.returned_of_nil hno

/-! ### Floods -/

section Flood

variable {x : Exchange}

theorem run_write (k : ℕ) (s : Control) (hk : k ≤ s.unsent.length) :
    x.machine.run (List.replicate k .write) s =
      some { s with unsent := s.unsent.drop k, inFlight := s.inFlight ++ s.unsent.take k } := by
  induction k generalizing s with
  | zero =>
    rw [take_zero, append_nil]
    rfl
  | succ k ih =>
    obtain ⟨unsent, inFlight, frames, consumer⟩ := s
    cases unsent with
    | nil => exact absurd hk (Nat.not_succ_le_zero k)
    | cons f unsent =>
      show x.machine.run (replicate k .write) ⟨unsent, inFlight ++ [f], frames, consumer⟩ = _
      rw [ih _ (Nat.le_of_succ_le_succ hk)]
      simp

theorem run_read (msgs rest : List SyncMsg) (queue : List SyncMsg) (unsent : List SyncMsg)
    (consumer : Consumer) (hplain : ∀ msg ∈ msgs, msg.Plain)
    (hroom : queue.length + msgs.length ≤ controlQueue) :
    x.machine.run (List.replicate msgs.length .read)
        ⟨unsent, msgs.map x.wire.frame ++ rest, ⟨queue, true, none⟩, consumer⟩ =
      some ⟨unsent, rest, ⟨queue ++ msgs, true, none⟩, consumer⟩ := by
  induction msgs generalizing queue with
  | nil =>
    rw [append_nil]
    rfl
  | cons msg msgs ih =>
    rw [length_cons] at hroom
    have hturn : readerTurn x.wire ⟨queue, true, none⟩ (.ok (x.wire.frame msg)) =
        ⟨queue ++ [msg], true, none⟩ := by
      rw [readerTurn_frame x.wire _ (hplain msg mem_cons_self)]
      unfold trySend
      rw [if_pos (by dsimp only; omega)]
      rfl
    have hrest := ih (queue ++ [msg]) (fun m hm => hplain m (mem_cons_of_mem msg hm))
      (by rw [length_append, length_singleton]; omega)
    rw [append_assoc, singleton_append] at hrest
    show x.machine.run (replicate msgs.length .read) ⟨unsent, msgs.map x.wire.frame ++ rest,
      readerTurn x.wire ⟨queue, true, none⟩ (.ok (x.wire.frame msg)), consumer⟩ = _
    rw [hturn]
    exact hrest

/-- **A flood.** If the messages do not fit, the holder and the reader can run ahead
of the role until the queue overflows. -/
theorem exists_flooded (hbig : controlQueue < x.messages.length) :
    ∃ acts s, x.machine.run acts x.start = some s ∧ s.frames.cause = some flooded := by
  obtain ⟨msgs, msg, rest, hsplit, hlen⟩ : ∃ msgs msg rest,
      x.messages = msgs ++ msg :: rest ∧ msgs.length = controlQueue := by
    refine ⟨x.messages.take controlQueue, x.messages[controlQueue],
      x.messages.drop (controlQueue + 1), ?_, by rw [length_take]; omega⟩
    rw [← drop_eq_getElem_cons hbig, take_append_drop]
  have hplain : ∀ m ∈ msgs ++ [msg], m.Plain := by
    intro m hm
    refine plain_of_mem_messages (x := x) ?_
    rw [hsplit]
    rcases mem_append.mp hm with hm | hm
    · exact mem_append_left _ hm
    · exact mem_append_right _ (mem_singleton.mp hm ▸ mem_cons_self)
  -- the holder writes nine frames, the reader takes eight, and then the ninth
  refine ⟨replicate (controlQueue + 1) .write ++ (replicate msgs.length .read ++ [.read]),
    ⟨rest.map x.wire.frame, [], break_ ⟨msgs, true, none⟩ flooded, x.role.start⟩,
    ?_, rfl⟩
  have hstart : x.start = ⟨(msgs ++ msg :: rest).map x.wire.frame, [], ⟨[], true, none⟩, x.role.start⟩ := by
    unfold Exchange.start
    rw [hsplit]
    rfl
  have hwritten : x.machine.run (replicate (controlQueue + 1) .write) x.start =
      some ⟨rest.map x.wire.frame, msgs.map x.wire.frame ++ [x.wire.frame msg],
        ⟨[], true, none⟩, x.role.start⟩ := by
    rw [hstart, run_write _ _ (by simp [hlen])]
    simp [hlen, take_append, drop_append]
  rw [Machine.run_append, hwritten, Option.bind_some, Machine.run_append,
    run_read msgs _ [] _ _ (fun m hm => hplain m (mem_append_left _ hm)) (by simp [hlen]),
    Option.bind_some]
  show some (mk _ _ (readerTurn x.wire _ (.ok (x.wire.frame msg))) _) = _
  rw [readerTurn_frame x.wire _ (hplain msg (by simp))]
  unfold trySend
  rw [if_neg (by simp [hlen])]
  rfl

end Flood

/-- The digest of 256 KiB of zeros. -/
def zeroHash : ChunkHash :=
  ⟨[0x86, 0xbb, 0x2b, 0x52, 0x1a, 0x10, 0x61, 0x2d, 0x5a, 0x1d, 0x38, 0x20,
    0x4f, 0xac, 0x4f, 0xa6, 0x32, 0x46, 0x6d, 0x18, 0x66, 0x14, 0x4d, 0x8a,
    0x6a, 0x7e, 0x3a, 0xfc, 0x05, 0x0c, 0xe7, 0xae], rfl⟩

/-- The manifest of 3585 chunks of 256 KiB of zeros: one chunk more than seven parts
hold. -/
def zeroManifest : Manifest where
  size := 3585 * 262144
  root := ⟨[0x68, 0xb6, 0x88, 0x29, 0x1a, 0xb0, 0x8a, 0xec, 0xa5, 0xd0, 0x46, 0x2e,
    0xbb, 0xde, 0xcc, 0x21, 0xf5, 0xbe, 0x4b, 0xc9, 0xe9, 0x2c, 0x04, 0x13,
    0xce, 0x61, 0x00, 0xd9, 0xbe, 0x33, 0x39, 0xc6], rfl⟩
  chunks := (List.range 3585).map fun i => ⟨zeroHash, i * 262144, 262144⟩

/-- A push of it to an agent that grants everything. -/
def zeroExchange : Exchange where
  wire := .v1
  role := .serve ⟨true, true, none⟩ (.ok ())
  rel := utf8 "zeros"
  manifest := zeroManifest

theorem zeroExchange_conforming : zeroExchange.Conforming where
  tiling := checkManifest_eq_ok_iff.mp (by decide +kernel)
  chunks h := by cases h
  chunk h := by cases h
  accepted := ⟨rfl, ⟨utf8 "zeros", by decide +kernel, rfl⟩, rfl⟩

/-- The push is conforming, and a schedule floods the queue. -/
theorem zeroExchange_floods :
    zeroExchange.Conforming ∧ ∃ acts s, zeroExchange.machine.run acts zeroExchange.start = some s ∧
        s.frames.cause = some flooded := by
  have hlen : zeroExchange.manifest.chunks.length = 3585 := by
    unfold zeroExchange zeroManifest
    rw [length_map, length_range]
  refine ⟨zeroExchange_conforming, exists_flooded ?_⟩
  rw [← Nat.not_le, length_messages_le_iff, hlen]
  decide

/-! ### The threshold -/

/-- **Losslessness.** The control queue loses nothing on any schedule exactly when
the manifest has at most seven parts. -/
theorem lossless_iff (x : Exchange) (hx : x.Conforming) :
    x.Lossless ↔ x.manifest.chunks.length ≤ 7 * manifestBatch := by
  rw [← x.length_messages_le_iff]
  refine ⟨fun h => ?_, fun hfit => ?_⟩
  · by_contra hbig
    obtain ⟨acts, s, hrun, hflood⟩ := exists_flooded (Nat.not_le.mp hbig)
    exact h.never_floods acts s hrun hflood
  have hflow : ∀ acts s, x.machine.run acts x.start = some s → Flowing x s :=
    fun acts s hrun => Machine.run_invariant (Flowing.step hx hfit) (flowing_start hx) hrun
  refine ⟨fun acts s hrun => ?_, ⟨x.start.work, fun acts s hrun => ?_⟩, fun acts s hrun => ?_⟩
  · rw [(hflow acts s hrun).cause]
    exact Option.some_ne_none _ |>.symm
  · have hlen := Machine.run_length_le x.work_lt hrun
    omega
  · exact (hflow acts s hrun).returned hx

/-- A pull of the one-byte file `02` as `a`. -/
def byteExchange : Exchange where
  wire := .v1
  role := .pull (utf8 "./a")
  rel := utf8 "a"
  manifest := ⟨1, contentTwo, [⟨contentTwo, 0, 1⟩]⟩

theorem lossless_iff_byteExchange : byteExchange.Conforming ∧ byteExchange.Lossless := by
  have hconforming : byteExchange.Conforming :=
    { tiling := checkManifest_eq_ok_iff.mp (by decide +kernel)
      chunks := fun h => by cases h
      chunk := fun h => by cases h
      accepted := ⟨utf8 "a", by decide +kernel, by decide +kernel⟩ }
  exact ⟨hconforming, (lossless_iff byteExchange hconforming).mpr (by decide)⟩

end Rds
