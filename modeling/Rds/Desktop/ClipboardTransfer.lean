import Rds.Desktop.Clipboard

/-!
# A text from clipboard to clipboard

The serving side offers a text and, on request, sends it in chunks (`ReverseSender` of
`rds-desktop/src/clipboard.rs`); the viewer assembles them. The two sides have different bounds on a chunk, and
the empty text is one empty chunk.

`relay_from` is the run of both sides: at each offset the assembly holds the text up to there. For chunks from
anyone, `Assembled` says where the buffer comes from.
-/

namespace Rds.Desktop.Clip

open Framework List

/-! ### The sender -/

/-- `SEND_CHUNK_BYTES`. -/
def sendChunkBytes : ℕ := 16 * 1024

/-- A `ClipboardChunk`, and the arguments of `Assembly::push`. -/
structure Chunk where
  id : UInt64
  offset : ℕ
  total : ℕ
  data : Bytes

/-- `ClipboardErrorCode`, the codes of `request`. -/
inductive ClipboardErrorCode where
  | expired
  | invalidRequest
  | unavailable
  deriving DecidableEq

/-- `ReverseSender`. -/
structure ReverseSender where
  offered : Option (UInt64 × Bytes × Instant)
  outgoing : Option (UInt64 × Bytes × ℕ)
  deriving DecidableEq

namespace ReverseSender

/-- `ReverseSender::offer`, with the random id: the id and the length of the event. -/
def offer (self : ReverseSender) (text : Bytes) (id : UInt64) (now : Instant) :
    Option (UInt64 × ℕ) × ReverseSender :=
  if text.length > maxTextBytes then (none, self)
  else (some (id, text.length % 2 ^ 32), { self with offered := some (id, text, now) })

/-- `ReverseSender::request`. -/
def request (self : ReverseSender) (id : UInt64) (now : Instant) :
    Except ClipboardErrorCode Unit × ReverseSender :=
  match self.offered with
  | none => (.error .expired, self)
  | some (offeredId, text, at_) =>
    if offeredId ≠ id then (.error .invalidRequest, self)
    else if elapsed now at_ ≥ transferTimeout then (.error .expired, { self with offered := none })
    else if self.outgoing.isSome then (.error .unavailable, self)
    else (.ok (), ⟨none, some (offeredId, text, 0)⟩)

/-- `ReverseSender::sending`. -/
def sending (self : ReverseSender) : Bool := self.outgoing.isSome

/-- `ReverseSender::next_chunk`. -/
def nextChunk (self : ReverseSender) : Option Chunk × ReverseSender :=
  match self.outgoing with
  | none => (none, self)
  | some (id, bytes, offset) =>
    let end_ := min (offset + sendChunkBytes) bytes.length
    (some ⟨id, offset % 2 ^ 32, bytes.length % 2 ^ 32, (bytes.take end_).drop offset⟩,
      { self with outgoing := if end_ = bytes.length then none else some (id, bytes, end_) })

end ReverseSender

/-! ### Both sides -/

/-- Each chunk that `next_chunk` gives is pushed, at the times of a list: what `push` returned, and both sides. -/
def relay : List Instant → ReverseSender → Assembly →
    List (Except DesktopError (Option Bytes)) × ReverseSender × Assembly
  | [], sender, assembly => ([], sender, assembly)
  | now :: times, sender, assembly =>
    match sender.nextChunk with
    | (none, sender) => ([], sender, assembly)
    | (some c, sender) =>
      let pushed := push assembly c.id c.offset c.total c.data now
      let rest := relay times sender pushed.2
      (pushed.1 :: rest.1, rest.2)

/-- Pushes at these times are within both deadlines. -/
def InTime (started : Instant) : Instant → List Instant → Prop
  | _, [] => True
  | progressed, now :: times =>
    elapsed now started ≤ transferTimeout ∧ elapsed now progressed ≤ idleTimeout ∧ InTime started now times

section Relay

variable {text : Bytes} {id : UInt64} {offset : ℕ} {started progressed now : Instant}

/-- What the assembly holds when the sender is at an offset. -/
def heldAt (text : Bytes) (id : UInt64) (started : Instant) (offset : ℕ) (progressed : Instant) : Assembly :=
  if offset = 0 then none else some ⟨id, text.length, text.take offset, started, progressed⟩

/-- **One chunk.** The next chunk continues what the assembly holds, and adds to it up to its end. -/
theorem push_next {end_ : ℕ} (hlen : text.length ≤ maxTextBytes) (hutf : fromUtf8 text = some text)
    (hend : end_ = min (offset + sendChunkBytes) text.length) (hoffset : offset < text.length ∨ offset = 0)
    (hfirst : offset = 0 → started = now ∧ progressed = now)
    (htime : elapsed now started ≤ transferTimeout ∧ elapsed now progressed ≤ idleTimeout) :
    push (heldAt text id started offset progressed) id offset text.length ((text.take end_).drop offset) now =
      if end_ = text.length then (.ok (some text), none) else (.ok none, heldAt text id started end_ now) := by
  have hsend : sendChunkBytes = 16 * 1024 := rfl
  have hchunk : chunkBytes = 32 * 1024 := rfl
  have hdata : ((text.take end_).drop offset).length = end_ - offset := by
    rw [length_drop, length_take]
    omega
  have hjoin : text.take offset ++ (text.take end_).drop offset = text.take end_ := by
    have hsplit := take_append_drop offset (text.take end_)
    rwa [take_take, min_eq_left (by omega)] at hsplit
  have hcontinues : Continues (heldAt text id started offset progressed) id offset text.length
      ((text.take end_).drop offset) now ⟨id, text.length, text.take offset, started, progressed⟩ := by
    refine ⟨⟨hlen, by omega⟩, ?_, ⟨rfl, rfl⟩, ⟨?_, ?_⟩, htime, fun hempty => ?_⟩
    · by_cases hzero : offset = 0
      · obtain ⟨rfl, rfl⟩ := hfirst hzero
        subst hzero
        exact .inl ⟨rfl, rfl, rfl⟩
      · exact .inr ⟨if_neg hzero, hzero⟩
    · rw [length_take]
      omega
    · rw [length_take]
      omega
    · rw [hempty.1, length_nil] at hdata
      omega
  rw [push_of_continues hcontinues]
  rw [hjoin]
  by_cases hfull : end_ = text.length
  · rw [if_pos hfull, hfull, take_length, if_neg (by simp), hutf]
  · rw [if_neg hfull, if_pos (by rw [length_take]; omega), heldAt, if_neg (by omega)]

/-- **The run.** From an offset on, every chunk but the last is taken, and the last gives the text. -/
theorem relay_from {offered : Option (UInt64 × Bytes × Instant)} (hlen : text.length ≤ maxTextBytes)
    (hutf : fromUtf8 text = some text) (times : List Instant) :
    ∀ offset progressed, (offset < text.length ∨ offset = 0) → InTime started progressed times →
      (offset = 0 → times.head? = some started ∧ progressed = started) →
      (text.length - offset - 1) / sendChunkBytes < times.length →
      relay times ⟨offered, some (id, text, offset)⟩ (heldAt text id started offset progressed) =
        (.replicate ((text.length - offset - 1) / sendChunkBytes) (.ok none) ++ [.ok (some text)],
          ⟨offered, none⟩, none) := by
  have hmax : maxTextBytes < 2 ^ 32 := by decide
  have hsend : sendChunkBytes = 16 * 1024 := rfl
  induction times with
  | nil => exact fun _ _ _ _ _ hcount => absurd hcount (Nat.not_lt_zero _)
  | cons now times ih =>
    intro offset progressed hoffset htime hfirst hcount
    have hstart : offset = 0 → started = now ∧ progressed = now := fun hzero =>
      have h := hfirst hzero
      ⟨(Option.some.inj h.1).symm, h.2.trans (Option.some.inj h.1).symm⟩
    have hpush : push (heldAt text id ..) _ _ _ _ _ = _ :=
      push_next hlen hutf rfl hoffset hstart ⟨htime.1, htime.2.1⟩
    rw [relay, ReverseSender.nextChunk]
    dsimp only
    rw [Nat.mod_eq_of_lt (by omega : offset < 2 ^ 32), Nat.mod_eq_of_lt (by omega : text.length < 2 ^ 32), hpush]
    by_cases hfull : min (offset + sendChunkBytes) text.length = text.length
    · have hnone : (text.length - offset - 1) / sendChunkBytes = 0 := Nat.div_eq_of_lt (by omega)
      rw [if_pos hfull, if_pos hfull, hnone]
      cases times <;> rfl
    have hend : min (offset + sendChunkBytes) text.length = offset + sendChunkBytes := by omega
    have hsucc : (text.length - offset - 1) / sendChunkBytes =
        (text.length - (offset + sendChunkBytes) - 1) / sendChunkBytes + 1 := by
      have hsub : text.length - (offset + sendChunkBytes) - 1 = text.length - offset - 1 - sendChunkBytes := by omega
      rw [hsub]
      exact Nat.div_eq_sub_div (by omega) (by omega)
    rw [length_cons] at hcount
    rw [if_neg hfull, if_neg hfull, hend, hsucc]
    rw [ih _ now (by omega) htime.2.2 (by omega) (by omega), replicate_succ, cons_append]

end Relay

/-! ### Chunks from anyone -/

/-- The calls end with chunks of one id and total from offset 0 on, without gaps, and this is their data. -/
inductive EndsWith (id : UInt64) (total : ℕ) : List Chunk → Bytes → Prop where
  | first {before : List Chunk} {c : Chunk} (hsame : id = c.id ∧ total = c.total) (hplace : c.offset = 0) :
      EndsWith id total (before ++ [c]) c.data
  | next {calls : List Chunk} {data : Bytes} {c : Chunk} (h : EndsWith id total calls data)
      (hsame : id = c.id ∧ total = c.total) (hplace : c.offset = data.length) :
      EndsWith id total (calls ++ [c]) (data ++ c.data)

/-- One call of `push`, and its time. -/
def pushChunk (assembly : Assembly) (call : Chunk × Instant) : Except DesktopError (Option Bytes) × Assembly :=
  push assembly call.1.id call.1.offset call.1.total call.1.data call.2

/-- The assembly after calls of `push`. -/
def pushAll (calls : List (Chunk × Instant)) : Assembly :=
  calls.foldl (fun assembly call => (pushChunk assembly call).2) none

/-- **Where the buffer comes from.** -/
structure Assembled (calls : List Chunk) (p : Partial) : Prop where
  bound : p.bytes.length ≤ p.total ∧ p.total ≤ maxTextBytes
  chunks : EndsWith p.id p.total calls p.bytes

theorem endsWith_of_continues {calls : List Chunk} {assembly : Assembly} {c : Chunk} {now : Instant}
    {p : Partial}
    (h : ∀ q ∈ assembly, Assembled calls q) (hc : Continues assembly c.id c.offset c.total c.data now p) :
    EndsWith p.id p.total (calls ++ [c]) (p.bytes ++ c.data) := by
  rcases hc.found with ⟨-, hzero, rfl⟩ | ⟨hsome, -⟩
  · exact .first hc.same hzero
  · exact (h p hsome).chunks.next hc.same hc.place.1.symm

theorem push_error {assembly assembly' : Assembly} {call : Chunk × Instant} {e : DesktopError}
    (h : pushChunk assembly call = (.error e, assembly')) : assembly' = none := by
  unfold pushChunk push at h
  dsimp only at h
  repeat' split at h
  all_goals cases h
  all_goals rfl

/-- **The run of the calls**, by the step `endsWith_of_continues`. -/
theorem assembled_pushAll (calls : List (Chunk × Instant)) :
    ∀ p ∈ pushAll calls, Assembled (calls.map Prod.fst) p := by
  induction calls using reverseRecOn with
  | nil => exact nofun
  | append_singleton calls call ih =>
    intro p hp
    rw [pushAll, foldl_append, foldl_cons] at hp
    rw [map_append]
    rcases hpush : pushChunk (pushAll calls) call with ⟨result, assembly'⟩
    change p ∈ (pushChunk (pushAll calls) call).2 at hp
    rw [hpush] at hp
    cases result with
    | error e =>
      rw [push_error hpush] at hp
      cases hp
    | ok result =>
      obtain ⟨q, hq⟩ := continues_of_push hpush
      have hends := endsWith_of_continues ih hq
      have heq := (push_of_continues hq).symm.trans hpush
      split at heq
      next =>
        cases heq
        cases hp
        refine ⟨⟨?_, hq.same.2 ▸ hq.size.1⟩, hends⟩
        rw [length_append, hq.same.2]
        exact hq.place.2
      next =>
        split at heq
        · cases heq
          cases hp
        · cases heq

/-- **Text transfer.** An offered text that is requested in time goes through, chunk by chunk, unless another
transfer is under way; a request with another id changes nothing; and whatever chunks come, the buffer stays
within its bound, a text consists of contiguous chunks, and an error empties the assembly. -/
theorem clipboard_transfer (sender : ReverseSender) (text : Bytes) (id : UInt64)
    (offeredAt requestedAt first : Instant)
    (times : List Instant) (hutf : fromUtf8 text = some text) (hlen : text.length ≤ maxTextBytes)
    (hexpiry : elapsed requestedAt offeredAt < transferTimeout) (htime : InTime first first times)
    (hcount : (text.length - 1) / sendChunkBytes ≤ times.length) :
    let offered := sender.offer text id offeredAt
    let requested := offered.2.request id requestedAt
    offered.1 = some (id, text.length) ∧ (requested.1 = .ok () ↔ sender.sending = false) ∧
      (requested.1 = .ok () → ∃ sender', sender'.sending = false ∧ relay (first :: times) requested.2 none =
          (.replicate ((text.length - 1) / sendChunkBytes) (.ok none) ++ [.ok (some text)], sender', none)) ∧
      (∀ (s : ReverseSender) (other : UInt64) (now : Instant), (∀ o ∈ s.offered, o.1 ≠ other) →
        (s.request other now).2 = s) ∧
      ∀ calls, (∀ p ∈ pushAll calls, Assembled (calls.map Prod.fst) p) ∧ ∀ call assembly',
          (∀ t, pushChunk (pushAll calls) call = (.ok (some t), assembly') →
            EndsWith call.1.id call.1.total ((calls ++ [call]).map Prod.fst) t) ∧
          ∀ e, pushChunk (pushAll calls) call = (.error e, assembly') → assembly' = none := by
  have hmax : maxTextBytes < 2 ^ 32 := by decide
  have hoffered : sender.offer text id offeredAt =
      (some (id, text.length), { sender with offered := some (id, text, offeredAt) }) := by
    rw [ReverseSender.offer, if_neg (not_lt.mpr hlen), Nat.mod_eq_of_lt (by omega)]
  have hrequested : ReverseSender.request { sender with offered := some (id, text, offeredAt) } id requestedAt =
      if sender.outgoing.isSome then (.error .unavailable, { sender with offered := some (id, text, offeredAt) })
      else (.ok (), ⟨none, some (id, text, 0)⟩) := by
    rw [ReverseSender.request]
    dsimp only
    rw [if_neg (not_not.mpr rfl), if_neg (not_le.mpr hexpiry)]
  intro offered requested
  have hpair : offered = _ := hoffered
  have hreq : requested = _ := (congrArg (·.2.request id requestedAt) hoffered).trans hrequested
  rw [hreq, hpair]
  refine ⟨rfl, ?_, ?_, fun s other now hother => ?_, fun calls => ⟨assembled_pushAll calls,
    fun call assembly' => ⟨fun t hpush => ?_, fun e => push_error⟩⟩⟩
  · unfold ReverseSender.sending
    cases sender.outgoing <;> simp
  · cases sender.outgoing with
    | some o => exact nofun
    | none =>
      intro _
      have hnow : ∀ limit : Duration, elapsed first first ≤ limit := fun limit =>
        (Nat.sub_self first.ns).trans_le (Nat.zero_le limit.ns)
      exact ⟨⟨none, none⟩, rfl, relay_from hlen hutf (first :: times) 0 first (.inr rfl) ⟨hnow _, hnow _, htime⟩
        (fun _ => ⟨rfl, rfl⟩) (Nat.lt_succ_of_le hcount)⟩
  · unfold ReverseSender.request
    cases ho : s.offered with
    | none => rfl
    | some o => exact congrArg Prod.snd (if_pos (hother o ho))
  · obtain ⟨q, hq⟩ := continues_of_push hpush
    have htext := (push_eq_ok hpush).1
    rw [htext, ← hq.bytes_eq, ← hq.same.1, ← hq.same.2, map_append]
    exact endsWith_of_continues (assembled_pushAll calls) hq

theorem fromUtf8_replicate (n : ℕ) : fromUtf8 (replicate n 97) = some (replicate n 97) := by
  have hencode : (replicate n 97).toByteArray = List.utf8Encode (replicate n 'a') := by
    rw [List.utf8Encode, flatMap_replicate]
    exact congrArg List.toByteArray flatten_replicate_singleton.symm
  unfold fromUtf8
  rw [hencode, List.utf8Decode?_utf8Encode]
  rfl

/-- So many seconds past noon. -/
def pastNoon (secs : UInt8) : Instant :=
  ⟨secs.toNat * nanosPerSec, (Nat.mul_lt_mul_of_pos_right secs.toNat_lt (by decide)).trans (by decide)⟩

/-- Forty thousand letters, offered at noon and requested ten seconds later, arrive with the third chunk. The
chunks are up to five seconds apart. -/
theorem clipboard_transfer_threeChunks :
    ∃ sender', sender'.sending = false ∧
      relay [pastNoon 20, pastNoon 24, pastNoon 29]
        ((ReverseSender.offer ⟨none, none⟩ (replicate 40000 97) 7 noon).2.request 7 (pastNoon 10)).2 none =
        ([.ok none, .ok none, .ok (some (replicate 40000 97))], sender', none) := by
  have hlen : (replicate 40000 (97 : UInt8)).length = 40000 := length_replicate
  obtain ⟨-, hidle, htransfer, -⟩ := clipboard_transfer ⟨none, none⟩ (replicate 40000 97) 7 noon (pastNoon 10)
    (pastNoon 20) [pastNoon 24, pastNoon 29] (fromUtf8_replicate _) (by rw [hlen]; decide) (by decide)
    ⟨by decide, by decide, by decide, by decide, trivial⟩ (by rw [hlen]; decide)
  obtain ⟨sender', hsent, hrelay⟩ := htransfer (hidle.mpr rfl)
  rw [hlen] at hrelay
  exact ⟨sender', hsent, hrelay⟩

end Rds.Desktop.Clip
