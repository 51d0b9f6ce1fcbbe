import Rds.Net.Frame

/-!
# Streams of frames

`write_frame` and `read_frame` of `rds-net/src/wire.rs` on one writer and one reader. The transport hands the
bytes to the reader in fragments, and no fragment need be a frame. `readExact_spec` says that they do not
matter, and so `readFrameFrom` refines `readFrame` on the whole stream.
-/

namespace Rds

open Framework Postcard List

variable {α : Type}

/-- `write_frame`, with what the writer holds. postcard encodes some messages only. -/
def writeFrameTo (c : Codec α) (encodes : α → Bool) (writer : Bytes) (msg : α) : Except IoErrorKind Unit × Bytes :=
  if encodes msg then
    match writeFrame c msg with
    | .ok frame => (.ok (), writer ++ frame)
    | .error e => (.error e, writer)
  else (.error .invalidData, writer)

/-- `read_exact` on the fragments that are still to come. -/
def readExact : ℕ → List Bytes → Option Bytes × List Bytes
  | n, [] => (if n = 0 then some [] else none, [])
  | n, fragment :: reader =>
    if n ≤ fragment.length then (some (fragment.take n), fragment.drop n :: reader)
    else ((readExact (n - fragment.length) reader).1.map (fragment ++ ·),
      (readExact (n - fragment.length) reader).2)

/-- What a `read_frame` does: its answer, the size of its body buffer, and the reader after it. -/
structure FrameRead (α : Type) where
  answer : Except IoErrorKind α
  allocated : ℕ
  reader : List Bytes

/-- `read_frame` on a reader. -/
def readFrameFrom (c : Codec α) (reader : List Bytes) : FrameRead α :=
  match readExact 4 reader with
  | (none, reader) => ⟨.error .unexpectedEof, 0, reader⟩
  | (some len, reader) =>
    if fromBeBytes len > maxMessageLen then ⟨.error .invalidData, 0, reader⟩
    else match readExact (fromBeBytes len) reader with
      | (none, reader) => ⟨.error .unexpectedEof, fromBeBytes len, reader⟩
      | (some body, reader) =>
        match c.decode body with
        | some (message, []) => ⟨.ok message, fromBeBytes len, reader⟩
        | _ => ⟨.error .invalidData, fromBeBytes len, reader⟩

/-- Frames are written one after the other: the messages that are accepted, and the writer. -/
def writeFrames (c : Codec α) (encodes : α → Bool) (writer : Bytes) : List α → List α × Bytes
  | [] => ([], writer)
  | msg :: msgs =>
    let (accepted, writer') := writeFrames c encodes (writeFrameTo c encodes writer msg).2 msgs
    match (writeFrameTo c encodes writer msg).1 with
    | .ok _ => (msg :: accepted, writer')
    | .error _ => (accepted, writer')

/-- So many calls of `read_frame`. -/
def readFrames (c : Codec α) : ℕ → List Bytes → List (Except IoErrorKind α) × List Bytes
  | 0, reader => ([], reader)
  | n + 1, reader =>
    let (answers, reader') := readFrames c n (readFrameFrom c reader).reader
    ((readFrameFrom c reader).answer :: answers, reader')

/-! ### Fragments do not matter -/

/-- How the bytes were split into reads does not matter. -/
theorem readExact_spec (n : ℕ) (reader : List Bytes) :
    (readExact n reader).1 = (if n ≤ reader.flatten.length then some (reader.flatten.take n) else none) ∧
      (readExact n reader).2.flatten = reader.flatten.drop n := by
  induction reader generalizing n with
  | nil => cases n <;> simp [readExact]
  | cons fragment reader ih =>
    rw [readExact, flatten_cons, length_append]
    split
    next hle =>
      rw [if_pos (by omega), take_append_of_le_length hle, drop_append_of_le_length hle]
      exact ⟨rfl, flatten_cons⟩
    next hlt =>
    obtain ⟨hread, hrest⟩ := ih (n - fragment.length)
    have htake : (fragment ++ reader.flatten).take n =
        fragment ++ reader.flatten.take (n - fragment.length) := by
      rw [take_append, take_of_length_le (by omega)]
    have hdrop : (fragment ++ reader.flatten).drop n = reader.flatten.drop (n - fragment.length) := by
      rw [drop_append, drop_of_length_le (by omega), nil_append]
    rw [htake, hdrop, hread]
    refine ⟨?_, hrest⟩
    split
    · rw [if_pos (by omega), Option.map_some]
    · rw [if_neg (by omega), Option.map_none]

/-- The bytes that a `read_frame` takes. -/
def consumed (stream : Bytes) : ℕ := if announcedLen stream > maxMessageLen then 4 else 4 + announcedLen stream

variable {c : Codec α} {reader : List Bytes} {stream rest : Bytes} {msg : α}

/-- **`readFrameFrom` refines `readFrame`.** -/
theorem readFrameFrom_spec : (readFrameFrom c reader).answer = (readFrame c reader.flatten).map Prod.fst ∧
    (readFrameFrom c reader).allocated = frameBuffer reader.flatten ∧
    (readFrameFrom c reader).reader.flatten = reader.flatten.drop (consumed reader.flatten) := by
  obtain ⟨hlen, hreader⟩ := readExact_spec 4 reader
  unfold readFrameFrom readFrame frameBuffer consumed
  rw [← Prod.mk.eta (p := readExact 4 reader), hlen]
  by_cases h4 : reader.flatten.length < 4
  · rw [if_neg (Nat.not_le.mpr h4), if_pos h4, if_pos (.inl h4)]
    refine ⟨rfl, rfl, hreader.trans ?_⟩
    rw [drop_of_length_le h4.le, drop_of_length_le]
    split <;> omega
  rw [if_pos (Nat.not_lt.mp h4), if_neg h4]
  have hannounced : fromBeBytes (reader.flatten.take 4) = announcedLen reader.flatten := rfl
  dsimp only
  rw [hannounced]
  by_cases hmax : announcedLen reader.flatten > maxMessageLen
  · simp only [if_pos hmax, if_pos (Or.inr hmax)]
    exact ⟨rfl, trivial, hreader⟩
  simp only [if_neg hmax, if_neg (not_or.mpr ⟨h4, hmax⟩)]
  obtain ⟨hbody, hleft⟩ := readExact_spec (announcedLen reader.flatten) (readExact 4 reader).2
  rw [hreader] at hbody hleft
  rw [drop_drop] at hleft
  rw [← Prod.mk.eta (p := readExact (announcedLen reader.flatten) _), hbody]
  by_cases hall : (reader.flatten.drop 4).length < announcedLen reader.flatten
  · rw [if_neg (Nat.not_le.mpr hall), if_pos hall]
    exact ⟨rfl, rfl, hleft⟩
  rw [if_pos (Nat.not_lt.mp hall), if_neg hall]
  dsimp only
  rcases c.decode ((reader.flatten.drop 4).take (announcedLen reader.flatten)) with _ | ⟨msg, _ | ⟨_, _⟩⟩ <;>
    exact ⟨rfl, rfl, hleft⟩

theorem readFrame_eq_ok (h : readFrame c stream = .ok (msg, rest)) : announcedLen stream ≤ maxMessageLen ∧
    c.decode ((stream.drop 4).take (announcedLen stream)) = some (msg, []) ∧
      rest = stream.drop (consumed stream) := by
  unfold readFrame at h
  unfold consumed
  split_ifs at h with h4 hmax hbody
  rw [if_neg hmax]
  split at h
  next hdecode =>
    cases h
    exact ⟨Nat.not_lt.mp hmax, hdecode, drop_drop⟩
  next => cases h

/-! ### Round trips -/

section

variable {encodes : α → Bool} {writer : Bytes}

theorem writeFrameTo_cases : (∃ e, writeFrameTo c encodes writer msg = (.error e, writer)) ∨
    ∃ frame, encodes msg = true ∧ writeFrame c msg = .ok frame ∧
      writeFrameTo c encodes writer msg = (.ok (), writer ++ frame) := by
  unfold writeFrameTo
  split
  next hmsg =>
    cases writeFrame c msg with
    | error e => exact .inl ⟨e, rfl⟩
    | ok frame => exact .inr ⟨frame, hmsg, rfl, rfl⟩
  next => exact .inl ⟨_, rfl⟩

/-- **All frames**, by induction over the messages. -/
theorem readFrames_writeFrames (hpostcard : ∀ msg, encodes msg = true → c.Valid msg) {msgs accepted : List α}
    {writer writer' : Bytes} (h : writeFrames c encodes writer msgs = (accepted, writer')) :
    ∃ frames, writer' = writer ++ frames ∧ ∀ reader rest, reader.flatten = frames ++ rest →
      ∃ reader', readFrames c accepted.length reader = (accepted.map .ok, reader') ∧ reader'.flatten = rest := by
  induction msgs generalizing writer accepted with
  | nil =>
    cases h
    exact ⟨[], (append_nil _).symm, fun reader _ h => ⟨reader, rfl, h⟩⟩
  | cons msg msgs ih =>
    rw [writeFrames] at h
    rcases writeFrameTo_cases with ⟨e, hwrite⟩ | ⟨frame, hmsg, hframe, hwrite⟩
    · rw [hwrite] at h
      exact ih h
    rw [hwrite] at h
    cases h
    obtain ⟨frames, hframes, hread⟩ := ih rfl
    refine ⟨frame ++ frames, hframes.trans (append_assoc ..), fun reader rest hreader => ?_⟩
    rw [append_assoc] at hreader
    have hback := readFrame_writeFrame (hpostcard msg hmsg) hframe (frames ++ rest)
    rw [← hreader] at hback
    obtain ⟨hanswer, -, hleft⟩ := readFrameFrom_spec
    obtain ⟨reader', hreads, hrest⟩ := hread _ _ (hleft.trans (readFrame_eq_ok hback).2.2.symm)
    rw [hback] at hanswer
    refine ⟨reader', ?_, hrest⟩
    rw [length_cons, readFrames, hreads, hanswer]
    rfl

end

/-- **Frames come back.** Whatever the fragments, as many calls of `read_frame` as messages were accepted
return these messages and consume what was written. A message that is refused writes nothing. On any stream the
body buffer is bounded, a length that is refused is all that is consumed, otherwise it is the length and the
body, and what is accepted is the whole body. -/
theorem frame_sequence (c : Codec α) (encodes : α → Bool) (hpostcard : ∀ msg, encodes msg = true → c.Valid msg) :
    (∀ msgs accepted written, writeFrames c encodes [] msgs = (accepted, written) →
      ∀ reader rest, reader.flatten = written ++ rest → ∃ reader',
        readFrames c accepted.length reader = (accepted.map .ok, reader') ∧ reader'.flatten = rest) ∧
    (∀ writer msg e, (writeFrameTo c encodes writer msg).1 = .error e →
      (writeFrameTo c encodes writer msg).2 = writer) ∧
    ∀ reader : List Bytes, (readFrameFrom c reader).allocated ≤ maxMessageLen ∧
      (readFrameFrom c reader).reader.flatten = reader.flatten.drop
        (if announcedLen reader.flatten > maxMessageLen then 4 else 4 + announcedLen reader.flatten) ∧
      ∀ msg, (readFrameFrom c reader).answer = .ok msg → announcedLen reader.flatten ≤ maxMessageLen ∧
        c.decode ((reader.flatten.drop 4).take (announcedLen reader.flatten)) = some (msg, []) := by
  refine ⟨fun msgs accepted written h => ?_, fun writer msg e he => ?_, fun reader => ?_⟩
  · obtain ⟨frames, rfl, hread⟩ := readFrames_writeFrames hpostcard h
    exact hread
  · rcases writeFrameTo_cases with ⟨_, hwrite⟩ | ⟨_, -, -, hwrite⟩
    · rw [hwrite]
    · rw [hwrite] at he
      cases he
  obtain ⟨hanswer, hallocated, hleft⟩ := readFrameFrom_spec
  refine ⟨hallocated.trans_le (frameBuffer_le _), hleft, fun msg hmsg => ?_⟩
  rw [hanswer] at hmsg
  cases hread : readFrame c reader.flatten with
  | error e =>
    rw [hread] at hmsg
    cases hmsg
  | ok read =>
    rw [hread] at hmsg
    cases hmsg
    exact ⟨(readFrame_eq_ok hread).1, (readFrame_eq_ok hread).2.1⟩

/-- The two routes of a session, read from fragments of one, six, no and three bytes. -/
theorem frame_sequence_routes : ∃ reader',
    readFrames uniHelloCodec 2 [[0], [0, 0, 1, 0, 0, 0], [], [0, 1, 1]] = ([.ok .desktop, .ok .sync], reader') ∧
      reader'.flatten = [] :=
  (frame_sequence uniHelloCodec (fun _ => true) fun msg _ => uniHelloCodec_valid msg).1 [.desktop, .sync] _ _ rfl
    _ [] (by decide)

end Rds
