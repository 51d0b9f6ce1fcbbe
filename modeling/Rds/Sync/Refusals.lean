import Rds.Framework.DebugForm
import Rds.Sync.Codec
import Rds.Sync.Control

/-!
# Refusals on the wire

What `serve_inner` tells a peer whose first message it refuses, and whether that fits into a frame.
Most reasons are fixed texts. A path that `check_rel_path` refuses is echoed in its debug form, and it
is echoed whole even if it is refused for its length. A first message can carry a path of almost a
frame, so its echo may not fit, `write_frame` fails and the peer is told nothing.

`refusals_fit_iff` says exactly when every refusal of a first message can be sent. The other messages
with a variable part, manifest slices, bitmaps and chunk sets, always fit.
-/

namespace Rds

open Framework Postcard List Codec

/-! ### Reasons -/

/-- `Display` of `SyncError`. An I/O error shows what the system says; no refusal shows one. -/
def SyncError.display : SyncError → Option (List Piece)
  | .manifest message => some (.text "manifest malformed: " :: message)
  | .io _ => none

/-- The text a refusal shows. -/
def reasonOf : Bail → Option (List Piece)
  | .message text => some text
  | .cause message e => e.display.map (message ++ ·)
  | _ => none

/-- The bytes of a piece of a message. -/
def Piece.render (tables : Char → Bool) : Piece → Bytes
  | .text s => utf8 s
  | .debug b => debugForm tables b
  | .shown b => b
  | .num n => utf8 (toString n)

/-- The bytes of a message. -/
def render (tables : Char → Bool) (message : List Piece) : Bytes :=
  message.flatMap (Piece.render tables)

/-! ### Refusals of the first message -/

/-- What `serve_inner` meets: what it grants, and what its disk and the peer's later messages give. -/
structure Surroundings where
  access : Access
  preflight : Except IoErrorKind Unit
  /-- `read_manifest` returns a manifest. -/
  manifest : Bool
  /-- `Journal::open` returns a journal. -/
  journal : Bool
  /-- The requested file can be opened. -/
  source : Except IoErrorKind Unit

/-- The refusal of a `Request`, if it is refused. -/
def onRequest (access : Access) (source : Except IoErrorKind Unit) (relPath : Bytes) : Option Bail :=
  if !access.read then some (.message [.text "sync read not granted"])
  else match checkRelPath relPath with
    | .error e => some (.cause [] e)
    | .ok rel =>
      if !access.permitsPath rel then some (.message [.text "sync path outside granted scope"])
      else match source with
        | .error _ => some (.message [.text "no such file"])
        | .ok () => none

/-- What the peer is told, if its first message is refused. -/
def told (wire : Wire) (s : Surroundings) (first : SyncMsg) : Option Bail :=
  match Role.onFirst s.access (.ok first) with
  | .failed told _ => told
  | .serving relPath => onRequest s.access s.source relPath
  | .preflight size root chunkCount =>
    match Role.onPreflight wire (.serve s.access s.preflight) size root chunkCount s.preflight with
    | .failed told _ => told
    | _ =>
      if !s.manifest then Role.toldOfManifest (.serve s.access s.preflight)
      else if !s.journal then some (.message [.text "cannot open transfer journal"])
      else none
  | _ => none

/-- The path a first message asks for. -/
def SyncMsg.relPath : SyncMsg → Option Bytes
  | .offer relPath _ _ _ => some relPath
  | .request relPath => some relPath
  | _ => none

/-- The message can be sent: `write_frame` does not fail. -/
def Sendable (wire : Wire) (msg : SyncMsg) : Prop := ∃ frame, wire.send msg = .ok frame

/-- The refusal can be sent. -/
def Deliverable (tables : Char → Bool) (wire : Wire) (why : Bail) : Prop :=
  ∃ text, reasonOf why = some text ∧ Sendable wire (.refuse (render tables text))

/-! ### Sizes -/

theorem sendable_iff (wire : Wire) (msg : SyncMsg) :
    Sendable wire msg ↔ (syncMsgCodec.encode (wire.frame msg)).length ≤ maxMessageLen := by
  unfold Sendable Wire.send writeFrame
  split
  next h => exact ⟨fun ⟨_, hf⟩ => absurd hf (by simp), fun hle => absurd h (Nat.not_lt.mpr hle)⟩
  next h => exact ⟨fun _ => Nat.not_lt.mp h, fun _ => ⟨_, rfl⟩⟩

/-- The longest reason a frame has room for. -/
def reasonRoom (wire : Wire) : ℕ := if wire.isV2 then 65515 else 65532

theorem length_varint64 {n : ℕ} (h : n < 2097152) :
    (varint64 n).length ≤ 3 ∧ (16384 ≤ n → (varint64 n).length = 3) := by
  unfold varint64 varintLoop
  split
  · exact ⟨by simp, fun h' => by omega⟩
  unfold varintLoop
  split
  · exact ⟨by simp, fun h' => by omega⟩
  · unfold varintLoop
    rw [if_pos (by omega)]
    exact ⟨by simp, fun _ => rfl⟩

/-- **A reason can be sent** if there is room for it. -/
theorem sendable_refuse_iff (wire : Wire) (reason : Bytes) :
    Sendable wire (.refuse reason) ↔ reason.length ≤ reasonRoom wire := by
  rw [sendable_iff]
  obtain ⟨transferId, limits⟩ := wire
  -- beyond the largest frame the length prefix does not matter
  have hsize : ∀ k, k ≤ 18 → (k + ((varint64 reason.length).length + reason.length) ≤ maxMessageLen ↔
      reason.length ≤ 65533 - k) := by
    unfold maxMessageLen
    by_cases hlarge : reason.length < 2097152
    · obtain ⟨hle, heq⟩ := length_varint64 hlarge
      by_cases hmid : 16384 ≤ reason.length
      · omega
      · omega
    · omega
  cases transferId with
  | none =>
    have henc : (syncMsgCodec.encode (Wire.frame ⟨none, limits⟩ (.refuse reason))).length
        = 1 + ((varint64 reason.length).length + reason.length) := by
      show (u32.encode 2 ++ (varint64 reason.length ++ reason)).length = _
      rw [length_append, length_append]
      rfl
    rw [henc]
    exact hsize 1 (by decide)
  | some id =>
    have henc : (syncMsgCodec.encode (Wire.frame ⟨some id, limits⟩ (.refuse reason))).length
        = 18 + ((varint64 reason.length).length + reason.length) := by
      show (u32.encode 10 ++ (id.val ++ (u32.encode 4 ++ (varint64 reason.length ++ reason)))).length = _
      simp only [length_append]
      have h10 : (u32.encode 10).length = 1 := rfl
      have h4 : (u32.encode 4).length = 1 := rfl
      omega
    rw [henc]
    exact hsize 18 le_rfl

/-! ### What is echoed -/

/-- An error that echoes the path at most once, with a short text around it. -/
inductive Echo (rel : Bytes) : SyncError → Prop where
  | plain (a : String) (ha : (utf8 a).length ≤ 40) : Echo rel (.manifest [.text a])
  | quoted (a : String) (ha : (utf8 a).length ≤ 40) : Echo rel (.manifest [.text a, .debug rel])
  | enclosed (a b : String) (ha : (utf8 a).length + (utf8 b).length ≤ 40) :
      Echo rel (.manifest [.text a, .debug rel, .text b])

variable {e : SyncError} {wire : Wire} {relPath : Bytes}

theorem echo_of_checkPart {rel out part : Bytes} (h : checkPart rel out part = .error e) : Echo rel e := by
  unfold checkPart at h
  split_ifs at h
  · cases h
    exact .quoted _ (by decide)
  · cases h
    exact .enclosed _ _ (by decide)

theorem echo_of_foldlM {rel : Bytes} {parts : List Bytes} {out : Bytes}
    (h : parts.foldlM (checkPart rel) out = .error e) : Echo rel e := by
  induction parts generalizing out with
  | nil => exact absurd h nofun
  | cons part parts ih =>
    rw [foldlM_cons] at h
    cases hpart : checkPart rel out part with
    | error e' =>
      rw [hpart] at h
      cases h
      exact echo_of_checkPart hpart
    | ok out' =>
      rw [hpart] at h
      exact ih h

/-- **How a path is refused**: a long one is echoed, whatever it is. -/
theorem checkRelPath_eq_error {rel : Bytes} (h : checkRelPath rel = .error e) :
    (maxRelPath < rel.length ∧ e = .manifest [.text "bad rel_path ", .debug rel]) ∨
      (rel.length ≤ maxRelPath ∧ Echo rel e) := by
  by_cases hlong : maxRelPath < rel.length
  · unfold checkRelPath at h
    rw [if_pos (.inr hlong)] at h
    cases h
    exact .inl ⟨hlong, rfl⟩
  refine .inr ⟨Nat.not_lt.mp hlong, ?_⟩
  unfold checkRelPath at h
  split_ifs at h
  · cases h
    exact .quoted _ (by decide)
  · cases h
    exact .plain _ (by decide)
  · cases h
    exact .quoted _ (by decide)
  cases hfold : (rel.splitOnP isSep).foldlM (checkPart rel) [] with
  | error e' =>
    rw [hfold] at h
    cases h
    exact echo_of_foldlM hfold
  | ok out =>
    rw [hfold] at h
    simp only [bind, Except.bind] at h
    split_ifs at h
    cases h
    exact .quoted _ (by decide)

theorem Echo.length_le {rel : Bytes} (h : Echo rel e) (tables : Char → Bool) :
    ∃ text, reasonOf (.cause [] e) = some text ∧
      (render tables text).length ≤ 60 + (debugForm tables rel).length := by
  have hhead : (utf8 "manifest malformed: ").length = 20 := by decide
  cases h with
  | plain a ha =>
    refine ⟨_, rfl, ?_⟩
    show (utf8 "manifest malformed: " ++ (utf8 a ++ [])).length ≤ _
    simp only [length_append, length_nil]
    omega
  | quoted a ha =>
    refine ⟨_, rfl, ?_⟩
    show (utf8 "manifest malformed: " ++ (utf8 a ++ (debugForm tables rel ++ []))).length ≤ _
    simp only [length_append, length_nil]
    omega
  | enclosed a b ha =>
    refine ⟨_, rfl, ?_⟩
    show (utf8 "manifest malformed: " ++ (utf8 a ++ (debugForm tables rel ++ (utf8 b ++ [])))).length ≤ _
    simp only [length_append, length_nil]
    omega

/-- The longest debug form of a path that leaves room for the rest of its refusal. -/
def echoRoom (wire : Wire) : ℕ := reasonRoom wire - 33

theorem length_render_bad (tables : Char → Bool) (rel : Bytes) :
    (render tables ([] ++ .text "manifest malformed: " :: [.text "bad rel_path ", .debug rel])).length
      = 33 + (debugForm tables rel).length := by
  have hhead : (utf8 "manifest malformed: ").length = 20 := by decide
  have hbad : (utf8 "bad rel_path ").length = 13 := by decide
  show (utf8 "manifest malformed: " ++ (utf8 "bad rel_path " ++ (debugForm tables rel ++ []))).length = _
  simp only [length_append, length_nil, hbad]
  omega

/-- **A refused path can be told of** if there is room for its debug form. -/
theorem deliverable_checkRelPath {tables : Char → Bool} {rel : String}
    (h : checkRelPath (utf8 rel) = .error e)
    (hroom : (debugForm tables (utf8 rel)).length ≤ echoRoom wire) :
    Deliverable tables wire (.cause [] e) := by
  have hpos : 65515 ≤ reasonRoom wire := by
    unfold reasonRoom
    split <;> decide
  rcases checkRelPath_eq_error h with ⟨-, rfl⟩ | ⟨hshort, hecho⟩
  · refine ⟨_, rfl, (sendable_refuse_iff wire _).mpr ?_⟩
    rw [length_render_bad]
    unfold echoRoom at hroom
    omega
  obtain ⟨text, htext, hle⟩ := hecho.length_le tables
  refine ⟨text, htext, (sendable_refuse_iff wire _).mpr ?_⟩
  have hform := length_debugForm_le tables rel
  unfold maxRelPath at hshort
  omega

theorem deliverable_text {tables : Char → Bool} {text : String}
    (h : (utf8 text).length ≤ 40) : Deliverable tables wire (.message [.text text]) := by
  refine ⟨_, rfl, (sendable_refuse_iff wire _).mpr ?_⟩
  show (utf8 text ++ []).length ≤ _
  rw [append_nil]
  unfold reasonRoom
  split <;> omega

/-- What a peer can be told: a fixed text, or why its path is refused. -/
inductive Told (relPath : Bytes) : Bail → Prop where
  | text (text : String) (h : (utf8 text).length ≤ 40) : Told relPath (.message [.text text])
  | path (e : SyncError) (h : checkRelPath relPath = .error e) : Told relPath (.cause [] e)

theorem told_onRequest {access : Access} {source : Except IoErrorKind Unit}
    {why : Bail} (h : onRequest access source relPath = some why) : Told relPath why := by
  unfold onRequest at h
  by_cases hread : (!access.read) = true
  · rw [if_pos hread] at h
    cases h
    exact .text _ (by decide)
  rw [if_neg hread] at h
  cases hpath : checkRelPath relPath with
  | error e =>
    rw [hpath] at h
    cases h
    exact .path e hpath
  | ok rel =>
    rw [hpath] at h
    dsimp only at h
    split_ifs at h
    · cases h
      exact .text _ (by decide)
    cases source with
    | error e =>
      cases h
      exact .text _ (by decide)
    | ok _ => cases h

theorem told_ofReadManifest {access : Access} {preflight : Except IoErrorKind Unit}
    {size : ℕ} {root : ChunkHash} {chunkCount : ℕ} {told : Option Bail} {why why' : Bail}
    (h : Role.onPreflight wire (.serve access preflight) size root chunkCount preflight
      = .failed told why') (hwhy : told = some why) : Told relPath why := by
  cases preflight with
  | error e =>
    cases h
    cases hwhy
    exact .text _ (by decide)
  | ok _ =>
    have h' : Role.ofReadManifest (.serve access (.ok ())) size root chunkCount
      (ReadManifest.start wire size root chunkCount) = .failed told why' := h
    generalize ReadManifest.start wire size root chunkCount = r at h'
    cases r with
    | reading chunks => cases h'
    | ok m => cases h'
    | bail b =>
      cases h'
      cases hwhy
      exact .text _ (by decide)

theorem told_of_some {s : Surroundings} {first : SyncMsg} {why : Bail}
    (hrel : first.relPath = some relPath) (h : told wire s first = some why) :
    Told relPath why := by
  cases first with
  | request path =>
    cases hrel
    exact told_onRequest h
  | offer path size root chunkCount =>
    cases hrel
    unfold told Role.onFirst at h
    dsimp only at h
    by_cases hwrite : (!s.access.write) = true
    · rw [if_pos hwrite] at h
      cases h
      exact .text _ (by decide)
    rw [if_neg hwrite] at h
    cases hpath : checkRelPath relPath with
    | error e =>
      rw [hpath] at h
      cases h
      exact .path e hpath
    | ok rel =>
      rw [hpath] at h
      dsimp only at h
      by_cases hscope : (!s.access.permitsPath rel) = true
      · rw [if_pos hscope] at h
        cases h
        exact .text _ (by decide)
      rw [if_neg hscope] at h
      dsimp only at h
      split at h
      next told why' hpre => exact told_ofReadManifest hpre h
      split_ifs at h
      · cases h
        exact .text _ (by decide)
      · cases h
        exact .text _ (by decide)
  | _ => cases hrel

theorem exists_told_of_long (first : SyncMsg)
    (hrel : first.relPath = some relPath) (hlong : maxRelPath < relPath.length) :
    ∃ s, ∀ wire, told wire s first
      = some (.cause [] (.manifest [.text "bad rel_path ", .debug relPath])) := by
  have hpath : checkRelPath relPath
      = .error (.manifest [.text "bad rel_path ", .debug relPath]) :=
    if_pos (.inr hlong)
  refine ⟨⟨⟨true, true, none⟩, .ok (), true, true, .ok ()⟩, fun wire => ?_⟩
  cases first with
  | request path =>
    cases hrel
    show onRequest ⟨true, true, none⟩ (.ok ()) relPath = _
    unfold onRequest
    rw [hpath]
    rfl
  | offer path size root chunkCount =>
    cases hrel
    unfold told Role.onFirst
    dsimp only
    rw [hpath]
    rfl
  | _ => cases hrel

/-! ### Frames of bounded lists -/

theorem sendable_of_body {msg : SyncMsg} (tag tag' : ℕ) (body : Bytes)
    (hv1 : ∀ limits, syncMsgCodec.encode (Wire.frame ⟨none, limits⟩ msg)
      = Codec.u32.encode tag ++ body)
    (hv2 : ∀ id limits, syncMsgCodec.encode (Wire.frame ⟨some id, limits⟩ msg)
      = Codec.u32.encode 10 ++ (id.val ++ (Codec.u32.encode tag' ++ body)))
    (hbody : body.length ≤ 65000) : Sendable wire msg := by
  have htag : ∀ n, (u32.encode n).length ≤ 5 := length_varintLoop_le 5
  have h1 := htag tag
  have h2 := htag tag'
  have h3 := htag 10
  rw [sendable_iff]
  unfold maxMessageLen
  obtain ⟨transferId, limits⟩ := wire
  cases transferId with
  | none =>
    rw [hv1, length_append]
    omega
  | some id =>
    rw [hv2]
    simp only [length_append]
    omega

theorem sendable_manifestPart (wire : Wire) {chunks : List Chunk}
    (h : chunks.length ≤ manifestBatch) : Sendable wire (.manifestPart chunks) := by
  have hchunk : ∀ c, (chunkCodec.encode c).length ≤ 47 := by
    intro c
    have hoffset : (u64.encode c.offset).length ≤ 10 := length_varintLoop_le 10 _
    have hlen : (u32.encode c.len).length ≤ 5 := length_varintLoop_le 5 _
    show (c.hash.val ++ (u64.encode c.offset ++ u32.encode c.len)).length ≤ 47
    simp only [length_append, c.hash.property]
    omega
  have hlist := chunkCodec.length_encode_list_le hchunk chunks
  unfold manifestBatch at h
  exact sendable_of_body 3 6 (chunkCodec.list.encode chunks) (fun _ => rfl) (fun _ _ => rfl) (by omega)

theorem sendable_need (wire : Wire) {bits : List UInt64} (h : bits.length ≤ maxChunks / 64) :
    Sendable wire (.need bits) := by
  have hlist := wordCodec.length_encode_list_le (k := 10) (fun w => length_varintLoop_le 10 _) bits
  unfold maxChunks at h
  exact sendable_of_body 4 7 (wordCodec.list.encode bits) (fun _ => rfl) (fun _ _ => rfl) (by omega)

theorem sendable_chunkSet (wire : Wire) {indices : List ℕ} (h : indices.length ≤ chunksetBatch) :
    Sendable wire (.chunkSet indices) := by
  have hlist := u32.length_encode_list_le (k := 5) (length_varintLoop_le 5) indices
  unfold chunksetBatch at h
  exact sendable_of_body 5 9 (u32.list.encode indices) (fun _ => rfl) (fun _ _ => rfl) (by omega)

/-- **Every refusal of a first message can be sent** exactly if there is room for the debug form of
its path, whatever the server grants and finds. The slices of every manifest, the bitmaps of what is
missing of it, and chunk sets always fit. -/
theorem refusals_fit_iff (tables : Char → Bool) (wire : Wire) (rel : String) (first : SyncMsg)
    (hfirst : first.relPath = some (utf8 rel)) :
    ((∀ s why, told wire s first = some why → Deliverable tables wire why) ↔
        (debugForm tables (utf8 rel)).length ≤ echoRoom wire) ∧
      (∀ chunks, chunks.length ≤ manifestBatch → Sendable wire (.manifestPart chunks)) ∧
      (∀ total have_, total ≤ maxChunks → Sendable wire (.need (needBits total have_))) ∧
      ∀ indices, indices.length ≤ chunksetBatch → Sendable wire (.chunkSet indices) := by
  refine ⟨⟨fun hall => ?_, fun hroom s why hwhy => ?_⟩, fun _ => sendable_manifestPart wire,
    fun total have_ htotal => sendable_need wire ?_, fun _ => sendable_chunkSet wire⟩
  · by_contra hlarge
    have hlong : maxRelPath < (utf8 rel).length := by
      have hform := length_debugForm_le tables rel
      have hroom : 65482 ≤ echoRoom wire := by
        unfold echoRoom reasonRoom
        split <;> decide
      unfold maxRelPath
      omega
    obtain ⟨s, hs⟩ := exists_told_of_long first hfirst hlong
    obtain ⟨text, htext, hsend⟩ := hall s _ (hs wire)
    cases htext
    rw [sendable_refuse_iff, length_render_bad] at hsend
    unfold echoRoom at hlarge
    omega
  · cases told_of_some hfirst hwhy with
    | text text h => exact deliverable_text h
    | path e h => exact deliverable_checkRelPath h hroom
  · rw [length_needBits]
    unfold maxChunks at htotal ⊢
    omega

/-- A path with a tab. -/
theorem refusals_fit_iff_tab :
    (SyncMsg.request (utf8 "a\tb")).relPath = some (utf8 "a\tb") ∧
      ((∀ s why, told .v1 s (.request (utf8 "a\tb")) = some why → Deliverable (fun _ => false) .v1 why) ↔
        (debugForm (fun _ => false) (utf8 "a\tb")).length ≤ echoRoom .v1) :=
  ⟨rfl, (refusals_fit_iff (fun _ => false) .v1 "a\tb" (.request (utf8 "a\tb")) rfl).1⟩

/-- The longest path of a first frame. -/
def longestPath : String := String.ofList (List.replicate 65532 'a')

theorem length_longestPath : (utf8 longestPath).length = 65532 := by
  have hletter : String.utf8EncodeChar 'a' = [97] := rfl
  unfold utf8 longestPath
  rw [String.toList_ofList, length_flatMap, map_replicate, sum_replicate]
  rfl

/-- A request for a path of 65532 letters fits into a frame. It is refused, and the refusal does
not. -/
theorem refusal_longestPath :
    Sendable .v1 (.request (utf8 longestPath)) ∧
      ∃ s why, told .v1 s (.request (utf8 longestPath)) = some why ∧
        ∀ tables, ¬ Deliverable tables .v1 why := by
  have hlen := length_longestPath
  constructor
  · rw [sendable_iff]
    have hvarint := (length_varint64 (n := (utf8 longestPath).length) (by omega)).1
    show (u32.encode 1 ++ (varint64 (utf8 longestPath).length ++ utf8 longestPath)).length ≤ maxMessageLen
    have htag : (u32.encode 1).length = 1 := rfl
    unfold maxMessageLen
    simp only [length_append]
    omega
  obtain ⟨s, hs⟩ := exists_told_of_long (.request (utf8 longestPath)) rfl
    (by unfold maxRelPath; omega)
  refine ⟨s, _, hs .v1, ?_⟩
  rintro tables ⟨text, htext, hsend⟩
  cases htext
  have hform := length_debugForm_of_plain tables longestPath (by
    intro c hc
    have hchar : c = 'a' := by
      unfold longestPath at hc
      rw [String.toList_ofList] at hc
      exact eq_of_mem_replicate hc
    rw [hchar]
    rfl)
  rw [sendable_refuse_iff, length_render_bad] at hsend
  have hroom : reasonRoom .v1 = 65532 := rfl
  omega

end Rds
