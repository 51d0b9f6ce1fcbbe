import Rds.Framework.UnixPath
import Rds.Sync.Basic

/-!
# Peer-supplied relative paths

`check_rel_path` (`rds-sync/src/proto.rs`) turns a peer's relative path into a
normalized one: it refuses absolute spellings, `..` and names of private journal
state, and drops empty and `.` segments. Both `/` and `\` separate segments.

What the rest of the development needs is one inversion lemma,
`checkRelPath_eq_ok`: an accepted path normalizes to its *real* segments pushed
one after another, and each of these is a plain name.

`Access` (`rds-sync/src/engine.rs`) is what the agent allows a transfer to do,
with the granted subtrees as normalized paths.
-/

namespace Rds

open Framework UnixPath List

/-- Cap on a relative path the protocol accepts. -/
def maxRelPath : ℕ := 512

/-- The directory name holding private receive state. -/
def stateDir : Bytes := utf8 ".rds-sync"

/-- The byte `\`. -/
def backslash : UInt8 := 92

/-- The separators of a peer path, `['/', '\\']`. -/
def isSep (b : UInt8) : Bool := b == slash || b == backslash

/-- ASCII lower case of one byte. -/
def toAsciiLower (b : UInt8) : UInt8 :=
  if 65 ≤ b.toNat ∧ b.toNat ≤ 90 then b + 32 else b

/-- `str::eq_ignore_ascii_case`. -/
def eqIgnoreAsciiCase (a b : Bytes) : Bool := a.map toAsciiLower = b.map toAsciiLower

/-- One iteration of the segment loop of `check_rel_path`. -/
def checkPart (rel out part : Bytes) : Except SyncError Bytes :=
  if part = [] ∨ part = dot then .ok out
  else if part = dotDot then
    throw (.manifest [.text "traversal in rel_path ", .debug rel])
  -- every destination parent may own private receive state
  else if eqIgnoreAsciiCase part stateDir then
    throw (.manifest [.text "rel_path ", .debug rel, .text " enters the sync journal"])
  else .ok (push out part)

/-- `check_rel_path`: validate a peer-supplied relative path and return its
normalized form. -/
def checkRelPath (rel : Bytes) : Except SyncError Bytes :=
  if rel = [] ∨ rel.length > maxRelPath then
    throw (.manifest [.text "bad rel_path ", .debug rel])
  else if 0 ∈ rel then
    throw (.manifest [.text "rel_path contains NUL"])
  -- absolute paths are refused, not relativized: `/a/b` and `C:\x` both split
  -- into legal-looking segments
  else if rel.head?.any isSep ∨ rel[1]? = some 58 ∨ rel.head? = some 126 then
    throw (.manifest [.text "absolute rel_path ", .debug rel])
  else do
    let out ← (rel.splitOnP isSep).foldlM (checkPart rel) []
    if out = [] then throw (.manifest [.text "empty rel_path ", .debug rel]) else .ok out

/-- The segments of a path that are neither empty nor `.`. -/
def realParts (p : Bytes) : List Bytes :=
  (p.splitOnP isSep).filter fun s => s ≠ [] ∧ s ≠ dot

/-- `Access`: agent-side permissions of one transfer. `paths` restricts transfers
to the listed subtrees of the sync root; `none` leaves the whole root open. -/
structure Access where
  read : Bool
  write : Bool
  paths : Option (List Bytes)

/-- `Access::permits_path`: the normalized path is a listed subtree or below one. -/
def Access.permitsPath (self : Access) (rel : Bytes) : Bool :=
  match self.paths with
  | some paths => paths.any fun scope => pathEq rel scope || startsWith rel scope
  | none => true

/-! ### Segments between separators -/

theorem isSep_of_mem_splitOnP {p : UInt8 → Bool} {l s : Bytes} (hs : s ∈ l.splitOnP p) :
    ∀ b ∈ s, p b = false := by
  induction l generalizing s with
  | nil => simp_all
  | cons a l ih =>
    rw [splitOnP_cons_eq_if_modifyHead] at hs
    by_cases ha : p a = true
    · rw [if_pos ha] at hs
      rcases mem_cons.mp hs with rfl | hs
      · simp
      · exact ih hs
    rw [if_neg ha] at hs
    cases hsp : l.splitOnP p with
    | nil => rw [hsp] at hs; simp at hs
    | cons t ts =>
      rw [hsp, modifyHead_cons, mem_cons] at hs
      rcases hs with rfl | hs
      · intro b hb
        rcases mem_cons.mp hb with rfl | hb
        · simpa using ha
        · exact ih (by rw [hsp]; exact mem_cons_self) b hb
      · exact ih (by rw [hsp]; exact mem_cons_of_mem t hs)

theorem plain_of_mem_realParts {p s : Bytes} (hs : s ∈ realParts p) (hdd : s ≠ dotDot) :
    Plain s := by
  unfold realParts at hs
  rw [mem_filter, decide_eq_true_eq] at hs
  refine ⟨hs.2.1, hs.2.2, hdd, fun hslash => ?_⟩
  have := isSep_of_mem_splitOnP hs.1 slash hslash
  exact absurd this (by decide)

/-! ### Inverting `check_rel_path` -/

/-- A loop that skips the segments that are not real reads the real ones. -/
theorem foldlM_parts {ε β : Type} {check : β → Bytes → Except ε β} {step : β → Bytes → β}
    {P : Bytes → Prop} (hskip : ∀ out s, s = [] ∨ s = dot → check out s = .ok out)
    (hreal : ∀ out s n, ¬ (s = [] ∨ s = dot) → check out s = .ok n → n = step out s ∧ P s)
    {parts : List Bytes} {out n : β} (h : parts.foldlM check out = .ok n) :
    n = (parts.filter fun s => s ≠ [] ∧ s ≠ dot).foldl step out ∧
      ∀ s ∈ parts.filter (fun s => s ≠ [] ∧ s ≠ dot), P s := by
  induction parts generalizing out with
  | nil =>
    cases h
    simp
  | cons part parts ih =>
    rw [foldlM_cons, bind_eq_ok] at h
    obtain ⟨out', hpart, hrest⟩ := h
    by_cases hs : part = [] ∨ part = dot
    · rw [hskip out part hs] at hpart
      cases hpart
      rw [filter_cons_of_neg (by simpa [or_iff_not_imp_left] using hs)]
      exact ih hrest
    · obtain ⟨rfl, hP⟩ := hreal out part _ hs hpart
      rw [filter_cons_of_pos (by simpa [not_or] using hs), forall_mem_cons]
      exact ⟨(ih hrest).1, hP, (ih hrest).2⟩

theorem foldlM_checkPart {rel : Bytes} {parts : List Bytes} {out n : Bytes}
    (h : parts.foldlM (checkPart rel) out = .ok n) :
    n = (parts.filter fun s => s ≠ [] ∧ s ≠ dot).foldl push out ∧
      ∀ s ∈ parts.filter (fun s => s ≠ [] ∧ s ≠ dot), s ≠ dotDot ∧ eqIgnoreAsciiCase s stateDir = false := by
  refine foldlM_parts (fun out s hs => if_pos hs) (fun out s n hs hn => ?_) h
  rw [if_neg hs, ite_throw_eq_ok, ite_throw_eq_ok, Except.ok.injEq] at hn
  exact ⟨hn.2.2.symm, hn.1, by simpa using hn.2.1⟩

theorem foldlM_of_checkRelPath {rel n : Bytes} (h : checkRelPath rel = .ok n) :
    (rel.splitOnP isSep).foldlM (checkPart rel) [] = .ok n ∧ n ≠ [] := by
  unfold checkRelPath at h
  rw [ite_throw_eq_ok, ite_throw_eq_ok, ite_throw_eq_ok] at h
  obtain ⟨-, -, -, h⟩ := h
  rw [bind_eq_ok] at h
  obtain ⟨out, hfold, hout⟩ := h
  rw [ite_throw_eq_ok, Except.ok.injEq] at hout
  obtain ⟨hne, rfl⟩ := hout
  exact ⟨hfold, hne⟩

/-- **Inversion of `check_rel_path`.** The normalized path is the real segments
pushed one after another; they are plain names, and there is at least one. -/
theorem checkRelPath_eq_ok {rel n : Bytes} (h : checkRelPath rel = .ok n) :
    n = (realParts rel).foldl push [] ∧ (∀ s ∈ realParts rel, Plain s) ∧ realParts rel ≠ [] := by
  obtain ⟨hfold, hne⟩ := foldlM_of_checkRelPath h
  obtain ⟨hn, hall⟩ := foldlM_checkPart hfold
  refine ⟨hn, fun s hs => plain_of_mem_realParts hs (hall s hs).1, fun hnil => ?_⟩
  refine hne (hn.trans ?_)
  change (realParts rel).foldl push [] = []
  rw [hnil, foldl_nil]

theorem ne_stateDir_of_checkRelPath {rel n : Bytes} (h : checkRelPath rel = .ok n) :
    stateDir ∉ realParts rel := by
  intro hmem
  have hstate := ((foldlM_checkPart (foldlM_of_checkRelPath h).1).2 stateDir hmem).2
  exact absurd hstate (by decide)

end Rds
