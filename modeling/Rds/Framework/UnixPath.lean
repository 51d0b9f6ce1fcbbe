import Rds.Framework.ByteString

/-!
# Owned paths on Unix

A path buffer is its bytes. `push` appends one path to another, `components`
reads a buffer as a sequence of components: repeated and trailing separators and
interior `.` segments disappear, a leading `.` is kept as a component of its
own. Comparison and prefix tests go through `components`, never through bytes.

A *plain* name is a segment that survives this reading unchanged. Pushing plain
names one after another onto the empty buffer joins them with `/`
(`foldl_push`), and reading the result back gives the names
(`components_foldl_push`), so for buffers built this way prefix tests are prefix
tests on lists of names (`startsWith_foldl_push`).
-/

namespace Framework

open List
namespace UnixPath

/-- The byte `/`. -/
def slash : UInt8 := 47

/-- The segment `.`. -/
def dot : Bytes := [46]

/-- The segment `..`. -/
def dotDot : Bytes := [46, 46]

/-- One component of a path. -/
inductive Component where
  | rootDir
  | curDir
  | parentDir
  | normal (name : Bytes)
  deriving DecidableEq

/-- An absolute path starts with the separator. -/
def isAbsolute (p : Bytes) : Bool := p.head? = some slash

/-- Append a path to a buffer: an absolute one replaces the buffer, a relative
one is separated from what is there. -/
def push (buf p : Bytes) : Bytes :=
  if isAbsolute p then p
  else if buf = [] ∨ buf.getLast? = some slash then buf ++ p
  else buf ++ slash :: p

/-- How one segment reads as a component, if it does. -/
def segment (s : Bytes) : Option Component :=
  if s = [] ∨ s = dot then none
  else if s = dotDot then some .parentDir
  else some (.normal s)

/-- The components of a buffer. -/
def components (p : Bytes) : List Component :=
  (if isAbsolute p then [.rootDir]
    else if (p.splitOn slash).head? = some dot then [.curDir]
    else []) ++ (p.splitOn slash).filterMap segment

/-- Paths are equal when their components are. -/
def pathEq (p q : Bytes) : Bool := components p = components q

/-- `base` is a prefix of `p`, component by component. -/
def startsWith (p base : Bytes) : Bool := (components base).isPrefixOf (components p)

/-- A segment that is a component of its own. -/
structure Plain (s : Bytes) : Prop where
  ne_nil : s ≠ []
  ne_dot : s ≠ dot
  ne_dotDot : s ≠ dotDot
  noSlash : slash ∉ s

namespace Plain

variable {s : Bytes}

theorem segment_eq (h : Plain s) : segment s = some (.normal s) := by
  unfold segment
  rw [if_neg (by simp [h.ne_nil, h.ne_dot]), if_neg h.ne_dotDot]

theorem not_isAbsolute (h : Plain s) : isAbsolute s = false := by
  unfold isAbsolute
  rw [decide_eq_false_iff_not]
  intro hhead
  exact h.noSlash (mem_of_mem_head? hhead)

theorem getLast?_ne (h : Plain s) : s.getLast? ≠ some slash := fun hlast =>
  h.noSlash (mem_of_getLast? hlast)

end Plain

theorem push_of_plain {buf s : Bytes} (hbuf : buf ≠ []) (hlast : buf.getLast? ≠ some slash)
    (h : Plain s) : push buf s = buf ++ slash :: s := by
  unfold push
  rw [if_neg (by simp [h.not_isAbsolute]), if_neg (by simp [hbuf, hlast])]

theorem foldl_push_of_ne {ps : List Bytes} (hps : ∀ p ∈ ps, Plain p) :
    ∀ {buf : Bytes}, buf ≠ [] → buf.getLast? ≠ some slash →
      ps.foldl push buf = buf ++ ps.flatMap (slash :: ·) := by
  induction ps with
  | nil => intro buf _ _; simp
  | cons p ps ih =>
    intro buf hbuf hlast
    have hp := hps p mem_cons_self
    rw [foldl_cons, push_of_plain hbuf hlast hp]
    have hlast' : (buf ++ slash :: p).getLast? ≠ some slash := by
      rw [getLast?_append_of_ne_nil _ (by simp), getLast?_cons_of_ne_nil hp.ne_nil]
      exact hp.getLast?_ne
    rw [ih (fun q hq => hps q (mem_cons_of_mem p hq)) (by simp) hlast', flatMap_cons, append_assoc]

/-- **Pushing plain names joins them.** -/
theorem foldl_push {ps : List Bytes} (hps : ∀ p ∈ ps, Plain p) :
    ps.foldl push [] = [slash].intercalate ps := by
  cases ps with
  | nil => rfl
  | cons p ps =>
    have hp := hps p mem_cons_self
    have hfirst : push [] p = p := by
      unfold push
      rw [if_neg (by simp [hp.not_isAbsolute]), if_pos (Or.inl rfl), nil_append]
    rw [foldl_cons, hfirst,
      foldl_push_of_ne (fun q hq => hps q (mem_cons_of_mem p hq)) hp.ne_nil hp.getLast?_ne]
    clear hps hp hfirst
    induction ps generalizing p with
    | nil => simp
    | cons q ps ih =>
      rw [intercalate_cons_cons, ← ih q]
      simp

/-- **Reading plain names back.** -/
theorem components_foldl_push {ps : List Bytes} (hps : ∀ p ∈ ps, Plain p) :
    components (ps.foldl push []) = ps.map .normal := by
  cases ps with
  | nil => decide
  | cons p ps =>
    have hp := hps p mem_cons_self
    have hsplit : ((p :: ps).foldl push []).splitOn slash = p :: ps := by
      rw [foldl_push hps]
      exact splitOn_intercalate slash (fun q hq => (hps q hq).noSlash) (by simp)
    have habs : isAbsolute ((p :: ps).foldl push []) = false := by
      rw [foldl_push hps]
      unfold isAbsolute
      obtain ⟨b, p', rfl⟩ := exists_cons_of_ne_nil hp.ne_nil
      have hb : b ≠ slash := fun hb => hp.noSlash (hb ▸ mem_cons_self)
      cases ps <;> simp [hb]
    have hbody : (p :: ps).filterMap segment = (p :: ps).map .normal := by
      rw [← filterMap_eq_map]
      exact filterMap_congr fun q hq => (hps q hq).segment_eq
    unfold components
    rw [habs, hsplit, hbody]
    simp [hp.ne_dot]

theorem startsWith_foldl_push {ps qs : List Bytes} (hps : ∀ p ∈ ps, Plain p) (hqs : ∀ q ∈ qs, Plain q) :
    startsWith (ps.foldl push []) (qs.foldl push []) = true ↔ qs <+: ps := by
  unfold startsWith
  rw [components_foldl_push hps, components_foldl_push hqs, isPrefixOf_iff_prefix]
  refine prefix_map_iff_of_injective fun a b h => ?_
  simpa using h

end UnixPath
end Framework
