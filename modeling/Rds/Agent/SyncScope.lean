import Rds.Sync.RelPath

/-!
# The sync scope of a grant

A grant may list subtrees of the sync root (`constraints.sync_paths`). Three
pieces of code normalize paths before they are compared:

* `check_scope_path` (`rds-core/src/grant.rs`) checks a listed entry when the
  grant is decoded;
* the agent (`rds-agent/src/lib.rs`) turns the entries into `Access.paths`;
* `check_rel_path` (`rds-sync/src/proto.rs`) normalizes the requested path.

They differ in what they refuse — `~` and journal names are refused in requests
only — but agree on what the segments are, so the prefix test on path buffers is
the prefix test on lists of real segments (`permitsPath_iff_prefix`). An entry
always has a real segment, hence never stands for the whole root.
-/

namespace Rds

open Framework UnixPath

/-- Bound on one `sync_paths` entry. -/
def maxScopePathLen : ℕ := 512

/-- `GrantError`: why a grant is refused. -/
inductive GrantError where
  | malformed (message : List Piece)
  | untrustedIssuer
  | badSignature
  | wrongSubject
  | wrongAudience
  | tenantMismatch
  | policyRevisionStale
  | version
  | invalidInterval
  | invalidRevision
  | invalidRenewal
  | notYetValid
  | expired
  | ttlExceeded (secs : ℕ)
  | oversized
  deriving DecidableEq

/-- One iteration of the segment loop of `check_scope_path`, counting the real
components. -/
def countComponent (path : Bytes) (realComponents : ℕ) (part : Bytes) : Except GrantError ℕ :=
  if part = [] ∨ part = dot then .ok realComponents
  else if part = dotDot then
    throw (.malformed [.text "traversal in sync_paths entry ", .debug path])
  else .ok (realComponents + 1)

/-- `check_scope_path`: lexical validation of a `sync_paths` entry. -/
def checkScopePath (path : Bytes) : Except GrantError Unit :=
  if path = [] ∨ path.length > maxScopePathLen then
    throw (.malformed [.text "bad sync_paths entry ", .debug path])
  else if 0 ∈ path then
    throw (.malformed [.text "sync_paths entry contains NUL"])
  else if path.head?.any isSep ∨ path[1]? = some 58 then
    throw (.malformed [.text "absolute sync_paths entry ", .debug path])
  else do
    let realComponents ← (path.splitOnP isSep).foldlM (countComponent path) 0
    if realComponents = 0 then
      throw (.malformed [.text "empty sync_paths entry ", .debug path])
    else .ok ()

/-- The agent's normalization of one entry: split on both separators, drop empty
and `.` segments, collect into a path buffer. -/
def scopePath (scope : Bytes) : Bytes :=
  ((scope.splitOnP isSep).filter fun p => p ≠ [] ∧ p ≠ dot).foldl push []

/-- The access an agent builds from a grant: what the services permit, and the
normalized scope list if the grant carries one. -/
def grantAccess (read write : Bool) (syncPaths : Option (List Bytes)) : Access where
  read := read
  write := write
  paths := syncPaths.map fun list => list.map scopePath

/-! ### Accepted entries -/

theorem foldlM_countComponent {path : Bytes} {parts : List Bytes} {k n : ℕ}
    (h : parts.foldlM (countComponent path) k = .ok n) :
    n = (parts.filter fun s => s ≠ [] ∧ s ≠ dot).foldl (fun k _ => k + 1) k ∧
      ∀ s ∈ parts.filter (fun s => s ≠ [] ∧ s ≠ dot), s ≠ dotDot := by
  refine foldlM_parts (fun k s hs => if_pos hs) (fun k s n hs hn => ?_) h
  rw [if_neg hs, ite_throw_eq_ok, Except.ok.injEq] at hn
  exact ⟨hn.2.symm, hn.1⟩

/-- **Inversion of `check_scope_path`.** The real segments of an accepted entry
are plain names, and there is at least one. -/
theorem checkScopePath_eq_ok {path : Bytes} (h : checkScopePath path = .ok ()) :
    (∀ s ∈ realParts path, Plain s) ∧ realParts path ≠ [] := by
  unfold checkScopePath at h
  rw [ite_throw_eq_ok, ite_throw_eq_ok, ite_throw_eq_ok] at h
  obtain ⟨-, -, -, h⟩ := h
  rw [bind_eq_ok] at h
  obtain ⟨n, hfold, hn⟩ := h
  rw [ite_throw_eq_ok] at hn
  obtain ⟨hlen, hall⟩ := foldlM_countComponent hfold
  refine ⟨fun s hs => plain_of_mem_realParts hs (hall s hs), fun hnil => hn.1 ?_⟩
  exact hlen.trans (congrArg (List.foldl _ 0) hnil)

/-! ### Scope enforcement -/

/-- One entry against one request: the prefix test on buffers is the prefix test
on real segments. -/
theorem permits_scopePath_iff {scope rel n : Bytes} (hs : checkScopePath scope = .ok ())
    (hr : checkRelPath rel = .ok n) :
    (pathEq n (scopePath scope) || startsWith n (scopePath scope)) = true ↔
      realParts scope <+: realParts rel := by
  obtain ⟨rfl, hplain, -⟩ := checkRelPath_eq_ok hr
  obtain ⟨hplain', -⟩ := checkScopePath_eq_ok hs
  have hstarts := startsWith_foldl_push hplain hplain'
  change (pathEq _ ((realParts scope).foldl push []) ||
    startsWith _ ((realParts scope).foldl push [])) = true ↔ _
  rw [Bool.or_eq_true, hstarts]
  -- equal paths are a prefix of one another
  refine ⟨fun h => h.elim (fun heq => ?_) id, Or.inr⟩
  unfold pathEq at heq
  rw [decide_eq_true_eq, components_foldl_push hplain, components_foldl_push hplain'] at heq
  have hinj : Function.Injective Component.normal := fun a b h => by simpa using h
  rw [List.map_injective_iff.mpr hinj heq]

/-- **Scope enforcement.** With every listed entry accepted by `check_scope_path`
and the request accepted by `check_rel_path`, the request is permitted exactly
when the real segments of some entry are a prefix of the request's; and no entry
has an empty list of segments, so none stands for the whole root. -/
theorem permitsPath_iff_prefix {read write : Bool} {scopes : List Bytes} {rel n : Bytes}
    (hscopes : ∀ s ∈ scopes, checkScopePath s = .ok ()) (hrel : checkRelPath rel = .ok n) :
    ((grantAccess read write (some scopes)).permitsPath n = true ↔
        ∃ s ∈ scopes, realParts s <+: realParts rel) ∧
      ∀ s ∈ scopes, realParts s ≠ [] := by
  refine ⟨?_, fun s hs => (checkScopePath_eq_ok (hscopes s hs)).2⟩
  change ((scopes.map scopePath).any fun scope => pathEq n scope || startsWith n scope) = true ↔ _
  rw [List.any_map, List.any_eq_true]
  constructor
  · rintro ⟨s, hs, hp⟩
    exact ⟨s, hs, (permits_scopePath_iff (hscopes s hs) hrel).mp hp⟩
  · rintro ⟨s, hs, hp⟩
    exact ⟨s, hs, (permits_scopePath_iff (hscopes s hs) hrel).mpr hp⟩

/-- The scope `docs\.` covers the request `./docs//a` and not `docs-else/x`. -/
theorem permitsPath_docs :
    ((grantAccess true false (some [utf8 "docs\\."])).permitsPath (utf8 "docs/a") = true ↔
        ∃ s ∈ [utf8 "docs\\."], realParts s <+: realParts (utf8 "./docs//a")) ∧
      ∀ s ∈ [utf8 "docs\\."], realParts s ≠ [] :=
  permitsPath_iff_prefix (by decide) (by decide)

end Rds
