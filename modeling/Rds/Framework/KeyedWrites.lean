import Mathlib

/-!
# Guarded writes to a keyed store

A store is a partial function `K → Option V`. A *guarded write* names one key,
what the store must hold there before the write, and what it holds afterwards;
`none` stands for absence on both sides, so creation, replacement and removal
are three instances of one notion. A list of guarded writes runs front to back
and stops at the first guard that fails.

When the keys of the list are pairwise distinct no write can disturb the guard
of another one. The run then succeeds exactly when every guard holds in the
*initial* store, and its result is the pointwise overwrite
(`runWrites_eq_some_iff`). An operation that touches several keys is the list of
its writes, and a sequence of operations is the concatenation.
-/

namespace Framework

open List

/-- One guarded write: the store must hold `old` at `key`, and holds `new` there
afterwards. -/
structure Write (K V : Type) where
  key : K
  old : Option V
  new : Option V

variable {K V : Type} [DecidableEq K]

/-- Perform a write without looking at its guard. -/
def Write.set (w : Write K V) (s : K → Option V) : K → Option V :=
  Function.update s w.key w.new

/-- The pointwise result of a list of writes, guards ignored. -/
def overwrite (ws : List (Write K V)) (s : K → Option V) : K → Option V :=
  ws.foldl (fun s w => w.set s) s

section Run

variable [DecidableEq V]

/-- Run a list of guarded writes front to back. -/
def runWrites : List (Write K V) → (K → Option V) → Option (K → Option V)
  | [], s => some s
  | w :: ws, s => if s w.key = w.old then runWrites ws (w.set s) else none

end Run

/-! ### Pointwise reading of an overwrite -/

@[simp] theorem overwrite_nil (s : K → Option V) : overwrite [] s = s := rfl

@[simp] theorem overwrite_cons (w : Write K V) (ws : List (Write K V)) (s : K → Option V) :
    overwrite (w :: ws) s = overwrite ws (w.set s) := rfl

theorem Write.set_self (w : Write K V) (s : K → Option V) : w.set s w.key = w.new :=
  Function.update_self ..

theorem Write.set_of_ne (w : Write K V) (s : K → Option V) {k : K} (h : k ≠ w.key) :
    w.set s k = s k :=
  Function.update_of_ne h ..

/-- **Frame.** A key no write names keeps its value. -/
theorem overwrite_of_notMem {ws : List (Write K V)} {s : K → Option V} {k : K}
    (h : k ∉ ws.map Write.key) : overwrite ws s k = s k := by
  induction ws generalizing s with
  | nil => rfl
  | cons w ws ih =>
    rw [map_cons, mem_cons, not_or] at h
    rw [overwrite_cons, ih h.2, w.set_of_ne s h.1]

/-- **Effect.** With distinct keys, a key named by a write holds what that write
put there. -/
theorem overwrite_of_mem {ws : List (Write K V)} {s : K → Option V}
    (hnd : (ws.map Write.key).Nodup) {w : Write K V} (hw : w ∈ ws) :
    overwrite ws s w.key = w.new := by
  induction ws generalizing s with
  | nil => exact absurd hw (by simp)
  | cons v ws ih =>
    rw [map_cons, nodup_cons] at hnd
    rw [overwrite_cons]
    rcases mem_cons.mp hw with rfl | hw
    · rw [overwrite_of_notMem hnd.1, w.set_self]
    · exact ih hnd.2 hw

theorem overwrite_perm {ws ws' : List (Write K V)} (hp : ws.Perm ws')
    (hnd : (ws.map Write.key).Nodup) (s : K → Option V) : overwrite ws s = overwrite ws' s := by
  have hnd' : (ws'.map Write.key).Nodup := (hp.map _).nodup_iff.mp hnd
  funext k
  by_cases hk : k ∈ ws.map Write.key
  · obtain ⟨w, hw, rfl⟩ := mem_map.mp hk
    rw [overwrite_of_mem hnd hw, overwrite_of_mem hnd' (hp.mem_iff.mp hw)]
  · rw [overwrite_of_notMem hk, overwrite_of_notMem (mt (hp.map _).mem_iff.mpr hk)]

/-! ### Runs with distinct keys -/

section Run

variable [DecidableEq V]

/-- **Guards are initial.** With distinct keys a run succeeds exactly when every
guard holds in the initial store, and its result is the overwrite. -/
theorem runWrites_eq_some_iff {ws : List (Write K V)} {s s' : K → Option V}
    (hnd : (ws.map Write.key).Nodup) :
    runWrites ws s = some s' ↔ (∀ w ∈ ws, s w.key = w.old) ∧ s' = overwrite ws s := by
  induction ws generalizing s with
  | nil => simp [runWrites, eq_comm]
  | cons w ws ih =>
    rw [map_cons, nodup_cons] at hnd
    -- the first write does not disturb the guards of the others
    have hguard : ∀ v ∈ ws, w.set s v.key = s v.key := fun v hv =>
      w.set_of_ne s fun heq => hnd.1 (heq ▸ mem_map_of_mem hv)
    by_cases hw : s w.key = w.old
    · rw [runWrites, if_pos hw, ih hnd.2, forall_mem_cons]
      constructor
      · rintro ⟨hall, rfl⟩
        exact ⟨⟨hw, fun v hv => hguard v hv ▸ hall v hv⟩, rfl⟩
      · rintro ⟨⟨-, hall⟩, rfl⟩
        exact ⟨fun v hv => (hguard v hv).trans (hall v hv), rfl⟩
    · rw [runWrites]
      simp [hw]

/-- **Runs commute.** With distinct keys the order of the writes does not matter,
for success and for the result. -/
theorem runWrites_perm {ws ws' : List (Write K V)} (hp : ws.Perm ws')
    (hnd : (ws.map Write.key).Nodup) (s : K → Option V) : runWrites ws s = runWrites ws' s := by
  refine Option.ext fun s' => ?_
  rw [runWrites_eq_some_iff hnd, runWrites_eq_some_iff ((hp.map _).nodup_iff.mp hnd), overwrite_perm hp hnd]
  simp only [hp.mem_iff]

/-- A run over a concatenation is the run of the second part from the result of
the first. -/
theorem runWrites_append (ws ws' : List (Write K V)) (s : K → Option V) :
    runWrites (ws ++ ws') s = (runWrites ws s).bind (runWrites ws') := by
  induction ws generalizing s with
  | nil => rfl
  | cons w ws ih =>
    rw [cons_append, runWrites, runWrites]
    by_cases hw : s w.key = w.old
    · rw [if_pos hw, if_pos hw, ih]
    · rw [if_neg hw, if_neg hw, Option.bind_none]

end Run

end Framework
