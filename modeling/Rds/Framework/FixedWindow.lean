import Mathlib.Data.List.Basic
import Mathlib.Data.List.Count
import Mathlib.Tactic.Linarith

/-!
# Fixed windows

A counter that admits `limit` events in a window and starts a new window at the first event after `span`.
Windows need not be adjacent, and an interval of length `span` can meet two of them, never three. So it
contains at most `2 * limit` events (`Windowed.countP_le`).

`Windowed` describes a counter by the times it has admitted: those of closed windows, and those of the
current one. The first window may have been opened ahead of the clock.
-/

namespace Framework

open List

/-- The times a counter has admitted, in closed windows (`old`) and in the current one, which began at
`start`. The clock stands at `clock`. -/
structure Windowed (span limit start clock : ℕ) (old cur : List ℕ) : Prop where
  length_cur : cur.length ≤ limit
  cur_lt : ∀ t ∈ cur, t < start + span
  old_lt : ∀ t ∈ old, t < start
  /-- Nothing is closed yet, or the current window began at an event. -/
  begun : old = [] ∨ start ≤ clock ∧ ∀ t ∈ cur, start ≤ t
  /-- Only one closed window is within a span of the current one. -/
  recent : ∀ a, start ≤ a + span → old.countP (a ≤ ·) ≤ limit
  closed : ∀ a, old.countP (fun t => a ≤ t ∧ t ≤ a + span) ≤ 2 * limit

namespace Windowed

variable {span limit start clock now : ℕ} {old cur : List ℕ}

theorem new (span limit start clock : ℕ) : Windowed span limit start clock [] [] where
  length_cur := Nat.zero_le _
  cur_lt := by simp
  old_lt := by simp
  begun := .inl rfl
  recent _ _ := Nat.zero_le _
  closed _ := Nat.zero_le _

section

variable (h : Windowed span limit start clock old cur)
include h

/-- **Two windows at most.** -/
theorem countP_le (a : ℕ) :
    (old ++ cur).countP (fun t => a ≤ t ∧ t ≤ a + span) ≤ 2 * limit := by
  have hcur : cur.countP (fun t => decide (a ≤ t ∧ t ≤ a + span)) ≤ limit :=
    Nat.le_trans countP_le_length h.length_cur
  rw [countP_append]
  by_cases hreach : start ≤ a + span
  · -- the interval reaches the current window: what is closed in it is one window
    have hold : old.countP (fun t => decide (a ≤ t ∧ t ≤ a + span)) ≤ limit := by
      refine Nat.le_trans (countP_mono_left fun t _ ht => ?_) (h.recent a hreach)
      simp only [decide_eq_true_eq] at ht ⊢
      exact ht.1
    omega
  rcases h.begun with rfl | ⟨-, hstart⟩
  · rw [countP_nil]
    omega
  -- it ends before the current window
  have hnone : cur.countP (fun t => decide (a ≤ t ∧ t ≤ a + span)) = 0 := by
    rw [countP_eq_zero]
    intro t ht hin
    have hge := hstart t ht
    simp only [decide_eq_true_eq] at hin
    omega
  have hold := h.closed a
  omega

theorem tick (hnow : clock ≤ now) :
    Windowed span limit start now old cur where
  length_cur := h.length_cur
  cur_lt := h.cur_lt
  old_lt := h.old_lt
  begun := h.begun.imp id fun hbegun => ⟨Nat.le_trans hbegun.1 hnow, hbegun.2⟩
  recent := h.recent
  closed := h.closed

/-- **A new window begins.** -/
theorem reset (hnow : start + span ≤ now) :
    Windowed span limit now now (old ++ cur) [] where
  length_cur := Nat.zero_le _
  cur_lt := by simp
  old_lt := by
    intro t ht
    rcases mem_append.mp ht with ht | ht
    · have := h.old_lt t ht
      omega
    · have := h.cur_lt t ht
      omega
  begun := .inr ⟨le_rfl, by simp⟩
  recent := by
    intro a ha
    -- everything older than the window that ends is out of reach
    have hnone : old.countP (fun t => decide (a ≤ t)) = 0 := by
      rw [countP_eq_zero]
      intro t ht hin
      have hlt := h.old_lt t ht
      simp only [decide_eq_true_eq] at hin
      omega
    rw [countP_append, hnone, Nat.zero_add]
    exact Nat.le_trans countP_le_length h.length_cur
  closed := h.countP_le

/-- **An event is admitted.** -/
theorem admitAt (hclock : clock ≤ now) (hnow : now < start + span) (hroom : cur.length < limit) :
    Windowed span limit start now old (cur ++ [now]) where
  length_cur := by
    rw [length_append]
    exact hroom
  cur_lt := by
    intro t ht
    rcases mem_append.mp ht with ht | ht
    · exact h.cur_lt t ht
    · rw [mem_singleton.mp ht]
      exact hnow
  old_lt := h.old_lt
  begun := by
    refine h.begun.imp id fun hbegun => ⟨Nat.le_trans hbegun.1 hclock, fun t ht => ?_⟩
    rcases mem_append.mp ht with ht | ht
    · exact hbegun.2 t ht
    · rw [mem_singleton.mp ht]
      exact Nat.le_trans hbegun.1 hclock
  recent := h.recent
  closed := h.closed

end

end Windowed

end Framework
