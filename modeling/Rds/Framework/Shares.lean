import Mathlib.Data.List.Basic
import Mathlib.Data.List.Perm.Basic
import Mathlib.Data.List.Range
import Mathlib.Tactic.Linarith

/-!
# Dealing out a list

Two ways to split work. `batches n` cuts a list into consecutive pieces of at most
`n` elements. `share k w` is the hand of player `k` when the list is dealt in turn
to `w` players; every element is dealt exactly once (`shares_perm`).
-/

namespace Framework

open List

variable {α : Type}

/-! ### Batches -/

/-- Cut off `n` elements at a time, at most `fuel` times. -/
def batchesLoop (n : ℕ) : ℕ → List α → List (List α)
  | 0, _ => []
  | _ + 1, [] => []
  | fuel + 1, x :: xs => (x :: xs).take n :: batchesLoop n fuel ((x :: xs).drop n)

/-- Consecutive pieces of at most `n` elements. -/
def batches (n : ℕ) (l : List α) : List (List α) := batchesLoop n l.length l

section Batches

variable {n fuel : ℕ} {l : List α}

theorem flatten_batchesLoop (hn : 0 < n) (h : l.length ≤ fuel) :
    (batchesLoop n fuel l).flatten = l := by
  induction fuel generalizing l with
  | zero => rw [length_eq_zero_iff.mp (Nat.le_zero.mp h)]; rfl
  | succ fuel ih =>
    cases l with
    | nil => rfl
    | cons x xs =>
      have hdrop : ((x :: xs).drop n).length ≤ fuel := by
        rw [length_drop] at *
        omega
      rw [batchesLoop, flatten_cons, ih hdrop, take_append_drop]

theorem flatten_batches (hn : 0 < n) (l : List α) : (batches n l).flatten = l :=
  flatten_batchesLoop hn le_rfl

theorem mem_batchesLoop {b : List α} (hn : 0 < n) (hb : b ∈ batchesLoop n fuel l) :
    b ≠ [] ∧ b.length ≤ n := by
  induction fuel generalizing l with
  | zero => simp [batchesLoop] at hb
  | succ fuel ih =>
    cases l with
    | nil => simp [batchesLoop] at hb
    | cons x xs =>
      rw [batchesLoop, mem_cons] at hb
      rcases hb with rfl | hb
      · obtain ⟨n, rfl⟩ := Nat.exists_eq_succ_of_ne_zero hn.ne'
        exact ⟨by simp, by simp⟩
      · exact ih hb

theorem mem_batches {b : List α} (hn : 0 < n) (hb : b ∈ batches n l) : b ≠ [] ∧ b.length ≤ n :=
  mem_batchesLoop hn hb

theorem length_batchesLoop_le_iff {k : ℕ} (hn : 0 < n) (h : l.length ≤ fuel) :
    (batchesLoop n fuel l).length ≤ k ↔ l.length ≤ k * n := by
  induction fuel generalizing l k with
  | zero =>
    rw [length_eq_zero_iff.mp (Nat.le_zero.mp h)]
    simp [batchesLoop]
  | succ fuel ih =>
    cases l with
    | nil => simp [batchesLoop]
    | cons x xs =>
      have hdrop : ((x :: xs).drop n).length ≤ fuel := by
        rw [length_drop] at *
        omega
      rw [batchesLoop, length_cons]
      cases k with
      | zero => simp
      | succ k =>
        -- one batch takes `n` elements off
        rw [Nat.succ_le_succ_iff, ih hdrop, length_drop, Nat.succ_mul]
        omega

/-- **How many batches** a list gives. -/
theorem length_batches_le_iff {k : ℕ} (hn : 0 < n) :
    (batches n l).length ≤ k ↔ l.length ≤ k * n :=
  length_batchesLoop_le_iff hn le_rfl

end Batches

/-! ### Shares -/

/-- Skip `k` elements, take one, and from then on skip `w - 1` each time. -/
def stepFrom (w : ℕ) : ℕ → List α → List α
  | _, [] => []
  | 0, x :: xs => x :: stepFrom w (w - 1) xs
  | k + 1, _ :: xs => stepFrom w k xs

/-- Every `w`-th element, from the first on. -/
def stepBy (w : ℕ) (l : List α) : List α := stepFrom w 0 l

/-- The hand of player `k` of `w`: skip `k` elements, then take every `w`-th. -/
def share (k w : ℕ) (l : List α) : List α := stepBy w (l.drop k)

theorem share_eq_stepFrom (k w : ℕ) (l : List α) : share k w l = stepFrom w k l := by
  induction k generalizing l with
  | zero => rfl
  | succ k ih =>
    cases l with
    | nil => rfl
    | cons x xs => exact ih xs

theorem flatMap_stepFrom_perm (v : ℕ) (l : List α) :
    ((List.range (v + 1)).flatMap fun k => stepFrom (v + 1) k l).Perm l := by
  induction l with
  | nil =>
    have hnil : ∀ k, stepFrom (v + 1) k ([] : List α) = [] := fun k => by cases k <;> rfl
    simp [hnil]
  | cons x xs ih =>
    -- player 0 takes `x` and becomes player `v`; every other player moves up by one
    have hdeal : ((range (v + 1)).flatMap fun k => stepFrom (v + 1) k (x :: xs)) =
        x :: (stepFrom (v + 1) v xs ++ (range v).flatMap fun k => stepFrom (v + 1) k xs) := by
      rw [range_succ_eq_map, flatMap_cons, flatMap_map]
      rfl
    rw [hdeal]
    refine List.Perm.cons x (perm_append_comm.trans ?_)
    rw [range_succ, flatMap_append, flatMap_singleton] at ih
    exact ih

/-- **Every element is dealt exactly once.** -/
theorem shares_perm {w : ℕ} (hw : 0 < w) (l : List α) :
    ((List.range w).flatMap fun k => share k w l).Perm l := by
  obtain ⟨v, rfl⟩ := Nat.exists_eq_succ_of_ne_zero hw.ne'
  simp only [share_eq_stepFrom]
  exact flatMap_stepFrom_perm v l

end Framework
