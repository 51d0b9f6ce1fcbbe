import Mathlib.Data.Finset.Basic
import Mathlib.Logic.Function.Basic

/-!
# Exclusive reservations

A registry shared by many holders records which keys are reserved. A holder takes a key only when the
registry does not have it, and gives it back by removing it. `Exact` says that the registry is the set of
the keys held, none of them by two holders. Every `Move` of one holder keeps it, hence so does every
interleaving of moves.
-/

namespace Framework

open Function

variable {ι κ : Type}

/-- The registry has the keys that are held, and each has one holder. -/
structure Exact (active : Finset κ) (slots : ι → List κ) : Prop where
  mem_iff : ∀ key, key ∈ active ↔ ∃ i, key ∈ slots i
  unique : ∀ i j key, key ∈ slots i → key ∈ slots j → i = j

/-- What a holder can do: nothing, take one key, or give its only one back. -/
inductive Move [DecidableEq κ] (active : Finset κ) (slots : List κ) : Finset κ → List κ → Prop
  | stay : Move active slots active slots
  | take {key : κ} (hfree : key ∉ active) (hnone : slots = []) :
      Move active slots (insert key active) [key]
  | give {key : κ} (hheld : slots = [key]) : Move active slots (active.erase key) []

theorem Exact.empty : Exact (∅ : Finset κ) fun _ : ι => [] where
  mem_iff key := by simp
  unique i j key hi := by simp at hi

/-- **Moves keep the registry exact.** -/
theorem Exact.move [DecidableEq ι] [DecidableEq κ] {active active' : Finset κ} {slots : ι → List κ}
    {i : ι} {held : List κ}
    (h : Exact active slots) (hmove : Move active (slots i) active' held) :
    Exact active' (update slots i held) := by
  cases hmove with
  | stay => rwa [update_eq_self]
  | @take key hfree hnone =>
    -- nobody holds the new key, for the registry does not have it
    have hnobody : ∀ j, key ∉ slots j := fun j hj => hfree ((h.mem_iff key).mpr ⟨j, hj⟩)
    constructor
    · intro k
      rw [Finset.mem_insert, h.mem_iff]
      constructor
      · rintro (rfl | ⟨j, hj⟩)
        · exact ⟨i, by simp⟩
        have hne : j ≠ i := by
          rintro rfl
          simp [hnone] at hj
        exact ⟨j, by rwa [update_of_ne hne]⟩
      rintro ⟨j, hj⟩
      by_cases hji : j = i
      · subst hji
        left
        simpa using hj
      · rw [update_of_ne hji] at hj
        exact .inr ⟨j, hj⟩
    · intro a b k ha hb
      by_cases hai : a = i <;> by_cases hbi : b = i
      · rw [hai, hbi]
      · subst hai
        rw [update_self, List.mem_singleton] at ha
        rw [update_of_ne hbi, ha] at hb
        exact absurd hb (hnobody b)
      · subst hbi
        rw [update_self, List.mem_singleton] at hb
        rw [update_of_ne hai, hb] at ha
        exact absurd ha (hnobody a)
      · rw [update_of_ne hai] at ha
        rw [update_of_ne hbi] at hb
        exact h.unique a b k ha hb
  | @give key hheld =>
    have hmine : ∀ j, key ∈ slots j → j = i := fun j hj => h.unique j i key hj (by simp [hheld])
    constructor
    · intro k
      rw [Finset.mem_erase, h.mem_iff]
      constructor
      · rintro ⟨hk, j, hj⟩
        have hne : j ≠ i := by
          rintro rfl
          rw [hheld, List.mem_singleton] at hj
          exact hk hj
        exact ⟨j, by rwa [update_of_ne hne]⟩
      rintro ⟨j, hj⟩
      by_cases hji : j = i
      · subst hji
        simp at hj
      rw [update_of_ne hji] at hj
      refine ⟨?_, j, hj⟩
      rintro rfl
      exact hji (hmine j hj)
    · intro a b k ha hb
      have hne : ∀ j, k ∈ update slots i [] j → j ≠ i := by
        rintro j hj rfl
        simp at hj
      rw [update_of_ne (hne a ha)] at ha
      rw [update_of_ne (hne b hb)] at hb
      exact h.unique a b k ha hb

end Framework
