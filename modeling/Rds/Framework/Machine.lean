import Mathlib.Data.List.Basic

/-!
# Machines driven by a scheduler

A `Machine` is a concurrent system seen from outside: a scheduler picks the next
action, and `step` says what it does, or that it is not enabled. A property of
every interleaving is a property of the states `run` reaches on every schedule.

* `run_induction` is the induction rule for such properties, `run_invariant` its
  instance for what every step keeps.
* If every step decreases a measure, schedules are bounded (`run_length_le`). What
  holds in all stuck states is then what every maximal run ends with.

Two simpler kinds of runs follow. If every action does something in every state, a
run is a fold, and the state after the first `n` actions is the fold of `acts.take n`;
`foldl_take_induction` proves what holds in all of them, and may speak of `n`. A
program in `StateM W` asks something outside of it, whose state is `W`, and goes on
with the answers: `Always m P` says that it ends with a value in `P` whatever that
state was, and its rules follow the program.
-/

namespace Framework

/-- A state machine whose scheduler chooses the next action; `none` means that the
action is not enabled. -/
structure Machine (σ α : Type) where
  step : α → σ → Option σ

namespace Machine

variable {σ α : Type} (M : Machine σ α)

/-- Carry out a schedule. -/
def run : List α → σ → Option σ
  | [], s => some s
  | a :: acts, s => (M.step a s).bind (run acts)

/-- No action is enabled. -/
def Stuck (s : σ) : Prop := ∀ a, M.step a s = none

variable {M} {s t : σ} {a : α} {acts : List α}

theorem of_guard {P : σ → Prop} {p : Prop} [Decidable p]
    (h : (if p then some s else none) = some t) (hs : p → P s) : P t := by
  obtain ⟨hp, h⟩ := Option.ite_none_right_eq_some.mp h
  cases h
  exact hs hp

theorem run_cons_eq_some :
    M.run (a :: acts) s = some t ↔ ∃ m, M.step a s = some m ∧ M.run acts m = some t :=
  Option.bind_eq_some_iff

theorem run_append {acts' : List α} :
    M.run (acts ++ acts') s = (M.run acts s).bind (M.run acts') := by
  induction acts generalizing s with
  | nil => rfl
  | cons a acts ih =>
    show (M.step a s).bind (M.run (acts ++ acts')) = ((M.step a s).bind (M.run acts)).bind _
    rw [Option.bind_assoc]
    exact congrArg _ (funext fun _ => ih)

theorem run_snoc_eq_some :
    M.run (acts ++ [a]) s = some t ↔ ∃ m, M.run acts s = some m ∧ M.step a m = some t := by
  rw [run_append, Option.bind_eq_some_iff]
  constructor
  · rintro ⟨m, hm, hlast⟩
    obtain ⟨t', ht', hnil⟩ := run_cons_eq_some.mp hlast
    cases hnil
    exact ⟨m, hm, ht'⟩
  · rintro ⟨m, hm, hlast⟩
    exact ⟨m, hm, run_cons_eq_some.mpr ⟨t, hlast, rfl⟩⟩

/-- **Induction along a schedule.** The property may speak of the actions that are still
to come. -/
theorem run_induction {P : List α → σ → Prop}
    (hstep : ∀ a acts s t, P (a :: acts) s → M.step a s = some t → P acts t)
    (hs : P acts s) (h : M.run acts s = some t) : P [] t := by
  induction acts generalizing s with
  | nil =>
    cases h
    exact hs
  | cons a acts ih =>
    obtain ⟨m, hm, hrest⟩ := run_cons_eq_some.mp h
    exact ih (hstep a acts s m hs hm) hrest

/-- **Invariants.** What every step keeps, every run keeps. -/
theorem run_invariant {I : σ → Prop} (hstep : ∀ a s t, I s → M.step a s = some t → I t)
    (hs : I s) (h : M.run acts s = some t) : I t :=
  run_induction (fun a _ s t hi ht => hstep a s t hi ht) hs h

/-- **Bounded runs.** -/
theorem run_length_le {μ : σ → ℕ} (hstep : ∀ a s t, M.step a s = some t → μ t < μ s)
    (h : M.run acts s = some t) : acts.length + μ t ≤ μ s := by
  induction acts generalizing s with
  | nil =>
    cases h
    exact Nat.le_of_eq (Nat.zero_add _)
  | cons a acts ih =>
    obtain ⟨m, hm, hrest⟩ := run_cons_eq_some.mp h
    have hdec := hstep a s m hm
    have hle := ih hrest
    rw [List.length_cons]
    omega

/-- A run that ends, by the state it ends in. -/
theorem run_eq_some_getD {d : σ} (h : (M.run acts s).isSome = true) : M.run acts s = some
    ((M.run acts s).getD d) := by
  obtain ⟨t, ht⟩ := Option.isSome_iff_exists.mp h
  rw [ht]
  rfl

end Machine

/-! ### Runs of total actions -/

section Folds

variable {σ α : Type} {step : σ → α → σ} {s : σ} {acts : List α} {n : ℕ} {act : α}

theorem foldl_take_succ (h : acts[n]? = some act) :
    (acts.take (n + 1)).foldl step s = step ((acts.take n).foldl step s) act := by
  rw [List.take_add_one, h, List.foldl_append]
  rfl

/-- **Induction along a run.** After its last action a run stays where it is. -/
theorem foldl_take_induction {P : ℕ → σ → Prop} (hstart : P 0 s)
    (hstep : ∀ n act, acts[n]? = some act → P n ((acts.take n).foldl step s) →
      P (n + 1) (step ((acts.take n).foldl step s) act))
    (hrest : ∀ n, acts[n]? = none → P n ((acts.take n).foldl step s) →
      P (n + 1) ((acts.take n).foldl step s)) : ∀ n, P n ((acts.take n).foldl step s)
  | 0 => by
    rw [List.take_zero]
    exact hstart
  | n + 1 => by
    have hn := foldl_take_induction hstart hstep hrest n
    cases hact : acts[n]? with
    | none =>
      rw [List.take_add_one, hact, Option.toList_none, List.append_nil]
      exact hrest n hact hn
    | some act =>
      rw [foldl_take_succ hact]
      exact hstep n act hact hn

end Folds

/-! ### Programs that ask an oracle -/

section Oracle

variable {W α β : Type}

/-- Whatever the oracle's state, the result of `m` is in `P`. -/
def Always (m : StateM W α) (P : α → Prop) : Prop := ∀ w, P (m w).1

namespace Always

variable {m : StateM W α} {f : α → StateM W β} {P P' : α → Prop} {Q : β → Prop}

theorem bind_apply (m : StateM W α) (f : α → StateM W β) (w : W) :
    (m >>= f) w = f (m w).1 (m w).2 := rfl

theorem pure {a : α} (h : P a) : Always (Pure.pure a : StateM W α) P := fun _ => h

theorem bind (hm : Always m P) (hf : ∀ a, P a → Always (f a) Q) : Always (m >>= f) Q :=
  fun w => hf (m w).1 (hm w) (m w).2

theorem ask (hf : ∀ a, Always (f a) Q) : Always (m >>= f) Q :=
  bind (P := fun _ => True) (fun _ => trivial) fun a _ => hf a

theorem ite {c : Prop} [Decidable c] {m' : StateM W α} (hpos : c → Always m P)
    (hneg : ¬ c → Always m' P) : Always (if c then m else m') P := by
  by_cases h : c
  · rw [if_pos h]
    exact hpos h
  · rw [if_neg h]
    exact hneg h

end Always

end Oracle

end Framework
