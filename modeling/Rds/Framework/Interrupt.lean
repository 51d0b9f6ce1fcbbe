import Mathlib

/-!
# Interruptible programs

A program over a state `σ` runs to a result, returns an error, or is *stopped*:
the process ends at that point and nothing after it runs. The difference between
the last two matters to code that cleans up behind itself. An error unwinds, so
error handlers and destructors run; a stop does not unwind.

`Ends P m Q E` is the partial-correctness statement used throughout: from a
state with `P`, a run of `m` that returns `a` ends in a state with `Q a`, and a
run that fails or is stopped ends in a state with `E` of the error. A `Triple`
does not look at the error. Programs have no recursion of their own, so every
run ends and the statement loses nothing.

Most code only has to leave an invariant alone. `Preserves I m` is the triple
with `I` in all three places, and has its own rules.
-/

namespace Framework

/-- How a run ends. -/
inductive Outcome (ε α : Type) where
  | ok (a : α)
  | err (e : ε)
  | stopped
  deriving DecidableEq

/-- A program over a state, with errors. -/
def Prog (σ ε α : Type) : Type := σ → Outcome ε α × σ

namespace Prog

variable {σ ε ε' α β : Type}

instance : Monad (Prog σ ε) where
  pure a := fun s => (.ok a, s)
  bind m f := fun s =>
    match m s with
    | (.ok a, s') => f a s'
    | (.err e, s') => (.err e, s')
    | (.stopped, s') => (.stopped, s')

theorem bind_apply (m : Prog σ ε α) (f : α → Prog σ ε β) (s : σ) :
    (m >>= f) s = match m s with
      | (.ok a, s') => f a s'
      | (.err e, s') => (.err e, s')
      | (.stopped, s') => (.stopped, s') :=
  rfl

/-- Return an error. -/
def fail (e : ε) : Prog σ ε α := fun s => (.err e, s)

/-- Run a program and inspect its result, as `match f() { Ok(..) .. Err(..) .. }`
does. A stop is not a result. -/
def attempt (m : Prog σ ε α) : Prog σ ε (Except ε α) := fun s =>
  match m s with
  | (.ok a, s') => (.ok (.ok a), s')
  | (.err e, s') => (.ok (.error e), s')
  | (.stopped, s') => (.stopped, s')

/-- Run a program that owns a resource: if it fails, the destructor runs before
the error is passed on. An error of the destructor is ignored. -/
def onError (m : Prog σ ε α) (drop : Prog σ ε Unit) : Prog σ ε α := fun s =>
  match m s with
  | (.ok a, s') => (.ok a, s')
  | (.err e, s') =>
    match drop s' with
    | (.stopped, s'') => (.stopped, s'')
    | (_, s'') => (.err e, s'')
  | (.stopped, s') => (.stopped, s')

/-- Convert the error, as `?` does. -/
def mapError (f : ε → ε') (m : Prog σ ε α) : Prog σ ε' α := fun s =>
  match m s with
  | (.ok a, s') => (.ok a, s')
  | (.err e, s') => (.err (f e), s')
  | (.stopped, s') => (.stopped, s')

/-- A step that is taken under a condition only. -/
def when (c : Prop) [Decidable c] (m : Prog σ ε Unit) : Prog σ ε Unit := if c then m else pure ()

/-- Look at the state. -/
def look (f : σ → α) : Prog σ ε α := fun s => (.ok (f s), s)

/-- Change the state. -/
def modify (f : σ → σ) : Prog σ ε Unit := fun s => (.ok (), f s)

/-- Run a computation that needs no state. -/
def ofExcept : Except ε α → Prog σ ε α
  | .ok a => pure a
  | .error e => fail e

end Prog

/-! ### Runs of the elementary programs -/

section Apply

open Prog

variable {σ ε α : Type}

@[simp] theorem Prog.pure_apply (a : α) (s : σ) : (pure a : Prog σ ε α) s = (.ok a, s) := rfl

@[simp] theorem Prog.look_apply (f : σ → α) (s : σ) : (look f : Prog σ ε α) s = (.ok (f s), s) :=
  rfl

@[simp] theorem Prog.modify_apply (f : σ → σ) (s : σ) :
    (modify f : Prog σ ε Unit) s = (.ok (), f s) :=
  rfl

@[simp] theorem Prog.ofExcept_ok_apply (a : α) (s : σ) :
    (ofExcept (.ok a) : Prog σ ε α) s = (.ok a, s) :=
  rfl

end Apply

section Sequence

variable {σ ε α β : Type} {m : Prog σ ε α} {f : α → Prog σ ε β} {s s' : σ}

theorem Prog.bind_of_ok {a : α} (h : m s = (.ok a, s')) : (m >>= f) s = f a s' := by
  rw [bind_apply, h]

theorem Prog.bind_assoc {γ : Type} (m : Prog σ ε α) (f : α → Prog σ ε β) (g : β → Prog σ ε γ) :
    (m >>= f) >>= g = m >>= fun a => f a >>= g := by
  funext s
  simp only [Prog.bind_apply]
  rcases m s with ⟨o, s'⟩
  cases o <;> rfl

theorem Prog.pure_bind (a : α) (f : α → Prog σ ε β) : (pure a : Prog σ ε α) >>= f = f a := rfl

theorem Prog.when_of {c : Prop} [Decidable c] (h : c) (m : Prog σ ε Unit) : Prog.when c m = m :=
  if_pos h

theorem Prog.when_of_not {c : Prop} [Decidable c] (h : ¬ c) (m : Prog σ ε Unit) :
    Prog.when c m = pure () :=
  if_neg h

theorem Prog.ofExcept_ok_bind (a : α) (f : α → Prog σ ε β) : (ofExcept (.ok a) >>= f) = f a :=
  rfl

theorem Prog.bind_of_err {e : ε} (h : m s = (.err e, s')) : (m >>= f) s = (.err e, s') := by
  rw [bind_apply, h]

theorem Prog.bind_of_ok_except {x : Except ε α} {a : α} (h : x = .ok a) :
    (ofExcept x >>= f) s = f a s := by
  rw [h]
  rfl

theorem Prog.bind_of_error_except {x : Except ε α} {e : ε} (h : x = .error e) :
    (ofExcept x >>= f) s = (.err e, s) := by
  rw [h]
  rfl

end Sequence

/-- Go on with a computation that needs no state. -/
def Outcome.andThen {ε α β : Type} (o : Outcome ε α) (f : α → Except ε β) : Outcome ε β :=
  match o with
  | .ok a =>
    match f a with
    | .ok b => .ok b
    | .error e => .err e
  | .err e => .err e
  | .stopped => .stopped

theorem Prog.bind_ofExcept_apply {σ ε α β : Type} (m : Prog σ ε α) (f : α → Except ε β) (s : σ) :
    (m >>= fun a => Prog.ofExcept (f a)) s = ((m s).1.andThen f, (m s).2) := by
  rw [Prog.bind_apply]
  rcases m s with ⟨o, s'⟩
  cases o with
  | ok a =>
    dsimp only [Outcome.andThen]
    cases f a <;> rfl
  | err e | stopped => rfl

/-! ### Triples -/

/-- The postcondition of a run: `Q` of what it returned, or `E` of its error; `none` stands for a
stop. -/
def Outcome.Post {σ ε α : Type} (Q : α → σ → Prop) (E : Option ε → σ → Prop) : Outcome ε α → σ → Prop
  | .ok a, s => Q a s
  | .err e, s => E (some e) s
  | .stopped, s => E none s

/-- From `P`, a run returns into `Q`, or ends in `E` of its error. -/
def Ends {σ ε α : Type} (P : σ → Prop) (m : Prog σ ε α) (Q : α → σ → Prop) (E : Option ε → σ → Prop) :
    Prop :=
  ∀ s, P s → (m s).1.Post Q E (m s).2

/-- From `P`, a run returns into `Q` or ends in `E`. -/
def Triple {σ ε α : Type} (P : σ → Prop) (m : Prog σ ε α) (Q : α → σ → Prop) (E : σ → Prop) :
    Prop :=
  Ends P m Q fun _ => E

section Rules

open Prog

variable {σ ε ε' α β : Type} {P P' : σ → Prop} {Q Q' : α → σ → Prop} {R : β → σ → Prop}
  {E E' : σ → Prop} {F F' : Option ε → σ → Prop} {m : Prog σ ε α} {f : α → Prog σ ε β} {x : Except ε α}

/-! ### Triples that see the error -/

theorem Ends.pure {a : α} (h : ∀ s, P s → Q a s) : Ends P (Pure.pure a : Prog σ ε α) Q F :=
  h

theorem Ends.fail {e : ε} (h : ∀ s, P s → F (some e) s) : Ends P (Prog.fail e : Prog σ ε α) Q F :=
  h

/-- **Consequence.** -/
theorem Ends.imp (h : Ends P m Q F) (hP : ∀ s, P' s → P s)
    (hQ : ∀ a s, Q a s → Q' a s) (hF : ∀ e s, F e s → F' e s) : Ends P' m Q' F' := by
  intro s hs
  have hrun := h s (hP s hs)
  rcases hm : m s with ⟨o, s'⟩
  rw [hm] at hrun
  cases o with
  | ok a => exact hQ a s' hrun
  | err e => exact hF (some e) s' hrun
  | stopped => exact hF none s' hrun

theorem Ends.relax (h : Ends P m Q F) (hF : ∀ e s, F e s → F' e s) :
    Ends P m Q F' :=
  h.imp (fun _ h => h) (fun _ _ h => h) hF

/-- **Sequencing.** -/
theorem Ends.bind (hm : Ends P m Q F) (hf : ∀ a, Ends (Q a) (f a) R F) : Ends P (m >>= f) R F := by
  intro s hs
  have hrun := hm s hs
  rw [bind_apply]
  rcases hms : m s with ⟨o, s'⟩
  rw [hms] at hrun
  cases o with
  | ok a => exact hf a s' hrun
  | err e | stopped => exact hrun

theorem Ends.when {c : Prop} [Decidable c] {m : Prog σ ε Unit} {Q : Unit → σ → Prop}
    (hm : c → Ends P m Q F) (hskip : ¬ c → ∀ s, P s → Q () s) : Ends P (Prog.when c m) Q F := by
  unfold Prog.when
  split
  next hc => exact hm hc
  next hc => exact .pure (hskip hc)

theorem Ends.given {φ : Prop} (hφ : ∀ s, P s → φ) (h : φ → Ends P m Q F) :
    Ends P m Q F :=
  fun s hs => h (hφ s hs) s hs

theorem Ends.ofExcept (hok : ∀ a s, x = .ok a → P s → Q a s)
    (herr : ∀ e s, x = .error e → P s → F (some e) s) :
    Ends P (Prog.ofExcept x : Prog σ ε α) Q F := by
  intro s hs
  cases x with
  | ok a => exact hok a s rfl hs
  | error e => exact herr e s rfl hs

/-- **Inspecting a result.** The error branch starts where the failed run ended. Only a stop is not
inspected. -/
theorem Ends.attempt (h : Ends P m Q F) :
    Ends P (Prog.attempt m) (fun r s => match r with | .ok a => Q a s | .error e => F (some e) s)
      fun e s => e = none ∧ F none s := by
  intro s hs
  have hrun := h s hs
  unfold Prog.attempt
  rcases hm : m s with ⟨o, s'⟩
  rw [hm] at hrun
  cases o with
  | ok a | err e => exact hrun
  | stopped => exact ⟨rfl, hrun⟩

theorem Ends.triple (h : Ends P m Q F) (hF : ∀ e s, F e s → E s) : Triple P m Q E := h.relax hF

/-! ### Triples that do not -/

theorem Triple.pure {a : α} (h : ∀ s, P s → Q a s) : Triple P (Pure.pure a : Prog σ ε α) Q E := h

theorem Triple.fail {e : ε} (h : ∀ s, P s → E s) : Triple P (Prog.fail e : Prog σ ε α) Q E := h

theorem Triple.imp (h : Triple P m Q E) (hP : ∀ s, P' s → P s)
    (hQ : ∀ a s, Q a s → Q' a s) (hE : ∀ s, E s → E' s) : Triple P' m Q' E' :=
  Ends.imp h hP hQ fun _ => hE

theorem Triple.relax (h : Triple P m Q E) (hE : ∀ s, E s → E' s) : Triple P m Q E' :=
  Ends.relax h fun _ => hE

theorem Triple.bind (hm : Triple P m Q E) (hf : ∀ a, Triple (Q a) (f a) R E) : Triple P (m >>= f) R E :=
  Ends.bind hm hf

theorem Triple.attempt (hm : Triple P m Q E') (hE : ∀ s, E' s → E s) :
    Triple P (Prog.attempt m) (fun r s => match r with | .ok a => Q a s | .error _ => E' s) E :=
  (Ends.attempt hm).relax fun _ s h => hE s h.2

/-- **Destructors.** The destructor runs from where the failed run ended; a stop
skips it. -/
theorem Triple.onError {drop : Prog σ ε Unit} (hm : Triple P m Q E')
    (hdrop : Triple E' drop (fun _ => E) E) (hE : ∀ s, E' s → E s) :
    Triple P (Prog.onError m drop) Q E := by
  intro s hs
  have hrun := hm s hs
  unfold Prog.onError
  rcases hms : m s with ⟨o, s'⟩
  rw [hms] at hrun
  cases o with
  | ok a => exact hrun
  | err e =>
    have hd := hdrop s' hrun
    dsimp only
    rcases hds : drop s' with ⟨o', s''⟩
    rw [hds] at hd
    cases o' <;> exact hd
  | stopped => exact hE _ hrun

theorem Triple.mapError (f : ε → ε') (hm : Triple P m Q E) :
    Triple P (Prog.mapError f m) Q E := by
  intro s hs
  have hrun := hm s hs
  unfold Prog.mapError
  rcases hms : m s with ⟨o, s'⟩
  rw [hms] at hrun
  cases o <;> exact hrun

theorem Triple.ofExcept (hok : ∀ a s, x = .ok a → P s → Q a s)
    (herr : ∀ s, P s → E s) : Triple P (Prog.ofExcept x : Prog σ ε α) Q E :=
  Ends.ofExcept hok fun _ s _ => herr s

theorem Triple.trivial : Triple P m (fun _ _ => True) fun _ => True := by
  intro s _
  cases (m s).1 <;> exact True.intro

theorem Triple.assume {φ : Prop} (h : φ → Triple P m Q E) :
    Triple (fun s => P s ∧ φ) m Q E :=
  fun s hs => h hs.2 s hs.1

theorem Triple.exists_pre {κ : Type} {J : κ → σ → Prop}
    (h : ∀ k, Triple (J k) m Q E) : Triple (fun s => ∃ k, J k s) m Q E :=
  fun s ⟨k, hs⟩ => h k s hs

/-- **Loops.** What one iteration keeps, the loop keeps. -/
theorem Triple.foldlM {l : List β} {f : α → β → Prog σ ε α}
    (hf : ∀ a, ∀ b ∈ l, Triple (Q a) (f a b) Q E) (a : α) :
    Triple (Q a) (l.foldlM f a) Q E := by
  induction l generalizing a with
  | nil => exact .pure fun _ hs => hs
  | cons b l ih =>
    exact (hf a b List.mem_cons_self).bind fun a' =>
      ih (fun x c hc => hf x c (List.mem_cons_of_mem b hc)) a'

/-! ### Invariants -/

/-- The program leaves the invariant alone, however it ends. -/
def Preserves (I : σ → Prop) (m : Prog σ ε α) : Prop := Triple I m (fun _ => I) I

variable {I : σ → Prop}

theorem Preserves.final (h : Preserves I m) {s : σ} (hs : I s) : I (m s).2 := by
  have hrun := h s hs
  cases hm : (m s).1 with
  | ok a | err e | stopped =>
    rw [hm] at hrun
    exact hrun

theorem Preserves.pure {a : α} : Preserves I (Pure.pure a : Prog σ ε α) :=
  Triple.pure fun _ hs => hs

theorem Preserves.fail {e : ε} : Preserves I (Prog.fail e : Prog σ ε α) :=
  Triple.fail fun _ hs => hs

theorem Preserves.bind (hm : Preserves I m) (hf : ∀ a, Preserves I (f a)) : Preserves I (m >>= f) :=
  Triple.bind hm hf

theorem Preserves.attempt (hm : Preserves I m) :
    Preserves I (Prog.attempt m) :=
  (Triple.attempt hm fun _ hs => hs).imp (fun _ hs => hs)
    (fun r _ hs => by cases r <;> exact hs) fun _ hs => hs

theorem Preserves.onError {drop : Prog σ ε Unit} (hm : Preserves I m)
    (hdrop : Preserves I drop) : Preserves I (Prog.onError m drop) :=
  Triple.onError hm hdrop fun _ hs => hs

theorem Preserves.mapError (f : ε → ε') (hm : Preserves I m) :
    Preserves I (Prog.mapError f m) :=
  Triple.mapError f hm

theorem Preserves.ofExcept : Preserves I (Prog.ofExcept x : Prog σ ε α) :=
  Triple.ofExcept (fun _ _ _ hs => hs) fun _ hs => hs

theorem Preserves.ite {c : Prop} [Decidable c] {m m' : Prog σ ε α} (hm : Preserves I m)
    (hm' : Preserves I m') : Preserves I (if c then m else m') := by
  split
  · exact hm
  · exact hm'

theorem Preserves.foldlM {l : List β} {f : α → β → Prog σ ε α}
    (hf : ∀ a, ∀ b ∈ l, Preserves I (f a b)) (a : α) : Preserves I (l.foldlM f a) :=
  Triple.foldlM (Q := fun _ => I) hf a

theorem Preserves.forM {l : List β} {f : β → Prog σ ε Unit} (hf : ∀ b ∈ l, Preserves I (f b)) :
    Preserves I (l.forM f) := by
  induction l with
  | nil => exact .pure
  | cons b l ih =>
    exact (hf b List.mem_cons_self).bind fun _ =>
      ih fun c hc => hf c (List.mem_cons_of_mem b hc)

end Rules

end Framework
