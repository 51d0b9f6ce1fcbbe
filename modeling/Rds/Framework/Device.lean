import Rds.Framework.Interrupt

/-!
# Programs over unreliable storage

A `Device` is the state a program works on together with a script of faults. Each step that
touches storage takes one fault off the script: it goes through, it returns an error, or the
process stops at it. A step that does not go through may have taken effect all the same, and
may leave debris behind. An exhausted script means that storage works.

`act` is a step that changes the state, all or nothing, and `ask` one that only looks. What
a program keeps in memory is part of the state; `modify` and `get` reach it without touching
storage. `act_ends`, `ask_ends`, `modify_ends` and `get_ends` are the rules for these steps,
and `On` reads a condition on the state as one on the device. On an exhausted script the
equations `act_calm`, `ask_calm`, `modify_apply` and `get_apply` compute a program's run.
-/

namespace Framework

/-- The fate of a step that touches storage. `debris`, if there is some, names what the
interrupted step leaves behind, and `full` whether the error is that storage is full. -/
inductive Device.Fault where
  | go
  | fail (done full : Bool) (debris : Option ℕ)
  | stop (done : Bool) (debris : Option ℕ)
  deriving DecidableEq

/-- A state and the faults to come. -/
structure Device (σ : Type) where
  state : σ
  faults : List Device.Fault

namespace Device

variable {σ ε α : Type}

/-- What an interrupted step leaves. -/
def torn (effect : σ → σ) (litter : ℕ → σ → σ) (done : Bool) (debris : Option ℕ) (s : σ) : σ :=
  let s' := if done then effect s else s
  match debris with
  | none => s'
  | some n => litter n s'

/-- A step that changes the state, all or nothing. -/
def act (error : Bool → ε) (effect : σ → σ) (litter : ℕ → σ → σ) : Prog (Device σ) ε Unit :=
  fun d =>
    match d.faults with
    | [] => (.ok (), ⟨effect d.state, []⟩)
    | .go :: rest => (.ok (), ⟨effect d.state, rest⟩)
    | .fail done full debris :: rest => (.err (error full), ⟨torn effect litter done debris d.state, rest⟩)
    | .stop done debris :: rest => (.stopped, ⟨torn effect litter done debris d.state, rest⟩)

/-- A step that only looks. -/
def ask (error : ε) (f : σ → α) : Prog (Device σ) ε α := fun d =>
  match d.faults with
  | [] => (.ok (f d.state), d)
  | .go :: rest => (.ok (f d.state), ⟨d.state, rest⟩)
  | .fail _ _ _ :: rest => (.err error, ⟨d.state, rest⟩)
  | .stop _ _ :: rest => (.stopped, ⟨d.state, rest⟩)

/-- Change what is in memory. -/
def modify (f : σ → σ) : Prog (Device σ) ε Unit := fun d => (.ok (), ⟨f d.state, d.faults⟩)

/-- Look at what is in memory. -/
def get (f : σ → α) : Prog (Device σ) ε α := fun d => (.ok (f d.state), d)

/-- A condition on the state, as one on the device. -/
def On (P : σ → Prop) (d : Device σ) : Prop := P d.state

/-! ### Rules -/

section Rules

variable {P : σ → Prop} {Q : σ → Prop} {R : α → σ → Prop} {F : Option ε → σ → Prop}

theorem torn_spec {E : σ → Prop} {effect : σ → σ} {litter : ℕ → σ → σ} {s : σ} (hs : E s)
    (heff : E (effect s)) (hlit : ∀ n t, E t → E (litter n t)) (done : Bool) (debris : Option ℕ) :
    E (torn effect litter done debris s) := by
  have hbase : E (if done then effect s else s) := by
    cases done
    · exact hs
    · exact heff
  cases debris with
  | none => exact hbase
  | some n => exact hlit n _ hbase

/-- **Steps that change the state.** A step that does not go through leaves the state before
or after it. -/
theorem act_ends {error : Bool → ε} {effect : σ → σ} {litter : ℕ → σ → σ} (hok : ∀ s, P s → Q (effect s))
    (hbefore : ∀ e s, (∀ e', e = some e' → ∃ full, e' = error full) → P s → F e s)
    (hafter : ∀ e s, (∀ e', e = some e' → ∃ full, e' = error full) → P s → F e (effect s))
    (hlit : ∀ e n s, F e s → F e (litter n s)) :
    Ends (On P) (act error effect litter) (fun _ => On Q) fun e => On (F e) := by
  have htorn : ∀ e done debris s, (∀ e', e = some e' → ∃ full, e' = error full) → P s →
      F e (torn effect litter done debris s) := fun e done debris s he hs =>
    torn_spec (hbefore e s he hs) (hafter e s he hs) (hlit e) done debris
  rintro ⟨s, faults⟩ hd
  cases faults with
  | nil => exact hok s hd
  | cons fault rest =>
    cases fault with
    | go => exact hok s hd
    | fail done full debris =>
      exact htorn _ done debris s (fun e' he => ⟨full, (Option.some.inj he).symm⟩) hd
    | stop done debris => exact htorn _ done debris s (fun e' he => absurd he (by simp)) hd

/-- **Steps that only look.** -/
theorem ask_ends {error : ε} {f : σ → α} (hok : ∀ s, P s → R (f s) s)
    (herr : ∀ e s, (∀ e', e = some e' → e' = error) → P s → F e s) :
    Ends (On P) (ask error f) (fun a => On (R a)) fun e => On (F e) := by
  rintro ⟨s, faults⟩ hd
  cases faults with
  | nil => exact hok s hd
  | cons fault rest =>
    cases fault with
    | go => exact hok s hd
    | fail done full debris => exact herr _ s (fun e' he => (Option.some.inj he).symm) hd
    | stop done debris => exact herr _ s (fun e' he => absurd he (by simp)) hd

theorem each_ends {m : Prog (Device σ) ε α} {R : α → Device σ → Prop} {F : Option ε → Device σ → Prop}
    (h : ∀ s, P s → Ends (On (· = s)) m R F) : Ends (On P) m R F :=
  fun d hd => h d.state hd d rfl

theorem modify_ends {f : σ → σ} (h : ∀ s, P s → Q (f s)) :
    Ends (On P) (modify f : Prog (Device σ) ε Unit) (fun _ => On Q) fun e => On (F e) :=
  fun d hd => h d.state hd

theorem get_ends {f : σ → α} (h : ∀ s, P s → R (f s) s) :
    Ends (On P) (get f : Prog (Device σ) ε α) (fun a => On (R a)) fun e => On (F e) :=
  fun d hd => h d.state hd

end Rules

/-! ### Runs on storage that works -/

section Calm

variable {β : Type}

@[simp] theorem act_calm (error : Bool → ε) (effect : σ → σ) (litter : ℕ → σ → σ) (s : σ) :
    act error effect litter ⟨s, []⟩ = (.ok (), ⟨effect s, []⟩) :=
  rfl

@[simp] theorem ask_calm (error : ε) (f : σ → α) (s : σ) :
    ask error f ⟨s, []⟩ = (.ok (f s), ⟨s, []⟩) :=
  rfl

@[simp] theorem modify_apply (f : σ → σ) (d : Device σ) :
    (modify f : Prog (Device σ) ε Unit) d = (.ok (), ⟨f d.state, d.faults⟩) :=
  rfl

@[simp] theorem get_apply (f : σ → α) (d : Device σ) :
    (get f : Prog (Device σ) ε α) d = (.ok (f d.state), d) :=
  rfl

end Calm

end Device

end Framework
