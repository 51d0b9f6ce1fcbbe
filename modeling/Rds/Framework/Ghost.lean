import Rds.Framework.Interrupt

/-!
# Ghost state

To speak about how often a program does something, run a twin of it beside a ghost
state that only the twin writes. `Erases` says that the twin is the program: whatever
the ghost state, it ends the same way in the same state. The rules follow the
constructs of programs, and a write to the ghost state erases to nothing.
-/

namespace Framework

section Ghost

variable {σ γ ε δ α β : Type}

/-- Run a program beside a ghost state. -/
def Prog.beside (m : Prog σ ε α) : Prog (σ × γ) ε α := fun s => ((m s.1).1, (m s.1).2, s.2)

/-- Change the ghost state. -/
def Prog.ghost (f : γ → γ) : Prog (σ × γ) ε Unit := fun s => (.ok (), s.1, f s.2)

theorem Prog.beside_bind (m : Prog σ ε α) (f : α → Prog σ ε β) :
    ((m >>= f).beside : Prog (σ × γ) ε β) = m.beside >>= fun a => (f a).beside := by
  funext s
  simp only [Prog.beside, Prog.bind_apply]
  rcases m s.1 with ⟨o, s'⟩
  cases o <;> rfl

/-- Without its ghost state, the twin is the program. -/
def Erases (twin : Prog (σ × γ) ε α) (m : Prog σ ε α) : Prop :=
  ∀ s g, (twin (s, g)).1 = (m s).1 ∧ (twin (s, g)).2.1 = (m s).2

namespace Erases

variable {twin : Prog (σ × γ) ε α} {m : Prog σ ε α}

theorem pure {a : α} : Erases (γ := γ) (Pure.pure a) (Pure.pure a : Prog σ ε α) :=
  fun _ _ => ⟨rfl, rfl⟩

theorem fail {e : ε} : Erases (γ := γ) (Prog.fail e) (Prog.fail e : Prog σ ε α) :=
  fun _ _ => ⟨rfl, rfl⟩

theorem beside (m : Prog σ ε α) : Erases (γ := γ) m.beside m := fun _ _ => ⟨rfl, rfl⟩

theorem bind {next : α → Prog (σ × γ) ε β} {f : α → Prog σ ε β} (hm : Erases twin m)
    (hf : ∀ a, Erases (next a) (f a)) : Erases (twin >>= next) (m >>= f) := by
  intro s g
  obtain ⟨hout, hstate⟩ := hm s g
  rw [Prog.bind_apply, Prog.bind_apply]
  rcases htwin : twin (s, g) with ⟨o, s', g'⟩
  rcases hrun : m s with ⟨o', s''⟩
  rw [htwin, hrun] at hout hstate
  subst hout hstate
  cases o with
  | ok a => exact hf a s' g'
  | err e | stopped => exact ⟨rfl, rfl⟩

/-- A program that goes on with a result or an error. -/
theorem attempt {m : Prog σ ε (Except δ α)} {next : Except δ α → Prog (σ × γ) ε β} {f : Except δ α → Prog σ ε β}
    (herror : ∀ e, Erases (next (.error e)) (f (.error e))) (hok : ∀ a, Erases (next (.ok a)) (f (.ok a))) :
    Erases (m.beside >>= next) (m >>= f) :=
  (beside m).bind fun | .error e => herror e | .ok a => hok a

theorem ghost_bind {f : γ → γ} (h : Erases twin m) : Erases (Prog.ghost f >>= fun _ => twin) m :=
  fun s g => h s (f g)

theorem ite {c : Prop} [Decidable c] {twin' : Prog (σ × γ) ε α} {m' : Prog σ ε α}
    (h : Erases twin m) (h' : Erases twin' m') :
    Erases (if c then twin else twin') (if c then m else m') := by
  split
  · exact h
  · exact h'

end Erases

theorem Triple.beside {P E : σ → Prop} {Q : α → σ → Prop} {m : Prog σ ε α} (h : Triple P m Q E)
    (I : γ → Prop) :
    Triple (fun s => P s.1 ∧ I s.2) (m.beside : Prog (σ × γ) ε α) (fun a s => Q a s.1 ∧ I s.2)
      fun s => E s.1 ∧ I s.2 := by
  intro s hs
  have hrun := h s.1 hs.1
  unfold Prog.beside
  cases hm : (m s.1).1 with
  | ok a | err e | stopped => exact ⟨by rw [hm] at hrun; exact hrun, hs.2⟩

end Ghost

end Framework
