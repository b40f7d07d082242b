/-
  File:      Mh1903/Library/Interrupt.lean
  Subject:   A RUN AND ITS INTERRUPTED RUNS. Names nothing of the bootloader.

  A clock counts, in the state, the steps of a program that can be interrupted; `live n` says that
  step `n` is not. An interrupted program does what the uninterrupted one does, or it stops for
  the one reason `e` in front of a step that is not live and that the uninterrupted run takes.
-/
import Mh1903.Library.Run

namespace Mh1903.Library

variable {ε σ α β : Type}

/-- The clock does not run backwards. -/
def Ticks (clock : σ → Nat) (s s' : σ) : Prop := clock s ≤ clock s'

instance (clock : σ → Nat) : Std.Refl (Ticks clock) := ⟨fun _ => Nat.le_refl _⟩

instance (clock : σ → Nat) : IsTrans σ (Ticks clock) := ⟨fun _ _ _ h₁ h₂ => Nat.le_trans h₁ h₂⟩

/-- Between `s` and the end `f` of the uninterrupted run, a stop at `s'` in front of a step that
    is not live. -/
structure CutAt (clock : σ → Nat) (live : Nat → Prop) (s f s' : σ) : Prop where
  dead : ¬ live (clock s')
  after : clock s ≤ clock s'
  before : clock s' < clock f

/-- `y` does what `x` does, or it is cut with `e`. -/
structure Interrupts (clock : σ → Nat) (live : Nat → Prop) (e : ε) (x y : EStateM ε σ α) :
    Prop where
  ticks : Keeps (Ticks clock) x
  run : ∀ s, y s = x s ∨ ∃ s', y s = .error e s' ∧ CutAt clock live s (final x s) s'

section Rules

variable {clock : σ → Nat} {live : Nat → Prop} {e : ε} {x y : EStateM ε σ α}
variable {f g : α → EStateM ε σ β}

theorem final_bind_of_ok {s s' : σ} {a : α} (h : x s = .ok a s') :
    final (x >>= f) s = final (f a) s' := by
  unfold final; rw [bind_ok h]

theorem final_bind_of_error {s s' : σ} {r : ε} (h : x s = .error r s') :
    final (x >>= f) s = s' := final_of_error (bind_error h)

/-- What takes no step that can be interrupted is not. -/
theorem interrupts_refl (h : Keeps (Ticks clock) x) : Interrupts clock live e x x :=
  ⟨h, fun _ => .inl rfl⟩

theorem interrupts_bind (hx : Interrupts clock live e x y)
    (hf : ∀ a, Interrupts clock live e (f a) (g a)) :
    Interrupts clock live e (x >>= f) (y >>= g) := by
  refine ⟨keeps_bind hx.ticks fun a => (hf a).ticks, fun s => ?_⟩
  have hticks := hx.ticks s
  cases hs : x s with
  | error r s₁ =>
      rw [final_bind_of_error hs, bind_error hs]
      rcases hx.run s with heq | ⟨s', hstop, hcut⟩
      · exact .inl (bind_error (heq.trans hs))
      · rw [final_of_error hs] at hcut
        exact .inr ⟨s', bind_error hstop, hcut⟩
  | ok a s₁ =>
      rw [final_of_ok hs] at hticks
      have hrest := (hf a).ticks s₁
      rw [final_bind_of_ok hs, bind_ok hs]
      rcases hx.run s with heq | ⟨s', hstop, hcut⟩
      · rcases (hf a).run s₁ with heq₁ | ⟨s', hstop, hcut⟩
        · exact .inl ((bind_ok (heq.trans hs)).trans heq₁)
        · refine .inr ⟨s', (bind_ok (heq.trans hs)).trans hstop, hcut.dead, ?_, hcut.before⟩
          exact Nat.le_trans hticks hcut.after
      · rw [final_of_ok hs] at hcut
        refine .inr ⟨s', bind_error hstop, hcut.dead, hcut.after, ?_⟩
        exact Nat.lt_of_lt_of_le hcut.before hrest

theorem interrupts_ite {c : Prop} [Decidable c] {x' y' : EStateM ε σ α}
    (hx : Interrupts clock live e x y) (hy : Interrupts clock live e x' y') :
    Interrupts clock live e (if c then x else x') (if c then y else y') := by
  split
  · exact hx
  · exact hy

/-- **Where every step that the run takes is live, nothing is cut.** -/
theorem Interrupts.lasts (h : Interrupts clock live e x y) {s : σ}
    (hlive : ∀ n, clock s ≤ n → n < clock (final x s) → live n) : y s = x s := by
  rcases h.run s with heq | ⟨s', -, hcut⟩
  · exact heq
  · exact absurd (hlive _ hcut.after hcut.before) hcut.dead

end Rules

end Mh1903.Library
