/-
  File:      Mh1903/Library/Calls.lean
  Subject:   A DEVICE UNDER A SEQUENCE OF CALLS. Names nothing of the board.

  A device is a state and a step, what one call makes of it; the state behind a list of calls is
  `calls.foldl step s`. What holds of every single call is said with `Along`, and what holds of
  every state with an invariant.
-/
import Mathlib.Data.List.Basic

namespace Mh1903.Library

variable {σ κ : Type}

/-- Every call of the list finds a state it is `P` with. -/
def Along (step : σ → κ → σ) (P : σ → κ → Prop) : σ → List κ → Prop
  | _, [] => True
  | s, call :: calls => P s call ∧ Along step P (step s call) calls

section Along

variable {step : σ → κ → σ} {P Q C : σ → κ → Prop} {I : σ → Prop} {s : σ} {calls : List κ}

theorem Along.mono (h : Along step P s calls) (hPQ : ∀ s, ∀ c ∈ calls, P s c → Q s c) :
    Along step Q s calls := by
  induction calls generalizing s with
  | nil => trivial
  | cons c cs ih =>
      exact ⟨hPQ s c List.mem_cons_self h.1, ih h.2 fun s c hc => hPQ s c (List.mem_cons_of_mem _ hc)⟩

/-- An invariant that the calls of the list keep, and with it what every call finds. -/
theorem Along.of_invariant (hs : I s) (hC : Along step C s calls)
    (hstep : ∀ s c, I s → C s c → I (step s c)) (hP : ∀ s c, I s → C s c → P s c) :
    Along step P s calls := by
  induction calls generalizing s with
  | nil => trivial
  | cons c cs ih => exact ⟨hP s c hs hC.1, ih (hstep s c hs hC.1) hC.2⟩

/-- Two properties of a call that an invariant makes the same, one of which keeps it. -/
theorem along_congr (hs : I s) (hPQ : ∀ s c, I s → (P s c ↔ Q s c))
    (hstep : ∀ s c, I s → P s c → I (step s c)) : Along step P s calls ↔ Along step Q s calls := by
  induction calls generalizing s with
  | nil => exact Iff.rfl
  | cons c cs ih =>
      constructor
      · rintro ⟨hc, hcs⟩
        exact ⟨(hPQ s c hs).mp hc, (ih (hstep s c hs hc)).mp hcs⟩
      · rintro ⟨hc, hcs⟩
        have hP := (hPQ s c hs).mpr hc
        exact ⟨hP, (ih (hstep s c hs hP)).mpr hcs⟩

/-- What a call needs that does not depend on the state. -/
theorem along_const {C : κ → Prop} : Along step (fun _ => C) s calls ↔ ∀ c ∈ calls, C c := by
  induction calls generalizing s with
  | nil => exact iff_of_true trivial fun _ h => absurd h List.not_mem_nil
  | cons c cs ih =>
      unfold Along
      rw [ih, List.forall_mem_cons]

end Along

end Mh1903.Library
