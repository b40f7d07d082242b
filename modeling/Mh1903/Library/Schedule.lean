/-
  File:      Mh1903/Library/Schedule.lean
  Subject:   A MACHINE UNDER A SCHEDULE. Names nothing of the board.

  A schedule is an endless sequence of events, in whatever order they come. What every event but one
  kind keeps still holds when the turn of that kind comes; what every event keeps holds from then on.
-/
import Mathlib.Data.Nat.Init

namespace Mh1903.Library

variable {σ κ : Type}

/-- The state after `n` events. -/
def stateAt (step : σ → κ → σ) (s : σ) (sched : Nat → κ) : Nat → σ
  | 0 => s
  | n + 1 => step (stateAt step s sched n) (sched n)

section Schedule

variable {step : σ → κ → σ} {s : σ} {sched : Nat → κ} {P : σ → Prop} {m n : Nat}

/-- What every event from `m` on keeps. -/
theorem stateAt_keeps (hmn : m ≤ n) (hP : P (stateAt step s sched m))
    (hkeep : ∀ k, m ≤ k → P (stateAt step s sched k) → P (stateAt step s sched (k + 1))) :
    P (stateAt step s sched n) := by
  induction n, hmn using Nat.le_induction with
  | base => exact hP
  | succ k hmk ih => exact hkeep k hmk ih

/-- **The next turn**: it comes, and finds what all other events have kept. -/
theorem exists_turn {turn : κ} (hP : P (stateAt step s sched n))
    (hturn : ∃ m, n ≤ m ∧ sched m = turn)
    (hkeep : ∀ k, n ≤ k → P (stateAt step s sched k) → sched k ≠ turn →
      P (stateAt step s sched (k + 1))) :
    ∃ m, n ≤ m ∧ P (stateAt step s sched m) ∧ sched m = turn := by
  obtain ⟨m, hnm, hm⟩ := hturn
  obtain ⟨d, rfl⟩ := Nat.exists_eq_add_of_le hnm
  clear hnm
  induction d generalizing n with
  | zero => exact ⟨n, Nat.le_refl n, hP, hm⟩
  | succ d ih =>
      by_cases hn : sched n = turn
      · exact ⟨n, Nat.le_refl n, hP, hn⟩
      · have hm' : sched (n + 1 + d) = turn := by
          rwa [Nat.add_assoc, Nat.add_comm 1 d]
        obtain ⟨m, hle, hfound⟩ :=
          ih (hkeep n (Nat.le_refl n) hP hn) (fun k hk => hkeep k (Nat.le_of_succ_le hk)) hm'
        exact ⟨m, Nat.le_of_succ_le hle, hfound⟩

end Schedule

end Mh1903.Library
