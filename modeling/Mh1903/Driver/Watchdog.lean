/-
  File:      Mh1903/Driver/Watchdog.lean
  Subject:   THE TIMEOUT OF THE WATCHDOG. `wdt_control` compares a product of 32 bits with the
             largest word, so it refuses no timeout; whatever is too long is cut to 32 bits. Answer,
             stored timeout and reload register agree as long as every timeout fits.
-/
import Mh1903.Library.Calls
import Mh1903.Model.Drivers

namespace Mh1903

open Library

/-! ## 1. What is asked of the watchdog -/

/-- The driver and the timeout of its last successful `SET_TIMEOUT`. -/
structure WdtRun where
  state : WdtState
  last : Option Word

def WdtRun.step (pclk1msVal : Word) (r : WdtRun) (cmd : WdtCmd) : WdtRun where
  state := (wdtControl pclk1msVal r.state cmd).2.2
  last :=
    match cmd with
    | .setTimeout t => if (wdtControl pclk1msVal r.state cmd).1 = rtEok then some t else r.last
    | _ => r.last

/-- The reload value of the timeout `t` is a word. -/
def TimeoutFits (pclk1msVal t : Word) : Prop := t.toNat * pclk1msVal.toNat * 1000 ≤ 0xFFFFFFFF

/-- A timeout that fits is taken, exactly; any other is refused and nothing changes. -/
def SetsTimeout (pclk1msVal : Word) (s : WdtState) (t : Word) : Prop :=
  let r := wdtControl pclk1msVal s (.setTimeout t)
  (r.1 = rtEok ↔ TimeoutFits pclk1msVal t) ∧
  (TimeoutFits pclk1msVal t → r.2.2.wdtRld.toNat = t.toNat * pclk1msVal.toNat * 1000) ∧
  (¬ TimeoutFits pclk1msVal t →
    r.1 = -rtEinval ∧ r.2.2.wdtRld = s.wdtRld ∧ r.2.2.timeout = s.timeout)

/-- `GET_TIMEOUT` gives the last timeout that was set, and the reload register has it. -/
def WdtRun.Agrees (pclk1msVal : Word) (r : WdtRun) : Prop :=
  ∀ t, r.last = some t →
    (wdtControl pclk1msVal r.state .getTimeout).2.1 = some t ∧
    r.state.wdtRld.toNat = t.toNat * pclk1msVal.toNat * 1000

/-- Every `SET_TIMEOUT` does what it has to, and driver and register agree behind every call. -/
def KeepsTimeout (pclk1msVal : Word) (s : WdtState) (cmds : List WdtCmd) : Prop :=
  Along (WdtRun.step pclk1msVal)
    (fun r cmd => (∀ t, cmd = .setTimeout t → SetsTimeout pclk1msVal r.state t) ∧
      (r.step pclk1msVal cmd).Agrees pclk1msVal) ⟨s, none⟩ cmds

/-! ## 2. One call -/

section Call

variable {pclk1msVal : Word} {s : WdtState} {r : WdtRun} {t : Word}

/-- The comparison of a word with the largest word never holds. -/
theorem wdtControl_setTimeout (pclk1msVal : Word) (s : WdtState) (t : Word) :
    wdtControl pclk1msVal s (.setTimeout t) =
      (rtEok, none, { s with timeout := t, wdtRld := pclk1msVal * t * 1000 }) := by
  unfold wdtControl
  refine if_neg fun h => ?_
  have hlt : 0xFFFFFFFF < (t * pclk1msVal * 1000).toNat := h
  have hmax := (t * pclk1msVal * 1000).isLt
  omega

theorem TimeoutFits.reload (h : TimeoutFits pclk1msVal t) :
    (pclk1msVal * t * 1000).toNat = t.toNat * pclk1msVal.toNat * 1000 := by
  unfold TimeoutFits at h
  rw [BitVec.mul_comm pclk1msVal t, BitVec.toNat_mul, BitVec.toNat_mul]
  show t.toNat * pclk1msVal.toNat % 4294967296 * 1000 % 4294967296 = _
  rw [Nat.mod_eq_of_lt (a := t.toNat * pclk1msVal.toNat) (by omega), Nat.mod_eq_of_lt (by omega)]

/-- **A timeout is set as it has to be exactly if it fits.** -/
theorem setsTimeout_iff : SetsTimeout pclk1msVal s t ↔ TimeoutFits pclk1msVal t := by
  unfold SetsTimeout
  rw [wdtControl_setTimeout]
  constructor
  · rintro ⟨hok, -, -⟩
    exact hok.mp rfl
  · intro h
    exact ⟨iff_of_true rfl h, fun _ => h.reload, fun hno => absurd h hno⟩

/-- A call with a timeout that fits keeps driver and register in agreement. -/
theorem WdtRun.Agrees.step (h : r.Agrees pclk1msVal) (cmd : WdtCmd)
    (hfit : ∀ t, cmd = .setTimeout t → TimeoutFits pclk1msVal t) :
    (r.step pclk1msVal cmd).Agrees pclk1msVal := by
  cases cmd with
  | setTimeout t =>
      intro t' ht'
      simp only [WdtRun.step, wdtControl_setTimeout, if_pos, Option.some.injEq] at ht' ⊢
      subst ht'
      exact ⟨rfl, (hfit t rfl).reload⟩
  | keepalive => exact h
  | getTimeout => exact h
  | start => exact h
  | unsupported => exact h

end Call

/-! ## 3. Every run -/

/-- **The watchdog keeps its timeout in exactly the runs that set no timeout too long.** -/
theorem keeps_timeout_iff (pclk1msVal : Word) (s : WdtState) (cmds : List WdtCmd) :
    KeepsTimeout pclk1msVal s cmds ↔
      ∀ t, .setTimeout t ∈ cmds → t.toNat * pclk1msVal.toNat * 1000 ≤ 0xFFFFFFFF := by
  unfold KeepsTimeout
  constructor
  · intro h t ht
    have hsets := h.mono (Q := fun _ cmd => ∀ t, cmd = .setTimeout t → TimeoutFits pclk1msVal t)
      fun r cmd _ hcmd t ht => setsTimeout_iff.mp (hcmd.1 t ht)
    exact along_const.mp hsets _ ht t rfl
  · intro hfit
    have hC : Along (WdtRun.step pclk1msVal)
        (fun _ cmd => ∀ t, cmd = .setTimeout t → TimeoutFits pclk1msVal t) ⟨s, none⟩ cmds :=
      along_const.mpr fun cmd hcmd t ht => hfit t (ht ▸ hcmd)
    refine hC.of_invariant (I := fun r => r.Agrees pclk1msVal) (fun t ht => by cases ht)
      (fun r cmd hr hcmd => hr.step cmd hcmd) fun r cmd hr hcmd => ⟨fun t ht => ?_, hr.step cmd hcmd⟩
    exact setsTimeout_iff.mpr (hcmd t ht)

/-- A minute at 72 MHz: the product needs 33 bits, the call answers that all is well. -/
theorem minute_is_cut : ¬ KeepsTimeout 72000 ⟨0, 0, 0, 0⟩ [.setTimeout 60] := by
  rintro ⟨⟨hset, -⟩, -⟩
  have hok := (hset 60 rfl).1.mp (by decide)
  exact absurd hok (by unfold TimeoutFits; decide)

end Mh1903
