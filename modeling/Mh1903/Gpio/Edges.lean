/-
  File:      Mh1903/Gpio/Edges.lean
  Subject:   EDGES THAT GET LOST. The handler clears the whole word after it has run the handler of
             the pin. An edge that comes in between is in the word that is cleared: it is served
             only if another one comes when the window is closed.
-/
import Mh1903.Gpio.Irq
import Mh1903.Library.Schedule

namespace Mh1903

open Library

/-! ## 1. A port with one pin in use -/

/-- The enabled pin of a port, and a schedule of its edges and of the steps of the handler. -/
structure EdgeRun where
  start : PinIrq
  pin : Pin
  attached : (start.view (pinPort pin.num)).Attached (pinNo pin.num)
  enabled : (start.view (pinPort pin.num)).channel = true
  sched : Nat → PinIrqEvent
  /-- every event is a matching edge or a step of the handler -/
  events : ∀ n, (∃ e, sched n = .edge pin.num e ∧
      (start.view (pinPort pin.num)).asked (pinNo pin.num) e = true) ∨
    sched n = .isr ⟨pinPort pin.num, pin.onPort⟩
  /-- the handler goes on, and is taken again while the pending word is not zero -/
  taken : ∀ n, ((stateAt PinIrq.step start sched n).phase (pinPort pin.num) ≠ .idle ∨
      (stateAt PinIrq.step start sched n).intpSta (pinPort pin.num) ≠ 0) →
    ∃ m, n ≤ m ∧ sched m = .isr ⟨pinPort pin.num, pin.onPort⟩

namespace EdgeRun

variable (r : EdgeRun)

def port : Nat := pinPort r.pin.num
def no : Nat := pinNo r.pin.num

/-- The state before event `n`. -/
def state (n : Nat) : PinIrq := stateAt PinIrq.step r.start r.sched n

def EdgeAt (n : Nat) : Prop := ∃ e, r.sched n = .edge r.pin.num e

/-- Event `n` starts the attached handler. -/
def StartsAt (n : Nat) : Prop :=
  r.sched n = .isr ⟨pinPort r.pin.num, r.pin.onPort⟩ ∧
    (r.state n).starts r.port = some ((r.start.tab r.port).hdr, (r.start.tab r.port).args)

/-- The handler of the pin has been started and the word is not yet cleared. -/
def InWindow (n : Nat) : Prop := (r.state n).phase r.port = .ran

instance (n : Nat) : Decidable (r.InWindow n) := inferInstanceAs (Decidable (_ = _))

/-- After every edge the attached handler is started. -/
def Served : Prop := ∀ n, r.EdgeAt n → ∃ m, n < m ∧ r.StartsAt m

/-- After every edge in a window there is one outside. -/
def Followed : Prop :=
  ∀ n, r.EdgeAt n → r.InWindow n → ∃ m, n < m ∧ r.EdgeAt m ∧ ¬ r.InWindow m

end EdgeRun

/-! ## 2. What the events do to the port -/

namespace PortIrq

variable {v : PortIrq}

theorem edge_waiting {no : Nat} (hno : no < 16) {e : Edge} (h : v.asked no e = true) :
    (v.edge no e).Waiting := by
  refine ⟨no, hno, ?_⟩
  show (v.pending no || (v.asked no e && decide (no = no))) = true
  rw [h]
  simp

theorem Waiting.edge (h : v.Waiting) (no : Nat) (e : Edge) : (v.edge no e).Waiting := by
  obtain ⟨i, hi, hpending⟩ := h
  exact ⟨i, hi, Bool.or_eq_true_iff.mpr (.inl hpending)⟩

/-- What the handler never touches. -/
theorem isr_slot : v.isr.slot = v.slot ∧ v.isr.asked = v.asked ∧ v.isr.channel = v.channel := by
  unfold isr
  cases v.phase with
  | idle =>
      simp only
      split <;> exact ⟨rfl, rfl, rfl⟩
  | entered =>
      simp only
      split <;> exact ⟨rfl, rfl, rfl⟩
  | found => exact ⟨rfl, rfl, rfl⟩
  | ran => exact ⟨rfl, rfl, rfl⟩

theorem isr_idle (hphase : v.phase = .idle) (hchannel : v.channel = true) (hw : v.Waiting) :
    v.isr = { v with phase := .entered } := by
  unfold isr
  rw [hphase]
  exact if_pos ⟨hchannel, hw⟩

theorem isr_idle_quiet (hphase : v.phase = .idle) (hw : ¬ v.Waiting) : v.isr = v := by
  unfold isr
  rw [hphase]
  exact if_neg fun h => hw h.2

theorem isr_entered (hphase : v.phase = .entered) (hw : v.Waiting) :
    v.isr = { v with phase := .found } := by
  unfold isr
  rw [hphase]
  exact if_pos hw

theorem isr_ran (hphase : v.phase = .ran) : v.isr.phase = .idle ∧ ¬ v.isr.Waiting := by
  unfold isr
  rw [hphase]
  refine ⟨rfl, ?_⟩
  rintro ⟨i, -, hi⟩
  exact Bool.false_ne_true hi

end PortIrq

/-! ## 3. The port along a run -/

namespace EdgeRun

variable (r : EdgeRun)

/-- The port before event `n`. -/
def view (n : Nat) : PortIrq := (r.state n).view r.port

theorem view_edge {n : Nat} {e : Edge} (h : r.sched n = .edge r.pin.num e) :
    r.view (n + 1) = (r.view n).edge r.no e := by
  have hstep := view_step (r.state n) r.pin.onPort (r.sched n)
  rw [h] at hstep
  refine (congrArg (fun c => ((r.state n).step c).view r.port) h).trans (hstep.trans ?_)
  exact if_pos rfl

theorem view_isr {n : Nat} (h : r.sched n = .isr ⟨pinPort r.pin.num, r.pin.onPort⟩) :
    r.view (n + 1) = (r.view n).isr := by
  have hstep := view_step (r.state n) r.pin.onPort (r.sched n)
  rw [h] at hstep
  refine (congrArg (fun c => ((r.state n).step c).view r.port) h).trans (hstep.trans ?_)
  exact if_pos rfl

/-- The row, the trigger fields and the channel stay as they are. -/
theorem view_settled (n : Nat) : (r.view n).slot = (r.view 0).slot ∧
    (r.view n).asked = (r.view 0).asked ∧ (r.view n).channel = true := by
  induction n with
  | zero => exact ⟨rfl, rfl, r.enabled⟩
  | succ n ih =>
      rcases r.events n with ⟨e, he, -⟩ | hisr
      · rw [r.view_edge he]
        exact ih
      · rw [r.view_isr hisr]
        obtain ⟨hslot, hasked, hchannel⟩ := (r.view n).isr_slot
        exact ⟨hslot.trans ih.1, hasked.trans ih.2.1, hchannel.trans ih.2.2⟩

theorem startsAt_of_found {n : Nat} (hphase : (r.view n).phase = .found)
    (h : r.sched n = .isr ⟨pinPort r.pin.num, r.pin.onPort⟩) : r.StartsAt n := by
  refine ⟨h, ?_⟩
  have hrow : (r.state n).tab r.port = r.start.tab r.port := (r.view_settled n).1
  have hhdr : (r.start.tab r.port).hdr ≠ 0 := r.attached.2.1
  unfold PinIrq.starts pinIrqHdr
  rw [if_pos (show (r.state n).phase r.port = .found from hphase), hrow, if_pos hhdr]

theorem StartsAt.found {n : Nat} {r : EdgeRun} (h : r.StartsAt n) : (r.view n).phase = .found := by
  by_contra hphase
  have hnone : (r.state n).starts r.port = none := if_neg hphase
  have hsome := h.2
  rw [hnone] at hsome
  cases hsome

/-! ## 4. On the way to the handler -/

/-- A step of the handler that finds what all edges before it kept. -/
theorem exists_isr {P : PortIrq → Prop} {n : Nat} (hP : P (r.view n))
    (hbusy : ∀ v, P v → v.phase ≠ .idle ∨ v.Waiting)
    (hkeep : ∀ v e, P v → P (v.edge r.no e)) :
    ∃ m, n ≤ m ∧ P (r.view m) ∧ r.sched m = .isr ⟨pinPort r.pin.num, r.pin.onPort⟩ := by
  have hturn : ∃ m, n ≤ m ∧ r.sched m = .isr ⟨pinPort r.pin.num, r.pin.onPort⟩ := by
    refine r.taken n ?_
    rcases hbusy _ hP with hphase | hw
    · exact .inl hphase
    · exact .inr ((intpSta_ne_zero (r.state n)).mpr hw)
  refine exists_turn (P := fun s : PinIrq => P (s.view r.port)) hP hturn fun k _ hk hnot => ?_
  rcases r.events k with ⟨e, he, -⟩ | hisr
  · have hview := r.view_edge he
    show P (r.view (k + 1))
    rw [hview]
    exact hkeep _ e hk
  · exact absurd hisr hnot

theorem starts_of_found {n : Nat} (h : (r.view n).phase = .found) :
    ∃ m, n ≤ m ∧ r.StartsAt m := by
  obtain ⟨m, hnm, hm, hisr⟩ := r.exists_isr (P := fun v => v.phase = .found) h
    (fun v hv => .inl (by rw [hv]; decide)) (fun _ _ hv => hv)
  exact ⟨m, hnm, r.startsAt_of_found hm hisr⟩

theorem starts_of_entered {n : Nat} (hphase : (r.view n).phase = .entered)
    (hw : (r.view n).Waiting) : ∃ m, n ≤ m ∧ r.StartsAt m := by
  obtain ⟨m, hnm, hm, hisr⟩ := r.exists_isr (P := fun v => v.phase = .entered ∧ v.Waiting)
    ⟨hphase, hw⟩ (fun v hv => .inr hv.2) (fun v e hv => ⟨hv.1, hv.2.edge r.no e⟩)
  have hnext : (r.view (m + 1)).phase = .found := by
    rw [r.view_isr hisr, PortIrq.isr_entered hm.1 hm.2]
  obtain ⟨k, hmk, hk⟩ := r.starts_of_found hnext
  exact ⟨k, by omega, hk⟩

theorem starts_of_idle {n : Nat} (hphase : (r.view n).phase = .idle) (hw : (r.view n).Waiting) :
    ∃ m, n ≤ m ∧ r.StartsAt m := by
  obtain ⟨m, hnm, hm, hisr⟩ := r.exists_isr (P := fun v => v.phase = .idle ∧ v.Waiting)
    ⟨hphase, hw⟩ (fun v hv => .inr hv.2) (fun v e hv => ⟨hv.1, hv.2.edge r.no e⟩)
  have hnext : r.view (m + 1) = { r.view m with phase := .entered } := by
    rw [r.view_isr hisr, PortIrq.isr_idle hm.1 (r.view_settled m).2.2 hm.2]
  obtain ⟨k, hmk, hk⟩ := r.starts_of_entered (n := m + 1) (by rw [hnext]) (by rw [hnext]; exact hm.2)
  exact ⟨k, by omega, hk⟩

/-- **Outside the window an edge is served.** -/
theorem served_outside {n : Nat} (hedge : r.EdgeAt n) (hout : ¬ r.InWindow n) :
    ∃ m, n < m ∧ r.StartsAt m := by
  obtain ⟨e, he⟩ := hedge
  have hasked : (r.view n).asked r.no e = true := by
    rcases r.events n with ⟨e', he', h⟩ | hisr
    · rw [he] at he'
      cases he'
      rw [(r.view_settled n).2.1]
      exact h
    · rw [he] at hisr
      exact PinIrqEvent.noConfusion hisr
  have hnext := r.view_edge he
  have hw : (r.view (n + 1)).Waiting := by
    rw [hnext]
    exact PortIrq.edge_waiting (pinNo_lt _) hasked
  have hphase : (r.view (n + 1)).phase = (r.view n).phase := by
    rw [hnext]
    rfl
  have hfrom : ∃ m, n + 1 ≤ m ∧ r.StartsAt m := by
    cases h : (r.view n).phase with
    | idle => exact r.starts_of_idle (hphase.trans h) hw
    | entered => exact r.starts_of_entered (hphase.trans h) hw
    | found => exact r.starts_of_found (hphase.trans h)
    | ran => exact absurd h hout
  obtain ⟨m, hle, hm⟩ := hfrom
  exact ⟨m, hle, hm⟩

/-- **In the window it is not**, unless another one comes outside. -/
theorem not_starts_of_window {n : Nat} (hin : r.InWindow n)
    (hall : ∀ m, n < m → r.EdgeAt m → r.InWindow m) {m : Nat} (hnm : n ≤ m) : ¬ r.StartsAt m := by
  intro hstarts
  have hquiet : (r.view m).phase = .ran ∨ (r.view m).phase = .idle ∧ ¬ (r.view m).Waiting := by
    refine stateAt_keeps (P := fun s : PinIrq => (s.view r.port).phase = .ran ∨
      (s.view r.port).phase = .idle ∧ ¬ (s.view r.port).Waiting) hnm (.inl hin) fun k hk h => ?_
    show (r.view (k + 1)).phase = .ran ∨
      (r.view (k + 1)).phase = .idle ∧ ¬ (r.view (k + 1)).Waiting
    rcases r.events k with ⟨e, he, -⟩ | hisr
    · have hwin : r.InWindow k := by
        rcases Nat.eq_or_lt_of_le hk with rfl | hlt
        · exact hin
        · exact hall k hlt ⟨e, he⟩
      rw [r.view_edge he]
      exact .inl hwin
    · rw [r.view_isr hisr]
      rcases h with hran | ⟨hidle, hnone⟩
      · exact .inr (PortIrq.isr_ran hran)
      · have hsame : (r.view k).isr = r.view k := PortIrq.isr_idle_quiet hidle hnone
        rw [hsame]
        exact .inr ⟨hidle, hnone⟩
  rw [hstarts.found] at hquiet
  rcases hquiet with h | ⟨h, -⟩ <;> exact IsrPhase.noConfusion h

/-- **When no edge is lost**: exactly when every edge in a window has a later one outside. -/
theorem served_iff_followed : r.Served ↔ r.Followed := by
  constructor
  · intro hserved n hedge hin
    by_contra hnone
    obtain ⟨m, hnm, hm⟩ := hserved n hedge
    refine r.not_starts_of_window hin (fun k hk hek => ?_) (Nat.le_of_lt hnm) hm
    by_contra hout
    exact hnone ⟨k, hk, hek, hout⟩
  · intro hfollowed n hedge
    by_cases hin : r.InWindow n
    · obtain ⟨m, hnm, hem, hout⟩ := hfollowed n hedge hin
      obtain ⟨k, hmk, hk⟩ := r.served_outside hem hout
      exact ⟨k, Nat.lt_trans hnm hmk, hk⟩
    · exact r.served_outside hedge hin

/-- PA0 from reset, with a handler for rising edges. -/
def armedPa0 : PinIrq :=
  ((PinIrq.reset Gpio.clear).step (.attach 0 0 0x2000 0)).step (.irqEnable 0 pinIrqEnable)

/-- One edge before the handler and one, the last, between its start and the clearing. -/
def lateEdge : EdgeRun where
  start := armedPa0
  pin := ⟨0, by decide⟩
  attached := by decide
  enabled := by decide
  sched n := if n = 0 ∨ n = 4 then .edge 0 .rising else .isr 0
  events := by
    intro n
    by_cases h : n = 0 ∨ n = 4
    · exact .inl ⟨.rising, if_pos h, by decide⟩
    · exact .inr (if_neg h)
  taken := by
    intro n _
    have hlate : ¬ (n + 5 = 0 ∨ n + 5 = 4) := by omega
    exact ⟨n + 5, Nat.le_add_right n 5, if_neg hlate⟩

theorem edge_lost : ¬ ∀ r : EdgeRun, r.Served := by
  intro h
  have hsched : ∀ n, lateEdge.sched n = if n = 0 ∨ n = 4 then .edge 0 .rising else .isr 0 :=
    fun _ => rfl
  have hedge : lateEdge.EdgeAt 4 := by
    refine ⟨.rising, ?_⟩
    rw [hsched]
    exact if_pos (.inr rfl)
  obtain ⟨m, hm, hstarts⟩ := h lateEdge 4 hedge
  have hin : lateEdge.InWindow 4 := by decide
  refine lateEdge.not_starts_of_window hin (fun k hk hek => ?_) (Nat.le_of_lt hm) hstarts
  obtain ⟨e, he⟩ := hek
  have hlater : ¬ (k = 0 ∨ k = 4) := by omega
  rw [hsched, if_neg hlater] at he
  cases he

end EdgeRun

end Mh1903
