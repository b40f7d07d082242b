/-
  File:      Mh1903/Gpio/Irq.lean
  Subject:   WHOSE INTERRUPT IT IS. A port is one row of the table, sixteen trigger fields, one
             pending word and one channel (`PortIrq`); every call and every edge acts on its own
             port alone (`view_step`). The row says whose handler runs, the trigger fields say
             whose edges do, and nothing but the caller keeps the two in step.
-/
import Mh1903.Gpio.Pins
import Mh1903.Model.PinIrq

namespace Mh1903

/-! ## 1. One port -/

/-- All there is to the interrupt of one port. -/
@[ext]
structure PortIrq where
  slot : PinIrqHdr
  asked : Nat → Edge → Bool
  pending : Nat → Bool
  channel : Bool
  phase : IsrPhase
  seen : Nat → Edge → Bool

def PinIrq.view (s : PinIrq) (port : Nat) : PortIrq where
  slot := s.tab port
  asked := s.triggers port
  pending := fun no => (s.intpSta port).getLsbD no
  channel := s.nvic (portIrqno port)
  phase := s.phase port
  seen := s.seen port

/-- All registers zero. -/
def Gpio.clear : Gpio := ⟨fun _ => ⟨0, 0, 0⟩, fun _ => 0, fun _ => 0, 0⟩

/-- The modes `mh_pin_irq_enable` has a case for. -/
def Configured (mode : BitVec 16) : Prop :=
  mode = pinIrqModeRising ∨ mode = pinIrqModeFalling ∨ mode = pinIrqModeRisingFalling

instance (mode : BitVec 16) : Decidable (Configured mode) := inferInstanceAs (Decidable (_ ∨ _))

/-- An edge of the kind that a mode names. -/
def asks (mode : BitVec 16) : Edge → Bool
  | .rising => decide (mode = pinIrqModeRising ∨ mode = pinIrqModeRisingFalling)
  | .falling => decide (mode = pinIrqModeFalling ∨ mode = pinIrqModeRisingFalling)

/-- Its bit in a trigger field. -/
def Edge.bit : Edge → Nat
  | .rising => 0
  | .falling => 1

namespace PortIrq

/-- Some pin of the port is pending. -/
def Waiting (v : PortIrq) : Prop := ∃ no < 16, v.pending no = true

instance (v : PortIrq) : Decidable v.Waiting := inferInstanceAs (Decidable (∃ no < 16, _))

def Free (v : PortIrq) : Prop := v.slot.pin = -1

instance (v : PortIrq) : Decidable v.Free := inferInstanceAs (Decidable (_ = _))

/-- A handler is attached for pin `no`. -/
def Attached (v : PortIrq) (no : Nat) : Prop :=
  ¬ v.Free ∧ v.slot.hdr ≠ 0 ∧ pinNo v.slot.num = no

instance (v : PortIrq) (no : Nat) : Decidable (v.Attached no) := inferInstanceAs (Decidable (_ ∧ _))

def attach (v : PortIrq) (h : PinIrqHdr) : PortIrq := if v.Free then { v with slot := h } else v

def dettach (v : PortIrq) : PortIrq := if v.Free then v else { v with slot := PinIrqHdr.none }

def enable (v : PortIrq) (no : Nat) : PortIrq :=
  if v.Free then v
  else { v with
    asked := fun i e =>
      if Configured v.slot.mode ∧ i = no then asks v.slot.mode e else v.asked i e
    channel := true }

def disable (v : PortIrq) : PortIrq := { v with channel := false }

def edge (v : PortIrq) (no : Nat) (e : Edge) : PortIrq :=
  { v with
    pending := fun i => v.pending i || (v.asked no e && decide (i = no))
    seen := fun i e' => v.seen i e' || decide (i = no ∧ e' = e) }

def isr (v : PortIrq) : PortIrq :=
  match v.phase with
  | .idle => if v.channel ∧ v.Waiting then { v with phase := .entered } else v
  | .entered => if v.Waiting then { v with phase := .found } else { v with phase := .idle }
  | .found => { v with phase := .ran }
  | .ran => { v with pending := fun _ => false, seen := fun _ _ => false, phase := .idle }

/-- One event, as port `port` sees it. -/
def step (v : PortIrq) (port : Nat) : PinIrqEvent → PortIrq
  | .attach pin mode hdr args =>
      if pinPort pin = port then v.attach ⟨pin.setWidth 16, mode.setWidth 16, hdr, args⟩ else v
  | .dettach pin => if pinPort pin = port then v.dettach else v
  | .irqEnable pin enabled =>
      if pinPort pin = port then
        if enabled = pinIrqEnable then v.enable (pinNo pin)
        else if enabled = pinIrqDisable then v.disable
        else v
      else v
  | .edge pin e => if pinPort pin = port then v.edge (pinNo pin) e else v
  | .isr extiLine => if extiLine.val = port then v.isr else v

end PortIrq

/-! ## 2. Every event acts on its own port -/

section View

variable (s : PinIrq) {port : Nat}

theorem portIrqLine_eq {port : Nat} (h : port < 6) : portIrqLine port = port := by
  have hline : ∀ n < 6, portIrqLine n = n := by decide
  exact hline port h

theorem portIrqno_injective {m n : Nat} (hm : m < 6) (hn : n < 6) :
    portIrqno m = portIrqno n ↔ m = n := by
  have hno : ∀ m < 6, ∀ n < 6, portIrqno m = portIrqno n ↔ m = n := by decide
  exact hno m hm n hn

theorem intpSta_ne_zero : s.intpSta port ≠ 0 ↔ (s.view port).Waiting := by
  constructor
  · intro h
    by_contra hnone
    refine h (BitVec.eq_of_getLsbD_eq fun i hi => ?_)
    have hclear : (s.intpSta port).getLsbD i = false := by
      by_contra hset
      exact hnone ⟨i, hi, Bool.eq_true_of_not_eq_false hset⟩
    simpa using hclear
  · rintro ⟨no, -, hno⟩ hzero
    have hbit : (s.intpSta port).getLsbD no = true := hno
    rw [hzero] at hbit
    simp at hbit

/-- A step that changes nothing at `port`. -/
theorem view_congr {s s' : PinIrq} (htab : s'.tab port = s.tab port)
    (htype : s'.intpType port = s.intpType port) (hsta : s'.intpSta port = s.intpSta port)
    (hnvic : s'.nvic (portIrqno port) = s.nvic (portIrqno port))
    (hphase : s'.phase port = s.phase port) (hseen : s'.seen port = s.seen port) :
    s'.view port = s.view port := by
  unfold PinIrq.view
  have htriggers : s'.triggers port = s.triggers port := by
    funext no e
    cases e <;> simp only [PinIrq.triggers, htype]
  rw [htab, htriggers, hsta, hnvic, hphase, hseen]

theorem view_setTab (irqindex : Nat) (h : PinIrqHdr) :
    (s.setTab irqindex h).view port =
      if irqindex = port then { s.view port with slot := h } else s.view port := by
  by_cases hp : irqindex = port
  · subst hp
    rw [if_pos rfl]
    exact PortIrq.ext (if_pos rfl) rfl rfl rfl rfl rfl
  · rw [if_neg hp]
    exact view_congr (if_neg (Ne.symm hp)) rfl rfl rfl rfl rfl

theorem view_setPhase (irqindex : Nat) (phase : IsrPhase) :
    (s.setPhase irqindex phase).view port =
      if irqindex = port then { s.view port with phase := phase } else s.view port := by
  by_cases hp : irqindex = port
  · subst hp
    rw [if_pos rfl]
    exact PortIrq.ext rfl rfl rfl rfl (if_pos rfl) rfl
  · rw [if_neg hp]
    exact view_congr rfl rfl rfl rfl (if_neg (Ne.symm hp)) rfl

theorem view_clear (extiLine : Nat) :
    (extiClearITPendingBit s extiLine).view port =
      if extiLine = port then
        { s.view port with pending := fun _ => false, seen := fun _ _ => false }
      else s.view port := by
  by_cases hp : extiLine = port
  · subst hp
    rw [if_pos rfl]
    refine PortIrq.ext rfl rfl ?_ rfl rfl (if_pos rfl)
    have hsta : (extiClearITPendingBit s extiLine).intpSta extiLine =
        s.intpSta extiLine &&& ~~~0xFFFF := if_pos rfl
    have hmask : (~~~0xFFFF : BitVec 16) = 0#16 := by decide
    funext no
    show ((extiClearITPendingBit s extiLine).intpSta extiLine).getLsbD no = false
    rw [hsta, hmask, BitVec.and_zero]
    exact BitVec.getLsbD_zero
  · rw [if_neg hp]
    exact view_congr rfl rfl (if_neg (Ne.symm hp)) rfl rfl (if_neg (Ne.symm hp))

theorem view_nvicInit {irqindex : Nat} (hi : irqindex < 6) (hport : port < 6) (cmd : Bool) :
    (nvicInit s (portIrqno irqindex) cmd).view port =
      if irqindex = port then { s.view port with channel := cmd } else s.view port := by
  by_cases hp : irqindex = port
  · subst hp
    rw [if_pos rfl]
    exact PortIrq.ext rfl rfl rfl (if_pos rfl) rfl rfl
  · rw [if_neg hp]
    have hno : ¬ portIrqno port = portIrqno irqindex := fun h =>
      hp ((portIrqno_injective hport hi).mp h).symm
    exact view_congr rfl rfl rfl (if_neg hno) rfl rfl

/-- `EXTI_LineConfig` sets the field of the one pin it is given. -/
theorem view_extiLineConfig (extiLine : Nat) (pin : Word) {trigger : Word}
    (htrigger : ∀ j < 32, 2 ≤ j → trigger.getLsbD j = false) :
    (extiLineConfig s extiLine (pinStpin pin) trigger).view port =
      if extiLine = port then
        { s.view port with
          asked := fun i e =>
            if i = pinNo pin then trigger.getLsbD e.bit else (s.view port).asked i e }
      else s.view port := by
  by_cases hp : extiLine = port
  · subst hp
    rw [if_pos rfl]
    refine PortIrq.ext rfl ?_ rfl rfl rfl rfl
    have htype : (extiLineConfig s extiLine (pinStpin pin) trigger).intpType extiLine =
        s.intpType extiLine &&& ~~~((3 : Word) <<< (pinNo pin * 2)) |||
          trigger <<< (pinNo pin * 2) := by
      refine (if_pos rfl).trans ?_
      rw [foldl_pinStpin]
    have hset := fun i k hk => @getLsbD_setField (s.intpType extiLine) trigger htrigger
      (pinNo pin) (pinNo_lt pin) i k hk
    funext i e
    cases e with
    | rising =>
        show ((extiLineConfig s extiLine (pinStpin pin) trigger).intpType extiLine).getLsbD (i * 2) = _
        rw [htype]
        exact hset i 0 (by decide)
    | falling =>
        show ((extiLineConfig s extiLine (pinStpin pin) trigger).intpType extiLine).getLsbD
          (i * 2 + 1) = _
        rw [htype]
        exact hset i 1 (by decide)
  · rw [if_neg hp]
    exact view_congr rfl (if_neg (Ne.symm hp)) rfl rfl rfl rfl

/-- The `switch` over the modes. -/
theorem view_extiModeConfig (extiLine : Nat) (pin : Word) (mode : BitVec 16) :
    (extiModeConfig s extiLine pin mode).view port =
      if extiLine = port then
        { s.view port with
          asked := fun i e =>
            if Configured mode ∧ i = pinNo pin then asks mode e else (s.view port).asked i e }
      else s.view port := by
  have hline : ∀ {trigger : Word}, Configured mode →
      (∀ j < 32, 2 ≤ j → trigger.getLsbD j = false) →
      (∀ e : Edge, trigger.getLsbD e.bit = asks mode e) →
      (extiLineConfig s extiLine (pinStpin pin) trigger).view port =
        if extiLine = port then
          { s.view port with
            asked := fun i e =>
              if Configured mode ∧ i = pinNo pin then asks mode e else (s.view port).asked i e }
        else s.view port := by
    intro trigger hmode htrigger hasks
    rw [view_extiLineConfig s extiLine pin htrigger]
    simp only [hasks, hmode, true_and]
  unfold extiModeConfig
  split
  · rename_i h
    subst h
    exact hline (by decide) (by decide) (by intro e; cases e <;> rfl)
  · split
    · rename_i h
      subst h
      exact hline (by decide) (by decide) (by intro e; cases e <;> rfl)
    · split
      · rename_i h
        subst h
        exact hline (by decide) (by decide) (by intro e; cases e <;> rfl)
      · rename_i h₁ h₂ h₃
        have hmode : ¬ Configured mode := by
          rintro (h | h | h)
          · exact h₁ h
          · exact h₂ h
          · exact h₃ h
        simp [hmode]

/-- An edge comes in at its own port. -/
theorem view_edge {irqindex no : Nat} (hno : no < 16) (e : Edge) :
    (s.edge irqindex no e).view port =
      if irqindex = port then (s.view port).edge no e else s.view port := by
  by_cases hp : irqindex = port
  · subst hp
    rw [if_pos rfl]
    refine PortIrq.ext rfl rfl ?_ rfl rfl ?_
    · funext i
      have hone := getLsbD_one_shiftLeft hno i
      by_cases ht : s.triggers irqindex no e = true
      · have hsta : (s.edge irqindex no e).intpSta irqindex =
            s.intpSta irqindex ||| (1 : BitVec 16) <<< no := if_pos ⟨rfl, ht⟩
        show ((s.edge irqindex no e).intpSta irqindex).getLsbD i =
          ((s.intpSta irqindex).getLsbD i || (s.triggers irqindex no e && decide (i = no)))
        rw [hsta, BitVec.getLsbD_or, hone, ht, Bool.true_and]
      · have hsta : (s.edge irqindex no e).intpSta irqindex = s.intpSta irqindex :=
          if_neg fun h => ht h.2
        show ((s.edge irqindex no e).intpSta irqindex).getLsbD i =
          ((s.intpSta irqindex).getLsbD i || (s.triggers irqindex no e && decide (i = no)))
        rw [hsta, Bool.eq_false_of_not_eq_true ht, Bool.false_and, Bool.or_false]
    · funext i e'
      show (s.seen irqindex i e' || decide (irqindex = irqindex ∧ i = no ∧ e' = e)) =
        (s.seen irqindex i e' || decide (i = no ∧ e' = e))
      simp
  · rw [if_neg hp]
    refine view_congr rfl rfl (if_neg fun h => hp h.1.symm) rfl rfl ?_
    funext i e'
    show (s.seen port i e' || decide (port = irqindex ∧ i = no ∧ e' = e)) = s.seen port i e'
    simp [Ne.symm hp]

/-- A step of the handler. -/
theorem view_isr (extiLine : Nat) :
    (extiIrqHandler s extiLine).view port =
      if extiLine = port then (s.view port).isr else s.view port := by
  by_cases hp : extiLine = port
  · subst hp
    rw [if_pos rfl]
    have hview : (s.view extiLine).phase = s.phase extiLine := rfl
    unfold extiIrqHandler PortIrq.isr extiGetITLineStatus
    rw [hview]
    cases s.phase extiLine with
    | idle =>
        simp only [intpSta_ne_zero]
        by_cases h : s.nvic (portIrqno extiLine) = true ∧ (s.view extiLine).Waiting
        · have hv : (s.view extiLine).channel = true ∧ (s.view extiLine).Waiting := h
          rw [if_pos h, if_pos hv, view_setPhase, if_pos rfl]
        · have hv : ¬ ((s.view extiLine).channel = true ∧ (s.view extiLine).Waiting) := h
          rw [if_neg h, if_neg hv]
    | entered =>
        simp only [intpSta_ne_zero]
        by_cases h : (s.view extiLine).Waiting
        · rw [if_pos h, if_pos h, view_setPhase, if_pos rfl]
        · rw [if_neg h, if_neg h, view_setPhase, if_pos rfl]
    | found =>
        simp only
        rw [view_setPhase, if_pos rfl]
    | ran =>
        simp only
        rw [view_setPhase, if_pos rfl, view_clear, if_pos rfl]
  · rw [if_neg hp]
    unfold extiIrqHandler
    cases s.phase extiLine with
    | idle =>
        simp only
        split
        · rw [view_setPhase, if_neg hp]
        · rfl
    | entered =>
        simp only
        split <;> rw [view_setPhase, if_neg hp]
    | found => rw [view_setPhase, if_neg hp]
    | ran => rw [view_setPhase, if_neg hp, view_clear, if_neg hp]

/-- No pin of a port has the number that marks a free row. -/
theorem pinPort_neg_one : ¬ pinPort (-1) < pinStportMax := by decide

theorem length_portIrqMap : portIrqMap.length = pinStportMax := rfl

theorem view_attach (hport : port < 6) (pin mode hdr args : Word) :
    (mhPinAttachIrq s pin mode hdr args).2.view port =
      if pinPort pin = port then
        (s.view port).attach ⟨pin.setWidth 16, mode.setWidth 16, hdr, args⟩
      else s.view port := by
  unfold mhPinAttachIrq
  rw [length_portIrqMap]
  by_cases hp : pinPort pin = port
  · have hlt : ¬ pinPort pin ≥ pinStportMax := Nat.not_le.mpr (hp ▸ hport)
    simp only
    rw [if_neg hlt, if_neg hlt, if_pos hp]
    split
    · -- an identical row: it is not free, since its number is that of a pin
      rename_i hsame
      have htaken : ¬ (s.view port).Free := by
        intro hfree
        have hnum : (s.tab (pinPort pin)).num = -1 := by
          have hpin : (s.tab (pinPort pin)).pin = -1 := hp ▸ hfree
          rw [PinIrqHdr.num, hpin]
          decide
        rw [hsame.1] at hnum
        exact pinPort_neg_one (by rw [← hnum]; omega)
      rw [PortIrq.attach, if_neg htaken]
    · split
      · rename_i htaken
        have hview : ¬ (s.view port).Free := by
          rw [← hp]
          exact htaken
        rw [PortIrq.attach, if_neg hview]
      · rename_i hfree
        have hview : (s.view port).Free := by
          rw [← hp]
          exact not_not.mp hfree
        rw [PortIrq.attach, if_pos hview, view_setTab, if_pos hp]
  · simp only
    rw [if_neg hp]
    split
    · rfl
    · split
      · rfl
      · split
        · rfl
        · exact (view_setTab s _ _).trans (if_neg hp)

theorem view_dettach (hport : port < 6) (pin : Word) :
    (mhPinDettachIrq s pin).2.view port =
      if pinPort pin = port then (s.view port).dettach else s.view port := by
  unfold mhPinDettachIrq
  rw [length_portIrqMap]
  by_cases hp : pinPort pin = port
  · have hlt : ¬ pinPort pin ≥ pinStportMax := Nat.not_le.mpr (hp ▸ hport)
    simp only
    rw [if_neg hlt, if_neg hlt, if_pos hp, hp, PortIrq.dettach]
    by_cases hfree : (s.tab port).pin = -1
    · have hview : (s.view port).Free := hfree
      rw [if_pos hfree, if_pos hview]
    · have hview : ¬ (s.view port).Free := hfree
      rw [if_neg hfree, if_neg hview, view_setTab, if_pos rfl]
      rfl
  · simp only
    rw [if_neg hp]
    split
    · rfl
    · split
      · rfl
      · exact (view_setTab s _ _).trans (if_neg hp)

theorem view_irqEnable (hport : port < 6) (pin enabled : Word) :
    (mhPinIrqEnable s pin enabled).2.view port =
      if pinPort pin = port then
        if enabled = pinIrqEnable then (s.view port).enable (pinNo pin)
        else if enabled = pinIrqDisable then (s.view port).disable
        else s.view port
      else s.view port := by
  unfold mhPinIrqEnable
  rw [length_portIrqMap]
  by_cases hlt : pinPort pin ≥ pinStportMax
  · have hp : ¬ pinPort pin = port := fun hp => absurd hlt (Nat.not_le.mpr (hp ▸ hport))
    rw [if_pos hlt, if_neg hp]
  · have hpin : pinPort pin < 6 := Nat.lt_of_not_le hlt
    simp only
    rw [if_neg hlt, if_neg hlt]
    by_cases hen : enabled = pinIrqEnable
    · rw [if_pos hen, if_pos hen, portIrqLine_eq hpin]
      by_cases hfree : (s.tab (pinPort pin)).pin = -1
      · rw [if_pos hfree]
        split
        · rename_i hp
          have hview : (s.view port).Free := hp ▸ hfree
          rw [PortIrq.enable, if_pos hview]
        · rfl
      · rw [if_neg hfree, view_nvicInit _ hpin hport, view_extiModeConfig]
        -- the function of the pin in `ALT` is no part of the interrupt
        have halt : ∀ g : Gpio, ({ s with gpio := g } : PinIrq).view port = s.view port := fun g =>
          view_congr rfl rfl rfl rfl rfl rfl
        rw [halt]
        by_cases hp : pinPort pin = port
        · subst hp
          have hview : ¬ (s.view (pinPort pin)).Free := hfree
          rw [if_pos rfl, if_pos rfl, if_pos rfl, PortIrq.enable, if_neg hview]
          rfl
        · rw [if_neg hp, if_neg hp, if_neg hp]
    · rw [if_neg hen, if_neg hen]
      by_cases hdis : enabled = pinIrqDisable
      · rw [if_pos hdis, if_pos hdis, if_neg hlt, view_nvicInit _ hpin hport]
        rfl
      · rw [if_neg hdis, if_neg hdis]
        split <;> rfl

/-- **Every event is an event of one port**, and leaves all others alone. -/
theorem view_step (hport : port < 6) (e : PinIrqEvent) :
    (s.step e).view port = (s.view port).step port e := by
  cases e with
  | attach pin mode hdr args => exact view_attach s hport pin mode hdr args
  | dettach pin => exact view_dettach s hport pin
  | irqEnable pin enabled => exact view_irqEnable s hport pin enabled
  | edge pin e => exact view_edge s (pinNo_lt pin) e
  | isr extiLine =>
      have hisr : s.step (.isr extiLine) = extiIrqHandler s extiLine := by
        rcases extiLine with ⟨_ | _ | _ | _ | _ | _ | n, hn⟩ <;> first | rfl | omega
      rw [hisr]
      exact view_isr s extiLine

end View

end Mh1903
