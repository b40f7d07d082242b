/-
  File:      Mh1903/Gpio/Owners.lean
  Subject:   GPIO INTERRUPTS BELONG TO PINS, as long as the callers see to it. The row of a port does
             not know whose trigger fields are on, and `mh_pin_dettach_irq` and `mh_pin_irq_enable`
             do not look whose row it is. A call fits (`PortIrq.Fits`) when it does no harm that way;
             along a run of calls that fit, every port serves the one pin of its row (`Owned`).
-/
import Mh1903.Gpio.Irq
import Mh1903.Library.Calls

namespace Mh1903

open Library

/-! ## 1. What belongs to a pin -/

namespace PortIrq

/-- Edges of pin `no` interrupt. -/
def On (v : PortIrq) (no : Nat) : Prop := v.channel = true ∧ ∃ e, v.asked no e = true

/-- What pin `no` had, it still has. -/
def KeptFor (v v' : PortIrq) (no : Nat) : Prop :=
  (v.Attached no → v'.slot = v.slot) ∧ (v.On no → v'.On no)

/-- The handler of the port runs, or may be taken, without a further call. -/
def Live (v : PortIrq) : Prop := v.channel = true ∨ v.phase = .entered ∨ v.phase = .found

/-- No trigger field but that of `no` is on, and pending is nothing but an edge of `no` of the mode. -/
structure Only (v : PortIrq) (no : Nat) (mode : BitVec 16) : Prop where
  asked : ∀ i e, v.asked i e = true → i = no
  pending : ∀ i, v.pending i = true → i = no ∧ ∃ e, asks mode e = true ∧ v.seen no e = true

/-- The trigger field of `no` asks for nothing but the mode. -/
def Within (v : PortIrq) (no : Nat) (mode : BitVec 16) : Prop :=
  ∀ e, v.asked no e = true → asks mode e = true

/-- The call finds its port free, or used by its own pin alone. -/
def Fits (v : PortIrq) : PinIrqEvent → Prop
  | .attach pin mode hdr _ => v.Free → hdr ≠ 0 → v.Live →
      v.Only (pinNo pin) (mode.setWidth 16) ∧ v.Within (pinNo pin) (mode.setWidth 16)
  | .dettach pin => v.Free ∨ v.slot.hdr = 0 ∨ pinNo v.slot.num = pinNo pin
  | .irqEnable pin enabled =>
      (enabled = pinIrqEnable → ¬ v.Free →
        v.slot.hdr ≠ 0 ∧ pinNo v.slot.num = pinNo pin ∧ v.Only (pinNo pin) v.slot.mode ∧
          (¬ Configured v.slot.mode → v.Within (pinNo pin) v.slot.mode)) ∧
      (enabled = pinIrqDisable →
        v.channel = false ∨ ∀ i e, v.asked i e = true → i = pinNo pin)
  | .edge _ _ => True
  | .isr _ => True

end PortIrq

def PinIrqEvent.port : PinIrqEvent → Nat
  | .attach pin _ _ _ => pinPort pin
  | .dettach pin => pinPort pin
  | .irqEnable pin _ => pinPort pin
  | .edge pin _ => pinPort pin
  | .isr extiLine => extiLine

/-- A call on a port there is fits that port; edges and handlers always do. -/
def PinIrq.Fits (s : PinIrq) (e : PinIrqEvent) : Prop :=
  e.port < pinStportMax → (s.view e.port).Fits e

/-- Every other pin keeps its handler and its interrupt. -/
def PinIrq.KeepsOthers (s s' : PinIrq) (pin : Word) : Prop :=
  ∀ q : Pin, ¬ (pinPort q.num = pinPort pin ∧ pinNo q.num = pinNo pin) →
    (s.view (pinPort q.num)).KeptFor (s'.view (pinPort q.num)) (pinNo q.num)

/-- What an event may do if interrupts belong to pins. -/
def PinIrq.Belongs (s : PinIrq) : PinIrqEvent → Prop
  | .attach _ _ _ _ => True
  | .dettach pin => s.KeepsOthers (mhPinDettachIrq s pin).2 pin
  | .irqEnable pin enabled =>
      (enabled = pinIrqDisable → s.KeepsOthers (mhPinIrqEnable s pin enabled).2 pin) ∧
      (enabled = pinIrqEnable → (mhPinIrqEnable s pin enabled).1 = rtEok →
        (s.view (pinPort pin)).Attached (pinNo pin))
  | .edge _ _ => True
  | .isr extiLine => ∀ hdr args, s.starts extiLine = some (hdr, args) →
      ∃ q : Pin, pinPort q.num = extiLine ∧ (s.view extiLine).Attached (pinNo q.num) ∧
        (s.tab extiLine).hdr = hdr ∧ (s.tab extiLine).args = args ∧
        ∃ e, asks (s.tab extiLine).mode e = true ∧ s.seen extiLine (pinNo q.num) e = true

/-! ## 2. The row -/

/-- A pin of a port survives being stored in the sixteen bits of a row. -/
theorem pin_stored (pin : Word) :
    pinPort ((pin.setWidth 16).signExtend 32) = pinPort pin ∧
      pinNo ((pin.setWidth 16).signExtend 32) = pinNo pin := by
  have hlow : ∀ i < 16, ((pin.setWidth 16).signExtend 32).getLsbD i = pin.getLsbD i := by
    intro i hi
    have hi' : i < 32 := by omega
    rw [BitVec.getLsbD_signExtend, if_pos hi, BitVec.getLsbD_setWidth]
    simp [hi, hi']
  have hmask : ∀ i < 32, (0xF#32).getLsbD i = decide (i < 4) := by decide
  constructor
  · refine congrArg BitVec.toNat (BitVec.eq_of_getLsbD_eq fun i hi => ?_)
    rw [BitVec.getLsbD_and, BitVec.getLsbD_and, BitVec.getLsbD_ushiftRight,
      BitVec.getLsbD_ushiftRight]
    by_cases h : i < 4
    · rw [hlow (4 + i) (by omega)]
    · have := hmask i hi
      simp [this, h]
  · refine congrArg BitVec.toNat (BitVec.eq_of_getLsbD_eq fun i hi => ?_)
    rw [BitVec.getLsbD_and, BitVec.getLsbD_and]
    by_cases h : i < 4
    · rw [hlow i (by omega)]
    · have := hmask i hi
      simp [this, h]

theorem stored_not_free {pin : Word} (h : pinPort pin < pinStportMax) : pin.setWidth 16 ≠ -1 := by
  intro hfree
  have hport := (pin_stored pin).1
  rw [hfree] at hport
  have hnone : ¬ pinPort (BitVec.signExtend 32 (-1 : BitVec 16)) < pinStportMax := by decide
  exact hnone (hport ▸ h)

/-! ## 3. The invariant of a port -/

namespace PortIrq

/-- A live port serves the pin of its row and no other. -/
structure Owned (v : PortIrq) (port : Nat) : Prop where
  free : v.Free → v.slot.hdr = 0
  row : ¬ v.Free → pinPort v.slot.num = port
  found : v.phase = .found → v.Waiting
  only : v.Live → v.slot.hdr ≠ 0 →
    v.Only (pinNo v.slot.num) v.slot.mode ∧ v.Within (pinNo v.slot.num) v.slot.mode

variable {v : PortIrq} {port : Nat}

theorem Owned.attach (h : v.Owned port) {pin : Word} (hpin : pinPort pin = port)
    (hport : port < pinStportMax) (mode hdr args : Word) (hfits : v.Fits (.attach pin mode hdr args)) :
    (v.attach ⟨pin.setWidth 16, mode.setWidth 16, hdr, args⟩).Owned port := by
  unfold PortIrq.attach
  split
  · rename_i hfree
    obtain ⟨hrow, hno⟩ := pin_stored pin
    refine ⟨fun h' => ?_, fun _ => hrow.trans hpin, h.found, fun hlive hhdr => ?_⟩
    · exact absurd h' (stored_not_free (hpin ▸ hport))
    · have hown := hfits hfree hhdr hlive
      have hslot : pinNo (PinIrqHdr.num ⟨pin.setWidth 16, mode.setWidth 16, hdr, args⟩) = pinNo pin :=
        hno
      rw [hslot]
      exact ⟨⟨hown.1.asked, hown.1.pending⟩, hown.2⟩
  · exact h

theorem Owned.dettach (h : v.Owned port) : v.dettach.Owned port := by
  unfold PortIrq.dettach
  split
  · exact h
  · exact ⟨fun _ => rfl, fun hfree => absurd rfl hfree, h.found, fun _ hhdr => absurd rfl hhdr⟩

theorem Owned.enable (h : v.Owned port) {pin : Word} (hfits : v.Fits (.irqEnable pin pinIrqEnable)) :
    (v.enable (pinNo pin)).Owned port := by
  unfold PortIrq.enable
  split
  · exact h
  · rename_i hfree
    obtain ⟨-, hno, honly, hwithin⟩ := hfits.1 rfl hfree
    rw [← hno] at honly hwithin
    refine ⟨h.free, h.row, h.found, fun _ _ => ⟨⟨fun i e he => ?_, honly.pending⟩, fun e he => ?_⟩⟩
    · by_cases hi : Configured v.slot.mode ∧ i = pinNo pin
      · exact hi.2.trans hno.symm
      · exact honly.asked i e ((if_neg hi).symm.trans he)
    · by_cases hi : Configured v.slot.mode ∧ pinNo v.slot.num = pinNo pin
      · exact (if_pos hi).symm.trans he
      · have hmode : ¬ Configured v.slot.mode := fun hc => hi ⟨hc, hno⟩
        exact hwithin hmode e ((if_neg hi).symm.trans he)

theorem Owned.disable (h : v.Owned port) : v.disable.Owned port := by
  refine ⟨h.free, h.row, h.found, fun hlive hhdr => ?_⟩
  have hlive' : v.Live := by
    rcases hlive with hchannel | hphase
    · exact absurd hchannel Bool.false_ne_true
    · exact .inr hphase
  have hown := h.only hlive' hhdr
  exact ⟨⟨hown.1.asked, hown.1.pending⟩, hown.2⟩

theorem Owned.edge (h : v.Owned port) (no : Nat) (e : Edge) : (v.edge no e).Owned port := by
  refine ⟨h.free, h.row, fun hphase => ?_, fun hlive hhdr => ?_⟩
  · obtain ⟨i, hi, hpending⟩ := h.found hphase
    exact ⟨i, hi, Bool.or_eq_true_iff.mpr (.inl hpending)⟩
  · obtain ⟨honly, hwithin⟩ := h.only hlive hhdr
    refine ⟨⟨honly.asked, fun i hi => ?_⟩, hwithin⟩
    rcases Bool.or_eq_true_iff.mp hi with hold | hnew
    · obtain ⟨hno, e', hmode, hseen⟩ := honly.pending i hold
      exact ⟨hno, e', hmode, Bool.or_eq_true_iff.mpr (.inl hseen)⟩
    · -- the new edge is one that the trigger field of the row's pin asks for
      obtain ⟨hasked, hi'⟩ := Bool.and_eq_true_iff.mp hnew
      have hno := honly.asked no e hasked
      refine ⟨(of_decide_eq_true hi').trans hno, e, hwithin e (hno ▸ hasked), ?_⟩
      exact Bool.or_eq_true_iff.mpr (.inr (decide_eq_true ⟨hno.symm, rfl⟩))

/-- A handler that moves on to a phase from which no further run follows. -/
theorem Owned.setPhase (h : v.Owned port) {phase : IsrPhase} (hfound : phase = .found → v.Waiting)
    (hlive : phase = .entered ∨ phase = .found → v.Live) :
    ({ v with phase := phase } : PortIrq).Owned port := by
  refine ⟨h.free, h.row, hfound, fun hl hhdr => ?_⟩
  have hlive' : v.Live := by
    rcases hl with hchannel | hphase
    · exact .inl hchannel
    · exact hlive hphase
  have hown := h.only hlive' hhdr
  exact ⟨⟨hown.1.asked, hown.1.pending⟩, hown.2⟩

theorem Owned.isr (h : v.Owned port) : v.isr.Owned port := by
  unfold PortIrq.isr
  cases hphase : v.phase with
  | idle =>
      simp only
      split
      · rename_i htaken
        exact h.setPhase (fun h' => IsrPhase.noConfusion h') fun _ => .inl htaken.1
      · exact h
  | entered =>
      simp only
      split
      · rename_i hw
        exact h.setPhase (fun _ => hw) fun _ => .inr (.inl hphase)
      · exact h.setPhase (fun h' => IsrPhase.noConfusion h') fun _ => .inr (.inl hphase)
  | found =>
      exact h.setPhase (fun h' => IsrPhase.noConfusion h') fun _ => .inr (.inr hphase)
  | ran =>
      refine ⟨h.free, h.row, fun h' => IsrPhase.noConfusion h', fun hlive hhdr => ?_⟩
      have hlive' : v.Live := by
        rcases hlive with hchannel | hentered | hfound
        · exact .inl hchannel
        · exact IsrPhase.noConfusion hentered
        · exact IsrPhase.noConfusion hfound
      obtain ⟨honly, hwithin⟩ := h.only hlive' hhdr
      exact ⟨⟨honly.asked, fun i hi => absurd hi Bool.false_ne_true⟩, hwithin⟩

/-- **One event** keeps a port owned, if its call fits. -/
theorem Owned.step (h : v.Owned port) (hport : port < pinStportMax) {e : PinIrqEvent}
    (hfits : e.port = port → v.Fits e) : (v.step port e).Owned port := by
  cases e with
  | attach pin mode hdr args =>
      simp only [PortIrq.step]
      split
      · rename_i hp
        exact h.attach hp hport mode hdr args (hfits hp)
      · exact h
  | dettach pin =>
      simp only [PortIrq.step]
      split
      · exact h.dettach
      · exact h
  | irqEnable pin enabled =>
      simp only [PortIrq.step]
      split
      · rename_i hp
        split
        · rename_i hen
          subst hen
          exact h.enable (hfits hp)
        · split
          · exact h.disable
          · exact h
      · exact h
  | edge pin e =>
      simp only [PortIrq.step]
      split
      · exact h.edge (pinNo pin) e
      · exact h
  | isr extiLine =>
      simp only [PortIrq.step]
      split
      · exact h.isr
      · exact h

end PortIrq

/-! ## 4. What fits keeps what belongs to others -/

section Keeps

variable {s s' : PinIrq} {pin : Word}

/-- Of a call on one port, only the other pins of that port have to be looked at. -/
theorem keepsOthers_of (hview : ∀ port < pinStportMax, port ≠ pinPort pin →
      s'.view port = s.view port)
    (hown : pinPort pin < pinStportMax → ∀ no, no ≠ pinNo pin →
      (s.view (pinPort pin)).KeptFor (s'.view (pinPort pin)) no) : s.KeepsOthers s' pin := by
  intro q hother
  by_cases hport : pinPort q.num = pinPort pin
  · rw [hport]
    exact hown (hport ▸ q.onPort) _ fun hno => hother ⟨hport, hno⟩
  · rw [hview _ q.onPort hport]
    exact ⟨fun _ => rfl, id⟩

theorem keepsOthers_dettach (hfits : s.Fits (.dettach pin)) :
    s.KeepsOthers (mhPinDettachIrq s pin).2 pin := by
  refine keepsOthers_of (fun port hport hne => ?_) fun hport no hno => ?_
  · rw [view_dettach s hport, if_neg (Ne.symm hne)]
  · rw [view_dettach s hport, if_pos rfl]
    refine ⟨fun ⟨htaken, hhdr, hrow⟩ => ?_, fun hon => ?_⟩
    · rcases hfits hport with hfree | hnone | hown
      · exact absurd hfree htaken
      · exact absurd hnone hhdr
      · exact absurd (hrow.symm.trans hown) hno
    unfold PortIrq.dettach
    split
    · exact hon
    · exact hon

theorem keepsOthers_disable (hfits : s.Fits (.irqEnable pin pinIrqDisable)) :
    s.KeepsOthers (mhPinIrqEnable s pin pinIrqDisable).2 pin := by
  refine keepsOthers_of (fun port hport hne => ?_) fun hport no hno => ?_
  · rw [view_irqEnable s hport, if_neg (Ne.symm hne)]
  · have hdisable : ¬ pinIrqDisable = pinIrqEnable := by decide
    rw [view_irqEnable s hport, if_pos rfl, if_neg hdisable, if_pos rfl]
    refine ⟨fun _ => rfl, fun ⟨hchannel, e, he⟩ => ?_⟩
    rcases (hfits hport).2 rfl with hoff | hown
    · exact absurd (hchannel.symm.trans hoff) (by decide)
    · exact absurd (hown no e he) hno

/-- `RT_EOK` says that the row is taken. -/
theorem taken_of_enable (h : (mhPinIrqEnable s pin pinIrqEnable).1 = rtEok) :
    pinPort pin < pinStportMax ∧ ¬ (s.view (pinPort pin)).Free := by
  have hneg : ¬ -rtEnosys = rtEok := by decide
  have hpos : ¬ rtEnosys = rtEok := by decide
  unfold mhPinIrqEnable at h
  rw [length_portIrqMap] at h
  by_cases hport : pinPort pin ≥ pinStportMax
  · rw [if_pos hport] at h
    exact absurd h hneg
  · rw [if_neg hport, if_pos rfl] at h
    simp only at h
    rw [if_neg hport] at h
    refine ⟨Nat.lt_of_not_le hport, fun hfree => ?_⟩
    have hpin : (s.tab (pinPort pin)).pin = -1 := hfree
    rw [if_pos hpin] at h
    exact absurd h hpos

/-- A handler that is run is the one of the row, for an edge of the row's pin. -/
theorem starts_owned {extiLine : Nat} (hown : (s.view extiLine).Owned extiLine)
    (hline : extiLine < pinStportMax) {hdr args : Word} (h : s.starts extiLine = some (hdr, args)) :
    ∃ q : Pin, pinPort q.num = extiLine ∧ (s.view extiLine).Attached (pinNo q.num) ∧
      (s.tab extiLine).hdr = hdr ∧ (s.tab extiLine).args = args ∧
      ∃ e, asks (s.tab extiLine).mode e = true ∧ s.seen extiLine (pinNo q.num) e = true := by
  have hfound : (s.view extiLine).phase = .found := by
    by_contra hphase
    have hnone : s.starts extiLine = none := if_neg hphase
    rw [hnone] at h
    cases h
  have hcall : pinIrqHdr s extiLine = some (hdr, args) := (if_pos hfound).symm.trans h
  have hhdr : (s.view extiLine).slot.hdr ≠ 0 := by
    intro hzero
    have hnone : pinIrqHdr s extiLine = none := if_neg fun hne => hne hzero
    rw [hnone] at hcall
    cases hcall
  have hrow : some ((s.tab extiLine).hdr, (s.tab extiLine).args) = some (hdr, args) :=
    (if_pos hhdr).symm.trans hcall
  cases hrow
  have htaken : ¬ (s.view extiLine).Free := fun hfree => hhdr (hown.free hfree)
  obtain ⟨no, -, hno⟩ := hown.found hfound
  obtain ⟨honly, -⟩ := hown.only (.inr (.inr hfound)) hhdr
  obtain ⟨-, e, hmode, hseen⟩ := honly.pending no hno
  have hport := hown.row htaken
  exact ⟨⟨(s.tab extiLine).num, lt_of_eq_of_lt hport hline⟩, hport, ⟨htaken, hhdr, rfl⟩, rfl, rfl,
    e, hmode, hseen⟩

end Keeps

/-! ## 5. Every run of calls that fit -/

def PinIrq.Owned (s : PinIrq) : Prop := ∀ port < pinStportMax, (s.view port).Owned port

theorem reset_owned (g : Gpio) : (PinIrq.reset g).Owned := by
  intro port _
  refine ⟨fun _ => rfl, fun hfree => absurd rfl hfree, fun h => IsrPhase.noConfusion h, ?_⟩
  exact fun _ hhdr => absurd rfl hhdr

theorem PinIrq.Owned.step {s : PinIrq} (h : s.Owned) {e : PinIrqEvent} (hfits : s.Fits e) :
    (s.step e).Owned := by
  intro port hport
  rw [view_step s hport]
  refine (h port hport).step hport fun he => ?_
  subst he
  exact hfits hport

theorem PinIrq.Owned.belongs {s : PinIrq} (h : s.Owned) {e : PinIrqEvent} (hfits : s.Fits e) :
    s.Belongs e := by
  cases e with
  | attach pin mode hdr args => trivial
  | dettach pin => exact keepsOthers_dettach hfits
  | irqEnable pin enabled =>
      constructor
      · rintro rfl
        exact keepsOthers_disable hfits
      · rintro rfl hok
        obtain ⟨hport, htaken⟩ := taken_of_enable hok
        obtain ⟨hhdr, hno, -, -⟩ := (hfits hport).1 rfl htaken
        exact ⟨htaken, hhdr, hno⟩
  | edge pin e => trivial
  | isr extiLine =>
      intro hdr args hstarts
      exact starts_owned (h extiLine extiLine.isLt) extiLine.isLt hstarts

/-- **GPIO interrupts belong to pins** in every run whose calls fit. -/
theorem interrupts_belong (g : Gpio) (events : List PinIrqEvent)
    (hfits : Along PinIrq.step PinIrq.Fits (PinIrq.reset g) events) :
    Along PinIrq.step PinIrq.Belongs (PinIrq.reset g) events :=
  Along.of_invariant (reset_owned g) hfits (fun _ _ h hc => h.step hc) fun _ _ h hc => h.belongs hc

/-- PA0 in use: an edge is served, and the row is given back. -/
theorem interrupts_belong_pa0 :
    Along PinIrq.step PinIrq.Belongs (PinIrq.reset Gpio.clear)
      [.attach 0 0 0x2000 0, .irqEnable 0 pinIrqEnable, .edge 0 .rising, .isr 0, .isr 0, .isr 0,
        .isr 0, .dettach 0] := by
  refine interrupts_belong Gpio.clear _ ⟨?_, ?_, fun _ => trivial, fun _ => trivial,
    fun _ => trivial, fun _ => trivial, fun _ => trivial, ?_, trivial⟩
  · rintro - - - (hchannel | hentered | hfound)
    · exact absurd hchannel Bool.false_ne_true
    · exact IsrPhase.noConfusion hentered
    · exact IsrPhase.noConfusion hfound
  · intro _
    refine ⟨fun _ _ => ⟨by decide, by decide, ⟨fun i e he => ?_, fun i hi => ?_⟩, fun hmode => ?_⟩,
      fun h => ?_⟩
    · have hoff : ∀ i e, (((PinIrq.reset Gpio.clear).step (.attach 0 0 0x2000 0)).view 0).asked i e =
          false := by
        rintro i (_ | _) <;> exact BitVec.getLsbD_zero
      exact absurd (he.symm.trans (hoff i e)) (by decide)
    · have hnone : (((PinIrq.reset Gpio.clear).step (.attach 0 0 0x2000 0)).view 0).pending i =
          false := BitVec.getLsbD_zero
      exact absurd (hi.symm.trans hnone) (by decide)
    · exact absurd (by decide) hmode
    · exact absurd h (by decide)
  · intro _
    exact .inr (.inr (by decide))

/-- PA0 and PA1: one removes the handler of the other, enables without one of its own, or runs its
    own for an edge of the other. -/
theorem interrupts_shared :
    ¬ Along PinIrq.step PinIrq.Belongs (PinIrq.reset Gpio.clear)
        [.attach 0 0 0x2000 0, .dettach 1] ∧
      ¬ Along PinIrq.step PinIrq.Belongs (PinIrq.reset Gpio.clear)
        [.attach 0 0 0x2000 0, .irqEnable 1 pinIrqEnable] ∧
      ¬ Along PinIrq.step PinIrq.Belongs (PinIrq.reset Gpio.clear)
        [.attach 0 0 0x2000 0, .irqEnable 0 pinIrqEnable, .irqEnable 0 pinIrqDisable, .dettach 0,
          .attach 1 0 0x3000 0, .irqEnable 1 pinIrqEnable, .edge 0 .rising, .isr 0, .isr 0,
          .isr 0] := by
  refine ⟨?_, ?_, ?_⟩
  · rintro ⟨-, h, -⟩
    obtain ⟨hslot, -⟩ := h ⟨0, by decide⟩ (by decide)
    exact absurd (hslot (by decide)) (by decide)
  · rintro ⟨-, ⟨-, h⟩, -⟩
    exact absurd (h rfl (by decide)) (by decide)
  · rintro ⟨-, -, -, -, -, -, -, -, -, h, -⟩
    obtain ⟨q, -, ⟨-, -, hno⟩, -, -, e, -, hseen⟩ := h 0x3000 0 (by decide)
    have hone : pinNo q.num = 1 := hno.symm.trans (by decide)
    rw [hone] at hseen
    revert hseen
    cases e <;> decide

end Mh1903
