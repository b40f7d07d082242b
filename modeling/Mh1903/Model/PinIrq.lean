/-
  File:      Mh1903/Model/PinIrq.lean
  Subject:   `board/drv_gpio.c`, second part: interrupts of the pins, with what it calls of
             `mhscpu_exti.c` and `misc.c`.

  `pin_irq_hdr_tab` has one row for each port, and a port one interrupt. The block latches a bit of
  `INTP_STA` for an edge that the field of the pin in `INTP_TYPE` asks for; `seen` is a ghost, the
  edges since the handler of the port last cleared the word. The six handlers are one function of
  the line, cut where an edge can come in between.
-/
import Mh1903.Model.Gpio

namespace Mh1903

/-! ## 1. Constants -/

/-- `RT_ENOSYS` -/
def rtEnosys : Int := 6
/-- `RT_EBUSY` -/
def rtEbusy : Int := 7

def pinIrqModeRising : BitVec 16 := 0x00
def pinIrqModeFalling : BitVec 16 := 0x01
def pinIrqModeRisingFalling : BitVec 16 := 0x02

def pinIrqDisable : Word := 0x00
def pinIrqEnable : Word := 0x01

def extiTriggerRising : Word := 0x01
def extiTriggerFalling : Word := 0x02
def extiTriggerRisingFalling : Word := 0x03

/-- `port_irq_map`: the line of a port and the number of its interrupt. -/
def portIrqMap : List (Nat × Nat) := [(0, 13), (1, 14), (2, 15), (3, 25), (4, 37), (5, 38)]

def portIrqLine (irqindex : Nat) : Nat := (portIrqMap.getD irqindex (0, 0)).1
def portIrqno (irqindex : Nat) : Nat := (portIrqMap.getD irqindex (0, 0)).2

/-! ## 2. State -/

/-- `struct rt_pin_irq_hdr` -/
structure PinIrqHdr where
  pin : BitVec 16
  mode : BitVec 16
  hdr : Word
  args : Word
  deriving DecidableEq

/-- A row without a pin. -/
def PinIrqHdr.none : PinIrqHdr := ⟨-1, 0, 0, 0⟩

/-- `pin`, as the code compares it. -/
def PinIrqHdr.num (h : PinIrqHdr) : Word := h.pin.signExtend 32

inductive Edge where
  | rising
  | falling
  deriving DecidableEq

/-- How far the handler of a port is. -/
inductive IsrPhase where
  | idle
  /-- taken, `exti_status` not yet read -/
  | entered
  /-- read and not zero, the handler of the pin not yet run -/
  | found
  /-- the handler of the pin run, the word not yet cleared -/
  | ran
  deriving DecidableEq

/-- `pin_irq_hdr_tab`, the registers of the EXTI block and the enabled channels of the NVIC. -/
structure PinIrq where
  gpio : Gpio
  tab : Nat → PinIrqHdr
  intpType : Nat → Word
  intpSta : Nat → BitVec 16
  nvic : Nat → Bool
  phase : Nat → IsrPhase
  seen : Nat → Nat → Edge → Bool

/-- After reset. -/
def PinIrq.reset (g : Gpio) : PinIrq where
  gpio := g
  tab := fun _ => PinIrqHdr.none
  intpType := fun _ => 0
  intpSta := fun _ => 0
  nvic := fun _ => false
  phase := fun _ => .idle
  seen := fun _ _ _ => false

def PinIrq.setTab (s : PinIrq) (irqindex : Nat) (h : PinIrqHdr) : PinIrq :=
  { s with tab := fun n => if n = irqindex then h else s.tab n }

def PinIrq.setPhase (s : PinIrq) (port : Nat) (phase : IsrPhase) : PinIrq :=
  { s with phase := fun n => if n = port then phase else s.phase n }

/-! ## 3. `mhscpu_exti.c` and `misc.c` -/

/-- `EXTI_LineConfig` -/
def extiLineConfig (s : PinIrq) (extiLine : Nat) (extiPinSource : BitVec 16) (extiTrigger : Word) :
    PinIrq :=
  { s with
    intpType := fun n =>
      if n = extiLine then
        (List.range 16).foldl (fun intpType i =>
          if extiPinSource &&& ((1 : BitVec 16) <<< i) ≠ 0 then
            intpType &&& ~~~((0x03 : Word) <<< (i * 2)) ||| extiTrigger <<< (i * 2)
          else
            intpType) (s.intpType n)
      else
        s.intpType n }

/-- `EXTI_GetITLineStatus` -/
def extiGetITLineStatus (s : PinIrq) (extiLine : Nat) : BitVec 16 := s.intpSta extiLine

/-- `EXTI_ClearITPendingBit`: a one written to `INTP_STA` clears the bit. -/
def extiClearITPendingBit (s : PinIrq) (extiLine : Nat) : PinIrq :=
  { s with
    intpSta := fun n => if n = extiLine then s.intpSta n &&& ~~~0xFFFF else s.intpSta n
    seen := fun n => if n = extiLine then fun _ _ => false else s.seen n }

/-- `NVIC_Init`, true for `ENABLE`; the priorities are not modelled. -/
def nvicInit (s : PinIrq) (irqChannel : Nat) (cmd : Bool) : PinIrq :=
  { s with nvic := fun n => if n = irqChannel then cmd else s.nvic n }

/-! ## 4. The calls -/

def mhPinAttachIrq (s : PinIrq) (pin mode hdr args : Word) : Int × PinIrq :=
  if pinPort pin ≥ pinStportMax then
    (-rtEnosys, s)
  else
    let irqindex := pinPort pin
    if irqindex ≥ portIrqMap.length then
      (rtEnosys, s)
    else if (s.tab irqindex).num = pin ∧ (s.tab irqindex).hdr = hdr ∧
        (s.tab irqindex).mode.setWidth 32 = mode ∧ (s.tab irqindex).args = args then
      (rtEok, s)
    else if (s.tab irqindex).pin ≠ -1 then
      (rtEbusy, s)
    else
      (rtEok, s.setTab irqindex
        { pin := pin.setWidth 16, hdr := hdr, mode := mode.setWidth 16, args := args })

def mhPinDettachIrq (s : PinIrq) (pin : Word) : Int × PinIrq :=
  if pinPort pin ≥ pinStportMax then
    (-rtEnosys, s)
  else
    let irqindex := pinPort pin
    if irqindex ≥ portIrqMap.length then
      (rtEnosys, s)
    else if (s.tab irqindex).pin = -1 then
      (rtEok, s)
    else
      (rtEok, s.setTab irqindex { pin := -1, hdr := 0, mode := 0, args := 0 })

/-- The `switch` of `mh_pin_irq_enable`; the level modes have no case in it. -/
def extiModeConfig (s : PinIrq) (extiLine : Nat) (pin : Word) (mode : BitVec 16) : PinIrq :=
  if mode = pinIrqModeRising then
    extiLineConfig s extiLine (pinStpin pin) extiTriggerRising
  else if mode = pinIrqModeFalling then
    extiLineConfig s extiLine (pinStpin pin) extiTriggerFalling
  else if mode = pinIrqModeRisingFalling then
    extiLineConfig s extiLine (pinStpin pin) extiTriggerRisingFalling
  else
    s

def mhPinIrqEnable (s : PinIrq) (pin enabled : Word) : Int × PinIrq :=
  if pinPort pin ≥ pinStportMax then
    (-rtEnosys, s)
  else if enabled = pinIrqEnable then
    let irqindex := pinPort pin
    if irqindex ≥ portIrqMap.length then
      (rtEnosys, s)
    else if (s.tab irqindex).pin = -1 then
      (rtEnosys, s)
    else
      let s := { s with gpio := gpioPinRemapConfig s.gpio (pinPort pin) (pinStpin pin) 1 }
      let s := extiModeConfig s (portIrqLine irqindex) pin (s.tab irqindex).mode
      (rtEok, nvicInit s (portIrqno irqindex) true)
  else if enabled = pinIrqDisable then
    let irqindex := pinPort pin
    if irqindex ≥ portIrqMap.length then
      (rtEnosys, s)
    else
      let s := { s with gpio := gpioInit s.gpio (pinPort pin) (pinStpin pin) .inFloating }
      (rtEok, nvicInit s (portIrqno irqindex) false)
  else
    (-rtEnosys, s)

/-! ## 5. Edges and handlers -/

/-- The bit of an edge in the field of pin `no`. -/
def PinIrq.triggers (s : PinIrq) (port no : Nat) : Edge → Bool
  | .rising => (s.intpType port).getLsbD (no * 2)
  | .falling => (s.intpType port).getLsbD (no * 2 + 1)

/-- An edge on a pin, which the block latches if it is asked for. -/
def PinIrq.edge (s : PinIrq) (port no : Nat) (edge : Edge) : PinIrq :=
  { s with
    intpSta := fun n =>
      if n = port ∧ s.triggers port no edge then s.intpSta n ||| (1 : BitVec 16) <<< no
      else s.intpSta n
    seen := fun n i e => s.seen n i e || decide (n = port ∧ i = no ∧ e = edge) }

/-- `pin_irq_hdr`: the call it makes, if any. -/
def pinIrqHdr (s : PinIrq) (irqno : Nat) : Option (Word × Word) :=
  if (s.tab irqno).hdr ≠ 0 then some ((s.tab irqno).hdr, (s.tab irqno).args) else none

/-- The next step of `EXTIx_IRQHandler`; idle, it is taken while its channel has a pending bit. -/
def extiIrqHandler (s : PinIrq) (extiLine : Nat) : PinIrq :=
  match s.phase extiLine with
  | .idle =>
      if s.nvic (portIrqno extiLine) ∧ s.intpSta extiLine ≠ 0 then s.setPhase extiLine .entered else s
  | .entered =>
      let extiStatus := extiGetITLineStatus s extiLine
      if extiStatus ≠ 0 then s.setPhase extiLine .found else s.setPhase extiLine .idle
  | .found => s.setPhase extiLine .ran
  | .ran => (extiClearITPendingBit s extiLine).setPhase extiLine .idle

def exti0IrqHandler (s : PinIrq) : PinIrq := extiIrqHandler s 0
def exti1IrqHandler (s : PinIrq) : PinIrq := extiIrqHandler s 1
def exti2IrqHandler (s : PinIrq) : PinIrq := extiIrqHandler s 2
def exti3IrqHandler (s : PinIrq) : PinIrq := extiIrqHandler s 3
def exti4IrqHandler (s : PinIrq) : PinIrq := extiIrqHandler s 4
def exti5IrqHandler (s : PinIrq) : PinIrq := extiIrqHandler s 5

/-- The user handler that this step starts. -/
def PinIrq.starts (s : PinIrq) (extiLine : Nat) : Option (Word × Word) :=
  if s.phase extiLine = .found then pinIrqHdr s extiLine else none

/-! ## 6. Events -/

inductive PinIrqEvent where
  | attach (pin mode hdr args : Word)
  | dettach (pin : Word)
  | irqEnable (pin enabled : Word)
  | edge (pin : Word) (edge : Edge)
  | isr (extiLine : Fin 6)

def PinIrq.step (s : PinIrq) : PinIrqEvent → PinIrq
  | .attach pin mode hdr args => (mhPinAttachIrq s pin mode hdr args).2
  | .dettach pin => (mhPinDettachIrq s pin).2
  | .irqEnable pin enabled => (mhPinIrqEnable s pin enabled).2
  | .edge pin edge => s.edge (pinPort pin) (pinNo pin) edge
  | .isr 0 => exti0IrqHandler s
  | .isr 1 => exti1IrqHandler s
  | .isr 2 => exti2IrqHandler s
  | .isr 3 => exti3IrqHandler s
  | .isr 4 => exti4IrqHandler s
  | .isr 5 => exti5IrqHandler s

end Mh1903
