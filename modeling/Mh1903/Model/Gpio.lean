/-
  File:      Mh1903/Model/Gpio.lean
  Subject:   `board/drv_gpio.c`, first part: names, modes and levels of the pins, with what it calls
             of `mhscpu_gpio.c`.

  A `GPIO_TypeDef *` is the number of its port; `PIN_STPORT` computes it from that number and
  `GPIO_GetGPIONum` gets the number back. Of `IODR` the low half is the output latch, which `BSRR`
  sets and clears; the levels in its high half are not modelled.
-/
import Mh1903.Model.Drivers

namespace Mh1903

/-! ## 1. Pins -/

/-- `PIN_PORT` -/
def pinPort (pin : Word) : Nat := ((pin >>> 4) &&& 0xF).toNat
/-- `PIN_NO` -/
def pinNo (pin : Word) : Nat := (pin &&& 0xF).toNat
/-- `PIN_STPIN` -/
def pinStpin (pin : Word) : BitVec 16 := (1 : BitVec 16) <<< pinNo pin
/-- `PIN_STPORT_MAX` -/
def pinStportMax : Nat := 6
/-- `PIN_NUM` -/
def pinNum (port no : Word) : Word := ((port &&& 0xF) <<< 4) ||| (no &&& 0xF)

/-- `mh_pin_get`: `name` is the string without its terminator. -/
def mhPinGet (name : List Byte) : Int :=
  let nameLen := name.length
  if nameLen < 4 ∨ nameLen ≥ 6 then
    -rtEinval
  else if name.getD 0 0 ≠ 0x50 ∨ name.getD 2 0 ≠ 0x2E then
    -rtEinval
  else if name.getD 1 0 ≥ 0x41 ∧ name.getD 1 0 ≤ 0x5A then
    let hwPortNum : Word := (name.getD 1 0).setWidth 32 - 0x41
    let hwPinNum : Word := (name.drop 3).foldl (fun n c => n * 10 + (c.setWidth 32 - 0x30)) 0
    (pinNum hwPortNum hwPinNum).toNat
  else
    -rtEinval

/-! ## 2. Registers -/

/-- `GPIO_TypeDef`, without the write-only `BSRR`. -/
structure GpioPort where
  iodr : Word
  oen : Word
  pue : Word

/-- The ports, `GPIO->ALT`, the marks `GPIO_OD_Mark` of `mhscpu_gpio.c` and `SYSCTRL->PHER_CTRL`. -/
structure Gpio where
  port : Nat → GpioPort
  alt : Nat → Word
  odMark : Nat → BitVec 16
  pherCtrl : Word

def Gpio.modifyPort (s : Gpio) (port : Nat) (f : GpioPort → GpioPort) : Gpio :=
  { s with port := fun n => if n = port then f (s.port n) else s.port n }

def Gpio.modifyMark (s : Gpio) (port : Nat) (f : BitVec 16 → BitVec 16) : Gpio :=
  { s with odMark := fun n => if n = port then f (s.odMark n) else s.odMark n }

/-- A write to `BSRR`: the low half sets bits of the latch, the high half clears them. -/
def GpioPort.writeBsrr (p : GpioPort) (bsrr : Word) : GpioPort :=
  { p with iodr := (p.iodr ||| bsrr &&& 0xFFFF) &&& ~~~(bsrr >>> 16) }

/-! ## 3. `mhscpu_gpio.c` -/

/-- `GPIO_ModeTypeDef` -/
inductive GpioMode where
  | inFloating
  | ipu
  | outOd
  | outOdPu
  | outPp
  deriving DecidableEq

/-- `GPIO_PinRemapConfig`; `remap` is the number in the name of `GPIO_Remap_x`. -/
def gpioPinRemapConfig (s : Gpio) (port : Nat) (gpioPin : BitVec 16) (remap : Nat) : Gpio :=
  { s with
    alt := fun n =>
      if n = port then
        (List.range 16).foldl (fun alt i =>
          if gpioPin &&& ((1 : BitVec 16) <<< i) ≠ 0 then
            alt &&& ~~~((0x03 : Word) <<< (i * 2)) ||| BitVec.ofNat 32 remap <<< (i * 2)
          else
            alt) (s.alt n)
      else
        s.alt n }

/-- The `switch` of `GPIO_Init`. -/
def gpioInitMode (s : Gpio) (port : Nat) (gpioPin : BitVec 16) : GpioMode → Gpio
  | .inFloating => s.modifyPort port fun p =>
      { p with oen := p.oen ||| gpioPin.setWidth 32, pue := p.pue &&& ~~~gpioPin.setWidth 32 }
  | .ipu => s.modifyPort port fun p =>
      { p with oen := p.oen ||| gpioPin.setWidth 32, pue := p.pue ||| gpioPin.setWidth 32 }
  | .outOd => (s.modifyPort port fun p =>
      { oen := p.oen ||| gpioPin.setWidth 32, pue := p.pue &&& ~~~gpioPin.setWidth 32
        iodr := p.iodr &&& ~~~gpioPin.setWidth 32 }).modifyMark port fun m => m ||| gpioPin
  | .outOdPu => (s.modifyPort port fun p =>
      { oen := p.oen ||| gpioPin.setWidth 32, pue := p.pue ||| gpioPin.setWidth 32
        iodr := p.iodr &&& ~~~gpioPin.setWidth 32 }).modifyMark port fun m => m ||| gpioPin
  | .outPp => (s.modifyPort port fun p =>
      { oen := p.oen &&& ~~~gpioPin.setWidth 32, pue := p.pue &&& ~~~gpioPin.setWidth 32
        iodr := p.iodr ||| gpioPin.setWidth 32 }).modifyMark port fun m => m &&& ~~~gpioPin

/-- `GPIO_Init` with `GPIO_Remap_1`, the only function of the pin under which it sets the mode. -/
def gpioInit (s : Gpio) (port : Nat) (gpioPin : BitVec 16) (mode : GpioMode) : Gpio :=
  gpioInitMode (gpioPinRemapConfig s port gpioPin 1) port gpioPin mode

/-- `GPIO_PullUpCmd`, true for `ENABLE`. -/
def gpioPullUpCmd (s : Gpio) (port : Nat) (gpioPin : BitVec 16) (newState : Bool) : Gpio :=
  s.modifyPort port fun p =>
    if newState then { p with pue := p.pue ||| gpioPin.setWidth 32 }
    else { p with pue := p.pue &&& ~~~gpioPin.setWidth 32 }

def gpioSetBits (s : Gpio) (port : Nat) (gpioPin : BitVec 16) : Gpio :=
  let tmpOen := gpioPin &&& s.odMark port
  let tmpBsrr := gpioPin &&& ~~~s.odMark port
  if s.odMark port &&& gpioPin ≠ 0 then
    s.modifyPort port fun p => { p with oen := p.oen ||| tmpOen.setWidth 32 }
  else
    s.modifyPort port fun p => p.writeBsrr (tmpBsrr.setWidth 32)

def gpioResetBits (s : Gpio) (port : Nat) (gpioPin : BitVec 16) : Gpio :=
  let tmpOen := gpioPin &&& s.odMark port
  let tmpBsrr := gpioPin &&& ~~~s.odMark port
  if s.odMark port &&& gpioPin ≠ 0 then
    s.modifyPort port fun p => { p with oen := p.oen &&& ~~~tmpOen.setWidth 32 }
  else
    s.modifyPort port fun p => p.writeBsrr (tmpBsrr.setWidth 32 <<< 16)

/-! ## 4. `mh_pin_write` and `mh_pin_mode` -/

def pinModeOutput : Word := 0x00
def pinModeInput : Word := 0x01
def pinModeInputPullup : Word := 0x02
def pinModeInputPulldown : Word := 0x03
def pinModeOutputOd : Word := 0x04

def mhPinWrite (s : Gpio) (pin value : Word) : Gpio :=
  if pinPort pin < pinStportMax then
    if value ≠ 0 then
      let s :=
        if pinPort pin = 0 ∧ pinNo pin = 10 then
          gpioPullUpCmd s (pinPort pin) (pinStpin pin) true
        else
          s
      gpioSetBits s (pinPort pin) (pinStpin pin)
    else
      let s :=
        if pinPort pin = 0 ∧ pinNo pin = 10 then
          gpioPullUpCmd s (pinPort pin) (pinStpin pin) false
        else
          s
      gpioResetBits s (pinPort pin) (pinStpin pin)
  else
    s

def mhPinMode (s : Gpio) (pin mode : Word) : Gpio :=
  if pinPort pin ≥ pinStportMax then
    s
  else
    let s :=
      if pinPort pin = 0 ∧ (pinNo pin = 8 ∨ pinNo pin = 9 ∨ pinNo pin = 10) then
        { s with pherCtrl := s.pherCtrl &&& ~~~((1 : Word) <<< 20) }
      else
        s
    if mode = pinModeOutput then
      gpioInit s (pinPort pin) (pinStpin pin) .outPp
    else if mode = pinModeInput then
      gpioInit s (pinPort pin) (pinStpin pin) .ipu
    else if mode = pinModeInputPullup then
      gpioInit (gpioPullUpCmd s (pinPort pin) (pinStpin pin) true) (pinPort pin) (pinStpin pin) .ipu
    else if mode = pinModeInputPulldown then
      gpioInit (gpioPullUpCmd s (pinPort pin) (pinStpin pin) false) (pinPort pin) (pinStpin pin) .ipu
    else if mode = pinModeOutputOd then
      gpioInit s (pinPort pin) (pinStpin pin) .outOd
    else
      gpioInit s (pinPort pin) (pinStpin pin) .outPp

end Mh1903
