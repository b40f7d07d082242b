/-
  File:      Mh1903/Model/Devices.lean
  Subject:   `device.c` (open and close of a device), and two devices under it: the clock of `rtc.c`
             and `board/drv_rtc.c`, and a serial port of `serial.c` and `board/drv_usart.c`.

  `RT_DEBUG` is set, so a failed `RT_ASSERT` halts the system: such a call is `none`.
-/
import Mh1903.Model.PinIrq

namespace Mh1903

/-! ## 1. `device.c` -/

def rtEio : Int := 8

def rtDeviceFlagRdwr : BitVec 16 := 0x003
def rtDeviceFlagStandalone : BitVec 16 := 0x008
def rtDeviceFlagActivated : BitVec 16 := 0x010
def rtDeviceFlagStream : BitVec 16 := 0x040
def rtDeviceFlagIntRx : BitVec 16 := 0x100
def rtDeviceFlagDmaRx : BitVec 16 := 0x200
def rtDeviceFlagIntTx : BitVec 16 := 0x400
def rtDeviceFlagDmaTx : BitVec 16 := 0x800
def rtDeviceOflagClose : BitVec 16 := 0x000
def rtDeviceOflagOpen : BitVec 16 := 0x008

/-- `struct rt_device`, and behind it the state of the device itself. -/
structure RtDevice (σ : Type) where
  flag : BitVec 16
  openFlag : BitVec 16
  refCount : BitVec 8
  driver : σ
  deriving DecidableEq

variable {σ : Type}

/-- A flag of the device. -/
def RtDevice.Has (dev : RtDevice σ) (f : BitVec 16) : Prop := dev.flag &&& f ≠ 0

/-- A flag the device was opened with. -/
def RtDevice.OpenedFor (dev : RtDevice σ) (f : BitVec 16) : Prop := dev.openFlag &&& f ≠ 0

instance (dev : RtDevice σ) (f : BitVec 16) : Decidable (dev.Has f) :=
  inferInstanceAs (Decidable (dev.flag &&& f ≠ 0))

instance (dev : RtDevice σ) (f : BitVec 16) : Decidable (dev.OpenedFor f) :=
  inferInstanceAs (Decidable (dev.openFlag &&& f ≠ 0))

/-- `struct rt_device_ops`, as far as opening and closing go. -/
structure RtDeviceOps (σ : Type) where
  init : RtDevice σ → Int × RtDevice σ
  opening : BitVec 16 → RtDevice σ → Option (Int × RtDevice σ)
  closing : RtDevice σ → Option (Int × RtDevice σ)

/-- A device as `rt_device_register` leaves it. -/
def RtDevice.register (flags : BitVec 16) (driver : σ) : RtDevice σ := ⟨flags, 0, 0, driver⟩

/-- The first statement of `rt_device_open`. -/
def rtDeviceActivate (ops : RtDeviceOps σ) (dev : RtDevice σ) : Int × RtDevice σ :=
  if ¬ dev.Has rtDeviceFlagActivated then
    let r := ops.init dev
    if r.1 ≠ rtEok then
      r
    else
      (rtEok, { r.2 with flag := r.2.flag ||| rtDeviceFlagActivated })
  else
    (rtEok, dev)

/-- The last statements of `rt_device_open`. -/
def rtDeviceCount (result : Int) (dev : RtDevice σ) : Option (Int × RtDevice σ) :=
  if result = rtEok ∨ result = -rtEnosys then
    let refCount := dev.refCount + 1
    if refCount ≠ 0 then
      some (result,
        { dev with openFlag := dev.openFlag ||| rtDeviceOflagOpen, refCount := refCount })
    else
      none
  else
    some (result, dev)

def rtDeviceOpen (ops : RtDeviceOps σ) (oflag : BitVec 16) (dev : RtDevice σ) :
    Option (Int × RtDevice σ) :=
  let active := rtDeviceActivate ops dev
  if active.1 ≠ rtEok then
    some active
  else if active.2.Has rtDeviceFlagStandalone ∧ active.2.OpenedFor rtDeviceOflagOpen then
    some (-rtEbusy, active.2)
  else do
    let opened ← ops.opening oflag active.2
    rtDeviceCount opened.1 opened.2

def rtDeviceClose (ops : RtDeviceOps σ) (dev : RtDevice σ) : Option (Int × RtDevice σ) :=
  if dev.refCount = 0 then
    some (-rtError, dev)
  else
    let dev := { dev with refCount := dev.refCount - 1 }
    if dev.refCount ≠ 0 then
      some (rtEok, dev)
    else do
      let closed ← ops.closing dev
      if closed.1 = rtEok ∨ closed.1 = -rtEnosys then
        some (closed.1, { closed.2 with openFlag := rtDeviceOflagClose })
      else
        some closed

section Open

variable {ops : RtDeviceOps σ} {dev : RtDevice σ} {oflag : BitVec 16}

theorem rtDeviceOpen_eq (hinit : (rtDeviceActivate ops dev).1 = rtEok)
    (hshared : ¬ (rtDeviceActivate ops dev).2.Has rtDeviceFlagStandalone) :
    rtDeviceOpen ops oflag dev =
      (ops.opening oflag (rtDeviceActivate ops dev).2).bind fun r => rtDeviceCount r.1 r.2 := by
  unfold rtDeviceOpen
  rw [if_neg (not_not.mpr hinit), if_neg fun h => hshared h.1]
  rfl

/-- An opened device counts one open more, and halts on more than it can count. -/
theorem rtDeviceCount_ok : rtDeviceCount rtEok dev =
    if dev.refCount = 255 then none
    else some (rtEok,
      { dev with openFlag := dev.openFlag ||| rtDeviceOflagOpen, refCount := dev.refCount + 1 }) := by
  have hwrap : dev.refCount + 1 ≠ 0 ↔ dev.refCount ≠ 255 := by bv_omega
  unfold rtDeviceCount
  rw [if_pos (.inl rfl)]
  by_cases href : dev.refCount = 255
  · rw [if_pos href, if_neg fun h => hwrap.mp h href]
  · rw [if_neg href, if_pos (hwrap.mpr href)]

theorem rtDeviceClose_count (href : dev.refCount ≠ 0) (hmore : dev.refCount - 1 ≠ 0) :
    rtDeviceClose ops dev = some (rtEok, { dev with refCount := dev.refCount - 1 }) := by
  unfold rtDeviceClose
  rw [if_neg href, if_pos hmore]

end Open

/-! ## 2. The clock -/

/-- `time_sec` and the counter of the RTC. -/
structure Rtc where
  timeSec : Word
  counter : Word
  deriving DecidableEq

def Rtc.resetCounter (rtc : Rtc) : Rtc := { rtc with counter := 0 }

/-- `mh_rtc_init`, as far as the time goes -/
def mhRtcInit (rtc : Rtc) : Rtc := rtc.resetCounter

def mhRtcGetSecs (rtc : Rtc) : Word := rtc.counter + rtc.timeSec

def mhRtcSetSecs (args : Word) (rtc : Rtc) : Rtc := { rtc with timeSec := args }.resetCounter

/-- `rtc_core_ops`: `rt_rtc_open` and `rt_rtc_close` do nothing. -/
def rtcCoreOps : RtDeviceOps Rtc where
  init dev := (rtEok, { dev with driver := mhRtcInit dev.driver })
  opening _ dev := some (rtEok, dev)
  closing dev := some (rtEok, dev)

/-- What the RTC counted before the power came stays in its counter. -/
def rtHwRtcInit (counter : Word) : RtDevice Rtc :=
  .register rtDeviceFlagRdwr ⟨1644891451, counter⟩

/-! ## 3. The registers of a uart -/

/-- `UART_TypeDef`, as far as the driver configures it -/
structure Uart where
  dll : Word
  dlh : Word
  ier : Word
  lcr : Word
  deriving DecidableEq

/-- `UART_IT_RX_RECVD` and `UART_IT_TX_EMPTY` -/
def uartItRxRecvd : Word := 0x01
def uartItTxEmpty : Word := 0x02

/-- `SYSCTRL_APBPeriphResetCmd` for this uart, and so `UART_DeInit` -/
def Uart.reset (_ : Uart) : Uart := ⟨0, 0, 0, 0⟩

/-- `UART_ITConfig` -/
def Uart.itConfig (it : Word) (newState : Bool) (uart : Uart) : Uart :=
  { uart with ier := if newState then uart.ier ||| it else uart.ier &&& ~~~it }

/-- `UART_Init` at a `PCLK_Frequency` -/
def Uart.init (pclk baudRate wordLength stopBits parity : Word) (uart : Uart) : Uart :=
  let tmpBaudRateDiv := (pclk / 16 + baudRate / 2) / baudRate
  { uart with
    dll := tmpBaudRateDiv &&& 0x00FF
    dlh := (tmpBaudRateDiv >>> 8) &&& 0x00FF
    lcr := wordLength ||| stopBits ||| parity }

/-! ## 4. `drv_usart.c` -/

/-- `struct serial_configure`, as far as `mh_configure` and `rt_serial_control` read it -/
structure SerialConfigure where
  baudRate : Word
  dataBits : BitVec 4
  stopBits : BitVec 2
  parity : BitVec 2
  bufsz : BitVec 16
  deriving DecidableEq

/-- `struct rt_serial_device` with its uart: which of `serial_rx` and `serial_tx` are allocated. -/
structure Serial where
  config : SerialConfigure
  serialRx : Bool
  serialTx : Bool
  pclk : Word
  uart : Uart
  deriving DecidableEq

/-- Receive and transmit: the framework treats them alike. -/
inductive Side where
  | rx
  | tx
  deriving DecidableEq

def Side.flag : Side → BitVec 16
  | .rx => rtDeviceFlagIntRx
  | .tx => rtDeviceFlagIntTx

/-- The interrupt `mh_control` picks for the flag. -/
def Side.it : Side → Word
  | .rx => uartItRxRecvd
  | .tx => uartItTxEmpty

def Serial.allocated (serial : Serial) : Side → Bool
  | .rx => serial.serialRx
  | .tx => serial.serialTx

def Serial.allocate (serial : Serial) (side : Side) (mem : Bool) : Serial :=
  match side with
  | .rx => { serial with serialRx := mem }
  | .tx => { serial with serialTx := mem }

def mhWordLength (dataBits : BitVec 4) : Word :=
  if dataBits = 5 then 0 else if dataBits = 6 then 1 else if dataBits = 7 then 2 else 3

def mhStopBits (stopBits : BitVec 2) : Word := if stopBits = 1 then 4 else 0

def mhParity (parity : BitVec 2) : Word :=
  if parity = 1 then 0x08 else if parity = 2 then 0x18 else 0

def mhConfigure (cfg : SerialConfigure) (serial : Serial) : Serial :=
  { serial with
    uart := serial.uart.reset.init serial.pclk cfg.baudRate (mhWordLength cfg.dataBits)
      (mhStopBits cfg.stopBits) (mhParity cfg.parity) }

/-- The commands `mh_control` knows. -/
inductive MhCtrl where
  | clrInt
  | setInt
  | close
  deriving DecidableEq

def mhControl (cmd : MhCtrl) (arg : BitVec 16) (serial : Serial) : Serial :=
  let uartIt := if arg = rtDeviceFlagIntRx then uartItRxRecvd else uartItTxEmpty
  match cmd with
  | .clrInt => { serial with uart := serial.uart.itConfig uartIt false }
  | .setInt => { serial with uart := serial.uart.itConfig uartIt true }
  | .close => { serial with uart := serial.uart.reset }

/-! ## 5. `serial.c`, built without `RT_SERIAL_USING_DMA` -/

def rtSerialInit (dev : RtDevice Serial) : Int × RtDevice Serial :=
  let serial := { dev.driver with serialRx := false, serialTx := false }
  (rtEok, { dev with driver := mhConfigure serial.config serial })

/-- The flag checks at the head of `rt_serial_open`. -/
def rtSerialAccepts (oflag : BitVec 16) (dev : RtDevice Serial) : Bool :=
  [rtDeviceFlagDmaRx, rtDeviceFlagDmaTx, rtDeviceFlagIntRx, rtDeviceFlagIntTx].all fun f =>
    oflag &&& f = 0 || dev.Has f

/-- One block of `rt_serial_open`: the structure of a direction, allocated where `mem` says that
    `rt_malloc` returns memory, and its interrupt. -/
def rtSerialOpenSide (side : Side) (mem : Bool) (oflag : BitVec 16) (dev : RtDevice Serial) :
    Option (RtDevice Serial) :=
  if oflag &&& side.flag = 0 then
    some dev
  else if dev.driver.allocated side then
    some { dev with openFlag := dev.openFlag ||| side.flag }
  else if mem then
    some { dev with
      openFlag := dev.openFlag ||| side.flag
      driver := mhControl .setInt side.flag (dev.driver.allocate side true) }
  else
    none

def rtSerialOpen (mem : Side → Bool) (oflag : BitVec 16) (dev : RtDevice Serial) :
    Option (Int × RtDevice Serial) :=
  if ¬ rtSerialAccepts oflag dev then
    some (-rtEio, dev)
  else do
    let streamFlag :=
      if oflag &&& rtDeviceFlagStream ≠ 0 ∨ dev.OpenedFor rtDeviceFlagStream then
        rtDeviceFlagStream
      else
        0
    let dev ← rtSerialOpenSide .rx (mem .rx) oflag { dev with openFlag := oflag &&& 0xff }
    let dev ← rtSerialOpenSide .tx (mem .tx) oflag dev
    some (rtEok, { dev with openFlag := dev.openFlag ||| streamFlag })

/-- One block of `rt_serial_close`. -/
def rtSerialCloseSide (side : Side) (dev : RtDevice Serial) : Option (RtDevice Serial) :=
  if ¬ dev.OpenedFor side.flag then
    some dev
  else if dev.driver.allocated side then
    some { dev with
      openFlag := dev.openFlag &&& ~~~side.flag
      driver := (mhControl .clrInt side.flag dev.driver).allocate side false }
  else
    none

def rtSerialClose (dev : RtDevice Serial) : Option (Int × RtDevice Serial) :=
  if dev.refCount > 1 then
    some (rtEok, dev)
  else do
    let dev ← rtSerialCloseSide .rx dev
    let dev ← rtSerialCloseSide .tx dev
    some (rtEok,
      { dev with
        flag := dev.flag &&& ~~~rtDeviceFlagActivated
        driver := mhControl .close 0 dev.driver })

/-- `serial_ops` -/
def serialOps (mem : Side → Bool) : RtDeviceOps Serial where
  init := rtSerialInit
  opening := rtSerialOpen mem
  closing := rtSerialClose

/-- `rt_serial_control` with `RT_DEVICE_CTRL_CONFIG` -/
def rtSerialConfig (config : SerialConfigure) (dev : RtDevice Serial) : Int × RtDevice Serial :=
  if config.bufsz ≠ dev.driver.config.bufsz ∧ dev.refCount ≠ 0 then
    (rtEbusy, dev)
  else
    let serial := { dev.driver with config := config }
    (rtEok,
      { dev with driver := if dev.refCount ≠ 0 then mhConfigure config serial else serial })

/-- A uart as `rt_hw_usart_init` registers it; its registers hold what they hold. -/
def rtHwUsartInit (pclk : Word) (uart : Uart) : RtDevice Serial :=
  .register (rtDeviceFlagRdwr ||| rtDeviceFlagIntRx ||| rtDeviceFlagIntTx)
    ⟨⟨115200, 8, 0, 0, .ofNat 16 rtSerialRbBufsz⟩, false, false, pclk, uart⟩

end Mh1903
