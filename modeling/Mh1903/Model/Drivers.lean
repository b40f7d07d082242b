/-
  File:      Mh1903/Model/Drivers.lean
  Subject:   `board/drv_wdt.c` (the watchdog), the delay of `board/board.c`, and `board/drv_pwm.c`
             with the `_pwm_write` of the framework.

  A register or an `rt_uint32_t` is a `Word`, with the arithmetic of C on it.
-/
import Mh1903.Model.DrvFlash

namespace Mh1903

/-- `rt_uint32_t`, a register. -/
abbrev Word := BitVec 32

def rtEok : Int := 0

/-- `RT_SERIAL_RB_BUFSZ` of the bootloader. -/
def rtSerialRbBufsz : Nat := 2048

/-! ## 1. `drv_wdt.c` -/

/-- `mh_wdt.timeout` and the registers the driver writes. -/
structure WdtState where
  timeout : Word
  wdtCr : Word
  wdtCrr : Word
  wdtRld : Word
  deriving DecidableEq

/-- The commands of `wdt_control`, with what `arg` points to where it is read. -/
inductive WdtCmd where
  | keepalive
  | setTimeout (arg : Word)
  | getTimeout
  | start
  | unsupported
  deriving DecidableEq

def counterReloadKey : Word := 0x76
def wdtCrWdtEn : Word := 0x0001
def wdtCrRmod : Word := 0x0002

def wdtSetReload (s : WdtState) (reload : Word) : WdtState := { s with wdtRld := reload }

def wdtReloadCounter (s : WdtState) : WdtState := { s with wdtCrr := counterReloadKey }

/-- `WDT_ModeConfig(WDT_Mode_CPUReset)` -/
def wdtModeCpuReset (s : WdtState) : WdtState := { s with wdtCr := s.wdtCr &&& ~~~wdtCrRmod }

def wdtEnable (s : WdtState) : WdtState := { s with wdtCr := s.wdtCr ||| wdtCrWdtEn }

/-- `wdt_control` with `SYSCTRL->PCLK_1MS_VAL`: its result, what it put at `arg`, and the state. -/
def wdtControl (pclk1msVal : Word) (s : WdtState) : WdtCmd → Int × Option Word × WdtState
  | .keepalive => (rtEok, none, wdtReloadCounter s)
  | .setTimeout arg =>
      let s := { s with timeout := arg }
      if s.timeout * pclk1msVal * 1000 > 0xFFFFFFFF then
        (-rtEinval, none, s)
      else
        (rtEok, none, wdtSetReload s (pclk1msVal * s.timeout * 1000))
  | .getTimeout => (rtEok, some s.timeout, s)
  | .start => (rtEok, none, wdtEnable (wdtModeCpuReset s))
  | .unsupported => (-rtError, none, s)

/-! ## 2. `rt_hw_us_delay` -/

/-- `RT_TICK_PER_SECOND` -/
def rtTickPerSecond : Word := 1000

/-- What `tcnt` becomes when `tnow` is read behind another value `told`. -/
def usDelayCount (reload told tnow tcnt : Word) : Word :=
  if tnow < told then tcnt + (told - tnow) else tcnt + (reload - tnow + told)

/-- The loop over the values `tnow` gets from `SysTick->VAL`: the number of the one it breaks
    at. -/
def usDelayLoop (reload ticks : Word) : Word → Word → List Word → Option Nat
  | _, _, [] => none
  | told, tcnt, tnow :: vals =>
      if tnow ≠ told then
        let tcnt := usDelayCount reload told tnow tcnt
        if tcnt ≥ ticks then some 0 else (usDelayLoop reload ticks tnow tcnt vals).map (· + 1)
      else
        (usDelayLoop reload ticks told tcnt vals).map (· + 1)

/-- `rt_hw_us_delay` with `SysTick->LOAD`; `told` is the first value of `SysTick->VAL` it reads. -/
def rtHwUsDelay (reload us told : Word) (vals : List Word) : Option Nat :=
  usDelayLoop reload (us * reload / (1000000 / rtTickPerSecond)) told 0 vals

/-! ## 3. `drv_pwm.c` -/

def minPeriod : Word := 3
def minPulse : Word := 2
/-- `UINT32_MAX` -/
def maxPeriod : Word := 0xFFFFFFFF

/-- `struct rt_pwm_configuration`: what the driver reads and fills, in ns. -/
structure PwmConfiguration where
  period : Word
  pulse : Word
  deriving DecidableEq

/-- The `TIM_PWMInitTypeDef` of a channel and the registers of its timer. -/
structure PwmState where
  timHighLevelPeriod : Word
  timLowLevelPeriod : Word
  loadCount : Word
  timReloadCount : Word
  deriving DecidableEq

def timSetPWMPeriod (s : PwmState) (lowLevelPeriod highLevelPeriod : Word) : PwmState :=
  { s with loadCount := lowLevelPeriod, timReloadCount := highLevelPeriod }

/-- `drv_pwm_get` with `PCLK_Frequency`; `none` where it divides by zero. -/
def drvPwmGet (pclkFrequency : Word) (s : PwmState) : Option (Int × PwmConfiguration) :=
  let timClock : BitVec 64 := pclkFrequency.setWidth 64 / 1000000
  if timClock = 0 then
    none
  else
    some (rtEok, {
      period := (((s.timHighLevelPeriod + s.timLowLevelPeriod + 1) * 1000).setWidth 64 /
        timClock).setWidth 32
      pulse := (((s.timHighLevelPeriod + 1) * 1000).setWidth 64 / timClock).setWidth 32 })

/-- `(unsigned long long)ns * tim_clock / 1000ULL` as an `rt_uint32_t` -/
def pwmTicks (ns : Word) (timClock : BitVec 64) : Word :=
  (ns.setWidth 64 * timClock / 1000).setWidth 32

/-- `drv_pwm_set`; `none` where it divides by zero (the log line of the refusal does, too, where
    the clock stands still). -/
def drvPwmSet (pclkFrequency : Word) (s : PwmState) (configuration : PwmConfiguration) :
    Option (Int × PwmState) :=
  let timClock : BitVec 64 := pclkFrequency.setWidth 64
  if configuration.period = 0 then
    none
  else if timClock < 1000000000 / configuration.period.setWidth 64 then
    if timClock = 0 then none else some (rtEinval, s)
  else
    let timClock := timClock / 1000000
    let period := pwmTicks configuration.period timClock
    let period := if period < minPeriod then minPeriod else period
    let period := if period > maxPeriod then maxPeriod else period
    let pulse := pwmTicks configuration.pulse timClock
    let pulse := if pulse < minPulse then minPulse else if pulse > period then period else pulse
    let s := { s with timHighLevelPeriod := pulse - 1, timLowLevelPeriod := period - pulse - 1 }
    some (rtEok, timSetPWMPeriod s s.timLowLevelPeriod s.timHighLevelPeriod)

/-- `_pwm_write` of `rt_drv_pwm.c`: the size it returns, zero on an error. -/
def pwmWrite (pclkFrequency : Word) (s : PwmState) (pulse : Word) (size : Nat) :
    Option (Nat × PwmState) := do
  let (result, configuration) ← drvPwmGet pclkFrequency s
  if result ≠ rtEok then
    return (0, s)
  let (result, s) ← drvPwmSet pclkFrequency s { configuration with pulse := pulse }
  if result ≠ rtEok then
    return (0, s)
  return (size, s)

end Mh1903
