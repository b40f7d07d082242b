/-
  File:      Mh1903/Model/Boot.lean
  Subject:   `rt_fota.c`, third part: the launch of the application and the boot thread.

  The build defines neither `RT_USING_FINSH` nor a default key, so the thread goes straight to
  the download partition.
-/
import Mh1903.Model.Upgrade

namespace Mh1903

/-! ## 1. Launching the application -/

def mhSramStart : Nat := 0x20000000
def mhSramSize : Nat := 1024 * 1024
def mhSramEnd : Nat := mhSramStart + mhSramSize

/-- The word at a flash address. -/
def flashWord (flash : Flash) (addr : Nat) : Nat := le32 (readFlash flash addr 4) 0

/-- The mask of the stack check: `MH_SRAM_START + (~(MH_SRAM_SIZE - 1) & 0x0fffffff)`. -/
def stackMask : Nat := mhSramStart + ((4294967295 - (mhSramSize - 1)) &&& 0x0fffffff)

/-- How a call of `rt_fota_start_application` ends. -/
inductive Launch where
  | jumped (stack entry : Nat)
  | returned (err : Int)
  deriving DecidableEq

def rtFotaStartApplication (env : Env) : M Launch := do
  match falPartitionFind env rtFotaAppPartName with
  | none => pure (.returned rtFotaGeneralErr)
  | some part => do
    let w ← get
    let appAddr := u32 (part.offset + mhFlashStartAdress)
    let entry := flashWord w.flash (appAddr + 4)
    let stack := flashWord w.flash appAddr
    if entry < appAddr ∨ entry > u32 (appAddr + part.len) then
      pure (.returned rtFotaGeneralErr)
    else if stack &&& stackMask ≠ mhSramStart then
      pure (.returned rtFotaGeneralErr)
    else
      pure (.jumped stack entry)

/-! ## 2. Interrupts and system state -/

/-- What the launch changes in the processor: `PRIMASK`, the interrupt controller, the system
    timer and the main stack pointer. -/
structure Cpu where
  primask : Bool
  nvicEnabled : Nat → Bool
  nvicPending : Nat → Bool
  sysTickCtrl : Nat
  sysTickLoad : Nat
  sysTickVal : Nat
  msp : Nat

/-- `for (irq = first; irq <= last; irq++)`, with `NVIC_DisableIRQ` and `NVIC_ClearPendingIRQ`. -/
def Cpu.disableIrqs (first last : Nat) (cpu : Cpu) : Cpu :=
  { cpu with
    nvicEnabled := fun irq => cpu.nvicEnabled irq && !(first ≤ irq && irq ≤ last)
    nvicPending := fun irq => cpu.nvicPending irq && !(first ≤ irq && irq ≤ last) }

/-- `IRQn_Type`: the interrupts the launch names. -/
def dmaIrqn : Nat := 0
def spi2Irqn : Nat := 27
def sci2Irqn : Nat := 29
def uart2Irqn : Nat := 32
def uart3Irqn : Nat := 33
def qspiIrqn : Nat := 35
def tim07Irqn : Nat := 40
def dcmiIrqn : Nat := 42
def qrIrqn : Nat := 46
def gpuIrqn : Nat := 47
def awdIrqn : Nat := 49
def spi5Irqn : Nat := 51

/-- The statements between the checks of `rt_fota_start_application` and the jump. -/
def Cpu.launch (stack : Nat) (cpu : Cpu) : Cpu :=
  let cpu := { cpu with primask := true }
  let cpu := cpu.disableIrqs dmaIrqn spi2Irqn
  let cpu := cpu.disableIrqs sci2Irqn sci2Irqn
  let cpu := cpu.disableIrqs uart2Irqn uart3Irqn
  let cpu := cpu.disableIrqs qspiIrqn tim07Irqn
  let cpu := cpu.disableIrqs dcmiIrqn dcmiIrqn
  let cpu := cpu.disableIrqs qrIrqn gpuIrqn
  let cpu := cpu.disableIrqs awdIrqn spi5Irqn
  { cpu with sysTickCtrl := 0, sysTickLoad := 0, sysTickVal := 0, msp := stack }

/-- `rt_fota_start_application` with the processor it runs on. -/
def rtFotaStartApplicationOn (env : Env) (cpu : Cpu) : M (Launch × Cpu) := do
  match falPartitionFind env rtFotaAppPartName with
  | none => pure (.returned rtFotaGeneralErr, cpu)
  | some part => do
    let w ← get
    let appAddr := u32 (part.offset + mhFlashStartAdress)
    let entry := flashWord w.flash (appAddr + 4)
    let stack := flashWord w.flash appAddr
    if entry < appAddr ∨ entry > u32 (appAddr + part.len) then
      pure (.returned rtFotaGeneralErr, cpu)
    else if stack &&& stackMask ≠ mhSramStart then
      pure (.returned rtFotaGeneralErr, cpu)
    else
      pure (.jumped stack entry, cpu.launch stack)

/-- The processor does not change how the call ends. -/
theorem rtFotaStartApplicationOn_fst (env : Env) (cpu : Cpu) :
    Prod.fst <$> rtFotaStartApplicationOn env cpu = rtFotaStartApplication env := by
  funext w
  unfold rtFotaStartApplicationOn rtFotaStartApplication
  cases falPartitionFind env rtFotaAppPartName with
  | none => rfl
  | some part =>
      simp only [map_bind]
      rw [Library.get_bind, Library.get_bind]
      split
      · rfl
      · split
        · rfl
        · rfl

/-! ## 3. The boot thread -/

/-- What the calls on the download partition returned; `none` where a call was not made. -/
structure DownloadRun where
  verify : Int
  upgrade : Option Int
  copyVersion : Option Int
  deriving DecidableEq

/-- `rt_fota_thread_entry` from the verification of the download partition to the label
    `__exit_boot_entry`. -/
def downloadEntry (env : Env) : M DownloadRun := do
  let fotaErr ← rtFotaPartFwVerify env (some rtFotaFmPartName)
  if fotaErr ≠ rtFotaNoErr then
    pure ⟨fotaErr, none, none⟩
  else do
    let isUpgrade ← rtFotaCheckUpgrade env
    if isUpgrade ≤ 0 then
      pure ⟨fotaErr, none, none⟩
    else do
      let upgradeErr ← rtFotaUpgrade env (some rtFotaFmPartName)
      if upgradeErr ≠ rtFotaNoErr then
        pure ⟨fotaErr, some upgradeErr, none⟩
      else do
        let copyErr ← rtFotaCopyVersion env rtFotaFmPartName
        pure ⟨fotaErr, some upgradeErr, some copyErr⟩

/-- `rt_fota_thread_entry` up to the first call of `rt_fota_start_application`. -/
def bootToLaunch (env : Env) : M DownloadRun := do
  let _ ← rtFotaBootVerify env
  downloadEntry env

/-- The default partition, tried when the application was not launched. -/
def defaultEntry (env : Env) : M (Option Launch) := do
  let fotaErr ← rtFotaPartFwVerify env (some rtFotaDfPartName)
  if fotaErr = rtFotaNoErr then
    let upgradeErr ← rtFotaUpgrade env (some rtFotaDfPartName)
    if upgradeErr = rtFotaNoErr then
      let l ← rtFotaStartApplication env
      pure (some l)
    else
      pure none
  else
    pure none

/-- `rt_fota_thread_entry`: how the launch ended that it tried last, `none` where it comes to its
    last line without having tried one on the default partition. -/
def rtFotaThreadEntry (env : Env) : M (Option Launch) := do
  let _ ← bootToLaunch env
  let l ← rtFotaStartApplication env
  match l with
  | .jumped _ _ => pure (some l)
  | .returned _ => defaultEntry env

end Mh1903
