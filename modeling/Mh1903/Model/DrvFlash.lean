/-
  File:      Mh1903/Model/DrvFlash.lean
  Subject:   `board/drv_flash.c`: read, page-wise write with read-back, sector-wise erase.

  The cache is not modelled: the driver cleans it before each read-back.
-/
import Mh1903.Model.Machine

namespace Mh1903

open Library

/-! ## 1. Constants of `board.h`, `fal_cfg.h` and `mhscpu_qspi.h` -/

def mhFlashStartAdress : Nat := 0x01000000
def mhFlashSize : Nat := 4096 * 1024
def mhFlashEndAddress : Nat := mhFlashStartAdress + mhFlashSize
def mhFlashGranularity : Nat := 4 * 1024
def x25qPageSize : Nat := 0x100

def rtError : Int := 1
def rtEinval : Int := 10

/-! ## 2. Primitives -/

/-- `size` bytes of the memory-mapped flash from `addr`. -/
def readFlash (flash : Flash) (addr size : Nat) : List Byte :=
  (List.range size).map fun i => flash (u32 (addr + i))

@[simp] theorem length_readFlash (flash : Flash) (addr size : Nat) :
    (readFlash flash addr size).length = size := by simp [readFlash]

@[simp] theorem readFlash_zero (flash : Flash) (addr : Nat) : readFlash flash addr 0 = [] := rfl

/-- `FLASH_EraseSector`, true for `QSPI_STATUS_OK`. -/
def flashEraseSector (env : Env) (sectorAddress : Nat) : M Bool :=
  flashOp env (.eraseSector sectorAddress) fun n f => env.rom.eraseSector n sectorAddress f

/-- `FLASH_ProgramPage`, true for `QSPI_STATUS_OK`. -/
def flashProgramPage (env : Env) (addr size : Nat) (buffer : List Byte) : M Bool :=
  flashOp env (.programPage addr size) fun n f => env.rom.programPage n addr (buffer.take size) f

/-- `data_check`: true where the two areas are equal. -/
def dataCheck (src dst : List Byte) : Bool := src == dst

/-- `erase_check`: true where `pagNum` pages from `addr` are erased. -/
def eraseCheck (flash : Flash) (addr pagNum : Nat) : Bool :=
  (List.range pagNum).all fun i =>
    dataCheck (List.replicate x25qPageSize 0xff)
      (readFlash flash (u32 (addr + i * x25qPageSize)) x25qPageSize)

/-! ## 3. The driver -/

/-- `mh_flash_read`: `none` is the error, otherwise the bytes read (as many as it returns). -/
def mhFlashRead (flash : Flash) (addr size : Nat) : Option (List Byte) :=
  if u32 (addr + size) > mhFlashEndAddress then none else some (readFlash flash addr size)

/-- How much the loop of `mh_flash_write` programs next: the three branches differ in this
    only. -/
def mhFlashWriteLen (addr size writtenSize : Nat) : Nat :=
  let addrMod := u32 (addr + writtenSize) % x25qPageSize
  let numPages := (size - writtenSize) / x25qPageSize
  let numRest := (size - writtenSize) % x25qPageSize
  if addrMod = 0 then
    if numPages > 0 then x25qPageSize else numRest
  else
    x25qPageSize - addrMod

/-- One pass of the loop: copy to `write_buf`, program, read back. False leaves the loop with
    `result = -RT_ERROR`. -/
def mhFlashWriteStep (env : Env) (addr : Nat) (buf : List Byte) (writtenSize len : Nat) :
    M Bool := do
  let writeBuf ← load env buf writtenSize len
  let ok ← flashProgramPage env (u32 (addr + writtenSize)) len writeBuf
  if ok then
    let w ← get
    pure (dataCheck writeBuf (readFlash w.flash (u32 (addr + writtenSize)) len))
  else
    pure false

/-- The loop of `mh_flash_write`. -/
def mhFlashWriteLoop (env : Env) (addr : Nat) (buf : List Byte) (size : Nat) : Nat → Nat → M Int
  | 0, _ => throw .outOfFuel
  | fuel + 1, writtenSize =>
      if writtenSize < size then do
        let len := mhFlashWriteLen addr size writtenSize
        let ok ← mhFlashWriteStep env addr buf writtenSize len
        if ok then
          mhFlashWriteLoop env addr buf size fuel (writtenSize + len)
        else
          pure (-rtError)
      else
        pure (i32 size)

def mhFlashWrite (env : Env) (addr : Nat) (buf : List Byte) (size : Nat) : M Int :=
  if addr % 4 ≠ 0 then
    pure (-rtEinval)
  else if u32 (addr + size) > mhFlashEndAddress then
    pure (-rtEinval)
  else if size < 1 then
    pure (-rtEinval)
  else
    mhFlashWriteLoop env addr buf size (size + 1) 0

/-- The loop of `mh_flash_erase` with `n` sectors to go. -/
def mhFlashEraseLoop (env : Env) (size : Nat) : Nat → Nat → M Int
  | 0, _ => pure (i32 size)
  | n + 1, sector => do
      let ok ← flashEraseSector env sector
      if ok then
        let w ← get
        if eraseCheck w.flash sector 16 then
          mhFlashEraseLoop env size n (u32 (sector + mhFlashGranularity))
        else
          pure (-rtError)
      else
        pure (-rtError)

def mhFlashErase (env : Env) (addr size : Nat) : M Int :=
  if u32 (addr + size) > mhFlashEndAddress then
    pure (-rtEinval)
  else if size < 1 then
    pure (-rtEinval)
  else
    let sector := addr - addr % mhFlashGranularity
    let sectorNum := u32 (size + (mhFlashGranularity - 1)) / mhFlashGranularity
    mhFlashEraseLoop env size sectorNum sector

end Mh1903
