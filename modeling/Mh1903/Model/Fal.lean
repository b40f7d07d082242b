/-
  File:      Mh1903/Model/Fal.lean
  Subject:   The flash abstraction layer `packages/fal-v0.5.0`: partition table, lookup by name,
             bounds check, access through the one flash device of the board.
-/
import Mh1903.Model.DrvFlash

namespace Mh1903

/-! ## 1. The board's tables -/

/-- The bytes of a C string literal, without the terminator. -/
def cStr (cs : List Char) : List Byte := cs.map fun c => BitVec.ofNat 8 c.toNat

/-- The name of `mh_onchip_flash`. -/
def onchipFlash : List Byte := cStr ['o', 'n', 'c', 'h', 'i', 'p', '_', 'f', 'l', 'a', 's', 'h']

/-- One line of `FAL_PART_TABLE`: offset and size in units of `MH_FLASH_GRANULARITY`. -/
def falPart (name : List Char) (offset size : Nat) : FalPartition :=
  ⟨cStr name, onchipFlash, offset * mhFlashGranularity, size * mhFlashGranularity⟩

def headerPart : FalPartition := falPart ['h', 'e', 'a', 'd', 'e', 'r'] 0 1
def bootPart : FalPartition := falPart ['b', 'o', 'o', 't'] 1 22
def paramPart : FalPartition := falPart ['p', 'a', 'r', 'a', 'm'] 23 1
def appPart : FalPartition := falPart ['a', 'p', 'p'] 24 360
def fontPart : FalPartition := falPart ['f', 'o', 'n', 't'] 384 128
def downloadPart : FalPartition := falPart ['d', 'o', 'w', 'n', 'l', 'o', 'a', 'd'] 512 360
def fsPart : FalPartition := falPart ['f', 's'] 872 152

/-- `FAL_PART_TABLE` -/
def falPartTable : List FalPartition :=
  [headerPart, bootPart, paramPart, appPart, fontPart, downloadPart, fsPart]

/-! ## 2. Initialisation and lookup -/

/-- `fal_flash_device_find`: the device table holds `mh_onchip_flash` only. -/
def falFlashDeviceFind (name : List Byte) : Bool := name == onchipFlash

/-- `fal_partition_init`: the table in force afterwards, empty when an offset lies behind its
    device. -/
def falPartitionInit (table : List FalPartition) : List FalPartition :=
  if table.all fun p => !falFlashDeviceFind p.flashName || p.offset < mhFlashSize then
    table
  else
    []

/-- The partition table after `fal_init`. -/
def Env.partitionTable (env : Env) : List FalPartition := falPartitionInit env.partitionTableDef

/-- `fal_partition_find(name)` -/
def falPartitionFind (env : Env) (name : List Byte) : Option FalPartition :=
  env.partitionTable.find? fun p => rtStrcmp name (p.name ++ [0]) == 0

/-! ## 3. Access -/

/-- The flash address of byte `addr` of the partition. -/
def FalPartition.address (part : FalPartition) (addr : Nat) : Nat :=
  u32 (mhFlashStartAdress + u32 (part.offset + addr))

/-- `fal_partition_read`: `none` is the error, otherwise the bytes read. -/
def falPartitionRead (flash : Flash) (part : FalPartition) (addr size : Nat) :
    Option (List Byte) :=
  if u32 (addr + size) > part.len then
    none
  else if falFlashDeviceFind part.flashName then
    mhFlashRead flash (part.address addr) size
  else
    none

/-- The checks of `fal_partition_write` and `fal_partition_erase` in front of the device call. -/
def falPartitionAccess (part : FalPartition) (addr size : Nat) (op : M Int) : M Int :=
  if u32 (addr + size) > part.len then
    pure (-1)
  else if falFlashDeviceFind part.flashName then
    op
  else
    pure (-1)

def falPartitionWrite (env : Env) (part : FalPartition) (addr : Nat) (buf : List Byte)
    (size : Nat) : M Int :=
  falPartitionAccess part addr size (mhFlashWrite env (part.address addr) buf size)

def falPartitionErase (env : Env) (part : FalPartition) (addr size : Nat) : M Int :=
  falPartitionAccess part addr size (mhFlashErase env (part.address addr) size)

end Mh1903
