/-
  File:      Mh1903/Model/Verify.lean
  Subject:   `rt_fota.c`, first part: boot verification, image verification, version check and
             version copy.

  Log lines are left out, except where they read a field through the partition pointer: the last
  line of `rt_fota_part_fw_verify` does so on every path (the build sets `RT_FOTA_DEBUG`).
-/
import Mh1903.Model.Crc
import Mh1903.Model.Fal

namespace Mh1903

open RtFotaPartHead

/-! ## 1. `rt_fota.h` and the constants of `rt_fota.c` -/

def rtFotaNoErr : Int := 0
def rtFotaGeneralErr : Int := -1
def rtFotaCheckFailed : Int := -2
def rtFotaCopyFailed : Int := -4
def rtFotaFwVerifyFailed : Int := -5
def rtFotaNoMemErr : Int := -6
def rtFotaPartReadErr : Int := -7
def rtFotaPartWriteErr : Int := -8
def rtFotaPartEraseErr : Int := -9

/-- `sizeof(rt_fota_part_head)` -/
def sizeofPartHead : Nat := 96
def rtFotaCrcBuffSize : Nat := 4096
def rtFotaCrcInitVal : BitVec 32 := 0xffffffff
def theNorFlashGranularity : Nat := 4096

def rtFotaAppPartName : List Byte := appPart.name
def rtFotaFmPartName : List Byte := downloadPart.name
def rtFotaDfPartName : List Byte := cStr ['d', 'f', '_', 'a', 'r', 'e', 'a']

/-! ## 2. Boot verification -/

def setFotaPartHead (h : RtFotaPartHead) : M Unit := modify fun w => { w with fotaPartHead := h }

/-- `rt_fota_boot_verify`; `fal_init` succeeds when a partition table is left. -/
def rtFotaBootVerify (env : Env) : M Int := do
  setFotaPartHead zero
  if env.partitionTable.length > 0 then
    pure rtFotaNoErr
  else
    pure rtFotaGeneralErr

/-! ## 3. Image verification -/

/-- The body loop of `rt_fota_part_fw_verify`: the running CRC after the body, `none` on a read
    error. Each pass asks for a whole buffer. -/
def verifyBodyCrc (flash : Flash) (part : FalPartition) (comSize : Nat) :
    Nat → Nat → BitVec 32 → Option (BitVec 32)
  | 0, _, _ => none
  | fuel + 1, bodyPos, bodyCrc =>
      if bodyPos < comSize then
        match falPartitionRead flash part (u32 (sizeofPartHead + bodyPos)) rtFotaCrcBuffSize with
        | none => none
        | some bodyBuf =>
            let bodyReadLen :=
              if bodyPos + bodyBuf.length > comSize then comSize - bodyPos else bodyBuf.length
            verifyBodyCrc flash part comSize fuel (bodyPos + bodyReadLen)
              (rtFotaStepCrc bodyCrc (bodyBuf.take bodyReadLen))
      else
        some bodyCrc

/-- `rt_fota_part_fw_verify` up to its label: the error code, the pointer `part` (`none` for null
    and for uninitialised) and the local `part_head`. -/
def rtFotaPartFwVerifyBody (env : Env) (partName : Option (List Byte)) :
    M (Int × Option FalPartition × RtFotaPartHead) := do
  match partName with
  | none => pure (rtFotaGeneralErr, none, zero)
  | some name =>
    match falPartitionFind env name with
    | none => pure (rtFotaGeneralErr, none, zero)
    | some part => do
      let w ← get
      match falPartitionRead w.flash part 0 sizeofPartHead with
      | none => pure (rtFotaPartReadErr, some part, zero)
      | some bs =>
        let partHead := ofBytes bs
        if (rtFotaCrc (partHead.bytes.take (sizeofPartHead - 4))).toNat ≠ partHead.headCrc then
          pure (rtFotaFwVerifyFailed, some part, partHead)
        else if rtStrcmp partHead.type (cStr ['R', 'B', 'L'] ++ [0]) ≠ 0 then
          pure (rtFotaCheckFailed, some part, partHead)
        else if falPartitionFind env partHead.appPartName = none then
          pure (rtFotaFwVerifyFailed, some part, partHead)
        else do
          let bodyBuf ← rtMalloc env rtFotaCrcBuffSize
          match bodyBuf with
          | none => pure (rtFotaNoMemErr, some part, partHead)
          | some _ =>
            match verifyBodyCrc w.flash part partHead.comSize
                (partHead.comSize / rtFotaCrcBuffSize + 2) 0 rtFotaCrcInitVal with
            | none => pure (rtFotaPartReadErr, some part, partHead)
            | some bodyCrc =>
              if (bodyCrc ^^^ rtFotaCrcInitVal).toNat ≠ partHead.codeCrc then
                pure (rtFotaFwVerifyFailed, some part, partHead)
              else
                pure (rtFotaNoErr, some part, partHead)

/-- Reading a field through `part`. -/
def readThrough (part : Option FalPartition) : M Unit :=
  match part with
  | none => fault .nullPointer
  | some _ => pure ()

def rtFotaPartFwVerify (env : Env) (partName : Option (List Byte)) : M Int := do
  let (fotaRes, part, partHead) ← rtFotaPartFwVerifyBody env partName
  if fotaRes = rtFotaNoErr then
    setFotaPartHead partHead
  else
    setFotaPartHead zero
  readThrough part
  pure fotaRes

/-! ## 4. Version check and version copy -/

def rtFotaCheckUpgrade (env : Env) : M Int := do
  let w ← get
  if rtStrcmp (w.fotaPartHead.downloadVersion ++ env.afterHead)
      (w.fotaPartHead.currentVersion ++ env.afterHead) ≠ 0 then
    pure 1
  else
    pure 0

/-- Four bytes, little-endian. -/
def bytesLe32 (v : BitVec 32) : List Byte :=
  [v.setWidth 8, (v >>> 8).setWidth 8, (v >>> 16).setWidth 8, (v >>> 24).setWidth 8]

/-- The edit `rt_fota_copy_version` makes in its copy of the first sector: `current_version` and
    `head_crc`. -/
def copyVersionEdit (cacheBuf : List Byte) : List Byte :=
  let cacheBuf := Library.overwrite cacheBuf 52 ((cacheBuf.drop 28).take 24)
  Library.overwrite cacheBuf 92 (bytesLe32 (rtFotaCrc (cacheBuf.take (sizeofPartHead - 4))))

def rtFotaCopyVersion (env : Env) (partName : List Byte) : M Int := withExit do
  match falPartitionFind env partName with
  | none => exit rtFotaFwVerifyFailed
  | some part => do
    let cacheBuf ← rtMalloc env theNorFlashGranularity
    match cacheBuf with
    | none => exit rtFotaNoMemErr
    | some _ => do
      let w ← get
      match falPartitionRead w.flash part 0 theNorFlashGranularity with
      | none => exit rtFotaPartReadErr
      | some bs => do
        let cacheBuf := copyVersionEdit bs
        let ret ← falPartitionErase env part 0 theNorFlashGranularity
        if ret < 0 then
          exit rtFotaPartEraseErr
        let ret ← falPartitionWrite env part 0 cacheBuf theNorFlashGranularity
        if ret < 0 then
          exit rtFotaPartWriteErr
        pure rtFotaNoErr

end Mh1903
