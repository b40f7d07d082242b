/-
  File:      Mh1903/Model/Crc.lean
  Subject:   `rt_fota_crc.c`: the table and the table-driven CRC.
-/
import Mh1903.Model.Machine

namespace Mh1903

/-- `bitrev(poly, width)` -/
def bitrev (poly : BitVec 32) (width : Nat) : BitVec 32 :=
  ((List.range width).foldl (fun (p : BitVec 32 × BitVec 32) i =>
    (p.1 >>> 1, if p.1 &&& 1 ≠ 0 then p.2 ||| (1 <<< (width - 1 - i)) else p.2)) (poly, 0)).2

/-- The inner loop of `crc32_init`: `n` more shifts of one table entry. -/
def crc32InitShift (poly : BitVec 32) : Nat → BitVec 32 → BitVec 32
  | 0, c => c
  | n + 1, c =>
      crc32InitShift poly n (if c &&& 1 ≠ 0 then poly ^^^ (c >>> 1) else c >>> 1)

/-- `crc32_init(poly)`: the table it leaves in `crc_tab`. -/
def crc32Init (poly : BitVec 32) (i : Byte) : BitVec 32 :=
  crc32InitShift (bitrev poly 32) 8 (i.setWidth 32)

def polynomial : BitVec 32 := 0x04c11db7

/-- `crc_tab` after `rt_fota_crc_init`. -/
def crcTab : Byte → BitVec 32 := crc32Init polynomial

/-- The body of the loop of `crc32`. -/
def crc32Byte (crc : BitVec 32) (b : Byte) : BitVec 32 :=
  (crc >>> 8) ^^^ crcTab ((crc ^^^ b.setWidth 32).setWidth 8)

def crc32 (crcInit : BitVec 32) (buf : List Byte) : BitVec 32 := buf.foldl crc32Byte crcInit

def rtFotaCrc (buf : List Byte) : BitVec 32 := crc32 0xffffffff buf ^^^ 0xffffffff

def rtFotaStepCrc (crc : BitVec 32) (buf : List Byte) : BitVec 32 := crc32 crc buf

@[simp] theorem rtFotaStepCrc_nil (crc : BitVec 32) : rtFotaStepCrc crc [] = crc := rfl

/-- Feeding the pieces one after the other is feeding the whole. -/
theorem rtFotaStepCrc_append (crc : BitVec 32) (a b : List Byte) :
    rtFotaStepCrc (rtFotaStepCrc crc a) b = rtFotaStepCrc crc (a ++ b) :=
  List.foldl_append.symm

/-- The check value of CRC-32: the CRC of the nine digits. -/
example : rtFotaCrc [0x31, 0x32, 0x33, 0x34, 0x35, 0x36, 0x37, 0x38, 0x39] = 0xcbf43926 := by
  decide +kernel

end Mh1903
