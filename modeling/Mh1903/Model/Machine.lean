/-
  File:      Mh1903/Model/Machine.lean
  Subject:   THE MACHINE THE BOOTLOADER RUNS ON: what it reads and changes (`World`), what it
             does not control (`Env`), and its programs (`M`).

  * Addresses and sizes are `Nat`; 32-bit sums are reduced by `u32`, a `size_t` returned as an
    `int` is read by `i32`.
  * A buffer is the list of its bytes; a null pointer is the empty buffer. A read past the end of
    a buffer (`load`) is recorded in `faults` and finds the bytes of `Env.memory`; a write past
    the end (`store`) is recorded and stops the run (`Stop.crash`), since what it destroys is not
    known.
  * The mask ROM behind `FLASH_EraseSector` and `FLASH_ProgramPage` is not part of the
    repository: it is the parameter `Rom`. The same holds for the outcome of each allocation, the
    two decompressors, the AES block function and the moment the power fails.
  * `goto __exit_…` with an error code is `exit`, the label is `withExit`.
-/
import Mh1903.Library.Run
import Mh1903.Library.Bytes

namespace Mh1903

open Library

abbrev Byte := BitVec 8

/-- What the flash holds, by address. -/
abbrev Flash := Nat → Byte

/-! ## 1. Machine words -/

/-- The value of an unsigned 32-bit expression. -/
def u32 (n : Nat) : Nat := n % 4294967296

/-- `a - b` on `uint32_t`. -/
def sub32 (a b : Nat) : Nat := u32 (a + 4294967296 - b)

/-- A `size_t` returned as an `int`. -/
def i32 (n : Nat) : Int := if u32 n < 2147483648 then u32 n else (u32 n : Int) - 4294967296

theorem u32_eq {n : Nat} (h : n < 4294967296) : u32 n = n := Nat.mod_eq_of_lt h

theorem i32_eq {n : Nat} (h : n < 2147483648) : i32 n = n := by
  unfold i32; rw [u32_eq (by omega), if_pos h]

theorem u32_lt (n : Nat) : u32 n < 4294967296 := Nat.mod_lt _ (by decide)

-- Unfolding a 32-bit remainder on the way to a definitional equality does not end.
attribute [irreducible] u32

/-! ## 2. The image header -/

/-- `rt_fota_part_head`: 96 bytes, read through its fields and as bytes. -/
structure RtFotaPartHead where
  bytes : List Byte
  length_bytes : bytes.length = 96
  deriving DecidableEq

/-- Two bytes from `off`, little-endian. -/
def le16 (bs : List Byte) (off : Nat) : Nat :=
  (bs.getD off 0).toNat + 256 * (bs.getD (off + 1) 0).toNat

/-- Four bytes from `off`, little-endian. -/
def le32 (bs : List Byte) (off : Nat) : Nat := le16 bs off + 65536 * le16 bs (off + 2)

theorem le32_lt (bs : List Byte) (off : Nat) : le32 bs off < 4294967296 := by
  have h0 := (bs.getD off 0).isLt
  have h1 := (bs.getD (off + 1) 0).isLt
  have h2 := (bs.getD (off + 2) 0).isLt
  have h3 := (bs.getD (off + 2 + 1) 0).isLt
  simp only [le32, le16]
  omega

namespace RtFotaPartHead

/-- `rt_memset(&head, 0x0, sizeof(head))`. -/
def zero : RtFotaPartHead := ⟨List.replicate 96 0, List.length_replicate⟩

/-- The structure filled by a read of `sizeof(rt_fota_part_head)` bytes. -/
def ofBytes (bs : List Byte) : RtFotaPartHead :=
  ⟨(bs ++ List.replicate 96 0).take 96, by simp⟩

theorem bytes_ofBytes {bs : List Byte} (h : bs.length = 96) : (ofBytes bs).bytes = bs := by
  simp [ofBytes, ← h]

/-- `type`: the memory from the field on, as a string function sees it. -/
def type (h : RtFotaPartHead) : List Byte := h.bytes
def fotaAlgo (h : RtFotaPartHead) : Nat := le16 h.bytes 4
/-- `app_part_name`, likewise with the fields that follow it. -/
def appPartName (h : RtFotaPartHead) : List Byte := h.bytes.drop 12
def downloadVersion (h : RtFotaPartHead) : List Byte := h.bytes.drop 28
def currentVersion (h : RtFotaPartHead) : List Byte := h.bytes.drop 52
def codeCrc (h : RtFotaPartHead) : Nat := le32 h.bytes 76
def rawSize (h : RtFotaPartHead) : Nat := le32 h.bytes 84
def comSize (h : RtFotaPartHead) : Nat := le32 h.bytes 88
def headCrc (h : RtFotaPartHead) : Nat := le32 h.bytes 92

theorem rawSize_lt (h : RtFotaPartHead) : h.rawSize < 4294967296 := le32_lt _ _

end RtFotaPartHead

/-! ## 3. World, environment, programs -/

/-- `struct fal_partition`; the names are the strings the two `char[24]` hold. -/
structure FalPartition where
  name : List Byte
  flashName : List Byte
  offset : Nat
  len : Nat
  deriving DecidableEq

/-- One executed flash operation. -/
inductive FlashOp where
  | eraseSector (sectorAddress : Nat)
  | programPage (addr size : Nat)
  deriving DecidableEq

/-- An access the C program must not make. -/
inductive MemFault where
  | outOfBounds
  | nullPointer
  deriving DecidableEq

/-- A successful `rt_fota_read_part`: its `read_pos`, the bytes it read and those it delivered. -/
structure PartRead where
  readPos : Nat
  encrypted : List Byte
  decrypted : List Byte
  deriving DecidableEq

structure World where
  flash : Flash
  /-- the global `fota_part_head` -/
  fotaPartHead : RtFotaPartHead
  /-- allocations asked for in this boot -/
  allocs : Nat
  /-- flash operations executed in this boot, latest first -/
  ops : List FlashOp
  faults : List MemFault
  /-- chunks of a body read in this boot, latest first -/
  reads : List PartRead

/-- After a reset. -/
def World.powerOn (flash : Flash) : World := ⟨flash, .zero, 0, [], [], []⟩

@[simp] theorem World.powerOn_flash (flash : Flash) : (World.powerOn flash).flash = flash := rfl
/-- Why a run ends before its last statement. -/
inductive Stop where
  | exit (err : Int)
  | crash
  | powerLoss
  | outOfFuel
  deriving DecidableEq

/-- Programs of the bootloader. -/
abbrev M := EStateM Stop World

/-- What a decompressor leaves: the bytes it put into the output buffer, the size it returned, which
    is zero on an error and the number of bytes put otherwise, and how far into its input it read. -/
structure Decompressed where
  written : List Byte
  size : Nat
  readTo : Nat
  size_eq : size = 0 ∨ size = written.length

/-- The mask ROM: status `QSPI_STATUS_OK` and new flash content of a sector erase and of a page
    program. The first argument is the number of flash operations executed before. -/
structure Rom where
  eraseSector : Nat → Nat → Flash → Bool × Flash
  programPage : Nat → Nat → List Byte → Flash → Bool × Flash

structure Env where
  /-- `partition_table_def` -/
  partitionTableDef : List FalPartition
  rom : Rom
  /-- the power lasts for flash operation number `n` -/
  powered : Nat → Bool
  /-- allocation number `n` returns memory -/
  mallocOk : Nat → Bool
  /-- what lies outside the buffers -/
  memory : Nat → Byte
  /-- what follows `fota_part_head` in RAM (and then a zero) -/
  afterHead : List Byte
  /-- `fastlz_decompress(input, length, output, maxout)` -/
  fastlzDecompress : List Byte → Nat → Nat → Decompressed
  /-- `qlz_decompress(source, destination, state)` -/
  qlzDecompress : List Byte → Decompressed
  /-- `tiny_aes_crypt_ecb` in mode `AES_DECRYPT` under the configured key -/
  tinyAesCryptEcb : List Byte → Fin 16 → Byte

/-! ## 4. Statements -/

/-- `fota_err = err; goto __exit_…;` -/
def exit {α : Type} (err : Int) : M α := throw (.exit err)

/-- The label `__exit_…` at the end of a function: the error code becomes the result. -/
def withExit (body : M Int) : M Int := fun w =>
  match body w with
  | .error (.exit err) w' => .ok err w'
  | r => r

theorem withExit_ok {body : M Int} {w w' : World} {r : Int} (h : body w = .ok r w') :
    withExit body w = .ok r w' := by unfold withExit; rw [h]

theorem withExit_exit {body : M Int} {w w' : World} {err : Int}
    (h : body w = .error (.exit err) w') : withExit body w = .ok err w' := by
  unfold withExit; rw [h]

/-- A result no `goto` can carry is returned by the body. -/
theorem withExit_eq_ok {body : M Int} {w w' : World} {r : Int} (h : withExit body w = .ok r w')
    (hs : Stops body (· ≠ .exit r)) : body w = .ok r w' := by
  unfold withExit at h
  cases hb : body w with
  | ok a w₁ => rw [hb] at h; exact h
  | error e w₁ =>
      rw [hb] at h
      cases e with
      | exit err =>
          cases h
          exact absurd rfl (hs w _ _ hb)
      | crash => cases h
      | powerLoss => cases h
      | outOfFuel => cases h

theorem leads_withExit {body : M Int} {w : World} {Q : Int → World → Prop}
    {E : Stop → World → Prop}
    (h : Leads body w Q fun e w' => (∀ err, e = .exit err → Q err w') ∧ E e w') :
    Leads (withExit body) w Q E := by
  cases hb : body w with
  | ok r w' => exact leads_of_ok (by unfold withExit; rw [hb]) (h.ok hb)
  | error e w' =>
      have he := h.error hb
      cases e with
      | exit err => exact leads_of_ok (by unfold withExit; rw [hb]) (he.1 err rfl)
      | crash => exact leads_of_error (by unfold withExit; rw [hb]) he.2
      | powerLoss => exact leads_of_error (by unfold withExit; rw [hb]) he.2
      | outOfFuel => exact leads_of_error (by unfold withExit; rw [hb]) he.2

theorem keeps_withExit {R : World → World → Prop} {body : M Int} (h : Keeps R body) :
    Keeps R (withExit body) := by
  refine keeps_of_leads fun w => leads_withExit ?_
  exact (h.at (returns_any body) w).leads.mono (fun _ _ h => h.1) fun _ _ h => ⟨fun _ _ => h, h⟩

theorem keepsAt_withExit {R : World → World → Prop} {body : M Int} {w : World} {P : Int → Prop}
    (h : KeepsAt R body w P) (hexit : ∀ err w', body w = .error (.exit err) w' → P err) :
    KeepsAt R (withExit body) w P := by
  refine leads_withExit ?_
  cases hb : body w with
  | ok r w' => exact leads_of_ok hb (h.ok hb)
  | error e w' =>
      refine leads_of_error hb ⟨fun err he => ⟨h.error hb, ?_⟩, h.error hb⟩
      exact hexit err w' (by rw [hb, he])

def fault (f : MemFault) : M Unit := modify fun w => { w with faults := f :: w.faults }

/-- Records a chunk; the program does not see the record. -/
def logRead (r : PartRead) : M Unit := modify fun w => { w with reads := r :: w.reads }

/-- Reads `n` bytes of `buf` from `off`. -/
def load (env : Env) (buf : List Byte) (off n : Nat) : M (List Byte) := do
  if buf.length < off + n then
    fault .outOfBounds
  pure (slice env.memory buf off n)

/-- Writes `data` into `buf` at `off`. -/
def store (buf : List Byte) (off : Nat) (data : List Byte) : M (List Byte) := do
  if buf.length < off + data.length then
    fault .outOfBounds
    throw .crash
  pure (overwrite buf off data)

/-- `rt_memcpy(&dst[dstOff], &src[srcOff], count)` -/
def rtMemcpy (env : Env) (dst : List Byte) (dstOff : Nat) (src : List Byte) (srcOff count : Nat) :
    M (List Byte) := do
  let data ← load env src srcOff count
  store dst dstOff data

/-- `rt_memset(s, c, count)` -/
def rtMemset (s : List Byte) (c : Byte) (count : Nat) : M (List Byte) :=
  store s 0 (List.replicate count c)

/-- `rt_malloc(size)`: the new memory holds what it holds. -/
def rtMalloc (env : Env) (size : Nat) : M (Option (List Byte)) := do
  let w ← get
  modify fun w => { w with allocs := w.allocs + 1 }
  if env.mallocOk w.allocs then
    pure (some ((List.range size).map env.memory))
  else
    pure none

/-- One flash operation, unless the power fails before it. -/
def flashOp (env : Env) (op : FlashOp) (run : Nat → Flash → Bool × Flash) : M Bool := do
  let w ← get
  if env.powered w.ops.length then
    let r := run w.ops.length w.flash
    modify fun w => { w with flash := r.2, ops := op :: w.ops }
    pure r.1
  else
    throw .powerLoss

/-- `strcmp`; behind the end of a list the memory reads as zero. -/
def rtStrcmp : List Byte → List Byte → Int
  | c :: cs, d :: ds => if c ≠ 0 ∧ c = d then rtStrcmp cs ds else (c.toNat : Int) - d.toNat
  | c :: _, [] => c.toNat
  | [], d :: _ => -(d.toNat : Int)
  | [], [] => 0

end Mh1903
