/-
  File:      Mh1903/Frame/Good.lean
  Subject:   RUNS ON A GOOD FLASH, EXACTLY. With a good chip and lasting power an erase returns its
             size and leaves 0xff, so the target of an upgrade is erased before anything else can
             go wrong.
-/
import Mh1903.Frame.Board
import Mh1903.Frame.ReadBack

namespace Mh1903

open Library

/-- A good flash and power that lasts. -/
structure Env.Good (env : Env) : Prop where
  rom : env.rom = norRom
  powered : ∀ n, env.powered n = true

theorem Env.board_good : Env.board.Good := ⟨rfl, fun _ => rfl⟩

/-- Erases succeed, whatever programs do. -/
structure Env.Erases (env : Env) : Prop where
  rom : ∀ n s f, env.rom.eraseSector n s f = (true, norErase s f)
  powered : ∀ n, env.powered n = true

theorem Env.Good.erases {env : Env} (h : env.Good) : env.Erases where
  rom _ _ _ := by rw [h.rom]; rfl
  powered := h.powered

variable {env : Env} {w : World}

/-- `w` after an executed operation. -/
def World.did (w : World) (op : FlashOp) (flash : Flash) : World :=
  { w with flash := flash, ops := op :: w.ops }

theorem flashEraseSector_good (h : env.Erases) (s : Nat) :
    flashEraseSector env s w = .ok true (w.did (.eraseSector s) (norErase s w.flash)) := by
  unfold flashEraseSector flashOp
  rw [get_bind, if_pos (h.powered _)]
  simp only [h.rom]
  rfl

/-! ## 1. Erasing -/

/-- `n` sectors from `sector` on read 0xff. -/
def eraseRange (sector n : Nat) (f : Flash) : Flash := fun a =>
  if sector ≤ a ∧ a < sector + n * 4096 then 0xff else f a

/-- The operations that erase them, latest first. -/
def eraseOps : Nat → Nat → List FlashOp
  | _, 0 => []
  | sector, n + 1 => eraseOps (sector + 4096) n ++ [.eraseSector sector]

theorem eraseRange_zero (sector : Nat) (f : Flash) : eraseRange sector 0 f = f := by
  funext a
  unfold eraseRange
  rw [if_neg (by omega)]

theorem eraseRange_succ {sector n : Nat} (hs : sector % 4096 = 0) (f : Flash) :
    eraseRange (sector + 4096) n (norErase sector f) = eraseRange sector (n + 1) f := by
  funext a
  unfold eraseRange
  rw [norErase_apply]
  by_cases h₁ : sector + 4096 ≤ a ∧ a < sector + 4096 + n * 4096
  · rw [if_pos h₁, if_pos (by omega)]
  · rw [if_neg h₁]
    by_cases h₂ : a / 4096 = sector / 4096
    · rw [if_pos h₂, if_pos (by omega)]
    · rw [if_neg h₂, if_neg (by omega)]

/-- An area that reads 0xff passes `erase_check`. -/
theorem eraseCheck_of_erased {f : Flash} {addr n : Nat} (h32 : addr + n * 256 ≤ 4294967296)
    (h : ∀ a, addr ≤ a → a < addr + n * 256 → f a = 0xff) : eraseCheck f addr n = true := by
  refine List.all_eq_true.mpr fun i hi => ?_
  have hi := List.mem_range.mp hi
  have heq : readFlash f (u32 (addr + i * x25qPageSize)) x25qPageSize =
      List.replicate x25qPageSize 0xff := by
    refine List.eq_replicate_iff.mpr ⟨length_readFlash _ _ _, fun b hb => ?_⟩
    obtain ⟨j, hj, rfl⟩ := List.mem_map.mp hb
    have hj := List.mem_range.mp hj
    simp only [x25qPageSize] at hj ⊢
    have hij : i * 256 + 256 ≤ n * 256 := by omega
    have hpage : u32 (addr + i * 256) = addr + i * 256 := u32_eq (by omega)
    rw [hpage, u32_eq (by omega)]
    exact h _ (by omega) (by omega)
  unfold dataCheck
  rw [heq]
  exact beq_self_eq_true _

/-- The erase loop on a good flash. -/
theorem mhFlashEraseLoop_good (h : env.Erases) (size : Nat) {n sector : Nat}
    (hs : sector % 4096 = 0) (hr : sector + n * 4096 ≤ 0x01400000) :
    mhFlashEraseLoop env size n sector w = .ok (i32 size)
      { w with flash := eraseRange sector n w.flash, ops := eraseOps sector n ++ w.ops } := by
  induction n generalizing sector w with
  | zero => rw [eraseRange_zero]; rfl
  | succ n ih =>
      have hr' : sector + 4096 + n * 4096 ≤ 0x01400000 := by
        rw [Nat.add_assoc, Nat.add_comm 4096, ← Nat.succ_mul]; exact hr
      have hsec : sector + 4096 ≤ 0x01400000 := Nat.le_trans (Nat.le_add_right _ _) hr'
      have hcheck : eraseCheck (norErase sector w.flash) sector 16 = true := by
        clear hr hr'
        refine eraseCheck_of_erased (by omega) fun a h₁ h₂ => ?_
        rw [norErase_apply, if_pos (by omega)]
      have hnext : u32 (sector + mhFlashGranularity) = sector + 4096 :=
        u32_eq (by clear hr hr'; simp only [mhFlashGranularity]; omega)
      unfold mhFlashEraseLoop
      rw [bind_ok (flashEraseSector_good h sector), if_pos rfl, get_bind]
      simp only [World.did, hcheck, if_true, hnext]
      rw [ih (by omega) hr']
      simp only [eraseRange_succ hs, eraseOps, List.append_assoc, List.singleton_append]

/-- Sectors that `size` bytes reach into. -/
def sectors (size : Nat) : Nat := (size + 4095) / 4096

/-- Erasing the front of a partition is the erase loop on its sectors. -/
theorem falPartitionErase_eq (env : Env) {part : FalPartition} (hp : part.Ok) {size : Nat}
    (h1 : 1 ≤ size) (hsize : size ≤ part.len) :
    falPartitionErase env part 0 size = mhFlashEraseLoop env size (sectors size) part.base := by
  have hbase := hp.base_lt
  have hmod := hp.base_mod
  unfold falPartitionErase falPartitionAccess mhFlashErase
  rw [Nat.zero_add, u32_eq (by omega), if_neg (by omega), if_pos hp.device,
    hp.address_eq (Nat.zero_le _), Nat.add_zero, u32_eq (by omega), if_neg, if_neg (by omega)]
  · have hn : u32 (size + (mhFlashGranularity - 1)) / mhFlashGranularity = sectors size := by
      rw [u32_eq (by simp only [mhFlashGranularity]; omega)]
      rfl
    have hsec : part.base - part.base % mhFlashGranularity = part.base := by
      simp only [mhFlashGranularity]; omega
    simp only [hn, hsec]
  · simp only [mhFlashEndAddress, mhFlashStartAdress, mhFlashSize]
    omega

/-- Erasing the front of a partition on a good flash. -/
theorem falPartitionErase_good (h : env.Erases) {p : FalPartition} (hp : p.Ok) {size : Nat}
    (h1 : 1 ≤ size) (hsize : size ≤ p.len) :
    falPartitionErase env p 0 size w = .ok (size : Int)
      { w with
        flash := eraseRange p.base (sectors size) w.flash
        ops := eraseOps p.base (sectors size) ++ w.ops } := by
  have hbase := hp.base_lt
  have hmod := hp.base_mod
  have hlen := hp.len
  rw [falPartitionErase_eq env hp h1 hsize,
    mhFlashEraseLoop_good h size hmod (by unfold sectors; omega), i32_eq (by omega)]

/-! ## 2. Writing -/

/-- From `w` to `w'` only flash operations were executed, and the flash is now `flash`. -/
structure Writes (w w' : World) (flash : Flash) : Prop where
  flash : w'.flash = flash
  head : w'.fotaPartHead = w.fotaPartHead
  allocs : w'.allocs = w.allocs
  faults : w'.faults = w.faults

/-- One piece on a good and erased flash. -/
theorem mhFlashWriteStep_good (h : env.Good) {addr written len : Nat} {buf : List Byte}
    (h32 : addr + written + len < 4294967296) (hbuf : written + len ≤ buf.length)
    (hpage : (addr + written) % 256 + len ≤ 256)
    (herased : ∀ i < len, w.flash (addr + written + i) = 0xff) :
    ∃ w', mhFlashWriteStep env addr buf written len w = .ok true w' ∧
      Writes w w' (flashWith (addr + written) ((buf.drop written).take len) w.flash) ∧
      w'.ops.length = w.ops.length + 1 := by
  have hlen : ((buf.drop written).take len).length = len := by
    rw [List.length_take, List.length_drop]; omega
  have hload : load env buf written len w = .ok ((buf.drop written).take len) w := by
    unfold load
    rw [if_neg (by omega), slice_eq _ hbuf]
    rfl
  have hu : u32 (addr + written) = addr + written := u32_eq (by omega)
  have hprog : flashProgramPage env (addr + written) len ((buf.drop written).take len) w =
      .ok true (w.did (.programPage (addr + written) len)
        (flashWith (addr + written) ((buf.drop written).take len) w.flash)) := by
    unfold flashProgramPage flashOp
    rw [get_bind, if_pos (h.powered _), h.rom]
    simp only [norRom]
    rw [List.take_of_length_le hlen.le,
      norProgram_erased (by rw [hlen]; exact hpage) (by rw [hlen]; exact herased)]
    rfl
  refine ⟨w.did (.programPage (addr + written) len)
    (flashWith (addr + written) ((buf.drop written).take len) w.flash), ?_, ⟨rfl, rfl, rfl, rfl⟩, rfl⟩
  unfold mhFlashWriteStep
  rw [bind_ok hload, hu, bind_ok hprog, if_pos rfl, get_bind]
  have hback := @readFlash_flashWith (addr + written) ((buf.drop written).take len) w.flash
    (by rw [hlen]; omega)
  rw [hlen] at hback
  simp only [World.did, hback, dataCheck, beq_self_eq_true]
  rfl

/-- The write loop on a good flash, from a page border on. -/
theorem mhFlashWriteLoop_good (h : env.Good) {addr size written fuel : Nat} {buf : List Byte}
    (h32 : addr + size < 4294967296) (hbuf : size ≤ buf.length)
    (hal : (addr + written) % 256 = 0 ∨ written = size) (hle : written ≤ size)
    (hfuel : size + 1 ≤ written + fuel)
    (herased : ∀ i, written ≤ i → i < size → w.flash (addr + i) = 0xff) :
    ∃ w', mhFlashWriteLoop env addr buf size fuel written w = .ok (i32 size) w' ∧
      Writes w w' (flashWith (addr + written) ((buf.drop written).take (size - written)) w.flash) := by
  induction fuel generalizing written w with
  | zero => omega
  | succ fuel ih =>
      unfold mhFlashWriteLoop
      by_cases hlt : written < size
      · rw [if_pos hlt]
        obtain ⟨hpos, hpage, -⟩ :=
          @mhFlashWriteLen_spec addr size written hlt
        have hmod : (addr + written) % 256 = 0 := hal.resolve_right (by omega)
        have hend : written + mhFlashWriteLen addr size written ≤ size ∧
            ((addr + (written + mhFlashWriteLen addr size written)) % 256 = 0 ∨
              written + mhFlashWriteLen addr size written = size) := by
          rw [mhFlashWriteLen_eq, u32_eq (by omega), if_pos hmod]
          split <;> omega
        generalize mhFlashWriteLen addr size written = len at hpos hpage hend
        obtain ⟨w₁, hstep, hw₁, -⟩ := @mhFlashWriteStep_good env w h addr
          written len buf (by omega) (by omega) hpage fun i hi => by
            rw [Nat.add_assoc]; exact herased _ (by omega) (by omega)
        have hlen : ((buf.drop written).take len).length = len := by
          rw [List.length_take, List.length_drop]; omega
        obtain ⟨w₂, hrest, hw₂⟩ := @ih w₁ (written + len) hend.2 hend.1
          (by omega) fun i hi hs => by
            rw [hw₁.flash, flashWith_outside (by rw [hlen]; omega)]
            exact herased i (by omega) hs
        rw [bind_ok hstep]
        simp only [if_true]
        refine ⟨w₂, hrest, ?_, hw₂.head.trans hw₁.head, hw₂.allocs.trans hw₁.allocs,
          hw₂.faults.trans hw₁.faults⟩
        have hadd : addr + (written + len) = addr + written + ((buf.drop written).take len).length := by
          rw [hlen, Nat.add_assoc]
        have hdata : (buf.drop written).take len ++
            (buf.drop (written + len)).take (size - (written + len)) =
            (buf.drop written).take (size - written) := by
          rw [← List.drop_drop, ← List.take_add]
          congr 1
          omega
        rw [hw₂.flash, hw₁.flash, hadd, flashWith_append, hdata]
      · have hsize : size - written = 0 := by omega
        rw [if_neg hlt]
        exact ⟨w, rfl, by rw [hsize, List.take_zero, flashWith_nil], rfl, rfl, rfl⟩

/-- Where an aligned write inside a partition goes. -/
theorem falPartitionWrite_eq {p : FalPartition} (hp : p.Ok) {pos m : Nat}
    (hal : pos % 4 = 0) (h1 : 1 ≤ m) (hin : pos + m ≤ p.len) (buf : List Byte) :
    falPartitionWrite env p pos buf m = mhFlashWriteLoop env (p.base + pos) buf m (m + 1) 0 := by
  have hbase := hp.base_lt
  have hmod := hp.base_mod
  unfold falPartitionWrite falPartitionAccess mhFlashWrite
  rw [u32_eq (by omega), if_neg (by omega), if_pos hp.device, hp.address_eq (by omega),
    if_neg (by omega), u32_eq (by omega), if_neg, if_neg (by omega)]
  simp only [mhFlashEndAddress, mhFlashStartAdress, mhFlashSize]
  omega

/-- Writing an aligned range of a partition on a good and erased flash. -/
theorem falPartitionWrite_good (h : env.Good) {p : FalPartition} (hp : p.Ok) {addr size : Nat}
    {buf : List Byte} (hal : addr % 256 = 0) (h1 : 1 ≤ size) (hin : addr + size ≤ p.len)
    (hbuf : size ≤ buf.length)
    (herased : ∀ i < size, w.flash (p.base + addr + i) = 0xff) :
    ∃ w', falPartitionWrite env p addr buf size w = .ok (size : Int) w' ∧
      Writes w w' (flashWith (p.base + addr) (buf.take size) w.flash) := by
  have hbase := hp.base_lt
  have hmod := hp.base_mod
  obtain ⟨w', hrun, hw'⟩ := @mhFlashWriteLoop_good env w h (p.base + addr) size
    0 (size + 1) buf (by omega) hbuf (.inl (by omega))
    (Nat.zero_le _) (by omega) fun i _ hi => herased i hi
  refine ⟨w', ?_, hw'⟩
  unfold falPartitionWrite falPartitionAccess mhFlashWrite
  rw [u32_eq (by omega), if_neg (by omega), if_pos hp.device, hp.address_eq (by omega),
    if_neg (by omega), u32_eq (by omega), if_neg, if_neg (by omega), hrun, i32_eq (by omega)]
  simp only [mhFlashEndAddress, mhFlashStartAdress, mhFlashSize]
  omega

/-! ## 3. The target -/

/-- `w` with the target of an upgrade erased for `size` bytes. -/
def World.erased (w : World) (t : FalPartition) (size : Nat) : World :=
  { w with
    flash := eraseRange t.base (sectors size) w.flash
    ops := eraseOps t.base (sectors size) ++ w.ops }

theorem rtFotaEraseAppPart_good (h : env.Erases) {t : FalPartition} (ht : t.Ok)
    (hfind : falPartitionFind env w.fotaPartHead.appPartName = some t)
    (h1 : 1 ≤ w.fotaPartHead.rawSize) (hsize : w.fotaPartHead.rawSize ≤ t.len) :
    rtFotaEraseAppPart env w = .ok rtFotaNoErr (w.erased t w.fotaPartHead.rawSize) := by
  refine withExit_ok ?_
  rw [get_bind]
  simp only [hfind]
  rw [bind_ok (falPartitionErase_good h ht h1 hsize), if_neg (by omega)]
  rfl

/-- **The buffer for the chunks is asked for after the erase**: where that allocation fails, the
    upgrade ends with the target erased. -/
theorem rtFotaUpgrade_noMem (h : env.Good) {t : FalPartition} (ht : t.Ok)
    (hfind : falPartitionFind env w.fotaPartHead.appPartName = some t)
    (h1 : 1 ≤ w.fotaPartHead.rawSize) (hsize : w.fotaPartHead.rawSize ≤ t.len)
    {partName : Option (List Byte)} {part : FalPartition}
    (hpart : partName.bind (falPartitionFind env) = some part)
    (hmem : env.mallocOk w.allocs = false) :
    rtFotaUpgrade env partName w =
      .ok rtFotaNoMemErr { w.erased t w.fotaPartHead.rawSize with allocs := w.allocs + 1 } := by
  refine withExit_exit (bind_error ?_)
  unfold upgradeSetup
  simp only [hpart]
  rw [bind_ok (rtFotaEraseAppPart_good h.erases ht hfind h1 hsize), if_neg (not_not.mpr rfl), get_bind]
  refine bind_ok (a := none) ?_
  unfold rtMalloc
  rw [get_bind, modify_bind, if_neg (by rw [World.erased, hmem]; exact Bool.false_ne_true)]
  rfl

end Mh1903
