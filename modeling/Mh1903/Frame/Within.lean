/-
  File:      Mh1903/Frame/Within.lean
  Subject:   WHERE FLASH OPERATIONS LAND. The driver and the FAL keep to the addresses they are
             given, rounded to pages and sectors; on a partition cut at sectors they keep to the
             partition.

  * `Rom.Confined` -- the mask ROM changes only the sector it erases and the page it programs;
  * `Within env S w w'` -- every flash operation between `w` and `w'` has its sector or page in
    `S`, and then, under a confined ROM, so has every changed byte;
  * `FalPartition.Ok` -- cut at sectors, inside the device.
-/
import Mh1903.Frame.Quiet

namespace Mh1903

open Library

/-! ## 1. The area of an operation -/

/-- The addresses whose content an operation may change: the sector, the page. -/
def FlashOp.area : FlashOp → Nat → Prop
  | .eraseSector s, a => a / mhFlashGranularity = s / mhFlashGranularity
  | .programPage addr _, a => a / x25qPageSize = addr / x25qPageSize

/-- The mask ROM changes nothing outside the sector or page it is called for, whatever status it
    returns. -/
structure Rom.Confined (rom : Rom) : Prop where
  eraseSector : ∀ n s f a, a / mhFlashGranularity ≠ s / mhFlashGranularity →
    (rom.eraseSector n s f).2 a = f a
  programPage : ∀ n addr data f a, a / x25qPageSize ≠ addr / x25qPageSize →
    (rom.programPage n addr data f).2 a = f a

/-- From `w` to `w'` the header stays and flash operations keep to `S`. -/
structure Within (env : Env) (S : Nat → Prop) (w w' : World) : Prop where
  head : w'.fotaPartHead = w.fotaPartHead
  ops : ∃ new, w'.ops = new ++ w.ops ∧ ∀ op ∈ new, ∀ a, op.area a → S a
  flash : env.rom.Confined → ∀ a, ¬ S a → w'.flash a = w.flash a

variable {env : Env} {S S' : Nat → Prop}

theorem Quiet.within {w w' : World} (h : Quiet w w') : Within env S w w' :=
  ⟨h.head, ⟨[], h.ops, by simp⟩, fun _ a _ => by rw [h.flash]⟩

instance : Std.Refl (Within env S) := ⟨fun w => (Std.Refl.refl (r := Quiet) w).within⟩

instance : IsTrans World (Within env S) := by
  refine ⟨fun _ _ _ h₁ h₂ => ⟨h₂.head.trans h₁.head, ?_, fun hc a ha => ?_⟩⟩
  · obtain ⟨n₁, e₁, h₁⟩ := h₁.ops
    obtain ⟨n₂, e₂, h₂⟩ := h₂.ops
    refine ⟨n₂ ++ n₁, by rw [e₂, e₁, List.append_assoc], fun op hop => ?_⟩
    rcases List.mem_append.mp hop with h | h
    · exact h₂ op h
    · exact h₁ op h
  · rw [h₂.flash hc a ha, h₁.flash hc a ha]

theorem Within.mono {w w' : World} (h : Within env S w w') (hS : ∀ a, S a → S' a) :
    Within env S' w w' := by
  obtain ⟨new, e, hn⟩ := h.ops
  exact ⟨h.head, ⟨new, e, fun op hop a ha => hS a (hn op hop a ha)⟩,
    fun hc a ha => h.flash hc a fun hs => ha (hS a hs)⟩

theorem keeps_within_of_quiet {α : Type} {x : M α} (h : Keeps Quiet x) :
    Keeps (Within env S) x := fun w => (h w).within

/-! ## 2. The driver -/

theorem flashOp_within {op : FlashOp} {run : Nat → Flash → Bool × Flash}
    (hS : ∀ a, op.area a → S a)
    (hrun : env.rom.Confined → ∀ n f a, ¬ op.area a → (run n f).2 a = f a) :
    Keeps (Within env S) (flashOp env op run) := by
  refine keeps_of_leads fun w => ?_
  unfold flashOp
  rw [leads_bind, leads_get, leads_ite]
  refine ⟨fun _ => ?_, fun _ => leads_throw.mpr (Std.Refl.refl w)⟩
  rw [leads_bind, leads_modify, leads_pure]
  refine ⟨rfl, ⟨[op], rfl, ?_⟩, fun hc a ha => hrun hc _ _ a fun h => ha (hS a h)⟩
  intro o ho
  rw [List.mem_singleton.mp ho]
  exact hS

theorem flashEraseSector_within {s : Nat}
    (hS : ∀ a, a / mhFlashGranularity = s / mhFlashGranularity → S a) :
    Keeps (Within env S) (flashEraseSector env s) :=
  flashOp_within hS fun hc n f a ha => hc.eraseSector n s f a ha

theorem flashProgramPage_within {addr size : Nat} {buffer : List Byte}
    (hS : ∀ a, a / x25qPageSize = addr / x25qPageSize → S a) :
    Keeps (Within env S) (flashProgramPage env addr size buffer) :=
  flashOp_within hS fun hc n f a ha => hc.programPage n addr _ f a ha

theorem mhFlashWriteStep_within {addr written len : Nat} {buf : List Byte}
    (hS : ∀ a, a / x25qPageSize = u32 (addr + written) / x25qPageSize → S a) :
    Keeps (Within env S) (mhFlashWriteStep env addr buf written len) := by
  refine keeps_bind (keeps_within_of_quiet (load_quiet _ _ _ _)) fun wb =>
    keeps_bind (flashProgramPage_within hS) fun ok => keeps_ite ?_ (keeps_pure _)
  exact keeps_bind keeps_get fun _ => keeps_pure _

/-- The write loop from `written` on keeps to the pages of what is still to be written. -/
theorem mhFlashWriteLoop_within {addr size written : Nat} {buf : List Byte}
    (hS : ∀ i, written ≤ i → i < size →
      ∀ a, a / x25qPageSize = u32 (addr + i) / x25qPageSize → S a)
    (fuel : Nat) :
    Keeps (Within env S) (mhFlashWriteLoop env addr buf size fuel written) := by
  induction fuel generalizing written with
  | zero => exact keeps_throw _
  | succ fuel ih =>
      unfold mhFlashWriteLoop
      split
      · rename_i hw
        exact keeps_bind (mhFlashWriteStep_within (hS written (Nat.le_refl _) hw)) fun ok =>
          keeps_ite (ih fun i hi => hS i (by omega)) (keeps_pure _)
      · exact keeps_pure _

theorem mhFlashWrite_within {addr size : Nat} {buf : List Byte}
    (hS : ∀ i < size, ∀ a, a / x25qPageSize = u32 (addr + i) / x25qPageSize → S a) :
    Keeps (Within env S) (mhFlashWrite env addr buf size) :=
  keeps_ite (keeps_pure _) (keeps_ite (keeps_pure _) (keeps_ite (keeps_pure _)
    (mhFlashWriteLoop_within (fun i _ => hS i) _)))

theorem mhFlashEraseLoop_within {size n : Nat} {sector : Nat}
    (hr : sector + n * mhFlashGranularity ≤ mhFlashEndAddress)
    (hS : ∀ i < n, ∀ a,
      a / mhFlashGranularity = (sector + i * mhFlashGranularity) / mhFlashGranularity → S a) :
    Keeps (Within env S) (mhFlashEraseLoop env size n sector) := by
  induction n generalizing sector with
  | zero => exact keeps_pure _
  | succ n ih =>
      have h₀ := hS 0 (by omega)
      rw [Nat.zero_mul, Nat.add_zero] at h₀
      simp only [mhFlashGranularity, mhFlashEndAddress, mhFlashStartAdress, mhFlashSize] at hr
      have hu : u32 (sector + mhFlashGranularity) = sector + mhFlashGranularity :=
        u32_eq (by simp only [mhFlashGranularity]; omega)
      refine keeps_bind (flashEraseSector_within h₀) fun ok => keeps_ite ?_ (keeps_pure _)
      refine keeps_bind keeps_get fun w => keeps_ite ?_ (keeps_pure _)
      rw [hu]
      refine ih ?_ fun i hi a ha => hS (i + 1) (by omega) a ?_
      · simp only [mhFlashGranularity, mhFlashEndAddress, mhFlashStartAdress, mhFlashSize]
        omega
      · rw [ha, Nat.succ_mul, Nat.add_comm (i * _), Nat.add_assoc]

/-- The driver reports by its result: it stops the run only by a fault, a power loss or missing
    fuel. -/
def NoExit (e : Stop) : Prop := ∀ err, e ≠ .exit err

/-- Behind its label a function stops for these reasons only. -/
theorem withExit_stops (body : M Int) : Stops (withExit body) NoExit := by
  intro w e w' h
  unfold withExit at h
  cases hb : body w with
  | ok r w₁ =>
      rw [hb] at h
      cases h
  | error e₁ w₁ =>
      rw [hb] at h
      cases e₁ with
      | exit err => cases h
      | crash | powerLoss | outOfFuel =>
          cases h
          exact fun _ => Stop.noConfusion

section Stops

variable {P : Stop → Prop}

theorem load_stops (buf : List Byte) (off n : Nat) : Stops (load env buf off n) P :=
  stops_ite (stops_bind (stops_modify _) fun _ => stops_pure _) (stops_pure _)

variable (hP : P .powerLoss)
include hP

theorem flashOp_stops (op : FlashOp) (run : Nat → Flash → Bool × Flash) :
    Stops (flashOp env op run) P :=
  stops_bind stops_get fun _ => stops_ite
    (stops_bind (stops_modify _) fun _ => stops_pure _) (stops_throw hP)

theorem mhFlashWriteStep_stops (addr : Nat) (buf : List Byte) (written len : Nat) :
    Stops (mhFlashWriteStep env addr buf written len) P := by
  refine stops_bind (load_stops _ _ _) fun _ => stops_bind (flashOp_stops hP _ _) fun _ => ?_
  exact stops_ite (stops_bind stops_get fun _ => stops_pure _) (stops_pure _)

theorem mhFlashEraseLoop_stops (size n sector : Nat) :
    Stops (mhFlashEraseLoop env size n sector) P := by
  induction n generalizing sector with
  | zero => exact stops_pure _
  | succ n ih =>
      refine stops_bind (flashOp_stops hP _ _) fun _ => stops_ite ?_ (stops_pure _)
      exact stops_bind stops_get fun _ => stops_ite (ih _) (stops_pure _)

end Stops

theorem rtMalloc_stops {P : Stop → Prop} (env : Env) (size : Nat) : Stops (rtMalloc env size) P :=
  stops_bind stops_get fun _ => stops_bind (stops_modify _) fun _ =>
    stops_ite (stops_pure _) (stops_pure _)

theorem mhFlashWriteLoop_stops (addr : Nat) (buf : List Byte) (size fuel written : Nat) :
    Stops (mhFlashWriteLoop env addr buf size fuel written) NoExit := by
  induction fuel generalizing written with
  | zero => exact stops_throw fun _ => Stop.noConfusion
  | succ fuel ih =>
      refine stops_ite (stops_bind ?_ fun _ => stops_ite (ih _) (stops_pure _)) (stops_pure _)
      exact mhFlashWriteStep_stops (fun _ => Stop.noConfusion) _ _ _ _

/-! ## 3. Partitions -/

/-- A partition cut at sectors inside the one flash device. -/
structure FalPartition.Ok (p : FalPartition) : Prop where
  device : falFlashDeviceFind p.flashName = true
  offset : p.offset % 4096 = 0
  len : p.len % 4096 = 0
  inside : p.offset + p.len ≤ mhFlashSize

/-- The flash address the partition starts at. -/
def FalPartition.base (p : FalPartition) : Nat := mhFlashStartAdress + p.offset

/-- The flash addresses of the partition. -/
def FalPartition.Covers (p : FalPartition) (a : Nat) : Prop := p.base ≤ a ∧ a < p.base + p.len

theorem FalPartition.Ok.base_lt {p : FalPartition} (hp : p.Ok) :
    p.base + p.len ≤ 0x01400000 := by
  have := hp.inside
  simp only [mhFlashSize] at this
  simp only [FalPartition.base, mhFlashStartAdress]
  omega

theorem FalPartition.Ok.len_le {p : FalPartition} (hp : p.Ok) : p.len ≤ 4194304 := by
  have := hp.inside
  simp only [mhFlashSize] at this
  omega

theorem FalPartition.Ok.base_mod {p : FalPartition} (hp : p.Ok) : p.base % 4096 = 0 := by
  have := hp.offset
  simp only [FalPartition.base, mhFlashStartAdress]
  omega

theorem FalPartition.Ok.address_eq {p : FalPartition} (hp : p.Ok) {addr : Nat}
    (h : addr ≤ p.len) : p.address addr = p.base + addr := by
  have := hp.base_lt
  simp only [FalPartition.base, mhFlashStartAdress] at this
  simp only [FalPartition.address, FalPartition.base, mhFlashStartAdress]
  rw [u32_eq (n := p.offset + addr) (by omega), u32_eq (by omega)]
  omega

/-- The bounds check of the FAL, for a request that does not wrap around. -/
theorem falPartitionAccess_within {p : FalPartition} {addr size : Nat} {op : M Int}
    (h32 : addr + size < 4294967296)
    (hop : addr + size ≤ p.len → Keeps (Within env S) op) :
    Keeps (Within env S) (falPartitionAccess p addr size op) := by
  unfold falPartitionAccess
  rw [u32_eq h32]
  split
  · exact keeps_pure _
  · exact keeps_ite (hop (by omega)) (keeps_pure _)

/-- An access that did not fail was inside the partition. -/
theorem falPartitionAccess_ok {p : FalPartition} {addr size : Nat} {op : M Int} {w w' : World}
    {ret : Int} (h32 : addr + size < 4294967296)
    (h : falPartitionAccess p addr size op w = .ok ret w') (hret : 0 ≤ ret) :
    addr + size ≤ p.len ∧ op w = .ok ret w' := by
  unfold falPartitionAccess at h
  rw [u32_eq h32] at h
  split at h
  · cases h; omega
  · split at h
    · exact ⟨by omega, h⟩
    · cases h; omega

/-- A write keeps to the pages of its range. -/
theorem falPartitionWrite_pages {p : FalPartition} (hp : p.Ok) {addr size : Nat}
    (h32 : addr + size < 4294967296) (buf : List Byte)
    (hS : addr + size ≤ p.len → ∀ a, (p.base + addr) / 256 * 256 ≤ a →
      a < (p.base + addr + size + 255) / 256 * 256 → S a) :
    Keeps (Within env S) (falPartitionWrite env p addr buf size) := by
  refine falPartitionAccess_within h32 fun hin => mhFlashWrite_within fun i hi a ha => ?_
  have hb := hp.base_lt
  rw [hp.address_eq (by omega), u32_eq (by omega)] at ha
  simp only [x25qPageSize] at ha
  exact hS hin a (by omega) (by omega)

theorem falPartitionWrite_within {p : FalPartition} (hp : p.Ok) {addr size : Nat}
    (h32 : addr + size < 4294967296) (buf : List Byte) :
    Keeps (Within env p.Covers) (falPartitionWrite env p addr buf size) := by
  have hmod := hp.base_mod
  have hlen := hp.len
  exact falPartitionWrite_pages hp h32 buf fun hin a h₁ h₂ => ⟨by omega, by omega⟩

theorem falPartitionWrite_stops (p : FalPartition) (addr : Nat) (buf : List Byte) (size : Nat) :
    Stops (falPartitionWrite env p addr buf size) NoExit := by
  refine stops_ite (stops_pure _) (stops_ite ?_ (stops_pure _))
  exact stops_ite (stops_pure _) (stops_ite (stops_pure _) (stops_ite (stops_pure _)
    (mhFlashWriteLoop_stops _ _ _ _ _)))

theorem falPartitionErase_stops {P : Stop → Prop} (hP : P .powerLoss) (p : FalPartition)
    (addr size : Nat) : Stops (falPartitionErase env p addr size) P := by
  refine stops_ite (stops_pure _) (stops_ite ?_ (stops_pure _))
  exact stops_ite (stops_pure _) (stops_ite (stops_pure _) (mhFlashEraseLoop_stops hP _ _ _))

/-- An erase keeps to the sectors of its range. -/
theorem falPartitionErase_sectors {p : FalPartition} (hp : p.Ok) {addr size : Nat}
    (h32 : addr + size < 4294967296) (haddr : addr % 4096 = 0)
    (hS : addr + size ≤ p.len → ∀ a, p.base + addr ≤ a →
      a < p.base + addr + (size + 4095) / 4096 * 4096 → S a) :
    Keeps (Within env S) (falPartitionErase env p addr size) := by
  refine falPartitionAccess_within h32 fun hin =>
    keeps_ite (keeps_pure _) (keeps_ite (keeps_pure _) ?_)
  have h1 := hp.base_lt
  have h2 := hp.base_mod
  have h3 := hp.len
  have hn : u32 (size + (4 * 1024 - 1)) = size + 4095 := u32_eq (by omega)
  simp only [hp.address_eq (by omega : addr ≤ p.len), mhFlashGranularity]
  rw [hn]
  have hm : (p.base + addr) % 4096 = 0 := by omega
  rw [hm, Nat.sub_zero]
  refine mhFlashEraseLoop_within ?_ fun i hi a ha => ?_
  · simp only [mhFlashGranularity, mhFlashEndAddress, mhFlashStartAdress, mhFlashSize]
    omega
  · simp only [mhFlashGranularity] at ha
    exact hS hin a (by omega) (by omega)

theorem falPartitionErase_within {p : FalPartition} (hp : p.Ok) {addr size : Nat}
    (h32 : addr + size < 4294967296) (haddr : addr % 4096 = 0) :
    Keeps (Within env p.Covers) (falPartitionErase env p addr size) := by
  have hlen := hp.len
  exact falPartitionErase_sectors hp h32 haddr fun hin a h₁ h₂ => ⟨by omega, by omega⟩

/-! ## 4. Reading -/

/-- A read that lies inside the partition finds the flash there. -/
theorem falPartitionRead_ok {p : FalPartition} (hp : p.Ok) {flash : Flash} {addr size : Nat}
    (h : addr + size ≤ p.len) :
    falPartitionRead flash p addr size = some (readFlash flash (p.base + addr) size) := by
  have hb := hp.base_lt
  unfold falPartitionRead mhFlashRead
  rw [u32_eq (by omega), if_neg (by omega), if_pos hp.device, hp.address_eq (by omega),
    u32_eq (by omega), if_neg]
  simp only [mhFlashEndAddress, mhFlashStartAdress, mhFlashSize]
  omega

/-- A read that runs past the end is refused. -/
theorem falPartitionRead_beyond {p : FalPartition} {flash : Flash} {addr size : Nat}
    (h32 : addr + size < 4294967296) (h : p.len < addr + size) :
    falPartitionRead flash p addr size = none := by
  unfold falPartitionRead
  rw [u32_eq h32, if_pos h]

theorem readFlash_append {flash : Flash} {addr n m : Nat} :
    readFlash flash addr n ++ readFlash flash (addr + n) m = readFlash flash addr (n + m) := by
  unfold readFlash
  rw [List.range_add, List.map_append, List.map_map]
  refine congrArg _ (List.map_congr_left fun i _ => ?_)
  simp [Nat.add_assoc]

theorem take_readFlash {flash : Flash} {addr n m : Nat} (h : m ≤ n) :
    (readFlash flash addr n).take m = readFlash flash addr m := by
  obtain ⟨k, rfl⟩ := Nat.exists_eq_add_of_le h
  rw [← readFlash_append, List.take_left' (length_readFlash _ _ _)]

theorem drop_readFlash {flash : Flash} {addr n m : Nat} (h : m ≤ n) :
    (readFlash flash addr n).drop m = readFlash flash (addr + m) (n - m) := by
  obtain ⟨k, rfl⟩ := Nat.exists_eq_add_of_le h
  rw [← readFlash_append, List.drop_left' (length_readFlash _ _ _), Nat.add_sub_cancel_left]

/-- Where two flashes agree, reads do. -/
theorem readFlash_congr {f g : Flash} {addr n : Nat} (h32 : addr + n ≤ 4294967296)
    (h : ∀ a, addr ≤ a → a < addr + n → f a = g a) :
    readFlash f addr n = readFlash g addr n := by
  refine List.map_congr_left fun i hi => ?_
  have hi := List.mem_range.mp hi
  rw [u32_eq (by omega)]
  exact h _ (by omega) (by omega)

/-- Byte `i` of what is read from address `addr`. -/
theorem readFlash_getD {flash : Flash} {addr n i : Nat} (h32 : addr + n ≤ 4294967296) (hi : i < n) :
    (readFlash flash addr n).getD i 0 = flash (addr + i) := by
  unfold readFlash
  rw [List.getD_eq_getElem?_getD, List.getElem?_map, List.getElem?_range hi, Option.map_some,
    Option.getD_some, u32_eq (by omega)]

/-- A read finds a buffer that lies there byte by byte. -/
theorem readFlash_eq {flash : Flash} {addr : Nat} {bs : List Byte}
    (h32 : addr + bs.length ≤ 4294967296)
    (h : ∀ i < bs.length, flash (addr + i) = bs.getD i 0) :
    readFlash flash addr bs.length = bs := by
  refine List.ext_getElem (length_readFlash _ _ _) fun i h₁ h₂ => ?_
  simp only [readFlash, List.getElem_map, List.getElem_range]
  rw [u32_eq (by omega), h i h₂, List.getD_eq_getElem?_getD, List.getElem?_eq_getElem h₂,
    Option.getD_some]

end Mh1903
