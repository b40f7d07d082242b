/-
  File:      Mh1903/Driver/Erase.lean
  Subject:   WHAT `mh_flash_erase` COVERS. It starts at the sector of the address and counts as many
             sectors as the size alone fills, so a range that starts inside a sector may reach into
             one sector more than it erases.
-/
import Mh1903.Driver.Range
import Mh1903.Frame.Good

namespace Mh1903

open Library

/-! ## 1. What an erase has to do -/

/-- `FLASH_EraseSector` erases one sector when it reports success, and never touches another. -/
structure Rom.ErasesSectors (rom : Rom) : Prop where
  ok : ∀ n s f, (rom.eraseSector n s f).1 = true → (rom.eraseSector n s f).2 = norErase s f
  other : ∀ n s f a, a / mhFlashGranularity ≠ s / mhFlashGranularity →
    (rom.eraseSector n s f).2 a = f a

theorem norRom_erasesSectors : norRom.ErasesSectors where
  ok _ _ _ _ := rfl
  other _ _ _ _ ha := if_neg ha

/-- A byte of a sector that the range reaches into. -/
def SectorOf (addr size a : Nat) : Prop :=
  ∃ b, addr ≤ b ∧ b < addr + size ∧ a / mhFlashGranularity = b / mhFlashGranularity

/-- A call that returns its size has erased the range, and no call changes a byte of another
    sector. -/
def ErasesExactly (env : Env) (addr size : Nat) (w : World) : Prop :=
  (∀ w', mhFlashErase env addr size w = .ok (size : Int) w' →
    ∀ a, addr ≤ a → a < addr + size → w'.flash a = 0xff) ∧
  ∀ a, ¬ SectorOf addr size a → (final (mhFlashErase env addr size) w).flash a = w.flash a

/-! ## 2. The loop -/

/-- A sector that passes `erase_check` reads 0xff. -/
theorem erased_of_eraseCheck {f : Flash} {sector a : Nat} (h32 : sector + 4096 ≤ 4294967296)
    (h : eraseCheck f sector 16 = true) (hlo : sector ≤ a) (hhi : a < sector + 4096) :
    f a = 0xff := by
  obtain ⟨i, rfl⟩ := Nat.exists_eq_add_of_le hlo
  have hpage : i / 256 < 16 := by omega
  have hall := List.all_eq_true.mp h (i / 256) (List.mem_range.mpr hpage)
  have hbytes : List.replicate 256 0xff = readFlash f (u32 (sector + i / 256 * 256)) 256 :=
    eq_of_beq hall
  have hbyte := congrArg (fun l => l[i % 256]?) hbytes
  have hoff : i % 256 < 256 := Nat.mod_lt _ (by decide)
  simp only [readFlash, List.getElem?_map, List.getElem?_range hoff, Option.map_some,
    List.getElem?_replicate, if_pos hoff] at hbyte
  rw [@u32_eq (sector + i / 256 * 256) (by omega)] at hbyte
  have hsum : sector + i / 256 * 256 + i % 256 = sector + i := by omega
  rw [hsum, u32_eq (by omega)] at hbyte
  exact (Option.some.inj hbyte).symm

section Loop

variable {env : Env} {size : Nat}

/-- One sector: no other is touched, whatever the status. -/
theorem flashEraseSector_leads (h : ∀ n s f a, a / mhFlashGranularity ≠ s / mhFlashGranularity →
      (env.rom.eraseSector n s f).2 a = f a) (sector : Nat) (w : World) :
    Leads (flashEraseSector env sector) w
      (fun _ w' => ∀ a, a / 4096 ≠ sector / 4096 → w'.flash a = w.flash a)
      (fun _ w' => w'.flash = w.flash) := by
  unfold flashEraseSector flashOp
  rw [leads_bind, leads_get, leads_ite]
  refine ⟨fun _ => ?_, fun _ => leads_throw.mpr rfl⟩
  rw [leads_bind, leads_modify, leads_pure]
  exact fun a ha => h _ _ _ _ ha

/-- **The loop** has erased its sectors when it returns the size, since it checks each, and keeps to
    them in any case. -/
theorem mhFlashEraseLoop_leads (h : ∀ n s f a, a / mhFlashGranularity ≠ s / mhFlashGranularity →
      (env.rom.eraseSector n s f).2 a = f a) {n sector : Nat} {w : World}
    (hs : sector % 4096 = 0) (hr : sector + n * 4096 ≤ 0x01400000) :
    Leads (mhFlashEraseLoop env size n sector) w
      (fun ret w' => (0 ≤ ret → w'.flash = eraseRange sector n w.flash) ∧
        ∀ a, a < sector ∨ sector + n * 4096 ≤ a → w'.flash a = w.flash a)
      (fun _ w' => ∀ a, a < sector ∨ sector + n * 4096 ≤ a → w'.flash a = w.flash a) := by
  induction n generalizing sector w with
  | zero =>
      refine leads_pure.mpr ⟨fun _ => (eraseRange_zero _ _).symm, fun _ _ => rfl⟩
  | succ n ih =>
      have hr' : sector + 4096 + n * 4096 ≤ 0x01400000 := by
        rw [Nat.add_assoc, Nat.add_comm 4096, ← Nat.succ_mul]; exact hr
      have hend : sector + (n + 1) * 4096 = sector + 4096 + n * 4096 := by
        rw [Nat.succ_mul, Nat.add_comm (n * 4096), Nat.add_assoc]
      have hsec : sector + 4096 ≤ 0x01400000 := Nat.le_trans (Nat.le_add_right _ _) hr'
      have hnext : u32 (sector + mhFlashGranularity) = sector + 4096 :=
        u32_eq (by simp only [mhFlashGranularity]; omega)
      rw [hend]
      unfold mhFlashEraseLoop
      rw [leads_bind]
      refine (flashEraseSector_leads h sector w).mono (fun ok w₁ hsector => ?_)
        fun e w₁ hsame a _ => by rw [hsame]
      have hother : ∀ a, a < sector ∨ sector + 4096 + n * 4096 ≤ a → w₁.flash a = w.flash a :=
        fun a ha => hsector a (by omega)
      rw [leads_ite]
      refine ⟨fun _ => ?_, fun _ => leads_pure.mpr ⟨fun h => absurd h (by decide), hother⟩⟩
      rw [leads_bind, leads_get, leads_ite]
      refine ⟨fun hcheck => ?_, fun _ => leads_pure.mpr ⟨fun h => absurd h (by decide), hother⟩⟩
      have herased : w₁.flash = norErase sector w.flash := by
        funext a
        rw [norErase_apply]
        by_cases ha : a / 4096 = sector / 4096
        · rw [if_pos ha]
          clear hr hr' hend
          exact erased_of_eraseCheck (by omega) hcheck (by omega) (by omega)
        · rw [if_neg ha]
          exact hsector a ha
      rw [hnext]
      refine (@ih (sector + 4096) w₁ (by omega) hr').mono
        (fun ret w' hrest => ⟨fun hret => ?_, fun a ha => ?_⟩) fun _ w' hrest a ha => ?_
      · rw [hrest.1 hret, herased, eraseRange_succ hs]
      · exact (hrest.2 a (by omega)).trans (hother a ha)
      · exact (hrest a (by omega)).trans (hother a ha)

end Loop

/-! ## 3. The call -/

section Call

variable {env : Env} {addr size : Nat}

/-- The call inside the flash is its loop. -/
theorem mhFlashErase_eq (h1 : 1 ≤ size) (hin : InFlash addr size) :
    mhFlashErase env addr size =
      mhFlashEraseLoop env size (sectors size) (addr - addr % 4096) := by
  have hend : addr + size ≤ 0x01400000 := hin.2
  have hsum : u32 (addr + size) = addr + size := u32_eq (by omega)
  have hn : u32 (size + (mhFlashGranularity - 1)) / mhFlashGranularity = sectors size := by
    rw [u32_eq (by simp only [mhFlashGranularity]; omega)]
    rfl
  unfold mhFlashErase
  rw [hsum, if_neg (not_lt.mpr hin.2), if_neg (by omega)]
  simp only [hn]
  rfl

/-- The sectors of the call lie in the flash. -/
theorem sectors_room (hin : InFlash addr size) (h1 : 1 ≤ size) :
    addr - addr % 4096 + sectors size * 4096 ≤ 0x01400000 := by
  have hend : addr + size ≤ 0x01400000 := hin.2
  unfold sectors
  omega

/-- An erase keeps to the sectors of its range. -/
theorem mhFlashErase_other (h : env.rom.ErasesSectors) (h1 : 1 ≤ size) (hin : InFlash addr size)
    (w : World) {a : Nat} (ha : ¬ SectorOf addr size a) :
    (final (mhFlashErase env addr size) w).flash a = w.flash a := by
  have hloop := @mhFlashEraseLoop_leads env size h.other (sectors size) (addr - addr % 4096) w
    (by omega) (sectors_room hin h1)
  have hout : a < addr - addr % 4096 ∨ addr - addr % 4096 + sectors size * 4096 ≤ a := by
    -- every sector of the loop meets the range: the first at `addr`, another at its first byte
    by_contra hno
    refine ha ⟨max addr (a - a % 4096), Nat.le_max_left _ _, ?_, ?_⟩
    · unfold sectors at hno
      omega
    · simp only [mhFlashGranularity]
      omega
  rw [mhFlashErase_eq h1 hin]
  exact (hloop.mono (fun _ _ h => h.2 a hout) fun _ _ h => h a hout).final

/-- **An erase does what it was asked to if and only if the sectors that its size fills cover the
    range from the start of the first sector on.** -/
theorem erase_exact_iff (h1 : 1 ≤ size) (hin : InFlash addr size) :
    (∀ env, env.rom.ErasesSectors → ∀ w, ErasesExactly env addr size w) ↔
      addr % 4096 + size ≤ sectors size * 4096 := by
  constructor
  · intro h
    -- a good flash that holds zeros: behind the erased sectors they stay
    have hrun := @mhFlashEraseLoop_good Env.board (.powerOn fun _ => 0) Env.board_good.erases size
      (sectors size) (addr - addr % 4096) (by omega) (sectors_room hin h1)
    rw [← mhFlashErase_eq h1 hin, i32_eq (by
      have hend : addr + size ≤ 0x01400000 := hin.2
      omega)] at hrun
    by_contra hlt
    have hlast := (h Env.board norRom_erasesSectors (.powerOn fun _ => 0)).1 _ hrun
      (addr + size - 1) (by omega) (by omega)
    simp only [eraseRange] at hlast
    rw [if_neg (by omega), World.powerOn_flash] at hlast
    cases hlast
  · intro hcover env h w
    refine ⟨fun w' hrun a hlo hhi => ?_, fun a ha => mhFlashErase_other h h1 hin w ha⟩
    rw [mhFlashErase_eq h1 hin] at hrun
    have hflash := ((mhFlashEraseLoop_leads h.other (by omega) (sectors_room hin h1)).ok hrun).1
      (Int.natCast_nonneg size)
    rw [hflash]
    unfold eraseRange
    rw [if_pos (by omega)]

end Call

/-- A range of one sector from the start of a sector on. -/
theorem erase_exact_iff_aligned :
    ErasesExactly Env.board 0x01018000 4096 (.powerOn fun _ => 0) :=
  (erase_exact_iff (by decide) ⟨by decide, by decide⟩).mpr (by decide) Env.board
    norRom_erasesSectors _

/-- A range of one sector that starts in the middle of a sector is erased by half. -/
theorem erase_misses_second_sector :
    ¬ ∀ env, env.rom.ErasesSectors → ∀ w, ErasesExactly env 0x01018800 4096 w := by
  intro h
  have hin : InFlash 0x01018800 4096 := ⟨by decide, by decide⟩
  have hrun := @mhFlashEraseLoop_good Env.board (.powerOn fun _ => 0) Env.board_good.erases 4096
    (sectors 4096) (0x01018800 - 0x01018800 % 4096) (by decide) (sectors_room hin (by decide))
  rw [← mhFlashErase_eq (by decide) hin, i32_eq (by decide)] at hrun
  have hlast := (h Env.board norRom_erasesSectors (.powerOn fun _ => 0)).1 _ hrun 0x01019000
    (by decide) (by decide)
  have hkept : eraseRange (0x01018800 - 0x01018800 % 4096) (sectors 4096)
      (World.powerOn fun _ => 0).flash 0x01019000 = 0 := if_neg (by decide)
  exact absurd (hkept.symm.trans hlast) (by decide)

/-! ## 4. The front of a partition -/

/-- **A successful erase of the front of a partition**: the size was one that fits, its sectors read
    0xff, the rest is unchanged. -/
theorem falPartitionErase_sound {env : Env} (hrom : env.rom.Confined) {p : FalPartition}
    (hp : p.Ok) {size : Nat} (hsize : size < 4294967296) {w w' : World} {ret : Int}
    (h : falPartitionErase env p 0 size w = .ok ret w') (hret : 0 ≤ ret) :
    1 ≤ size ∧ size ≤ p.len ∧ w'.flash = eraseRange p.base (sectors size) w.flash := by
  have hbase := hp.base_lt
  have hmod := hp.base_mod
  obtain ⟨hin, hw⟩ := falPartitionAccess_ok (by rw [Nat.zero_add]; exact hsize) h hret
  rw [Nat.zero_add] at hin
  rw [hp.address_eq (Nat.zero_le _), Nat.add_zero] at hw
  have hpos : 1 ≤ size := by
    by_contra hlt
    have h0 : size = 0 := by omega
    subst h0
    unfold mhFlashErase at hw
    split at hw
    · cases hw
      exact absurd hret (by decide)
    · cases hw
      exact absurd hret (by decide)
  have hflash : InFlash p.base size := by
    unfold InFlash
    simp only [mhFlashEndAddress, mhFlashSize, FalPartition.base, mhFlashStartAdress] at hbase ⊢
    omega
  rw [mhFlashErase_eq hpos hflash] at hw
  have hstart : p.base - p.base % 4096 = p.base := by omega
  have hroom := sectors_room hflash hpos
  rw [hstart] at hw hroom
  exact ⟨hpos, hin, ((mhFlashEraseLoop_leads hrom.eraseSector hmod hroom).ok hw).1 hret⟩

end Mh1903
