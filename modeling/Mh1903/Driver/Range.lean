/-
  File:      Mh1903/Driver/Range.lean
  Subject:   THE RANGE CHECKS OF THE DRIVER. Read, write and erase compare the 32-bit sum of address
             and size with the end of the flash. So a request behind the end is refused only while
             that sum has not wrapped around to the end or below, and one in front of the flash is
             never refused for being there.
-/
import Mh1903.Frame.Nor

namespace Mh1903

/-! ## 1. What a range check is for -/

/-- The requested range lies in the flash. -/
def InFlash (addr size : Nat) : Prop :=
  mhFlashStartAdress ≤ addr ∧ addr + size ≤ mhFlashEndAddress

/-- The condition the three functions test. -/
def PassesRange (addr size : Nat) : Prop := ¬ u32 (addr + size) > mhFlashEndAddress

instance (addr size : Nat) : Decidable (PassesRange addr size) := inferInstanceAs (Decidable (¬ _))

/-- A call that is refused: a negative result and the old flash. -/
def Refused (op : M Int) (w : World) : Prop :=
  ∃ ret w', op w = .ok ret w' ∧ ret < 0 ∧ w'.flash = w.flash

/-- A request that passes lies in the flash, any other is refused: for `mh_flash_read` ... -/
def ReadGuarded (addr size : Nat) : Prop :=
  (PassesRange addr size → InFlash addr size) ∧
  (¬ InFlash addr size → ∀ flash, mhFlashRead flash addr size = none)

/-- ... for `mh_flash_write`, which comes to its range check with aligned addresses ... -/
def WriteGuarded (addr size : Nat) : Prop :=
  (addr % 4 = 0 → PassesRange addr size → InFlash addr size) ∧
  (¬ InFlash addr size → ∀ env buf w, Refused (mhFlashWrite env addr buf size) w)

/-- ... and for `mh_flash_erase`. -/
def EraseGuarded (addr size : Nat) : Prop :=
  (PassesRange addr size → InFlash addr size) ∧
  (¬ InFlash addr size → ∀ env w, Refused (mhFlashErase env addr size) w)

/-- Where the checks are right: in the flash, or behind its end by less than the sum needs to wrap
    around to the end, or by more. -/
def RangeClear (addr size : Nat) : Prop :=
  (mhFlashStartAdress ≤ addr ∧ addr + size ≤ mhFlashEndAddress) ∨
  (mhFlashEndAddress < addr + size ∧ addr + size < 4294967296) ∨
  4294967296 + mhFlashEndAddress < addr + size

/-! ## 2. The checks -/

/-- The sum of two words wraps around at most once. -/
theorem u32_add {a b : Nat} (ha : a < 4294967296) (hb : b < 4294967296) :
    (a + b < 4294967296 ∧ u32 (a + b) = a + b) ∨
    (4294967296 ≤ a + b ∧ u32 (a + b) + 4294967296 = a + b) := by
  unfold u32
  omega

section Range

variable {addr size : Nat}

theorem rangeClear_iff (ha : addr < 4294967296) (hs : size < 4294967296) :
    RangeClear addr size ↔ (PassesRange addr size → InFlash addr size) := by
  unfold RangeClear PassesRange InFlash
  simp only [mhFlashEndAddress, mhFlashStartAdress, mhFlashSize]
  rcases u32_add ha hs with ⟨hsum, h⟩ | ⟨hsum, h⟩ <;> omega

theorem mhFlashWrite_refused (h : ¬ PassesRange addr size ∨ addr % 4 ≠ 0) (env : Env)
    (buf : List Byte) (w : World) : Refused (mhFlashWrite env addr buf size) w := by
  refine ⟨-rtEinval, w, ?_, by decide, rfl⟩
  unfold mhFlashWrite
  by_cases hal : addr % 4 ≠ 0
  · rw [if_pos hal]
    rfl
  · rw [if_neg hal, if_pos (not_not.mp (h.resolve_right hal))]
    rfl

theorem mhFlashErase_refused (h : ¬ PassesRange addr size) (env : Env) (w : World) :
    Refused (mhFlashErase env addr size) w := by
  refine ⟨-rtEinval, w, ?_, by decide, rfl⟩
  unfold mhFlashErase
  rw [if_pos (not_not.mp h)]
  rfl

end Range

/-- **The checks guard the flash exactly where the exact sum is clear of the wrap**, and
    `mh_flash_write` also on unaligned addresses. -/
theorem range_guarded_iff (addr size : BitVec 32) :
    (ReadGuarded addr.toNat size.toNat ↔ RangeClear addr.toNat size.toNat) ∧
    (WriteGuarded addr.toNat size.toNat ↔
      RangeClear addr.toNat size.toNat ∨ addr.toNat % 4 ≠ 0) ∧
    (EraseGuarded addr.toNat size.toNat ↔ RangeClear addr.toNat size.toNat) := by
  have hclear := rangeClear_iff addr.isLt size.isLt
  refine ⟨?_, ?_, ?_⟩
  · rw [hclear]
    refine ⟨fun h => h.1, fun h => ⟨h, fun hout flash => ?_⟩⟩
    unfold mhFlashRead
    rw [if_pos (not_not.mp fun hpass => hout (h hpass))]
  · rw [hclear]
    constructor
    · intro h
      by_cases hal : addr.toNat % 4 = 0
      · exact .inl (h.1 hal)
      · exact .inr hal
    · rintro (h | hal)
      · exact ⟨fun _ => h, fun hout => mhFlashWrite_refused (.inl fun hpass => hout (h hpass))⟩
      · exact ⟨fun h0 => absurd h0 hal, fun _ => mhFlashWrite_refused (.inr hal)⟩
  · rw [hclear]
    exact ⟨fun h => h.1, fun h => ⟨h, fun hout => mhFlashErase_refused fun hpass =>
      hout (h hpass)⟩⟩

/-- The last two bytes of the address space pass the check of an erase: their sum with the address
    is zero. -/
theorem erase_passes_wrapped :
    ¬ EraseGuarded (0xfffffffe#32).toNat (2#32).toNat := by
  intro h
  have hin := h.1 (by decide +kernel)
  exact absurd hin.2 (by decide)

end Mh1903
