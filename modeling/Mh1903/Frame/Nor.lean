/-
  File:      Mh1903/Frame/Nor.lean
  Subject:   A GOOD FLASH. What the mask ROM does on a chip without faults: an erased sector reads
             0xff, a program clears bits, both report OK.
-/
import Mh1903.Frame.Within

namespace Mh1903

/-- A sector erase. -/
def norErase (sectorAddress : Nat) (f : Flash) : Flash := fun a =>
  if a / mhFlashGranularity = sectorAddress / mhFlashGranularity then 0xff else f a

theorem norErase_apply (sectorAddress : Nat) (f : Flash) (a : Nat) :
    norErase sectorAddress f a = if a / 4096 = sectorAddress / 4096 then 0xff else f a := rfl

/-- A page program: byte `i` of `data` goes to `addr + i`, at the end of the page on to its
    start; a bit once cleared stays. -/
def norProgram (addr : Nat) (data : List Byte) (f : Flash) : Flash := fun a =>
  if a / x25qPageSize = addr / x25qPageSize then
    match data[(a + x25qPageSize - addr % x25qPageSize) % x25qPageSize]? with
    | some b => f a &&& b
    | none => f a
  else f a

/-- The ROM on a good chip. -/
def norRom : Rom where
  eraseSector _ s f := (true, norErase s f)
  programPage _ addr data f := (true, norProgram addr data f)

theorem norRom_confined : norRom.Confined where
  eraseSector _ _ _ _ ha := if_neg ha
  programPage _ _ _ _ _ ha := if_neg ha

/-- Inside a page a program puts its bytes one after the other. -/
theorem norProgram_at {addr : Nat} {data : List Byte} {f : Flash} {i : Nat}
    (hi : i < data.length) (hpage : addr % x25qPageSize + data.length ≤ x25qPageSize) :
    norProgram addr data f (addr + i) = f (addr + i) &&& data[i] := by
  simp only [x25qPageSize] at hpage
  have h1 : (addr + i) / x25qPageSize = addr / x25qPageSize := by simp only [x25qPageSize]; omega
  have h2 : (addr + i + x25qPageSize - addr % x25qPageSize) % x25qPageSize = i := by
    simp only [x25qPageSize]; omega
  unfold norProgram
  rw [if_pos h1, h2, List.getElem?_eq_getElem hi]

/-- What a program does not put stays. -/
theorem norProgram_outside {addr : Nat} {data : List Byte} {f : Flash} {a : Nat}
    (hpage : addr % x25qPageSize + data.length ≤ x25qPageSize)
    (ha : a < addr ∨ addr + data.length ≤ a) : norProgram addr data f a = f a := by
  simp only [x25qPageSize] at hpage
  unfold norProgram
  split
  · rename_i h
    have h2 : data.length ≤ (a + x25qPageSize - addr % x25qPageSize) % x25qPageSize := by
      simp only [x25qPageSize] at h ⊢; omega
    rw [List.getElem?_eq_none h2]
  · rfl

/-- `flash` with `bs` from address `addr` on. -/
def flashWith (addr : Nat) (bs : List Byte) (flash : Flash) : Flash := fun a =>
  if addr ≤ a ∧ a < addr + bs.length then bs.getD (a - addr) 0 else flash a

theorem flashWith_at {addr i : Nat} {bs : List Byte} {flash : Flash} (hi : i < bs.length) :
    flashWith addr bs flash (addr + i) = bs.getD i 0 := by
  unfold flashWith
  rw [if_pos (by omega), Nat.add_sub_cancel_left]

theorem flashWith_outside {addr a : Nat} {bs : List Byte} {flash : Flash}
    (ha : a < addr ∨ addr + bs.length ≤ a) : flashWith addr bs flash a = flash a := by
  unfold flashWith
  rw [if_neg (by omega)]

theorem readFlash_flashWith {addr : Nat} {bs : List Byte} {flash : Flash}
    (h : addr + bs.length ≤ 4294967296) :
    readFlash (flashWith addr bs flash) addr bs.length = bs :=
  readFlash_eq h fun _ hi => flashWith_at hi

@[simp] theorem flashWith_nil (addr : Nat) (flash : Flash) : flashWith addr [] flash = flash := by
  funext a
  exact flashWith_outside (by simp only [List.length_nil]; omega)

/-- Two pieces one behind the other. -/
theorem flashWith_append {addr : Nat} {bs cs : List Byte} {flash : Flash} :
    flashWith (addr + bs.length) cs (flashWith addr bs flash) = flashWith addr (bs ++ cs) flash := by
  funext a
  by_cases h₁ : addr ≤ a ∧ a < addr + bs.length
  · obtain ⟨i, rfl⟩ := Nat.exists_eq_add_of_le h₁.1
    have hi : i < bs.length := by omega
    rw [flashWith_outside (by omega), flashWith_at hi, flashWith_at (by
      rw [List.length_append]; omega), List.getD_eq_getElem?_getD, List.getD_eq_getElem?_getD,
      List.getElem?_append_left hi]
  · by_cases h₂ : addr + bs.length ≤ a ∧ a < addr + bs.length + cs.length
    · obtain ⟨i, rfl⟩ := Nat.exists_eq_add_of_le h₂.1
      have hi : i < cs.length := by omega
      have hidx : (bs ++ cs).getD (bs.length + i) 0 = cs.getD i 0 := by
        rw [List.getD_eq_getElem?_getD, List.getD_eq_getElem?_getD,
          List.getElem?_append_right (Nat.le_add_right _ _), Nat.add_sub_cancel_left]
      rw [flashWith_at hi, Nat.add_assoc, flashWith_at (by rw [List.length_append]; omega), hidx]
    · rw [flashWith_outside (by omega), flashWith_outside (by omega), flashWith_outside (by
        rw [List.length_append]; omega)]

/-- On an erased range a program puts its bytes. -/
theorem norProgram_erased {addr : Nat} {data : List Byte} {f : Flash}
    (hpage : addr % 256 + data.length ≤ 256) (herased : ∀ i < data.length, f (addr + i) = 0xff) :
    norProgram addr data f = flashWith addr data f := by
  funext a
  by_cases ha : addr ≤ a ∧ a < addr + data.length
  · obtain ⟨i, rfl⟩ := Nat.exists_eq_add_of_le ha.1
    have hi : i < data.length := by omega
    rw [norProgram_at hi hpage, flashWith_at hi, herased i hi, List.getD_eq_getElem?_getD,
      List.getElem?_eq_getElem hi, Option.getD_some]
    exact BitVec.allOnes_and
  · rw [norProgram_outside hpage (by omega), flashWith_outside (by omega)]

/-- The board with a good flash, enough memory and power, and decompressors that refuse. -/
def Env.board : Env where
  partitionTableDef := falPartTable
  rom := norRom
  powered _ := true
  mallocOk _ := true
  memory _ := 0
  afterHead := []
  fastlzDecompress _ _ _ := ⟨[], 0, 0, .inl rfl⟩
  qlzDecompress _ := ⟨[], 0, 0, .inl rfl⟩
  tinyAesCryptEcb _ _ := 0

theorem Env.board_confined : Env.board.rom.Confined := norRom_confined

end Mh1903
