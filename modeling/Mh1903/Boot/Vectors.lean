/-
  File:      Mh1903/Boot/Vectors.lean
  Subject:   WHICH VECTORS ARE LAUNCHED. `rt_fota_start_application` against what makes the first
             two words of an application launchable: the checks agree with it except at the upper
             end of the partition, at both ends of the RAM and on stacks that differ from a
             legal one in high bits only.
-/
import Mh1903.Frame.Board
import Mh1903.Model.Boot

namespace Mh1903

open Library

/-! ## 1. Launchable words -/

/-- The two words the launch reads. -/
def appStack (flash : Flash) : Nat := flashWord flash appPart.base
def appEntry (flash : Flash) : Nat := flashWord flash (appPart.base + 4)

/-- Stack pointer in RAM, its top included, and reset vector in the application partition. -/
def Launchable (stack entry : Nat) : Prop :=
  (mhSramStart < stack ∧ stack ≤ mhSramEnd) ∧
    appPart.base ≤ entry ∧ entry < appPart.base + appPart.len

/-- The check of the source. -/
def StackPasses (stack : Nat) : Prop := stack &&& stackMask = mhSramStart

instance (stack : Nat) : Decidable (StackPasses stack) := inferInstanceAs (Decidable (_ = _))

/-- The call jumps with launchable words, and otherwise returns the general error and leaves
    processor and world alone. -/
def LaunchesExactly (env : Env) (cpu : Cpu) (w : World) : Prop :=
  (Launchable (appStack w.flash) (appEntry w.flash) →
    ∃ cpu', rtFotaStartApplicationOn env cpu w =
      .ok (.jumped (appStack w.flash) (appEntry w.flash), cpu') w) ∧
  (¬ Launchable (appStack w.flash) (appEntry w.flash) →
    rtFotaStartApplicationOn env cpu w = .ok (.returned rtFotaGeneralErr, cpu) w)

/-- The words on which the checks are right. -/
def VectorsClear (stack entry : Nat) : Prop :=
  entry < appPart.base ∨ appPart.base + appPart.len < entry ∨
  (entry = appPart.base + appPart.len ∧ ¬ StackPasses stack) ∨
  (appPart.base ≤ entry ∧ entry < appPart.base + appPart.len ∧
    stack ≠ mhSramStart ∧ stack ≠ mhSramEnd ∧ ¬ (mhSramEnd < stack ∧ StackPasses stack))

/-! ## 2. The stack check -/

/-- The check looks at ten bits above the size of the RAM. -/
theorem stackPasses_iff (stack : Nat) : StackPasses stack ↔ stack / 1048576 &&& 767 = 512 := by
  have hmask : stackMask = 767 <<< 20 := by decide
  have hhigh : stack &&& 767 <<< 20 = (stack / 1048576 &&& 767) <<< 20 := by
    refine Nat.eq_of_testBit_eq fun i => ?_
    rw [Nat.testBit_and, Nat.testBit_shiftLeft, Nat.testBit_shiftLeft, Nat.testBit_and,
      show 1048576 = 2 ^ 20 from rfl, Nat.testBit_div_two_pow]
    by_cases hi : 20 ≤ i
    · rw [Nat.sub_add_cancel hi, Bool.and_left_comm]
    · simp [hi]
  unfold StackPasses
  rw [hmask, hhigh, Nat.shiftLeft_eq, show mhSramStart = 512 * 2 ^ 20 from rfl,
    Nat.mul_left_inj (by decide)]

/-- Up to the top of the RAM the check is the interval without its top. -/
theorem stackPasses_of_le {stack : Nat} (h : stack ≤ mhSramEnd) :
    StackPasses stack ↔ mhSramStart ≤ stack ∧ stack < mhSramEnd := by
  have hsmall : ∀ q < 514, (q &&& 767 = 512 ↔ q = 512) := by decide +kernel
  rw [stackPasses_iff, hsmall]
  · simp only [mhSramStart, mhSramEnd, mhSramSize]
    omega
  · simp only [mhSramEnd, mhSramStart, mhSramSize] at h
    omega

/-! ## 3. The call -/

def Cpu.reset : Cpu := ⟨false, fun _ => true, fun _ => false, 7, 0, 0, 0⟩

section Call

variable {env : Env} {cpu : Cpu} {w : World}

theorem Env.OnBoard.find_app (henv : env.OnBoard) :
    falPartitionFind env rtFotaAppPartName = some appPart :=
  henv.find_name (p := appPart) (by decide)

/-- How the call ends, in terms of its two checks. -/
theorem rtFotaStartApplicationOn_eq
    (hfind : falPartitionFind env rtFotaAppPartName = some appPart) :
    rtFotaStartApplicationOn env cpu w =
      if (appEntry w.flash < appPart.base ∨ appEntry w.flash > appPart.base + appPart.len) ∨
        ¬ StackPasses (appStack w.flash) then
        .ok (.returned rtFotaGeneralErr, cpu) w
      else
        .ok (.jumped (appStack w.flash) (appEntry w.flash), cpu.launch (appStack w.flash)) w := by
  have hbase : u32 (appPart.offset + mhFlashStartAdress) = appPart.base := u32_eq (by decide)
  have hend : u32 (appPart.base + appPart.len) = appPart.base + appPart.len := u32_eq (by decide)
  unfold rtFotaStartApplicationOn
  simp only [hfind]
  rw [get_bind, hbase, hend]
  show (if appEntry w.flash < appPart.base ∨ appEntry w.flash > appPart.base + appPart.len
      then pure _ else ite (¬ StackPasses (appStack w.flash)) (pure _) (pure _) : M _) w = _
  by_cases hentry : appEntry w.flash < appPart.base ∨ appEntry w.flash > appPart.base + appPart.len
  · rw [if_pos hentry, if_pos (.inl hentry)]
    rfl
  · rw [if_neg hentry]
    by_cases hstack : StackPasses (appStack w.flash)
    · rw [if_neg (not_not.mpr hstack), if_neg]
      · rfl
      · rintro (h | h)
        · exact hentry h
        · exact h hstack
    · rw [if_pos hstack, if_pos (.inr hstack)]
      rfl

/-- A reset vector behind the partition is refused, also where the boot thread calls. -/
theorem rtFotaStartApplication_refused
    (hfind : falPartitionFind env rtFotaAppPartName = some appPart)
    (hentry : appPart.base + appPart.len < appEntry w.flash) :
    rtFotaStartApplication env w = .ok (.returned rtFotaGeneralErr) w := by
  have hrun := @rtFotaStartApplicationOn_eq env Cpu.reset w hfind
  rw [if_pos (.inl (.inr hentry))] at hrun
  rw [← rtFotaStartApplicationOn_fst env Cpu.reset, map_eq_pure_bind, bind_ok hrun]
  rfl

/-- The call is right exactly where its checks agree with what is launchable. -/
theorem launchesExactly_iff_agree (henv : env.OnBoard) :
    LaunchesExactly env cpu w ↔
      (((appEntry w.flash < appPart.base ∨ appEntry w.flash > appPart.base + appPart.len) ∨
        ¬ StackPasses (appStack w.flash)) ↔ ¬ Launchable (appStack w.flash) (appEntry w.flash)) := by
  unfold LaunchesExactly
  rw [rtFotaStartApplicationOn_eq henv.find_app]
  constructor
  · rintro ⟨hjump, hret⟩
    constructor
    · intro hrefuse hl
      obtain ⟨cpu', h⟩ := hjump hl
      rw [if_pos hrefuse] at h
      cases h
    · intro hl
      have h := hret hl
      by_contra hpass
      rw [if_neg hpass] at h
      cases h
  · intro hagree
    refine ⟨fun hl => ⟨cpu.launch (appStack w.flash), ?_⟩, fun hl => ?_⟩
    · rw [if_neg fun h => hagree.mp h hl]
    · rw [if_pos (hagree.mpr hl)]

theorem vectorsClear_iff (stack entry : Nat) :
    VectorsClear stack entry ↔
      (((entry < appPart.base ∨ entry > appPart.base + appPart.len) ∨ ¬ StackPasses stack) ↔
        ¬ Launchable stack entry) := by
  unfold VectorsClear Launchable
  generalize appPart.base = lo
  generalize appPart.len = len
  have hram : mhSramStart < mhSramEnd := by decide
  by_cases hle : stack ≤ mhSramEnd
  · rw [stackPasses_of_le hle]
    omega
  · by_cases hpass : StackPasses stack
    · simp only [hpass, not_true_eq_false, and_false, or_false, false_or, and_true]
      omega
    · simp only [hpass, not_false_eq_true, and_true, and_false, or_true, true_iff]
      omega

/-- **The launch jumps exactly with launchable words if and only if they are clear** of the end of
    the partition, both ends of the RAM and its aliases. -/
theorem start_application_exact_iff (henv : env.OnBoard) :
    LaunchesExactly env cpu w ↔ VectorsClear (appStack w.flash) (appEntry w.flash) :=
  (launchesExactly_iff_agree henv).trans (vectorsClear_iff _ _).symm

end Call

/-- A flash whose application partition starts with two words. -/
def vectorFlash (stack entry : BitVec 32) : Flash :=
  flashWith appPart.base (bytesLe32 stack ++ bytesLe32 entry) fun _ => 0xff

theorem start_application_exact_iff_inside :
    LaunchesExactly Env.board Cpu.reset (.powerOn (vectorFlash 0x20010000 0x01018101)) := by
  refine (start_application_exact_iff Env.board_onBoard).mpr ?_
  have hstack : appStack (vectorFlash 0x20010000 0x01018101) = 0x20010000 := by decide +kernel
  have hentry : appEntry (vectorFlash 0x20010000 0x01018101) = 0x01018101 := by decide +kernel
  rw [World.powerOn_flash, hstack, hentry]
  refine .inr (.inr (.inr ⟨by decide, by decide, by decide, by decide, fun h => ?_⟩))
  exact absurd h.1 (by decide)

/-- The top of the RAM is a legal initial stack pointer. -/
theorem start_application_refuses_top :
    ¬ LaunchesExactly Env.board Cpu.reset (.powerOn (vectorFlash 0x20100000 0x01018101)) := by
  have hstack : appStack (vectorFlash 0x20100000 0x01018101) = 0x20100000 := by decide +kernel
  have hentry : appEntry (vectorFlash 0x20100000 0x01018101) = 0x01018101 := by decide +kernel
  intro h
  obtain ⟨cpu', hjump⟩ := h.1 (by
    rw [World.powerOn_flash, hstack, hentry]
    refine ⟨by decide, by decide, by decide⟩)
  have hpass : ¬ StackPasses 0x20100000 := by decide
  rw [rtFotaStartApplicationOn_eq Env.board_onBoard.find_app, World.powerOn_flash, hstack, hentry,
    if_pos (.inr hpass)] at hjump
  cases hjump

end Mh1903
