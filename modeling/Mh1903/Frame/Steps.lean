/-
  File:      Mh1903/Frame/Steps.lean
  Subject:   WHAT EVERY STEP OF AN UPGRADE KEEPS. An upgrade is made of sector erases, allocations,
             page programs, recorded faults and chunks; a relation that all of them keep is kept by
             the whole.
-/
import Mh1903.Frame.Quiet

namespace Mh1903

open Library

/-! ## 1. The copy -/

section Steps

variable {R : World → World → Prop} [Std.Refl R] [IsTrans World R] {env : Env}
variable (hf : ∀ f, Keeps R (fault f)) (hm : ∀ size, Keeps R (rtMalloc env size))
variable (hp : ∀ addr size buffer, Keeps R (flashProgramPage env addr size buffer))
include hf hp

theorem mhFlashWriteLoop_keeps (addr : Nat) (buf : List Byte) (size fuel written : Nat) :
    Keeps R (mhFlashWriteLoop env addr buf size fuel written) := by
  induction fuel generalizing written with
  | zero => exact keeps_throw _
  | succ fuel ih =>
      refine keeps_ite (keeps_bind ?_ fun _ => keeps_ite (ih _) (keeps_pure _)) (keeps_pure _)
      refine keeps_bind (load_keeps hf env buf written _) fun _ =>
        keeps_bind (hp _ _ _) fun _ => ?_
      exact keeps_ite (keeps_bind keeps_get fun _ => keeps_pure _) (keeps_pure _)

theorem falPartitionWrite_keeps (part : FalPartition) (addr : Nat) (buf : List Byte) (size : Nat) :
    Keeps R (falPartitionWrite env part addr buf size) := by
  refine keeps_ite (keeps_pure _) (keeps_ite ?_ (keeps_pure _))
  exact keeps_ite (keeps_pure _) (keeps_ite (keeps_pure _) (keeps_ite (keeps_pure _)
    (mhFlashWriteLoop_keeps hf hp _ _ _ _ _)))

theorem writeOut_keeps (buf : List Byte) (len : Nat) (st : CopyState) :
    Keeps R (writeOut env buf len st) := by
  refine keeps_bind (keeps_withExit (keeps_bind keeps_get fun w => ?_)) fun _ =>
    keeps_ite (keeps_throw_bind _) (keeps_pure _)
  split
  · exact keeps_throw _
  · exact keeps_bind (falPartitionWrite_keeps hf hp _ _ _ _) fun _ =>
      keeps_ite (keeps_throw_bind _) (keeps_pure _)

theorem deliverBlock_keeps (c : CopyCtx) (st : CopyState) : Keeps R (deliverBlock env c st) :=
  keeps_bind (decompressBlock_keeps hf env c st) fun _ =>
    keeps_ite (keeps_throw_bind _) (writeOut_keeps hf hp _ _ _)

/-- One pass of the tail loop. -/
theorem tailStep_keeps (c : CopyCtx) (st : CopyState) : Keeps R (tailStep env c st) := by
  refine keeps_ite (keeps_bind (rtMemcpy_keeps hf env _ _ _ _ _) fun _ =>
    keeps_ite ?_ (keeps_pure _)) (keeps_pure _)
  refine keeps_bind (clearCmprs_keeps hf c _) fun _ =>
    keeps_bind (rtMemcpy_keeps hf env _ _ _ _ _) fun _ => ?_
  exact keeps_bind (deliverBlock_keeps hf hp _ _) fun _ => keeps_pure _

theorem tailLoop_keeps (c : CopyCtx) (fuel : Nat) (st : CopyState) :
    Keeps R (tailLoop env c fuel st) := by
  induction fuel generalizing st with
  | zero => exact keeps_throw _
  | succ fuel ih =>
      refine keeps_ite (keeps_bind (tailStep_keeps hf hp _ _) fun next => ?_) (keeps_pure _)
      cases next with
      | none => exact keeps_pure _
      | some st' => exact ih st'

variable (hr : ∀ r, Keeps R (logRead r))
include hm hr

/-- One pass of the main loop. -/
theorem copyStep_keeps (c : CopyCtx) (st : CopyState) : Keeps R (copyStep env c st) := by
  refine keeps_ite ?_ ?_
  · exact keeps_bind (fetchBlock_keeps hf hm hr c st) fun _ =>
      deliverBlock_keeps hf hp _ _
  · exact keeps_bind (readChunk_keeps hf hm hr c st) fun _ => writeOut_keeps hf hp _ _ _

theorem copyLoop_keeps (c : CopyCtx) (fuel : Nat) (st : CopyState) :
    Keeps R (copyLoop env c fuel st) := by
  induction fuel generalizing st with
  | zero => exact keeps_throw _
  | succ fuel ih =>
      exact keeps_ite (keeps_bind (copyStep_keeps hf hm hp hr _ _) fun _ => ih _) (keeps_pure _)

/-- **The whole copy.** -/
theorem upgradeCopy_keeps (c : CopyCtx) (st : CopyState) : Keeps R (upgradeCopy env c st) := by
  refine keeps_bind (copyLoop_keeps hf hm hp hr _ _ _) fun st => ?_
  refine keeps_ite (keeps_bind (tailLoop_keeps hf hp _ _ _) fun _ => ?_)
    (keeps_bind (keeps_pure _) fun _ => ?_)
  all_goals exact keeps_ite (keeps_throw_bind _) (keeps_pure _)

end Steps

/-! ## 2. Setup and the whole function -/

section Setup

variable {R : World → World → Prop} [Std.Refl R] [IsTrans World R] {env : Env}
variable (he : ∀ s, Keeps R (flashEraseSector env s)) (hm : ∀ size, Keeps R (rtMalloc env size))
include he

theorem mhFlashEraseLoop_keeps (size n sector : Nat) :
    Keeps R (mhFlashEraseLoop env size n sector) := by
  induction n generalizing sector with
  | zero => exact keeps_pure _
  | succ n ih =>
      refine keeps_bind (he sector) fun _ => keeps_ite ?_ (keeps_pure _)
      exact keeps_bind keeps_get fun _ => keeps_ite (ih _) (keeps_pure _)

theorem rtFotaEraseAppPart_keeps : Keeps R (rtFotaEraseAppPart env) := by
  refine keeps_withExit (keeps_bind keeps_get fun w => ?_)
  split
  · exact keeps_throw _
  · refine keeps_bind ?_ fun _ => keeps_ite (keeps_throw_bind _) (keeps_pure _)
    refine keeps_ite (keeps_pure _) (keeps_ite ?_ (keeps_pure _))
    exact keeps_ite (keeps_pure _) (keeps_ite (keeps_pure _) (mhFlashEraseLoop_keeps he _ _ _))

include hm

theorem upgradeSetup_keeps (partName : Option (List Byte)) :
    Keeps R (upgradeSetup env partName) := by
  unfold upgradeSetup
  split
  · exact keeps_throw _
  · refine keeps_bind (rtFotaEraseAppPart_keeps he) fun _ => ?_
    refine keeps_ite (keeps_throw_bind _) (keeps_bind keeps_get fun w => ?_)
    refine keeps_bind (hm _) fun cryptBuf => ?_
    cases cryptBuf with
    | none => exact keeps_throw _
    | some cryptBuf =>
        exact keeps_bind (setupCrypt_keeps hm _) fun _ =>
          keeps_bind (setupCmprs_keeps hm _) fun _ => keeps_pure _

/-- **The whole upgrade.** -/
theorem rtFotaUpgrade_keeps (hf : ∀ f, Keeps R (fault f)) (hr : ∀ r, Keeps R (logRead r))
    (hp : ∀ addr size buffer, Keeps R (flashProgramPage env addr size buffer))
    (partName : Option (List Byte)) : Keeps R (rtFotaUpgrade env partName) :=
  keeps_withExit (keeps_bind (upgradeSetup_keeps he hm _) fun _ =>
    upgradeCopy_keeps hf hm hp hr _ _)

end Setup

end Mh1903
