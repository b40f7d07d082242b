/-
  File:      Mh1903/Frame/Quiet.lean
  Subject:   WHAT DOES NOT TOUCH THE FLASH. Buffer accesses, allocations, chunk reads, block
             fetches and decompression change neither flash nor header.
-/
import Mh1903.Model.Boot

namespace Mh1903

open Library

/-- Flash, header and executed flash operations are the same. -/
structure Quiet (w w' : World) : Prop where
  flash : w'.flash = w.flash
  head : w'.fotaPartHead = w.fotaPartHead
  ops : w'.ops = w.ops

instance : Std.Refl Quiet := ⟨fun _ => ⟨rfl, rfl, rfl⟩⟩

instance : IsTrans World Quiet :=
  ⟨fun _ _ _ h₁ h₂ => ⟨h₂.flash.trans h₁.flash, h₂.head.trans h₁.head, h₂.ops.trans h₁.ops⟩⟩

theorem fault_quiet (f : MemFault) : Keeps Quiet (fault f) := fun _ => ⟨rfl, rfl, rfl⟩

theorem logRead_quiet (r : PartRead) : Keeps Quiet (logRead r) := fun _ => ⟨rfl, rfl, rfl⟩

theorem rtMalloc_quiet (env : Env) (size : Nat) : Keeps Quiet (rtMalloc env size) := by
  refine keeps_bind keeps_get fun w => keeps_bind ?_ fun _ => ?_
  · intro s; exact ⟨rfl, rfl, rfl⟩
  · exact keeps_ite (keeps_pure _) (keeps_pure _)

section Tame

-- All of this is made of recorded faults, recorded chunks and allocations: what these keep, it
-- keeps.
variable {R : World → World → Prop} [Std.Refl R] [IsTrans World R]
variable (hf : ∀ f, Keeps R (fault f))

/-! ## 1. Buffers -/

section Buffers

include hf

theorem load_keeps (env : Env) (buf : List Byte) (off n : Nat) : Keeps R (load env buf off n) :=
  keeps_ite (keeps_bind (hf _) fun _ => keeps_pure _) (keeps_pure _)

theorem store_keeps (buf : List Byte) (off : Nat) (data : List Byte) :
    Keeps R (store buf off data) :=
  keeps_ite (keeps_bind (hf _) fun _ => keeps_throw_bind _) (keeps_pure _)

theorem rtMemcpy_keeps (env : Env) (dst : List Byte) (dstOff : Nat) (src : List Byte)
    (srcOff count : Nat) : Keeps R (rtMemcpy env dst dstOff src srcOff count) :=
  keeps_bind (load_keeps hf _ _ _ _) fun _ => store_keeps hf _ _ _

theorem rtMemset_keeps (s : List Byte) (c : Byte) (count : Nat) :
    Keeps R (rtMemset s c count) := store_keeps hf _ _ _

theorem clearCmprs_keeps (c : CopyCtx) (st : CopyState) : Keeps R (clearCmprs c st) :=
  keeps_bind (rtMemset_keeps hf _ _ _) fun _ => keeps_pure _

theorem takeHdrByte_keeps (env : Env) (i : Nat) (st : CopyState) :
    Keeps R (takeHdrByte env i st) :=
  keeps_bind (load_keeps hf _ _ _ _) fun _ => keeps_bind (store_keeps hf _ _ _) fun _ =>
    keeps_pure _

theorem fillHdrLoop_keeps (env : Env) (n : Nat) (st : CopyState) :
    Keeps R (fillHdrLoop env n st) := by
  induction n generalizing st with
  | zero => exact keeps_pure _
  | succ n ih => exact keeps_bind (takeHdrByte_keeps hf _ _ _) fun _ => ih _

theorem decompressBlock_keeps (env : Env) (c : CopyCtx) (st : CopyState) :
    Keeps R (decompressBlock env c st) := by
  refine keeps_bind (rtMemset_keeps hf _ _ _) fun buf => ?_
  split
  · exact keeps_pure _
  · exact keeps_bind (load_keeps hf _ _ _ _) fun _ => keeps_bind (store_keeps hf _ _ _) fun _ =>
      keeps_pure _

end Buffers

/-! ## 2. Setup -/

variable {env : Env} (hm : ∀ size, Keeps R (rtMalloc env size))

section Setup

include hm

theorem setupCrypt_keeps (h : RtFotaPartHead) : Keeps R (setupCrypt env h) := by
  refine keeps_ite ?_ (keeps_ite (keeps_throw _) (keeps_pure _))
  refine keeps_bind (hm _) fun _ => keeps_bind (hm _) fun _ => ?_
  exact keeps_ite (keeps_throw_bind _) (keeps_pure _)

theorem setupCmprs_keeps (h : RtFotaPartHead) : Keeps R (setupCmprs env h) := by
  refine keeps_ite ?_ (keeps_ite ?_ (keeps_ite (keeps_throw _) (keeps_pure _)))
  · refine keeps_bind (hm _) fun a => keeps_bind (hm _) fun b => ?_
    cases a <;> cases b <;> first | exact keeps_throw _ | exact keeps_pure _
  · refine keeps_bind (hm _) fun a => keeps_bind (hm _) fun b => keeps_bind (hm _) fun s => ?_
    cases a <;> cases b <;> cases s <;> first | exact keeps_throw _ | exact keeps_pure _

end Setup

/-! ## 3. Chunks and blocks -/

variable (hr : ∀ r, Keeps R (logRead r))
include hf hm hr

theorem rtFotaReadPart_keeps (part : FalPartition) (readPos : Nat) (aesIv : Option (List Byte))
    (decryptBuf : List Byte) (decryptLen : Nat) :
    Keeps R (rtFotaReadPart env part readPos aesIv decryptBuf decryptLen) := by
  unfold rtFotaReadPart
  refine keeps_ite (keeps_pure _) (keeps_bind (rtMemset_keeps hf _ _ _) fun buf => ?_)
  cases aesIv with
  | none =>
      refine keeps_bind keeps_get fun w => ?_
      split
      · exact keeps_pure _
      · exact keeps_ite (keeps_pure _) (keeps_bind (store_keeps hf _ _ _) fun _ =>
          keeps_bind (hr _) fun _ => keeps_pure _)
  | some iv =>
      refine keeps_bind (hm _) fun m => ?_
      cases m with
      | none => exact keeps_pure _
      | some enc =>
          refine keeps_bind (rtMemset_keeps hf _ _ _) fun enc => keeps_bind keeps_get fun w => ?_
          split
          · exact keeps_pure _
          · refine keeps_ite (keeps_pure _) (keeps_bind (store_keeps hf _ _ _) fun _ => ?_)
            exact keeps_bind (store_keeps hf _ _ _) fun _ => keeps_bind (hr _) fun _ =>
              keeps_pure _

theorem readChunk_keeps (c : CopyCtx) (st : CopyState) : Keeps R (readChunk env c st) := by
  refine keeps_bind (rtFotaReadPart_keeps hf hm hr _ _ _ _ _) fun r => ?_
  exact keeps_ite (keeps_throw_bind _) (keeps_pure _)

theorem fetchNewChunk_keeps (c : CopyCtx) (st : CopyState) : Keeps R (fetchNewChunk env c st) :=
  keeps_bind (readChunk_keeps hf hm hr _ _) fun _ =>
    keeps_bind (rtMemcpy_keeps hf _ _ _ _ _ _) fun _ =>
      keeps_bind (clearCmprs_keeps hf _ _) fun _ =>
        keeps_bind (rtMemcpy_keeps hf _ _ _ _ _ _) fun _ => keeps_pure _

theorem fetchPayload_keeps (c : CopyCtx) (st : CopyState) : Keeps R (fetchPayload env c st) := by
  refine keeps_bind (clearCmprs_keeps hf _ _) fun st => keeps_ite ?_ ?_
  · exact keeps_bind (rtMemcpy_keeps hf _ _ _ _ _ _) fun _ =>
      keeps_bind (readChunk_keeps hf hm hr _ _) fun _ =>
        keeps_bind (rtMemcpy_keeps hf _ _ _ _ _ _) fun _ => keeps_pure _
  · exact keeps_bind (rtMemcpy_keeps hf _ _ _ _ _ _) fun _ => keeps_pure _

theorem fetchInChunkLoop_keeps (c : CopyCtx) (fuel i : Nat) (st : CopyState) :
    Keeps R (fetchInChunkLoop env c fuel i st) := by
  induction fuel generalizing i st with
  | zero => exact keeps_throw _
  | succ fuel ih =>
      refine keeps_ite (keeps_ite ?_ ?_) (keeps_pure _)
      · exact keeps_bind (takeHdrByte_keeps hf _ _ _) fun _ => ih _ _
      · exact keeps_bind (fetchPayload_keeps hf hm hr _ _) fun _ => keeps_pure _

theorem fetchSplitHdr_keeps (c : CopyCtx) (i : Nat) (st : CopyState) :
    Keeps R (fetchSplitHdr env c i st) :=
  keeps_bind (readChunk_keeps hf hm hr _ _) fun _ => keeps_bind (fillHdrLoop_keeps hf _ _ _) fun _ =>
    keeps_bind (clearCmprs_keeps hf _ _) fun _ =>
      keeps_bind (rtMemcpy_keeps hf _ _ _ _ _ _) fun _ => keeps_pure _

theorem fetchInChunk_keeps (c : CopyCtx) (st : CopyState) : Keeps R (fetchInChunk env c st) :=
  keeps_bind (fetchInChunkLoop_keeps hf hm hr _ _ _ _) fun _ =>
    keeps_ite (fetchSplitHdr_keeps hf hm hr _ _ _) (keeps_pure _)

theorem fetchBlock_keeps (c : CopyCtx) (st : CopyState) : Keeps R (fetchBlock env c st) :=
  keeps_ite (fetchNewChunk_keeps hf hm hr _ _) (fetchInChunk_keeps hf hm hr _ _)

end Tame

/-! ## 4. No flash -/

section Quiet

variable (env : Env) (c : CopyCtx) (st : CopyState)

theorem load_quiet (buf : List Byte) (off n : Nat) : Keeps Quiet (load env buf off n) :=
  load_keeps fault_quiet _ _ _ _

theorem rtMemcpy_quiet (dst : List Byte) (dstOff : Nat) (src : List Byte) (srcOff count : Nat) :
    Keeps Quiet (rtMemcpy env dst dstOff src srcOff count) := rtMemcpy_keeps fault_quiet _ _ _ _ _ _

theorem readChunk_quiet : Keeps Quiet (readChunk env c st) :=
  readChunk_keeps fault_quiet (rtMalloc_quiet env) logRead_quiet _ _

theorem clearCmprs_quiet : Keeps Quiet (clearCmprs c st) := clearCmprs_keeps fault_quiet _ _

/-- **Fetching a block touches no flash.** -/
theorem fetchBlock_quiet : Keeps Quiet (fetchBlock env c st) :=
  fetchBlock_keeps fault_quiet (rtMalloc_quiet env) logRead_quiet _ _

theorem decompressBlock_quiet : Keeps Quiet (decompressBlock env c st) :=
  decompressBlock_keeps fault_quiet _ _ _

theorem setupCrypt_quiet (h : RtFotaPartHead) : Keeps Quiet (setupCrypt env h) :=
  setupCrypt_keeps (rtMalloc_quiet env) h

theorem setupCmprs_quiet (h : RtFotaPartHead) : Keeps Quiet (setupCmprs env h) :=
  setupCmprs_keeps (rtMalloc_quiet env) h

end Quiet

/-! ## 5. Programs without forbidden accesses -/

/-- From `w` to `w'` no forbidden access was made. -/
def NoFault (w w' : World) : Prop := w'.faults = w.faults

instance : Std.Refl NoFault := ⟨fun _ => rfl⟩

instance : IsTrans World NoFault := ⟨fun _ _ _ h₁ h₂ => Eq.trans h₂ h₁⟩

theorem rtMalloc_noFault (env : Env) (size : Nat) : Keeps NoFault (rtMalloc env size) := by
  unfold rtMalloc
  refine keeps_bind keeps_get fun w => keeps_bind (fun _ => rfl) fun _ => ?_
  exact keeps_ite (keeps_pure _) (keeps_pure _)

theorem flashOp_noFault (env : Env) (op : FlashOp) (run : Nat → Flash → Bool × Flash) :
    Keeps NoFault (flashOp env op run) := by
  unfold flashOp
  refine keeps_bind keeps_get fun w => keeps_ite ?_ (keeps_throw _)
  exact keeps_bind (fun _ => rfl) fun _ => keeps_pure _

end Mh1903
