/-
  File:      Mh1903/Frame/Cut.lean
  Subject:   POWER THAT FAILS. An upgrade under failing power is the upgrade under lasting power, or
             it is cut in front of a flash operation; where the power lasts for every operation of
             the uncut run, nothing is cut.
-/
import Mh1903.Frame.Quiet
import Mh1903.Library.Interrupt

namespace Mh1903

open Library

/-- `env` with power for the operations that `p` names. -/
def Env.cut (env : Env) (p : Nat → Bool) : Env := { env with powered := p }

/-- The run stopped for want of power, in front of the next operation. -/
def PowerFailed (p : Nat → Bool) (e : Stop) (w : World) : Prop :=
  e = .powerLoss ∧ ¬ p w.ops.length = true

/-- `y` is `x` under the power `p`. -/
abbrev Cuts (p : Nat → Bool) {α : Type} (x y : M α) : Prop :=
  Interrupts (fun w => w.ops.length) (fun n => p n = true) .powerLoss x y

variable {env : Env} {p : Nat → Bool}

theorem cuts_quiet {α : Type} {x : M α} (h : Keeps Quiet x) : Cuts p x x := by
  refine interrupts_refl fun w => ?_
  show w.ops.length ≤ (final x w).ops.length
  rw [(h w).ops]

theorem cuts_pure {α : Type} (a : α) : Cuts p (pure a : M α) (pure a) := cuts_quiet (keeps_pure a)

theorem cuts_throw {α : Type} (e : Stop) : Cuts p (throw e : M α) (throw e) :=
  cuts_quiet (keeps_throw e)

theorem cuts_throw_bind {α β : Type} {f g : α → M β} (e : Stop) :
    Cuts p ((throw e : M α) >>= f) ((throw e : M α) >>= g) :=
  ⟨keeps_throw_bind e, fun _ => .inl rfl⟩

theorem cuts_get : Cuts p (get : M World) get := cuts_quiet keeps_get

theorem final_withExit (body : M Int) (w : World) : final (withExit body) w = final body w := by
  unfold final withExit
  cases body w with
  | ok r w' => rfl
  | error e w' => cases e <;> rfl

theorem cuts_withExit {x y : M Int} (h : Cuts p x y) : Cuts p (withExit x) (withExit y) := by
  refine ⟨keeps_withExit h.ticks, fun w => ?_⟩
  rw [final_withExit]
  rcases h.run w with heq | ⟨w', hstop, hcut⟩
  · refine .inl ?_
    unfold withExit
    rw [heq]
  · refine .inr ⟨w', ?_, hcut⟩
    unfold withExit
    rw [hstop]

/-! ## 1. Blocks -/

theorem fillHdrLoop_cut (n : Nat) (st : CopyState) :
    fillHdrLoop (env.cut p) n st = fillHdrLoop env n st := by
  induction n generalizing st with
  | zero => rfl
  | succ n ih =>
      unfold fillHdrLoop
      exact congrArg (takeHdrByte env _ st >>= ·) (funext fun _ => ih _)

theorem fetchInChunkLoop_cut (c : CopyCtx) (fuel i : Nat) (st : CopyState) :
    fetchInChunkLoop (env.cut p) c fuel i st = fetchInChunkLoop env c fuel i st := by
  induction fuel generalizing i st with
  | zero => rfl
  | succ fuel ih =>
      have hstep : (takeHdrByte (env.cut p) i st >>= fun st =>
          fetchInChunkLoop (env.cut p) c fuel (i + 1) st) =
          takeHdrByte env i st >>= fun st => fetchInChunkLoop env c fuel (i + 1) st :=
        congrArg (takeHdrByte env i st >>= ·) (funext fun _ => ih _ _)
      unfold fetchInChunkLoop
      rw [hstep]
      rfl

theorem fetchSplitHdr_cut (c : CopyCtx) (i : Nat) (st : CopyState) :
    fetchSplitHdr (env.cut p) c i st = fetchSplitHdr env c i st := by
  unfold fetchSplitHdr
  simp only [fillHdrLoop_cut]
  rfl

/-- The power does not matter to the fetching of a block. -/
theorem fetchBlock_cut (c : CopyCtx) (st : CopyState) :
    fetchBlock (env.cut p) c st = fetchBlock env c st := by
  unfold fetchBlock fetchInChunk
  simp only [fetchInChunkLoop_cut, fetchSplitHdr_cut]
  rfl

/-! ## 2. Operations -/

section Driver

variable (hpow : ∀ n, env.powered n = true)
include hpow

theorem flashOp_cuts (op : FlashOp) (run : Nat → Flash → Bool × Flash) :
    Cuts p (flashOp env op run) (flashOp (env.cut p) op run) := by
  have hop : ∀ w, flashOp env op run w = .ok (run w.ops.length w.flash).1
      { w with flash := (run w.ops.length w.flash).2, ops := op :: w.ops } := by
    intro w
    unfold flashOp
    rw [get_bind, if_pos (hpow _)]
    rfl
  refine ⟨fun w => ?_, fun w => ?_⟩
  · rw [final_of_ok (hop w)]
    exact Nat.le_succ _
  · by_cases hlive : p w.ops.length = true
    · refine .inl ?_
      rw [hop]
      unfold flashOp
      rw [get_bind, if_pos (show (env.cut p).powered w.ops.length = true from hlive)]
      rfl
    · refine .inr ⟨w, ?_, hlive, Nat.le_refl _, ?_⟩
      · unfold flashOp
        rw [get_bind, if_neg (show ¬ (env.cut p).powered w.ops.length = true from hlive)]
        rfl
      · rw [final_of_ok (hop w)]
        exact Nat.lt_succ_self _

theorem mhFlashEraseLoop_cuts (size n sector : Nat) :
    Cuts p (mhFlashEraseLoop env size n sector) (mhFlashEraseLoop (env.cut p) size n sector) := by
  induction n generalizing sector with
  | zero => exact cuts_pure _
  | succ n ih =>
      refine interrupts_bind (flashOp_cuts hpow _ _) fun _ => interrupts_ite ?_ (cuts_pure _)
      exact interrupts_bind cuts_get fun _ => interrupts_ite (ih _) (cuts_pure _)

theorem falPartitionErase_cuts (part : FalPartition) (addr size : Nat) :
    Cuts p (falPartitionErase env part addr size) (falPartitionErase (env.cut p) part addr size) := by
  refine interrupts_ite (cuts_pure _) (interrupts_ite ?_ (cuts_pure _))
  exact interrupts_ite (cuts_pure _) (interrupts_ite (cuts_pure _)
    (mhFlashEraseLoop_cuts hpow _ _ _))

theorem mhFlashWriteStep_cuts (addr : Nat) (buf : List Byte) (written len : Nat) :
    Cuts p (mhFlashWriteStep env addr buf written len)
      (mhFlashWriteStep (env.cut p) addr buf written len) := by
  refine interrupts_bind (cuts_quiet (load_quiet env buf written len)) fun _ =>
    interrupts_bind (flashOp_cuts hpow _ _) fun _ => ?_
  exact interrupts_ite (interrupts_bind cuts_get fun _ => cuts_pure _) (cuts_pure _)

theorem mhFlashWriteLoop_cuts (addr : Nat) (buf : List Byte) (size fuel written : Nat) :
    Cuts p (mhFlashWriteLoop env addr buf size fuel written)
      (mhFlashWriteLoop (env.cut p) addr buf size fuel written) := by
  induction fuel generalizing written with
  | zero => exact cuts_throw _
  | succ fuel ih =>
      refine interrupts_ite ?_ (cuts_pure _)
      exact interrupts_bind (mhFlashWriteStep_cuts hpow _ _ _ _) fun _ =>
        interrupts_ite (ih _) (cuts_pure _)

theorem falPartitionWrite_cuts (part : FalPartition) (addr : Nat) (buf : List Byte) (size : Nat) :
    Cuts p (falPartitionWrite env part addr buf size)
      (falPartitionWrite (env.cut p) part addr buf size) := by
  refine interrupts_ite (cuts_pure _) (interrupts_ite ?_ (cuts_pure _))
  exact interrupts_ite (cuts_pure _) (interrupts_ite (cuts_pure _) (interrupts_ite (cuts_pure _)
    (mhFlashWriteLoop_cuts hpow _ _ _ _ _)))

/-! ## 3. The upgrade -/

theorem rtFotaEraseAppPart_cuts :
    Cuts p (rtFotaEraseAppPart env) (rtFotaEraseAppPart (env.cut p)) := by
  refine cuts_withExit (interrupts_bind cuts_get fun w => ?_)
  rw [show falPartitionFind (env.cut p) = falPartitionFind env from rfl]
  split
  · exact cuts_throw _
  · exact interrupts_bind (falPartitionErase_cuts hpow _ _ _) fun _ =>
      interrupts_ite (cuts_throw_bind _) (cuts_pure _)

theorem writeOut_cuts (buf : List Byte) (len : Nat) (st : CopyState) :
    Cuts p (writeOut env buf len st) (writeOut (env.cut p) buf len st) := by
  refine interrupts_bind (cuts_withExit (interrupts_bind cuts_get fun w => ?_)) fun _ =>
    interrupts_ite (cuts_throw_bind _) (cuts_pure _)
  rw [show falPartitionFind (env.cut p) = falPartitionFind env from rfl]
  split
  · exact cuts_throw _
  · exact interrupts_bind (falPartitionWrite_cuts hpow _ _ _ _) fun _ =>
      interrupts_ite (cuts_throw_bind _) (cuts_pure _)

theorem deliverBlock_cuts (c : CopyCtx) (st : CopyState) :
    Cuts p (deliverBlock env c st) (deliverBlock (env.cut p) c st) :=
  interrupts_bind (cuts_quiet (decompressBlock_quiet env c st)) fun _ =>
    interrupts_ite (cuts_throw_bind _) (writeOut_cuts hpow _ _ _)

theorem copyStep_cuts (c : CopyCtx) (st : CopyState) :
    Cuts p (copyStep env c st) (copyStep (env.cut p) c st) := by
  have hfetch : Cuts p (fetchBlock env c st) (fetchBlock (env.cut p) c st) := by
    rw [fetchBlock_cut]
    exact cuts_quiet (fetchBlock_quiet env c st)
  refine interrupts_ite ?_ ?_
  · exact interrupts_bind hfetch fun _ => deliverBlock_cuts hpow _ _
  · exact interrupts_bind (cuts_quiet (readChunk_quiet env c st)) fun _ =>
      writeOut_cuts hpow _ _ _

theorem copyLoop_cuts (c : CopyCtx) (fuel : Nat) (st : CopyState) :
    Cuts p (copyLoop env c fuel st) (copyLoop (env.cut p) c fuel st) := by
  induction fuel generalizing st with
  | zero => exact cuts_throw _
  | succ fuel ih =>
      exact interrupts_ite (interrupts_bind (copyStep_cuts hpow _ _) fun _ => ih _) (cuts_pure _)

theorem tailStep_cuts (c : CopyCtx) (st : CopyState) :
    Cuts p (tailStep env c st) (tailStep (env.cut p) c st) := by
  refine interrupts_ite (interrupts_bind (cuts_quiet (rtMemcpy_quiet env _ _ _ _ _)) fun _ =>
    interrupts_ite ?_ (cuts_pure _)) (cuts_pure _)
  refine interrupts_bind (cuts_quiet (clearCmprs_quiet c _)) fun _ =>
    interrupts_bind (cuts_quiet (rtMemcpy_quiet env _ _ _ _ _)) fun _ => ?_
  exact interrupts_bind (deliverBlock_cuts hpow _ _) fun _ => cuts_pure _

theorem tailLoop_cuts (c : CopyCtx) (fuel : Nat) (st : CopyState) :
    Cuts p (tailLoop env c fuel st) (tailLoop (env.cut p) c fuel st) := by
  induction fuel generalizing st with
  | zero => exact cuts_throw _
  | succ fuel ih =>
      refine interrupts_ite (interrupts_bind (tailStep_cuts hpow _ _) fun next => ?_) (cuts_pure _)
      cases next with
      | none => exact cuts_pure _
      | some st' => exact ih st'

theorem upgradeCopy_cuts (c : CopyCtx) (st : CopyState) :
    Cuts p (upgradeCopy env c st) (upgradeCopy (env.cut p) c st) := by
  refine interrupts_bind (copyLoop_cuts hpow _ _ _) fun st => ?_
  refine interrupts_ite (interrupts_bind (tailLoop_cuts hpow _ _ _) fun _ => ?_)
    (interrupts_bind (cuts_pure _) fun _ => ?_)
  all_goals exact interrupts_ite (cuts_throw_bind _) (cuts_pure _)

theorem upgradeSetup_cuts (partName : Option (List Byte)) :
    Cuts p (upgradeSetup env partName) (upgradeSetup (env.cut p) partName) := by
  unfold upgradeSetup
  rw [show falPartitionFind (env.cut p) = falPartitionFind env from rfl]
  split
  · exact cuts_throw _
  · refine interrupts_bind (rtFotaEraseAppPart_cuts hpow) fun _ => ?_
    refine interrupts_ite (cuts_throw_bind _) (interrupts_bind cuts_get fun w => ?_)
    refine interrupts_bind (cuts_quiet (rtMalloc_quiet env _)) fun cryptBuf => ?_
    cases cryptBuf with
    | none => exact cuts_throw _
    | some cryptBuf =>
        exact interrupts_bind (cuts_quiet (setupCrypt_quiet env _)) fun _ =>
          interrupts_bind (cuts_quiet (setupCmprs_quiet env _)) fun _ => cuts_pure _

/-- **An upgrade under failing power** is the whole upgrade or a part of it. -/
theorem rtFotaUpgrade_cuts (partName : Option (List Byte)) :
    Cuts p (rtFotaUpgrade env partName) (rtFotaUpgrade (env.cut p) partName) :=
  cuts_withExit (interrupts_bind (upgradeSetup_cuts hpow _) fun _ => upgradeCopy_cuts hpow _ _)

end Driver

end Mh1903
