/-
  File:      Mh1903/Copy/Ends.lean
  Subject:   AN UPGRADE ENDS. A pass of the main loop reads a chunk or moves the cursor on in the
             chunk at hand, a pass of the tail loop moves the cursor on; so the two loops stop after a
             number of passes that the header bounds, whatever the body, the decompressors, the ROM,
             the memory and the power do.

  * `Ends x` -- no run of `x` is out of fuel;
  * `Further st st'` -- what one pass does to position and cursor;
  * `passesLeft` -- the measure: chunks left, then blocks that still start in the chunk.
-/
import Mh1903.Frame.ReadBack
import Mh1903.Frame.Upgrade

namespace Mh1903

open Library

/-! ## 1. Calls -/

/-- However a run of `x` stops, it is not for want of fuel. -/
def Ends {α : Type} (x : M α) : Prop := Stops x (· ≠ .outOfFuel)

/-- `P` allows every reason a function of the upgrade stops for: a crash, the loss of power, and each
    error code but that of success. -/
structure Reasons (P : Stop → Prop) : Prop where
  crash : P .crash
  powerLoss : P .powerLoss
  exit : ∀ {err : Int}, err ≠ rtFotaNoErr → P (.exit err)

variable {env : Env}

section Calls

variable {P : Stop → Prop} (hP : Reasons P)
include hP

theorem exit_ends {α : Type} {err : Int} (h : err ≠ rtFotaNoErr) : Stops (exit err : M α) P :=
  stops_throw (hP.exit h)

omit hP in
theorem withExit_ends {body : M Int} (h : Stops body P) : Stops (withExit body) P := by
  intro w e w' hrun
  unfold withExit at hrun
  cases hb : body w with
  | ok r w₁ =>
      rw [hb] at hrun
      cases hrun
  | error e₁ w₁ =>
      rw [hb] at hrun
      have he := h w e₁ w₁ hb
      cases e₁ with
      | exit err => cases hrun
      | crash => cases hrun; exact he
      | powerLoss => cases hrun; exact he
      | outOfFuel => cases hrun; exact he

theorem store_ends (buf : List Byte) (off : Nat) (data : List Byte) : Stops (store buf off data) P :=
  stops_ite (stops_bind (stops_modify _) fun _ => stops_throw_bind hP.crash) (stops_pure _)

theorem rtMemcpy_ends (dst : List Byte) (dstOff : Nat) (src : List Byte) (srcOff count : Nat) :
    Stops (rtMemcpy env dst dstOff src srcOff count) P :=
  stops_bind (load_stops _ _ _) fun _ => store_ends hP _ _ _

theorem rtMemset_ends (s : List Byte) (c : Byte) (count : Nat) : Stops (rtMemset s c count) P :=
  store_ends hP _ _ _

/-- Every pass of the write loop programs at least one byte. -/
theorem mhFlashWriteLoop_ends (addr : Nat) (buf : List Byte) (size : Nat) {fuel written : Nat}
    (h : size - written < fuel) : Stops (mhFlashWriteLoop env addr buf size fuel written) P := by
  induction fuel generalizing written with
  | zero => omega
  | succ fuel ih =>
      unfold mhFlashWriteLoop
      split
      · rename_i hlt
        have hlen := (@mhFlashWriteLen_spec addr size written hlt).1
        exact stops_bind (mhFlashWriteStep_stops hP.powerLoss _ _ _ _) fun _ =>
          stops_ite (ih (by omega)) (stops_pure _)
      · exact stops_pure _

theorem falPartitionWrite_ends (part : FalPartition) (addr : Nat) (buf : List Byte) (size : Nat) :
    Stops (falPartitionWrite env part addr buf size) P := by
  refine stops_ite (stops_pure _) (stops_ite ?_ (stops_pure _))
  exact stops_ite (stops_pure _) (stops_ite (stops_pure _) (stops_ite (stops_pure _)
    (mhFlashWriteLoop_ends hP _ _ _ (by omega))))

theorem rtFotaEraseAppPart_ends (env : Env) : Stops (rtFotaEraseAppPart env) P := by
  refine withExit_ends (stops_bind stops_get fun w => ?_)
  split
  · exact exit_ends hP (by decide)
  · exact stops_bind (falPartitionErase_stops hP.powerLoss _ _ _) fun _ =>
      stops_ite (stops_throw_bind (hP.exit (by decide))) (stops_pure _)

theorem rtFotaWriteAppPart_ends (fwPos : Nat) (fwBuf : List Byte) (fwLen : Nat) :
    Stops (rtFotaWriteAppPart env fwPos fwBuf fwLen) P := by
  refine withExit_ends (stops_bind stops_get fun w => ?_)
  split
  · exact exit_ends hP (by decide)
  · exact stops_bind (falPartitionWrite_ends hP _ _ _ _) fun _ =>
      stops_ite (stops_throw_bind (hP.exit (by decide))) (stops_pure _)

theorem rtFotaReadPart_ends (part : FalPartition) (readPos : Nat) (aesIv : Option (List Byte))
    (buf : List Byte) (len : Nat) : Stops (rtFotaReadPart env part readPos aesIv buf len) P := by
  unfold rtFotaReadPart
  refine stops_ite (stops_pure _) (stops_bind (rtMemset_ends hP _ _ _) fun buf => ?_)
  cases aesIv with
  | none =>
      refine stops_bind stops_get fun w => ?_
      split
      · exact stops_pure _
      · refine stops_ite (stops_pure _) (stops_bind (store_ends hP _ _ _) fun _ => ?_)
        exact stops_bind (stops_modify _) fun _ => stops_pure _
  | some iv =>
      refine stops_bind (rtMalloc_stops _ _) fun enc => ?_
      cases enc with
      | none => exact stops_pure _
      | some enc =>
          refine stops_bind (rtMemset_ends hP _ _ _) fun enc => stops_bind stops_get fun w => ?_
          split
          · exact stops_pure _
          · refine stops_ite (stops_pure _) (stops_bind (store_ends hP _ _ _) fun _ => ?_)
            refine stops_bind (store_ends hP _ _ _) fun _ => ?_
            exact stops_bind (stops_modify _) fun _ => stops_pure _

/-! ## 2. Setup and blocks -/

theorem setupCrypt_ends (h : RtFotaPartHead) : Stops (setupCrypt env h) P := by
  refine stops_ite ?_ (stops_ite (exit_ends hP (by decide)) (stops_pure _))
  refine stops_bind (rtMalloc_stops _ _) fun _ => stops_bind (rtMalloc_stops _ _) fun _ => ?_
  exact stops_ite (stops_throw_bind (hP.exit (by decide))) (stops_pure _)

theorem setupCmprs_ends (h : RtFotaPartHead) : Stops (setupCmprs env h) P := by
  refine stops_ite ?_ (stops_ite ?_ (stops_ite (exit_ends hP (by decide)) (stops_pure _)))
  · refine stops_bind (rtMalloc_stops _ _) fun a => stops_bind (rtMalloc_stops _ _) fun b => ?_
    split
    · exact stops_pure _
    · exact exit_ends hP (by decide)
  · refine stops_bind (rtMalloc_stops _ _) fun a => stops_bind (rtMalloc_stops _ _) fun b =>
      stops_bind (rtMalloc_stops _ _) fun s => ?_
    split
    · exact stops_pure _
    · exact exit_ends hP (by decide)

theorem upgradeSetup_ends (partName : Option (List Byte)) : Stops (upgradeSetup env partName) P := by
  unfold upgradeSetup
  split
  · exact exit_ends hP (by decide)
  · refine stops_bind (rtFotaEraseAppPart_ends hP env) fun fotaErr => ?_
    by_cases herr : fotaErr ≠ rtFotaNoErr
    · rw [if_pos herr]
      exact stops_throw_bind (hP.exit herr)
    rw [if_neg herr]
    refine stops_bind stops_get fun w => ?_
    refine stops_bind (rtMalloc_stops _ _) fun cryptBuf => ?_
    split
    · exact exit_ends hP (by decide)
    · exact stops_bind (setupCrypt_ends hP _) fun _ => stops_bind (setupCmprs_ends hP _) fun _ =>
        stops_pure _

section Blocks

variable (c : CopyCtx) (st : CopyState)

theorem readChunk_ends : Stops (readChunk env c st) P :=
  stops_bind (rtFotaReadPart_ends hP _ _ _ _ _) fun _ =>
    stops_ite (stops_throw_bind (hP.exit (by decide))) (stops_pure _)

theorem clearCmprs_ends : Stops (clearCmprs c st) P :=
  stops_bind (rtMemset_ends hP _ _ _) fun _ => stops_pure _

theorem takeHdrByte_ends (i : Nat) : Stops (takeHdrByte env i st) P :=
  stops_bind (load_stops _ _ _) fun _ => stops_bind (store_ends hP _ _ _) fun _ => stops_pure _

theorem fillHdrLoop_ends (n : Nat) : Stops (fillHdrLoop env n st) P := by
  induction n generalizing st with
  | zero => exact stops_pure _
  | succ n ih => exact stops_bind (takeHdrByte_ends hP _ _) fun st => ih st

theorem fetchNewChunk_ends : Stops (fetchNewChunk env c st) P :=
  stops_bind (readChunk_ends hP _ _) fun _ => stops_bind (rtMemcpy_ends hP _ _ _ _ _) fun _ =>
    stops_bind (clearCmprs_ends hP _ _) fun _ => stops_bind (rtMemcpy_ends hP _ _ _ _ _) fun _ =>
      stops_pure _

theorem fetchPayload_ends : Stops (fetchPayload env c st) P := by
  refine stops_bind (clearCmprs_ends hP _ _) fun st => stops_ite ?_ ?_
  · exact stops_bind (rtMemcpy_ends hP _ _ _ _ _) fun _ => stops_bind (readChunk_ends hP _ _) fun _ =>
      stops_bind (rtMemcpy_ends hP _ _ _ _ _) fun _ => stops_pure _
  · exact stops_bind (rtMemcpy_ends hP _ _ _ _ _) fun _ => stops_pure _

/-- At most four header bytes are taken, then the payload. -/
theorem fetchInChunkLoop_ends {fuel i : Nat} (h : 4 < i + fuel) (hi : i ≤ 4) :
    Stops (fetchInChunkLoop env c fuel i st) P := by
  induction fuel generalizing i st with
  | zero => omega
  | succ fuel ih =>
      unfold fetchInChunkLoop
      refine stops_ite ?_ (stops_pure _)
      split
      · rename_i hlt
        have hlt : i < 4 := hlt
        exact stops_bind (takeHdrByte_ends hP _ _) fun st => ih st (by omega) hlt
      · exact stops_bind (fetchPayload_ends hP _ _) fun _ => stops_pure _

theorem fetchSplitHdr_ends (i : Nat) : Stops (fetchSplitHdr env c i st) P :=
  stops_bind (readChunk_ends hP _ _) fun _ => stops_bind (fillHdrLoop_ends hP _ _) fun _ =>
    stops_bind (clearCmprs_ends hP _ _) fun _ => stops_bind (rtMemcpy_ends hP _ _ _ _ _) fun _ =>
      stops_pure _

theorem fetchBlock_ends : Stops (fetchBlock env c st) P := by
  refine stops_ite (fetchNewChunk_ends hP _ _) ?_
  exact stops_bind (fetchInChunkLoop_ends hP _ _ (by decide) (by decide)) fun _ =>
    stops_ite (fetchSplitHdr_ends hP _ _ _) (stops_pure _)

theorem writeOut_ends (buf : List Byte) (len : Nat) : Stops (writeOut env buf len st) P :=
  stops_bind (rtFotaWriteAppPart_ends hP _ _ _) fun _ =>
    stops_ite (stops_throw_bind (hP.exit (by decide))) (stops_pure _)

theorem deliverBlock_ends : Stops (deliverBlock env c st) P := by
  refine stops_bind (stops_bind (rtMemset_ends hP _ _ _) fun _ => ?_) fun st =>
    stops_ite (stops_throw_bind (hP.exit (by decide))) (writeOut_ends hP _ _ _)
  split
  · exact stops_pure _
  · exact stops_bind (load_stops _ _ _) fun _ => stops_bind (store_ends hP _ _ _) fun _ =>
      stops_pure _

theorem copyStep_ends : Stops (copyStep env c st) P := by
  refine stops_ite ?_ ?_
  · exact stops_bind (fetchBlock_ends hP _ _) fun _ => deliverBlock_ends hP _ _
  · exact stops_bind (readChunk_ends hP _ _) fun _ => writeOut_ends hP _ _ _

theorem tailStep_ends : Stops (tailStep env c st) P := by
  refine stops_ite (stops_bind (rtMemcpy_ends hP _ _ _ _ _) fun _ => stops_ite ?_ (stops_pure _))
    (stops_pure _)
  exact stops_bind (clearCmprs_ends hP _ _) fun _ => stops_bind (rtMemcpy_ends hP _ _ _ _ _) fun _ =>
    stops_bind (deliverBlock_ends hP _ _) fun _ => stops_pure _

end Blocks

end Calls

/-! ## 3. What one pass does to position and cursor -/

/-- `st'` is `st` a chunk further, the cursor anywhere. -/
def Chunked (st st' : CopyState) : Prop :=
  st'.fwRawPos = st.fwRawPos + 4096 ∧ st'.fwRawLen = 4096

/-- One pass: a chunk read, or the cursor moved on in the chunk at hand. -/
inductive Further (st st' : CopyState) : Prop where
  | chunk (h : Chunked st st')
  | block (hpos : st'.fwRawPos = st.fwRawPos) (hlen : st'.fwRawLen = st.fwRawLen)
      (hin : st.blockHdrPos < 4096) (hnext : st.blockHdrPos + 4 ≤ st'.blockHdrPos)

section Progress

variable {c : CopyCtx} {st st₀ : CopyState}

theorem readChunk_chunked : Returns (readChunk env c st) (Chunked st) := by
  refine returns_bind (rtFotaReadPart_returns _ _ _ _ _ _) fun r hr => ?_
  refine returns_ite (fun _ => returns_throw_bind _) fun hneg => returns_pure ?_
  have hlen : r.1 = 4096 := hr.resolve_left hneg
  exact ⟨by rw [hlen]; rfl, by rw [hlen]; rfl⟩

theorem clearCmprs_chunked (h : Chunked st₀ st) : Returns (clearCmprs c st) (Chunked st₀) :=
  returns_bind (returns_any _) fun _ _ => returns_pure h

theorem fillHdrLoop_chunked (h : Chunked st₀ st) (n : Nat) :
    Returns (fillHdrLoop env n st) (Chunked st₀) := by
  induction n generalizing st with
  | zero => exact returns_pure h
  | succ n ih =>
      refine returns_bind (returns_bind (returns_any _) fun _ _ => returns_bind (returns_any _)
        fun _ _ => returns_pure ?_) fun st' h' => ih h'
      exact h

theorem fetchNewChunk_chunked : Returns (fetchNewChunk env c st) (Chunked st) :=
  returns_bind readChunk_chunked fun _ h => returns_bind (returns_any _) fun _ _ =>
    returns_bind (clearCmprs_chunked h) fun _ h => returns_bind (returns_any _) fun _ _ =>
      returns_pure h

theorem fetchSplitHdr_chunked (i : Nat) : Returns (fetchSplitHdr env c i st) (Chunked st) :=
  returns_bind readChunk_chunked fun st₁ h₁ =>
    returns_bind (P := Chunked st)
      (fillHdrLoop_chunked (show Chunked st { st₁ with blockHdrPos := 0 } from h₁) _) fun _ h₂ =>
        returns_bind (clearCmprs_chunked ⟨h₂.1, h₂.2⟩) fun _ h₃ => returns_bind (returns_any _) fun _ _ =>
          returns_pure ⟨h₃.1, h₃.2⟩

/-- The payload ends in the chunk at hand or in the next one. -/
theorem fetchPayload_further (hin : st.blockHdrPos < 4096) :
    Returns (fetchPayload env c st) fun st' => Chunked st st' ∨
      (st'.fwRawPos = st.fwRawPos ∧ st'.fwRawLen = st.fwRawLen ∧
        st.blockHdrPos ≤ st'.blockHdrPos) := by
  refine returns_bind (P := fun st' => st'.fwRawPos = st.fwRawPos ∧ st'.fwRawLen = st.fwRawLen ∧
    st'.blockHdrPos = st.blockHdrPos) (returns_bind (returns_any _) fun _ _ =>
      returns_pure ⟨rfl, rfl, rfl⟩) fun st₁ ⟨hpos, hlen, hcur⟩ => ?_
  refine returns_ite (fun _ => ?_) fun hroom => ?_
  · refine returns_bind (returns_any _) fun _ _ => returns_bind readChunk_chunked fun st₂ h₂ => ?_
    refine returns_bind (returns_any _) fun _ _ => returns_pure (.inl ⟨?_, h₂.2⟩)
    rw [← hpos]
    exact h₂.1
  · refine returns_bind (returns_any _) fun _ _ => returns_pure (.inr ⟨hpos, hlen, ?_⟩)
    simp only [rtFotaAlgoBuffSize] at hroom
    show st.blockHdrPos ≤ u32 (st₁.blockHdrPos + st₁.blockSize)
    rw [u32_eq (by omega)]
    omega

/-- The inner loop, `i` header bytes behind the cursor of `st₀`. -/
theorem fetchInChunkLoop_further (fuel : Nat) {i : Nat} (hi : i ≤ 4)
    (hpos : st.fwRawPos = st₀.fwRawPos) (hlen : st.fwRawLen = st₀.fwRawLen)
    (hcur : st.blockHdrPos = st₀.blockHdrPos + i) (hin : st₀.blockHdrPos < 4096) :
    Returns (fetchInChunkLoop env c fuel i st) fun r =>
      (r.1 < 4 → r.2.fwRawPos = st₀.fwRawPos) ∧ (¬ r.1 < 4 → Further st₀ r.2) := by
  induction fuel generalizing i st with
  | zero => exact returns_throw _
  | succ fuel ih =>
      unfold fetchInChunkLoop
      refine returns_ite (fun hcur' => returns_ite (fun hlt => ?_) fun hge => ?_) fun _ => ?_
      · have hlt : i < 4 := hlt
        refine returns_bind (P := fun st' => st'.fwRawPos = st.fwRawPos ∧
          st'.fwRawLen = st.fwRawLen ∧ st'.blockHdrPos = st.blockHdrPos + 1)
          (returns_bind (returns_any _) fun _ _ => returns_bind (returns_any _) fun _ _ =>
            returns_pure ⟨rfl, rfl, rfl⟩) fun st' ⟨h₁, h₂, h₃⟩ => ?_
        exact ih hlt (h₁.trans hpos) (h₂.trans hlen) (by omega)
      · have hge : ¬ i < 4 := hge
        refine returns_bind (fetchPayload_further hcur') fun st' h => returns_pure ?_
        refine ⟨fun h => absurd h hge, fun _ => ?_⟩
        rcases h with h | ⟨h₁, h₂, h₃⟩
        · exact .chunk ⟨by rw [h.1, hpos], h.2⟩
        · refine .block (h₁.trans hpos) (h₂.trans hlen) hin ?_
          show st₀.blockHdrPos + 4 ≤ st'.blockHdrPos
          omega
      · refine returns_pure ⟨fun _ => hpos, fun hge => .block hpos hlen hin ?_⟩
        have hge : ¬ i < 4 := hge
        show st₀.blockHdrPos + 4 ≤ st.blockHdrPos
        omega

theorem fetchBlock_further : Returns (fetchBlock env c st) (Further st) := by
  refine returns_ite (fun _ => fetchNewChunk_chunked.mono fun _ => .chunk) fun hin => ?_
  have hin : st.blockHdrPos < 4096 := Nat.lt_of_not_le hin
  refine returns_bind (fetchInChunkLoop_further 6 (Nat.zero_le _) rfl rfl rfl hin) fun r h => ?_
  refine returns_ite (fun hlt => ?_) fun hge => returns_pure (h.2 hge)
  exact (fetchSplitHdr_chunked _).mono fun st' h' => .chunk ⟨by rw [h'.1, h.1 hlt], h'.2⟩

/-- Delivering a block leaves the reading side alone. -/
theorem writeOut_returns (buf : List Byte) (len : Nat) :
    Returns (writeOut env buf len st) fun st' => st'.fwRawPos = st.fwRawPos ∧
      st'.fwRawLen = st.fwRawLen ∧ st'.blockHdrPos = st.blockHdrPos :=
  returns_bind (returns_any _) fun _ _ =>
    returns_ite (fun _ => returns_throw_bind _) fun _ => returns_pure ⟨rfl, rfl, rfl⟩

theorem deliverBlock_returns :
    Returns (deliverBlock env c st) fun st' => st'.fwRawPos = st.fwRawPos ∧
      st'.fwRawLen = st.fwRawLen ∧ st'.blockHdrPos = st.blockHdrPos := by
  refine returns_bind (P := fun st' => st'.fwRawPos = st.fwRawPos ∧
      st'.fwRawLen = st.fwRawLen ∧ st'.blockHdrPos = st.blockHdrPos)
    (returns_bind (returns_any _) fun buf _ => ?_) fun st₁ h₁ => ?_
  · split
    · exact returns_pure ⟨rfl, rfl, rfl⟩
    · exact returns_bind (returns_any _) fun _ _ => returns_bind (returns_any _) fun _ _ =>
        returns_pure ⟨rfl, rfl, rfl⟩
  · refine returns_ite (fun _ => returns_throw_bind _) fun _ => ?_
    exact (writeOut_returns _ _).mono fun st₂ h₂ =>
      ⟨h₂.1.trans h₁.1, h₂.2.1.trans h₁.2.1, h₂.2.2.trans h₁.2.2⟩

theorem Further.set {st' st'' : CopyState} (h : Further st st')
    (h' : st''.fwRawPos = st'.fwRawPos ∧ st''.fwRawLen = st'.fwRawLen ∧
      st''.blockHdrPos = st'.blockHdrPos) : Further st st'' := by
  obtain ⟨h₁, h₂, h₃⟩ := h'
  cases h with
  | chunk h => exact .chunk ⟨h₁.trans h.1, h₂.trans h.2⟩
  | block hpos hlen hin hnext => exact .block (h₁.trans hpos) (h₂.trans hlen) hin (h₃ ▸ hnext)

/-- **One pass of the main loop** gets further. -/
theorem copyStep_further : Returns (copyStep env c st) (Further st) := by
  refine returns_ite (fun _ => ?_) fun _ => ?_
  · exact returns_bind fetchBlock_further fun st₁ h₁ =>
      deliverBlock_returns.mono fun st₂ h₂ => h₁.set h₂
  · exact returns_bind readChunk_chunked fun st₁ h₁ =>
      (writeOut_returns _ _).mono fun st₂ h₂ => Further.set (.chunk h₁) h₂

/-- **One pass of the tail loop** moves the cursor on, inside the last chunk. -/
theorem tailStep_further : Returns (tailStep env c st) fun next => ∀ st', next = some st' →
    st'.fwRawLen = st.fwRawLen ∧ st.blockHdrPos < st.fwRawLen ∧
      st.blockHdrPos + 4 ≤ st'.blockHdrPos := by
  have hnone : ∀ st', (none : Option CopyState) = some st' → st'.fwRawLen = st.fwRawLen ∧
      st.blockHdrPos < st.fwRawLen ∧ st.blockHdrPos + 4 ≤ st'.blockHdrPos :=
    fun st' h => by cases h
  refine returns_ite (fun hin => ?_) fun _ => returns_pure hnone
  refine returns_bind (returns_any _) fun hdr _ => ?_
  refine returns_ite (fun _ => ?_) fun _ => returns_pure hnone
  refine returns_bind (P := fun st' => st'.fwRawLen = st.fwRawLen ∧
    st'.blockHdrPos = st.blockHdrPos) (returns_bind (returns_any _) fun _ _ =>
      returns_pure ⟨rfl, rfl⟩) fun st₁ ⟨hlen, hcur⟩ => ?_
  refine returns_bind (returns_any _) fun _ _ => returns_bind deliverBlock_returns fun st₂ h₂ => ?_
  refine returns_pure fun st' h => ?_
  cases h
  refine ⟨h₂.2.1.trans hlen, hin.1, ?_⟩
  rw [h₂.2.2, ← hcur]
  show st₁.blockHdrPos + 4 ≤ st₁.blockHdrPos + (st₁.blockSize + 4)
  omega

end Progress

/-! ## 4. The loops -/

/-- Blocks that still start in the chunk at hand: each takes at least its header. -/
def blocksLeft (st : CopyState) : Nat := (4099 - st.blockHdrPos) / 4

/-- Passes left: the chunks to read, with the blocks each can hold, and those of this one. -/
def passesLeft (c : CopyCtx) (st : CopyState) : Nat :=
  (c.partHead.comSize + 4095 - st.fwRawPos) / 4096 * 1025 + blocksLeft st

theorem blocksLeft_lt (st : CopyState) : blocksLeft st < 1025 := by
  unfold blocksLeft
  omega

/-- **The measure falls** with every pass. -/
theorem Further.passesLeft_lt {c : CopyCtx} {st st' : CopyState} (h : Further st st')
    (hmore : st.fwRawPos < c.partHead.comSize) : passesLeft c st' < passesLeft c st := by
  cases h with
  | chunk h =>
      have hblocks := blocksLeft_lt st'
      have hpos := h.1
      unfold passesLeft
      omega
  | block hpos hlen hin hnext =>
      have hblocks : blocksLeft st' < blocksLeft st := by
        unfold blocksLeft
        omega
      unfold passesLeft
      rw [hpos]
      omega

section Loops

variable {P : Stop → Prop} (hP : Reasons P)

include hP in
theorem copyLoop_ends (c : CopyCtx) {fuel : Nat} {st : CopyState} (h : passesLeft c st < fuel) :
    Stops (copyLoop env c fuel st) P := by
  induction fuel generalizing st with
  | zero => omega
  | succ fuel ih =>
      unfold copyLoop
      split
      · rename_i hmore
        refine stops_bind_of (copyStep_ends hP _ _) copyStep_further fun st' hst' => ih ?_
        have := hst'.passesLeft_lt hmore
        omega
      · exact stops_pure _

theorem copyLoop_rawLen (c : CopyCtx) (fuel : Nat) {st : CopyState} (h : st.fwRawLen ≤ 4096) :
    Returns (copyLoop env c fuel st) fun st' => st'.fwRawLen ≤ 4096 := by
  induction fuel generalizing st with
  | zero => exact returns_throw _
  | succ fuel ih =>
      refine returns_ite (fun _ => returns_bind copyStep_further fun st' hst' => ih ?_) fun _ =>
        returns_pure h
      cases hst' with
      | chunk h' => exact h'.2.le
      | block hpos hlen hin hnext => exact hlen.trans_le h

include hP in
theorem tailLoop_ends (c : CopyCtx) {fuel : Nat} {st : CopyState} (hlen : st.fwRawLen ≤ 4096)
    (h : blocksLeft st < fuel) : Stops (tailLoop env c fuel st) P := by
  induction fuel generalizing st with
  | zero => omega
  | succ fuel ih =>
      refine stops_ite (stops_bind_of (tailStep_ends hP _ _) tailStep_further fun next hnext => ?_)
        (stops_pure _)
      cases next with
      | none => exact stops_pure _
      | some st' =>
          obtain ⟨hlen', hin, hcur⟩ := hnext st' rfl
          refine ih (hlen'.trans_le hlen) ?_
          unfold blocksLeft at h ⊢
          omega

/-! ## 5. The whole upgrade -/

include hP in
theorem upgradeCopy_ends (c : CopyCtx) {st : CopyState} (hlen : st.fwRawLen ≤ 4096) :
    Stops (upgradeCopy env c st) P := by
  have hfuel : passesLeft c st < copyFuel c.partHead.comSize := by
    have hblocks := blocksLeft_lt st
    unfold passesLeft copyFuel
    simp only [rtFotaAlgoBuffSize]
    omega
  refine stops_bind_of (copyLoop_ends hP c hfuel) (copyLoop_rawLen c _ hlen) fun st₁ h₁ => ?_
  have htail : blocksLeft st₁ < tailFuel := (blocksLeft_lt st₁).trans (by decide)
  refine stops_ite (stops_bind (tailLoop_ends hP c h₁ htail) fun _ => ?_)
    (stops_bind (stops_pure _) fun _ => ?_)
  all_goals exact stops_ite (stops_throw_bind (hP.exit (by decide))) (stops_pure _)

theorem upgradeSetup_rawLen (partName : Option (List Byte)) :
    Returns (upgradeSetup env partName) fun r => r.2.fwRawLen = 0 := by
  unfold upgradeSetup
  split
  · exact returns_throw _
  · refine returns_bind (returns_any _) fun _ _ => returns_ite (fun _ => returns_throw_bind _)
      fun _ => returns_bind (returns_any _) fun _ _ => returns_bind (returns_any _) fun m _ => ?_
    cases m with
    | none => exact returns_throw _
    | some cryptBuf =>
        exact returns_bind (returns_any _) fun _ _ => returns_bind (returns_any _) fun _ _ =>
          returns_pure rfl

include hP in
theorem rtFotaUpgrade_body_ends (partName : Option (List Byte)) :
    Stops (upgradeSetup env partName >>= fun r => upgradeCopy env r.1 r.2) P :=
  stops_bind_of (upgradeSetup_ends hP partName) (upgradeSetup_rawLen partName) fun r hr =>
    upgradeCopy_ends hP r.1 (by rw [hr]; exact Nat.zero_le _)

end Loops

/-- **`rt_fota_upgrade` terminates**: in no run do its loops make more passes than the header allows
    them. -/
theorem upgrade_terminates (env : Env) (partName : Option (List Byte)) (w w' : World) :
    rtFotaUpgrade env partName w ≠ .error .outOfFuel w' := by
  have hends : Ends (rtFotaUpgrade env partName) := withExit_ends (rtFotaUpgrade_body_ends
    ⟨Stop.noConfusion, Stop.noConfusion, fun _ => Stop.noConfusion⟩ partName)
  exact fun hrun => hends w _ w' hrun rfl

/-- An upgrade that returns success has come to its end: no `goto` carries that code. -/
theorem rtFotaUpgrade_ok {partName : Option (List Byte)} {w w' : World}
    (h : rtFotaUpgrade env partName w = .ok rtFotaNoErr w') :
    ∃ r w₁, upgradeSetup env partName w = .ok r w₁ ∧
      upgradeCopy env r.1 r.2 w₁ = .ok rtFotaNoErr w' :=
  bind_eq_ok (withExit_eq_ok h (rtFotaUpgrade_body_ends
    ⟨Stop.noConfusion, Stop.noConfusion, fun herr he => herr (Stop.exit.inj he)⟩ partName))

end Mh1903
