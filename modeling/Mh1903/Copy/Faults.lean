/-
  File:      Mh1903/Copy/Faults.lean
  Subject:   BLOCKS THAT DO NOT FIT. Where a block does not fit its place or its buffer the copy of
             it leaves the buffers; and what was recorded once stays recorded.
-/
import Mh1903.Copy.Bounds
import Mh1903.Frame.Steps

namespace Mh1903

open Library

/-! ## 1. Recorded faults -/

/-- A forbidden access was made between `w` and `w'`. -/
def Faulted (w w' : World) : Prop := w.faults.length < w'.faults.length

/-- What was recorded before `w` is still recorded in `w'`. -/
def FaultsKept (w w' : World) : Prop := w.faults.length ≤ w'.faults.length

instance : Std.Refl FaultsKept := ⟨fun _ => Nat.le_refl _⟩

instance : IsTrans World FaultsKept := ⟨fun _ _ _ h₁ h₂ => Nat.le_trans h₁ h₂⟩

theorem Faulted.not_noFault {w w' : World} (h : Faulted w w') : ¬ NoFault w w' := by
  intro hno
  unfold Faulted at h
  rw [hno] at h
  exact Nat.lt_irrefl _ h

theorem NoFault.kept {w w' : World} (h : NoFault w w') : FaultsKept w w' :=
  (congrArg List.length h).ge

theorem fault_kept (f : MemFault) : Keeps FaultsKept (fault f) := fun _ => Nat.le_succ _

theorem logRead_kept (r : PartRead) : Keeps FaultsKept (logRead r) := fun _ => Nat.le_refl _

theorem rtMalloc_kept (env : Env) (size : Nat) : Keeps FaultsKept (rtMalloc env size) :=
  fun w => (rtMalloc_noFault env size w).kept

theorem flashProgramPage_kept (env : Env) (addr size : Nat) (buffer : List Byte) :
    Keeps FaultsKept (flashProgramPage env addr size buffer) :=
  fun w => (flashOp_noFault env _ _ w).kept

section Runs

variable {α β : Type} {x : M α} {f : α → M β} {w w₁ : World}

/-- A fault in the first program is a fault of both. -/
theorem faulted_bind (h : Faulted w (final x w)) (hf : ∀ a, Keeps FaultsKept (f a)) :
    Faulted w (final (x >>= f) w) := by
  unfold final at h
  unfold final
  cases hx : x w with
  | ok a w' =>
      rw [hx] at h
      rw [bind_ok hx]
      exact Nat.lt_of_lt_of_le h (hf a w')
  | error e w' =>
      rw [hx] at h
      rw [bind_error hx]
      exact h

/-- A fault in the second one too. -/
theorem faulted_bind_ok {a : α} (hx : x w = .ok a w₁) (h₁ : FaultsKept w w₁)
    (hf : Faulted w₁ (final (f a) w₁)) : Faulted w (final (x >>= f) w) := by
  unfold final at hf ⊢
  rw [bind_ok hx]
  exact Nat.lt_of_le_of_lt h₁ hf

/-- A run that goes on as another one. -/
theorem faulted_of_eq {y : M α} (hx : x w = y w₁) (h₁ : FaultsKept w w₁)
    (hy : Faulted w₁ (final y w₁)) : Faulted w (final x w) := by
  have hfinal : final x w = final y w₁ := by
    unfold final
    rw [hx]
  rw [hfinal]
  exact Nat.lt_of_le_of_lt h₁ hy

end Runs

theorem faulted_withExit {body : M Int} {w : World} (h : Faulted w (final body w)) :
    Faulted w (final (withExit body) w) := by
  unfold final at h
  unfold final withExit
  cases hb : body w with
  | ok a w' =>
      rw [hb] at h
      exact h
  | error e w' =>
      rw [hb] at h
      cases e with
      | exit err => exact h
      | crash => exact h
      | powerLoss => exact h
      | outOfFuel => exact h

/-- A store behind the end of its buffer. -/
theorem store_faulted {buf data : List Byte} {off : Nat} (h : buf.length < off + data.length)
    (w : World) : Faulted w (final (store buf off data) w) := by
  unfold store
  rw [if_pos h]
  exact Nat.lt_succ_self _

/-- A load behind the end of its buffer. -/
theorem load_faulted (env : Env) {buf : List Byte} {off n : Nat} (h : buf.length < off + n)
    (w : World) : Faulted w (final (load env buf off n) w) := by
  unfold load
  rw [if_pos h]
  exact Nat.lt_succ_self _

/-- A copy out of a buffer or into one that is too small. -/
theorem rtMemcpy_faulted (env : Env) {dst src : List Byte} {dstOff srcOff n : Nat}
    (h : src.length < srcOff + n ∨ dst.length < dstOff + n) (w : World) :
    Faulted w (final (rtMemcpy env dst dstOff src srcOff n) w) := by
  unfold rtMemcpy
  by_cases hsrc : src.length < srcOff + n
  · exact faulted_bind (load_faulted env hsrc w) fun data => store_keeps fault_kept _ _ _
  · refine faulted_bind_ok (load_eq env (by omega) w) (Nat.le_refl _) (store_faulted ?_ w)
    rw [List.length_take, List.length_drop]
    omega

/-! ## 2. A block that does not fit its place -/

section Fetch

variable {env : Env} {c : CopyCtx} {st : CopyState} {w : World}

theorem World.read_kept (w : World) (env : Env) (part : FalPartition) (pos : Nat)
    (aesIv : Option (List Byte)) : FaultsKept w (w.read env part pos aesIv) :=
  (congrArg List.length (w.read_calm env part pos aesIv).faults).ge

/-- **Fetching a block that does not fit** its place or its buffer makes a forbidden access. -/
theorem fetchBlock_faulted (h : FetchReady c st) (hp : c.part.Ok) {s : Nat}
    (hs : st.headerSize env w.flash c.part = s)
    (hread : Readable env c.part st.fwRawPos st.aesIv w) (hpos : st.blockHdrPos ≠ 4092)
    (hno : ¬ (FitsAt st.blockHdrPos s ∧ s ≤ 4096 + c.paddingSize)) :
    Faulted w (final (fetchBlock env c st) w) := by
  have hle := h.cursor
  have hlen := h.length_next env w.flash
  have hclean : (List.replicate (4096 + c.paddingSize) (0 : Byte)).length = 4096 + c.paddingSize :=
    List.length_replicate
  have hcopy : ∀ {dst : List Byte} {dstOff srcOff n : Nat} {f : List Byte → CopyState},
      4096 < srcOff + n ∨ dst.length < dstOff + n →
      Faulted (w.read env c.part st.fwRawPos st.aesIv) (final (rtMemcpy env dst dstOff (st.next env w.flash c.part).2 srcOff
        n >>= fun cmprsBuff => pure (f cmprsBuff)) (w.read env c.part st.fwRawPos st.aesIv)) := by
    intro dst dstOff srcOff n f hout
    refine faulted_bind (rtMemcpy_faulted env ?_ _) fun _ => keeps_pure _
    rw [hlen]
    exact hout
  unfold FitsAt at hno
  by_cases hnew : 4096 ≤ st.blockHdrPos
  · rw [if_pos hnew] at hno
    have hbranch : fetchBlock env c st w = fetchNewChunk env c st w := congrFun (if_pos hnew) w
    refine faulted_of_eq (hbranch.trans (fetchNewChunk_start h hs hp (by omega) hread))
      (w.read_kept _ _ _ _) (hcopy ?_)
    rw [hclean]
    omega
  · rw [if_neg hnew] at hno
    have hbranch : fetchBlock env c st w = fetchInChunk env c st w := congrFun (if_neg hnew) w
    by_cases hin : st.blockHdrPos ≤ 4091
    · rw [if_pos hin] at hno
      have hstart := (fetchPayload_start h hs hp (by omega) (by omega)).1 hread
      refine faulted_of_eq ((hbranch.trans (fetchInChunk_complete h hin)).trans hstart)
        (w.read_kept _ _ _ _) (hcopy ?_)
      rw [length_padTo]
      omega
    · rw [if_neg hin] at hno
      have hstart := (fetchSplitHdr_start h hs hp (by omega) (by omega)).1 hread
      refine faulted_of_eq ((hbranch.trans (fetchInChunk_split h (by omega) (by omega))).trans hstart)
        (w.read_kept _ _ _ _) (hcopy ?_)
      rw [hclean]
      omega

end Fetch

/-! ## 3. At a place of the body -/

section Place

variable {m : StoredImage} {x : Cursor} {st : CopyState} {w : World}

/-- A block that fits is fetched, where the next chunk can be read. -/
theorem CursorAt.fetch_ok (h : CursorAt m x st w) (hp : m.part.Ok) (hin : m.InPart x.chunks)
    (hread : Readable m.env m.part st.fwRawPos st.aesIv w) (hf : m.Fetchable x) :
    ∃ st' w', fetchBlock m.env m.ctx st w = .ok st' w' ∧ CursorAt m (m.fetch x) st' w' ∧
      Calm w w' := by
  have hfetch := h.fetch hp hin hf
  cases hrun : fetchBlock m.env m.ctx st w with
  | ok st' w' => exact ⟨st', w', rfl, hfetch.ok hrun⟩
  | error e w' => exact absurd hread (hfetch.error hrun).2.2

theorem CursorAt.fetch_faulted (h : CursorAt m x st w) (hp : m.part.Ok) (hin : m.InPart x.chunks)
    (hread : Readable m.env m.part st.fwRawPos st.aesIv w) (hno : ¬ m.Fetchable x) :
    Faulted w (final (fetchBlock m.env m.ctx st) w) := by
  have hs := (h.header hp hin).2
  refine fetchBlock_faulted h.toFetchReady hp hs hread ?_ ?_
  · rw [h.place]
    exact fun hskip => hno (.inl hskip)
  · rw [h.place]
    exact fun hfit => hno (.inr hfit)

/-- A block that decompresses to more than its buffer holds, or is read behind its own. -/
theorem CursorAt.deliver_faulted (hc : m.head.Compressed) (h : CursorAt m x st w)
    (h1 : 1 ≤ x.chunks) (hbad : ¬ ((m.output x).length ≤ 4096 ∧ m.ReadsInside x)) :
    Faulted w (final (deliverBlock m.env m.ctx st) w) := by
  have hset : rtMemset st.dcprsBuff 0 rtFotaCmprsBufferSize w = .ok (List.replicate 4096 0) w :=
    rtMemset_full h.dcprs w
  have hzero : (List.replicate 4096 (0 : Byte)).length = 4096 := List.length_replicate
  generalize List.replicate 4096 (0 : Byte) = zeros at hset hzero
  have hdec : decompress m.env m.ctx.partHead st.cmprsBuff st.blockSize =
      some (m.decompressed x.block x.size) := by
    rw [h.block h1, h.size h1]
    exact StoredImage.decompress_eq hc _ _
  have hstep : Faulted w (final (decompressBlock m.env m.ctx st) w) := by
    unfold decompressBlock
    refine faulted_bind_ok hset (Nat.le_refl _) ?_
    rw [hdec]
    by_cases hin : m.ReadsInside x
    · obtain ⟨bs, w₁, hload, -, hsame⟩ := h.reads
      rw [hsame hin] at hload
      refine faulted_bind_ok hload (Nat.le_refl _) ?_
      refine faulted_bind (store_faulted ?_ w) fun _ => keeps_pure _
      rw [hzero, Nat.zero_add]
      exact not_le.mp fun hput => hbad ⟨hput, hin⟩
    · refine faulted_bind (load_faulted m.env ?_ w) fun _ =>
        keeps_bind (store_keeps fault_kept _ _ _) fun _ => keeps_pure _
      rw [h.cmprs, Nat.zero_add]
      exact not_le.mp hin
  refine faulted_bind hstep fun st' => keeps_ite (keeps_throw_bind _) ?_
  exact writeOut_keeps fault_kept (flashProgramPage_kept _) _ _ _

/-- **A pass of the main loop over a block that does not fit.** -/
theorem CursorAt.mainFaulted (hc : m.head.Compressed) (h : CursorAt m x st w) (hp : m.part.Ok)
    (hin : m.InPart x.chunks) (hread : Readable m.env m.part st.fwRawPos st.aesIv w)
    (hno : ¬ (m.Fetchable x ∧ (m.output (m.fetch x)).length ≤ 4096 ∧
      m.ReadsInside (m.fetch x))) :
    Faulted w (final (copyStep m.env m.ctx st) w) := by
  have hne : m.ctx.partHead.cmprs ≠ rtFotaCryptAlgoNone := hc.ne_none
  unfold copyStep
  rw [if_pos hne]
  by_cases hf : m.Fetchable x
  · obtain ⟨st₁, w₁, hrun, hat, hcalm⟩ := h.fetch_ok hp hin hread hf
    exact faulted_bind_ok hrun (NoFault.kept hcalm.faults)
      (hat.deliver_faulted hc (m.one_le_fetch_chunks h.first) fun hfits => hno ⟨hf, hfits⟩)
  · refine faulted_bind (h.fetch_faulted hp hin hread hf) fun st₁ => ?_
    exact deliverBlock_keeps fault_kept (flashProgramPage_kept _) _ _

/-- **A pass of the tail loop over a block that does not fit.** -/
theorem CursorAt.tailFaulted (hc : m.head.Compressed) (h : CursorAt m x st w) (hp : m.part.Ok)
    (htail : m.InTail x)
    (hno : ¬ ((m.output (m.take x)).length ≤ 4096 ∧ m.ReadsInside (m.take x))) :
    Faulted w (final (tailStep m.env m.ctx st) w) := by
  obtain ⟨st₁, hat, hstep⟩ := h.tailStep_take hp htail
  have h1 := htail.2.2.1
  rw [← m.take_chunks] at h1
  refine faulted_of_eq hstep (Nat.le_refl _) ?_
  exact faulted_bind (hat.deliver_faulted hc h1 hno) fun _ => keeps_pure _

end Place

end Mh1903
