/-
  File:      Mh1903/Frame/Upgrade.lean
  Subject:   **`rt_fota_upgrade` CHANGES ITS TARGET ONLY**: every flash operation of every run,
             successful, failed or cut, lies in the partition the header names.

  The invariant of the copy loops is `CopyInv`: the total stays inside the target, so the 32-bit
  sum of the bounds check does not wrap around.
-/
import Mh1903.Frame.Within

namespace Mh1903

open Library

/-- Every partition of the table is cut at sectors inside the device. -/
def TableOk (env : Env) : Prop := ∀ p ∈ env.partitionTable, p.Ok

theorem TableOk.find {env : Env} (h : TableOk env) {name : List Byte} {p : FalPartition}
    (hp : falPartitionFind env name = some p) : p.Ok := h p (List.mem_of_find?_eq_some hp)

/-- The addresses of the partition a header names, none when it names none. -/
def Target (env : Env) (h : RtFotaPartHead) (a : Nat) : Prop :=
  ∃ p, falPartitionFind env h.appPartName = some p ∧ p.Covers a

/-! ## 1. What a chunk read and a fetch leave alone -/

theorem falPartitionRead_length {flash : Flash} {p : FalPartition} {addr size : Nat}
    {bs : List Byte} (h : falPartitionRead flash p addr size = some bs) : bs.length = size := by
  unfold falPartitionRead mhFlashRead at h
  split at h
  · cases h
  · split at h
    · split at h
      · cases h
      · cases h; exact length_readFlash _ _ _
    · cases h

theorem rtFotaGeneralErr_neg : rtFotaGeneralErr < 0 := by decide
theorem rtFotaPartReadErr_neg : rtFotaPartReadErr < 0 := by decide

/-- The length `rt_fota_read_part` returns is the one asked for. -/
theorem rtFotaReadPart_returns (env : Env) (part : FalPartition) (readPos : Nat)
    (aesIv : Option (List Byte)) (buf : List Byte) (len : Nat) :
    Returns (rtFotaReadPart env part readPos aesIv buf len) fun r => r.1 < 0 ∨ r.1 = len := by
  unfold rtFotaReadPart
  refine returns_ite (fun _ => returns_pure (.inl rtFotaGeneralErr_neg)) fun _ => ?_
  refine returns_bind (returns_any _) fun buf _ => ?_
  cases aesIv with
  | none =>
      refine returns_bind (returns_any _) fun w _ => ?_
      split
      · exact returns_pure (.inl rtFotaPartReadErr_neg)
      · rename_i bs hbs
        refine returns_ite (fun _ => returns_pure (.inl rtFotaPartReadErr_neg)) fun _ => ?_
        refine returns_bind (returns_any _) fun _ _ => returns_bind (returns_any _) fun _ _ => ?_
        exact returns_pure (.inr (by rw [falPartitionRead_length hbs]))
  | some iv =>
      refine returns_bind (returns_any _) fun m _ => ?_
      cases m with
      | none => exact returns_pure (.inl rtFotaGeneralErr_neg)
      | some enc =>
          refine returns_bind (returns_any _) fun enc _ => returns_bind (returns_any _) fun w _ => ?_
          split
          · exact returns_pure (.inl rtFotaPartReadErr_neg)
          · rename_i bs hbs
            refine returns_ite (fun _ => returns_pure (.inl rtFotaPartReadErr_neg)) fun _ => ?_
            refine returns_bind (returns_any _) fun _ _ => ?_
            refine returns_bind (returns_any _) fun _ _ => ?_
            refine returns_bind (returns_any _) fun _ _ => returns_pure (.inr ?_)
            rw [falPartitionRead_length hbs]

/-- `st'` has the output side of `st`, and a chunk length that fits the buffer. -/
structure SameOutput (st st' : CopyState) : Prop where
  total : st'.totalCopySize = st.totalCopySize
  dcprsSize : st'.dcprsSize = st.dcprsSize
  dcprsBuff : st'.dcprsBuff = st.dcprsBuff
  rawLen : st.fwRawLen ≤ 4096 → st'.fwRawLen ≤ 4096

theorem SameOutput.refl (st : CopyState) : SameOutput st st := ⟨rfl, rfl, rfl, id⟩

section Fetch

variable {env : Env} {c : CopyCtx} {st st₀ : CopyState}

theorem readChunk_output (h : SameOutput st₀ st) :
    Returns (readChunk env c st) (SameOutput st₀) := by
  refine returns_bind (rtFotaReadPart_returns _ _ _ _ _ _) fun r hr => ?_
  refine returns_ite (fun _ => returns_throw_bind _) fun hneg => returns_pure ?_
  refine ⟨h.total, h.dcprsSize, h.dcprsBuff, fun _ => ?_⟩
  have : r.1 = (4096 : Nat) := hr.resolve_left hneg
  simp [this]

theorem clearCmprs_output (h : SameOutput st₀ st) :
    Returns (clearCmprs c st) (SameOutput st₀) :=
  returns_bind (returns_any _) fun _ _ => returns_pure ⟨h.total, h.dcprsSize, h.dcprsBuff, h.rawLen⟩

theorem takeHdrByte_output (i : Nat) (h : SameOutput st₀ st) :
    Returns (takeHdrByte env i st) (SameOutput st₀) :=
  returns_bind (returns_any _) fun _ _ => returns_bind (returns_any _) fun _ _ =>
    returns_pure ⟨h.total, h.dcprsSize, h.dcprsBuff, h.rawLen⟩

theorem fetchNewChunk_output (h : SameOutput st₀ st) :
    Returns (fetchNewChunk env c st) (SameOutput st₀) := by
  refine returns_bind (readChunk_output h) fun st h => ?_
  refine returns_bind (returns_any _) fun hdr _ => ?_
  refine returns_bind (clearCmprs_output ⟨h.total, h.dcprsSize, h.dcprsBuff, h.rawLen⟩)
    fun st h => ?_
  exact returns_bind (returns_any _) fun _ _ =>
    returns_pure ⟨h.total, h.dcprsSize, h.dcprsBuff, h.rawLen⟩

theorem fetchPayload_output (h : SameOutput st₀ st) :
    Returns (fetchPayload env c st) (SameOutput st₀) := by
  refine returns_bind (clearCmprs_output ⟨h.total, h.dcprsSize, h.dcprsBuff, h.rawLen⟩)
    fun st h => returns_ite (fun _ => ?_) fun _ => ?_
  · refine returns_bind (returns_any _) fun buf _ => ?_
    refine returns_bind (readChunk_output ⟨h.total, h.dcprsSize, h.dcprsBuff, h.rawLen⟩)
      fun st h => ?_
    exact returns_bind (returns_any _) fun _ _ =>
      returns_pure ⟨h.total, h.dcprsSize, h.dcprsBuff, h.rawLen⟩
  · exact returns_bind (returns_any _) fun _ _ =>
      returns_pure ⟨h.total, h.dcprsSize, h.dcprsBuff, h.rawLen⟩

theorem fetchInChunkLoop_output (fuel i : Nat) (h : SameOutput st₀ st) :
    Returns (fetchInChunkLoop env c fuel i st) fun r => SameOutput st₀ r.2 := by
  induction fuel generalizing i st with
  | zero => exact returns_throw _
  | succ fuel ih =>
      refine returns_ite (fun _ => returns_ite (fun _ => ?_) fun _ => ?_) fun _ => returns_pure h
      · exact returns_bind (takeHdrByte_output i h) fun _ h => ih _ h
      · exact returns_bind (fetchPayload_output h) fun _ h => returns_pure h

theorem fillHdrLoop_output (n : Nat) (h : SameOutput st₀ st) :
    Returns (fillHdrLoop env n st) (SameOutput st₀) := by
  induction n generalizing st with
  | zero => exact returns_pure h
  | succ n ih => exact returns_bind (takeHdrByte_output _ h) fun _ h => ih h

theorem fetchSplitHdr_output (i : Nat) (h : SameOutput st₀ st) :
    Returns (fetchSplitHdr env c i st) (SameOutput st₀) := by
  refine returns_bind (readChunk_output h) fun st h => ?_
  refine returns_bind (fillHdrLoop_output _ ⟨h.total, h.dcprsSize, h.dcprsBuff, h.rawLen⟩)
    fun st h => ?_
  refine returns_bind (clearCmprs_output ⟨h.total, h.dcprsSize, h.dcprsBuff, h.rawLen⟩)
    fun st h => ?_
  exact returns_bind (returns_any _) fun _ _ =>
    returns_pure ⟨h.total, h.dcprsSize, h.dcprsBuff, h.rawLen⟩

/-- Fetching a block leaves the output side alone. -/
theorem fetchBlock_output : Returns (fetchBlock env c st) (SameOutput st) := by
  refine returns_ite (fun _ => fetchNewChunk_output (.refl st)) fun _ => ?_
  refine returns_bind (fetchInChunkLoop_output 6 0 (.refl st)) fun r h => ?_
  exact returns_ite (fun _ => fetchSplitHdr_output _ h) fun _ => returns_pure h

end Fetch

/-! ## 2. The invariant of the copy -/

/-- Total and lengths inside the copy loops, for a target of `len` bytes. -/
structure CopyInv (len : Nat) (st : CopyState) : Prop where
  total : st.totalCopySize ≤ len
  rawLen : st.fwRawLen ≤ 4096
  dcprsSize : st.dcprsSize ≤ 4096
  dcprsBuff : st.dcprsBuff.length ≤ 4096

theorem CopyInv.of_sameOutput {len : Nat} {st st' : CopyState} (h : CopyInv len st)
    (hs : SameOutput st st') : CopyInv len st' :=
  ⟨hs.total ▸ h.total, hs.rawLen h.rawLen, hs.dcprsSize ▸ h.dcprsSize, hs.dcprsBuff ▸ h.dcprsBuff⟩

theorem store_returns (buf : List Byte) (off : Nat) (data : List Byte) :
    Returns (store buf off data) fun r => r.length = buf.length ∧ off + data.length ≤ buf.length :=
  returns_ite
    (fun _ => returns_bind (returns_any _) fun _ _ =>
      returns_throw_bind _)
    fun h => returns_pure ⟨length_overwrite _ _ _, by omega⟩

section Copy

variable {env : Env} {c : CopyCtx} {t : FalPartition}

/-- A decompressed block fits the buffer it was put into. -/
theorem decompressBlock_inv {len : Nat} {st : CopyState} (h : CopyInv len st) :
    Returns (decompressBlock env c st) (CopyInv len) := by
  refine returns_bind (store_returns _ _ _) fun buf hb => ?_
  have hbuf : buf.length ≤ 4096 := by rw [hb.1]; exact h.dcprsBuff
  split
  · exact returns_pure ⟨h.total, h.rawLen, h.dcprsSize, hbuf⟩
  · rename_i d _
    refine returns_bind (returns_any _) fun _ _ => ?_
    refine returns_bind (store_returns _ _ _) fun buf' hb' => returns_pure ⟨h.total, h.rawLen, ?_, ?_⟩
    · rcases d.size_eq with h0 | h0
      · show d.size ≤ 4096; omega
      · show d.size ≤ 4096; omega
    · show buf'.length ≤ 4096; omega

/-- A write to the target: it lands there, and it lay inside where it did not fail. -/
theorem rtFotaWriteAppPart_keepsAt (ht : t.Ok) {pos n : Nat} (h32 : pos + n < 4294967296)
    (buf : List Byte) {w : World}
    (hfind : falPartitionFind env w.fotaPartHead.appPartName = some t) :
    KeepsAt (Within env t.Covers) (rtFotaWriteAppPart env pos buf n) w
      fun r => 0 ≤ r → pos + n ≤ t.len := by
  unfold rtFotaWriteAppPart
  refine leads_withExit ?_
  rw [leads_bind, leads_get]
  simp only [hfind]
  rw [leads_bind]
  have hk : Keeps (Within env t.Covers) (falPartitionWrite env t pos buf n) :=
    falPartitionWrite_within ht h32 buf
  cases hw : falPartitionWrite env t pos buf n w with
  | ok ret w' =>
      have hin := hk.ok hw
      refine leads_of_ok hw ?_
      show Leads (if ret < 0 then _ else _) w' _ _
      rw [leads_ite]
      refine ⟨fun _ => ?_, fun hret => leads_pure.mpr ⟨hin, fun _ => ?_⟩⟩
      · rw [leads_bind]
        refine leads_throw.mpr ⟨fun err herr => ⟨hin, fun h => ?_⟩, hin⟩
        cases herr
        exact absurd h (by decide)
      · exact (falPartitionAccess_ok h32 hw (by omega)).1
  | error e w' =>
      have hin := hk.error hw
      refine leads_of_error hw ⟨fun err herr => ?_, hin⟩
      exact absurd herr (falPartitionWrite_stops t pos buf n w e w' hw err)

/-- One write at the running total: inside the target, and the new total too. -/
theorem writeOut_keepsAt (ht : t.Ok) (buf : List Byte) {n : Nat} (hn : n ≤ 4096) {st : CopyState}
    (h : CopyInv t.len st) {w : World}
    (hfind : falPartitionFind env w.fotaPartHead.appPartName = some t) :
    KeepsAt (Within env t.Covers) (writeOut env buf n st) w (CopyInv t.len) := by
  have hbase := ht.base_lt
  have htotal := h.total
  refine keepsAt_bind (rtFotaWriteAppPart_keepsAt ht (by omega) buf hfind) fun r w' _ hr => ?_
  refine keepsAt_ite (fun _ => keepsAt_throw_bind _ _ _) fun hneg => keepsAt_pure ?_
  have hle := hr (by omega)
  refine ⟨?_, h.rawLen, h.dcprsSize, h.dcprsBuff⟩
  show u32 (st.totalCopySize + n) ≤ t.len
  rw [u32_eq (by omega)]
  exact hle

theorem deliverBlock_keepsAt (ht : t.Ok) {st : CopyState} (h : CopyInv t.len st) {w : World}
    (hfind : falPartitionFind env w.fotaPartHead.appPartName = some t) :
    KeepsAt (Within env t.Covers) (deliverBlock env c st) w (CopyInv t.len) := by
  unfold deliverBlock
  refine keepsAt_bind ((keeps_within_of_quiet (decompressBlock_quiet env c st)).at
    (decompressBlock_inv h) w) fun st' w' hw' h' => ?_
  refine keepsAt_ite (fun _ => keepsAt_throw_bind _ _ _) fun _ => ?_
  exact writeOut_keepsAt ht _ h'.dcprsSize h' (by rw [hw'.head]; exact hfind)

/-- **One pass of the main loop** keeps the invariant, and to the target. -/
theorem copyStep_keepsAt (ht : t.Ok) {st : CopyState} (h : CopyInv t.len st) {w : World}
    (hfind : falPartitionFind env w.fotaPartHead.appPartName = some t) :
    KeepsAt (Within env t.Covers) (copyStep env c st) w (CopyInv t.len) := by
  unfold copyStep
  refine keepsAt_ite (fun _ => ?_) fun _ => ?_
  · refine keepsAt_bind ((keeps_within_of_quiet (fetchBlock_quiet env c st)).at
      fetchBlock_output w) fun st' w' hw' hs => ?_
    exact deliverBlock_keepsAt ht (h.of_sameOutput hs) (by rw [hw'.head]; exact hfind)
  · refine keepsAt_bind ((keeps_within_of_quiet (readChunk_quiet env c st)).at
      (readChunk_output (.refl st)) w) fun st' w' hw' hs => ?_
    have h' := h.of_sameOutput hs
    exact writeOut_keepsAt ht _ h'.rawLen h' (by rw [hw'.head]; exact hfind)

/-- **One pass of the tail loop** does too. -/
theorem tailStep_keepsAt (ht : t.Ok) {st : CopyState} (h : CopyInv t.len st) {w : World}
    (hfind : falPartitionFind env w.fotaPartHead.appPartName = some t) :
    KeepsAt (Within env t.Covers) (tailStep env c st) w
      fun next => ∀ st', next = some st' → CopyInv t.len st' := by
  have hnone : ∀ st', (none : Option CopyState) = some st' → CopyInv t.len st' := by
    intro st' h; cases h
  refine keepsAt_ite (fun _ => ?_) fun _ => keepsAt_pure hnone
  refine keepsAt_bind ((keeps_within_of_quiet (rtMemcpy_quiet env _ _ _ _ _)).at
    (returns_any _) w) fun hdr w₁ h₁ _ => ?_
  refine keepsAt_ite (fun _ => ?_) fun _ => keepsAt_pure hnone
  refine keepsAt_bind ((keeps_within_of_quiet (clearCmprs_quiet c _)).at
    (clearCmprs_output (.refl _)) w₁) fun st₂ w₂ h₂ hs => ?_
  refine keepsAt_bind ((keeps_within_of_quiet (rtMemcpy_quiet env _ _ _ _ _)).at
    (returns_any _) w₂) fun cmprs w₃ h₃ _ => ?_
  have hinv : CopyInv t.len st₂ :=
    (show CopyInv t.len { st with blockHdrBuf := hdr, blockSize := blockSizeOf hdr } from
      ⟨h.total, h.rawLen, h.dcprsSize, h.dcprsBuff⟩).of_sameOutput hs
  have hhead : falPartitionFind env w₃.fotaPartHead.appPartName = some t := by
    rw [h₃.head, h₂.head, h₁.head]; exact hfind
  have hput : CopyInv t.len { st₂ with
      cmprsBuff := cmprs
      blockHdrPos := st₂.blockHdrPos + (st₂.blockSize + rtFotaBlockHeaderSize) } :=
    ⟨hinv.total, hinv.rawLen, hinv.dcprsSize, hinv.dcprsBuff⟩
  refine keepsAt_bind (deliverBlock_keepsAt ht hput hhead) fun st₄ w₄ _ h₄ => ?_
  exact keepsAt_pure fun st' e => by cases e; exact h₄

/-! ## 3. The loops -/

theorem copyLoop_keepsAt (ht : t.Ok) (fuel : Nat) {st : CopyState} (h : CopyInv t.len st)
    {w : World} (hfind : falPartitionFind env w.fotaPartHead.appPartName = some t) :
    KeepsAt (Within env t.Covers) (copyLoop env c fuel st) w (CopyInv t.len) := by
  induction fuel generalizing st w with
  | zero => exact keepsAt_throw _ _ _
  | succ fuel ih =>
      refine keepsAt_ite (fun _ => ?_) fun _ => keepsAt_pure h
      refine keepsAt_bind (copyStep_keepsAt ht h hfind) fun st' w' hw' h' => ?_
      exact ih h' (by rw [hw'.head]; exact hfind)

theorem tailLoop_keepsAt (ht : t.Ok) (fuel : Nat) {st : CopyState} (h : CopyInv t.len st)
    {w : World} (hfind : falPartitionFind env w.fotaPartHead.appPartName = some t) :
    KeepsAt (Within env t.Covers) (tailLoop env c fuel st) w fun _ => True := by
  induction fuel generalizing st w with
  | zero => exact keepsAt_throw _ _ _
  | succ fuel ih =>
      refine keepsAt_ite (fun _ => ?_) fun _ => keepsAt_pure trivial
      refine keepsAt_bind (tailStep_keepsAt ht h hfind) fun next w' hw' h' => ?_
      cases next with
      | none => exact keepsAt_pure trivial
      | some st' => exact ih (h' st' rfl) (by rw [hw'.head]; exact hfind)

theorem upgradeCopy_keepsAt (ht : t.Ok) {st : CopyState} (h : CopyInv t.len st) {w : World}
    (hfind : falPartitionFind env w.fotaPartHead.appPartName = some t) :
    KeepsAt (Within env t.Covers) (upgradeCopy env c st) w fun _ => True := by
  refine keepsAt_bind (copyLoop_keepsAt ht _ h hfind) fun st₁ w₁ hw₁ h₁ => ?_
  have hfind₁ : falPartitionFind env w₁.fotaPartHead.appPartName = some t := by
    rw [hw₁.head]; exact hfind
  refine keepsAt_ite (fun _ => ?_) fun _ => ?_
  · refine keepsAt_bind (tailLoop_keepsAt ht _ h₁ hfind₁) fun total w₂ _ _ => ?_
    exact keepsAt_ite (fun _ => keepsAt_throw_bind _ _ _) fun _ => keepsAt_pure trivial
  · refine keepsAt_bind (keepsAt_pure (P := fun _ => True) trivial) fun total w₂ _ _ => ?_
    exact keepsAt_ite (fun _ => keepsAt_throw_bind _ _ _) fun _ => keepsAt_pure trivial

end Copy

/-! ## 4. Setup and the whole function -/

section Setup

variable {env : Env} {w : World}

/-- Without a target nothing is erased. -/
theorem rtFotaEraseAppPart_none (h : falPartitionFind env w.fotaPartHead.appPartName = none) :
    rtFotaEraseAppPart env w = .ok rtFotaFwVerifyFailed w := by
  refine withExit_exit ?_
  rw [get_bind, h]
  rfl

theorem rtFotaEraseAppPart_keepsAt {t : FalPartition} (ht : t.Ok)
    (hfind : falPartitionFind env w.fotaPartHead.appPartName = some t) :
    KeepsAt (Within env t.Covers) (rtFotaEraseAppPart env) w fun _ => True := by
  refine keepsAt_withExit ?_ fun _ _ _ => trivial
  refine keepsAt_bind (P := (· = w)) (leads_get.mpr ⟨Std.Refl.refl w, rfl⟩) fun a w' hw' ha => ?_
  subst ha
  simp only [hfind]
  have hsize := a.fotaPartHead.rawSize_lt
  have herase : Keeps (Within env t.Covers) (falPartitionErase env t 0 a.fotaPartHead.rawSize) :=
    falPartitionErase_within ht (by omega) rfl
  refine keepsAt_bind (herase.at (returns_any _) w') fun ret w₁ _ _ => ?_
  exact keepsAt_ite (fun _ => keepsAt_throw_bind _ _ _) fun _ => keepsAt_pure trivial

theorem rtMalloc_returns (n : Nat) :
    Returns (rtMalloc env n) fun r => ∀ b, r = some b → b.length = n := by
  refine returns_bind (returns_any _) fun w _ => returns_bind (returns_any _) fun _ _ => ?_
  refine returns_ite (fun _ => returns_pure fun b hb => ?_) fun _ => returns_pure fun b hb => ?_
  · cases hb; simp
  · cases hb

theorem setupCmprs_returns (h : RtFotaPartHead) :
    Returns (setupCmprs env h) fun r => r.2.1.length ≤ 4096 := by
  refine returns_ite (fun _ => ?_) fun _ => returns_ite (fun _ => ?_) fun _ =>
    returns_ite (fun _ => returns_throw _) fun _ => returns_pure (Nat.zero_le _)
  · refine returns_bind (returns_any _) fun a _ => returns_bind (rtMalloc_returns _) fun b hb => ?_
    split
    · exact returns_pure (hb _ rfl).le
    · exact returns_throw _
  · refine returns_bind (returns_any _) fun a _ => returns_bind (rtMalloc_returns _) fun b hb =>
      returns_bind (returns_any _) fun s _ => ?_
    split
    · exact returns_pure (hb _ rfl).le
    · exact returns_throw _

/-- Up to the main loop only the target is touched, and the invariant holds then. -/
theorem upgradeSetup_keepsAt {t : FalPartition} (ht : t.Ok)
    (hfind : falPartitionFind env w.fotaPartHead.appPartName = some t)
    (partName : Option (List Byte)) :
    KeepsAt (Within env t.Covers) (upgradeSetup env partName) w fun r => CopyInv t.len r.2 := by
  unfold upgradeSetup
  split
  · exact keepsAt_throw _ _ _
  · rename_i part _
    refine keepsAt_bind (rtFotaEraseAppPart_keepsAt ht hfind) fun fotaErr w₁ _ _ => ?_
    refine keepsAt_ite (fun _ => keepsAt_throw_bind _ _ _) fun _ => ?_
    refine keepsAt_bind (keeps_get.at (returns_any _) w₁) fun w' w₂ _ _ => ?_
    refine keepsAt_bind ((keeps_within_of_quiet (rtMalloc_quiet env _)).at (returns_any _) w₂)
      fun cryptBuf w₃ _ _ => ?_
    cases cryptBuf with
    | none => exact keepsAt_throw _ _ _
    | some cryptBuf =>
        refine keepsAt_bind ((keeps_within_of_quiet (setupCrypt_quiet env _)).at (returns_any _) w₃)
          fun aesIv w₄ _ _ => ?_
        refine keepsAt_bind ((keeps_within_of_quiet (setupCmprs_quiet env _)).at
          (setupCmprs_returns _) w₄) fun bufs w₅ _ hbufs => ?_
        exact keepsAt_pure ⟨Nat.zero_le _, Nat.zero_le _, Nat.zero_le _, hbufs⟩

theorem rtFotaUpgrade_none (h : falPartitionFind env w.fotaPartHead.appPartName = none)
    (partName : Option (List Byte)) :
    ∃ err, err ≠ rtFotaNoErr ∧ rtFotaUpgrade env partName w = .ok err w := by
  cases hp : partName.bind (falPartitionFind env) with
  | none =>
      refine ⟨rtFotaGeneralErr, by decide, withExit_exit (bind_error ?_)⟩
      unfold upgradeSetup
      rw [hp]
      rfl
  | some part =>
      refine ⟨rtFotaFwVerifyFailed, by decide, withExit_exit (bind_error ?_)⟩
      unfold upgradeSetup
      simp only [hp]
      rw [bind_ok (rtFotaEraseAppPart_none h), if_pos (by decide)]
      rfl

/-- **The frame of `rt_fota_upgrade`.** From any state, whatever the ROM, the allocations, the
    decompressors and the power do, every flash operation lies in the partition the header
    names. -/
theorem rtFotaUpgrade_within (hT : TableOk env) (partName : Option (List Byte)) (w : World) :
    Within env (Target env w.fotaPartHead) w (final (rtFotaUpgrade env partName) w) := by
  cases hfind : falPartitionFind env w.fotaPartHead.appPartName with
  | none =>
      obtain ⟨err, -, hrun⟩ := rtFotaUpgrade_none hfind partName
      unfold final
      rw [hrun]
      exact Std.Refl.refl w
  | some t =>
      have ht := hT.find hfind
      have hrun : KeepsAt (Within env t.Covers) (rtFotaUpgrade env partName) w fun _ => True := by
        refine keepsAt_withExit ?_ fun _ _ _ => trivial
        refine keepsAt_bind (upgradeSetup_keepsAt ht hfind partName) fun r w₁ hw₁ h₁ => ?_
        exact upgradeCopy_keepsAt ht h₁ (by rw [hw₁.head]; exact hfind)
      exact hrun.final.mono fun a ha => ⟨t, hfind, ha⟩

end Setup

end Mh1903
