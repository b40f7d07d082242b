/-
  File:      Mh1903/Copy/Again.lean
  Subject:   AN UPGRADE DONE AGAIN. What an upgrade puts into its target depends on the body of the
             image and on four fields of the header, not on what lies in the target: two runs of
             one upgrade from worlds that agree there do the same, except that a write behind the
             erased sectors may be refused in one of them, and then enough has been written.
-/
import Mh1903.Copy.Follow
import Mh1903.Copy.Refusal
import Mh1903.Copy.Ends

namespace Mh1903

open Library

/-! ## 1. Another header -/

/-- `k` says of the image what `h` says: algorithms, target and sizes. -/
structure SameImage (env : Env) (h k : RtFotaPartHead) : Prop where
  fotaAlgo : k.fotaAlgo = h.fotaAlgo
  target : falPartitionFind env k.appPartName = falPartitionFind env h.appPartName
  rawSize : k.rawSize = h.rawSize
  comSize : k.comSize = h.comSize

section Header

variable {env : Env} {h k : RtFotaPartHead} (hk : SameImage env h k)
include hk

theorem SameImage.crypt : k.crypt = h.crypt := by
  unfold RtFotaPartHead.crypt
  rw [hk.fotaAlgo]

theorem SameImage.cmprs : k.cmprs = h.cmprs := by
  unfold RtFotaPartHead.cmprs
  rw [hk.fotaAlgo]

theorem SameImage.setupCrypt : setupCrypt env k = setupCrypt env h := by
  unfold Mh1903.setupCrypt
  rw [hk.crypt]

theorem SameImage.setupCmprs : setupCmprs env k = setupCmprs env h := by
  unfold Mh1903.setupCmprs
  rw [hk.cmprs]

variable (c : CopyCtx)

theorem SameImage.decompressBlock (st : CopyState) :
    decompressBlock env { c with partHead := k } st =
      decompressBlock env { c with partHead := h } st := by
  unfold Mh1903.decompressBlock decompress
  simp only [hk.cmprs]

theorem SameImage.deliverBlock (st : CopyState) :
    deliverBlock env { c with partHead := k } st =
      deliverBlock env { c with partHead := h } st := by
  unfold Mh1903.deliverBlock
  rw [hk.decompressBlock]

theorem SameImage.copyStep (st : CopyState) :
    copyStep env { c with partHead := k } st = copyStep env { c with partHead := h } st := by
  unfold Mh1903.copyStep
  simp only [hk.cmprs, hk.deliverBlock]
  rfl

theorem SameImage.copyLoop (fuel : Nat) (st : CopyState) :
    copyLoop env { c with partHead := k } fuel st =
      copyLoop env { c with partHead := h } fuel st := by
  induction fuel generalizing st with
  | zero => rfl
  | succ fuel ih =>
      unfold Mh1903.copyLoop
      simp only [hk.comSize, hk.copyStep, ih]

theorem SameImage.tailStep (st : CopyState) :
    tailStep env { c with partHead := k } st = tailStep env { c with partHead := h } st := by
  unfold Mh1903.tailStep
  simp only [hk.deliverBlock]
  rfl

theorem SameImage.tailLoop (fuel : Nat) (st : CopyState) :
    tailLoop env { c with partHead := k } fuel st =
      tailLoop env { c with partHead := h } fuel st := by
  induction fuel generalizing st with
  | zero => rfl
  | succ fuel ih =>
      unfold Mh1903.tailLoop
      simp only [hk.rawSize, hk.tailStep, ih]

/-- The copy looks at nothing else in the header. -/
theorem SameImage.upgradeCopy (st : CopyState) :
    upgradeCopy env { c with partHead := k } st =
      upgradeCopy env { c with partHead := h } st := by
  unfold Mh1903.upgradeCopy
  simp only [hk.comSize, hk.cmprs, hk.rawSize, hk.copyLoop, hk.tailLoop]

end Header

/-! ## 2. Worlds that agree -/

/-- The bytes of a partition behind the header of its image. -/
def FalPartition.BodyArea (p : FalPartition) (a : Nat) : Prop :=
  p.base + 96 ≤ a ∧ a < p.base + p.len

/-- Two runs of one upgrade: the partition of the image, the target with the number of bytes
    erased in it, and the two headers. -/
structure TwoRuns where
  part : FalPartition
  target : FalPartition
  erased : Nat
  head : RtFotaPartHead
  again : RtFotaPartHead

/-- The worlds agree on what is erased in the target. -/
def TwoRuns.SameFront (d : TwoRuns) (w v : World) : Prop :=
  ∀ a, d.target.base ≤ a → a < d.target.base + d.erased → v.flash a = w.flash a

/-- They agree there, on the body and on the allocations made, and each has its header. -/
structure Alike (d : TwoRuns) (w v : World) : Prop where
  body : ∀ a, d.part.BodyArea a → v.flash a = w.flash a
  front : d.SameFront w v
  allocs : v.allocs = w.allocs
  head : w.fotaPartHead = d.head
  again : v.fotaPartHead = d.again

section Alike

variable {env : Env} {d : TwoRuns}

theorem fault_alike (f : MemFault) : Same (Alike d) (fault f) :=
  fun _ _ h => leads_modify.mpr ⟨_, rfl, h.body, h.front, h.allocs, h.head, h.again⟩

theorem logRead_alike (r : PartRead) : Same (Alike d) (logRead r) :=
  fun _ _ h => leads_modify.mpr ⟨_, rfl, h.body, h.front, h.allocs, h.head, h.again⟩

theorem load_alike (env : Env) (buf : List Byte) (off k : Nat) :
    Same (Alike d) (load env buf off k) :=
  same_ite (same_bind (fault_alike _) fun _ => same_pure _) (same_pure _)

theorem store_alike (buf : List Byte) (off : Nat) (data : List Byte) :
    Same (Alike d) (store buf off data) :=
  same_ite (same_bind (fault_alike _) fun _ => same_throw_bind _) (same_pure _)

theorem rtMemcpy_alike (env : Env) (dst : List Byte) (dstOff : Nat) (src : List Byte)
    (srcOff count : Nat) : Same (Alike d) (rtMemcpy env dst dstOff src srcOff count) :=
  same_bind (load_alike _ _ _ _) fun _ => store_alike _ _ _

theorem rtMemset_alike (s : List Byte) (c : Byte) (count : Nat) :
    Same (Alike d) (rtMemset s c count) := store_alike _ _ _

theorem rtMalloc_alike (env : Env) (size : Nat) : Same (Alike d) (rtMalloc env size) := by
  intro w v h
  have hallocs := h.allocs
  unfold rtMalloc
  rw [leads_bind, leads_get, leads_bind, leads_modify, leads_ite]
  refine ⟨fun hm => leads_pure.mpr ?_, fun hm => leads_pure.mpr ?_⟩
  · refine ⟨{ v with allocs := v.allocs + 1 }, ?_, h.body, h.front, congrArg (· + 1) hallocs,
      h.head, h.again⟩
    rw [get_bind, modify_bind, if_pos (hallocs ▸ hm)]
    rfl
  · refine ⟨{ v with allocs := v.allocs + 1 }, ?_, h.body, h.front, congrArg (· + 1) hallocs,
      h.head, h.again⟩
    rw [get_bind, modify_bind, if_neg (hallocs ▸ hm)]
    rfl

/-- A read of the body finds the same, or is refused in both worlds. -/
theorem Alike.read (hp : d.part.Ok) {w v : World} (h : Alike d w v) {pos len : Nat}
    (hpos : pos ≤ d.part.len) (hlen : len ≤ 4096) :
    falPartitionRead v.flash d.part (u32 (sizeofPartHead + pos)) len =
      falPartitionRead w.flash d.part (u32 (sizeofPartHead + pos)) len := by
  have hbase := hp.base_lt
  simp only [sizeofPartHead]
  rw [u32_eq (by omega)]
  by_cases hin : 96 + pos + len ≤ d.part.len
  · rw [falPartitionRead_ok hp hin, falPartitionRead_ok hp hin]
    refine congrArg some (readFlash_congr (by omega) fun a h₁ h₂ => h.body a ⟨?_, ?_⟩)
    · omega
    · omega
  · rw [falPartitionRead_beyond (by omega) (by omega),
      falPartitionRead_beyond (by omega) (by omega)]

theorem rtFotaReadPart_alike (env : Env) (hp : d.part.Ok) {pos : Nat} (hpos : pos ≤ d.part.len)
    (aesIv : Option (List Byte)) (buf : List Byte) (len : Nat) :
    Same (Alike d) (rtFotaReadPart env d.part pos aesIv buf len) := by
  unfold rtFotaReadPart
  split
  · exact same_pure _
  · rename_i hlen
    have hlen : len ≤ 4096 := by
      simp only [rtFotaAlgoBuffSize] at hlen
      omega
    refine same_bind (rtMemset_alike _ _ _) fun buf => ?_
    cases aesIv with
    | none =>
        refine same_get_bind (fun w => ?_) fun w v h => ?_
        · split
          · exact same_pure _
          · refine same_ite (same_pure _) (same_bind (store_alike _ _ _) fun _ => ?_)
            exact same_bind (logRead_alike _) fun _ => same_pure _
        · rw [h.read hp hpos hlen]
    | some iv =>
        refine same_bind (rtMalloc_alike _ _) fun ebuf => ?_
        cases ebuf with
        | none => exact same_pure _
        | some ebuf =>
            refine same_bind (rtMemset_alike _ _ _) fun ebuf => ?_
            refine same_get_bind (fun w => ?_) fun w v h => ?_
            · split
              · exact same_pure _
              · refine same_ite (same_pure _) (same_bind (store_alike _ _ _) fun _ => ?_)
                exact same_bind (store_alike _ _ _) fun _ => same_bind (logRead_alike _) fun _ =>
                  same_pure _
            · rw [h.read hp hpos hlen]

/-! ## 3. Reading and decompressing -/

variable {c : CopyCtx} (hp : d.part.Ok) (hc : c.part = d.part) {st : CopyState}

theorem clearCmprs_alike (c : CopyCtx) (st : CopyState) :
    Same (Alike d) (clearCmprs c st) :=
  same_bind (rtMemset_alike _ _ _) fun _ => same_pure _

theorem takeHdrByte_alike (env : Env) (i : Nat) (st : CopyState) :
    Same (Alike d) (takeHdrByte env i st) :=
  same_bind (load_alike _ _ _ _) fun _ => same_bind (store_alike _ _ _) fun _ => same_pure _

theorem fillHdrLoop_alike (env : Env) (k : Nat) (st : CopyState) :
    Same (Alike d) (fillHdrLoop env k st) := by
  induction k generalizing st with
  | zero => exact same_pure _
  | succ k ih => exact same_bind (takeHdrByte_alike _ _ _) fun _ => ih _

theorem decompressBlock_alike (env : Env) (c : CopyCtx) (st : CopyState) :
    Same (Alike d) (decompressBlock env c st) := by
  refine same_bind (rtMemset_alike _ _ _) fun buf => ?_
  split
  · exact same_pure _
  · exact same_bind (load_alike _ _ _ _) fun _ => same_bind (store_alike _ _ _) fun _ => same_pure _

/-- Clearing the buffer leaves the position. -/
theorem clearCmprs_pos (c : CopyCtx) (st : CopyState) :
    Returns (clearCmprs c st) fun st' => st'.fwRawPos = st.fwRawPos :=
  returns_bind (returns_any _) fun _ _ => returns_pure rfl

theorem takeHdrByte_pos (env : Env) (i : Nat) (st : CopyState) :
    Returns (takeHdrByte env i st) fun st' => st'.fwRawPos = st.fwRawPos :=
  returns_bind (returns_any _) fun _ _ => returns_bind (returns_any _) fun _ _ => returns_pure rfl

include hp hc

theorem readChunk_alike (hpos : st.fwRawPos ≤ d.part.len) :
    Same (Alike d) (readChunk env c st) := by
  unfold readChunk
  rw [hc]
  refine same_bind (rtFotaReadPart_alike env hp hpos _ _ _) fun r => ?_
  exact same_ite (same_throw_bind _) (same_pure _)

theorem fetchNewChunk_alike (hpos : st.fwRawPos ≤ d.part.len) :
    Same (Alike d) (fetchNewChunk env c st) := by
  refine same_bind (readChunk_alike hp hc hpos) fun st => ?_
  refine same_bind (rtMemcpy_alike _ _ _ _ _ _) fun hdr => ?_
  exact same_bind (clearCmprs_alike _ _) fun st => same_bind (rtMemcpy_alike _ _ _ _ _ _) fun _ =>
    same_pure _

theorem fetchPayload_alike (hpos : st.fwRawPos ≤ d.part.len) :
    Same (Alike d) (fetchPayload env c st) := by
  refine same_bind_of (clearCmprs_alike _ _) (clearCmprs_pos _ _) fun st' hst' => ?_
  refine same_ite ?_ ?_
  · refine same_bind (rtMemcpy_alike _ _ _ _ _ _) fun buf => ?_
    refine same_bind (readChunk_alike hp hc (hst'.trans_le hpos)) fun st => ?_
    exact same_bind (rtMemcpy_alike _ _ _ _ _ _) fun _ => same_pure _
  · exact same_bind (rtMemcpy_alike _ _ _ _ _ _) fun _ => same_pure _

theorem fetchInChunkLoop_alike (fuel i : Nat) (hpos : st.fwRawPos ≤ d.part.len) :
    Same (Alike d) (fetchInChunkLoop env c fuel i st) := by
  induction fuel generalizing i st with
  | zero => exact same_throw _
  | succ fuel ih =>
      refine same_ite (same_ite ?_ ?_) (same_pure _)
      · exact same_bind_of (takeHdrByte_alike _ _ _) (takeHdrByte_pos _ _ _) fun st' hst' =>
          ih _ (hst'.trans_le hpos)
      · exact same_bind (fetchPayload_alike hp hc hpos) fun _ => same_pure _

theorem fetchSplitHdr_alike (i : Nat) (hpos : st.fwRawPos ≤ d.part.len) :
    Same (Alike d) (fetchSplitHdr env c i st) := by
  refine same_bind (readChunk_alike hp hc hpos) fun st => ?_
  refine same_bind (fillHdrLoop_alike _ _ _) fun st => ?_
  exact same_bind (clearCmprs_alike _ _) fun st => same_bind (rtMemcpy_alike _ _ _ _ _ _) fun _ =>
    same_pure _

/-- **Alike worlds give the same block.** One pass reads one chunk, at the position it starts
    with. -/
theorem fetchBlock_alike (hpos : st.fwRawPos ≤ d.part.len) :
    Same (Alike d) (fetchBlock env c st) := by
  unfold fetchBlock
  split
  · exact fetchNewChunk_alike hp hc hpos
  · rename_i hin
    have hin : st.blockHdrPos < 4096 := Nat.lt_of_not_le hin
    unfold fetchInChunk
    refine same_bind_of (fetchInChunkLoop_alike hp hc 6 0 hpos)
      (fetchInChunkLoop_further 6 (Nat.zero_le _) rfl rfl rfl hin) fun r hr => ?_
    show Same _ (if r.1 < 4 then _ else _)
    split
    · rename_i hlt
      exact fetchSplitHdr_alike hp hc _ ((hr.1 hlt).trans_le hpos)
    · exact same_pure _

end Alike

/-! ## 4. Writing -/

/-- A program sees one byte at a time. -/
theorem norProgram_congr {addr : Nat} {data : List Byte} {f g : Flash} {a : Nat} (h : g a = f a) :
    norProgram addr data g a = norProgram addr data f a := by
  unfold norProgram
  rw [h]

/-- A write that succeeds writes something. -/
theorem falPartitionWrite_pos {env : Env} {t : FalPartition} {pos m : Nat} {buf : List Byte}
    (h32 : pos + m < 4294967296) {w w' : World} {ret : Int}
    (h : falPartitionWrite env t pos buf m w = .ok ret w') (hret : 0 ≤ ret) : 1 ≤ m := by
  obtain ⟨-, hw⟩ := falPartitionAccess_ok h32 h hret
  by_contra h0
  have hneg : ∀ w₁ w₂ : World, mhFlashWrite env (t.address pos) buf m w₁ = .ok ret w₂ →
      ret = -rtEinval := by
    intro w₁ w₂ hrun
    unfold mhFlashWrite at hrun
    split at hrun
    · cases hrun
      rfl
    · split at hrun
      · cases hrun
        rfl
      · rw [if_pos (by omega)] at hrun
        cases hrun
        rfl
  rw [hneg w w' hw] at hret
  exact absurd hret (by decide)

section Writing

variable {env : Env} {d : TwoRuns} {w v w' : World}

theorem flashProgramPage_alike (hgood : env.Good) (addr size : Nat) (data : List Byte) :
    Same (Alike d) (flashProgramPage env addr size data) := by
  have hrun : ∀ w, flashProgramPage env addr size data w = .ok true
      (w.did (.programPage addr size) (norProgram addr (data.take size) w.flash)) := by
    intro w
    unfold flashProgramPage flashOp
    rw [get_bind, if_pos (hgood.powered _), hgood.rom]
    rfl
  intro w v h
  refine leads_of_ok (hrun w) ⟨_, hrun v, ?_, ?_, h.allocs, h.head, h.again⟩
  · exact fun a ha => norProgram_congr (h.body a ha)
  · exact fun a h₁ h₂ => norProgram_congr (h.front a h₁ h₂)

/-- A piece is programmed in both worlds; inside the front it reads back in both or in none. -/
theorem mhFlashWriteStep_again (hgood : env.Good) {addr written len : Nat} {buf : List Byte}
    (h32 : addr + written + len < 4294967296) (h : Alike d w v) {ok : Bool}
    (hx : mhFlashWriteStep env addr buf written len w = .ok ok w') :
    ∃ ok' v', mhFlashWriteStep env addr buf written len v = .ok ok' v' ∧ Alike d w' v' ∧
      (d.target.base ≤ addr + written → addr + written + len ≤ d.target.base + d.erased → ok' = ok) := by
  unfold mhFlashWriteStep at hx
  obtain ⟨data, w₁, hload, hx⟩ := bind_eq_ok hx
  obtain ⟨done, w₂, hprog, hx⟩ := bind_eq_ok hx
  obtain ⟨v₁, hload', h₁⟩ := (load_alike env buf written len).ok h hload
  obtain ⟨v₂, hprog', h₂⟩ := (flashProgramPage_alike hgood _ _ _).ok h₁ hprog
  unfold mhFlashWriteStep
  rw [bind_ok hload', bind_ok hprog']
  cases done with
  | false =>
      cases hx
      exact ⟨false, v₂, rfl, h₂, fun _ _ => rfl⟩
  | true =>
      cases hx
      refine ⟨_, v₂, rfl, h₂, fun hlo hhi => ?_⟩
      rw [u32_eq (by omega), readFlash_congr (by omega) fun a ha₁ ha₂ =>
        h₂.front a (by omega) (by omega)]

/-- How a write that succeeded in `w` ends in an alike world: the same, or refused behind the
    front. -/
def WroteAgain (d : TwoRuns) (stop : Nat) (ret ret' : Int) (w' v' : World) : Prop :=
  (ret' = ret ∧ Alike d w' v') ∨ (ret' < 0 ∧ d.target.base + d.erased ≤ stop ∧ d.SameFront w' v')

theorem mhFlashWriteLoop_again (hgood : env.Good) (hn : (d.target.base + d.erased) % 256 = 0)
    {addr size written : Nat} {buf : List Byte} (hlo : d.target.base ≤ addr)
    (h32 : addr + size + 256 < 4294967296) (fuel : Nat) (h : Alike d w v) {ret : Int}
    (hx : mhFlashWriteLoop env addr buf size fuel written w = .ok ret w') (hret : 0 ≤ ret) :
    ∃ ret' v', mhFlashWriteLoop env addr buf size fuel written v = .ok ret' v' ∧
      WroteAgain d (addr + size) ret ret' w' v' := by
  have hrom : env.rom.Precise := by
    rw [hgood.rom]
    exact norRom_precise
  induction fuel generalizing written w v with
  | zero => cases hx
  | succ fuel ih =>
      unfold mhFlashWriteLoop at hx ⊢
      by_cases hw : written < size
      · rw [if_pos hw] at hx ⊢
        obtain ⟨ok, w₁, hstep, hx⟩ := bind_eq_ok hx
        obtain ⟨hlen1, hpage, -⟩ := @mhFlashWriteLen_spec addr size written hw
        generalize mhFlashWriteLen addr size written = len at hlen1 hpage hstep hx ⊢
        obtain ⟨ok', v₁, hstep', h₁, hsame⟩ := mhFlashWriteStep_again hgood (by omega) h hstep
        rw [bind_ok hstep']
        cases ok with
        | false =>
            cases hx
            exact absurd hret (by decide)
        | true =>
            rw [if_pos rfl] at hx
            cases ok' with
            | true =>
                rw [if_pos rfl]
                exact ih h₁ hx
            | false =>
                -- refused: the piece lies behind the front, and so does all that follows
                have hbehind : d.target.base + d.erased ≤ addr + written := by
                  by_contra hin
                  exact absurd (hsame (by omega) (by omega)) Bool.false_ne_true
                have hkept : FrontKept (addr + written) w₁ w' :=
                  (mhFlashWriteLoop_front hrom h32 (by omega) fuel).ok hx
                refine ⟨-rtError, v₁, rfl, .inr ⟨by decide, by omega, fun a ha₁ ha₂ => ?_⟩⟩
                rw [h₁.front a ha₁ ha₂, hkept a (by omega)]
      · rw [if_neg hw] at hx ⊢
        cases hx
        exact ⟨_, v, rfl, .inl ⟨rfl, h⟩⟩

/-- What the write to the target at the running total comes to. -/
theorem writeOut_of_ok {t : FalPartition} {buf : List Byte} {m : Nat} {st : CopyState}
    (hfind : falPartitionFind env w.fotaPartHead.appPartName = some t) {ret : Int}
    (h : falPartitionWrite env t st.totalCopySize buf m w = .ok ret w') :
    writeOut env buf m st w = if ret < 0 then .error (.exit rtFotaCopyFailed) w' else
      .ok { st with totalCopySize := u32 (st.totalCopySize + m) } w' := by
  by_cases hneg : ret < 0
  · have happ : rtFotaWriteAppPart env st.totalCopySize buf m w = .ok rtFotaPartWriteErr w' := by
      refine withExit_exit ?_
      rw [get_bind]
      simp only [hfind]
      rw [bind_ok h, if_pos hneg]
      rfl
    unfold writeOut
    rw [bind_ok happ, if_pos (by decide), if_pos hneg]
    rfl
  · have happ : rtFotaWriteAppPart env st.totalCopySize buf m w = .ok rtFotaNoErr w' := by
      refine withExit_ok ?_
      rw [get_bind]
      simp only [hfind]
      rw [bind_ok h, if_neg hneg]
      rfl
    unfold writeOut
    rw [bind_ok happ, if_neg (by decide), if_neg hneg]
    rfl

/-- A pass that succeeded has written. -/
theorem writeOut_eq_ok {t : FalPartition} {buf : List Byte} {m : Nat} {st st' : CopyState}
    (hfind : falPartitionFind env w.fotaPartHead.appPartName = some t)
    (h : writeOut env buf m st w = .ok st' w') :
    ∃ ret, 0 ≤ ret ∧ falPartitionWrite env t st.totalCopySize buf m w = .ok ret w' ∧
      st' = { st with totalCopySize := u32 (st.totalCopySize + m) } := by
  cases hw : falPartitionWrite env t st.totalCopySize buf m w with
  | ok ret w₁ =>
      rw [writeOut_of_ok hfind hw] at h
      by_cases hneg : ret < 0
      · rw [if_pos hneg] at h
        cases h
      · rw [if_neg hneg] at h
        cases h
        exact ⟨ret, by omega, rfl, rfl⟩
  | error e w₁ =>
      have hstop : writeOut env buf m st w = .error e w₁ := by
        refine bind_error ?_
        unfold rtFotaWriteAppPart withExit
        rw [get_bind]
        simp only [hfind]
        rw [bind_error hw]
        cases e with
        | exit err => exact absurd rfl (falPartitionWrite_stops t _ buf m w _ w₁ hw err)
        | crash => rfl
        | powerLoss => rfl
        | outOfFuel => rfl
      rw [hstop] at h
      cases h

/-- How a run that returned `a` in `w'` ends from an alike world: the same, or stopped at a write
    that is refused behind the front, when the run had come to a total of `total`. -/
def Redone {α : Type} (d : TwoRuns) (y : M α) (v : World) (a : α) (w' : World) (total : Nat) :
    Prop :=
  Leads y v (fun b v' => b = a ∧ Alike d w' v')
    fun e v' => e = .exit rtFotaCopyFailed ∧ d.erased ≤ total ∧ d.SameFront w' v'

/-- Source, target and environment of the two runs. -/
structure TwoRuns.Ok (d : TwoRuns) (env : Env) : Prop where
  good : env.Good
  part : d.part.Ok
  target : d.target.Ok
  erased : d.erased % 256 = 0
  find : falPartitionFind env d.head.appPartName = some d.target
  findAgain : falPartitionFind env d.again.appPartName = some d.target

section Passes

variable (hd : d.Ok env) {c : CopyCtx} {st st' : CopyState}
include hd

theorem TwoRuns.Ok.precise : env.rom.Precise := by
  rw [hd.good.rom]
  exact norRom_precise

theorem writeOut_again {buf : List Byte} {m : Nat} (hm : m ≤ 4096)
    (hinv : CopyInv d.target.len st) (h : Alike d w v)
    (hx : writeOut env buf m st w = .ok st' w') :
    Redone d (writeOut env buf m st) v st' w' st'.totalCopySize := by
  have hbase := hd.target.base_lt
  have hmod := hd.target.base_mod
  have herased := hd.erased
  have htotal := hinv.total
  have hfind : falPartitionFind env w.fotaPartHead.appPartName = some d.target := by
    rw [h.head]
    exact hd.find
  have hfind' : falPartitionFind env v.fotaPartHead.appPartName = some d.target := by
    rw [h.again]
    exact hd.findAgain
  have h32 : st.totalCopySize + m < 4294967296 := by omega
  obtain ⟨ret, hret, hwrite, rfl⟩ := writeOut_eq_ok hfind hx
  have hal := falPartitionWrite_aligned hd.target h32 hwrite hret
  have h1 := falPartitionWrite_pos h32 hwrite hret
  obtain ⟨hin, -⟩ := falPartitionAccess_ok h32 hwrite hret
  rw [falPartitionWrite_eq hd.target hal h1 hin] at hwrite
  obtain ⟨ret', v', hrun, hcase⟩ := mhFlashWriteLoop_again hd.good (by omega)
    (Nat.le_add_right _ _) (by omega) _ h hwrite hret
  rw [← falPartitionWrite_eq hd.target hal h1 hin] at hrun
  rcases hcase with ⟨rfl, halike⟩ | ⟨hneg, hbehind, hfront⟩
  · refine leads_of_ok (a := { st with totalCopySize := u32 (st.totalCopySize + m) }) ?_
      ⟨rfl, halike⟩
    rw [writeOut_of_ok hfind' hrun, if_neg (by omega)]
  · refine leads_of_error (e := .exit rtFotaCopyFailed) ?_ ⟨rfl, ?_, hfront⟩
    · rw [writeOut_of_ok hfind' hrun, if_pos hneg]
    · show d.erased ≤ u32 (st.totalCopySize + m)
      rw [u32_eq h32]
      omega

theorem deliverBlock_again (hinv : CopyInv d.target.len st) (h : Alike d w v)
    (hx : deliverBlock env c st w = .ok st' w') :
    Redone d (deliverBlock env c st) v st' w' st'.totalCopySize := by
  unfold deliverBlock at hx ⊢
  obtain ⟨st₁, w₁, hdec, hx⟩ := bind_eq_ok hx
  obtain ⟨v₁, hdec', h₁⟩ := (decompressBlock_alike env c st).ok h hdec
  have hinv₁ := decompressBlock_inv hinv w st₁ w₁ hdec
  refine leads_of_eq (bind_ok hdec') ?_
  by_cases h0 : st₁.dcprsSize = 0
  · rw [if_pos h0] at hx
    cases hx
  · rw [if_neg h0] at hx ⊢
    exact writeOut_again hd hinv₁.dcprsSize hinv₁ h₁ hx

variable (hc : c.part = d.part)
include hc

/-- **A pass of the main loop** is redone. -/
theorem copyStep_again (hpos : st.fwRawPos ≤ d.part.len) (hinv : CopyInv d.target.len st)
    (h : Alike d w v) (hx : copyStep env c st w = .ok st' w') :
    Redone d (copyStep env c st) v st' w' st'.totalCopySize := by
  unfold copyStep at hx ⊢
  by_cases hcmprs : c.partHead.cmprs ≠ rtFotaCryptAlgoNone
  · rw [if_pos hcmprs] at hx ⊢
    obtain ⟨st₁, w₁, hfetch, hx⟩ := bind_eq_ok hx
    obtain ⟨v₁, hfetch', h₁⟩ := (fetchBlock_alike hd.part hc hpos).ok h hfetch
    refine leads_of_eq (bind_ok hfetch') ?_
    exact deliverBlock_again hd (hinv.of_sameOutput (fetchBlock_output w st₁ w₁ hfetch)) h₁ hx
  · rw [if_neg hcmprs] at hx ⊢
    obtain ⟨st₁, w₁, hread, hx⟩ := bind_eq_ok hx
    obtain ⟨v₁, hread', h₁⟩ := (readChunk_alike hd.part hc hpos).ok h hread
    have hinv₁ := hinv.of_sameOutput (readChunk_output (.refl st) w st₁ w₁ hread)
    refine leads_of_eq (bind_ok hread') ?_
    exact writeOut_again hd hinv₁.rawLen hinv₁ h₁ hx

/-- **The main loop** is redone. -/
theorem copyLoop_again (hcom : c.partHead.comSize ≤ d.part.len) (fuel : Nat)
    (hinv : CopyInv d.target.len st) (h : Alike d w v)
    (hx : copyLoop env c fuel st w = .ok st' w') :
    Redone d (copyLoop env c fuel st) v st' w' st'.totalCopySize := by
  induction fuel generalizing st w v with
  | zero => cases hx
  | succ fuel ih =>
      have hfind : falPartitionFind env w.fotaPartHead.appPartName = some d.target := by
        rw [h.head]
        exact hd.find
      unfold copyLoop at hx ⊢
      by_cases hmore : st.fwRawPos < c.partHead.comSize
      · rw [if_pos hmore] at hx ⊢
        obtain ⟨st₁, w₁, hstep, hx⟩ := bind_eq_ok hx
        have hon := (copyStep_onward hd.precise hd.target hinv hfind).ok hstep
        have hfind₁ : falPartitionFind env w₁.fotaPartHead.appPartName = some d.target := by
          rw [hon.head]
          exact hfind
        unfold Redone
        rw [leads_bind]
        refine (copyStep_again hd hc (by omega) hinv h hstep).mono (fun b v₁ hagain => ?_)
          fun e v₁ hrefused => ?_
        · obtain ⟨rfl, h₁⟩ := hagain
          exact ih hon.inv h₁ hx
        · -- refused: what the first run writes from here on lies behind the front
          obtain ⟨he, hle, hfront⟩ := hrefused
          have hrest := (copyLoop_onward hd.precise hd.target fuel hon.inv hfind₁).ok hx
          refine ⟨he, hle.trans hrest.grown, fun a h₁ h₂ => ?_⟩
          rw [hfront a h₁ h₂, hrest.front a (by omega)]
      · rw [if_neg hmore] at hx ⊢
        cases hx
        exact leads_pure.mpr ⟨rfl, h⟩

end Passes

/-! ## 5. The tail loop -/

/-- What a pass of the tail loop does in front of the delivery: the block, if one is whole. -/
def tailFetch (env : Env) (c : CopyCtx) (st : CopyState) : M (Option CopyState) := do
  if st.blockHdrPos < st.fwRawLen ∧ st.fwRawLen - st.blockHdrPos > rtFotaBlockHeaderSize then
    let blockHdrBuf ← rtMemcpy env st.blockHdrBuf 0 st.cryptBuf st.blockHdrPos rtFotaBlockHeaderSize
    let st := { st with blockHdrBuf := blockHdrBuf, blockSize := blockSizeOf blockHdrBuf }
    if st.fwRawLen - st.blockHdrPos - rtFotaBlockHeaderSize ≥ st.blockSize then
      let st ← clearCmprs c st
      let cmprsBuff ← rtMemcpy env st.cmprsBuff 0 st.cryptBuf
        (st.blockHdrPos + rtFotaBlockHeaderSize) st.blockSize
      pure (some { st with
        cmprsBuff := cmprsBuff
        blockHdrPos := st.blockHdrPos + (st.blockSize + rtFotaBlockHeaderSize) })
    else
      pure none
  else
    pure none

/-- The delivery of it. -/
def tailDeliver (env : Env) (c : CopyCtx) : Option CopyState → M (Option CopyState)
  | none => pure none
  | some st => do
      let st ← deliverBlock env c st
      pure (some st)

theorem tailStep_eq (env : Env) (c : CopyCtx) (st : CopyState) :
    tailStep env c st = tailFetch env c st >>= tailDeliver env c := by
  unfold tailStep tailFetch
  split
  · rw [bind_assoc]
    refine congrArg (_ >>= ·) (funext fun hdr => ?_)
    simp only
    split
    · simp only [bind_assoc, pure_bind, tailDeliver]
    · rfl
  · rfl

theorem tailFetch_quiet (env : Env) (c : CopyCtx) (st : CopyState) :
    Keeps Quiet (tailFetch env c st) := by
  refine keeps_ite (keeps_bind (rtMemcpy_quiet env _ _ _ _ _) fun hdr => ?_) (keeps_pure _)
  refine keeps_ite (keeps_bind (clearCmprs_quiet c _) fun st => ?_) (keeps_pure _)
  exact keeps_bind (rtMemcpy_quiet env _ _ _ _ _) fun _ => keeps_pure _

theorem tailFetch_alike (env : Env) (c : CopyCtx) (st : CopyState) :
    Same (Alike d) (tailFetch env c st) := by
  refine same_ite (same_bind (rtMemcpy_alike _ _ _ _ _ _) fun hdr => ?_) (same_pure _)
  refine same_ite (same_bind (clearCmprs_alike _ _) fun st => ?_) (same_pure _)
  exact same_bind (rtMemcpy_alike _ _ _ _ _ _) fun _ => same_pure _

/-- The output side stays. -/
theorem tailFetch_output (env : Env) (c : CopyCtx) (st : CopyState) :
    Returns (tailFetch env c st) fun r => ∀ st', r = some st' → SameOutput st st' := by
  have hnone : ∀ st', (none : Option CopyState) = some st' → SameOutput st st' :=
    fun st' h => by cases h
  refine returns_ite (fun _ => returns_bind (returns_any _) fun hdr _ => ?_) fun _ =>
    returns_pure hnone
  refine returns_ite (fun _ => ?_) fun _ => returns_pure hnone
  refine returns_bind (clearCmprs_output (.refl _)) fun st₁ h₁ =>
    returns_bind (returns_any _) fun _ _ => returns_pure fun st' h => ?_
  cases h
  exact ⟨h₁.total, h₁.dcprsSize, h₁.dcprsBuff, h₁.rawLen⟩

section Tail

variable {c : CopyCtx} {st : CopyState}

/-- What the loops come to, and the check of it. -/
theorem upgradeCopy_eq (env : Env) (c : CopyCtx) (st : CopyState) :
    upgradeCopy env c st = (copyLoop env c (copyFuel c.partHead.comSize) st >>= fun st =>
      (if c.partHead.cmprs ≠ rtFotaCryptAlgoNone then tailLoop env c tailFuel st
        else pure st.totalCopySize) >>= fun total =>
      if total < c.partHead.rawSize then exit rtFotaGeneralErr else pure rtFotaNoErr) := by
  have hend : ∀ total, (if total < c.partHead.rawSize then (do
      let _ ← (exit rtFotaGeneralErr : M Unit)
      pure rtFotaNoErr) else pure rtFotaNoErr : M Int) =
      if total < c.partHead.rawSize then exit rtFotaGeneralErr else pure rtFotaNoErr :=
    fun total => if_congr Iff.rfl rfl rfl
  unfold upgradeCopy
  refine congrArg (_ >>= ·) (funext fun st => ?_)
  split
  · exact congrArg (_ >>= ·) (funext hend)
  · exact congrArg (_ >>= ·) (funext hend)

/-- A pass of the tail loop goes onward. -/
theorem tailStep_onward {t : FalPartition} (hrom : env.rom.Precise) (ht : t.Ok)
    (hinv : CopyInv t.len st) (hfind : falPartitionFind env w.fotaPartHead.appPartName = some t)
    {next : Option CopyState} (hx : tailStep env c st w = .ok next w') :
    Onward t st (next.getD st) w w' := by
  rw [tailStep_eq] at hx
  obtain ⟨r, w₁, hfetch, hx⟩ := bind_eq_ok hx
  have hq := (tailFetch_quiet env c st).ok hfetch
  have hout := tailFetch_output env c st w r w₁ hfetch
  cases r with
  | none =>
      cases hx
      exact ⟨hinv, Nat.le_refl _, fun a _ => by rw [hq.flash], hq.head⟩
  | some st₁ =>
      have hsame := hout st₁ rfl
      have hinv₁ := hinv.of_sameOutput hsame
      have hfind₁ : falPartitionFind env w₁.fotaPartHead.appPartName = some t := by
        rw [hq.head]
        exact hfind
      have hx : (deliverBlock env c st₁ >>= fun st => pure (some st)) w₁ = .ok next w' := hx
      obtain ⟨st₂, w₂, hdel, hx⟩ := bind_eq_ok hx
      cases hx
      have hbehind := ((deliverBlock_behind hrom ht hinv₁ hfind₁).ok hdel).of_quiet hsame.total hq
      obtain ⟨hwithin, hinv₂⟩ := (deliverBlock_keepsAt ht hinv₁ hfind₁).ok hdel
      exact ⟨hinv₂, hbehind.grown, hbehind.front, hwithin.head.trans hq.head⟩

theorem tailLoop_front {t : FalPartition} (hrom : env.rom.Precise) (ht : t.Ok) (fuel : Nat)
    (hinv : CopyInv t.len st) (hfind : falPartitionFind env w.fotaPartHead.appPartName = some t)
    {total : Nat} (hx : tailLoop env c fuel st w = .ok total w') :
    FrontKept (t.base + st.totalCopySize) w w' := by
  induction fuel generalizing st w with
  | zero => cases hx
  | succ fuel ih =>
      unfold tailLoop at hx
      split at hx
      · obtain ⟨next, w₁, hstep, hx⟩ := bind_eq_ok hx
        have hon := tailStep_onward hrom ht hinv hfind hstep
        cases next with
        | none =>
            cases hx
            exact hon.front
        | some st₁ =>
            have hgrown : st.totalCopySize ≤ st₁.totalCopySize := hon.grown
            have hrest := ih hon.inv (by rw [hon.head]; exact hfind) hx
            intro a ha
            rw [hrest a (by show a < t.base + st₁.totalCopySize; omega), hon.front a ha]
      · cases hx
        exact Std.Refl.refl _

variable (hd : d.Ok env)
include hd

/-- **A pass of the tail loop** is redone. -/
theorem tailStep_again (hinv : CopyInv d.target.len st) (h : Alike d w v)
    {next : Option CopyState} (hx : tailStep env c st w = .ok next w') :
    Redone d (tailStep env c st) v next w' (next.getD st).totalCopySize := by
  rw [tailStep_eq] at hx ⊢
  obtain ⟨r, w₁, hfetch, hx⟩ := bind_eq_ok hx
  obtain ⟨v₁, hfetch', h₁⟩ := (tailFetch_alike env c st).ok h hfetch
  have hout := tailFetch_output env c st w r w₁ hfetch
  refine leads_of_eq (bind_ok hfetch') ?_
  cases r with
  | none =>
      cases hx
      exact leads_pure.mpr ⟨rfl, h₁⟩
  | some st₁ =>
      have hx : (deliverBlock env c st₁ >>= fun st => pure (some st)) w₁ = .ok next w' := hx
      obtain ⟨st₂, w₂, hdel, hx⟩ := bind_eq_ok hx
      cases hx
      unfold tailDeliver
      rw [leads_bind]
      refine (deliverBlock_again hd (hinv.of_sameOutput (hout st₁ rfl)) h₁ hdel).mono
        (fun b v₂ ⟨hb, h₂⟩ => ?_) fun _ _ h => h
      subst hb
      exact leads_pure.mpr ⟨rfl, h₂⟩

/-- **The tail loop** is redone. -/
theorem tailLoop_again (fuel : Nat) (hinv : CopyInv d.target.len st) (h : Alike d w v)
    {total : Nat} (hx : tailLoop env c fuel st w = .ok total w') :
    Leads (tailLoop env c fuel st) v (fun b v' => b = total ∧ Alike d w' v')
      fun e v' => e = .exit rtFotaCopyFailed ∧ d.SameFront w' v' := by
  induction fuel generalizing st w v with
  | zero => cases hx
  | succ fuel ih =>
      have hfind : falPartitionFind env w.fotaPartHead.appPartName = some d.target := by
        rw [h.head]
        exact hd.find
      unfold tailLoop at hx ⊢
      by_cases hmore : st.totalCopySize < c.partHead.rawSize
      · rw [if_pos hmore] at hx ⊢
        obtain ⟨next, w₁, hstep, hx⟩ := bind_eq_ok hx
        have hon := tailStep_onward hd.precise hd.target hinv hfind hstep
        have hfind₁ : falPartitionFind env w₁.fotaPartHead.appPartName = some d.target := by
          rw [hon.head]
          exact hfind
        rw [leads_bind]
        refine (tailStep_again hd hinv h hstep).mono (fun b v₁ hagain => ?_)
          fun e v₁ hrefused => ?_
        · obtain ⟨rfl, h₁⟩ := hagain
          cases b with
          | none =>
              cases hx
              exact leads_pure.mpr ⟨rfl, h₁⟩
          | some st₁ => exact ih hon.inv h₁ hx
        · obtain ⟨he, hle, hfront⟩ := hrefused
          refine ⟨he, fun a ha₁ ha₂ => ?_⟩
          cases next with
          | none =>
              cases hx
              exact hfront a ha₁ ha₂
          | some st₁ =>
              have hle : d.erased ≤ st₁.totalCopySize := hle
              have hrest := tailLoop_front hd.precise hd.target fuel hon.inv hfind₁ hx
              rw [hfront a ha₁ ha₂, hrest a (by
                show a < d.target.base + st₁.totalCopySize
                omega)]
      · rw [if_neg hmore] at hx ⊢
        cases hx
        exact leads_pure.mpr ⟨rfl, h⟩

/-- **The copy** is redone. -/
theorem upgradeCopy_again (hc : c.part = d.part) (hcom : c.partHead.comSize ≤ d.part.len)
    (hinv : CopyInv d.target.len st) (h : Alike d w v) {r : Int}
    (hx : upgradeCopy env c st w = .ok r w') :
    Leads (upgradeCopy env c st) v (fun b v' => b = r ∧ Alike d w' v')
      fun e v' => e = .exit rtFotaCopyFailed ∧ d.SameFront w' v' := by
  have hfind : falPartitionFind env w.fotaPartHead.appPartName = some d.target := by
    rw [h.head]
    exact hd.find
  rw [upgradeCopy_eq] at hx ⊢
  obtain ⟨st₁, w₁, hloop, hx⟩ := bind_eq_ok hx
  obtain ⟨total, w₂, htail, hx⟩ := bind_eq_ok hx
  have hon := (copyLoop_onward hd.precise hd.target _ hinv hfind).ok hloop
  have hfind₁ : falPartitionFind env w₁.fotaPartHead.appPartName = some d.target := by
    rw [hon.head]
    exact hfind
  by_cases hshort : total < c.partHead.rawSize
  · rw [if_pos hshort] at hx
    cases hx
  rw [if_neg hshort] at hx
  cases hx
  have hrest : FrontKept (d.target.base + st₁.totalCopySize) w₁ w' := by
    by_cases hcmprs : c.partHead.cmprs ≠ rtFotaCryptAlgoNone
    · rw [if_pos hcmprs] at htail
      exact tailLoop_front hd.precise hd.target _ hon.inv hfind₁ htail
    · rw [if_neg hcmprs] at htail
      cases htail
      exact Std.Refl.refl _
  rw [leads_bind]
  refine (copyLoop_again hd hc hcom _ hinv h hloop).mono (fun b v₁ ⟨hb, h₁⟩ => ?_)
    fun e v₁ ⟨he, hle, hfront⟩ => ⟨he, fun a ha₁ ha₂ => ?_⟩
  · subst hb
    rw [leads_bind]
    by_cases hcmprs : c.partHead.cmprs ≠ rtFotaCryptAlgoNone
    · rw [if_pos hcmprs] at htail ⊢
      refine (tailLoop_again hd _ hon.inv h₁ htail).mono (fun b v₂ ⟨hb, h₂⟩ => ?_) fun _ _ h => h
      subst hb
      rw [if_neg hshort]
      exact leads_pure.mpr ⟨rfl, h₂⟩
    · rw [if_neg hcmprs] at htail ⊢
      cases htail
      refine leads_pure.mpr ?_
      rw [if_neg hshort]
      exact leads_pure.mpr ⟨rfl, h₁⟩
  · rw [hfront a ha₁ ha₂, hrest a (by omega)]

end Tail

end Writing

/-! ## 6. The whole upgrade -/

/-- What the setup does behind the erase: the locals of the loops and the padding. -/
def setupLocals (env : Env) (h : RtFotaPartHead) : M (CopyState × Nat) := do
  let cryptBuf ← rtMalloc env rtFotaAlgoBuffSize
  match cryptBuf with
  | none => exit rtFotaNoMemErr
  | some cryptBuf => do
    let aesIv ← setupCrypt env h
    let (cmprsBuff, dcprsBuff, paddingSize) ← setupCmprs env h
    pure (
      { fwRawPos := 0, fwRawLen := 0, totalCopySize := 0
        blockHdrBuf := (List.range rtFotaBlockHeaderSize).map env.memory
        blockHdrPos := rtFotaAlgoBuffSize, blockSize := 0, dcprsSize := 0
        aesIv := aesIv, cryptBuf := cryptBuf, cmprsBuff := cmprsBuff, dcprsBuff := dcprsBuff },
      paddingSize)

section Whole

variable {env : Env} {d : TwoRuns} {partName : Option (List Byte)} {part : FalPartition}
variable {w w₁ : World}

theorem upgradeSetup_of_erase (hpart : partName.bind (falPartitionFind env) = some part)
    (herase : rtFotaEraseAppPart env w = .ok rtFotaNoErr w₁) :
    upgradeSetup env partName w =
      (setupLocals env w₁.fotaPartHead >>= fun r =>
        pure (⟨part, w₁.fotaPartHead, r.2⟩, r.1)) w₁ := by
  unfold upgradeSetup setupLocals
  simp only [hpart]
  rw [bind_ok herase, if_neg (not_not.mpr rfl), get_bind, bind_assoc]
  refine congrFun (congrArg (_ >>= ·) (funext fun buf => ?_)) w₁
  cases buf with
  | none => rfl
  | some buf => simp only [bind_assoc, pure_bind]

theorem setupLocals_alike (env : Env) (h : RtFotaPartHead) :
    Same (Alike d) (setupLocals env h) := by
  refine same_bind (rtMalloc_alike _ _) fun buf => ?_
  cases buf with
  | none => exact same_throw _
  | some buf =>
      refine same_bind ?_ fun iv => same_bind ?_ fun bufs => same_pure _
      · refine same_ite ?_ (same_ite (same_throw _) (same_pure _))
        refine same_bind (rtMalloc_alike _ _) fun _ => same_bind (rtMalloc_alike _ _) fun _ => ?_
        exact same_ite (same_throw_bind _) (same_pure _)
      · refine same_ite ?_ (same_ite ?_ (same_ite (same_throw _) (same_pure _)))
        · refine same_bind (rtMalloc_alike _ _) fun _ => same_bind (rtMalloc_alike _ _) fun _ => ?_
          split
          · exact same_pure _
          · exact same_throw _
        · refine same_bind (rtMalloc_alike _ _) fun _ => same_bind (rtMalloc_alike _ _) fun _ =>
            same_bind (rtMalloc_alike _ _) fun _ => ?_
          split
          · exact same_pure _
          · exact same_throw _

/-- Erasing the target makes worlds alike that agree on the body. -/
theorem alike_erased {t : FalPartition} {v : World} {size : Nat}
    (hbody : ∀ a, part.BodyArea a → v.flash a = w.flash a) (hallocs : v.allocs = w.allocs) :
    Alike ⟨part, t, sectors size * 4096, w.fotaPartHead, v.fotaPartHead⟩ (w.erased t size)
      (v.erased t size) := by
  refine ⟨fun a ha => ?_, fun a h₁ h₂ => ?_, hallocs, rfl, rfl⟩
  · show eraseRange _ _ _ a = eraseRange _ _ _ a
    unfold eraseRange
    rw [hbody a ha]
  · show eraseRange _ _ _ a = eraseRange _ _ _ a
    unfold eraseRange
    rw [if_pos ⟨h₁, h₂⟩, if_pos ⟨h₁, h₂⟩]

/-- The two runs of an upgrade from `part` into `t`. -/
def twoRuns (part t : FalPartition) (w v : World) : TwoRuns :=
  ⟨part, t, sectors w.fotaPartHead.rawSize * 4096, w.fotaPartHead, v.fotaPartHead⟩

/-- What is erased covers the raw size. -/
theorem TwoRuns.SameFront.raw {t : FalPartition} {v w' v' : World}
    (h : (twoRuns part t w v).SameFront w' v') {a : Nat} (ha : t.base ≤ a)
    (hlt : a < t.base + w.fotaPartHead.rawSize) : v'.flash a = w'.flash a := by
  refine h a ha ?_
  show a < t.base + sectors w.fotaPartHead.rawSize * 4096
  unfold sectors
  omega

/-- **The setup** is redone: the loops start with the same locals in worlds that are alike. -/
theorem upgradeSetup_again {t : FalPartition} {v w₂ : World} (hgood : env.Good) (ht : t.Ok)
    (hpart : partName.bind (falPartitionFind env) = some part)
    (hfind : falPartitionFind env w.fotaPartHead.appPartName = some t)
    (h1 : 1 ≤ w.fotaPartHead.rawSize) (hlen : w.fotaPartHead.rawSize ≤ t.len)
    (hk : SameImage env w.fotaPartHead v.fotaPartHead)
    (hbody : ∀ a, part.BodyArea a → v.flash a = w.flash a) (hallocs : v.allocs = w.allocs)
    {r : CopyCtx × CopyState} (hsetup : upgradeSetup env partName w = .ok r w₂) :
    ∃ st pad v₂, r = (⟨part, w.fotaPartHead, pad⟩, st) ∧
      upgradeSetup env partName v = .ok (⟨part, v.fotaPartHead, pad⟩, st) v₂ ∧
      Alike (twoRuns part t w v) w₂ v₂ := by
  have herase := rtFotaEraseAppPart_good hgood.erases ht hfind h1 hlen
  have herase' := rtFotaEraseAppPart_good (w := v) hgood.erases ht
    (by rw [hk.target]; exact hfind) (by rw [hk.rawSize]; exact h1) (by rw [hk.rawSize]; exact hlen)
  rw [hk.rawSize] at herase'
  rw [upgradeSetup_of_erase hpart herase] at hsetup
  obtain ⟨⟨st, pad⟩, w₃, hlocals, hsetup⟩ := bind_eq_ok hsetup
  cases hsetup
  have halike : Alike (twoRuns part t w v) (w.erased t w.fotaPartHead.rawSize)
      (v.erased t w.fotaPartHead.rawSize) := alike_erased hbody hallocs
  obtain ⟨v₂, hlocals', h₂⟩ := (setupLocals_alike env _).ok halike hlocals
  have hsame : setupLocals env v.fotaPartHead = setupLocals env w.fotaPartHead := by
    unfold setupLocals
    rw [hk.setupCrypt, hk.setupCmprs]
  refine ⟨st, pad, v₂, rfl, ?_, h₂⟩
  rw [upgradeSetup_of_erase hpart herase']
  show (setupLocals env v.fotaPartHead >>= _) _ = _
  rw [hsame]
  exact bind_ok hlocals'

/-- **An upgrade that succeeded once puts the same into the front of its target again**, from any
    world with the same body and a header that says the same of it, whatever the target holds. The
    second run need not succeed. -/
theorem upgrade_again {t : FalPartition} {v w' : World} (hgood : env.Good) (hp : part.Ok)
    (ht : t.Ok) (hpart : partName.bind (falPartitionFind env) = some part)
    (hfind : falPartitionFind env w.fotaPartHead.appPartName = some t)
    (hcom : w.fotaPartHead.comSize ≤ part.len)
    (hrun : rtFotaUpgrade env partName w = .ok rtFotaNoErr w')
    (hk : SameImage env w.fotaPartHead v.fotaPartHead)
    (hbody : ∀ a, part.BodyArea a → v.flash a = w.flash a) (hallocs : v.allocs = w.allocs) :
    ∃ r v', rtFotaUpgrade env partName v = .ok r v' ∧
      ∀ a, t.base ≤ a → a < t.base + w.fotaPartHead.rawSize → v'.flash a = w'.flash a := by
  have hrom : env.rom.Confined := by
    rw [hgood.rom]
    exact norRom_confined
  obtain ⟨w₁, herase⟩ := rtFotaUpgrade_erase_ok hpart hfind hrun (by decide)
  obtain ⟨h1, hlen, -, -⟩ := rtFotaEraseAppPart_sound hrom ht hfind herase
  obtain ⟨r, w₂, hsetup, hcopy⟩ := rtFotaUpgrade_ok hrun
  have hinv := ((upgradeSetup_keepsAt ht hfind partName).ok hsetup).2
  obtain ⟨st, pad, v₂, rfl, hsetup', h₂⟩ :=
    upgradeSetup_again hgood ht hpart hfind h1 hlen hk hbody hallocs hsetup
  have hd : (twoRuns part t w v).Ok env := by
    refine ⟨hgood, hp, ht, ?_, hfind, ?_⟩
    · show sectors w.fotaPartHead.rawSize * 4096 % 256 = 0
      omega
    · show falPartitionFind env v.fotaPartHead.appPartName = some t
      rw [hk.target]
      exact hfind
  have hcopy : upgradeCopy env ⟨part, w.fotaPartHead, pad⟩ st w₂ = .ok rtFotaNoErr w' := hcopy
  have hlead := upgradeCopy_again hd rfl hcom hinv h₂ hcopy
  have hheads : upgradeCopy env ⟨part, v.fotaPartHead, pad⟩ st =
      upgradeCopy env ⟨part, w.fotaPartHead, pad⟩ st :=
    hk.upgradeCopy ⟨part, w.fotaPartHead, pad⟩ st
  rw [← hheads] at hlead
  unfold rtFotaUpgrade
  cases hv : upgradeCopy env ⟨part, v.fotaPartHead, pad⟩ st v₂ with
  | ok b v' =>
      obtain ⟨-, halike⟩ := hlead.ok hv
      exact ⟨b, v', withExit_ok ((bind_ok hsetup').trans hv), fun _ => halike.front.raw⟩
  | error e v' =>
      obtain ⟨rfl, hsame'⟩ := hlead.error hv
      exact ⟨_, v', withExit_exit ((bind_ok hsetup').trans hv), fun _ => hsame'.raw⟩

end Whole

end Mh1903
