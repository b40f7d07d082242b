/-
  File:      Mh1903/Copy/Deliver.lean
  Subject:   DELIVERING A BLOCK. A decompressed block is written behind what was delivered before.
             The write stays inside the buffer it is given and, on a ROM that programs no other
             byte, leaves what lies in front of it alone; so success appends the block.
-/
import Mh1903.Copy.Cursor

namespace Mh1903

open Library

/-! ## 1. Writing behind an address -/

/-- A page program changes no other byte than those it is given, inside one page. -/
def Rom.Precise (rom : Rom) : Prop :=
  ∀ n addr data f a, addr % x25qPageSize + data.length ≤ x25qPageSize →
    (a < addr ∨ addr + data.length ≤ a) → (rom.programPage n addr data f).2 a = f a

theorem norRom_precise : norRom.Precise := by
  intro n addr data f a hpage ha
  exact norProgram_outside hpage ha

/-- In front of `lo` the flash is the same. -/
def FrontKept (lo : Nat) (w w' : World) : Prop := ∀ a < lo, w'.flash a = w.flash a

instance (lo : Nat) : Std.Refl (FrontKept lo) := ⟨fun _ _ _ => rfl⟩

instance (lo : Nat) : IsTrans World (FrontKept lo) :=
  ⟨fun _ _ _ h₁ h₂ a ha => (h₂ a ha).trans (h₁ a ha)⟩

section Write

variable {env : Env} {addr size written : Nat} {buf : List Byte}

theorem mhFlashWriteStep_front (hrom : env.rom.Precise) {len : Nat}
    (h32 : addr + written < 4294967296) (hpage : (addr + written) % 256 + len ≤ 256) :
    Keeps (FrontKept (addr + written)) (mhFlashWriteStep env addr buf written len) := by
  refine keeps_of_leads fun w => ?_
  obtain ⟨w₁, hload, hq⟩ := load_ok env buf written len w
  unfold mhFlashWriteStep
  rw [leads_bind]
  refine leads_of_ok hload ?_
  unfold flashProgramPage flashOp
  rw [leads_bind, leads_bind, leads_get, leads_ite]
  refine ⟨fun _ => ?_, fun _ => leads_throw.mpr fun a _ => by rw [hq.flash]⟩
  rw [leads_bind, leads_modify, leads_pure]
  have hprog : ∀ a < addr + written, (env.rom.programPage w₁.ops.length (u32 (addr + written))
      ((slice env.memory buf written len).take len) w₁.flash).2 a = w.flash a := by
    intro a ha
    rw [u32_eq h32, hrom _ _ _ _ _ ?_ (.inl ha), hq.flash]
    rw [List.length_take, length_slice]
    simp only [x25qPageSize]
    omega
  rw [leads_ite]
  refine ⟨fun _ => ?_, fun _ => leads_pure.mpr hprog⟩
  rw [leads_bind, leads_get]
  exact leads_pure.mpr hprog

theorem mhFlashWriteLoop_front (hrom : env.rom.Precise) (h32 : addr + size + 256 < 4294967296)
    {lo : Nat} (hlo : lo ≤ addr + written) (fuel : Nat) :
    Keeps (FrontKept lo) (mhFlashWriteLoop env addr buf size fuel written) := by
  induction fuel generalizing written with
  | zero => exact keeps_throw _
  | succ fuel ih =>
      unfold mhFlashWriteLoop
      split
      · rename_i hw
        obtain ⟨-, hpage, -⟩ := @mhFlashWriteLen_spec addr size written hw
        have hstep := @mhFlashWriteStep_front env addr written buf hrom _ (by omega) hpage
        refine keeps_bind (fun w a ha => hstep w a (by omega)) fun ok => keeps_ite ?_ (keeps_pure _)
        exact ih (by omega)
      · exact keeps_pure _

/-- The write loop reads inside its buffer, if that holds a page: only the first piece can be
    longer than what is left. -/
theorem mhFlashWriteLoop_noFault (h32 : addr + size + 256 < 4294967296) (hbuf : size ≤ buf.length)
    (hpage : 256 ≤ buf.length) (hal : written = 0 ∨ (addr + written) % 256 = 0 ∨ size ≤ written)
    (fuel : Nat) : Keeps NoFault (mhFlashWriteLoop env addr buf size fuel written) := by
  induction fuel generalizing written with
  | zero => exact keeps_throw _
  | succ fuel ih =>
      unfold mhFlashWriteLoop
      split
      · rename_i hw
        obtain ⟨-, hlen, hend⟩ := @mhFlashWriteLen_spec addr size written hw
        have hin : written + mhFlashWriteLen addr size written ≤ buf.length := by
          rcases hal with h0 | h0 | h0
          · omega
          · rw [mhFlashWriteLen_eq, u32_eq (by omega), if_pos h0]
            split <;> omega
          · omega
        have hload : Keeps NoFault
            (load env buf written (mhFlashWriteLen addr size written)) := by
          intro w
          unfold final
          rw [load_eq env hin w]
          exact Std.Refl.refl w
        refine keeps_bind (keeps_bind hload fun data => ?_) fun ok =>
          keeps_ite (ih (by omega)) (keeps_pure _)
        refine keeps_bind (flashOp_noFault _ _ _) fun ok => keeps_ite ?_ (keeps_pure _)
        exact keeps_bind keeps_get fun _ => keeps_pure _
      · exact keeps_pure _

end Write

/-- A write to a partition is refused, or it is the write loop on its addresses. -/
theorem falPartitionWrite_loop {env : Env} {R : World → World → Prop} [Std.Refl R]
    {t : FalPartition} (ht : t.Ok) {pos n : Nat} {buf : List Byte} (h32 : pos + n < 4294967296)
    (hloop : pos + n ≤ t.len → Keeps R (mhFlashWriteLoop env (t.base + pos) buf n (n + 1) 0)) :
    Keeps R (falPartitionWrite env t pos buf n) := by
  unfold falPartitionWrite falPartitionAccess
  rw [u32_eq h32]
  split
  · exact keeps_pure _
  · refine keeps_ite ?_ (keeps_pure _)
    rw [ht.address_eq (by omega)]
    refine keeps_ite (keeps_pure _) (keeps_ite (keeps_pure _) (keeps_ite (keeps_pure _) ?_))
    exact hloop (by omega)

/-- A write that succeeds starts at a multiple of four. -/
theorem falPartitionWrite_aligned {env : Env} {t : FalPartition} (ht : t.Ok) {pos n : Nat}
    {buf : List Byte} (h32 : pos + n < 4294967296) {w w' : World} {ret : Int}
    (h : falPartitionWrite env t pos buf n w = .ok ret w') (hret : 0 ≤ ret) : pos % 4 = 0 := by
  have hmod := ht.base_mod
  obtain ⟨hin, hw⟩ := falPartitionAccess_ok h32 h hret
  rw [ht.address_eq (by omega)] at hw
  unfold mhFlashWrite at hw
  by_cases hal : (t.base + pos) % 4 = 0
  · omega
  · rw [if_pos hal] at hw
    cases hw
    exact absurd hret (by decide)

/-! ## 2. One write to the target -/

/-- What a write of `data` at offset `pos` of the target leaves. -/
structure Wrote (env : Env) (t : FalPartition) (pos : Nat) (data : List Byte) (w w' : World) :
    Prop where
  inside : pos + data.length ≤ t.len
  aligned : pos % 4 = 0
  head : w'.fotaPartHead = w.fotaPartHead
  data : ∀ i < data.length, w'.flash (t.base + pos + i) = data.getD i 0
  other : ∀ a, ¬ t.Covers a → w'.flash a = w.flash a
  front : env.rom.Precise → ∀ a < t.base + pos, w'.flash a = w.flash a

section WriteOut

variable {env : Env} {t : FalPartition} {w : World}

/-- What is quiet in front of a write does not show. -/
theorem Wrote.of_quiet {pos : Nat} {data : List Byte} {w₁ w' : World}
    (h : Wrote env t pos data w₁ w') (hq : Quiet w w₁) : Wrote env t pos data w w' where
  inside := h.inside
  aligned := h.aligned
  head := h.head.trans hq.head
  data := h.data
  other a ha := (h.other a ha).trans (congrFun hq.flash a)
  front hprecise a ha := (h.front hprecise a ha).trans (congrFun hq.flash a)

/-- **One write at the running total**: it appends the front of the buffer, or nothing forbidden
    happened. -/
theorem writeOut_wrote (hrom : env.rom.Confined) (ht : t.Ok) {buf : List Byte} {n : Nat}
    {st : CopyState} (hn : n ≤ buf.length) (hbuf : buf.length = 4096)
    (htotal : st.totalCopySize ≤ t.len)
    (hfind : falPartitionFind env w.fotaPartHead.appPartName = some t) :
    Leads (writeOut env buf n st) w
      (fun st' w' => st' = { st with totalCopySize := st.totalCopySize + n } ∧
        Wrote env t st.totalCopySize (buf.take n) w w' ∧ NoFault w w')
      (fun _ w' => NoFault w w') := by
  have hbase := ht.base_lt
  have hlen : (buf.take n).length = n := by
    rw [List.length_take]
    omega
  have h32 : st.totalCopySize + n < 4294967296 := by omega
  have hfault : Keeps NoFault (falPartitionWrite env t st.totalCopySize buf n) :=
    falPartitionWrite_loop ht h32 fun _ =>
      mhFlashWriteLoop_noFault (by omega) hn (by omega) (.inl rfl) _
  have hwithin : Keeps (Within env t.Covers) (falPartitionWrite env t st.totalCopySize buf n) :=
    falPartitionWrite_within ht h32 buf
  unfold writeOut
  rw [leads_bind]
  unfold rtFotaWriteAppPart
  refine leads_withExit ?_
  rw [leads_bind, leads_get]
  simp only [hfind]
  rw [leads_bind]
  cases hw : falPartitionWrite env t st.totalCopySize buf n w with
  | error e w' =>
      have hno := hfault.error hw
      refine leads_of_error hw ⟨fun err herr => ?_, hno⟩
      exact absurd herr (falPartitionWrite_stops t _ buf n w e w' hw err)
  | ok ret w' =>
      have hno := hfault.ok hw
      have hwi := hwithin.ok hw
      refine leads_of_ok hw ?_
      by_cases hneg : ret < 0
      · rw [if_pos hneg, leads_bind]
        refine leads_throw.mpr ⟨fun err herr => ?_, hno⟩
        cases herr
        rw [if_pos (by decide), leads_bind]
        exact leads_throw.mpr hno
      · rw [if_neg hneg]
        refine leads_pure.mpr ?_
        rw [if_neg (by decide)]
        obtain ⟨hin, hdata⟩ := falPartitionWrite_sound hrom ht h32 hw (by omega)
        have hal := falPartitionWrite_aligned ht h32 hw (by omega)
        refine leads_pure.mpr
          ⟨by rw [u32_eq h32], ⟨?_, hal, hwi.head, fun i hi => ?_, ?_, ?_⟩, hno⟩
        · rw [hlen]
          exact hin
        · rw [hlen] at hi
          rw [hdata i hi, srcByte_of_lt (by omega), List.getD_eq_getElem?_getD,
            List.getD_eq_getElem?_getD, List.getElem?_take_of_lt hi]
        · exact fun a ha => hwi.flash hrom a ha
        · intro hprecise
          have hfront : Keeps (FrontKept (t.base + st.totalCopySize))
              (falPartitionWrite env t st.totalCopySize buf n) := by
            refine falPartitionWrite_loop ht h32 fun _ => ?_
            exact mhFlashWriteLoop_front hprecise (by omega) (by omega) _
          exact hfront.ok hw

end WriteOut

/-! ## 3. Decompressing and writing a block -/

/-- A copy between two partitions of a verified image, on a confined ROM. -/
structure CopyJob (m : StoredImage) (t : FalPartition) : Prop where
  rom : m.env.rom.Confined
  source : m.part.Ok
  target : t.Ok
  find : falPartitionFind m.env m.head.appPartName = some t
  apart : ∀ a, m.part.Covers a → ¬ t.Covers a
  fit : ChunksFit m.part m.head.comSize

/-- A chunk that starts inside the body lies inside the partition. -/
theorem CopyJob.inPart {m : StoredImage} {t : FalPartition} (j : CopyJob m t) {k : Nat}
    (hk : 4096 * k < m.head.comSize) : m.InPart k := by
  have hfit := j.fit
  unfold ChunksFit at hfit
  unfold StoredImage.InPart
  simp only [chunksSize, rtFotaCrcBuffSize] at hfit
  omega

/-- Erasing the target for `size` bytes leaves the source alone. -/
theorem CopyJob.erase_apart {m : StoredImage} {t : FalPartition} (j : CopyJob m t) {size : Nat}
    (hsize : size ≤ t.len) {f : Flash} {a : Nat} (ha : m.part.Covers a) :
    eraseRange t.base (sectors size) f a = f a := by
  have hout := j.apart a ha
  have hroom := j.target.len
  unfold FalPartition.Covers at hout
  rw [eraseRange, if_neg (by unfold sectors; omega)]

/-- What the chosen decompressor makes of a block. -/
def StoredImage.decompressed (m : StoredImage) (block : List Byte) (size : Nat) : Decompressed :=
  if m.head.cmprs = rtFotaCmprsAlgoFastlz then
    m.env.fastlzDecompress block size rtFotaCmprsBufferSize
  else
    m.env.qlzDecompress block

theorem StoredImage.decompress_eq {m : StoredImage} (hc : m.head.Compressed) (block : List Byte)
    (size : Nat) : decompress m.env m.head block size = some (m.decompressed block size) := by
  unfold decompress StoredImage.decompressed
  by_cases hf : m.head.cmprs = rtFotaCmprsAlgoFastlz
  · rw [if_pos hf, if_pos hf]
  · rw [if_neg hf, if_neg hf, if_pos (hc.resolve_left hf)]

/-- What is delivered next. -/
def StoredImage.output (m : StoredImage) (x : Cursor) : List Byte :=
  (m.decompressed x.block x.size).written

/-- The decompressor reads no further than the buffer of the block. -/
def StoredImage.ReadsInside (m : StoredImage) (x : Cursor) : Prop :=
  (m.decompressed x.block x.size).readTo ≤ m.room

/-- `x` with the block it holds delivered. -/
def StoredImage.deliver (m : StoredImage) (x : Cursor) : Cursor :=
  { x with out := x.out ++ m.output x }

/-- What the write of a block asks for: a decompressor that succeeded and stayed inside its buffer,
    an address at a multiple of four, and room in the target. -/
structure StoredImage.Delivers (m : StoredImage) (len : Nat) (x : Cursor) : Prop where
  size : (m.decompressed x.block x.size).size ≠ 0
  fits : (m.output x).length ≤ 4096
  aligned : x.out.length % 4 = 0
  inside : x.out.length + (m.output x).length ≤ len

section Deliver

variable {m : StoredImage} {t : FalPartition} {x : Cursor} {st : CopyState} {w : World}

/-- A place sees the source and the header only. -/
theorem CursorAt.quiet (h : CursorAt m x st w) {w₁ : World} (hq : Quiet w w₁) :
    CursorAt m x st w₁ :=
  { h with
    source := fun a ha => (congrFun hq.flash a).trans (h.source a ha)
    head := hq.head.trans h.head }

/-- The decompressor reads the buffer of the block. -/
theorem CursorAt.reads (h : CursorAt m x st w) :
    ∃ bs w₁, load m.env st.cmprsBuff 0 (m.decompressed x.block x.size).readTo w = .ok bs w₁ ∧
      Quiet w w₁ ∧ (m.ReadsInside x → w₁ = w) := by
  obtain ⟨w₁, hload, hq⟩ := load_ok m.env st.cmprsBuff 0 (m.decompressed x.block x.size).readTo w
  refine ⟨_, w₁, hload, hq, fun hin => ?_⟩
  have hroom : 0 + (m.decompressed x.block x.size).readTo ≤ st.cmprsBuff.length := by
    rw [Nat.zero_add, h.cmprs]
    exact hin
  rw [load_eq m.env hroom] at hload
  exact (EStateM.Result.ok.inj hload).2.symm

/-- The block at hand decompressed, inside its buffer. -/
theorem CursorAt.decompresses (hc : m.head.Compressed) (h : CursorAt m x st w) (h1 : 1 ≤ x.chunks)
    (hd : (m.output x).length ≤ 4096) :
    ∃ buf w₁, buf.length = 4096 ∧ buf.take (m.output x).length = m.output x ∧
      decompressBlock m.env m.ctx st w = .ok { st with
        dcprsBuff := buf, dcprsSize := (m.decompressed x.block x.size).size } w₁ ∧
      Quiet w w₁ ∧ (m.ReadsInside x → w₁ = w) := by
  have hset : rtMemset st.dcprsBuff 0 rtFotaCmprsBufferSize w = .ok (List.replicate 4096 0) w :=
    rtMemset_full h.dcprs w
  have hzero : (List.replicate 4096 (0 : Byte)).length = 4096 := List.length_replicate
  generalize List.replicate 4096 (0 : Byte) = zeros at hset hzero
  obtain ⟨bs, w₁, hload, hq, hinside⟩ := h.reads
  have hput : store zeros 0 (m.output x) w₁ = .ok (overwrite zeros 0 (m.output x)) w₁ :=
    store_eq (by omega) w₁
  have hdec : decompress m.env m.ctx.partHead st.cmprsBuff st.blockSize =
      some (m.decompressed x.block x.size) := by
    rw [h.block h1, h.size h1]
    exact StoredImage.decompress_eq hc _ _
  have hfull : overwrite zeros 0 (m.output x) =
      m.output x ++ zeros.drop (m.output x).length := overwrite_zero (by omega)
  refine ⟨overwrite zeros 0 (m.output x), w₁, by rw [length_overwrite, hzero], ?_, ?_, hq, hinside⟩
  · rw [hfull, List.take_left]
  · unfold decompressBlock
    rw [bind_ok hset, hdec]
    exact (bind_ok hload).trans (bind_ok hput)

/-- The place behind a block that was written. -/
theorem CursorAt.delivered (j : CopyJob m t) (h : CursorAt m x st w) {buf : List Byte}
    (hbuf : buf.length = 4096) {n : Nat} (hn : n = (m.output x).length) {w' : World}
    (hwrote : Wrote m.env t x.out.length (m.output x) w w') :
    CursorAt m (m.deliver x) { st with
      dcprsBuff := buf, dcprsSize := n, totalCopySize := st.totalCopySize + n } w' := by
  refine ⟨⟨⟨h.pos, h.iv, h.len⟩, h.hdr, h.cmprs, h.cursor⟩, h.rawPos, h.rawLen, h.vector, h.last,
    h.first, h.place, h.block, h.size, hbuf, ?_, fun a ha => ?_, hwrote.head.trans h.head⟩
  · show st.totalCopySize + n = (x.out ++ m.output x).length
    rw [h.total, hn, List.length_append]
  · rw [hwrote.other a (j.apart a ha)]
    exact h.source a ha

/-- **Delivering the block at hand** appends it, or it failed; nothing forbidden happened, unless the
    decompressor read too far. -/
theorem CursorAt.deliver (j : CopyJob m t) (hc : m.head.Compressed) (h : CursorAt m x st w)
    (h1 : 1 ≤ x.chunks) (hd : (m.output x).length ≤ 4096) (hout : x.out.length ≤ t.len) :
    Leads (deliverBlock m.env m.ctx st) w
      (fun st' w' => m.Delivers t.len x ∧ CursorAt m (m.deliver x) st' w' ∧
        Wrote m.env t x.out.length (m.output x) w w' ∧ (m.ReadsInside x → NoFault w w'))
      (fun _ w' => m.ReadsInside x → NoFault w w') := by
  obtain ⟨buf, w₁, hbuf, htake, hstep, hq, hinside⟩ := h.decompresses hc h1 hd
  have hno : ∀ {w'}, NoFault w₁ w' → m.ReadsInside x → NoFault w w' := by
    intro w' hw' hin
    rw [← hinside hin]
    exact hw'
  unfold deliverBlock
  rw [leads_bind]
  refine leads_of_ok hstep ?_
  by_cases hnone : (m.decompressed x.block x.size).size = 0
  · rw [if_pos hnone, leads_bind]
    exact leads_throw.mpr (hno (Std.Refl.refl w₁))
  · rw [if_neg hnone]
    have hsize : (m.decompressed x.block x.size).size = (m.output x).length :=
      (m.decompressed x.block x.size).size_eq.resolve_left hnone
    have hhead : falPartitionFind m.env w₁.fotaPartHead.appPartName = some t := by
      rw [(h.quiet hq).head]
      exact j.find
    have hle : (m.decompressed x.block x.size).size ≤ buf.length := by
      rw [hbuf, hsize]
      exact hd
    refine (writeOut_wrote j.rom j.target hle hbuf (by simp only [h.total]; exact hout)
      hhead).mono (fun st' w' hw => ?_) fun _ _ hw => hno hw
    obtain ⟨rfl, hwrote, hcalm⟩ := hw
    simp only [h.total, hsize, htake] at hwrote
    have hdel : m.Delivers t.len x := ⟨hnone, hd, hwrote.aligned, hwrote.inside⟩
    exact ⟨hdel, (h.quiet hq).delivered j hbuf hsize hwrote, hwrote.of_quiet hq, hno hcalm⟩

end Deliver

end Mh1903
