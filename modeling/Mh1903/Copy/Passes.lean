/-
  File:      Mh1903/Copy/Passes.lean
  Subject:   ONE PASS OF EACH LOOP. A pass of the main loop fetches and delivers the next block, a
             pass of the tail loop does so for a block that lies in the last chunk whole.
-/
import Mh1903.Copy.Deliver

namespace Mh1903

open Library

/-! ## 1. Places the loops reach -/

/-- The main loop goes on. -/
def StoredImage.InMain (m : StoredImage) (x : Cursor) : Prop := 4096 * x.chunks < m.head.comSize

/-- The tail loop goes on, and finds a block. -/
def StoredImage.InTail (m : StoredImage) (x : Cursor) : Prop :=
  m.head.comSize ≤ 4096 * x.chunks ∧ x.out.length < m.head.rawSize ∧ 1 ≤ x.chunks ∧ m.Takeable x

/-- The places the loops come to with a target of `len` bytes, as long as each block is one they can
    fetch and deliver. -/
inductive Reached (m : StoredImage) (len : Nat) : Cursor → Prop
  | start : Reached m len .start
  | main {x : Cursor} : Reached m len x → m.InMain x → m.Fetchable x →
      m.Delivers len (m.fetch x) → Reached m len (m.deliver (m.fetch x))
  | tail {x : Cursor} : Reached m len x → m.InTail x → m.Delivers len (m.take x) →
      Reached m len (m.deliver (m.take x))

section Cursors

variable {m : StoredImage} {x : Cursor}

@[simp] theorem StoredImage.fetch_out (m : StoredImage) (x : Cursor) : (m.fetch x).out = x.out := by
  unfold StoredImage.fetch
  by_cases hskip : x.pos = 4092
  · rw [if_pos hskip]
  · rw [if_neg hskip]

-- Unfolded first: else the kernel compares the two cursors, and evaluates the size.
@[simp] theorem StoredImage.take_out (m : StoredImage) (x : Cursor) : (m.take x).out = x.out := by
  unfold StoredImage.take
  rfl

@[simp] theorem StoredImage.take_chunks (m : StoredImage) (x : Cursor) :
    (m.take x).chunks = x.chunks := by
  unfold StoredImage.take
  rfl

/-- A fetch reads the first chunk, if none was read before. -/
theorem StoredImage.one_le_fetch_chunks (m : StoredImage) {x : Cursor}
    (h0 : x.chunks = 0 → x.pos = 4096) : 1 ≤ (m.fetch x).chunks := by
  unfold StoredImage.fetch
  by_cases hz : x.chunks = 0
  · have hpos := h0 hz
    rw [if_neg (by omega)]
    show 1 ≤ if x.pos + 4 + m.sizeAt x.at ≤ 4096 then x.chunks else x.chunks + 1
    rw [if_neg (by omega)]
    exact Nat.le_add_left 1 _
  · have hpos := Nat.pos_of_ne_zero hz
    by_cases hskip : x.pos = 4092
    · rw [if_pos hskip]
      exact hpos
    · rw [if_neg hskip]
      show 1 ≤ if x.pos + 4 + m.sizeAt x.at ≤ 4096 then x.chunks else x.chunks + 1
      split
      · exact hpos
      · exact Nat.le_add_left 1 _

/-- Behind the start a chunk was read and something delivered. -/
theorem Reached.started {len : Nat} (hr : Reached m len x) :
    x = .start ∨ (1 ≤ x.chunks ∧ 1 ≤ x.out.length) := by
  have hsome : ∀ {y : Cursor}, m.Delivers len y → 1 ≤ (m.deliver y).out.length := by
    intro y hd
    have hsize := (m.decompressed y.block y.size).size_eq.resolve_left hd.size
    have hne := hd.size
    unfold StoredImage.deliver StoredImage.output
    rw [List.length_append]
    omega
  induction hr with
  | start => exact .inl rfl
  | main _ hmain hf hd ih =>
      refine .inr ⟨m.one_le_fetch_chunks fun h0 => ?_, hsome hd⟩
      rcases ih with rfl | ⟨h1, -⟩
      · rfl
      · omega
  | tail _ htail hd ih =>
      refine .inr ⟨?_, hsome hd⟩
      unfold StoredImage.deliver
      rw [m.take_chunks]
      exact htail.2.2.1

end Cursors

/-! ## 2. One pass of a loop -/

section Loop

variable {env : Env} {c : CopyCtx} {st st' : CopyState} {w w' : World}

theorem copyLoop_pass (fuel : Nat) (hlt : st.fwRawPos < c.partHead.comSize)
    (hstep : copyStep env c st w = .ok st' w') :
    copyLoop env c (fuel + 1) st w = copyLoop env c fuel st' w' :=
  (congrFun (if_pos hlt) w).trans (bind_ok hstep)

theorem copyLoop_done (fuel : Nat) (hge : ¬ st.fwRawPos < c.partHead.comSize) :
    copyLoop env c (fuel + 1) st w = .ok st w := congrFun (if_neg hge) w

theorem tailLoop_pass (fuel : Nat) (hlt : st.totalCopySize < c.partHead.rawSize)
    (hstep : tailStep env c st w = .ok (some st') w') :
    tailLoop env c (fuel + 1) st w = tailLoop env c fuel st' w' :=
  (congrFun (if_pos hlt) w).trans (bind_ok hstep)

end Loop

section Pass

variable {m : StoredImage} {t : FalPartition} {x : Cursor} {st : CopyState} {w : World}

/-! ## 3. The main loop -/

/-- The condition of the main loop. -/
theorem CursorAt.inMain_iff (h : CursorAt m x st w) :
    st.fwRawPos < m.ctx.partHead.comSize ↔ m.InMain x := by
  rw [h.rawPos]
  exact Iff.rfl

/-- **A pass of the main loop** moves to the next place, or it failed; nothing forbidden happened,
    unless the decompressor read too far. -/
theorem CursorAt.mainPass (j : CopyJob m t) (hc : m.head.Compressed) (h : CursorAt m x st w)
    (hmain : m.InMain x) (hf : m.Fetchable x) (hd : (m.output (m.fetch x)).length ≤ 4096)
    (hout : x.out.length ≤ t.len) :
    Leads (copyStep m.env m.ctx st) w
      (fun st' w' => m.Delivers t.len (m.fetch x) ∧ CursorAt m (m.deliver (m.fetch x)) st' w' ∧
        (m.ReadsInside (m.fetch x) → NoFault w w') ∧
        ∃ w₁, Calm w w₁ ∧ Wrote m.env t x.out.length (m.output (m.fetch x)) w₁ w')
      (fun _ w' => m.ReadsInside (m.fetch x) → NoFault w w') := by
  have hne : m.ctx.partHead.cmprs ≠ rtFotaCryptAlgoNone := hc.ne_none
  unfold copyStep
  rw [if_pos hne, leads_bind]
  refine (h.fetch j.source (j.inPart hmain) hf).mono (fun st₁ w₁ hw₁ => ?_)
    fun _ w₁ hw₁ _ => hw₁.2.1.faults
  obtain ⟨hat, hcalm⟩ := hw₁
  have hout₁ : (m.fetch x).out.length ≤ t.len := by
    rw [m.fetch_out]
    exact hout
  refine (hat.deliver j hc (m.one_le_fetch_chunks h.first) hd hout₁).mono
    (fun st₂ w₂ hw₂ => ?_) fun _ w₂ hw₂ hin => Eq.trans (hw₂ hin) hcalm.faults
  obtain ⟨hdel, hat₂, hwrote, hno⟩ := hw₂
  rw [m.fetch_out] at hwrote
  exact ⟨hdel, hat₂, fun hin => Eq.trans (hno hin) hcalm.faults, w₁, hcalm, hwrote⟩

/-! ## 4. The tail loop -/

/-- The condition of the tail loop. -/
theorem CursorAt.inTail_raw (h : CursorAt m x st w) (htail : m.InTail x) :
    st.totalCopySize < m.ctx.partHead.rawSize := by
  rw [h.total]
  exact htail.2.1

/-- The block in the last chunk put into its buffer. -/
theorem CursorAt.takes (h : CursorAt m x st w) (h1 : 1 ≤ x.chunks) (hfit : m.Takeable x) :
    CursorAt m (m.take x) { st with
      blockHdrBuf := m.bytes x.at 4, blockSize := m.sizeAt x.at, cmprsBuff := m.blockAt x.at
      blockHdrPos := st.blockHdrPos + (m.sizeAt x.at + rtFotaBlockHeaderSize) } w := by
  have hpos : st.blockHdrPos + (m.sizeAt x.at + 4) = x.pos + 4 + m.sizeAt x.at := by
    rw [h.place, Nat.add_comm (m.sizeAt x.at) 4, Nat.add_assoc]
  simp only [rtFotaBlockHeaderSize]
  rw [hpos]
  unfold StoredImage.take
  exact ⟨⟨⟨h.pos, h.iv, h.len⟩, m.length_bytes _ _, length_padTo _ _, hfit.2⟩, h.rawPos, h.rawLen,
    h.vector, h.last, fun h0 => absurd (show x.chunks = 0 from h0) (by omega), rfl, fun _ => rfl,
    fun _ => rfl, h.dcprs, h.total, h.source, h.head⟩

/-- What the tail loop finds in the last chunk. -/
theorem CursorAt.lastChunk (h : CursorAt m x st w) (hp : m.part.Ok) (h1 : 1 ≤ x.chunks) {i n : Nat}
    (hin : i + n ≤ 4096) :
    (st.cryptBuf.drop i).take n = m.bytes (4096 * x.chunks + i - 4096) n := by
  have hr : ReadReady m.part st := h.toReadReady
  rw [← hr.bytesAt_front m.env w.flash hin]
  exact h.bytesAt hp (fun h0 => by omega) (by omega) (.inl hin)

/-- The header of the block in the last chunk. -/
theorem CursorAt.tailHeader (h : CursorAt m x st w) (hp : m.part.Ok) (h1 : 1 ≤ x.chunks)
    (hfour : x.pos + 4 ≤ 4096) :
    rtMemcpy m.env st.blockHdrBuf 0 st.cryptBuf st.blockHdrPos rtFotaBlockHeaderSize w =
      .ok (m.bytes x.at 4) w := by
  have hr : ReadReady m.part st := h.toReadReady
  have hplace := h.place
  have hfull := @overwrite_full _ st.blockHdrBuf (m.bytes x.at 4) (by rw [m.length_bytes, h.hdr])
  rw [rtMemcpy_eq m.env (by rw [hr.len, hplace]; exact hfour) (by rw [h.hdr]; decide), hplace]
  simp only [rtFotaBlockHeaderSize]
  rw [h.lastChunk hp h1 hfour]
  exact congrArg (fun b => EStateM.Result.ok b w) hfull

/-- **A block in the last chunk** is taken and delivered. -/
theorem CursorAt.tailStep_take (h : CursorAt m x st w) (hp : m.part.Ok) (htail : m.InTail x) :
    ∃ st₁, CursorAt m (m.take x) st₁ w ∧ tailStep m.env m.ctx st w =
      (deliverBlock m.env m.ctx st₁ >>= fun st' => pure (some st')) w := by
  obtain ⟨-, -, h1, hfour, hfit⟩ := htail
  have hplace := h.place
  have hlen := h.rawLen
  have hr : ReadReady m.part st := h.toReadReady
  rw [if_neg (by omega)] at hlen
  have hcond : st.blockHdrPos < st.fwRawLen ∧
      st.fwRawLen - st.blockHdrPos > rtFotaBlockHeaderSize := by
    rw [hlen, hplace]
    simp only [rtFotaBlockHeaderSize]
    omega
  have hle : st.fwRawLen - st.blockHdrPos - rtFotaBlockHeaderSize ≥ m.sizeAt x.at := by
    rw [hlen, hplace]
    simp only [rtFotaBlockHeaderSize]
    omega
  have hsize : blockSizeOf (m.bytes x.at 4) = m.sizeAt x.at := rfl
  have hpay : rtMemcpy m.env (List.replicate (4096 + m.head.paddingSize) 0) 0 st.cryptBuf
      (st.blockHdrPos + rtFotaBlockHeaderSize) (m.sizeAt x.at) w = .ok (m.blockAt x.at) w := by
    have hat : 4096 * x.chunks + (x.pos + 4) - 4096 = x.at + 4 := by
      unfold Cursor.at
      omega
    rw [hplace]
    simp only [rtFotaBlockHeaderSize]
    rw [rtMemcpy_clean m.env (by rw [hr.len]; omega) (by omega), h.lastChunk hp h1 (by omega), hat]
    rfl
  refine ⟨_, h.takes h1 ⟨hfour, hfit⟩, ?_⟩
  unfold tailStep
  refine (congrFun (if_pos hcond) w).trans ?_
  refine (bind_ok (h.tailHeader hp h1 (by omega))).trans ?_
  simp only [hsize]
  refine (congrFun (if_pos hle) w).trans ?_
  refine (bind_ok (clearCmprs_eq ?_ w)).trans ?_
  · exact h.cmprs
  · exact bind_ok hpay

/-- Behind the body, without a block in the last chunk, the tail loop ends. -/
theorem CursorAt.tailStep_none (h : CursorAt m x st w) (hp : m.part.Ok)
    (hdone : m.head.comSize ≤ 4096 * x.chunks) (hraw : x.out.length < m.head.rawSize)
    (hno : ¬ m.InTail x) : tailStep m.env m.ctx st w = .ok none w := by
  have hplace := h.place
  have hlen := h.rawLen
  unfold tailStep
  by_cases hcond : st.blockHdrPos < st.fwRawLen ∧
      st.fwRawLen - st.blockHdrPos > rtFotaBlockHeaderSize
  · refine (congrFun (if_pos hcond) w).trans ?_
    rw [hplace] at hcond
    simp only [rtFotaBlockHeaderSize] at hcond
    have h1 : 1 ≤ x.chunks := by
      by_contra hlt
      rw [if_pos (by omega)] at hlen
      omega
    rw [if_neg (by omega)] at hlen
    refine (bind_ok (h.tailHeader hp h1 (by omega))).trans ?_
    have hsize : blockSizeOf (m.bytes x.at 4) = m.sizeAt x.at := rfl
    simp only [hsize]
    refine congrFun (if_neg fun hle => hno ⟨hdone, hraw, h1, ?_⟩) w
    rw [hlen, hplace] at hle
    simp only [rtFotaBlockHeaderSize] at hle
    exact ⟨by omega, by omega⟩
  · exact congrFun (if_neg hcond) w

/-- **A pass of the tail loop** takes the next block, or finds none, or it failed; nothing forbidden
    happened, unless the decompressor read too far. -/
theorem CursorAt.tailPass (j : CopyJob m t) (hc : m.head.Compressed) (h : CursorAt m x st w)
    (hdone : m.head.comSize ≤ 4096 * x.chunks) (hraw : x.out.length < m.head.rawSize)
    (hd : m.InTail x → (m.output (m.take x)).length ≤ 4096) (hout : x.out.length ≤ t.len) :
    Leads (tailStep m.env m.ctx st) w
      (fun next w' => (next = none ∧ w' = w) ∨ ∃ st', next = some st' ∧ m.InTail x ∧
        m.Delivers t.len (m.take x) ∧ CursorAt m (m.deliver (m.take x)) st' w' ∧
        Wrote m.env t x.out.length (m.output (m.take x)) w w' ∧
        (m.ReadsInside (m.take x) → NoFault w w'))
      (fun _ w' => m.InTail x ∧ (m.ReadsInside (m.take x) → NoFault w w')) := by
  by_cases htail : m.InTail x
  · obtain ⟨st₁, hat, hstep⟩ := h.tailStep_take j.source htail
    have h1 := htail.2.2.1
    refine leads_of_eq hstep ?_
    rw [leads_bind]
    rw [← m.take_chunks] at h1
    rw [← m.take_out] at hout
    refine (hat.deliver j hc h1 (hd htail) hout).mono (fun st' w' hw' => ?_)
      fun _ w' hw' => ⟨htail, hw'⟩
    obtain ⟨hdel, hat, hwrote, hno⟩ := hw'
    rw [m.take_out] at hwrote
    exact leads_pure.mpr (.inr ⟨st', rfl, htail, hdel, hat, hwrote, hno⟩)
  · exact leads_of_ok (h.tailStep_none j.source hdone hraw htail) (.inl ⟨rfl, rfl⟩)

end Pass

end Mh1903
