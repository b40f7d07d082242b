/-
  File:      Mh1903/Copy/Follow.lean
  Subject:   THE LOOPS FOLLOW THE REFERENCE. As long as bytes are missing, each pass of a loop that
             returns takes the next frame of the reference decoding; once `raw_size` bytes are there,
             what follows is written behind them.
-/
import Mh1903.Copy.Reference
import Mh1903.Copy.Bounds

namespace Mh1903

open Library

/-! ## 1. Written behind -/

section Behind

variable {env : Env} {c : CopyCtx} {t : FalPartition} {st : CopyState} {w : World}

/-- What a pass that wrote leaves: the total was at a multiple of four and grew, and what lies in
    front of it is what it was. -/
structure Behind (t : FalPartition) (st st' : CopyState) (w w' : World) : Prop where
  aligned : st.totalCopySize % 4 = 0
  grown : st.totalCopySize ≤ st'.totalCopySize
  front : FrontKept (t.base + st.totalCopySize) w w'

theorem writeOut_behind (hrom : env.rom.Precise) (ht : t.Ok) (h : CopyInv t.len st)
    (hfind : falPartitionFind env w.fotaPartHead.appPartName = some t) (buf : List Byte) {n : Nat}
    (hn : n ≤ 4096) :
    Leads (writeOut env buf n st) w (fun st' w' => Behind t st st' w w') fun _ _ => True := by
  have hbase := ht.base_lt
  have htotal := h.total
  have h32 : st.totalCopySize + n < 4294967296 := by omega
  have hfront : Keeps (FrontKept (t.base + st.totalCopySize))
      (falPartitionWrite env t st.totalCopySize buf n) := by
    refine falPartitionWrite_loop ht h32 fun _ => ?_
    exact mhFlashWriteLoop_front hrom (by omega) (by omega) _
  unfold writeOut
  rw [leads_bind]
  unfold rtFotaWriteAppPart
  refine leads_withExit ?_
  rw [leads_bind, leads_get]
  simp only [hfind]
  rw [leads_bind]
  cases hw : falPartitionWrite env t st.totalCopySize buf n w with
  | error e w' =>
      refine leads_of_error hw ⟨fun err herr => ?_, trivial⟩
      exact absurd herr (falPartitionWrite_stops t _ buf n w e w' hw err)
  | ok ret w' =>
      refine leads_of_ok hw ?_
      by_cases hneg : ret < 0
      · rw [if_pos hneg, leads_bind]
        refine leads_throw.mpr ⟨fun err herr => ?_, trivial⟩
        cases herr
        rw [if_pos (by decide), leads_bind]
        exact leads_throw.mpr trivial
      · rw [if_neg hneg]
        refine leads_pure.mpr ?_
        rw [if_neg (by decide)]
        refine leads_pure.mpr ⟨falPartitionWrite_aligned ht h32 hw (by omega), ?_, hfront.ok hw⟩
        show st.totalCopySize ≤ u32 (st.totalCopySize + n)
        rw [u32_eq h32]
        exact Nat.le_add_right _ _

/-- Of a flash that is quiet until then only the write counts. -/
theorem Behind.of_quiet {st₁ st' : CopyState} {w₁ w' : World} (h : Behind t st₁ st' w₁ w')
    (htotal : st₁.totalCopySize = st.totalCopySize) (hq : Quiet w w₁) : Behind t st st' w w' := by
  obtain ⟨haligned, hgrown, hfront⟩ := h
  rw [htotal] at haligned hgrown hfront
  refine ⟨haligned, hgrown, fun a ha => ?_⟩
  rw [hfront a ha, hq.flash]

theorem deliverBlock_behind (hrom : env.rom.Precise) (ht : t.Ok) (h : CopyInv t.len st)
    (hfind : falPartitionFind env w.fotaPartHead.appPartName = some t) :
    Leads (deliverBlock env c st) w (fun st' w' => Behind t st st' w w') fun _ _ => True := by
  have htotal : Returns (decompressBlock env c st)
      fun st₁ => st₁.totalCopySize = st.totalCopySize ∧ CopyInv t.len st₁ := by
    intro w₁ st₁ w₂ hrun
    refine ⟨?_, decompressBlock_inv h w₁ st₁ w₂ hrun⟩
    have hkeep : Returns (decompressBlock env c st)
        fun st₁ => st₁.totalCopySize = st.totalCopySize := by
      refine returns_bind (returns_any _) fun buf _ => ?_
      split
      · exact returns_pure rfl
      · exact returns_bind (returns_any _) fun _ _ => returns_bind (returns_any _) fun _ _ =>
          returns_pure rfl
    exact hkeep w₁ st₁ w₂ hrun
  unfold deliverBlock
  rw [leads_bind]
  refine ((decompressBlock_quiet env c st).at htotal w).leads.mono (fun st₁ w₁ hw₁ => ?_)
    fun _ _ _ => trivial
  obtain ⟨hq, htotal, hinv⟩ := hw₁
  rw [leads_ite]
  refine ⟨fun _ => ?_, fun _ => ?_⟩
  · rw [leads_bind]
    exact leads_throw.mpr trivial
  · refine (writeOut_behind hrom ht hinv (by rw [hq.head]; exact hfind) st₁.dcprsBuff
      hinv.dcprsSize).mono (fun st' w' hw' => ?_) fun _ _ h => h
    exact hw'.of_quiet htotal hq

/-- **A pass of the main loop writes behind the total**, whatever it fetched. -/
theorem copyStep_behind (hrom : env.rom.Precise) (ht : t.Ok) (h : CopyInv t.len st)
    (hfind : falPartitionFind env w.fotaPartHead.appPartName = some t) :
    Leads (copyStep env c st) w (fun st' w' => Behind t st st' w w') fun _ _ => True := by
  unfold copyStep
  rw [leads_ite]
  refine ⟨fun _ => ?_, fun _ => ?_⟩
  · rw [leads_bind]
    refine ((fetchBlock_quiet env c st).at fetchBlock_output w).leads.mono (fun st₁ w₁ hw₁ => ?_)
      fun _ _ _ => trivial
    obtain ⟨hq, hsame⟩ := hw₁
    refine (deliverBlock_behind hrom ht (h.of_sameOutput hsame) (by rw [hq.head]; exact hfind)).mono
      (fun st' w' hw' => ?_) fun _ _ h => h
    exact hw'.of_quiet hsame.total hq
  · rw [leads_bind]
    refine ((readChunk_quiet env c st).at (readChunk_output (.refl st)) w).leads.mono
      (fun st₁ w₁ hw₁ => ?_) fun _ _ _ => trivial
    obtain ⟨hq, hsame⟩ := hw₁
    have hinv := h.of_sameOutput hsame
    refine (writeOut_behind hrom ht hinv (by rw [hq.head]; exact hfind) st₁.cryptBuf
      hinv.rawLen).mono (fun st' w' hw' => ?_) fun _ _ h => h
    exact hw'.of_quiet hsame.total hq

/-- What the loop leaves behind a place: the invariant, a total that is not smaller, and all that lies
    in front of the total. -/
structure Onward (t : FalPartition) (st st' : CopyState) (w w' : World) : Prop where
  inv : CopyInv t.len st'
  grown : st.totalCopySize ≤ st'.totalCopySize
  front : FrontKept (t.base + st.totalCopySize) w w'
  head : w'.fotaPartHead = w.fotaPartHead

theorem Onward.trans {st₁ st' : CopyState} {w₁ w' : World} (h₁ : Onward t st st₁ w w₁)
    (h₂ : Onward t st₁ st' w₁ w') : Onward t st st' w w' := by
  have hgrown := h₁.grown
  refine ⟨h₂.inv, hgrown.trans h₂.grown, fun a ha => ?_, h₂.head.trans h₁.head⟩
  rw [h₂.front a (by omega), h₁.front a ha]

/-- Every pass goes onward. -/
theorem copyStep_onward (hrom : env.rom.Precise) (ht : t.Ok) (h : CopyInv t.len st)
    (hfind : falPartitionFind env w.fotaPartHead.appPartName = some t) :
    Leads (copyStep env c st) w (fun st' w' => Onward t st st' w w') fun _ _ => True := by
  have hkeep := (@copyStep_keepsAt env c t ht st h w hfind).leads
  refine (hkeep.and (copyStep_behind hrom ht h hfind)).mono (fun st' w' hw' => ?_) fun _ _ _ => trivial
  obtain ⟨⟨hwithin, hinv⟩, hbehind⟩ := hw'
  exact ⟨hinv, hbehind.grown, hbehind.front, hwithin.head⟩

/-- **The main loop goes onward.** -/
theorem copyLoop_onward (hrom : env.rom.Precise) (ht : t.Ok) (fuel : Nat) (h : CopyInv t.len st)
    (hfind : falPartitionFind env w.fotaPartHead.appPartName = some t) :
    Leads (copyLoop env c fuel st) w (fun st' w' => Onward t st st' w w') fun _ _ => True := by
  induction fuel generalizing st w with
  | zero => exact leads_throw.mpr trivial
  | succ fuel ih =>
      unfold copyLoop
      rw [leads_ite]
      refine ⟨fun _ => ?_, fun _ => leads_pure.mpr ⟨h, Nat.le_refl _, Std.Refl.refl w, rfl⟩⟩
      rw [leads_bind]
      refine (copyStep_onward hrom ht h hfind).mono (fun st₁ w₁ h₁ => ?_) fun _ _ h => h
      exact (ih h₁.inv (by rw [h₁.head]; exact hfind)).mono (fun _ _ h₂ => h₁.trans h₂)
        fun _ _ h => h

/-- The buffer for blocks takes what the decompressor makes of them, or the copy stops. -/
theorem decompressBlock_fits (env : Env) (c : CopyCtx) (st : CopyState) :
    Returns (decompressBlock env c st) fun _ => ∀ d,
      decompress env c.partHead st.cmprsBuff st.blockSize = some d →
        d.written.length ≤ st.dcprsBuff.length := by
  refine returns_bind (store_returns _ _ _) fun buf hbuf => ?_
  cases hd : decompress env c.partHead st.cmprsBuff st.blockSize with
  | none => exact returns_pure fun _ h => by cases h
  | some d =>
      refine returns_bind (returns_any _) fun _ _ => ?_
      refine returns_bind (store_returns _ _ _) fun _ hfits => returns_pure fun d' h => ?_
      cases h
      have hlen := hfits.2
      rw [hbuf.1] at hlen
      omega

theorem deliverBlock_fits (env : Env) (c : CopyCtx) (st : CopyState) :
    Returns (deliverBlock env c st) fun _ => ∀ d,
      decompress env c.partHead st.cmprsBuff st.blockSize = some d →
        d.written.length ≤ st.dcprsBuff.length :=
  returns_bind (decompressBlock_fits env c st) fun _ h =>
    returns_ite (fun _ => returns_throw_bind _) fun _ => (returns_any _).mono fun _ _ => h

end Behind

/-! ## 2. What lies in the target -/

section Target

variable {env : Env} {t : FalPartition} {w w' : World}

/-- A write behind what lies in the target appends to it. -/
theorem Wrote.there (hrom : env.rom.Precise) (ht : t.Ok) {out data : List Byte}
    (h : Wrote env t out.length data w w') (hthere : readFlash w.flash t.base out.length = out) :
    readFlash w'.flash t.base (out ++ data).length = out ++ data := by
  have hbase := ht.base_lt
  have hinside := h.inside
  have hfront : readFlash w'.flash t.base out.length = out := by
    rw [← hthere, length_readFlash]
    exact readFlash_congr (by omega) fun a _ ha => h.front hrom a ha
  have hback : readFlash w'.flash (t.base + out.length) data.length = data :=
    readFlash_eq (by omega) h.data
  rw [List.length_append, ← readFlash_append, hfront, hback]

/-- What was written behind leaves it. -/
theorem FrontKept.there {lo n : Nat} (h : FrontKept lo w w') (h32 : t.base + n < 4294967296)
    (hn : t.base + n ≤ lo) : readFlash w'.flash t.base n = readFlash w.flash t.base n :=
  readFlash_congr (by omega) fun a _ ha => h a (by omega)

end Target

/-- The first `raw_size` bytes of the reference decoding lie in the target. -/
structure Installed (m : StoredImage) (t : FalPartition) (w : World) : Prop where
  length : m.head.rawSize ≤ m.reference.length
  there : readFlash w.flash t.base m.head.rawSize = m.reference.take m.head.rawSize

/-- They do, and the loops have counted them. -/
structure Enough (m : StoredImage) (t : FalPartition) (st : CopyState) (w : World) : Prop
    extends Installed m t w where
  inv : CopyInv t.len st
  head : w.fotaPartHead = m.head
  counted : m.head.rawSize ≤ st.totalCopySize

section Enough

variable {m : StoredImage} {t : FalPartition} {st : CopyState} {w : World}

/-- What begins with as many bytes as the reference begins with is enough. -/
theorem installed_of_front {out rest : List Byte} (hout : m.reference = out ++ rest)
    (hraw : m.head.rawSize ≤ out.length) (hthere : readFlash w.flash t.base out.length = out) :
    Installed m t w := by
  refine ⟨by rw [hout, List.length_append]; omega, ?_⟩
  rw [hout, List.take_append_of_le_length hraw, ← hthere, take_readFlash hraw]

/-- **Once enough is there it stays**, in every further pass. -/
theorem Enough.loop (hrom : m.env.rom.Precise) (j : CopyJob m t) (fuel : Nat)
    (h : Enough m t st w) :
    Leads (copyLoop m.env m.ctx fuel st) w (fun st' w' => Enough m t st' w') fun _ _ => True := by
  have hbase := j.target.base_lt
  have htotal := h.inv.total
  have hcounted := h.counted
  have hfind : falPartitionFind m.env w.fotaPartHead.appPartName = some t := by
    rw [h.head]
    exact j.find
  refine (copyLoop_onward hrom j.target fuel h.inv hfind).mono (fun st' w' hw' => ?_)
    fun _ _ h => h
  refine ⟨⟨h.length, ?_⟩, hw'.inv, hw'.head.trans h.head, hcounted.trans hw'.grown⟩
  rw [hw'.front.there (by omega) (by omega), h.there]

/-- The tail loop has nothing to do then. -/
theorem Enough.tailLoop (h : Enough m t st w) (fuel : Nat) :
    Leads (tailLoop m.env m.ctx fuel st) w
      (fun total w' => total < m.head.rawSize ∨ Installed m t w') fun _ _ => True := by
  have hge : ¬ st.totalCopySize < m.ctx.partHead.rawSize := not_lt.mpr h.counted
  cases fuel with
  | zero => exact leads_throw.mpr trivial
  | succ fuel =>
      unfold Mh1903.tailLoop
      rw [if_neg hge]
      exact leads_pure.mpr (.inr h.toInstalled)

end Enough

/-! ## 3. A compressed image -/

/-- The loops follow the reference decoding: they are where it is, what it has lies in the target,
    and bytes are missing. -/
structure Following (m : StoredImage) (t : FalPartition) (x : Cursor) (st : CopyState) (w : World) :
    Prop extends CursorAt m x st w where
  inv : CopyInv t.len st
  upright : x.Upright
  decoded : m.Decoded t.len x.at x.out
  missing : x.out.length < m.head.rawSize
  there : readFlash w.flash t.base x.out.length = x.out

section Compressed

variable {m : StoredImage} {t : FalPartition} {x : Cursor} {st : CopyState} {w : World}

theorem Following.find (j : CopyJob m t) (h : Following m t x st w) :
    falPartitionFind m.env w.fotaPartHead.appPartName = some t := by
  have hhead := h.toCursorAt.head
  rw [hhead]
  exact j.find

/-- Delivering a whole frame is what the reference decoding does there. -/
theorem StoredImage.Decoded.delivered {q : Nat} {y : Cursor} (h : m.Decoded t.len q y.out)
    (hwhole : m.WholeAt q) (hblock : y.block = m.blockAt q) (hsize : y.size = m.sizeAt q)
    (hd : m.Delivers t.len y) :
    m.output y = m.inflate (m.payloadAt q) ∧
      m.Decoded t.len (q + 4 + m.sizeAt q) (m.deliver y).out := by
  have hdec : m.decompressed y.block y.size =
      m.decompressed (padTo m.room (m.payloadAt q)) (m.payloadAt q).length := by
    rw [hblock, hsize, hwhole.length, StoredImage.blockAt, hwhole.bytes]
  have hne := hd.size
  have hlen := (m.decompressed y.block y.size).size_eq.resolve_left hne
  have hout : m.output y = m.inflate (m.payloadAt q) := by
    rw [StoredImage.output, StoredImage.inflate, ← hdec, hlen, List.take_length]
  have hfits := hd.fits
  have hinside := hd.inside
  have hnonempty : m.inflate (m.payloadAt q) ≠ [] := by
    intro hnil
    rw [← hout, StoredImage.output, ← List.length_eq_zero_iff] at hnil
    omega
  rw [hout] at hfits hinside
  refine ⟨hout, ?_⟩
  rw [StoredImage.deliver, hout]
  exact h.next hwhole hnonempty hfits hd.aligned hinside

/-- A block that does not fit the buffer stops the copy. -/
theorem CursorAt.deliverFits (hc : m.head.Compressed) (h : CursorAt m x st w) (h1 : 1 ≤ x.chunks) :
    Returns (deliverBlock m.env m.ctx st) fun _ => (m.output x).length ≤ 4096 := by
  refine (deliverBlock_fits m.env m.ctx st).mono fun _ hfits => ?_
  rw [h.block h1, h.size h1, h.dcprs] at hfits
  exact hfits _ (StoredImage.decompress_eq hc _ _)

theorem CursorAt.mainFits (hc : m.head.Compressed) (j : CopyJob m t) (h : CursorAt m x st w)
    (hmain : m.InMain x) (hf : m.Fetchable x) :
    Leads (copyStep m.env m.ctx st) w
      (fun _ _ => (m.output (m.fetch x)).length ≤ 4096) fun _ _ => True := by
  have hne : m.ctx.partHead.cmprs ≠ rtFotaCryptAlgoNone := hc.ne_none
  unfold copyStep
  rw [if_pos hne, leads_bind]
  refine (h.fetch j.source (j.inPart hmain) hf).mono (fun st₁ w₁ hw₁ => ?_) fun _ _ _ => trivial
  exact (hw₁.1.deliverFits hc (m.one_le_fetch_chunks h.first)).leads w₁

/-- Behind a delivered frame the loops go on following, or enough is there. -/
theorem Following.delivered (hc : m.head.Compressed) (hrom : m.env.rom.Precise)
    (j : CopyJob m t) (h : Following m t x st w) {y : Cursor} (hout : y.out = x.out)
    (hwhole : m.WholeAt x.at) (hblock : y.block = m.blockAt x.at) (hsize : y.size = m.sizeAt x.at)
    (hmoved : (m.deliver y).out.length < m.head.rawSize →
      y.Upright ∧ y.at = x.at + 4 + m.sizeAt x.at) (hd : m.Delivers t.len y) {st' : CopyState}
    {w₁ w' : World} (hcalm : Quiet w w₁) (hat : CursorAt m (m.deliver y) st' w')
    (hwrote : Wrote m.env t x.out.length (m.output y) w₁ w') (hinv : CopyInv t.len st') :
    Following m t (m.deliver y) st' w' ∨ Enough m t st' w' := by
  have hthere : readFlash w₁.flash t.base x.out.length = x.out := by
    rw [hcalm.flash]
    exact h.there
  have hthere := hwrote.there hrom j.target hthere
  have hall : (m.deliver y).out = x.out ++ m.output y := by rw [StoredImage.deliver, hout]
  rw [← hall] at hthere
  have hdecoded : m.Decoded t.len x.at y.out := hout ▸ h.decoded
  obtain ⟨-, hnext⟩ := hdecoded.delivered hwhole hblock hsize hd
  by_cases hmiss : (m.deliver y).out.length < m.head.rawSize
  · obtain ⟨hupright, hplace⟩ := hmoved hmiss
    refine .inl ⟨hat, hinv, StoredImage.deliver_upright hupright, ?_, hmiss, hthere⟩
    rw [m.deliver_at, hplace]
    exact hnext
  · refine .inr ⟨installed_of_front (hnext.reference hc) (not_lt.mp hmiss) hthere, hinv, hat.head,
      ?_⟩
    rw [hat.total]
    exact not_lt.mp hmiss

/-- **A pass of the main loop** follows, or enough is there. -/
theorem Following.main (hc : m.head.Compressed) (hrom : m.env.rom.Precise) (j : CopyJob m t)
    (hdec : m.Decodable t.len) (h : Following m t x st w) (hmain : m.InMain x) :
    Leads (copyStep m.env m.ctx st) w
      (fun st' w' => (∃ x', Following m t x' st' w') ∨ Enough m t st' w') fun _ _ => True := by
  have hat : CursorAt m x st w := h.toCursorAt
  have hfind := h.find j
  have hkeep := (@copyStep_keepsAt m.env m.ctx t j.target st h.inv w hfind).leads
  have hbehind := @copyStep_behind m.env m.ctx t st w hrom j.target h.inv hfind
  have htotal : st.totalCopySize = x.out.length := hat.total
  -- a total that is no multiple of four is not written at
  by_cases hal : x.out.length % 4 = 0
  swap
  · refine hbehind.mono (fun _ _ hb => ?_) fun _ _ h => h
    rw [← htotal] at hal
    exact absurd hb.aligned hal
  have htaken := hdec.compressed hc _ _ h.decoded hal h.missing
  unfold StoredImage.TakenRight at htaken
  rw [h.upright.chunksTo, h.upright.offsetIn,
    if_pos (show 4096 * x.chunks < m.head.comSize from hmain)] at htaken
  obtain ⟨hwhole, hfit, hroom, hback⟩ := htaken
  obtain ⟨hblock, hsize⟩ := StoredImage.fetch_fits hfit
  have hout : x.out.length ≤ t.len := htotal ▸ h.inv.total
  by_cases hd : (m.output (m.fetch x)).length ≤ 4096
  swap
  · exact (hat.mainFits hc j hmain (.inr ⟨hfit, hroom⟩)).mono (fun _ _ hfits => absurd hfits hd)
      fun _ _ h => h
  have hpass := hat.mainPass j hc hmain (.inr ⟨hfit, hroom⟩) hd hout
  refine (hkeep.and hpass).mono (fun st' w' hw' => ?_) fun _ _ _ => trivial
  obtain ⟨⟨hwithin, hinv⟩, hdel, hat', -, w₁, hcalm, hwrote⟩ := hw'
  refine (h.delivered hc hrom j (m.fetch_out x) hwhole hblock hsize (fun hmiss => ?_) hdel
    hcalm.toQuiet hat' hwrote hinv).imp_left fun h => ⟨_, h⟩
  refine StoredImage.fetch_upright h.upright hfit fun h0 => ?_
  have hall := ((show m.Decoded t.len x.at (m.fetch x).out from
    (m.fetch_out x).symm ▸ h.decoded).delivered hwhole hblock hsize hdel).1
  have henough := hback h0
  rw [StoredImage.deliver, List.length_append, m.fetch_out, hall] at hmiss
  omega

/-- The main loop follows to the end of the body, or enough is there. -/
theorem Following.mainLoop (hc : m.head.Compressed) (hrom : m.env.rom.Precise) (j : CopyJob m t)
    (hdec : m.Decodable t.len) (fuel : Nat) (h : Following m t x st w) :
    Leads (copyLoop m.env m.ctx fuel st) w
      (fun st' w' => (∃ x', Following m t x' st' w' ∧ ¬ m.InMain x') ∨ Enough m t st' w')
      fun _ _ => True := by
  induction fuel generalizing x st w with
  | zero => exact leads_throw.mpr trivial
  | succ fuel ih =>
      unfold copyLoop
      rw [leads_ite]
      refine ⟨fun hlt => ?_, fun hge => ?_⟩
      · rw [leads_bind]
        refine (h.main hc hrom j hdec (h.toCursorAt.inMain_iff.mp hlt)).mono (fun st' w' hw' => ?_)
          fun _ _ h => h
        rcases hw' with ⟨x', h'⟩ | henough
        · exact ih h'
        · exact (henough.loop hrom j fuel).mono (fun _ _ h => .inr h) fun _ _ h => h
      · exact leads_pure.mpr (.inl ⟨x, h, fun hmain => hge (h.toCursorAt.inMain_iff.mpr hmain)⟩)

theorem CursorAt.tailFits (hc : m.head.Compressed) (j : CopyJob m t) (h : CursorAt m x st w)
    (htail : m.InTail x) :
    Leads (tailStep m.env m.ctx st) w
      (fun _ _ => (m.output (m.take x)).length ≤ 4096) fun _ _ => True := by
  obtain ⟨st₁, hat, hstep⟩ := h.tailStep_take j.source htail
  have h1 := htail.2.2.1
  rw [← m.take_chunks] at h1
  refine leads_of_eq hstep ?_
  rw [leads_bind]
  exact ((hat.deliverFits hc h1).leads w).mono (fun _ _ hfits => leads_pure.mpr hfits)
    fun _ _ h => h

/-- **A pass of the tail loop** ends it, or follows, or enough is there. -/
theorem Following.tail (hc : m.head.Compressed) (hrom : m.env.rom.Precise) (j : CopyJob m t)
    (hdec : m.Decodable t.len) (h : Following m t x st w) (hdone : ¬ m.InMain x) :
    Leads (tailStep m.env m.ctx st) w
      (fun next w' => next = none ∨ ∃ st', next = some st' ∧
        ((∃ x', Following m t x' st' w' ∧ ¬ m.InMain x') ∨ Enough m t st' w'))
      fun _ _ => True := by
  have hat : CursorAt m x st w := h.toCursorAt
  have htotal : st.totalCopySize = x.out.length := hat.total
  have hout : x.out.length ≤ t.len := htotal ▸ h.inv.total
  by_cases htail : m.InTail x
  swap
  · exact leads_of_ok (hat.tailStep_none j.source (not_lt.mp hdone) h.missing htail) (.inl rfl)
  by_cases hd : (m.output (m.take x)).length ≤ 4096
  swap
  · exact (hat.tailFits hc j htail).mono (fun _ _ hfits => absurd hfits hd) fun _ _ h => h
  have hkeep := (@tailStep_keepsAt m.env m.ctx t j.target st h.inv w (h.find j)).leads
  have hpass := hat.tailPass j hc (not_lt.mp hdone) h.missing (fun _ => hd) hout
  refine (hkeep.and hpass).mono (fun next w' hw' => ?_) fun _ _ _ => trivial
  obtain ⟨⟨-, hinv⟩, hnone | ⟨st', rfl, -, hdel, hat', hwrote, -⟩⟩ := hw'
  · exact .inl hnone.1
  have hal : x.out.length % 4 = 0 := m.take_out x ▸ hdel.aligned
  have htaken := hdec.compressed hc _ _ h.decoded hal h.missing
  unfold StoredImage.TakenRight at htaken
  rw [h.upright.chunksTo, h.upright.offsetIn,
    if_neg (show ¬ 4096 * x.chunks < m.head.comSize from hdone)] at htaken
  obtain ⟨-, -, h1, hfour, hend⟩ := htail
  obtain ⟨hupright, hplace⟩ := StoredImage.take_upright h.upright h1 hend
  obtain ⟨hblock, hsize⟩ := m.take_block x
  refine .inr ⟨st', rfl, ?_⟩
  refine (h.delivered hc hrom j (m.take_out x) (htaken hfour hend) hblock hsize
    (fun _ => ⟨hupright, hplace⟩) hdel (Std.Refl.refl w) hat' hwrote (hinv st' rfl)).imp_left
    fun h => ⟨_, h, ?_⟩
  unfold StoredImage.InMain
  rw [m.deliver_chunks, m.take_chunks]
  exact hdone

/-- The tail loop does so to its end. -/
theorem Following.tailLoop (hc : m.head.Compressed) (hrom : m.env.rom.Precise) (j : CopyJob m t)
    (hdec : m.Decodable t.len) (fuel : Nat) (h : Following m t x st w) (hdone : ¬ m.InMain x) :
    Leads (tailLoop m.env m.ctx fuel st) w
      (fun total w' => total < m.head.rawSize ∨ Installed m t w') fun _ _ => True := by
  induction fuel generalizing x st w with
  | zero => exact leads_throw.mpr trivial
  | succ fuel ih =>
      have hmiss : st.totalCopySize < m.head.rawSize := by
        rw [h.toCursorAt.total]
        exact h.missing
      unfold Mh1903.tailLoop
      rw [leads_ite]
      refine ⟨fun _ => ?_, fun hge => absurd hmiss hge⟩
      rw [leads_bind]
      refine (h.tail hc hrom j hdec hdone).mono (fun next w' hw' => ?_) fun _ _ h => h
      rcases hw' with rfl | ⟨st', rfl, ⟨x', h', hdone'⟩ | henough⟩
      · exact leads_pure.mpr (.inl hmiss)
      · exact ih h' hdone'
      · exact henough.tailLoop fuel

/-- **A compressed copy that returns** has installed the front of the reference decoding. -/
theorem Following.copy (hc : m.head.Compressed) (hrom : m.env.rom.Precise) (j : CopyJob m t)
    (hdec : m.Decodable t.len) (h : Following m t x st w) :
    Leads (upgradeCopy m.env m.ctx st) w (fun _ w' => Installed m t w') fun _ _ => True := by
  have hne : m.ctx.partHead.cmprs ≠ rtFotaCryptAlgoNone := hc.ne_none
  unfold upgradeCopy
  rw [leads_bind]
  refine (h.mainLoop hc hrom j hdec _).mono (fun st₁ w₁ hw₁ => ?_) fun _ _ h => h
  have htail : Leads (Mh1903.tailLoop m.env m.ctx tailFuel st₁) w₁
      (fun total w' => total < m.head.rawSize ∨ Installed m t w') fun _ _ => True := by
    rcases hw₁ with ⟨x', h', hdone⟩ | henough
    · exact h'.tailLoop hc hrom j hdec _ hdone
    · exact henough.tailLoop _
  rw [if_pos hne, leads_bind]
  refine htail.mono (fun total w' hw' => ?_) fun _ _ h => h
  rw [leads_ite]
  refine ⟨fun _ => ?_, fun hge => leads_pure.mpr (hw'.resolve_left hge)⟩
  rw [leads_bind]
  exact leads_throw.mpr trivial

end Compressed

end Mh1903
