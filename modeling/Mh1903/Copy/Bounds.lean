/-
  File:      Mh1903/Copy/Bounds.lean
  Subject:   BLOCKS THAT FIT. The loops copy what the body says, so their accesses are inside the
             buffers as long as every block they come to fits the place it lies at and the buffer it
             is put into.
-/
import Mh1903.Copy.Passes
import Mh1903.Copy.Setup

namespace Mh1903

open Library

/-! ## 1. Sizes of blocks -/

/-- `qlz_size_decompressed(source)` -/
def qlzSizeDecompressed (source : List Byte) : Nat :=
  let n := if source.getD 0 0 &&& 2 = 2 then 4 else 1
  if n = 4 then le32 source 5 else (source.getD 2 0).toNat

/-- How much the decompressors put: FASTLZ not more than it may, QUICKLZ what the block says. -/
structure Env.KeepsSizes (env : Env) : Prop where
  fastlz : ∀ input length maxout, (env.fastlzDecompress input length maxout).written.length ≤ maxout
  qlz : ∀ source, (env.qlzDecompress source).written.length = qlzSizeDecompressed source

/-- The block at hand decompresses inside its buffers: it is read to no byte behind the one, and put
    into the other, which only QUICKLZ may overrun. -/
structure StoredImage.Fits (m : StoredImage) (x : Cursor) : Prop where
  put : m.head.cmprs = rtFotaCmprsAlgoQuicklz → qlzSizeDecompressed x.block ≤ 4096
  reads : m.ReadsInside x

theorem StoredImage.put_iff {m : StoredImage} (hsizes : m.env.KeepsSizes)
    (hc : m.head.Compressed) {x : Cursor} :
    (m.head.cmprs = rtFotaCmprsAlgoQuicklz → qlzSizeDecompressed x.block ≤ 4096) ↔
      (m.output x).length ≤ 4096 := by
  unfold StoredImage.output StoredImage.decompressed
  rcases hc with hf | hq
  · rw [if_pos hf, hf]
    exact ⟨fun _ => hsizes.fastlz _ _ _, fun _ h => absurd h (by decide)⟩
  · rw [if_neg (by rw [hq]; decide), hsizes.qlz]
    exact ⟨fun h => h hq, fun h _ => h⟩

theorem StoredImage.fits_iff {m : StoredImage} (hsizes : m.env.KeepsSizes)
    (hc : m.head.Compressed) {x : Cursor} :
    m.Fits x ↔ (m.output x).length ≤ 4096 ∧ m.ReadsInside x :=
  ⟨fun h => ⟨(put_iff hsizes hc).mp h.put, h.reads⟩, fun h => ⟨(put_iff hsizes hc).mpr h.1, h.2⟩⟩

/-- Every block the loops come to fits, its place and its buffers. -/
def StoredImage.BlocksFit (m : StoredImage) (len : Nat) : Prop :=
  ∀ x, Reached m len x → (m.InMain x → m.Fetchable x ∧ m.Fits (m.fetch x)) ∧
    (m.InTail x → m.Fits (m.take x))

theorem Reached.out_le {m : StoredImage} {len : Nat} {x : Cursor} (h : Reached m len x) :
    x.out.length ≤ len := by
  cases h with
  | start => exact Nat.zero_le _
  | main _ _ _ hd =>
      rw [StoredImage.deliver, List.length_append]
      exact hd.inside
  | tail _ _ hd =>
      rw [StoredImage.deliver, List.length_append]
      exact hd.inside

/-! ## 2. The loops of a compressed image -/

section Loops

variable {m : StoredImage} {t : FalPartition} {x : Cursor} {st : CopyState} {w : World}

/-- The main loop leads from place to place until the body is read. -/
theorem CursorAt.mainLoop_noFault (j : CopyJob m t) (hc : m.head.Compressed) (hsizes : m.env.KeepsSizes)
    (hfit : m.BlocksFit t.len) (fuel : Nat) (hr : Reached m t.len x) (h : CursorAt m x st w) :
    Leads (copyLoop m.env m.ctx fuel st) w
      (fun st' w' => NoFault w w' ∧ ∃ y, Reached m t.len y ∧ ¬ m.InMain y ∧ CursorAt m y st' w')
      (fun _ w' => NoFault w w') := by
  induction fuel generalizing x st w with
  | zero => exact leads_throw.mpr (Std.Refl.refl w)
  | succ fuel ih =>
      unfold copyLoop
      rw [leads_ite]
      refine ⟨fun hlt => ?_, fun hge => ?_⟩
      · have hmain := h.inMain_iff.mp hlt
        obtain ⟨hf, hd⟩ := (hfit x hr).1 hmain
        obtain ⟨hput, hinside⟩ := (StoredImage.fits_iff hsizes hc).mp hd
        rw [leads_bind]
        refine (h.mainPass j hc hmain hf hput hr.out_le).mono (fun st' w' hw' => ?_)
          fun _ _ h => h hinside
        obtain ⟨hdel, hat, hno, -⟩ := hw'
        have hstep : NoFault w w' := hno hinside
        refine (ih (.main hr hmain hf hdel) hat).mono (fun _ _ h => ?_) fun _ _ h => ?_
        · exact ⟨IsTrans.trans _ _ _ hstep h.1, h.2⟩
        · exact IsTrans.trans _ _ _ hstep h
      · exact leads_pure.mpr ⟨Std.Refl.refl w, x, hr, fun hmain => hge (h.inMain_iff.mpr hmain), h⟩

/-- The tail loop does, until it finds no block. -/
theorem CursorAt.tailLoop_noFault (j : CopyJob m t) (hc : m.head.Compressed) (hsizes : m.env.KeepsSizes)
    (hfit : m.BlocksFit t.len) (fuel : Nat) (hr : Reached m t.len x) (hdone : ¬ m.InMain x)
    (h : CursorAt m x st w) :
    Leads (tailLoop m.env m.ctx fuel st) w (fun _ w' => NoFault w w') (fun _ w' => NoFault w w') := by
  induction fuel generalizing x st w with
  | zero => exact leads_throw.mpr (Std.Refl.refl w)
  | succ fuel ih =>
      unfold tailLoop
      rw [leads_ite]
      refine ⟨fun hlt => ?_, fun _ => leads_pure.mpr (Std.Refl.refl w)⟩
      rw [h.total] at hlt
      rw [leads_bind]
      have hfits : m.InTail x → (m.output (m.take x)).length ≤ 4096 ∧ m.ReadsInside (m.take x) :=
        fun htail => (StoredImage.fits_iff hsizes hc).mp ((hfit x hr).2 htail)
      refine (h.tailPass j hc (not_lt.mp hdone) hlt (fun htail => (hfits htail).1) hr.out_le).mono
        (fun next w' hw' => ?_) fun _ _ h => h.2 (hfits h.1).2
      rcases hw' with ⟨rfl, rfl⟩ | ⟨st', rfl, htail, hdel, hat, -, hno⟩
      · exact leads_pure.mpr (Std.Refl.refl _)
      · have hdone' : ¬ m.InMain (m.deliver (m.take x)) := by
          unfold StoredImage.InMain StoredImage.deliver
          rw [m.take_chunks]
          exact hdone
        refine (ih (.tail hr htail hdel) hdone' hat).mono (fun _ _ h => ?_) fun _ _ h => ?_
        · exact IsTrans.trans _ _ _ (hno (hfits htail).2) h
        · exact IsTrans.trans _ _ _ (hno (hfits htail).2) h

/-- **A compressed copy whose blocks fit** makes no forbidden access. -/
theorem CursorAt.copy_noFault (j : CopyJob m t) (hc : m.head.Compressed)
    (hsizes : m.env.KeepsSizes) (hfit : m.BlocksFit t.len) (h : CursorAt m .start st w) :
    NoFault w (final (upgradeCopy m.env m.ctx st) w) := by
  refine Leads.final ?_
  unfold upgradeCopy
  rw [leads_bind]
  refine (h.mainLoop_noFault j hc hsizes hfit _ .start).mono (fun st' w₁ hw₁ => ?_) fun _ _ h => h
  obtain ⟨hno, y, hr, hdone, hat⟩ := hw₁
  have hne : m.ctx.partHead.cmprs ≠ rtFotaCryptAlgoNone := hc.ne_none
  have hend : ∀ w₂, NoFault w₁ w₂ → NoFault w w₂ := fun _ h₂ => IsTrans.trans _ _ _ hno h₂
  rw [if_pos hne, leads_bind]
  refine (hat.tailLoop_noFault j hc hsizes hfit _ hr hdone).mono (fun total w₂ h₂ => ?_)
    fun _ w₂ h₂ => hend w₂ h₂
  rw [leads_ite]
  refine ⟨fun _ => ?_, fun _ => leads_pure.mpr (hend w₂ h₂)⟩
  rw [leads_bind]
  exact leads_throw.mpr (hend w₂ h₂)

end Loops

/-! ## 3. The loop of an uncompressed image -/

/-- Reader and total of an uncompressed copy. -/
structure PlainReady (env : Env) (part t : FalPartition) (st : CopyState) (w : World) : Prop
    extends ReadReady part st where
  total : st.totalCopySize ≤ t.len
  find : falPartitionFind env w.fotaPartHead.appPartName = some t

section Plain

variable {env : Env} {c : CopyCtx} {t : FalPartition} {st : CopyState} {w : World}

theorem PlainReady.step (hrom : env.rom.Confined) (hp : c.part.Ok) (ht : t.Ok)
    (hc : c.partHead.cmprs = rtFotaCryptAlgoNone) (h : PlainReady env c.part t st w) :
    Leads (copyStep env c st) w (fun st' w' => NoFault w w' ∧ PlainReady env c.part t st' w')
      (fun _ w' => NoFault w w') := by
  have hcalm := w.read_calm env c.part st.fwRawPos st.aesIv
  have hr : ReadReady c.part st := h.toReadReady
  obtain ⟨hyes, hno⟩ := readChunk_eq env hp hr w
  unfold copyStep
  rw [if_neg (not_not.mpr hc), leads_bind]
  by_cases hread : Readable env c.part st.fwRawPos st.aesIv w
  · have hready : ReadReady c.part (st.advance env w.flash c.part) :=
      hr.advance (Nat.le_trans (by simp only [sizeofPartHead]; omega) hread.1)
    have hfind : falPartitionFind env (w.read env c.part st.fwRawPos st.aesIv).fotaPartHead.appPartName = some t := by
      rw [hcalm.head]
      exact h.find
    refine leads_of_ok (hyes hread) ?_
    have htotal : (st.advance env w.flash c.part).totalCopySize ≤ t.len := h.total
    refine (writeOut_wrote hrom ht hready.len.ge hready.len htotal hfind).mono
      (fun st' w' hw' => ?_) fun _ w' hw' => Eq.trans hw' hcalm.faults
    obtain ⟨rfl, hwrote, hno⟩ := hw'
    have hinside := hwrote.inside
    rw [List.length_take, hready.len] at hinside
    refine ⟨Eq.trans hno hcalm.faults, ⟨hready.pos, hready.iv, hready.len⟩, hinside, ?_⟩
    rw [hwrote.head]
    exact hfind
  · exact leads_of_error (hno hread) hcalm.faults

theorem PlainReady.loop (hrom : env.rom.Confined) (hp : c.part.Ok) (ht : t.Ok)
    (hc : c.partHead.cmprs = rtFotaCryptAlgoNone) (fuel : Nat) (h : PlainReady env c.part t st w) :
    Leads (copyLoop env c fuel st) w (fun _ w' => NoFault w w') (fun _ w' => NoFault w w') := by
  induction fuel generalizing st w with
  | zero => exact leads_throw.mpr (Std.Refl.refl w)
  | succ fuel ih =>
      unfold copyLoop
      rw [leads_ite]
      refine ⟨fun _ => ?_, fun _ => leads_pure.mpr (Std.Refl.refl w)⟩
      rw [leads_bind]
      refine (h.step hrom hp ht hc).mono (fun st' w' hw' => ?_) fun _ _ h => h
      refine (ih hw'.2).mono (fun _ _ h => ?_) fun _ _ h => ?_
      · exact IsTrans.trans _ _ _ hw'.1 h
      · exact IsTrans.trans _ _ _ hw'.1 h

/-- **An uncompressed copy** makes no forbidden access. -/
theorem PlainReady.copy_noFault (hrom : env.rom.Confined) (hp : c.part.Ok) (ht : t.Ok)
    (hc : c.partHead.cmprs = rtFotaCryptAlgoNone) (h : PlainReady env c.part t st w) :
    NoFault w (final (upgradeCopy env c st) w) := by
  refine Leads.final ?_
  unfold upgradeCopy
  rw [leads_bind]
  refine (h.loop hrom hp ht hc _).mono (fun st' w' hw' => ?_) fun _ _ h => h
  rw [if_neg (not_not.mpr hc), pure_bind, leads_ite]
  refine ⟨fun _ => ?_, fun _ => leads_pure.mpr hw'⟩
  rw [leads_bind]
  exact leads_throw.mpr hw'

end Plain

/-- An empty body leaves both loops at once. -/
theorem upgradeCopy_empty {env : Env} {c : CopyCtx} (h0 : c.partHead.comSize = 0)
    (aesIv : Option (List Byte)) (cryptBuf cmprsBuff dcprsBuff : List Byte) (w : World) :
    final (upgradeCopy env c (.start env aesIv cryptBuf cmprsBuff dcprsBuff)) w = w := by
  refine Leads.final (P := (· = w)) ?_
  unfold upgradeCopy
  rw [leads_bind, h0]
  have hmain : copyLoop env c (2051 + 1) (.start env aesIv cryptBuf cmprsBuff dcprsBuff) w =
      .ok (.start env aesIv cryptBuf cmprsBuff dcprsBuff) w := by
    unfold copyLoop
    rw [if_neg (by rw [h0]; exact Nat.not_lt_zero _)]
    rfl
  have hnone : tailStep env c (.start env aesIv cryptBuf cmprsBuff dcprsBuff) w = .ok none w :=
    congrFun (if_neg fun h => absurd (show (4096 : Nat) < 0 from h.1) (by decide)) w
  have htail : tailLoop env c (1025 + 1) (.start env aesIv cryptBuf cmprsBuff dcprsBuff) w =
      .ok 0 w := by
    unfold tailLoop
    split
    · exact bind_ok hnone
    · rfl
  refine leads_of_ok hmain ?_
  rw [leads_ite]
  refine ⟨fun _ => ?_, fun _ => ?_⟩
  · rw [leads_bind]
    refine leads_of_ok htail ?_
    rw [leads_ite, leads_bind]
    exact ⟨fun _ => leads_throw.mpr rfl, fun _ => leads_pure.mpr rfl⟩
  · rw [pure_bind, leads_ite, leads_bind]
    exact ⟨fun _ => leads_throw.mpr rfl, fun _ => leads_pure.mpr rfl⟩

/-! ## 4. The whole upgrade -/

/-- **The image keeps the copy inside the buffers**: where the upgrade comes to copying blocks, their
    compression is one it has, the target is not the source, and every block fits. -/
def StoredImage.InBounds (m : StoredImage) : Prop :=
  ∀ t, falPartitionFind m.env m.head.appPartName = some t →
    1 ≤ m.head.rawSize → m.head.rawSize ≤ t.len → 1 ≤ m.head.comSize →
    m.head.crypt ≠ rtFotaCryptAlgoXor → m.head.cmprs ≠ rtFotaCmprsAlgoGzip →
    m.head.cmprs ≠ rtFotaCryptAlgoNone →
    m.head.Compressed ∧ m.part ≠ t ∧ m.BlocksFit t.len

theorem rtFotaEraseAppPart_noFault (env : Env) : Keeps NoFault (rtFotaEraseAppPart env) := by
  have hloop : ∀ size n sector, Keeps NoFault (mhFlashEraseLoop env size n sector) := by
    intro size n
    induction n with
    | zero => exact fun _ => keeps_pure _
    | succ n ih =>
        intro sector
        refine keeps_bind (flashOp_noFault _ _ _) fun ok => keeps_ite ?_ (keeps_pure _)
        exact keeps_bind keeps_get fun w => keeps_ite (ih _) (keeps_pure _)
  refine keeps_withExit (keeps_bind keeps_get fun w => ?_)
  split
  · exact keeps_throw _
  · refine keeps_bind ?_ fun ret => keeps_ite (keeps_throw_bind _) (keeps_pure _)
    refine keeps_ite (keeps_pure _) (keeps_ite ?_ (keeps_pure _))
    exact keeps_ite (keeps_pure _) (keeps_ite (keeps_pure _) (hloop _ _ _))

section Upgrade

variable {env : Env} {partName : Option (List Byte)} {part : FalPartition} {w : World}

/-- An upgrade makes no forbidden access if its copy makes none. -/
theorem rtFotaUpgrade_noFault (hpart : partName.bind (falPartitionFind env) = some part)
    (hcopy : ∀ w₁ r w₂, rtFotaEraseAppPart env w = .ok rtFotaNoErr w₁ →
      SetupDone env part w₁.fotaPartHead r → Calm w₁ w₂ →
      NoFault w₂ (final (upgradeCopy env r.1 r.2) w₂)) :
    NoFault w (final (rtFotaUpgrade env partName) w) := by
  have herase := rtFotaEraseAppPart_noFault env
  refine Leads.final (leads_withExit ?_)
  rw [leads_bind]
  have hmono : ∀ {w₁ : World} {x : M Int}, NoFault w w₁ → NoFault w₁ (final x w₁) →
      Leads x w₁ (fun _ w' => NoFault w w')
        fun e w' => (∀ err, e = .exit err → NoFault w w') ∧ NoFault w w' := by
    intro w₁ x h₁ hx
    unfold final at hx
    cases hrun : x w₁ with
    | ok a w' =>
        rw [hrun] at hx
        exact leads_of_ok hrun (IsTrans.trans _ _ _ h₁ hx)
    | error e w' =>
        rw [hrun] at hx
        have hw' : NoFault w w' := IsTrans.trans _ _ _ h₁ hx
        exact leads_of_error hrun ⟨fun _ _ => hw', hw'⟩
  cases happ : rtFotaEraseAppPart env w with
  | error e w₁ =>
      have hsetup : upgradeSetup env partName w = .error e w₁ := by
        unfold upgradeSetup
        simp only [hpart]
        exact bind_error happ
      exact leads_of_error hsetup ⟨fun _ _ => herase.error happ, herase.error happ⟩
  | ok err w₁ =>
      by_cases herr : err = rtFotaNoErr
      · subst herr
        refine (upgradeSetup_leads hpart happ).mono (fun r w₂ h => ?_) fun e w₂ h => ?_
        · exact hmono (IsTrans.trans _ _ _ (herase.ok happ) h.2.faults) (hcopy w₁ r w₂ happ h.1 h.2)
        · have hw₂ : NoFault w w₂ := IsTrans.trans _ _ _ (herase.ok happ) h.faults
          exact ⟨fun _ _ => hw₂, hw₂⟩
      · have hsetup : upgradeSetup env partName w = .error (.exit err) w₁ := by
          unfold upgradeSetup
          simp only [hpart]
          rw [bind_ok happ, if_pos herr]
          rfl
        exact leads_of_error hsetup ⟨fun _ _ => herase.ok happ, herase.ok happ⟩

/-- **An image that keeps the copy inside the buffers** makes no forbidden access, whatever the ROM,
    the allocations and the power do. -/
theorem StoredImage.InBounds.upgrade (henv : env.OnBoard) (hrom : env.rom.Confined)
    (hsizes : env.KeepsSizes) (hpart : partName.bind (falPartitionFind env) = some part)
    (hchunks : ChunksFit part w.fotaPartHead.comSize)
    (hin : (StoredImage.mk env w.flash part w.fotaPartHead).InBounds) :
    NoFault w (final (rtFotaUpgrade env partName) w) := by
  obtain ⟨name, rfl, hname⟩ := Option.bind_eq_some_iff.mp hpart
  have hp := henv.tableOk.find hname
  cases ht : falPartitionFind env w.fotaPartHead.appPartName with
  | none =>
      obtain ⟨err, -, hrun⟩ := rtFotaUpgrade_none ht (some name)
      unfold final
      rw [hrun]
      exact Std.Refl.refl w
  | some t =>
      have htok := henv.tableOk.find ht
      refine rtFotaUpgrade_noFault hpart fun w₁ r w₂ happ hsetup hcalm => ?_
      obtain ⟨h1, hlen, hhead, hflash⟩ := rtFotaEraseAppPart_sound hrom htok ht happ
      have hhead₂ : w₂.fotaPartHead = w.fotaPartHead := hcalm.head.trans hhead
      rw [hhead] at hsetup
      by_cases h0 : w.fotaPartHead.comSize = 0
      · obtain ⟨cryptBuf, cmprsBuff, dcprsBuff, rfl, -⟩ := hsetup
        have hend := @upgradeCopy_empty env ⟨part, w.fotaPartHead, w.fotaPartHead.paddingSize⟩ h0
          w.fotaPartHead.startIv cryptBuf cmprsBuff dcprsBuff w₂
        rw [hend]
        exact Std.Refl.refl w₂
      by_cases hnone : w.fotaPartHead.cmprs = rtFotaCryptAlgoNone
      · obtain ⟨cryptBuf, cmprsBuff, dcprsBuff, rfl, hbuf, -⟩ := hsetup
        refine PlainReady.copy_noFault (t := t) hrom hp htok hnone
          ⟨⟨Nat.zero_le _, startIv_ok _, hbuf⟩, Nat.zero_le _, ?_⟩
        rw [hhead₂]
        exact ht
      · have hdone := hsetup
        obtain ⟨_, _, _, -, -, hxor, hbufs⟩ := hdone
        obtain ⟨hc, hne, hfit⟩ := hin t ht h1 hlen (by
          show 1 ≤ w.fotaPartHead.comSize
          omega) hxor hbufs.supported hnone
        have j : CopyJob ⟨env, w.flash, part, w.fotaPartHead⟩ t :=
          ⟨hrom, hp, htok, ht, fun a ha => falPartTable_disjoint (falPartitionFind_mem henv hname)
            (falPartitionFind_mem henv ht) hne ha, hchunks⟩
        have hsource : ∀ a, part.Covers a → w₂.flash a = w.flash a := by
          intro a ha
          rw [hcalm.flash, hflash, j.erase_apart hlen ha]
        obtain ⟨hctx, hat⟩ := SetupDone.cursorAt
          (m := ⟨env, w.flash, part, w.fotaPartHead⟩) hc hsetup hhead₂ hsource
        rw [hctx]
        exact hat.copy_noFault j hc hsizes hfit

end Upgrade

end Mh1903
