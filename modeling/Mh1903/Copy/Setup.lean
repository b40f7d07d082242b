/-
  File:      Mh1903/Copy/Setup.lean
  Subject:   BETWEEN THE ERASE AND THE LOOPS. What a setup that did not stop has allocated, and that
             it leaves the loops at the start of the body.
-/
import Mh1903.Copy.Cursor
import Mh1903.Driver.Erase

namespace Mh1903

open Library

/-! ## 1. Cipher and buffers -/

theorem rtMalloc_keeps_calm (env : Env) (size : Nat) : Keeps Calm (rtMalloc env size) := by
  intro w
  obtain ⟨w', h, hcalm⟩ := rtMalloc_calm env size w
  unfold final
  rw [h]
  exact hcalm

theorem setupCrypt_returns {env : Env} (h : RtFotaPartHead) :
    Returns (setupCrypt env h) fun iv => iv = h.startIv ∧ h.crypt ≠ rtFotaCryptAlgoXor := by
  unfold RtFotaPartHead.startIv
  refine returns_ite (fun haes => ?_) fun haes => returns_ite (fun _ => returns_throw _) fun hxor =>
    returns_pure ⟨(if_neg haes).symm, hxor⟩
  have hne : h.crypt ≠ rtFotaCryptAlgoXor := by
    rw [haes]
    decide
  refine returns_bind (returns_any _) fun _ _ => returns_bind (returns_any _) fun _ _ => ?_
  exact returns_ite (fun _ => returns_throw_bind _) fun _ =>
    returns_pure ⟨(if_pos haes).symm, hne⟩

/-- The buffers for blocks: there are none without a decompressor. -/
structure BlockBuffers (h : RtFotaPartHead) (cmprsBuff dcprsBuff : List Byte) : Prop where
  supported : h.cmprs ≠ rtFotaCmprsAlgoGzip
  cmprs : h.Compressed → cmprsBuff.length = 4096 + h.paddingSize
  dcprs : h.Compressed → dcprsBuff.length = 4096
  none : ¬ h.Compressed → cmprsBuff = []

theorem setupCmprs_buffers {env : Env} (h : RtFotaPartHead) :
    Returns (setupCmprs env h) fun r => r.2.2 = h.paddingSize ∧ BlockBuffers h r.1 r.2.1 := by
  unfold RtFotaPartHead.paddingSize
  refine returns_ite (fun hf => ?_) fun hf => returns_ite (fun hq => ?_) fun hq =>
    returns_ite (fun _ => returns_throw _) fun hgzip => ?_
  · have hne : h.cmprs ≠ rtFotaCmprsAlgoGzip := by
      rw [hf]
      decide
    have hpad : h.paddingSize = rtFotaFastlzBufferPadding := if_pos hf
    refine returns_bind (rtMalloc_returns _) fun a ha => ?_
    refine returns_bind (rtMalloc_returns _) fun b hb => ?_
    split
    · refine returns_pure ⟨(if_pos hf).symm, hne, fun _ => ?_, fun _ => hb _ rfl,
        fun hno => absurd (.inl hf) hno⟩
      rw [hpad]
      exact ha _ rfl
    · exact returns_throw _
  · have hne : h.cmprs ≠ rtFotaCmprsAlgoGzip := by
      rw [hq]
      decide
    have hpad : h.paddingSize = rtFotaQuicklzBufferPadding := (if_neg hf).trans (if_pos hq)
    refine returns_bind (rtMalloc_returns _) fun a ha => ?_
    refine returns_bind (rtMalloc_returns _) fun b hb => returns_bind (returns_any _) fun d _ => ?_
    split
    · refine returns_pure ⟨((if_neg hf).trans (if_pos hq)).symm, hne, fun _ => ?_,
        fun _ => hb _ rfl, fun hno => absurd (.inr hq) hno⟩
      rw [hpad]
      exact ha _ rfl
    · exact returns_throw _
  · have hno : ¬ h.Compressed := fun hc => hc.elim hf hq
    exact returns_pure ⟨((if_neg hf).trans (if_neg hq)).symm, hgzip, fun hc => absurd hc hno,
      fun hc => absurd hc hno, fun _ => rfl⟩

/-! ## 2. The setup behind a successful erase -/

/-- What the setup hands to the loops. -/
def SetupDone (env : Env) (part : FalPartition) (h : RtFotaPartHead) (r : CopyCtx × CopyState) :
    Prop :=
  ∃ cryptBuf cmprsBuff dcprsBuff,
    r = (⟨part, h, h.paddingSize⟩, .start env h.startIv cryptBuf cmprsBuff dcprsBuff) ∧
    cryptBuf.length = 4096 ∧ h.crypt ≠ rtFotaCryptAlgoXor ∧ BlockBuffers h cmprsBuff dcprsBuff

section Setup

variable {env : Env} {w w₁ : World} {partName : Option (List Byte)} {part : FalPartition}

/-- How the erase of the target ends. -/
theorem rtFotaEraseAppPart_cases {t : FalPartition}
    (hfind : falPartitionFind env w.fotaPartHead.appPartName = some t) {r : Int}
    (h : rtFotaEraseAppPart env w = .ok r w₁) :
    (r = rtFotaNoErr ∧ ∃ ret, 0 ≤ ret ∧
      falPartitionErase env t 0 w.fotaPartHead.rawSize w = .ok ret w₁) ∨
    (r = rtFotaPartEraseErr ∧ ∃ ret < 0,
      falPartitionErase env t 0 w.fotaPartHead.rawSize w = .ok ret w₁) := by
  unfold rtFotaEraseAppPart withExit at h
  rw [get_bind] at h
  simp only [hfind] at h
  cases hb : falPartitionErase env t 0 w.fotaPartHead.rawSize w with
  | ok ret w₂ =>
      rw [bind_ok hb] at h
      by_cases hneg : ret < 0
      · rw [if_pos hneg] at h
        cases h
        exact .inr ⟨rfl, ret, hneg, rfl⟩
      · rw [if_neg hneg] at h
        cases h
        exact .inl ⟨rfl, ret, not_lt.mp hneg, rfl⟩
  | error e w₂ =>
      rw [bind_error hb] at h
      cases e with
      | exit err =>
          have hno : NoExit (.exit err) :=
            falPartitionErase_stops (fun _ => Stop.noConfusion) t 0 _ w _ _ hb
          exact absurd rfl (hno err)
      | crash => cases h
      | powerLoss => cases h
      | outOfFuel => cases h

/-- A successful erase of the target: the size fits, its sectors read 0xff, the rest is as it was. -/
theorem rtFotaEraseAppPart_sound {t : FalPartition} (hrom : env.rom.Confined) (ht : t.Ok)
    (hfind : falPartitionFind env w.fotaPartHead.appPartName = some t)
    (h : rtFotaEraseAppPart env w = .ok rtFotaNoErr w₁) :
    1 ≤ w.fotaPartHead.rawSize ∧ w.fotaPartHead.rawSize ≤ t.len ∧
      w₁.fotaPartHead = w.fotaPartHead ∧
      w₁.flash = eraseRange t.base (sectors w.fotaPartHead.rawSize) w.flash := by
  have hraw := w.fotaPartHead.rawSize_lt
  obtain ⟨-, ret, hret, herase⟩ := (rtFotaEraseAppPart_cases hfind h).resolve_right fun herr => absurd herr.1 (by decide)
  obtain ⟨h1, hlen, hflash⟩ := falPartitionErase_sound hrom ht hraw herase hret
  exact ⟨h1, hlen, ((rtFotaEraseAppPart_keepsAt ht hfind).ok h).1.head, hflash⟩

/-- **The setup behind the erase** touches no flash, and refuses XOR and GZIP. -/
theorem upgradeSetup_leads (hpart : partName.bind (falPartitionFind env) = some part)
    (herase : rtFotaEraseAppPart env w = .ok rtFotaNoErr w₁) :
    Leads (upgradeSetup env partName) w
      (fun r w' => SetupDone env part w₁.fotaPartHead r ∧ Calm w₁ w')
      (fun _ w' => Calm w₁ w') := by
  unfold upgradeSetup
  simp only [hpart]
  rw [leads_bind]
  refine leads_of_ok herase ?_
  rw [if_neg (not_not.mpr rfl), leads_bind, leads_get]
  refine Leads.mono (KeepsAt.leads (R := Calm) (P := SetupDone env part w₁.fotaPartHead) ?_)
    (fun _ _ h => ⟨h.2, h.1⟩) fun _ _ h => h
  refine keepsAt_bind ((rtMalloc_keeps_calm env _).at (rtMalloc_returns _) w₁)
    fun cryptBuf w₂ _ hlen => ?_
  cases cryptBuf with
  | none => exact keepsAt_throw _ _ _
  | some cryptBuf =>
      refine keepsAt_bind ((setupCrypt_keeps (rtMalloc_keeps_calm env) _).at
        (setupCrypt_returns _) w₂) fun aesIv w₃ _ hcrypt => ?_
      refine keepsAt_bind ((setupCmprs_keeps (rtMalloc_keeps_calm env) _).at
        (setupCmprs_buffers _) w₃) fun bufs w₄ _ hbufs => ?_
      obtain ⟨rfl, hxor⟩ := hcrypt
      obtain ⟨cmprsBuff, dcprsBuff, padding⟩ := bufs
      obtain ⟨rfl, hbufs⟩ := hbufs
      exact keepsAt_pure ⟨cryptBuf, cmprsBuff, dcprsBuff, rfl, hlen _ rfl, hxor, hbufs⟩

/-- With memory and supported algorithms the setup behind the erase succeeds. -/
theorem upgradeSetup_ok (hmem : ∀ n, env.mallocOk n = true)
    (hpart : partName.bind (falPartitionFind env) = some part)
    (herase : rtFotaEraseAppPart env w = .ok rtFotaNoErr w₁)
    (hcrypt : w₁.fotaPartHead.crypt ≠ rtFotaCryptAlgoXor)
    (hcmprs : w₁.fotaPartHead.cmprs ≠ rtFotaCmprsAlgoGzip) :
    ∃ r w', upgradeSetup env partName w = .ok r w' := by
  obtain ⟨w₂, hbuf, -⟩ := rtMalloc_ok hmem rtFotaAlgoBuffSize w₁
  obtain ⟨w₃, haes, -⟩ := setupCrypt_ok hmem hcrypt w₂
  obtain ⟨r, w₄, hbufs⟩ : ∃ r w₄, setupCmprs env w₁.fotaPartHead w₃ = .ok r w₄ := by
    unfold setupCmprs
    split
    · obtain ⟨w₅, h₅, -⟩ := rtMalloc_ok hmem
        (rtFotaCmprsBufferSize + rtFotaFastlzBufferPadding) w₃
      obtain ⟨w₆, h₆, -⟩ := rtMalloc_ok hmem rtFotaCmprsBufferSize w₅
      rw [bind_ok h₅, bind_ok h₆]
      exact ⟨_, _, rfl⟩
    · split
      · obtain ⟨w₅, h₅, -⟩ := rtMalloc_ok hmem
          (rtFotaCmprsBufferSize + rtFotaQuicklzBufferPadding) w₃
        obtain ⟨w₆, h₆, -⟩ := rtMalloc_ok hmem rtFotaCmprsBufferSize w₅
        obtain ⟨w₇, h₇, -⟩ := rtMalloc_ok hmem 0 w₆
        rw [bind_ok h₅, bind_ok h₆, bind_ok h₇]
        exact ⟨_, _, rfl⟩
      · exact ⟨_, _, rfl⟩
  unfold upgradeSetup
  simp only [hpart]
  rw [bind_ok herase, if_neg (not_not.mpr rfl), get_bind, bind_ok hbuf]
  simp only
  rw [bind_ok haes, bind_ok hbufs]
  exact ⟨_, w₄, rfl⟩

/-- **The setup leaves the loops at the start of the body**, for a compressed image. -/
theorem SetupDone.cursorAt {m : StoredImage} (hc : m.head.Compressed) {r : CopyCtx × CopyState}
    (h : SetupDone m.env m.part m.head r) {w : World} (hhead : w.fotaPartHead = m.head)
    (hsource : ∀ a, m.part.Covers a → w.flash a = m.flash a) :
    r.1 = m.ctx ∧ CursorAt m .start r.2 w := by
  obtain ⟨cryptBuf, cmprsBuff, dcprsBuff, rfl, hlen, -, hbufs⟩ := h
  refine ⟨rfl, ⟨⟨⟨Nat.zero_le _, startIv_ok _, hlen⟩, by simp [CopyState.start,
    rtFotaBlockHeaderSize], hbufs.cmprs hc, Nat.le_refl _⟩, rfl, rfl, ?_, fun k hk => ?_,
    fun _ => rfl, rfl, fun h1 => ?_, fun h1 => ?_, hbufs.dcprs hc, rfl, hsource, hhead⟩⟩
  · show m.head.startIv = (m.chunks 0).1
    rw [m.chunks_zero]
  · cases hk
  · exact absurd h1 (by decide)
  · exact absurd h1 (by decide)

end Setup

end Mh1903
