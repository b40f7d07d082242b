/-
  File:      Mh1903/Copy/Sound.lean
  Subject:   SUCCESS OF AN UPGRADE. What `rt_fota_upgrade` reports as copied is the front of the
             reference decoding, for every image the loops can follow. A plain image whose
             `raw_size` lies behind its body, in its last chunk, is none: what lies behind the body
             is copied too.
-/
import Mh1903.Copy.Reassembly
import Mh1903.Copy.Refusal

namespace Mh1903

open Library

/-! ## 1. An uncompressed image -/

/-- `k` chunks of the body lie in the target. -/
structure PlainFollowing (m : StoredImage) (t : FalPartition) (k : Nat) (st : CopyState) (w : World) :
    Prop extends ReadReady m.part st where
  inv : CopyInv t.len st
  rawPos : st.fwRawPos = 4096 * k
  vector : st.aesIv = (m.chunks k).1
  total : st.totalCopySize = 4096 * k
  source : ∀ a, m.part.Covers a → w.flash a = m.flash a
  head : w.fotaPartHead = m.head
  there : readFlash w.flash t.base (4096 * k) = (m.chunks k).2

section Plain

variable {m : StoredImage} {t : FalPartition} {k : Nat} {st : CopyState} {w : World}

/-- **A pass of the loop** copies one more chunk. -/
theorem PlainFollowing.step (hc : m.head.cmprs = rtFotaCryptAlgoNone)
    (hrom : m.env.rom.Precise) (j : CopyJob m t) (h : PlainFollowing m t k st w)
    (hmain : 4096 * k < m.head.comSize) :
    Leads (copyStep m.env m.ctx st) w (fun st' w' => PlainFollowing m t (k + 1) st' w')
      fun _ _ => True := by
  have hr : ReadReady m.part st := h.toReadReady
  have hplain : m.ctx.partHead.cmprs = rtFotaCryptAlgoNone := hc
  have hin := j.inPart hmain
  have hfind : falPartitionFind m.env w.fotaPartHead.appPartName = some t := by
    rw [h.head]
    exact j.find
  have hkeep := (@copyStep_keepsAt m.env m.ctx t j.target st h.inv w hfind).leads
  have hcalm := w.read_calm m.env m.part st.fwRawPos st.aesIv
  obtain ⟨hyes, hno⟩ := @readChunk_eq st m.env m.ctx j.source hr w
  have hnext : st.next m.env w.flash m.part = m.nextChunk k := by
    unfold CopyState.next StoredImage.nextChunk
    rw [h.vector, h.rawPos, readFlash_body_congr j.source h.source hin]
  have hpass : Leads (copyStep m.env m.ctx st) w
      (fun st' w' => st' = { st.advance m.env w.flash m.part with
          totalCopySize := st.totalCopySize + 4096 } ∧
        Wrote m.env t st.totalCopySize (m.nextChunk k).2
          (w.read m.env m.part st.fwRawPos st.aesIv) w') fun _ _ => True := by
    unfold copyStep
    rw [if_neg (not_not.mpr hplain), leads_bind]
    by_cases hread : Readable m.env m.part st.fwRawPos st.aesIv w
    · refine leads_of_ok (hyes hread) ?_
      have hlen : (st.advance m.env w.flash m.part).cryptBuf.length = 4096 := hr.length_next _ _
      have htotal : (st.advance m.env w.flash m.part).totalCopySize ≤ t.len := h.inv.total
      have hfind₁ : falPartitionFind m.env
          (w.read m.env m.part st.fwRawPos st.aesIv).fotaPartHead.appPartName = some t := by
        rw [hcalm.head]
        exact hfind
      refine (writeOut_wrote j.rom j.target hlen.ge hlen htotal hfind₁).mono
        (fun st' w' hw' => ?_) fun _ _ _ => trivial
      obtain ⟨rfl, hwrote, -⟩ := hw'
      have hall : (st.advance m.env w.flash m.part).cryptBuf.take 4096 = (m.nextChunk k).2 := by
        rw [List.take_of_length_le hlen.le, ← hnext]
        rfl
      exact ⟨rfl, hall ▸ hwrote⟩
    · exact leads_of_error (hno hread) trivial
  refine (hkeep.and hpass).mono (fun st' w' hw' => ?_) fun _ _ _ => trivial
  obtain ⟨⟨hwithin, hinv⟩, rfl, hwrote⟩ := hw'
  have hfront := (m.chunks_length k).2
  have hchunk := m.nextChunk_length k
  have hready : ReadReady m.part (st.advance m.env w.flash m.part) := by
    have hpos := h.rawPos
    unfold StoredImage.InPart at hin
    exact hr.advance (by omega)
  have htotal : st.totalCopySize = (m.chunks k).2.length := h.total.trans hfront.symm
  have hthere : readFlash (w.read m.env m.part st.fwRawPos st.aesIv).flash t.base
      (m.chunks k).2.length = (m.chunks k).2 := by
    rw [hfront, World.read_flash]
    exact h.there
  rw [htotal] at hwrote
  have hthere := hwrote.there hrom j.target hthere
  rw [List.length_append, hfront, hchunk] at hthere
  refine ⟨⟨hready.pos, hready.iv, hready.len⟩, hinv, ?_, ?_, ?_, fun a ha => ?_, ?_, ?_⟩
  · show st.fwRawPos + 4096 = 4096 * (k + 1)
    rw [h.rawPos]
    rfl
  · show (st.next m.env w.flash m.part).1 = (m.chunks (k + 1)).1
    rw [hnext, m.chunks_succ]
  · show st.totalCopySize + 4096 = 4096 * (k + 1)
    rw [h.total]
    rfl
  · rw [hwrote.other a (j.apart a ha)]
    exact h.source a ha
  · exact hwithin.head.trans h.head
  · rw [m.chunks_succ]
    exact hthere

/-- **The whole loop**: the chunks of the body, and no other. -/
theorem PlainFollowing.loop (hc : m.head.cmprs = rtFotaCryptAlgoNone)
    (hrom : m.env.rom.Precise) (j : CopyJob m t) (fuel : Nat) (h : PlainFollowing m t k st w)
    (hk : 4096 * k < m.head.comSize + 4096) :
    Leads (copyLoop m.env m.ctx fuel st) w
      (fun st' w' => ∃ k', PlainFollowing m t k' st' w' ∧ 4096 * k' = chunksSize m.head.comSize)
      fun _ _ => True := by
  induction fuel generalizing k st w with
  | zero => exact leads_throw.mpr trivial
  | succ fuel ih =>
      have hpos := h.rawPos
      unfold copyLoop
      rw [leads_ite]
      refine ⟨fun hlt => ?_, fun hge => leads_pure.mpr ⟨k, h, ?_⟩⟩
      · have hmain : 4096 * k < m.head.comSize := hpos ▸ hlt
        rw [leads_bind]
        exact (h.step hc hrom j hmain).mono (fun _ _ h' => ih h' (by omega)) fun _ _ h => h
      · have hdone : ¬ 4096 * k < m.head.comSize := hpos ▸ hge
        simp only [chunksSize, rtFotaCrcBuffSize]
        omega

/-- **A plain copy that returns** has installed the front of the body, if that is long enough. -/
theorem PlainFollowing.copy (hc : m.head.cmprs = rtFotaCryptAlgoNone)
    (hrom : m.env.rom.Precise) (j : CopyJob m t)
    (hdec : m.head.rawSize ≤ m.body.length ∨ chunksSize m.head.comSize < m.head.rawSize)
    (h : PlainFollowing m t 0 st w) :
    Leads (upgradeCopy m.env m.ctx st) w (fun _ w' => Installed m t w') fun _ _ => True := by
  have hno : ¬ m.head.Compressed := fun h => h.ne_none hc
  have hplain : m.ctx.partHead.cmprs = rtFotaCryptAlgoNone := hc
  have hbody : m.reference = m.body := if_neg hno
  unfold upgradeCopy
  rw [leads_bind]
  refine (h.loop hc hrom j _ (by omega)).mono (fun st' w' hw' => ?_) fun _ _ h => h
  obtain ⟨k, h', hk⟩ := hw'
  have htotal := h'.total
  rw [if_neg (not_not.mpr hplain), pure_bind, leads_ite]
  refine ⟨fun _ => ?_, fun hge => leads_pure.mpr ?_⟩
  · rw [leads_bind]
    exact leads_throw.mpr trivial
  have hge : ¬ st'.totalCopySize < m.head.rawSize := hge
  have hraw : m.head.rawSize ≤ m.body.length := hdec.resolve_right (by omega)
  have hcom := comSize_le_chunksSize m.head.comSize
  have hfront := m.chunks_body (k := k) (by omega)
  have hfit : m.head.rawSize ≤ 4096 * k := by omega
  refine ⟨hbody ▸ hraw, ?_⟩
  rw [hbody, ← hfront, List.take_take, Nat.min_eq_left hraw, ← h'.there, take_readFlash hfit]

end Plain

/-! ## 2. Any other compression -/

section Unsupported

variable {env : Env} {c : CopyCtx}

theorem readChunk_cmprs (st : CopyState) :
    Returns (readChunk env c st) fun st' => st'.cmprsBuff = st.cmprsBuff :=
  returns_bind (returns_any _) fun _ _ =>
    returns_ite (fun _ => returns_throw_bind _) fun _ => returns_pure rfl

/-- Without a buffer for blocks the first fetch stops. -/
theorem fetchNewChunk_null {st : CopyState} (hnull : st.cmprsBuff = []) :
    Returns (fetchNewChunk env c st) fun _ => False := by
  refine returns_bind (readChunk_cmprs st) fun st₁ h₁ => ?_
  refine returns_bind (returns_any _) fun hdr _ => ?_
  refine returns_bind (P := fun _ => False) ?_ fun _ h => h.elim
  refine returns_bind (store_returns _ _ _) fun buf hbuf => ?_
  have hlen := hbuf.2
  rw [List.length_replicate] at hlen
  have hzero : st₁.cmprsBuff.length = 0 := by rw [h₁, hnull]; rfl
  have hbig : 4096 ≤ rtFotaCmprsBufferSize + c.paddingSize := Nat.le_add_right _ _
  exact absurd hlen (by show ¬ 0 + _ ≤ st₁.cmprsBuff.length; omega)

/-- So no copy returns. -/
theorem upgradeCopy_unsupported
    (hne : c.partHead.cmprs ≠ rtFotaCryptAlgoNone) (hraw : 1 ≤ c.partHead.rawSize)
    (aesIv : Option (List Byte)) (cryptBuf dcprsBuff : List Byte) (w : World) :
    Leads (upgradeCopy env c (.start env aesIv cryptBuf [] dcprsBuff)) w (fun _ _ => False)
      fun _ _ => True := by
  have hpass : Returns (copyStep env c (.start env aesIv cryptBuf [] dcprsBuff))
      fun _ => False := by
    refine returns_ite (fun _ => ?_) fun hc => absurd hne hc
    refine returns_bind (P := fun _ => False) ?_ fun _ h => h.elim
    exact returns_ite (fun _ => fetchNewChunk_null rfl) fun hin => absurd (Nat.le_refl _) hin
  have hmain : ∀ fuel, Leads (copyLoop env c fuel (.start env aesIv cryptBuf [] dcprsBuff)) w
      (fun st' _ => st' = .start env aesIv cryptBuf [] dcprsBuff) fun _ _ => True := by
    intro fuel
    cases fuel with
    | zero => exact leads_throw.mpr trivial
    | succ fuel =>
        unfold copyLoop
        rw [leads_ite]
        refine ⟨fun _ => ?_, fun _ => leads_pure.mpr rfl⟩
        rw [leads_bind]
        exact (hpass.leads w).mono (fun _ _ h => h.elim) fun _ _ h => h
  unfold upgradeCopy
  rw [leads_bind]
  refine (hmain _).mono (fun st' w' hst => ?_) fun _ _ h => h
  subst hst
  have htail : tailLoop env c (1025 + 1) (.start env aesIv cryptBuf [] dcprsBuff) w' = .ok 0 w' := by
    have hnone : tailStep env c (.start env aesIv cryptBuf [] dcprsBuff) w' = .ok none w' :=
      congrFun (if_neg fun h => absurd (show (4096 : Nat) < 0 from h.1) (by decide)) w'
    exact (congrFun (if_pos hraw) w').trans (bind_ok hnone)
  rw [if_pos hne, leads_bind]
  refine leads_of_ok htail ?_
  rw [leads_ite]
  refine ⟨fun _ => ?_, fun hge => absurd hraw hge⟩
  rw [leads_bind]
  exact leads_throw.mpr trivial

end Unsupported

/-! ## 3. The whole upgrade -/

section Upgrade

variable {env : Env} {part t : FalPartition} {w w' : World}

/-- Behind the setup the loops start to follow, and a copy that returns has installed. -/
theorem SetupDone.installs {m : StoredImage} (hprecise : m.env.rom.Precise) (j : CopyJob m t)
    (hraw : 1 ≤ m.head.rawSize) (hdec : m.Decodable t.len) {r : CopyCtx × CopyState}
    (h : SetupDone m.env m.part m.head r) (hinv : CopyInv t.len r.2)
    (hhead : w.fotaPartHead = m.head) (hsource : ∀ a, m.part.Covers a → w.flash a = m.flash a) :
    Leads (upgradeCopy m.env r.1 r.2) w (fun _ w' => Installed m t w') fun _ _ => True := by
  by_cases hc : m.head.Compressed
  · obtain ⟨hctx, hat⟩ := h.cursorAt hc hhead hsource
    obtain ⟨cryptBuf, cmprsBuff, dcprsBuff, rfl, -, -, hbufs⟩ := h
    have hfollow : Following m t .start
        (.start m.env m.head.startIv cryptBuf cmprsBuff dcprsBuff) w :=
      ⟨hat, hinv, Cursor.Upright.start, .start, hraw, rfl⟩
    exact hfollow.copy hc hprecise j hdec
  · obtain ⟨cryptBuf, cmprsBuff, dcprsBuff, rfl, hbuf, -, hbufs⟩ := h
    by_cases hplain : m.head.cmprs = rtFotaCryptAlgoNone
    · have hfollow : PlainFollowing m t 0
          (.start m.env m.head.startIv cryptBuf cmprsBuff dcprsBuff) w := by
        refine ⟨⟨Nat.zero_le _, startIv_ok _, hbuf⟩, hinv, rfl, ?_, rfl, hsource, hhead, ?_⟩
        · rw [m.chunks_zero]
          rfl
        · rw [m.chunks_zero]
          rfl
      exact hfollow.copy hplain hprecise j (hdec.plain hplain)
    · rw [hbufs.none hc]
      exact (upgradeCopy_unsupported hplain hraw _ _ _ w).mono (fun _ _ h => h.elim) fun _ _ h => h

/-- **Success of an upgrade is sound** for every image the loops can follow: the first `raw_size`
    bytes of the reference decoding lie in the target. Of an uncompressed image they do exactly if
    its body has that many. -/
theorem upgrade_sound (henv : env.OnBoard) (hrom : env.rom.Confined) (hprecise : env.rom.Precise)
    (hpart : part ∈ falPartTable) {w₀ : World}
    (hverify : rtFotaPartFwVerify env (some part.name) w₀ = .ok rtFotaNoErr w)
    (ht : falPartitionFind env w.fotaPartHead.appPartName = some t) (hne : t ≠ part)
    (hrun : rtFotaUpgrade env (some part.name) w = .ok rtFotaNoErr w') :
    ((StoredImage.mk env w.flash part w.fotaPartHead).Decodable t.len →
      Installed ⟨env, w.flash, part, w.fotaPartHead⟩ t w') ∧
    (w.fotaPartHead.cmprs = rtFotaCryptAlgoNone →
      (Installed ⟨env, w.flash, part, w.fotaPartHead⟩ t w' ↔
        w.fotaPartHead.rawSize ≤
          (StoredImage.mk env w.flash part w.fotaPartHead).body.length)) := by
  have hp := falPartTable_ok part hpart
  have hfind := henv.find_name hpart
  have hbind : (some part.name).bind (falPartitionFind env) = some part := hfind
  have hmt := falPartitionFind_mem henv ht
  have htok := falPartTable_ok t hmt
  obtain ⟨hflash₀, hhead₀, -, hfit⟩ := rtFotaPartFwVerify_accepts hp hfind hverify
  rw [← hhead₀] at hfit
  have j : CopyJob ⟨env, w.flash, part, w.fotaPartHead⟩ t := ⟨hrom, hp, htok, ht,
    fun a ha => falPartTable_disjoint hpart hmt hne.symm ha, hfit⟩
  obtain ⟨w₁, herase⟩ := rtFotaUpgrade_erase_ok hbind ht hrun (by decide)
  obtain ⟨h1, hlen, hhead, hflash⟩ := rtFotaEraseAppPart_sound hrom htok ht herase
  obtain ⟨r, w₂, hsetup, hcopy⟩ := rtFotaUpgrade_ok hrun
  obtain ⟨hdone, hcalm⟩ := (upgradeSetup_leads hbind herase).ok hsetup
  rw [hhead] at hdone
  have hsource : ∀ a, part.Covers a → w₂.flash a = w.flash a := by
    intro a ha
    rw [hcalm.flash, hflash, j.erase_apart hlen ha]
  have hinv := ((upgradeSetup_keepsAt htok ht (some part.name)).ok hsetup).2
  have hsound : (StoredImage.mk env w.flash part w.fotaPartHead).Decodable t.len →
      Installed ⟨env, w.flash, part, w.fotaPartHead⟩ t w' := fun hdec =>
    (hdone.installs (w := w₂) hprecise j h1 hdec hinv (hcalm.head.trans hhead) hsource).ok hcopy
  refine ⟨hsound, fun hplain => ?_⟩
  have hno : ¬ w.fotaPartHead.Compressed := fun hc => hc.ne_none hplain
  refine ⟨fun h => ?_, fun hbody => hsound ⟨fun _ => .inl hbody, fun hc => absurd hc hno⟩⟩
  have hlength := h.length
  rwa [show (StoredImage.mk env w.flash part w.fotaPartHead).reference = _ from if_neg hno]
    at hlength

end Upgrade

/-- The body of a plain image of one byte is one byte long. -/
theorem oneByte_body {f : HeadFields} {part : FalPartition} {w : World}
    (hhead : w.fotaPartHead = packHead f) (hcrypt : (packHead f).startIv = none)
    (hcom : f.comSize = 1) :
    (StoredImage.mk Env.board w.flash part w.fotaPartHead).body.length = 1 := by
  have hlen := (@decodedBody_length Env.board w.flash part _ (startIv_ok w.fotaPartHead)
    w.fotaPartHead.comSize (.inl (hhead ▸ hcrypt))).2
  rw [StoredImage.body, hlen, hhead, packHead_comSize, hcom]
  rfl

/-- A plain image of one byte, and one of two compressed blocks, from the download to the application
    partition. -/
theorem upgrade_sound_board :
    (∃ w w', rtFotaPartFwVerify Env.board (some downloadPart.name)
        (.powerOn (imageAt downloadPart oneByteImage [0] fun _ => 0xff)) = .ok rtFotaNoErr w ∧
      rtFotaUpgrade Env.board (some downloadPart.name) w = .ok rtFotaNoErr w' ∧
      Installed ⟨Env.board, w.flash, downloadPart, w.fotaPartHead⟩ appPart w') ∧
    ∃ w w', rtFotaPartFwVerify Env.twoBlocks (some downloadPart.name)
        (.powerOn (imageAt downloadPart (cutImage 4089) (cutBody 4089) fun _ => 0xff)) =
          .ok rtFotaNoErr w ∧
      rtFotaUpgrade Env.twoBlocks (some downloadPart.name) w = .ok rtFotaNoErr w' ∧
      (StoredImage.mk Env.twoBlocks w.flash downloadPart w.fotaPartHead).reference =
        firstBlock ++ [0x22] ∧
      Installed ⟨Env.twoBlocks, w.flash, downloadPart, w.fotaPartHead⟩ appPart w' := by
  constructor
  · obtain ⟨w, w', hverify, -, hhead, hrun, -⟩ := @oneByte_upgrades oneByteImage rfl rfl (by decide)
      (by decide) (by decide) (by decide +kernel) (by decide +kernel)
    refine ⟨w, w', hverify, hrun, ?_⟩
    have hcmprs : w.fotaPartHead.cmprs = rtFotaCryptAlgoNone := by
      rw [hhead]
      decide +kernel
    refine ((upgrade_sound Env.board_onBoard Env.board_confined norRom_precise (by decide) hverify
      (by rw [hhead]; decide) (by decide) hrun).2 hcmprs).mpr ?_
    have hbody := @oneByte_body oneByteImage downloadPart w hhead (by decide +kernel) rfl
    have hraw : w.fotaPartHead.rawSize = 1 := by
      rw [hhead, packHead_rawSize]
      rfl
    rw [hraw, hbody]
  · obtain ⟨w, w', hverify, hfind, j, hcom, -, hrun⟩ := cutImage_upgrades
    refine ⟨w, w', hverify, hrun, j.reference, ?_⟩
    refine (upgrade_sound Env.twoBlocks_onBoard norRom_confined norRom_precise (by decide) hverify
      hfind (by decide) hrun).1 (j.decodable ?_ _)
    rw [show (StoredImage.mk _ _ _ w.fotaPartHead).head.comSize = 4098 from hcom]
    exact cutImage_seams

/-- One byte, and a raw size of two. -/
def shortImage : HeadFields := { oneByteImage with rawSize := 2 }

/-- **A byte behind the body is copied too**: the upgrade of that image succeeds. -/
theorem upgrade_installs_behind_body :
    ¬ ∀ (env : Env) (part t : FalPartition) (w₀ w w' : World), env.OnBoard → env.rom.Confined →
      env.rom.Precise → part ∈ falPartTable →
      rtFotaPartFwVerify env (some part.name) w₀ = .ok rtFotaNoErr w →
      falPartitionFind env w.fotaPartHead.appPartName = some t → t ≠ part →
      rtFotaUpgrade env (some part.name) w = .ok rtFotaNoErr w' →
      Installed ⟨env, w.flash, part, w.fotaPartHead⟩ t w' := by
  intro h
  obtain ⟨w, w', hverify, -, hhead, hrun, -⟩ := @oneByte_upgrades shortImage rfl rfl (by decide)
    (by decide) (by decide) (by decide +kernel) (by decide +kernel)
  have hinstalled := h Env.board downloadPart appPart _ w w' Env.board_onBoard Env.board_confined
    norRom_precise (by decide) hverify (by rw [hhead]; decide) (by decide) hrun
  have hlength := hinstalled.length
  have hno : ¬ w.fotaPartHead.Compressed := by
    rw [hhead]
    decide +kernel
  rw [show (StoredImage.mk _ _ _ _).reference = _ from if_neg hno,
    oneByte_body hhead (by decide +kernel) rfl] at hlength
  revert hlength
  show ¬ w.fotaPartHead.rawSize ≤ 1
  rw [hhead, packHead_rawSize]
  decide

end Mh1903
