/-
  File:      Mh1903/Boot/Survival.lean
  Subject:   AN UPGRADE OF THE APPLICATION SURVIVES POWER LOSS, if its version ends in its field or no
             torn copy of its image is accepted. Without either it does not: every torn copy is what
             some cut boot leaves, and one that collides with the checksum of the body is installed
             by the next.
-/
import Mh1903.Boot.Power
import Mh1903.Verify.Checksum

namespace Mh1903

open Library RtFotaPartHead

/-! ## 1. Boots that are cut in a copy -/

section Cut

variable {env : Env} {f : Flash} {w₁ w₂ : World}

/-- **Every torn copy is reached.** A boot that verifies, upgrades, and loses its power behind `k`
    pages of the header's sector leaves the torn copy of `k` pages. -/
theorem bootedTo_tornCopy (henv : env.OnBoard) (hgood : env.Good)
    (hverify : rtFotaPartFwVerify env (some rtFotaFmPartName) (.powerOn f) = .ok rtFotaNoErr w₁)
    (hnew : rtStrcmp (w₁.fotaPartHead.downloadVersion ++ env.afterHead)
      (w₁.fotaPartHead.currentVersion ++ env.afterHead) ≠ 0)
    (hupgrade : rtFotaUpgrade env (some rtFotaFmPartName) w₁ = .ok rtFotaNoErr w₂)
    (hmem : env.mallocOk w₂.allocs = true) {k : Nat} (hk : k < 16) :
    BootedTo env f (tornCopy downloadPart w₂.flash k) := by
  -- power for the upgrade, the erase of the sector and `k` pages
  let p : Nat → Bool := fun n => decide (n < w₂.ops.length + (k + 1))
  have hverify' : rtFotaPartFwVerify (env.cut p) (some rtFotaFmPartName) (.powerOn f) =
      .ok rtFotaNoErr w₁ := hverify
  have hupgrade' : rtFotaUpgrade (env.cut p) (some rtFotaFmPartName) w₁ = .ok rtFotaNoErr w₂ := by
    refine ((rtFotaUpgrade_cuts hgood.powered (some rtFotaFmPartName)).lasts fun n _ hn => ?_).trans
      hupgrade
    rw [final_of_ok hupgrade] at hn
    exact decide_eq_true (Nat.lt_of_lt_of_le hn (Nat.le_add_right _ _))
  have hcopy := @rtFotaCopyVersion_pages env p hgood rtFotaFmPartName downloadPart downloadPart_ok
    henv.find_download (by decide) w₂
  refine ⟨p, ?_⟩
  have hrun : bootToLaunch (env.cut p) (.powerOn f) = _ :=
    (bootToLaunch_powerOn (env.cut p) f).trans ((downloadEntry_new hverify' hnew).trans
      ((bind_ok hupgrade').trans (congrFun (if_neg (not_not.mpr rfl)) w₂)))
  cases hend : rtFotaCopyVersion (env.cut p) rtFotaFmPartName w₂ with
  | ok ret w' =>
      rcases hcopy.ok hend with ⟨hno, -⟩ | ⟨hlasts, -⟩
      · rw [hmem] at hno
        cases hno
      · have := of_decide_eq_true (hlasts (k + 1) (by omega))
        omega
  | error e w' =>
      rw [bind_error hend] at hrun
      rw [final_of_error hrun]
      rcases (hcopy.error hend).2 with ⟨hfails, -⟩ | ⟨j, hj, ⟨hlasts, hfails⟩, hflash⟩
      · exact absurd (decide_eq_true (show w₂.ops.length + 0 < w₂.ops.length + (k + 1) by omega))
          hfails.2
      · have hle : j ≤ k := by
          have := of_decide_eq_true (hlasts j (Nat.lt_succ_self j))
          omega
        have hge : k ≤ j := by
          by_contra hlt
          exact hfails (decide_eq_true (by omega))
        rw [hflash, Nat.le_antisymm hle hge]

end Cut

/-! ## 2. An image that collides with its torn copy -/

/-- A difference the register does not see leaves the checksum. -/
theorem rtFotaCrc_flip (front : List Byte) {xs ys ds : List Byte}
    (hbits : bitsOf ys = List.zipWith xor (bitsOf xs) (bitsOf ds)) (hlen : xs.length = ds.length)
    (hds : feed polynomial.reverse 0#32 (bitsOf ds) = 0#32) :
    rtFotaCrc (front ++ ys) = rtFotaCrc (front ++ xs) := by
  have hbitsLen : (bitsOf xs).length = (bitsOf ds).length := by
    rw [length_bitsOf, length_bitsOf, hlen]
  rw [rtFotaCrc_eq, rtFotaCrc_eq]
  unfold crc32Bitwise
  rw [bitsOf_append, bitsOf_append, feed_append, feed_append, hbits, feed_flip _ hbitsLen hds]

/-- What fills the first page behind the header. -/
def firstPage : List Byte := List.replicate 160 0

/-- It, and five bytes in the second page. -/
def collidingBody : List Byte := firstPage ++ [0xbe, 0xf9, 0x8e, 0x24, 0xfe]

/-- It, and the five bytes erased. -/
def tornBody : List Byte := firstPage ++ [0xff, 0xff, 0xff, 0xff, 0xff]

theorem length_firstPage : firstPage.length = 160 := List.length_replicate

theorem length_collidingBody : collidingBody.length = 165 := by
  rw [collidingBody, List.length_append, length_firstPage]
  rfl

theorem length_tornBody : tornBody.length = 165 := by
  rw [tornBody, List.length_append, length_firstPage]
  rfl

/-- The two differ in the polynomial. -/
theorem rtFotaCrc_collidingBody : rtFotaCrc collidingBody = rtFotaCrc tornBody :=
  @rtFotaCrc_flip firstPage _ _ [0x41, 0x06, 0x71, 0xdb, 0x01] (by decide) rfl (by decide +kernel)

/-- Its version never ends, so it stays due. -/
def collidingImage : HeadFields :=
  { oneByteImage with
    downloadVersion := endlessVersion
    codeCrc := rtFotaCrc collidingBody
    rawSize := 165
    comSize := 165 }

/-- The flash with this image in the download partition. -/
def collidingFlash : Flash := imageAt downloadPart collidingImage collidingBody fun _ => 0xff

theorem collidingImage_comSize : (packHead collidingImage).comSize = 165 :=
  packHead_comSize collidingImage

theorem collidingImage_rawSize : (packHead collidingImage).rawSize = 165 :=
  packHead_rawSize collidingImage

theorem headAt_collidingFlash : headAt collidingFlash downloadPart = packHead collidingImage :=
  headAt_imageAt downloadPart_ok (by rw [length_collidingBody]; decide)

theorem collidingImage_accepted :
    Accepted Env.board collidingFlash rtFotaFmPartName downloadPart (packHead collidingImage) := by
  have hvalid : ValidImage Env.board collidingFlash downloadPart :=
    validImage_imageAt downloadPart_ok (by rw [length_collidingBody]; decide)
      length_collidingBody.symm rfl (by decide)
  rw [← headAt_collidingFlash]
  refine (accepted_iff downloadPart_ok Env.board_onBoard.find_download).mpr ⟨hvalid, ?_⟩
  rw [headAt_collidingFlash, collidingImage_comSize]
  decide

theorem collidingImage_unsealed : UnsealedImage Env.board collidingFlash downloadPart := by
  have hacc := collidingImage_accepted
  rw [← headAt_collidingFlash] at hacc
  obtain ⟨hvalid, hfit⟩ :=
    (accepted_iff downloadPart_ok Env.board_onBoard.find_download).mp hacc
  exact hvalid.unsealed hfit

/-- Its copy torn behind one page holds `tornBody`. -/
theorem readFlash_tornCopy : readFlash (tornCopy downloadPart collidingFlash 1)
    (downloadPart.bodyAddr 0) 165 = tornBody := by
  rw [← length_tornBody]
  refine readFlash_eq (by rw [length_tornBody]; decide) fun i hi => ?_
  rw [length_tornBody] at hi
  show tornCopy downloadPart collidingFlash 1 (downloadPart.base + 96 + i) = _
  rw [Nat.add_assoc, tornCopy_at (by decide) (by omega)]
  have hfront := length_firstPage
  by_cases hpage : i < 160
  · have hbody : collidingFlash (downloadPart.bodyAddr i) = collidingBody.getD i 0 :=
      imageAt_body (hi.trans_eq length_collidingBody.symm)
    rw [if_pos (by omega), List.getD_eq_getElem?_getD,
      copyVersionEdit_other (.inr (by omega)) (.inr (by omega)), ← List.getD_eq_getElem?_getD,
      readFlash_getD (by decide) (by omega), ← Nat.add_assoc]
    refine hbody.trans ?_
    unfold collidingBody tornBody
    rw [List.getD_eq_getElem?_getD, List.getD_eq_getElem?_getD,
      List.getElem?_append_left (by omega), List.getElem?_append_left (by omega)]
  · obtain ⟨j, rfl⟩ := Nat.exists_eq_add_of_le (Nat.le_of_not_lt hpage)
    rw [if_neg (by omega)]
    unfold tornBody
    rw [List.getD_eq_getElem?_getD, List.getElem?_append_right (by omega), hfront,
      Nat.add_sub_cancel_left]
    have hff : ∀ j < 5, (0xff : Byte) = ([0xff, 0xff, 0xff, 0xff, 0xff] : List Byte)[j]?.getD 0 := by
      decide
    exact hff j (by omega)

/-- What a boot that is cut behind one page leaves of the colliding image is accepted. -/
theorem torn_accepted {g : Flash}
    (hsame : downloadPart.SameIn (tornCopy downloadPart collidingFlash 1) g) :
    Accepted Env.board g rtFotaFmPartName downloadPart (packHead collidingImage).copied := by
  have hhead : headAt (tornCopy downloadPart collidingFlash 1) downloadPart =
      (headAt collidingFlash downloadPart).copied :=
    tornCopy_header downloadPart_ok (Nat.le_refl _) (by decide)
  refine hsame.accepted downloadPart_ok ?_
  have hacc := collidingImage_unsealed.accepted Env.board_onBoard downloadPart_ok hhead (by
    rw [headAt_collidingFlash, collidingImage_comSize, readFlash_tornCopy,
      ← rtFotaCrc_collidingBody, ← length_collidingBody]
    refine congrArg rtFotaCrc (readFlash_body_imageAt downloadPart_ok ?_).symm
    rw [length_collidingBody]
    decide) Env.board_onBoard.find_download
  rw [hhead, headAt_collidingFlash] at hacc
  exact hacc

theorem collidingImage_target :
    falPartitionFind Env.board (packHead collidingImage).appPartName = some appPart := by decide

theorem collidingImage_newer :
    rtStrcmp ((packHead collidingImage).downloadVersion ++ Env.board.afterHead)
      ((packHead collidingImage).currentVersion ++ Env.board.afterHead) ≠ 0 := by decide +kernel

/-- It is due behind its copied header, too. -/
theorem collidingImage_copied_newer :
    rtStrcmp ((packHead collidingImage).copied.downloadVersion ++ Env.board.afterHead)
      ((packHead collidingImage).copied.currentVersion ++ Env.board.afterHead) ≠ 0 := by
  intro heq
  have hterm := (copied_strcmp_iff _ (by rw [collidingImage_comSize]; decide) _).mp heq
  revert hterm
  decide

theorem collidingImage_plainJob :
    PlainJob Env.board downloadPart appPart (packHead collidingImage) ∧
      (packHead collidingImage).startIv = none ∧ sectors (packHead collidingImage).rawSize = 1 := by
  have hraw := collidingImage_rawSize
  have hcom := collidingImage_comSize
  exact board_plainJob collidingImage_target (by decide +kernel) (by decide +kernel) (by omega)
    (by omega) (by omega) (by omega)

theorem collidingImage_copied_plainJob :
    PlainJob Env.board downloadPart appPart (packHead collidingImage).copied ∧
      (packHead collidingImage).copied.startIv = none ∧
      sectors (packHead collidingImage).copied.rawSize = 1 := by
  have hraw := (copied_rawSize (packHead collidingImage)).trans collidingImage_rawSize
  have hcom := (copied_comSize (packHead collidingImage)).trans collidingImage_comSize
  exact board_plainJob ((copied_target _ Env.board_onBoard).trans collidingImage_target)
    (by decide +kernel) (by decide +kernel) (by omega) (by omega) (by omega) (by omega)

/-- On the board an accepted image of up to one sector is installed as it is. -/
theorem board_upgrade {f : Flash} {h : RtFotaPartHead}
    (hacc : Accepted Env.board f rtFotaFmPartName downloadPart h)
    (j : PlainJob Env.board downloadPart appPart h) (hiv : h.startIv = none)
    (hsectors : sectors h.rawSize = 1) :
    ∃ w₁ w₂, rtFotaPartFwVerify Env.board (some rtFotaFmPartName) (.powerOn f) =
        .ok rtFotaNoErr w₁ ∧ w₁.fotaPartHead = h ∧
      rtFotaUpgrade Env.board (some rtFotaFmPartName) w₁ = .ok rtFotaNoErr w₂ ∧
      downloadPart.SameIn f w₂.flash ∧
      ∀ i < 4096, w₂.flash (appPart.base + i) = f (u32 (downloadPart.bodyAddr 0 + i)) := by
  obtain ⟨w₁, hverify, hflash, -, hhead, -⟩ := Accepted.verify (w := .powerOn f) hacc rfl
  have hflash : w₁.flash = f := hflash
  obtain ⟨w₂, hupgrade, happ⟩ := j.upgrade_bytes hiv Env.board_onBoard.find_download hhead
  have hne : falPartitionFind Env.board w₁.fotaPartHead.appPartName ≠ some downloadPart := by
    rw [hhead, j.find]
    decide
  refine ⟨w₁, w₂, hverify, hhead, hupgrade, fun a ha => ?_, fun i hi => ?_⟩
  · rw [upgrade_keeps_download Env.board_onBoard Env.board_confined hne hupgrade a ha, hflash]
  · rw [happ i (by rw [hsectors]; exact hi), hflash]

/-- And a boot comes to the launch with it. -/
theorem board_boot {f : Flash} {h : RtFotaPartHead}
    (hacc : Accepted Env.board f rtFotaFmPartName downloadPart h)
    (hnew : rtStrcmp (h.downloadVersion ++ Env.board.afterHead)
      (h.currentVersion ++ Env.board.afterHead) ≠ 0)
    (j : PlainJob Env.board downloadPart appPart h) (hiv : h.startIv = none)
    (hsectors : sectors h.rawSize = 1) :
    ∃ run w', bootToLaunch Env.board (.powerOn f) = .ok run w' ∧
      ∀ i < 4096, w'.flash (appPart.base + i) = f (u32 (downloadPart.bodyAddr 0 + i)) := by
  obtain ⟨w₁, w₂, hverify, hhead, hupgrade, -, happ⟩ := board_upgrade hacc j hiv hsectors
  obtain ⟨w₃, hcopy⟩ := rtFotaCopyVersion_good Env.board_good downloadPart_ok
    Env.board_onBoard.find_download (by decide) (w := w₂) rfl
  obtain ⟨-, -, hrest⟩ := rtFotaCopyVersion_sound Env.board_onBoard.tableOk Env.board_confined
    Env.board_onBoard.find_download hcopy
  rw [← hhead] at hnew
  refine ⟨⟨rtFotaNoErr, some rtFotaNoErr, some rtFotaNoErr⟩, w₃, ?_, fun i hi => ?_⟩
  · rw [bootToLaunch_powerOn, downloadEntry_new hverify hnew, bind_ok hupgrade,
      if_neg (not_not.mpr rfl), bind_ok hcopy]
    rfl
  · have hout : ¬ downloadPart.FirstSector (appPart.base + i) := by
      have hapart : appPart.base + 4096 ≤ downloadPart.base := by decide
      rintro ⟨hge, -⟩
      omega
    rw [hrest _ hout, happ i hi]

/-! ## 3. What survives -/

/-- **An upgrade of the application survives power loss** if its version ends in its field or no torn
    copy of its image is accepted but the whole one, on a flash that does what it is told and with
    the same allocation outcomes and memory in every boot: after any boots, each cut in front of any
    flash operation or not, a boot comes to the launch with the application of the uncut upgrade, or
    it is cut itself. -/
theorem upgrade_survives_power_loss {env : Env} (henv : env.OnBoard) (hgood : env.Good)
    {f g : Flash} {w₁ w₂ : World}
    (hverify : rtFotaPartFwVerify env (some rtFotaFmPartName) (.powerOn f) = .ok rtFotaNoErr w₁)
    (hcheck : rtFotaCheckUpgrade env w₁ = .ok 1 w₁)
    (hfind : falPartitionFind env w₁.fotaPartHead.appPartName = some appPart)
    (hupgrade : rtFotaUpgrade env (some rtFotaFmPartName) w₁ = .ok rtFotaNoErr w₂)
    (hmend : Mendable env f) (hboots : Boots env f g) (p : Nat → Bool) :
    Leads (bootToLaunch (env.cut p)) (.powerOn g)
      (fun _ w' => readFlash w'.flash appPart.base w₁.fotaPartHead.rawSize =
        readFlash w₂.flash appPart.base w₁.fotaPartHead.rawSize)
      (PowerFailed p) := by
  obtain ⟨hhead, hinst⟩ :=
    installs_of_run henv hgood hverify hcheck hfind (by decide) hupgrade hmend
  rw [hhead]
  exact hinst.delivers hboots p

/-- The image of one byte, after any boots. -/
theorem upgrade_survives_power_loss_board :
    ∃ w₁ w₂, rtFotaPartFwVerify Env.board (some rtFotaFmPartName)
        (.powerOn (imageAt downloadPart oneByteImage [0] fun _ => 0xff)) = .ok rtFotaNoErr w₁ ∧
      rtFotaUpgrade Env.board (some rtFotaFmPartName) w₁ = .ok rtFotaNoErr w₂ ∧
      ∀ g, Boots Env.board (imageAt downloadPart oneByteImage [0] fun _ => 0xff) g → ∀ p,
        Leads (bootToLaunch (Env.board.cut p)) (.powerOn g)
          (fun _ w' => readFlash w'.flash appPart.base w₁.fotaPartHead.rawSize =
            readFlash w₂.flash appPart.base w₁.fotaPartHead.rawSize)
          (PowerFailed p) := by
  obtain ⟨w₁, w₂, hverify, hcheck, hfind, hupgrade, hmend⟩ := oneByteImage_due
  exact ⟨w₁, w₂, hverify, hupgrade, fun g hboots p => upgrade_survives_power_loss
    Env.board_onBoard Env.board_good hverify hcheck hfind hupgrade hmend hboots p⟩

/-- **A torn image is installed.** The boot of the colliding image is cut behind the first page of the
    header's sector; the next one accepts what is left and installs five bytes 0xff. -/
theorem torn_image_installed :
    ¬ ∀ (env : Env) (f g : Flash) (w₁ w₂ : World) (p : Nat → Bool), env.OnBoard → env.Good →
      (∀ n, env.mallocOk n = true) →
      rtFotaPartFwVerify env (some rtFotaFmPartName) (.powerOn f) = .ok rtFotaNoErr w₁ →
      rtFotaCheckUpgrade env w₁ = .ok 1 w₁ →
      falPartitionFind env w₁.fotaPartHead.appPartName = some appPart →
      rtFotaUpgrade env (some rtFotaFmPartName) w₁ = .ok rtFotaNoErr w₂ → Boots env f g →
      Leads (bootToLaunch (env.cut p)) (.powerOn g)
        (fun _ w' => readFlash w'.flash appPart.base w₁.fotaPartHead.rawSize =
          readFlash w₂.flash appPart.base w₁.fotaPartHead.rawSize)
        (PowerFailed p) := by
  intro hclaim
  -- an uncut boot
  obtain ⟨j, hiv, hsectors⟩ := collidingImage_plainJob
  obtain ⟨w₁, w₂, hverify, hhead, hupgrade, hkept, happ⟩ :=
    board_upgrade collidingImage_accepted j hiv hsectors
  have hcheck : rtFotaCheckUpgrade Env.board w₁ = .ok 1 w₁ := by
    rw [rtFotaCheckUpgrade_eq, hhead, if_neg collidingImage_newer]
  have hfind : falPartitionFind Env.board w₁.fotaPartHead.appPartName = some appPart := by
    rw [hhead]
    exact collidingImage_target
  -- one that is cut behind the first page, and the next
  have hcut : BootedTo Env.board collidingFlash (tornCopy downloadPart w₂.flash 1) :=
    bootedTo_tornCopy Env.board_onBoard Env.board_good hverify
      (by rw [hhead]; exact collidingImage_newer) hupgrade rfl (by decide)
  have hsame := hkept.tornCopy downloadPart_ok (by decide) (k := 1) (by decide)
  obtain ⟨j', hiv', hsectors'⟩ := collidingImage_copied_plainJob
  obtain ⟨run, w', hrun, happ'⟩ :=
    board_boot (torn_accepted hsame) collidingImage_copied_newer j' hiv' hsectors'
  have hread := (hclaim Env.board collidingFlash _ w₁ w₂ (fun _ => true) Env.board_onBoard
    Env.board_good (fun _ => rfl) hverify hcheck hfind hupgrade (.single hcut)).ok hrun
  -- the first byte behind the page
  rw [hhead, collidingImage_rawSize] at hread
  have hbyte : w'.flash (appPart.base + 160) = w₂.flash (appPart.base + 160) := by
    rw [← @readFlash_getD w'.flash appPart.base 165 160 (by decide) (by decide), hread,
      readFlash_getD (by decide) (by decide)]
  have haddr : u32 (downloadPart.bodyAddr 0 + 160) = downloadPart.base + 256 := u32_eq (by decide)
  have htorn : w'.flash (appPart.base + 160) = 0xff := by
    rw [happ' 160 (by decide), haddr, tornCopy_at (by decide) (by decide), if_neg (by decide)]
  have hthere : w₂.flash (appPart.base + 160) = 0xbe := by
    have hbody : collidingFlash (downloadPart.base + 256) = collidingBody.getD 160 0 :=
      @imageAt_body _ _ _ _ 160 (by rw [length_collidingBody]; decide)
    rw [happ 160 (by decide), haddr, hbody, collidingBody, List.getD_eq_getElem?_getD,
      List.getElem?_append_right (Nat.le_of_eq length_firstPage), length_firstPage]
    rfl
  rw [htorn, hthere] at hbyte
  revert hbyte
  decide

end Mh1903
