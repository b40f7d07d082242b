/-
  File:      Mh1903/Copy/Spared.lean
  Subject:   WHAT AN UPGRADE CHANGES AND WHAT IT SPARES. Every operation lies in the partition the
             header names, so source and boot partition survive an upgrade that names neither. But
             nothing compares the named partition with them: an accepted image may name its own,
             which is erased while it is read.
-/
import Mh1903.Copy.Plain

namespace Mh1903

open Library

/-! ## 1. The target only -/

section Target

variable {env : Env}

/-- **Every flash operation of `rt_fota_upgrade`, and on a confined ROM every changed byte, lies in
    the partition the header names**, wherever the run ends: done, failed or cut. -/
theorem upgrade_changes_target_only (henv : env.OnBoard) (hrom : env.rom.Confined)
    (partName : Option (List Byte)) (w : World) :
    (∀ a, (final (rtFotaUpgrade env partName) w).flash a ≠ w.flash a →
      Target env w.fotaPartHead a) ∧
    ∃ new, (final (rtFotaUpgrade env partName) w).ops = new ++ w.ops ∧
      ∀ op ∈ new, ∀ a, op.area a → Target env w.fotaPartHead a := by
  have h := rtFotaUpgrade_within henv.tableOk partName w
  refine ⟨fun a ha => ?_, h.ops⟩
  by_contra hne
  exact ha (h.flash hrom a hne)

/-- The image of one byte is installed: the application partition changes, and nothing else. -/
theorem upgrade_changes_target_only_board :
    ∃ w w', rtFotaPartFwVerify Env.board (some downloadPart.name)
        (.powerOn (imageAt downloadPart oneByteImage [0] fun _ => 0xff)) = .ok rtFotaNoErr w ∧
      rtFotaUpgrade Env.board (some downloadPart.name) w = .ok rtFotaNoErr w' ∧
      w.flash appPart.base = 0xff ∧ w'.flash appPart.base = 0 ∧
      ∀ a, w'.flash a ≠ w.flash a → appPart.Covers a := by
  obtain ⟨w, w', hverify, hflash, hhead, hrun, hfirst⟩ := @oneByte_upgrades oneByteImage rfl rfl
    (by decide) (by decide) (by decide) (by decide +kernel) (by decide +kernel)
  refine ⟨w, w', hverify, hrun, ?_, hfirst, fun a ha => ?_⟩
  · rw [hflash]
    decide
  · rw [← final_of_ok hrun] at ha
    obtain ⟨t, ht, hcov⟩ := (upgrade_changes_target_only Env.board_onBoard norRom_confined
      (some downloadPart.name) w).1 a ha
    rw [hhead] at ht
    have happ : falPartitionFind Env.board (packHead oneByteImage).appPartName = some appPart := by
      decide
    rw [Option.some.inj (ht.symm.trans happ)] at hcov
    exact hcov

end Target

/-! ## 2. Source and boot partition -/

/-- **Source and boot partition survive an upgrade whose header names neither.** -/
theorem upgrade_spares_source_and_boot {env : Env} (henv : env.OnBoard)
    (hrom : env.rom.Confined) {part : FalPartition} (hpart : part ∈ falPartTable) {w : World}
    (hsource : falPartitionFind env w.fotaPartHead.appPartName ≠ some part)
    (hboot : falPartitionFind env w.fotaPartHead.appPartName ≠ some bootPart) {a : Nat}
    (ha : part.Covers a ∨ bootPart.Covers a) :
    (final (rtFotaUpgrade env (some part.name)) w).flash a = w.flash a := by
  refine (rtFotaUpgrade_within henv.tableOk (some part.name) w).flash hrom a ?_
  rintro ⟨t, hfind, hcov⟩
  have ht := falPartitionFind_mem henv hfind
  rcases ha with ha | ha
  · refine falPartTable_disjoint ht hpart (fun he => hsource ?_) hcov ha
    rw [hfind, he]
  · refine falPartTable_disjoint ht (q := bootPart) (by decide) (fun he => hboot ?_) hcov ha
    rw [hfind, he]

/-- The image of one byte names the application partition and is installed there; download and boot
    partition stay. -/
theorem upgrade_spares_source_and_boot_board :
    ∃ w w', rtFotaPartFwVerify Env.board (some downloadPart.name)
        (.powerOn (imageAt downloadPart oneByteImage [0] fun _ => 0xff)) = .ok rtFotaNoErr w ∧
      rtFotaUpgrade Env.board (some downloadPart.name) w = .ok rtFotaNoErr w' ∧
      w.flash appPart.base = 0xff ∧ w'.flash appPart.base = 0 ∧
      ∀ a, downloadPart.Covers a ∨ bootPart.Covers a → w'.flash a = w.flash a := by
  obtain ⟨w, w', hverify, hflash, hhead, hrun, hfirst⟩ := @oneByte_upgrades oneByteImage rfl rfl
    (by decide) (by decide) (by decide) (by decide +kernel) (by decide +kernel)
  refine ⟨w, w', hverify, hrun, ?_, hfirst, fun a ha => ?_⟩
  · rw [hflash]
    decide
  · rw [← final_of_ok hrun]
    refine upgrade_spares_source_and_boot Env.board_onBoard norRom_confined (by decide) ?_ ?_ ha
    · rw [hhead]
      decide
    · rw [hhead]
      decide

/-- An image that names the partition it lies in. -/
def selfImage : HeadFields where
  fotaAlgo := 0
  appPartName := downloadPart.name
  downloadVersion := cStr ['2']
  currentVersion := cStr ['1']
  codeCrc := rtFotaCrc []
  rawSize := 1
  comSize := 0

/-- It is accepted, and where memory for the chunk buffer is missing the upgrade has erased its
    first sector. -/
theorem upgrade_erases_its_source :
    ¬ ∀ (env : Env) (part : FalPartition) (w w₁ : World) (a : Nat), env.OnBoard →
      env.rom.Confined → part ∈ falPartTable → part.Covers a ∨ bootPart.Covers a →
      rtFotaPartFwVerify env (some part.name) w = .ok rtFotaNoErr w₁ →
      (final (rtFotaUpgrade env (some part.name)) w₁).flash a = w₁.flash a := by
  intro h
  let env : Env := { Env.board with mallocOk := fun n => n == 0 }
  let w := World.powerOn (imageAt downloadPart selfImage [] fun _ => 0xff)
  have hgood : env.Good := ⟨rfl, fun _ => rfl⟩
  have hp : downloadPart.Ok := falPartTable_ok _ (by decide)
  have hmem : downloadPart ∈ falPartTable := by decide
  have hhead : headAt w.flash downloadPart = packHead selfImage := headAt_imageAt hp (by decide)
  have hfind : falPartitionFind env downloadPart.name = some downloadPart :=
    Env.board_onBoard.find_name hmem
  have hfit : ChunksFit downloadPart (headAt w.flash downloadPart).comSize := by
    rw [hhead, packHead_comSize]; decide
  have hvalid : ValidImage env w.flash downloadPart :=
    validImage_imageAt hp (by decide) rfl rfl (by decide)
  have hacc := (accepted_iff hp hfind).mpr ⟨hvalid, hfit⟩
  obtain ⟨w₁, hverify, hflash, -, hw₁, hallocs⟩ := hacc.verify rfl
  have hhead₁ : w₁.fotaPartHead = packHead selfImage := hw₁.trans hhead
  have hraw : w₁.fotaPartHead.rawSize = 1 := by rw [hhead₁, packHead_rawSize]; rfl
  have htarget : falPartitionFind env w₁.fotaPartHead.appPartName = some downloadPart := by
    rw [hhead₁]; decide
  have hrun := rtFotaUpgrade_noMem hgood hp htarget (by omega) (by rw [hraw]; decide)
    (show (some downloadPart.name).bind (falPartitionFind env) = some downloadPart from hfind)
    (by rw [hallocs]; rfl)
  -- the first byte of the image, an `R`, reads 0xff afterwards
  have hkeep := h env downloadPart w w₁ downloadPart.base rfl norRom_confined hmem
    (.inl ⟨Nat.le_refl _, by decide⟩) hverify
  unfold final at hkeep
  rw [hrun, hflash] at hkeep
  simp only [World.erased, hraw, eraseRange] at hkeep
  rw [if_pos (by decide)] at hkeep
  revert hkeep
  decide

end Mh1903
