/-
  File:      Mh1903/Verify/Copied.lean
  Subject:   WHAT A COPY OF THE VERSION LEAVES. A flash that holds the edited first sector of an
             image holds a valid image exactly if it was one but for the header checksum; so
             `rt_fota_copy_version` keeps an accepted image accepted.
-/
import Mh1903.Frame.Good
import Mh1903.Verify.CopyVersion

namespace Mh1903

open Library RtFotaPartHead

/-! ## 1. The image after the copy -/

/-- A valid image that fits its buffers, but for the header checksum. -/
structure UnsealedImage (env : Env) (flash : Flash) (part : FalPartition) : Prop where
  type : rtStrcmp (headAt flash part).type (cStr ['R', 'B', 'L'] ++ [0]) = 0
  target : falPartitionFind env (headAt flash part).appPartName ≠ none
  fit : ChunksFit part (headAt flash part).comSize
  codeCrc : (rtFotaCrc (readFlash flash (part.bodyAddr 0) (headAt flash part).comSize)).toNat =
    (headAt flash part).codeCrc

/-- `g` holds in `part` what a successful copy makes of `f`. -/
structure CopiedFrom (part : FalPartition) (f g : Flash) : Prop where
  len : 4096 ≤ part.len
  first : ∀ i < 4096, g (part.base + i) = (copyVersionEdit (readFlash f part.base 4096)).getD i 0
  rest : ∀ a, part.Covers a → ¬ part.FirstSector a → g a = f a

section Copied

variable {env : Env} {part : FalPartition} {f g : Flash}

theorem CopiedFrom.sector (hp : part.Ok) (h : CopiedFrom part f g) :
    readFlash g part.base 4096 = copyVersionEdit (readFlash f part.base 4096) := by
  have hbase := hp.base_lt
  have hlen : (copyVersionEdit (readFlash f part.base 4096)).length = 4096 := by
    rw [length_copyVersionEdit, length_readFlash]
  have hread : readFlash g part.base (copyVersionEdit (readFlash f part.base 4096)).length =
      copyVersionEdit (readFlash f part.base 4096) :=
    readFlash_eq (by rw [hlen]; omega) fun i hi => h.first i (hlen ▸ hi)
  rw [hlen] at hread
  exact hread

/-- The header is the edited one. -/
theorem CopiedFrom.headAt_eq (hp : part.Ok) (h : CopiedFrom part f g) :
    headAt g part = (headAt f part).copied := by
  have htake := congrArg (List.take 96) (h.sector hp)
  rw [take_copyVersionEdit, take_readFlash (by omega), take_readFlash (by omega)] at htake
  have hg : (headAt g part).bytes = copyVersionEdit (headAt f part).bytes := by
    rw [headAt_bytes, headAt_bytes]
    exact htake
  cases hh : headAt g part with
  | mk bytes len =>
      rw [hh] at hg
      subst hg
      rfl

/-- The body is the old one. -/
theorem CopiedFrom.body (hp : part.Ok) (h : CopiedFrom part f g) {n : Nat}
    (hn : sizeofPartHead + n ≤ part.len) :
    readFlash g (part.bodyAddr 0) n = readFlash f (part.bodyAddr 0) n := by
  have hbase := hp.base_lt
  simp only [FalPartition.bodyAddr, sizeofPartHead] at hn ⊢
  refine readFlash_congr (by omega) fun a h₁ h₂ => ?_
  by_cases hs : part.FirstSector a
  · -- behind the header the edit changes nothing
    obtain ⟨i, rfl⟩ := Nat.exists_eq_add_of_le hs.1
    have hi : i < 4096 := by have := hs.2; omega
    rw [h.first i hi, List.getD_eq_getElem?_getD,
      copyVersionEdit_other (.inr (by omega)) (.inr (by omega)), ← List.getD_eq_getElem?_getD,
      readFlash_getD (by omega) hi]
  · exact h.rest a ⟨by omega, by omega⟩ hs

/-- A copied header is accepted with a body of the right checksum. -/
theorem UnsealedImage.accepted (henv : env.OnBoard) (hp : part.Ok) (hu : UnsealedImage env f part)
    (hhead : headAt g part = (headAt f part).copied)
    (hcrc : rtFotaCrc (readFlash g (part.bodyAddr 0) (headAt f part).comSize) =
      rtFotaCrc (readFlash f (part.bodyAddr 0) (headAt f part).comSize))
    {name : List Byte} (hfind : falPartitionFind env name = some part) :
    Accepted env g name part (headAt g part) := by
  have hle := comSize_le_chunksSize (headAt f part).comSize
  have hfits : sizeofPartHead + (headAt f part).comSize ≤ part.len := by
    have := hu.fit; unfold ChunksFit at this; omega
  rw [Mh1903.accepted_iff hp hfind]
  refine ⟨⟨?_, ?_, ?_, ?_, ?_⟩, ?_⟩
  · have hseal := copied_headCrc (headAt f part)
    rw [← hhead, headAt_bytes, take_readFlash (Nat.sub_le _ _)] at hseal
    exact hseal
  · rw [hhead, copied_type]; exact hu.type
  · rw [hhead, copied_target _ henv]; exact hu.target
  · rw [hhead, copied_comSize]; exact hfits
  · rw [hhead, copied_comSize, copied_codeCrc, hcrc]; exact hu.codeCrc
  · rw [hhead, copied_comSize]; exact hu.fit

/-- **What a copy leaves is accepted exactly if it was a sound image before**, sealed or not. -/
theorem CopiedFrom.accepted_iff (henv : env.OnBoard) (hp : part.Ok) (h : CopiedFrom part f g)
    {name : List Byte} (hfind : falPartitionFind env name = some part) :
    Accepted env g name part (headAt g part) ↔ UnsealedImage env f part := by
  have hhead := h.headAt_eq hp
  constructor
  · intro hacc
    obtain ⟨hv, hfit⟩ := (Mh1903.accepted_iff hp hfind).mp hacc
    refine ⟨?_, ?_, ?_, ?_⟩
    · rw [← copied_type, ← hhead]; exact hv.type
    · rw [← copied_target _ henv, ← hhead]; exact hv.target
    · rw [← copied_comSize, ← hhead]; exact hfit
    · have hfits := hv.fits
      have hcode := hv.codeCrc
      rw [hhead, copied_comSize] at hfits
      rw [hhead, copied_comSize, copied_codeCrc, h.body hp hfits] at hcode
      exact hcode
  · intro hu
    have hle := comSize_le_chunksSize (headAt f part).comSize
    have hfits : sizeofPartHead + (headAt f part).comSize ≤ part.len := by
      have := hu.fit; unfold ChunksFit at this; omega
    exact hu.accepted henv hp hhead (by rw [h.body hp hfits]) hfind

/-- An accepted image is sound without its seal. -/
theorem ValidImage.unsealed (h : ValidImage env f part)
    (hfit : ChunksFit part (headAt f part).comSize) : UnsealedImage env f part :=
  ⟨h.type, h.target, hfit, h.codeCrc⟩

end Copied

/-! ## 2. The call -/

/-- `new` is `old` with `current_version` set to `download_version` and the checksum recomputed. -/
structure VersionCopied (old new : RtFotaPartHead) : Prop where
  front : new.bytes.take 52 = old.bytes.take 52
  currentVersion : new.currentVersion.take 24 = old.downloadVersion.take 24
  words : (new.bytes.drop 76).take 16 = (old.bytes.drop 76).take 16
  headCrc : new.headCrc = (rtFotaCrc (new.bytes.take (sizeofPartHead - 4))).toNat

theorem versionCopied_copied (h : RtFotaPartHead) : VersionCopied h h.copied := by
  refine ⟨take_copied h, ?_, ?_, (copied_headCrc h).symm⟩
  · rw [copied_currentVersion, List.take_left' (length_versionField h)]
    rfl
  · refine List.ext_getElem? fun i => ?_
    by_cases hi : i < 16
    · rw [List.getElem?_take_of_lt hi, List.getElem?_take_of_lt hi, List.getElem?_drop,
        List.getElem?_drop]
      exact copyVersionEdit_other (by omega) (by omega)
    · rw [List.getElem?_eq_none (by rw [List.length_take]; omega),
        List.getElem?_eq_none (by rw [List.length_take]; omega)]

/-- A byte of the partition in one of the two fields the copy sets. -/
def FalPartition.VersionOrCrc (part : FalPartition) (a : Nat) : Prop :=
  (part.base + 52 ≤ a ∧ a < part.base + 76) ∨ (part.base + 92 ≤ a ∧ a < part.base + 96)

/-- Outside the two fields nothing is different. -/
theorem CopiedFrom.other {part : FalPartition} {f g : Flash} (hp : part.Ok)
    (h : CopiedFrom part f g) {a : Nat} (ha : part.Covers a) (hno : ¬ part.VersionOrCrc a) :
    g a = f a := by
  have hbase := hp.base_lt
  by_cases hs : part.FirstSector a
  · obtain ⟨i, rfl⟩ := Nat.exists_eq_add_of_le hs.1
    have hi : i < 4096 := by have := hs.2; omega
    unfold FalPartition.VersionOrCrc at hno
    rw [h.first i hi, List.getD_eq_getElem?_getD, copyVersionEdit_other (by omega) (by omega),
      ← List.getD_eq_getElem?_getD, readFlash_getD (by omega) hi]
  · exact h.rest a ha hs

/-- On a good flash and with its buffer the copy succeeds. -/
theorem rtFotaCopyVersion_good {env : Env} (h : env.Good) {name : List Byte} {p : FalPartition}
    (hp : p.Ok) (hfind : falPartitionFind env name = some p) (hlen : 4096 ≤ p.len) {w : World}
    (hmem : env.mallocOk w.allocs = true) :
    ∃ w', rtFotaCopyVersion env name w = .ok rtFotaNoErr w' := by
  have hbase := hp.base_lt
  have hmalloc : rtMalloc env theNorFlashGranularity w =
      .ok (some ((List.range theNorFlashGranularity).map env.memory))
        { w with allocs := w.allocs + 1 } := by
    unfold rtMalloc
    rw [get_bind, modify_bind, if_pos hmem]
    rfl
  have hsectors : sectors theNorFlashGranularity = 1 := rfl
  generalize hw₁ : ({ w with allocs := w.allocs + 1 } : World) = w₁ at hmalloc
  have herase := @falPartitionErase_good env w₁ h.erases p hp theNorFlashGranularity (by decide) hlen
  rw [hsectors] at herase
  generalize hw₂ : ({ w₁ with
    flash := eraseRange p.base 1 w₁.flash
    ops := eraseOps p.base 1 ++ w₁.ops } : World) = w₂ at herase
  have hflash : w₂.flash = eraseRange p.base 1 w₁.flash := by rw [← hw₂]
  obtain ⟨w₃, hwrite, -⟩ := @falPartitionWrite_good env w₂ h p hp 0 theNorFlashGranularity
    (copyVersionEdit (readFlash w₁.flash p.base 4096)) rfl (by decide)
    (by rw [Nat.zero_add]; exact hlen)
    (by rw [length_copyVersionEdit, length_readFlash]; exact Nat.le_refl _) (by
      intro i hi
      simp only [theNorFlashGranularity] at hi
      rw [hflash, eraseRange, if_pos (by omega)])
  refine ⟨w₃, withExit_ok ?_⟩
  simp only [hfind]
  rw [bind_ok hmalloc]
  simp only
  rw [get_bind, falPartitionRead_ok hp (by rw [Nat.zero_add]; exact hlen), Nat.add_zero]
  refine (bind_ok herase).trans ?_
  rw [if_neg (by decide)]
  refine (bind_ok hwrite).trans ?_
  rw [if_neg (by decide)]
  rfl

/-- **`rt_fota_copy_version` keeps the image valid**: only the two fields of the header change, and
    every later verification that gets its buffer accepts. -/
theorem copy_version_keeps_valid {env : Env} (henv : env.OnBoard) (hrom : env.rom.Confined)
    {part : FalPartition} (hpart : part ∈ falPartTable) {w₀ w₁ w w' : World}
    (hverify : rtFotaPartFwVerify env (some part.name) w₀ = .ok rtFotaNoErr w₁)
    (hflash : w.flash = w₀.flash)
    (hcopy : rtFotaCopyVersion env part.name w = .ok rtFotaNoErr w') :
    (∀ (env' : Env) (w₂ : World), env'.OnBoard → w₂.flash = w'.flash →
      env'.mallocOk w₂.allocs = true →
      ∃ w₃, rtFotaPartFwVerify env' (some part.name) w₂ = .ok rtFotaNoErr w₃) ∧
    VersionCopied (headAt w.flash part) (headAt w'.flash part) ∧
    ∀ a, part.Covers a → ¬ part.VersionOrCrc a → w'.flash a = w.flash a := by
  have hp := falPartTable_ok part hpart
  have hfind := henv.find_name hpart
  obtain ⟨-, -, hvalid, hfit⟩ := rtFotaPartFwVerify_accepts hp hfind hverify
  rw [← hflash] at hvalid hfit
  obtain ⟨hlen, hfirst, hrest⟩ := rtFotaCopyVersion_sound henv.tableOk hrom hfind hcopy
  have hcopied : CopiedFrom part w.flash w'.flash := ⟨hlen, hfirst, fun a _ hs => hrest a hs⟩
  refine ⟨fun env' w₂ henv' hw₂ hmem => ?_, ?_, fun a => hcopied.other hp⟩
  · have hacc' := (hcopied.accepted_iff henv' hp (henv'.find_name hpart)).mpr
      ((hvalid.congr henv henv').unsealed hfit)
    rw [← hw₂] at hacc'
    obtain ⟨w₃, hrun, -⟩ := hacc'.verify hmem
    exact ⟨w₃, hrun⟩
  · rw [hcopied.headAt_eq hp]
    exact versionCopied_copied _

theorem copy_version_keeps_valid_board :
    ∃ w', rtFotaCopyVersion Env.board downloadPart.name
        (.powerOn (imageAt downloadPart oneByteImage [0] fun _ => 0xff)) = .ok rtFotaNoErr w' ∧
      (∀ (env' : Env) (w₂ : World), env'.OnBoard → w₂.flash = w'.flash →
        env'.mallocOk w₂.allocs = true →
        ∃ w₃, rtFotaPartFwVerify env' (some downloadPart.name) w₂ = .ok rtFotaNoErr w₃) ∧
      VersionCopied (packHead oneByteImage) (headAt w'.flash downloadPart) ∧
      ∀ a, downloadPart.Covers a → ¬ downloadPart.VersionOrCrc a →
        w'.flash a = imageAt downloadPart oneByteImage [0] (fun _ => 0xff) a := by
  have hp : downloadPart.Ok := falPartTable_ok _ (by decide)
  have hmem : downloadPart ∈ falPartTable := by decide
  have hfind := Env.board_onBoard.find_name hmem
  have hhead : headAt (imageAt downloadPart oneByteImage [0] fun _ => 0xff) downloadPart =
      packHead oneByteImage := headAt_imageAt hp (by decide)
  have hv : ValidImage Env.board (imageAt downloadPart oneByteImage [0] fun _ => 0xff)
      downloadPart := validImage_imageAt hp (by decide) rfl rfl (by decide)
  have hfit : ChunksFit downloadPart
      (headAt (imageAt downloadPart oneByteImage [0] fun _ => 0xff) downloadPart).comSize := by
    rw [hhead, packHead_comSize]
    decide
  obtain ⟨w₁, hverify⟩ := (rtFotaPartFwVerify_ok_iff hp hfind
    (w := .powerOn (imageAt downloadPart oneByteImage [0] fun _ => 0xff)) rfl).mpr ⟨hv, hfit⟩
  obtain ⟨w', hcopy⟩ := rtFotaCopyVersion_good Env.board_good hp hfind (by decide)
    (w := .powerOn (imageAt downloadPart oneByteImage [0] fun _ => 0xff)) rfl
  have hkeep := copy_version_keeps_valid Env.board_onBoard Env.board_confined hmem hverify rfl hcopy
  rw [World.powerOn_flash, hhead] at hkeep
  exact ⟨w', hcopy, hkeep⟩

end Mh1903
