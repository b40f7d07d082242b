/-
  File:      Mh1903/Verify/Exact.lean
  Subject:   WHICH IMAGES ARE ACCEPTED. The body loop asks for whole buffers, so an accepted image
             is a valid one whose last buffer still fits: a valid image that ends less than a
             buffer in front of the end of its partition is refused.
-/
import Mh1903.Frame.Board
import Mh1903.Verify.Image

namespace Mh1903

open Library RtFotaPartHead

/-! ## 1. The body loop -/

/-- The bytes the body loop reads for a body of `comSize` bytes: whole buffers. -/
def chunksSize (comSize : Nat) : Nat :=
  (comSize + (rtFotaCrcBuffSize - 1)) / rtFotaCrcBuffSize * rtFotaCrcBuffSize

/-- The last buffer of the body loop ends inside the partition. -/
def ChunksFit (part : FalPartition) (comSize : Nat) : Prop :=
  sizeofPartHead + chunksSize comSize ≤ part.len

instance (part : FalPartition) (comSize : Nat) : Decidable (ChunksFit part comSize) :=
  inferInstanceAs (Decidable (_ ≤ _))

theorem FalPartition.bodyAddr_eq (part : FalPartition) (i : Nat) :
    part.base + (96 + i) = part.bodyAddr i := by
  simp only [FalPartition.bodyAddr, sizeofPartHead, Nat.add_assoc]

theorem FalPartition.bodyAddr_add (part : FalPartition) (i n : Nat) :
    part.bodyAddr (i + n) = part.bodyAddr i + n := by
  simp only [FalPartition.bodyAddr, Nat.add_assoc]

section Body

variable {flash : Flash} {part : FalPartition} {comSize : Nat}

/-- The body loop from a chunk on: the CRC of the rest where the chunks fit, a read error
    otherwise. -/
theorem verifyBodyCrc_eq (hp : part.Ok) (fuel : Nat) {bodyPos : Nat} (crc : BitVec 32)
    (hpos : bodyPos % 4096 = 0 ∨ bodyPos = comSize) (hle : bodyPos ≤ comSize)
    (hin : bodyPos = 0 ∨ 96 + bodyPos ≤ part.len)
    (hfuel : comSize + 4096 ≤ bodyPos + 4096 * fuel) :
    verifyBodyCrc flash part comSize fuel bodyPos crc =
      if bodyPos < comSize ∧ ¬ ChunksFit part comSize then none
      else some (rtFotaStepCrc crc
        (readFlash flash (part.bodyAddr bodyPos) (comSize - bodyPos))) := by
  have hlen := hp.len_le
  induction fuel generalizing bodyPos crc with
  | zero => omega
  | succ fuel ih =>
      unfold verifyBodyCrc
      by_cases hlt : bodyPos < comSize
      · have hmod : bodyPos % 4096 = 0 := hpos.resolve_right (by omega)
        have hu : u32 (sizeofPartHead + bodyPos) = 96 + bodyPos := u32_eq (by
          simp only [sizeofPartHead]; omega)
        rw [if_pos hlt, hu]
        by_cases hroom : 96 + bodyPos + 4096 ≤ part.len
        · -- the buffer is read: the rest of the body, or a whole chunk of it
          rw [falPartitionRead_ok hp (by simp only [rtFotaCrcBuffSize]; omega)]
          simp only [length_readFlash, rtFotaCrcBuffSize]
          rw [part.bodyAddr_eq]
          by_cases hlast : bodyPos + 4096 > comSize
          · have hfit : ChunksFit part comSize := by
              simp only [ChunksFit, chunksSize, sizeofPartHead, rtFotaCrcBuffSize]; omega
            rw [if_pos hlast, take_readFlash (by omega), ih _ (.inr (by omega)) (by omega)
              (.inr (by omega)) (by omega), if_neg (by omega), if_neg (by simp [hfit])]
            have hnil : comSize - (bodyPos + (comSize - bodyPos)) = 0 := by omega
            rw [hnil, readFlash_zero, rtFotaStepCrc_nil]
          · have hnext := @ih (bodyPos + 4096) (rtFotaStepCrc crc
                (readFlash flash (part.bodyAddr bodyPos) 4096)) (.inl (by omega)) (by omega)
                (.inr (Nat.add_assoc 96 bodyPos 4096 ▸ hroom)) (by omega)
            rw [if_neg hlast, take_readFlash (by omega), hnext, rtFotaStepCrc_append]
            have hrest : 4096 + (comSize - (bodyPos + 4096)) = comSize - bodyPos := by omega
            rw [part.bodyAddr_add, readFlash_append, hrest]
            by_cases hend : bodyPos + 4096 < comSize
            · simp only [hend, hlt]
            · have hfit : ChunksFit part comSize := by
                simp only [ChunksFit, chunksSize, sizeofPartHead, rtFotaCrcBuffSize]; omega
              rw [if_neg (by omega), if_neg (by simp [hfit])]
        · have hno : ¬ ChunksFit part comSize := by
            simp only [ChunksFit, chunksSize, sizeofPartHead, rtFotaCrcBuffSize]; omega
          rw [falPartitionRead_beyond (by simp only [rtFotaCrcBuffSize]; omega)
            (by simp only [rtFotaCrcBuffSize]; omega), if_pos ⟨hlt, hno⟩]
      · have hnil : comSize - bodyPos = 0 := by omega
        rw [if_neg hlt, if_neg (by omega), hnil, readFlash_zero, rtFotaStepCrc_nil]

/-- The whole body loop. -/
theorem verifyBodyCrc_whole (hp : part.Ok) :
    verifyBodyCrc flash part comSize (comSize / rtFotaCrcBuffSize + 2) 0 rtFotaCrcInitVal =
      if comSize = 0 ∨ ChunksFit part comSize then
        some (rtFotaStepCrc rtFotaCrcInitVal (readFlash flash (part.bodyAddr 0) comSize))
      else none := by
  have hfuel : comSize + 4096 ≤ 0 + 4096 * (comSize / rtFotaCrcBuffSize + 2) := by
    simp only [rtFotaCrcBuffSize]; omega
  rw [verifyBodyCrc_eq hp _ _ (.inl rfl) (Nat.zero_le _) (.inl rfl) hfuel, Nat.sub_zero]
  by_cases h0 : comSize = 0
  · rw [if_neg (by omega), if_pos (.inl h0)]
  · by_cases hfit : ChunksFit part comSize
    · rw [if_neg (by simp [hfit]), if_pos (.inr hfit)]
    · rw [if_pos ⟨by omega, hfit⟩, if_neg (by simp [h0, hfit])]

end Body

/-! ## 2. Valid images -/

/-- **A valid image** in a partition: both checksums are right, the type is `RBL`, the target is in
    the table and the body ends inside the partition. -/
structure ValidImage (env : Env) (flash : Flash) (part : FalPartition) : Prop where
  headCrc : (rtFotaCrc (readFlash flash part.base (sizeofPartHead - 4))).toNat =
    (headAt flash part).headCrc
  type : rtStrcmp (headAt flash part).type (cStr ['R', 'B', 'L'] ++ [0]) = 0
  target : falPartitionFind env (headAt flash part).appPartName ≠ none
  fits : sizeofPartHead + (headAt flash part).comSize ≤ part.len
  codeCrc : (rtFotaCrc (readFlash flash (part.bodyAddr 0) (headAt flash part).comSize)).toNat =
    (headAt flash part).codeCrc

/-- Valid on one environment of the board is valid on another. -/
theorem ValidImage.congr {env env' : Env} {flash : Flash} {part : FalPartition}
    (h : ValidImage env flash part) (henv : env.OnBoard) (henv' : env'.OnBoard) :
    ValidImage env' flash part :=
  ⟨h.headCrc, h.type, by rw [henv'.find_eq henv]; exact h.target, h.fits, h.codeCrc⟩

theorem comSize_le_chunksSize (comSize : Nat) : comSize ≤ chunksSize comSize := by
  simp only [chunksSize, rtFotaCrcBuffSize]; omega

section Valid

variable {env : Env} {flash : Flash} {name : List Byte} {part : FalPartition}

/-- The header of an accepted image is the one in front of its partition. -/
theorem Accepted.head_fits {h : RtFotaPartHead} (hacc : Accepted env flash name part h) :
    sizeofPartHead ≤ part.len := by
  by_contra hlt
  have := hacc.read
  rw [falPartitionRead_beyond (by simp only [sizeofPartHead]; omega) (by omega)] at this
  cases this

theorem Accepted.headAt_eq (hp : part.Ok) {h : RtFotaPartHead}
    (hacc : Accepted env flash name part h) : h = headAt flash part := by
  have hread := hacc.read
  rw [falPartitionRead_ok hp (by have := hacc.head_fits; omega), Option.some.injEq, Nat.add_zero, ← headAt_bytes] at hread
  cases h; cases hk : headAt flash part
  rw [hk] at hread
  simpa using hread.symm

/-- **Accepted are the valid images whose last buffer fits.** -/
theorem accepted_iff (hp : part.Ok) (hfind : falPartitionFind env name = some part) :
    Accepted env flash name part (headAt flash part) ↔
      ValidImage env flash part ∧ ChunksFit part (headAt flash part).comSize := by
  have hb := headAt_bytes flash part
  have htake : (headAt flash part).bytes.take (sizeofPartHead - 4) =
      readFlash flash part.base (sizeofPartHead - 4) := by
    rw [hb, take_readFlash (Nat.sub_le _ _)]
  constructor
  · intro h
    obtain ⟨crc, hcrc, hcode⟩ := h.body
    have hhead := h.headCrc
    rw [htake] at hhead
    rw [verifyBodyCrc_whole hp] at hcrc
    split at hcrc
    · rename_i hfit
      have hfit : ChunksFit part (headAt flash part).comSize := by
        rcases hfit with h0 | hfit
        · rw [h0]; exact h.head_fits
        · exact hfit
      have hle := comSize_le_chunksSize (headAt flash part).comSize
      rw [← Option.some.inj hcrc] at hcode
      exact ⟨⟨hhead, h.type, h.target, by unfold ChunksFit at hfit; omega, hcode⟩, hfit⟩
    · cases hcrc
  · rintro ⟨hv, hfit⟩
    have hlen : 0 + sizeofPartHead ≤ part.len := by
      have := hv.fits; omega
    refine ⟨hfind, ?_, by rw [htake]; exact hv.headCrc, hv.type, hv.target, ?_⟩
    · rw [falPartitionRead_ok hp hlen, hb]
      rfl
    · rw [verifyBodyCrc_whole hp, if_pos (.inr hfit)]
      exact ⟨_, rfl, hv.codeCrc⟩

/-- With memory left, a verification returns no error exactly for an accepted image. -/
theorem rtFotaPartFwVerify_ok_iff {w : World} (hp : part.Ok)
    (hfind : falPartitionFind env name = some part) (hmem : env.mallocOk w.allocs = true) :
    (∃ w', rtFotaPartFwVerify env (some name) w = .ok rtFotaNoErr w') ↔
      ValidImage env w.flash part ∧ ChunksFit part (headAt w.flash part).comSize := by
  rw [← accepted_iff hp hfind]
  obtain ⟨res, w', hrun, -, -, ho, -⟩ := rtFotaPartFwVerify_spec env (some name) w
  constructor
  · rintro ⟨w₁, h₁⟩
    rw [hrun] at h₁
    cases h₁
    rcases ho with ⟨-, -, n, q, hn, hacc⟩ | ⟨hne, -⟩
    · cases hn
      have hq : q = part := Option.some.inj (hacc.find.symm.trans hfind)
      subst hq
      rw [← hacc.headAt_eq hp]
      exact hacc
    · exact absurd rfl hne
  · intro hacc
    rcases ho with ⟨h0, -⟩ | ⟨-, hno⟩
    · exact ⟨w', by rw [hrun, h0]⟩
    · rw [hno _ _ _ rfl hacc] at hmem
      cases hmem

/-- **After a successful verification** the flash is the old one, it holds a valid image whose
    chunks fit, and the global header is its header. -/
theorem rtFotaPartFwVerify_accepts {w w' : World} (hp : part.Ok)
    (hfind : falPartitionFind env name = some part)
    (h : rtFotaPartFwVerify env (some name) w = .ok rtFotaNoErr w') :
    w'.flash = w.flash ∧ w'.fotaPartHead = headAt w.flash part ∧ ValidImage env w.flash part ∧
      ChunksFit part (headAt w.flash part).comSize := by
  obtain ⟨res, w₁, hrun, hflash, -, hout, -⟩ := rtFotaPartFwVerify_spec env (some name) w
  rw [h] at hrun
  cases hrun
  rcases hout with ⟨-, -, n, q, hn, hacc⟩ | ⟨hne, -⟩
  · cases hn
    have hq : q = part := Option.some.inj (hacc.find.symm.trans hfind)
    subst hq
    have hhead := hacc.headAt_eq hp
    rw [hhead] at hacc
    exact ⟨hflash, hhead, (accepted_iff hp hfind).mp hacc⟩
  · exact absurd rfl hne

/-- **A packed image is valid**: with the body's size and checksum in its header, a target of the
    table and room in the partition. -/
theorem validImage_imageAt (hp : part.Ok) {f : HeadFields} {body : List Byte}
    (hfit : sizeofPartHead + body.length ≤ part.len) (hsize : f.comSize.toNat = body.length)
    (hcrc : f.codeCrc = rtFotaCrc body)
    (htarget : falPartitionFind env (packHead f).appPartName ≠ none) :
    ValidImage env (imageAt part f body flash) part := by
  have hhead : headAt (imageAt part f body flash) part = packHead f := headAt_imageAt hp hfit
  have hbytes := headAt_bytes (imageAt part f body flash) part
  rw [hhead] at hbytes
  have htake := congrArg (List.take (sizeofPartHead - 4)) hbytes
  rw [take_readFlash (Nat.sub_le _ _)] at htake
  constructor
  · rw [hhead, ← htake]
    exact packHead_headCrc f
  · rw [hhead]
    exact packHead_type f
  · rw [hhead]
    exact htarget
  · rw [hhead, packHead_comSize, hsize]
    exact hfit
  · rw [hhead, packHead_comSize, hsize, readFlash_body_imageAt hp hfit, packHead_codeCrc, hcrc]

end Valid

/-- A packed image in a partition of the board is accepted, and its header becomes the global
    one. -/
theorem verify_imageAt {env : Env} (henv : env.OnBoard) (hmem : env.mallocOk 0 = true)
    {part : FalPartition} (hpart : part ∈ falPartTable) {f : HeadFields} {body : List Byte}
    {flash : Flash} (hfit : ChunksFit part body.length) (hsize : f.comSize.toNat = body.length)
    (hcrc : f.codeCrc = rtFotaCrc body)
    (htarget : falPartitionFind env (packHead f).appPartName ≠ none) :
    ∃ w, rtFotaPartFwVerify env (some part.name) (.powerOn (imageAt part f body flash)) =
        .ok rtFotaNoErr w ∧ w.flash = imageAt part f body flash ∧ w.fotaPartHead = packHead f ∧
      w.allocs = 1 := by
  have hp := falPartTable_ok part hpart
  have hfind := henv.find_name hpart
  have hroom : sizeofPartHead + body.length ≤ part.len :=
    Nat.le_trans (Nat.add_le_add_left (comSize_le_chunksSize _) _) hfit
  have hhead : headAt (imageAt part f body flash) part = packHead f := headAt_imageAt hp hroom
  have hvalid : ValidImage env (imageAt part f body flash) part :=
    validImage_imageAt hp hroom hsize hcrc htarget
  have hacc : Accepted env (World.powerOn (imageAt part f body flash)).flash part.name part
      (headAt (imageAt part f body flash) part) :=
    (accepted_iff hp hfind).mpr ⟨hvalid, by
      rw [World.powerOn_flash, hhead, packHead_comSize, hsize]
      exact hfit⟩
  obtain ⟨w, hrun, hflash, -, hw, hallocs⟩ := hacc.verify hmem
  exact ⟨w, hrun, hflash, hw.trans hhead, hallocs⟩

/-! ## 3. Exactly which images -/

/-- **`rt_fota_part_fw_verify` accepts exactly the valid images if and only if a valid image there
    has room for its last buffer.** -/
theorem verify_exact_iff {env : Env} (henv : env.OnBoard) {part : FalPartition}
    (hpart : part ∈ falPartTable) {w : World} (hmem : env.mallocOk w.allocs = true) :
    ((∃ w', rtFotaPartFwVerify env (some part.name) w = .ok rtFotaNoErr w') ↔
        ValidImage env w.flash part) ↔
      (ValidImage env w.flash part → ChunksFit part (headAt w.flash part).comSize) := by
  rw [rtFotaPartFwVerify_ok_iff (falPartTable_ok part hpart) (henv.find_name hpart) hmem]
  exact ⟨fun h hv => (h.mpr hv).2, fun h => ⟨fun hv => hv.1, fun hv => ⟨hv, h hv⟩⟩⟩

/-- A one-byte image: its buffer of 4096 bytes does not fit behind a header in 4096 bytes. -/
def oneByteImage : HeadFields where
  fotaAlgo := 0
  appPartName := appPart.name
  downloadVersion := cStr ['2']
  currentVersion := cStr ['1']
  codeCrc := rtFotaCrc [0]
  rawSize := 1
  comSize := 1

theorem verify_exact_iff_download :
    (∃ w', rtFotaPartFwVerify Env.board (some downloadPart.name)
        (.powerOn (imageAt downloadPart oneByteImage [0] fun _ => 0xff)) = .ok rtFotaNoErr w') ↔
      ValidImage Env.board (imageAt downloadPart oneByteImage [0] fun _ => 0xff) downloadPart := by
  have hp : downloadPart.Ok := falPartTable_ok _ (by decide)
  refine (verify_exact_iff Env.board_onBoard (show downloadPart ∈ falPartTable by decide)
    (w := .powerOn (imageAt downloadPart oneByteImage [0] fun _ => 0xff)) rfl).mpr fun _ => ?_
  show ChunksFit _ (headAt (imageAt downloadPart oneByteImage [0] fun _ => 0xff) _).comSize
  rw [headAt_imageAt hp (by decide), packHead_comSize]
  decide

theorem verify_refuses_valid_image :
    ¬ ((∃ w', rtFotaPartFwVerify Env.board (some paramPart.name)
          (.powerOn (imageAt paramPart oneByteImage [0] fun _ => 0xff)) = .ok rtFotaNoErr w') ↔
      ValidImage Env.board (imageAt paramPart oneByteImage [0] fun _ => 0xff) paramPart) := by
  have hp : paramPart.Ok := falPartTable_ok _ (by decide)
  have hv : ValidImage Env.board (imageAt paramPart oneByteImage [0] fun _ => 0xff) paramPart :=
    validImage_imageAt hp (by decide) rfl rfl (by decide)
  intro h
  have hok := (rtFotaPartFwVerify_ok_iff hp
    (Env.board_onBoard.find_name (by decide)) rfl).mp (h.mpr hv)
  have hfit := hok.2
  revert hfit
  show ¬ ChunksFit paramPart (headAt (imageAt paramPart oneByteImage [0] fun _ => 0xff)
    paramPart).comSize
  rw [headAt_imageAt hp (by decide), packHead_comSize]
  decide

end Mh1903
