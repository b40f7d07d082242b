/-
  File:      Mh1903/Boot/Delivery.lean
  Subject:   FROM THE PACKER TO THE LAUNCH. An image packed from a firmware and stored in the download
             partition: whatever boots are cut short, the first one that comes to the launch has
             the firmware in the partition the image names.
-/
import Mh1903.Boot.Power
import Mh1903.Copy.Packed

namespace Mh1903

open Library RtFotaPartHead

/-- The header of an image: sizes and checksum are those of the firmware and of the sealed
    payload, the versions differ, and the new one ends in its field. -/
structure HeadFields.Describes (f : HeadFields) (env : Env) (fw payload : List Byte) : Prop where
  holding : Holding (packHead f) fw payload
  sealable : Sealable (packHead f) payload
  rawSize : f.rawSize.toNat = fw.length
  comSize : f.comSize.toNat = payload.length
  codeCrc : f.codeCrc = rtFotaCrc (sealBody (packHead f) payload)
  due : rtStrcmp ((packHead f).downloadVersion ++ env.afterHead)
    ((packHead f).currentVersion ++ env.afterHead) ≠ 0
  terminated : (packHead f).Terminated

/-- **A packed firmware is delivered**, plain or compressed with FastLZ, encrypted or not, and
    whatever power losses there are on the way. -/
theorem packed_firmware_delivered {env : Env} (henv : env.OnBoard) (hgood : env.Good)
    (hmem : ∀ n, env.mallocOk n = true) (hlink : env.Linked) {f : HeadFields}
    {fw payload : List Byte} (hf : f.Describes env fw payload) {t : FalPartition}
    (ht : falPartitionFind env (packHead f).appPartName = some t) (hne : t ≠ downloadPart)
    (hfit : ChunksFit downloadPart payload.length) (hlen : fw.length ≤ t.len) {flash g : Flash}
    (hboots : Boots env (imageAt downloadPart f (sealBody (packHead f) payload) flash) g)
    (p : Nat → Bool) :
    Leads (bootToLaunch (env.cut p)) (.powerOn g)
      (fun _ w' => readFlash w'.flash t.base fw.length = fw) (PowerFailed p) := by
  have hpart : downloadPart ∈ falPartTable := by decide
  have hsealed := length_sealBody hf.sealable
  have hroom : sizeofPartHead + (sealBody (packHead f) payload).length ≤ downloadPart.len := by
    rw [hsealed]
    exact (Nat.add_le_add_left (comSize_le_chunksSize _) _).trans hfit
  obtain ⟨w₁, hverify, hflash, hhead, -⟩ := @verify_imageAt env henv (hmem 0) downloadPart hpart f
    (sealBody (packHead f) payload) flash (by rw [hsealed]; exact hfit)
    (hf.comSize.trans hsealed.symm) hf.codeCrc (by rw [ht]; exact Option.some_ne_none _)
  have hcom : (packHead f).comSize = payload.length := (packHead_comSize f).trans hf.comSize
  have hraw : (packHead f).rawSize = fw.length := (packHead_rawSize f).trans hf.rawSize
  have hbody := @readFlash_body_imageAt downloadPart f (sealBody (packHead f) payload) flash
    downloadPart_ok hroom
  rw [hsealed, ← hcom] at hbody
  obtain ⟨w₂, hupgrade, hthere⟩ := packed_upgrade henv hgood hmem hlink hpart ht hne hf.holding
    hf.sealable (hcom ▸ hfit) hcom hraw hlen hbody hflash hhead
  have hcheck : rtFotaCheckUpgrade env w₁ = .ok 1 w₁ := by
    rw [rtFotaCheckUpgrade_eq, hhead, if_neg hf.due]
  have hstored : headAt (imageAt downloadPart f (sealBody (packHead f) payload) flash)
      downloadPart = packHead f := headAt_imageAt downloadPart_ok hroom
  obtain ⟨-, hinst⟩ := installs_of_run henv hgood hverify hcheck (hhead ▸ ht) hne hupgrade
    (.inl (by rw [hstored]; exact hf.terminated))
  have hdelivers := hinst.delivers hboots p
  rw [hstored, hraw, hthere] at hdelivers
  exact hdelivers

/-- A machine with the decompressor and the cipher of the source linked in. -/
def Env.link (env : Env) : Env :=
  { env with
    fastlzDecompress := fun input length maxout =>
      (Fastlz.fastlzDecompress (fun i => input.getD i (env.memory i)) length maxout).getD
        (Fastlz.returnFailed 0 [])
    tinyAesCryptEcb := fun input i =>
      ((Aes.tinyAesSetkeyDec (rtFotaAlgoAesKey.getD · 0) 256).map fun d =>
        Aes.ecbBytes d input i).getD 0 }

theorem Env.link_linked (env : Env) : env.link.Linked where
  fastlz input length maxout d hd := by
    show (Fastlz.fastlzDecompress (fun i => input.getD i (env.memory i)) length maxout).getD _ = d
    rw [show Fastlz.fastlzDecompress (fun i => input.getD i (env.memory i)) length maxout =
      some d from hd]
    rfl
  aes := by
    obtain ⟨e, d, -, hd, -⟩ := Aes.tinyAes_block .bits256 (rtFotaAlgoAesKey.getD · 0)
    refine ⟨d, hd, ?_⟩
    funext input i
    show ((Aes.tinyAesSetkeyDec (rtFotaAlgoAesKey.getD · 0) 256).map fun d =>
      Aes.ecbBytes d input i).getD 0 = Aes.ecbBytes d input i
    rw [hd]
    rfl

theorem Env.link_onBoard : Env.board.link.OnBoard := rfl

theorem Env.link_good : Env.board.link.Good := ⟨rfl, fun _ => rfl⟩

/-- Eleven bytes, which FastLZ cannot make shorter. -/
def elevenBytes : List Byte := [1, 2, 3, 4, 5, 6, 7, 8, 9, 10, 11]

/-- The header of an image with this checksum that holds them, compressed and encrypted. -/
def elevenFields (codeCrc : BitVec 32) : HeadFields where
  fotaAlgo := 0x302
  appPartName := appPart.name
  downloadVersion := cStr ['2']
  currentVersion := cStr ['1']
  codeCrc := codeCrc
  rawSize := 11
  comSize := 16

/-- The checksum of the sealed payload. -/
def elevenCrc : BitVec 32 :=
  rtFotaCrc (sealBody (packHead (elevenFields 0)) (framedBody [packBlock elevenBytes]))

theorem eleven_crypt : (packHead (elevenFields elevenCrc)).crypt = rtFotaCryptAlgoAes256 ∧
    (packHead (elevenFields 0)).crypt = rtFotaCryptAlgoAes256 := by decide +kernel

theorem packBlock_eleven : packBlock elevenBytes = 10 :: elevenBytes := by decide +kernel

theorem eleven_describes : (elevenFields elevenCrc).Describes Env.board.link elevenBytes
    (framedBody [packBlock elevenBytes]) where
  holding := by
    refine @Holding.fastlz _ [elevenBytes] (by decide +kernel) ⟨by decide, by decide⟩ ?_
    rw [List.map_singleton, List.map_singleton, packBlock_eleven]
    exact ⟨fun _ => ⟨by decide, fun hne => absurd rfl hne⟩, trivial⟩
  sealable := by
    refine .inr ⟨eleven_crypt.1, ?_⟩
    rw [packBlock_eleven]
    rfl
  rawSize := rfl
  comSize := by
    rw [packBlock_eleven]
    rfl
  codeCrc := congrArg rtFotaCrc (sealBody_congr (eleven_crypt.2.trans eleven_crypt.1.symm) _)
  due := by decide +kernel
  terminated := by decide +kernel

/-- The eleven bytes, packed, encrypted and stored, and a boot that loses power in front of its
    second flash operation: the next one has them in the application partition. -/
theorem packed_firmware_delivered_eleven :
    Leads (bootToLaunch (Env.board.link.cut fun _ => true)) (.powerOn (final
        (bootToLaunch (Env.board.link.cut (· != 1))) (.powerOn (imageAt downloadPart
          (elevenFields elevenCrc) (sealBody (packHead (elevenFields elevenCrc))
            (framedBody [packBlock elevenBytes])) fun _ => 0xff))).flash)
      (fun _ w' => readFlash w'.flash appPart.base 11 = elevenBytes)
      (PowerFailed fun _ => true) :=
  packed_firmware_delivered Env.link_onBoard Env.link_good (fun _ => rfl) (Env.link_linked _)
    eleven_describes (by decide +kernel) (by decide)
    (by rw [packBlock_eleven]; decide) (by decide) (.single ⟨_, rfl⟩) _

end Mh1903
