/-
  File:      Mh1903/Copy/Packed.lean
  Subject:   WHAT A PACKER PACKS IS INSTALLED. A firmware is put in the body as it is, or cut into
             blocks that `fastlz_compress` compresses; the body is then left as it is, or encrypted
             with `tiny_aes_crypt_cbc`. With the decompressor and the cipher of the source linked
             in, `rt_fota_upgrade` installs the firmware.
-/
import Mh1903.Aes.Block
import Mh1903.Copy.Reassembly
import Mh1903.Fastlz.RoundTrip

namespace Mh1903

open Library

/-! ## 1. Packing -/

/-- `RT_FOTA_ALGO_AES_KEY` -/
def rtFotaAlgoAesKey : List Byte := rtFotaAlgoAesIv ++ rtFotaAlgoAesIv

/-- A block as `fastlz_compress` compresses it. -/
def packBlock (b : List Byte) : List Byte :=
  (Fastlz.fastlzCompress true (b.getD · 0) b.length).getD []

/-- The body that holds `payload`: encrypted under the configured key if the header says so. -/
def sealBody (h : RtFotaPartHead) (payload : List Byte) : List Byte :=
  if h.crypt = rtFotaCryptAlgoAes256 then
    match Aes.tinyAesSetkeyEnc (rtFotaAlgoAesKey.getD · 0) 256 with
    | some e => (Aes.tinyAesCryptCbc e .encrypt rtFotaAlgoAesIv payload).2
    | none => payload
  else
    payload

/-- The payload of an image with this header that holds the firmware: the firmware and a padding
    inside its last sector, or its compressed blocks. -/
inductive Holding (h : RtFotaPartHead) : List Byte → List Byte → Prop
  | plain {fw : List Byte} (pad : List Byte) : h.cmprs = rtFotaCryptAlgoNone → 1 ≤ fw.length →
      (fw ++ pad).length ≤ 4096 * sectors fw.length → Holding h fw (fw ++ pad)
  | fastlz {blocks : List (List Byte)} : h.cmprs = rtFotaCmprsAlgoFastlz → FirmwareBlocks blocks →
      SeamsFit (framedBody (blocks.map packBlock)).length 0
        (blocks.map fun b => (packBlock b).length) →
      Holding h blocks.flatten (framedBody (blocks.map packBlock))

/-- Not encrypted, or whole blocks of the cipher. -/
def Sealable (h : RtFotaPartHead) (payload : List Byte) : Prop :=
  h.crypt = rtFotaCryptAlgoNone ∨
    h.crypt = rtFotaCryptAlgoAes256 ∧ payload.length % 16 = 0

/-- The decompressor and the cipher of the source are linked in. -/
structure Env.Linked (env : Env) : Prop where
  fastlz : ∀ input length maxout d,
    Fastlz.fastlzDecompress (fun i => input.getD i (env.memory i)) length maxout = some d →
      env.fastlzDecompress input length maxout = d
  aes : ∃ d, Aes.tinyAesSetkeyDec (rtFotaAlgoAesKey.getD · 0) 256 = some d ∧
    env.tinyAesCryptEcb = Aes.ecbBytes d

/-! ## 2. One block -/

theorem text_getD (b : List Byte) : Fastlz.text (b.getD · 0) b.length = b := by
  refine List.ext_getElem (Fastlz.length_text _ _) fun i h₁ h₂ => ?_
  simp only [Fastlz.text, List.getElem_map, List.getElem_range, List.getD_eq_getElem _ _ h₂]

theorem getD_padTo {n i : Nat} {bs : List Byte} (hi : i < bs.length) (hle : bs.length ≤ n)
    (d : Byte) : (padTo n bs).getD i d = bs.getD i 0 := by
  have hpad : i < (padTo n bs).length := by rw [length_padTo]; omega
  rw [List.getD_eq_getElem _ _ hpad, List.getD_eq_getElem _ _ hi]
  simp only [padTo, List.getElem_take]
  exact List.getElem_append_left hi

section Block

variable {b : List Byte} (h1 : 1 ≤ b.length) (hb : b.length ≤ 4096)
include h1 hb

theorem packBlock_eq : packBlock b = Fastlz.fastlzCompressor .one (b.getD · 0) b.length := by
  unfold packBlock Fastlz.fastlzCompress Fastlz.fastlzCompressLevel
  rw [if_pos (by omega), if_pos rfl, if_pos rfl]
  rfl

/-- A packed block fits the buffer for it. -/
theorem packBlock_size : 1 ≤ (packBlock b).length ∧
    (packBlock b).length ≤ rtFotaCmprsBufferSize + rtFotaFastlzBufferPadding := by
  obtain ⟨level, bs, ts, h⟩ :=
    Fastlz.fastlzCompressor_tokens .one (b.getD · 0) h1 (show b.length < 4294967296 by omega)
  have hsize := h.size
  have hbytes := congrArg List.length h.bytes
  have hroom : 4096 + 270 = rtFotaCmprsBufferSize + rtFotaFastlzBufferPadding := by decide
  rw [List.length_cons] at hbytes
  rw [packBlock_eq h1 hb]
  omega

/-- Decompressing a packed block in its buffer gives the block. -/
theorem packBlock_undone {env : Env} (henv : env.Linked) {n : Nat}
    (hn : (packBlock b).length ≤ n) :
    ∃ d, env.fastlzDecompress (padTo n (packBlock b)) (packBlock b).length
      rtFotaCmprsBufferSize = d ∧ d.written = b ∧ d.size = b.length := by
  have hdst : Fastlz.Holds (fun i => (padTo n (packBlock b)).getD i (env.memory i)) 0
      (packBlock b) := Fastlz.holds_of fun i hi => by
    rw [Nat.zero_add]
    exact getD_padTo hi hn _
  rw [packBlock_eq h1 hb] at hdst
  obtain ⟨d, hd, hw, hs⟩ := Fastlz.fastlzCompressor_decompress .one h1
    (show b.length < 4294967296 by omega) hdst (show b.length ≤ rtFotaCmprsBufferSize from hb)
  rw [← packBlock_eq h1 hb] at hd
  exact ⟨d, henv.fastlz _ _ _ d hd, hw.trans (text_getD b), hs⟩

end Block

/-- Every block of a firmware has a size. -/
theorem FirmwareBlocks.sizes {blocks : List (List Byte)} (h : FirmwareBlocks blocks) :
    ∀ b ∈ blocks, 1 ≤ b.length ∧ b.length ≤ 4096 := by
  induction blocks with
  | nil => exact h.elim
  | cons b bs ih =>
      obtain ⟨h1, hle, hrest⟩ := h.head
      intro c hc
      rcases List.mem_cons.mp hc with rfl | hc
      · exact ⟨h1, hle⟩
      · exact ih (hrest (List.ne_nil_of_mem hc)).2 c hc

/-! ## 3. The body -/

theorem length_sealBody {h : RtFotaPartHead} {payload : List Byte} (hs : Sealable h payload) :
    (sealBody h payload).length = payload.length := by
  unfold sealBody
  rcases hs with hnone | ⟨haes, hmod⟩
  · rw [hnone, if_neg (by decide)]
  · rw [if_pos haes]
    split
    · rename_i e _
      have hlen := Aes.length_tinyAesCryptCbcEncrypt (Aes.length_tinyAesCryptEcb e .encrypt)
        (payload.length / 16) rtFotaAlgoAesIv payload
      show (Aes.tinyAesCryptCbcEncrypt _ _ _ _).2.length = _
      omega
    · rfl

theorem sealBody_congr {h h' : RtFotaPartHead} (hc : h.crypt = h'.crypt) (payload : List Byte) :
    sealBody h payload = sealBody h' payload := by
  unfold sealBody
  rw [hc]

/-- **The decrypted body** is the payload. -/
theorem decodedBody_sealBody {env : Env} (henv : env.Linked) {flash : Flash} {part : FalPartition}
    {h : RtFotaPartHead} {payload : List Byte} (hs : Sealable h payload)
    (hbody : readFlash flash (part.bodyAddr 0) h.comSize = sealBody h payload) :
    (decodedBody env flash part h.startIv h.comSize).2 = payload := by
  unfold decodedBody RtFotaPartHead.startIv
  rw [hbody]
  rcases hs with hnone | ⟨haes, hmod⟩
  · rw [hnone, if_neg (by decide), sealBody, if_neg (by rw [hnone]; decide)]
    rfl
  · obtain ⟨d, hd, hecb⟩ := henv.aes
    obtain ⟨e, d', he, hd', -, -, -, hblock⟩ :=
      Aes.tinyAes_block .bits256 (rtFotaAlgoAesKey.getD · 0)
    obtain rfl : d' = d := Option.some.inj (hd'.symm.trans hd)
    have hlen := length_sealBody (h := h) (.inr ⟨haes, hmod⟩)
    have hseal : sealBody h payload =
        (Aes.tinyAesCryptCbc e .encrypt rtFotaAlgoAesIv payload).2 := by
      unfold sealBody
      rw [if_pos haes, he]
    have hiv : rtFotaAlgoAesIv.length = 16 := rfl
    have hundo := Aes.tinyAesCryptCbc_undo (e := e) (d := d')
      (fun input hin => (Aes.undo_of_standard hblock hin).1) hiv hmod
    rw [← hseal] at hundo
    rw [if_pos haes]
    simp only [decodeChunk, hecb]
    exact congrArg Prod.snd hundo

/-! ## 4. The upgrade -/

section Upgrade

variable {env : Env} (henv : env.OnBoard) (hgood : env.Good) (hmem : ∀ n, env.mallocOk n = true)
variable (hlink : env.Linked) {part t : FalPartition} (hpart : part ∈ falPartTable)
variable {flash : Flash} {h : RtFotaPartHead}
variable (ht : falPartitionFind env h.appPartName = some t) (hne : t ≠ part)
variable {fw payload : List Byte} (hhold : Holding h fw payload) (hseal : Sealable h payload)
variable (hfit : ChunksFit part h.comSize) (hcom : h.comSize = payload.length)
variable (hraw : h.rawSize = fw.length) (hlen : fw.length ≤ t.len)
variable (hbody : readFlash flash (part.bodyAddr 0) h.comSize = sealBody h payload)
include henv hgood hmem hlink hpart ht hne hhold hseal hfit hcom hraw hlen hbody

/-- **A packed firmware is installed.** -/
theorem packed_upgrade {w : World} (hflash : w.flash = flash) (hhead : w.fotaPartHead = h) :
    ∃ w', rtFotaUpgrade env (some part.name) w = .ok rtFotaNoErr w' ∧
      readFlash w'.flash t.base fw.length = fw := by
  subst hflash
  have hmt := falPartitionFind_mem henv ht
  have hfind := henv.find_name hpart
  have hp := falPartTable_ok part hpart
  have hok := falPartTable_ok t hmt
  have hbase := hok.base_lt
  have hxor : h.crypt ≠ rtFotaCryptAlgoXor := by
    rcases hseal with hc | ⟨hc, -⟩
    · rw [hc]
      decide
    · rw [hc]
      decide
  have hdecoded := decodedBody_sealBody hlink hseal hbody
  have hapart : ∀ a, part.Covers a → ¬ t.Covers a :=
    fun a ha => falPartTable_disjoint hpart hmt hne.symm ha
  cases hhold with
  | plain pad hcmprs h1 hpad =>
      have hchunks : chunksSize h.comSize = sectors h.rawSize * 4096 := by
        rw [List.length_append] at hpad hcom
        rw [hraw, hcom]
        simp only [chunksSize, sectors, rtFotaCrcBuffSize] at hpad ⊢
        omega
      have j : PlainJob env part t h := ⟨hgood, hmem, hp, hok, ht, hapart, hcmprs, hxor, hfit,
        by omega, hchunks, by omega⟩
      obtain ⟨w', hrun, hw'⟩ := j.upgrade hfind hhead
      refine ⟨w', hrun, ?_⟩
      have hcover : h.comSize ≤ 4096 * sectors h.rawSize := by
        rw [Nat.mul_comm, ← hchunks]
        exact comSize_le_chunksSize h.comSize
      have hmod : h.startIv = none ∨ h.comSize % 16 = 0 := by
        rcases hseal with hc | ⟨-, hc⟩
        · exact .inl (if_neg (by rw [hc]; decide))
        · exact .inr (by rw [hcom]; exact hc)
      have htake := @decodedBody_take env w.flash part h.startIv (startIv_ok h) _ hmod _ hcover
      rw [hdecoded] at htake
      have hdec := @length_decoded env w.flash part h (sectors h.rawSize)
      have hroom := j.room
      have hall := @readFlash_flashWith t.base
        (decodedBody env w.flash part h.startIv (4096 * sectors h.rawSize)).2
        (eraseRange t.base (sectors h.rawSize) w.flash) (by omega)
      rw [hdec] at hall
      have hfront := congrArg (List.take fw.length) htake
      rw [List.take_take, Nat.min_eq_left (by rw [hcom, List.length_append]; omega),
        List.take_left] at hfront
      rw [hw', ← take_readFlash (show fw.length ≤ 4096 * sectors h.rawSize by
        rw [hraw]
        unfold sectors
        omega), hall, hfront]
  | fastlz hcmprs hshape hseams =>
      rename_i blocks
      have hpadding : h.paddingSize = rtFotaFastlzBufferPadding := if_pos hcmprs
      have hrom : env.rom.Confined := by
        rw [hgood.rom]
        exact norRom_confined
      have hsizes : ∀ b ∈ blocks, 1 ≤ (packBlock b).length ∧
          (packBlock b).length ≤ (StoredImage.mk env w.flash part h).room := fun b hb => by
        obtain ⟨h1, hle⟩ := hshape.sizes b hb
        have hsize := packBlock_size h1 hle
        unfold StoredImage.room
        rw [show (StoredImage.mk env w.flash part h).head = h from rfl, hpadding]
        exact hsize
      have j : BlockJob ⟨env, w.flash, part, h⟩ t packBlock blocks := by
        refine ⟨⟨hrom, hp, hok, ht, hapart, hfit⟩, hgood, hmem, .inl hcmprs, hxor, hshape, hdecoded,
          ?_, hraw, hraw.trans_le hlen, hsizes, fun b hb => ?_⟩
        · exact hcom.trans (congrArg List.length hdecoded).symm
        · obtain ⟨h1, hle⟩ := hshape.sizes b hb
          obtain ⟨d, hd, hwritten, hsize⟩ := packBlock_undone h1 hle hlink (hsizes b hb).2
          have heq := (StoredImage.decompress_eq (m := ⟨env, w.flash, part, h⟩) (.inl hcmprs)
            (padTo (StoredImage.mk env w.flash part h).room (packBlock b))
            (packBlock b).length).symm.trans (if_pos hcmprs)
          rw [Option.some.inj heq, hd]
          exact ⟨hwritten, hsize⟩
      obtain ⟨w', hrun, hw'⟩ := j.upgrade hfind hhead rfl (hcom ▸ hseams)
      refine ⟨w', hrun, ?_⟩
      rw [hw']
      exact readFlash_flashWith (by omega)

end Upgrade

end Mh1903
