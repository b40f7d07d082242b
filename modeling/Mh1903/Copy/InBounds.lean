/-
  File:      Mh1903/Copy/InBounds.lean
  Subject:   WHICH IMAGES KEEP THE COPY INSIDE ITS BUFFERS. Whether they do is a matter of the image
             and of the three codecs only: `StoredImage.InBounds` is the same on every board.
-/
import Mh1903.Copy.Safety

namespace Mh1903

open Library

/-! ## 1. The codecs decide -/

/-- The same cipher and the same decompressors. -/
structure Env.SameCodecs (env env' : Env) : Prop where
  fastlz : env'.fastlzDecompress = env.fastlzDecompress
  qlz : env'.qlzDecompress = env.qlzDecompress
  ecb : env'.tinyAesCryptEcb = env.tinyAesCryptEcb

theorem Env.SameCodecs.symm {env env' : Env} (h : env.SameCodecs env') : env'.SameCodecs env :=
  ⟨h.fastlz.symm, h.qlz.symm, h.ecb.symm⟩

theorem Env.sameCodecs_willing (env : Env) : env.SameCodecs env.willing := ⟨rfl, rfl, rfl⟩

theorem Env.SameCodecs.keepsSizes {env env' : Env} (h : env.SameCodecs env') (hs : env.KeepsSizes) :
    env'.KeepsSizes := by
  refine ⟨fun input length maxout => ?_, fun source => ?_⟩
  · rw [h.fastlz]
    exact hs.fastlz _ _ _
  · rw [h.qlz]
    exact hs.qlz _

/-- The image as an upgrade in another environment reads it. -/
def StoredImage.inEnv (m : StoredImage) (env' : Env) : StoredImage := { m with env := env' }

section Codecs

variable {m : StoredImage} {env' : Env} (h : m.env.SameCodecs env')
include h

theorem Env.SameCodecs.decodeChunk (aesIv : Option (List Byte)) (bs : List Byte) :
    decodeChunk env' aesIv bs = Mh1903.decodeChunk m.env aesIv bs := by
  unfold Mh1903.decodeChunk
  rw [h.ecb]

theorem Env.SameCodecs.bytes (i n : Nat) : (m.inEnv env').bytes i n = m.bytes i n := by
  have hchunks : ∀ k, (m.inEnv env').chunks k = m.chunks k := fun k => h.decodeChunk _ _
  unfold StoredImage.bytes
  rw [hchunks]

theorem Env.SameCodecs.sizeAt (q : Nat) : (m.inEnv env').sizeAt q = m.sizeAt q := by
  unfold StoredImage.sizeAt
  rw [h.bytes]

theorem Env.SameCodecs.blockAt (q : Nat) : (m.inEnv env').blockAt q = m.blockAt q := by
  unfold StoredImage.blockAt
  rw [h.bytes, h.sizeAt]
  rfl

theorem Env.SameCodecs.fetch (x : Cursor) : (m.inEnv env').fetch x = m.fetch x := by
  unfold StoredImage.fetch
  rw [h.sizeAt, h.blockAt]

theorem Env.SameCodecs.take (x : Cursor) : (m.inEnv env').take x = m.take x := by
  unfold StoredImage.take
  rw [h.sizeAt, h.blockAt]

theorem Env.SameCodecs.decompressed (block : List Byte) (size : Nat) :
    (m.inEnv env').decompressed block size = m.decompressed block size := by
  unfold StoredImage.decompressed StoredImage.inEnv
  rw [h.fastlz, h.qlz]

theorem Env.SameCodecs.output (x : Cursor) : (m.inEnv env').output x = m.output x := by
  unfold StoredImage.output
  rw [h.decompressed]

theorem Env.SameCodecs.fits (x : Cursor) : (m.inEnv env').Fits x ↔ m.Fits x := by
  have hreads : (m.inEnv env').ReadsInside x ↔ m.ReadsInside x := by
    unfold StoredImage.ReadsInside
    rw [h.decompressed]
    rfl
  exact ⟨fun hf => ⟨hf.put, hreads.mp hf.reads⟩, fun hf => ⟨hf.put, hreads.mpr hf.reads⟩⟩

theorem Env.SameCodecs.deliver (x : Cursor) : (m.inEnv env').deliver x = m.deliver x := by
  unfold StoredImage.deliver
  rw [h.output]

theorem Env.SameCodecs.fetchable (x : Cursor) : (m.inEnv env').Fetchable x ↔ m.Fetchable x := by
  unfold StoredImage.Fetchable
  rw [h.sizeAt]
  rfl

theorem Env.SameCodecs.inTail (x : Cursor) : (m.inEnv env').InTail x ↔ m.InTail x := by
  unfold StoredImage.InTail StoredImage.Takeable
  rw [h.sizeAt]
  rfl

theorem Env.SameCodecs.delivers {len : Nat} {x : Cursor} (hd : (m.inEnv env').Delivers len x) :
    m.Delivers len x := by
  have hsize := hd.size
  have hfits := hd.fits
  have hinside := hd.inside
  rw [h.decompressed] at hsize
  rw [h.output] at hfits hinside
  exact ⟨hsize, hfits, hd.aligned, hinside⟩

/-- The same places are reached. -/
theorem Env.SameCodecs.reached {len : Nat} {x : Cursor} (hr : Reached (m.inEnv env') len x) :
    Reached m len x := by
  induction hr with
  | start => exact .start
  | main _ hmain hf hd ih =>
      rw [h.fetch] at hd ⊢
      rw [h.deliver]
      exact .main ih hmain ((h.fetchable _).mp hf) (h.delivers hd)
  | tail _ htail hd ih =>
      rw [h.take] at hd ⊢
      rw [h.deliver]
      exact .tail ih ((h.inTail _).mp htail) (h.delivers hd)

/-- **The condition is the same** in both environments of the board. -/
theorem Env.SameCodecs.inBounds (henv : m.env.OnBoard) (henv' : env'.OnBoard) (hin : m.InBounds) :
    (m.inEnv env').InBounds := by
  intro t ht h1 hlen hcom hxor hgzip hnone
  have ht' : falPartitionFind m.env m.head.appPartName = some t :=
    (henv.find_eq henv' m.head.appPartName).trans ht
  obtain ⟨hc, hne, hfit⟩ := hin t ht' h1 hlen hcom hxor hgzip hnone
  refine ⟨hc, hne, fun x hr => ?_⟩
  obtain ⟨hmain, htail⟩ := hfit x (h.reached hr)
  refine ⟨fun hx => ?_, fun hx => ?_⟩
  · obtain ⟨hf, hd⟩ := hmain hx
    refine ⟨(h.fetchable x).mpr hf, ?_⟩
    rw [h.fetch]
    exact (h.fits _).mpr hd
  · rw [h.take]
    exact (h.fits _).mpr (htail ((h.inTail x).mp hx))

end Codecs

/-! ## 2. A compression without a decompressor -/

/-- `rt_memset` of a null `cmprs_buff`. -/
theorem clearCmprs_faulted {c : CopyCtx} {st : CopyState} (hnull : st.cmprsBuff = []) (w : World) :
    Faulted w (final (clearCmprs c st) w) := by
  refine faulted_bind (store_faulted ?_ w) fun _ => keeps_pure _
  rw [hnull, List.length_replicate]
  exact Nat.lt_of_lt_of_le (by decide : 0 < 4096) (Nat.le_trans (Nat.le_add_right _ _)
    (Nat.le_add_left _ _))

/-- **The first pass without block buffers.** -/
theorem copyStep_noBuffers {env : Env} {c : CopyCtx} {st : CopyState} {w : World} (hp : c.part.Ok)
    (h : ReadReady c.part st) (hhdr : st.blockHdrBuf.length = 4) (hpos : st.blockHdrPos = 4096)
    (hne : c.partHead.cmprs ≠ rtFotaCryptAlgoNone) (hnull : st.cmprsBuff = [])
    (hread : Readable env c.part st.fwRawPos st.aesIv w) :
    Faulted w (final (copyStep env c st) w) := by
  have hlen := h.length_next env w.flash
  have hbranch : fetchBlock env c st w = fetchNewChunk env c st w :=
    congrFun (if_pos (by rw [hpos]; exact Nat.le_refl _)) w
  have hfetch : Faulted w (final (fetchBlock env c st) w) := by
    refine faulted_of_eq hbranch (Nat.le_refl _) ?_
    refine faulted_bind_ok ((readChunk_eq env hp h w).1 hread) (w.read_kept _ _ _ _) ?_
    refine faulted_bind_ok (rtMemcpy_eq env ?_ ?_ _) (Nat.le_refl _) ?_
    · show 0 + 4 ≤ (st.next env w.flash c.part).2.length
      omega
    · show 0 + 4 ≤ st.blockHdrBuf.length
      omega
    · refine faulted_bind ?_ fun _ => ?_
      · refine clearCmprs_faulted ?_ _
        exact hnull
      · exact keeps_bind (rtMemcpy_keeps fault_kept _ _ _ _ _ _) fun _ => keeps_pure _
  unfold copyStep
  rw [if_pos hne]
  exact faulted_bind hfetch fun _ => deliverBlock_keeps fault_kept (flashProgramPage_kept _) _ _

/-! ## 3. An erased source -/

theorem blockSizeOf_first {hdr : List Byte} (h : hdr.getD 0 0 ≠ 0) : 4096 < blockSizeOf hdr := by
  have h0 := (hdr.getD 0 0).isLt
  have h1 := (hdr.getD 1 0).isLt
  have h2 := (hdr.getD 2 0).isLt
  have h3 := (hdr.getD 3 0).isLt
  have hpos : (hdr.getD 0 0).toNat ≠ 0 := fun hz => h (BitVec.eq_of_toNat_eq hz)
  unfold blockSizeOf
  simp only [Nat.shiftLeft_eq]
  rw [u32_eq (by omega)]
  omega

/-- The first block that AES256 under the configured key makes of an erased flash starts with 0x43,
    as `tiny_aes_crypt_ecb` computes it. -/
def Env.DecryptsErased (env : Env) : Prop :=
  env.tinyAesCryptEcb (List.replicate 16 0xff) 0 = 0x43

/-- The size at the start of an erased body is far too large. -/
theorem StoredImage.sizeAt_erased (m : StoredImage) (hecb : m.env.DecryptsErased)
    (herased : ∀ i < 16, m.flash (u32 (m.part.bodyAddr 0 + i)) = 0xff) : 4096 < m.sizeAt 0 := by
  have hchunk : (m.chunks 1).2 = (m.nextChunk 0).2 := by
    rw [m.chunks_succ 0, m.chunks_zero, List.nil_append]
  have hhdr : m.bytes 0 4 = (m.nextChunk 0).2.take 4 := by
    rw [m.bytes_eq (k := 1) (by omega), hchunk, List.drop_zero]
  have hblock : (readFlash m.flash (m.part.bodyAddr 0) 4096).take 16 = List.replicate 16 0xff := by
    refine List.eq_replicate_iff.mpr ⟨by rw [List.length_take, length_readFlash]; rfl, ?_⟩
    intro b hb
    rw [take_readFlash (by decide)] at hb
    obtain ⟨i, hi, rfl⟩ := List.mem_map.mp hb
    exact herased i (List.mem_range.mp hi)
  refine blockSizeOf_first ?_
  rw [hhdr]
  unfold StoredImage.nextChunk
  rw [m.chunks_zero, Nat.mul_zero]
  generalize readFlash m.flash (m.part.bodyAddr 0) 4096 = bs at hblock
  have hfirst : bs.getD 0 0 = 0xff := by
    have := congrArg (fun l => l.getD 0 0) hblock
    simp only [List.getD_eq_getElem?_getD, List.getElem?_take_of_lt (by decide : 0 < 16)] at this
    rw [List.getD_eq_getElem?_getD]
    exact this
  unfold RtFotaPartHead.startIv
  split
  · -- decrypted: the block of 0xff is XORed with the vector
    have hblocks : bs.length / 16 = bs.length / 16 - 1 + 1 := by
      have := congrArg List.length hblock
      rw [List.length_take, List.length_replicate] at this
      omega
    simp only [decodeChunk]
    rw [hblocks]
    simp only [tinyAesCryptCbc]
    have hiv : rtFotaAlgoAesIv = 0x30 :: rtFotaAlgoAesIv.tail := by decide
    unfold Env.DecryptsErased at hecb
    rw [hblock, hiv, List.ofFn_succ, List.zipWith_cons_cons, List.cons_append,
      List.take_succ_cons, List.getD_cons_zero, hecb]
    decide
  · show (bs.take 4).getD 0 0 ≠ 0
    rw [List.getD_eq_getElem?_getD, List.getElem?_take_of_lt (by decide),
      ← List.getD_eq_getElem?_getD, hfirst]
    decide

/-! ## 4. Both directions -/

section Upgrade

variable {env : Env} {partName : Option (List Byte)} {part t : FalPartition} {w : World}

/-- Where nothing fails, a fault of the copy is one of the upgrade. -/
theorem rtFotaUpgrade_faulted (herases : env.Erases) (hmem : ∀ n, env.mallocOk n = true) (ht : t.Ok)
    (hpart : partName.bind (falPartitionFind env) = some part)
    (hfind : falPartitionFind env w.fotaPartHead.appPartName = some t)
    (h1 : 1 ≤ w.fotaPartHead.rawSize) (hlen : w.fotaPartHead.rawSize ≤ t.len)
    (hcrypt : w.fotaPartHead.crypt ≠ rtFotaCryptAlgoXor)
    (hcmprs : w.fotaPartHead.cmprs ≠ rtFotaCmprsAlgoGzip)
    (hcopy : ∀ r w₂, SetupDone env part w.fotaPartHead r →
      w₂.flash = eraseRange t.base (sectors w.fotaPartHead.rawSize) w.flash →
      w₂.fotaPartHead = w.fotaPartHead → Faulted w₂ (final (upgradeCopy env r.1 r.2) w₂)) :
    Faulted w (final (rtFotaUpgrade env partName) w) := by
  have herase := rtFotaEraseAppPart_good herases ht hfind h1 hlen
  obtain ⟨r, w₂, hsetup⟩ := upgradeSetup_ok hmem hpart herase hcrypt hcmprs
  obtain ⟨hdone, hcalm⟩ := (upgradeSetup_leads hpart herase).ok hsetup
  have hkept : FaultsKept w w₂ := by
    refine NoFault.kept ?_
    exact hcalm.faults
  refine faulted_withExit (faulted_bind_ok hsetup hkept ?_)
  exact hcopy r w₂ hdone hcalm.flash hcalm.head

/-- The chunks of a body that is not empty lie in the partition, the first one anyway. -/
theorem ChunksFit.first {comSize : Nat} (h : ChunksFit part comSize) (hcom : 1 ≤ comSize) :
    sizeofPartHead + 4096 ≤ part.len := by
  unfold ChunksFit at h
  simp only [chunksSize, rtFotaCrcBuffSize] at h
  omega

/-- A first block that is too large for a chunk. -/
theorem CursorAt.firstFaulted {m : StoredImage} {st : CopyState} (h : CursorAt m .start st w)
    (hc : m.head.Compressed) (hp : m.part.Ok) (hmem : ∀ n, m.env.mallocOk n = true)
    (hchunks : ChunksFit m.part m.head.comSize) (hcom : 1 ≤ m.head.comSize)
    (hsize : 4096 < m.sizeAt 0) : Faulted w (final (upgradeCopy m.env m.ctx st) w) := by
  have hin : m.InPart Cursor.start.chunks := hchunks.first hcom
  have hread : Readable m.env m.part st.fwRawPos st.aesIv w := by
    refine ⟨?_, fun _ => hmem _⟩
    rw [h.rawPos]
    exact hin
  refine upgradeCopy_faulted_first (h.inMain_iff.mpr hcom) ?_
  refine h.mainFaulted hc hp hin hread fun hfit => ?_
  have hfits := (hfit.1.resolve_left (by decide)).1
  have hzero : Cursor.start.at = 0 := rfl
  unfold FitsAt at hfits
  rw [if_pos (by decide), hzero] at hfits
  omega

/-- An upgrade of a compressed image onto its own partition. -/
theorem rtFotaUpgrade_selfFaulted (hmem : ∀ n, env.mallocOk n = true) (hp : part.Ok)
    (hchunks : ChunksFit part w.fotaPartHead.comSize) (hecb : env.DecryptsErased)
    (hc : w.fotaPartHead.Compressed) {r : CopyCtx × CopyState}
    (hdone : SetupDone env part w.fotaPartHead r) (h1 : 1 ≤ w.fotaPartHead.rawSize)
    (hcom : 1 ≤ w.fotaPartHead.comSize) {w₂ : World}
    (hflash : w₂.flash = eraseRange part.base (sectors w.fotaPartHead.rawSize) w.flash)
    (hhead : w₂.fotaPartHead = w.fotaPartHead) :
    Faulted w₂ (final (upgradeCopy env r.1 r.2) w₂) := by
  have hbase := hp.base_lt
  obtain ⟨hctx, hat⟩ := SetupDone.cursorAt (m := ⟨env, w₂.flash, part, w.fotaPartHead⟩) hc hdone
    hhead fun _ _ => rfl
  rw [hctx]
  refine hat.firstFaulted hc hp hmem hchunks hcom (StoredImage.sizeAt_erased _ hecb fun i hi => ?_)
  simp only [FalPartition.bodyAddr, sizeofPartHead]
  rw [u32_eq (by omega), hflash, eraseRange, if_pos (by unfold sectors; omega)]

/-- **An upgrade without faults, where nothing fails,** had an image that keeps it inside the
    buffers. -/
theorem StoredImage.InBounds.of_noFault (hwill : env.Willing) (henv : env.OnBoard)
    (hsizes : env.KeepsSizes) (hecb : env.DecryptsErased)
    (hpart : partName.bind (falPartitionFind env) = some part)
    (hchunks : ChunksFit part w.fotaPartHead.comSize)
    (hno : NoFault w (final (rtFotaUpgrade env partName) w)) :
    (StoredImage.mk env w.flash part w.fotaPartHead).InBounds := by
  obtain ⟨name, rfl, hname⟩ := Option.bind_eq_some_iff.mp hpart
  have hp := henv.tableOk.find hname
  intro t ht h1 hlen hcom hxor hgzip hnone
  have htok := henv.tableOk.find ht
  have hclean := fun hcopy =>
    (rtFotaUpgrade_faulted hwill.erases hwill.mem htok hpart ht h1 hlen hxor hgzip hcopy).not_noFault hno
  have hfirst := hchunks.first hcom
  have hc : w.fotaPartHead.Compressed := by
    by_contra hno
    refine hclean fun r w₂ hdone _ _ => ?_
    obtain ⟨cryptBuf, cmprsBuff, dcprsBuff, rfl, hbuf, -, hbufs⟩ := hdone
    refine upgradeCopy_faulted_first hcom ?_
    refine copyStep_noBuffers hp ⟨Nat.zero_le _, startIv_ok _, hbuf⟩ ?_ rfl hnone (hbufs.none hno)
      ⟨hfirst, fun _ => hwill.mem _⟩
    simp [CopyState.start, rtFotaBlockHeaderSize]
  have hne : part ≠ t := by
    rintro rfl
    exact hclean fun r w₂ hdone hflash hhead =>
      rtFotaUpgrade_selfFaulted hwill.mem hp hchunks hecb hc hdone h1 hcom hflash hhead
  refine ⟨hc, hne, ?_⟩
  by_contra hbad
  refine hclean fun r w₂ hdone hflash hhead => ?_
  have j : CopyJob ⟨env, w.flash, part, w.fotaPartHead⟩ t :=
    ⟨hwill.rom ▸ ramRom_confined, hp, htok, ht, fun a ha => falPartTable_disjoint
      (falPartitionFind_mem henv hname) (falPartitionFind_mem henv ht) hne ha, hchunks⟩
  have hsource : ∀ a, part.Covers a → w₂.flash a = w.flash a := by
    intro a ha
    rw [hflash, j.erase_apart hlen ha]
  obtain ⟨hctx, hat⟩ := SetupDone.cursorAt (m := ⟨env, w.flash, part, w.fotaPartHead⟩) hc hdone
    hhead hsource
  rw [hctx]
  by_contra hclean₂
  exact hbad (hat.blocksFit hwill j hc hsizes hclean₂)

/-- **The copy stays inside its buffers on every board if and only if the image says so.** -/
theorem copy_in_bounds_iff (henv : env.OnBoard) (hsizes : env.KeepsSizes)
    (hecb : env.DecryptsErased) (hpart : partName.bind (falPartitionFind env) = some part)
    {w₀ : World} (hverify : rtFotaPartFwVerify env partName w₀ = .ok rtFotaNoErr w) :
    (∀ env' : Env, env'.OnBoard → env'.rom.Confined → env.SameCodecs env' →
      NoFault w (final (rtFotaUpgrade env' partName) w)) ↔
    (StoredImage.mk env w.flash part w.fotaPartHead).InBounds := by
  obtain ⟨name, rfl, hname⟩ := Option.bind_eq_some_iff.mp hpart
  have hp := henv.tableOk.find hname
  obtain ⟨hflash, hhead, -, hfit⟩ := rtFotaPartFwVerify_accepts hp hname hverify
  rw [← hhead] at hfit
  have hpart' : ∀ {env' : Env}, env'.OnBoard →
      (some name).bind (falPartitionFind env') = some part := fun henv' =>
    (henv'.find_eq henv name).trans hname
  constructor
  · intro hno
    have henv' : env.willing.OnBoard := henv
    have hcodecs := env.sameCodecs_willing
    have hin := StoredImage.InBounds.of_noFault env.willing_willing henv'
      (hcodecs.keepsSizes hsizes) hecb (hpart' henv') hfit
      (hno env.willing henv' ramRom_confined hcodecs)
    exact Env.SameCodecs.inBounds (m := ⟨env.willing, w.flash, part, w.fotaPartHead⟩) hcodecs.symm
      henv' henv hin
  · intro hin env' henv' hrom hcodecs
    exact StoredImage.InBounds.upgrade henv' hrom (hcodecs.keepsSizes hsizes) (hpart' henv') hfit
      (Env.SameCodecs.inBounds (m := ⟨env, w.flash, part, w.fotaPartHead⟩) hcodecs henv henv' hin)

end Upgrade

/-! ## 5. One image each way -/

/-- What AES256 under the configured key makes of a block of 0xff. -/
def erasedBlock : List Byte :=
  [0x43, 0x60, 0xed, 0xa1, 0x07, 0x25, 0x15, 0x51, 0x43, 0xa4, 0x88, 0xb0, 0xa6, 0xee, 0xd7, 0x3f]

/-- The board with decompressors: FASTLZ knows the literal run of one `A`, QUICKLZ puts zeros. -/
def Env.sized : Env :=
  { Env.board with
    fastlzDecompress := fun input length maxout =>
      if length = 2 ∧ input.take 2 = [0, 0x41] ∧ 1 ≤ maxout then ⟨[0x41], 1, 2, .inr rfl⟩
      else Env.board.fastlzDecompress input length maxout
    qlzDecompress := fun source =>
      ⟨List.replicate (qlzSizeDecompressed source) 0, qlzSizeDecompressed source, 9,
        .inr List.length_replicate.symm⟩
    tinyAesCryptEcb := fun input i =>
      if input = List.replicate 16 0xff then erasedBlock.getD i 0 else 0 }

theorem Env.sized_onBoard : Env.sized.OnBoard := rfl

theorem Env.sized_keepsSizes : Env.sized.KeepsSizes := by
  refine ⟨fun input length maxout => ?_, fun source => List.length_replicate⟩
  simp only [Env.sized]
  split
  · rename_i h
    exact h.2.2
  · exact Nat.zero_le _

theorem Env.sized_good : Env.sized.Good := ⟨rfl, fun _ => rfl⟩

theorem Env.sized_decryptsErased : Env.sized.DecryptsErased := by
  show erasedBlock.getD 0 0 = 0x43
  rfl

/-- An image of one byte, `A`, its only block a literal run. -/
def literalImage : HeadFields where
  fotaAlgo := 0x300
  appPartName := appPart.name
  downloadVersion := cStr ['2']
  currentVersion := cStr ['1']
  codeCrc := rtFotaCrc [0, 0, 0, 2, 0, 0x41]
  rawSize := 1
  comSize := 6

/-- The same with a block that claims 2^32 - 1 bytes. -/
def endlessImage : HeadFields :=
  { literalImage with codeCrc := rtFotaCrc [0xff, 0xff, 0xff, 0xff], comSize := 4 }

theorem literalImage_fastlz : (packHead literalImage).cmprs = rtFotaCmprsAlgoFastlz := by
  decide +kernel

/-- It reads two bytes at most. -/
theorem Env.sized_reads (input : List Byte) (length maxout : Nat) :
    (Env.sized.fastlzDecompress input length maxout).readTo ≤ 2 := by
  simp only [Env.sized]
  split
  · exact Nat.le_refl _
  · exact Nat.zero_le _

theorem literalImage_plain : (packHead literalImage).startIv = none := by
  decide +kernel

theorem literalImage_inBounds {flash : Flash}
    (hflash : flash = imageAt downloadPart literalImage [0, 0, 0, 2, 0, 0x41] fun _ => 0xff) :
    (StoredImage.mk Env.sized flash downloadPart (packHead literalImage)).InBounds := by
  have hp : downloadPart.Ok := falPartTable_ok _ (by decide)
  have hroom : sizeofPartHead + [0, 0, 0, 2, 0, 0x41].length ≤ downloadPart.len := by decide
  have hcom : (packHead literalImage).comSize = 6 := packHead_comSize literalImage
  have hsize : StoredImage.sizeAt ⟨Env.sized, flash, downloadPart, packHead literalImage⟩ 0 = 2 := by
    unfold StoredImage.sizeAt
    rw [StoredImage.bytes_imageAt _ literalImage_plain hp hflash hroom (by decide)]
    decide +kernel
  intro t ht _ _ _ _ _ _
  refine ⟨.inl literalImage_fastlz, ?_, fun x hr => ?_⟩
  · rintro rfl
    have happ : falPartitionFind Env.sized (packHead literalImage).appPartName = some appPart := by
      decide
    have hne : some appPart ≠ some downloadPart := by decide
    exact hne (happ.symm.trans ht)
  have hfits : ∀ y, StoredImage.Fits ⟨Env.sized, flash, downloadPart, packHead literalImage⟩ y := by
    intro y
    refine ⟨fun hq => ?_, ?_⟩
    · have hne : (packHead literalImage).cmprs ≠ rtFotaCmprsAlgoQuicklz := by
        rw [literalImage_fastlz]
        decide
      exact absurd hq hne
    · unfold StoredImage.ReadsInside StoredImage.decompressed
      rw [if_pos literalImage_fastlz]
      exact (Env.sized_reads _ _ _).trans (Nat.le_trans (by decide) (Nat.le_add_right 4096 _))
  refine ⟨fun hmain => ⟨?_, hfits _⟩, fun _ => hfits _⟩
  rcases hr.started with rfl | ⟨h1, -⟩
  · refine .inr ⟨?_, ?_⟩
    · rw [show Cursor.start.at = 0 from rfl, hsize]
      decide
    · rw [show Cursor.start.at = 0 from rfl, hsize]
      exact Nat.le_trans (by decide) (Nat.le_add_right 4096 _)
  · unfold StoredImage.InMain at hmain
    rw [hcom] at hmain
    omega

theorem copy_in_bounds_iff_literal :
    ∃ w, rtFotaPartFwVerify Env.sized (some downloadPart.name)
        (.powerOn (imageAt downloadPart literalImage [0, 0, 0, 2, 0, 0x41] fun _ => 0xff)) =
          .ok rtFotaNoErr w ∧
      NoFault w (final (rtFotaUpgrade Env.sized (some downloadPart.name)) w) := by
  obtain ⟨w, hverify, hflash, hw, -⟩ := @verify_imageAt Env.sized Env.sized_onBoard rfl downloadPart
    (by decide) literalImage [0, 0, 0, 2, 0, 0x41] (fun _ => 0xff) (by decide) rfl rfl (by decide)
  have hin := literalImage_inBounds hflash
  rw [← hw] at hin
  have hpart : (some downloadPart.name).bind (falPartitionFind Env.sized) = some downloadPart :=
    Env.sized_onBoard.find_name (by decide)
  exact ⟨w, hverify, (copy_in_bounds_iff Env.sized_onBoard Env.sized_keepsSizes
    Env.sized_decryptsErased hpart hverify).mpr hin Env.sized rfl norRom_confined ⟨rfl, rfl, rfl⟩⟩

theorem copy_leaves_buffers :
    ¬ ∀ (env : Env) (partName : Option (List Byte)) (w₀ w : World), env.OnBoard →
      env.rom.Confined → env.KeepsSizes →
      rtFotaPartFwVerify env partName w₀ = .ok rtFotaNoErr w →
      NoFault w (final (rtFotaUpgrade env partName) w) := by
  intro h
  have hp : downloadPart.Ok := falPartTable_ok _ (by decide)
  obtain ⟨w, hverify, hflash, hw, -⟩ := @verify_imageAt Env.sized Env.sized_onBoard rfl downloadPart
    (by decide) endlessImage [0xff, 0xff, 0xff, 0xff] (fun _ => 0xff) (by decide) rfl rfl (by decide)
  have hfastlz : w.fotaPartHead.cmprs = rtFotaCmprsAlgoFastlz := by
    rw [hw]
    decide +kernel
  have hplain : w.fotaPartHead.startIv = none := by
    rw [hw]
    decide +kernel
  have hcrypt : w.fotaPartHead.crypt ≠ rtFotaCryptAlgoXor := by
    rw [hw]
    decide +kernel
  have hraw : w.fotaPartHead.rawSize = 1 := by
    rw [hw]
    exact packHead_rawSize endlessImage
  have hcom : w.fotaPartHead.comSize = 4 := by
    rw [hw]
    exact packHead_comSize endlessImage
  have hc : w.fotaPartHead.Compressed := .inl hfastlz
  have hfind : falPartitionFind Env.sized w.fotaPartHead.appPartName = some appPart := by
    rw [hw]
    decide
  have hroom : sizeofPartHead + [0xff, 0xff, 0xff, 0xff].length ≤ downloadPart.len := by decide
  have hchunks : ChunksFit downloadPart 4 := by decide
  have ht : appPart.Ok := falPartTable_ok _ (by decide)
  have hpart : (some downloadPart.name).bind (falPartitionFind Env.sized) = some downloadPart :=
    Env.sized_onBoard.find_name (by decide)
  have happ : ∀ a, downloadPart.Covers a → ¬ appPart.Covers a := fun a =>
    falPartTable_disjoint (by decide) (by decide) (by decide)
  have j : CopyJob ⟨Env.sized, w.flash, downloadPart, w.fotaPartHead⟩ appPart :=
    ⟨norRom_confined, hp, ht, hfind, happ, by rw [hcom]; exact hchunks⟩
  refine Faulted.not_noFault ?_ (h Env.sized _ _ w rfl norRom_confined Env.sized_keepsSizes hverify)
  refine rtFotaUpgrade_faulted Env.sized_good.erases (fun _ => rfl) ht
    hpart hfind (by rw [hraw])
    (by rw [hraw]; decide) hcrypt (by rw [hfastlz]; decide) fun r w₂ hdone hflash₂ hhead => ?_
  have hsource : ∀ a, downloadPart.Covers a → w₂.flash a = w.flash a := by
    intro a ha
    rw [hflash₂, j.erase_apart (by rw [hraw]; decide) ha]
  obtain ⟨hctx, hat⟩ := SetupDone.cursorAt (m := ⟨Env.sized, w.flash, downloadPart, w.fotaPartHead⟩)
    hc hdone hhead hsource
  rw [hctx]
  refine hat.firstFaulted hc hp (fun _ => rfl) (by rw [hcom]; exact hchunks) (by rw [hcom]; decide) ?_
  refine blockSizeOf_first ?_
  rw [StoredImage.bytes_imageAt _ hplain hp hflash hroom (by decide)]
  decide

end Mh1903
