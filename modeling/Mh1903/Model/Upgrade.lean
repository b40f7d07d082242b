/-
  File:      Mh1903/Model/Upgrade.lean
  Subject:   `rt_fota.c`, second part: `rt_fota_upgrade` and what it calls.

  The locals of `rt_fota_upgrade` that its two loops change are `CopyState`, those it fixes
  before are `CopyCtx`. `copyStep` is one pass of the main loop, `tailStep` one of the tail loop;
  the five places that fetch a block keep their own code, as in the source.
-/
import Mh1903.Model.Verify

namespace Mh1903

open Library

/-! ## 1. Constants -/

def rtFotaAlgoBuffSize : Nat := 4096
def rtFotaBlockHeaderSize : Nat := 4
def rtFotaCmprsBufferSize : Nat := 4096
/-- `FASTLZ_BUFFER_PADDING(RT_FOTA_CMPRS_BUFFER_SIZE)` -/
def rtFotaFastlzBufferPadding : Nat := 66 + rtFotaCmprsBufferSize * 5 / 100
/-- `QLZ_BUFFER_PADDING` -/
def rtFotaQuicklzBufferPadding : Nat := 400

def rtFotaCryptAlgoNone : Nat := 0
def rtFotaCryptAlgoXor : Nat := 1
def rtFotaCryptAlgoAes256 : Nat := 2
def rtFotaCmprsAlgoGzip : Nat := 1 <<< 8
def rtFotaCmprsAlgoQuicklz : Nat := 2 <<< 8
def rtFotaCmprsAlgoFastlz : Nat := 3 <<< 8
def rtFotaCryptStatMask : Nat := 0xf
def rtFotaCmprsStatMask : Nat := 0xf <<< 8

/-- `RT_FOTA_ALGO_AES_IV` -/
def rtFotaAlgoAesIv : List Byte :=
  cStr ['0', '1', '2', '3', '4', '5', '6', '7', '8', '9', 'A', 'B', 'C', 'D', 'E', 'F']

/-- `fota_algo & RT_FOTA_CRYPT_STAT_MASK` -/
def RtFotaPartHead.crypt (h : RtFotaPartHead) : Nat := h.fotaAlgo &&& rtFotaCryptStatMask
/-- `fota_algo & RT_FOTA_CMPRS_STAT_MASK` -/
def RtFotaPartHead.cmprs (h : RtFotaPartHead) : Nat := h.fotaAlgo &&& rtFotaCmprsStatMask

/-! ## 2. The target partition -/

def rtFotaEraseAppPart (env : Env) : M Int := withExit do
  let w ← get
  match falPartitionFind env w.fotaPartHead.appPartName with
  | none => exit rtFotaFwVerifyFailed
  | some part => do
    let ret ← falPartitionErase env part 0 w.fotaPartHead.rawSize
    if ret < 0 then
      exit rtFotaPartEraseErr
    pure rtFotaNoErr

def rtFotaWriteAppPart (env : Env) (fwPos : Nat) (fwBuf : List Byte) (fwLen : Nat) : M Int :=
  withExit do
    let w ← get
    match falPartitionFind env w.fotaPartHead.appPartName with
    | none => exit rtFotaFwVerifyFailed
    | some part => do
      let ret ← falPartitionWrite env part fwPos fwBuf fwLen
      if ret < 0 then
        exit rtFotaPartWriteErr
      pure rtFotaNoErr

/-! ## 3. Reading and decrypting a chunk -/

/-- The loop of `tiny_aes_crypt_cbc` in mode `AES_DECRYPT` for `n` blocks: the vector and the
    output it leaves. -/
def tinyAesCryptCbc (ecb : List Byte → Fin 16 → Byte) :
    Nat → List Byte → List Byte → List Byte × List Byte
  | 0, iv, _ => (iv, [])
  | n + 1, iv, input =>
      let temp := input.take 16
      let output := List.zipWith (· ^^^ ·) (List.ofFn (ecb temp)) iv
      let rest := tinyAesCryptCbc ecb n temp (input.drop 16)
      (rest.1, output ++ rest.2)

/-- `rt_fota_read_part`: its result, the vector and the buffer it leaves. `aesIv` is `none` where
    `aes_ctx` and `aes_iv` are null. -/
def rtFotaReadPart (env : Env) (part : FalPartition) (readPos : Nat) (aesIv : Option (List Byte))
    (decryptBuf : List Byte) (decryptLen : Nat) : M (Int × Option (List Byte) × List Byte) := do
  if decryptLen % 16 ≠ 0 ∨ decryptLen > rtFotaAlgoBuffSize then
    pure (rtFotaGeneralErr, aesIv, decryptBuf)
  else
    let decryptBuf ← rtMemset decryptBuf 0 decryptLen
    match aesIv with
    | none => do
      let w ← get
      match falPartitionRead w.flash part (u32 (sizeofPartHead + readPos)) decryptLen with
      | none => pure (rtFotaPartReadErr, none, decryptBuf)
      | some bs =>
        if bs.length = 0 then
          pure (rtFotaPartReadErr, none, decryptBuf)
        else do
          let decryptBuf ← store decryptBuf 0 bs
          logRead ⟨readPos, bs, bs⟩
          pure ((bs.length : Int), none, decryptBuf)
    | some iv => do
      let encryptBuf ← rtMalloc env decryptLen
      match encryptBuf with
      | none => pure (rtFotaGeneralErr, some iv, decryptBuf)
      | some encryptBuf => do
        let encryptBuf ← rtMemset encryptBuf 0 decryptLen
        let w ← get
        match falPartitionRead w.flash part (u32 (sizeofPartHead + readPos)) decryptLen with
        | none => pure (rtFotaPartReadErr, some iv, decryptBuf)
        | some bs =>
          if bs.length = 0 ∨ bs.length % 16 ≠ 0 then
            pure (rtFotaPartReadErr, some iv, decryptBuf)
          else do
            let encryptBuf ← store encryptBuf 0 bs
            let (iv', out) := tinyAesCryptCbc env.tinyAesCryptEcb (bs.length / 16) iv encryptBuf
            let decryptBuf ← store decryptBuf 0 out
            logRead ⟨readPos, bs, out⟩
            pure ((bs.length : Int), some iv', decryptBuf)

/-! ## 4. The locals of `rt_fota_upgrade` -/

structure CopyCtx where
  part : FalPartition
  partHead : RtFotaPartHead
  paddingSize : Nat

structure CopyState where
  fwRawPos : Nat
  fwRawLen : Nat
  totalCopySize : Nat
  blockHdrBuf : List Byte
  blockHdrPos : Nat
  blockSize : Nat
  dcprsSize : Nat
  aesIv : Option (List Byte)
  cryptBuf : List Byte
  cmprsBuff : List Byte
  dcprsBuff : List Byte

/-- The size a block header gives: its four bytes, big-endian. -/
def blockSizeOf (hdr : List Byte) : Nat :=
  u32 ((hdr.getD 0 0).toNat * (1 <<< 24) + (hdr.getD 1 0).toNat * (1 <<< 16) +
    (hdr.getD 2 0).toNat * (1 <<< 8) + (hdr.getD 3 0).toNat)

/-- `fw_raw_len = rt_fota_read_part(…)`, the check of it and `fw_raw_pos += fw_raw_len`. -/
def readChunk (env : Env) (c : CopyCtx) (st : CopyState) : M CopyState := do
  let (len, aesIv, cryptBuf) ←
    rtFotaReadPart env c.part st.fwRawPos st.aesIv st.cryptBuf rtFotaAlgoBuffSize
  if len < 0 then
    exit rtFotaPartReadErr
  pure { st with
    fwRawLen := len.toNat, fwRawPos := st.fwRawPos + len.toNat, aesIv := aesIv
    cryptBuf := cryptBuf }

/-- `rt_memset(cmprs_buff, 0x0, RT_FOTA_CMPRS_BUFFER_SIZE + padding_size)` -/
def clearCmprs (c : CopyCtx) (st : CopyState) : M CopyState := do
  let cmprsBuff ← rtMemset st.cmprsBuff 0 (rtFotaCmprsBufferSize + c.paddingSize)
  pure { st with cmprsBuff := cmprsBuff }

/-! ## 5. Fetching the next block in the main loop -/

/-- `block_hdr_pos >= RT_FOTA_ALGO_BUFF_SIZE`: the block starts a new chunk. -/
def fetchNewChunk (env : Env) (c : CopyCtx) (st : CopyState) : M CopyState := do
  let st ← readChunk env c st
  let blockHdrBuf ← rtMemcpy env st.blockHdrBuf 0 st.cryptBuf 0 rtFotaBlockHeaderSize
  let st := { st with blockHdrBuf := blockHdrBuf, blockSize := blockSizeOf blockHdrBuf }
  let st ← clearCmprs c st
  let cmprsBuff ← rtMemcpy env st.cmprsBuff 0 st.cryptBuf rtFotaBlockHeaderSize st.blockSize
  pure { st with
    cmprsBuff := cmprsBuff, blockHdrPos := u32 (rtFotaBlockHeaderSize + st.blockSize) }

/-- `block_hdr_buf[hdr_tmp_pos++] = crypt_buf[block_hdr_pos++]` -/
def takeHdrByte (env : Env) (hdrTmpPos : Nat) (st : CopyState) : M CopyState := do
  let b ← load env st.cryptBuf st.blockHdrPos 1
  let blockHdrBuf ← store st.blockHdrBuf hdrTmpPos b
  pure { st with blockHdrBuf := blockHdrBuf, blockHdrPos := st.blockHdrPos + 1 }

/-- The body of the inner `else`: the header is complete inside the chunk. -/
def fetchPayload (env : Env) (c : CopyCtx) (st : CopyState) : M CopyState := do
  let st := { st with blockSize := blockSizeOf st.blockHdrBuf }
  let st ← clearCmprs c st
  let room := rtFotaAlgoBuffSize - st.blockHdrPos
  if st.blockSize > room then do
    let cmprsBuff ← rtMemcpy env st.cmprsBuff 0 st.cryptBuf st.blockHdrPos room
    let st ← readChunk env c { st with cmprsBuff := cmprsBuff }
    let rest := sub32 (u32 (st.blockSize + st.blockHdrPos)) rtFotaAlgoBuffSize
    let cmprsBuff ← rtMemcpy env st.cmprsBuff room st.cryptBuf 0 rest
    pure { st with cmprsBuff := cmprsBuff, blockHdrPos := rest }
  else do
    let cmprsBuff ← rtMemcpy env st.cmprsBuff 0 st.cryptBuf st.blockHdrPos st.blockSize
    pure { st with cmprsBuff := cmprsBuff, blockHdrPos := u32 (st.blockHdrPos + st.blockSize) }

/-- `while (block_hdr_pos < RT_FOTA_ALGO_BUFF_SIZE)`: the header byte by byte, then the payload.
    At most four header bytes are taken, so five passes are enough. -/
def fetchInChunkLoop (env : Env) (c : CopyCtx) : Nat → Nat → CopyState → M (Nat × CopyState)
  | 0, _, _ => throw .outOfFuel
  | fuel + 1, hdrTmpPos, st =>
      if st.blockHdrPos < rtFotaAlgoBuffSize then
        if hdrTmpPos < rtFotaBlockHeaderSize then do
          let st ← takeHdrByte env hdrTmpPos st
          fetchInChunkLoop env c fuel (hdrTmpPos + 1) st
        else do
          let st ← fetchPayload env c st
          pure (hdrTmpPos, st)
      else
        pure (hdrTmpPos, st)

/-- `while (hdr_tmp_pos < RT_FOTA_BLOCK_HEADER_SIZE)`, with `n` bytes to go. -/
def fillHdrLoop (env : Env) : Nat → CopyState → M CopyState
  | 0, st => pure st
  | n + 1, st => do
      let st ← takeHdrByte env (rtFotaBlockHeaderSize - (n + 1)) st
      fillHdrLoop env n st

/-- `hdr_tmp_pos < RT_FOTA_BLOCK_HEADER_SIZE`: the chunk ended inside the header. -/
def fetchSplitHdr (env : Env) (c : CopyCtx) (hdrTmpPos : Nat) (st : CopyState) :
    M CopyState := do
  let st ← readChunk env c st
  let st ← fillHdrLoop env (rtFotaBlockHeaderSize - hdrTmpPos) { st with blockHdrPos := 0 }
  let st := { st with blockSize := blockSizeOf st.blockHdrBuf }
  let st ← clearCmprs c st
  let cmprsBuff ← rtMemcpy env st.cmprsBuff 0 st.cryptBuf st.blockHdrPos st.blockSize
  pure { st with
    cmprsBuff := cmprsBuff
    blockHdrPos := u32 (st.blockHdrPos + st.blockSize) % rtFotaAlgoBuffSize }

/-- The `else` branch: the block starts inside the chunk at hand. -/
def fetchInChunk (env : Env) (c : CopyCtx) (st : CopyState) : M CopyState := do
  let (hdrTmpPos, st) ← fetchInChunkLoop env c 6 0 st
  if hdrTmpPos < rtFotaBlockHeaderSize then
    fetchSplitHdr env c hdrTmpPos st
  else
    pure st

def fetchBlock (env : Env) (c : CopyCtx) (st : CopyState) : M CopyState :=
  if st.blockHdrPos ≥ rtFotaAlgoBuffSize then fetchNewChunk env c st else fetchInChunk env c st

/-! ## 6. Decompressing and writing -/

/-- What the decompressor chosen by the header makes of `cmprs_buff`; `none` where the header
    chooses neither. -/
def decompress (env : Env) (h : RtFotaPartHead) (cmprsBuff : List Byte) (blockSize : Nat) :
    Option Decompressed :=
  if h.cmprs = rtFotaCmprsAlgoFastlz then
    some (env.fastlzDecompress cmprsBuff blockSize rtFotaCmprsBufferSize)
  else if h.cmprs = rtFotaCmprsAlgoQuicklz then
    some (env.qlzDecompress cmprsBuff)
  else
    none

/-- `rt_memset(dcprs_buff, …)` and the call of the decompressor, which reads `cmprs_buff`, behind its
    end too where the block says so, and puts into `dcprs_buff`. -/
def decompressBlock (env : Env) (c : CopyCtx) (st : CopyState) : M CopyState := do
  let dcprsBuff ← rtMemset st.dcprsBuff 0 rtFotaCmprsBufferSize
  match decompress env c.partHead st.cmprsBuff st.blockSize with
  | none => pure { st with dcprsBuff := dcprsBuff }
  | some d => do
    let _ ← load env st.cmprsBuff 0 d.readTo
    let dcprsBuff ← store dcprsBuff 0 d.written
    pure { st with dcprsBuff := dcprsBuff, dcprsSize := d.size }

/-- `rt_fota_write_app_part(total_copy_size, buf, len)`, its check and the new total. -/
def writeOut (env : Env) (buf : List Byte) (len : Nat) (st : CopyState) : M CopyState := do
  let ret ← rtFotaWriteAppPart env st.totalCopySize buf len
  if ret < 0 then
    exit rtFotaCopyFailed
  pure { st with totalCopySize := u32 (st.totalCopySize + len) }

/-- The end of both loop bodies: decompress, check, write. -/
def deliverBlock (env : Env) (c : CopyCtx) (st : CopyState) : M CopyState := do
  let st ← decompressBlock env c st
  if st.dcprsSize = 0 then
    exit rtFotaGeneralErr
  writeOut env st.dcprsBuff st.dcprsSize st

/-! ## 7. The two loops -/

/-- One pass of `while (fw_raw_pos < part_head->com_size)`. -/
def copyStep (env : Env) (c : CopyCtx) (st : CopyState) : M CopyState :=
  if c.partHead.cmprs ≠ rtFotaCryptAlgoNone then do
    let st ← fetchBlock env c st
    deliverBlock env c st
  else do
    let st ← readChunk env c st
    writeOut env st.cryptBuf st.fwRawLen st

def copyLoop (env : Env) (c : CopyCtx) : Nat → CopyState → M CopyState
  | 0, _ => throw .outOfFuel
  | fuel + 1, st =>
      if st.fwRawPos < c.partHead.comSize then do
        let st ← copyStep env c st
        copyLoop env c fuel st
      else
        pure st

/-- One pass of `while (total_copy_size < part_head->raw_size)`; `none` is its `break`. -/
def tailStep (env : Env) (c : CopyCtx) (st : CopyState) : M (Option CopyState) := do
  if st.blockHdrPos < st.fwRawLen ∧ st.fwRawLen - st.blockHdrPos > rtFotaBlockHeaderSize then
    let blockHdrBuf ← rtMemcpy env st.blockHdrBuf 0 st.cryptBuf st.blockHdrPos rtFotaBlockHeaderSize
    let st := { st with blockHdrBuf := blockHdrBuf, blockSize := blockSizeOf blockHdrBuf }
    if st.fwRawLen - st.blockHdrPos - rtFotaBlockHeaderSize ≥ st.blockSize then
      let st ← clearCmprs c st
      let cmprsBuff ← rtMemcpy env st.cmprsBuff 0 st.cryptBuf
        (st.blockHdrPos + rtFotaBlockHeaderSize) st.blockSize
      let st ← deliverBlock env c { st with
        cmprsBuff := cmprsBuff
        blockHdrPos := st.blockHdrPos + (st.blockSize + rtFotaBlockHeaderSize) }
      pure (some st)
    else
      pure none
  else
    pure none

/-- The tail loop and the total it leaves. -/
def tailLoop (env : Env) (c : CopyCtx) : Nat → CopyState → M Nat
  | 0, _ => throw .outOfFuel
  | fuel + 1, st =>
      if st.totalCopySize < c.partHead.rawSize then do
        let next ← tailStep env c st
        match next with
        | some st' => tailLoop env c fuel st'
        | none => pure st.totalCopySize
      else
        pure st.totalCopySize

/-! ## 8. The whole function -/

/-- `aes_ctx` and `aes_iv`: null without AES256, otherwise allocated and set. Of `aes_ctx` (and of
    `dcprs_state` below) only the outcome of the allocation matters. -/
def setupCrypt (env : Env) (h : RtFotaPartHead) : M (Option (List Byte)) := do
  if h.crypt = rtFotaCryptAlgoAes256 then
    let aesCtx ← rtMalloc env 0
    let aesIv ← rtMalloc env (rtFotaAlgoAesIv.length + 1)
    if aesCtx = none ∨ aesIv = none then
      exit rtFotaNoMemErr
    pure (some rtFotaAlgoAesIv)
  else if h.crypt = rtFotaCryptAlgoXor then
    exit rtFotaGeneralErr
  else
    pure none

/-- `cmprs_buff`, `dcprs_buff` and `padding_size`; null where no decompressor is chosen. -/
def setupCmprs (env : Env) (h : RtFotaPartHead) : M (List Byte × List Byte × Nat) := do
  if h.cmprs = rtFotaCmprsAlgoFastlz then
    let cmprsBuff ← rtMalloc env (rtFotaCmprsBufferSize + rtFotaFastlzBufferPadding)
    let dcprsBuff ← rtMalloc env rtFotaCmprsBufferSize
    match cmprsBuff, dcprsBuff with
    | some cmprsBuff, some dcprsBuff => pure (cmprsBuff, dcprsBuff, rtFotaFastlzBufferPadding)
    | _, _ => exit rtFotaNoMemErr
  else if h.cmprs = rtFotaCmprsAlgoQuicklz then
    let cmprsBuff ← rtMalloc env (rtFotaCmprsBufferSize + rtFotaQuicklzBufferPadding)
    let dcprsBuff ← rtMalloc env rtFotaCmprsBufferSize
    let dcprsState ← rtMalloc env 0
    match cmprsBuff, dcprsBuff, dcprsState with
    | some cmprsBuff, some dcprsBuff, some _ =>
        pure (cmprsBuff, dcprsBuff, rtFotaQuicklzBufferPadding)
    | _, _, _ => exit rtFotaNoMemErr
  else if h.cmprs = rtFotaCmprsAlgoGzip then
    exit rtFotaGeneralErr
  else
    pure ([], [], 0)

/-- Everything in front of the main loop, the erase of the target included. A null `part_name` and
    one that is not in the table give the same error. -/
def upgradeSetup (env : Env) (partName : Option (List Byte)) : M (CopyCtx × CopyState) := do
  match partName.bind (falPartitionFind env) with
  | none => exit rtFotaGeneralErr
  | some part => do
    let fotaErr ← rtFotaEraseAppPart env
    if fotaErr ≠ rtFotaNoErr then
      exit fotaErr
    let w ← get
    let partHead := w.fotaPartHead
    let cryptBuf ← rtMalloc env rtFotaAlgoBuffSize
    match cryptBuf with
    | none => exit rtFotaNoMemErr
    | some cryptBuf => do
      let aesIv ← setupCrypt env partHead
      let (cmprsBuff, dcprsBuff, paddingSize) ← setupCmprs env partHead
      pure (⟨part, partHead, paddingSize⟩,
        { fwRawPos := 0, fwRawLen := 0, totalCopySize := 0
          blockHdrBuf := (List.range rtFotaBlockHeaderSize).map env.memory
          blockHdrPos := rtFotaAlgoBuffSize, blockSize := 0, dcprsSize := 0
          aesIv := aesIv, cryptBuf := cryptBuf, cmprsBuff := cmprsBuff, dcprsBuff := dcprsBuff })

/-- Passes the main loop can make: each chunk holds at most 1024 blocks. -/
def copyFuel (comSize : Nat) : Nat := (comSize / rtFotaAlgoBuffSize + 2) * 1026

/-- Passes the tail loop can make. -/
def tailFuel : Nat := 1026

/-- The part of `rt_fota_upgrade` behind its setup. -/
def upgradeCopy (env : Env) (c : CopyCtx) (st : CopyState) : M Int := do
  let st ← copyLoop env c (copyFuel c.partHead.comSize) st
  let totalCopySize ←
    if c.partHead.cmprs ≠ rtFotaCryptAlgoNone then
      tailLoop env c tailFuel st
    else
      pure st.totalCopySize
  if totalCopySize < c.partHead.rawSize then
    exit rtFotaGeneralErr
  pure rtFotaNoErr

def rtFotaUpgrade (env : Env) (partName : Option (List Byte)) : M Int := withExit do
  let (c, st) ← upgradeSetup env partName
  upgradeCopy env c st

end Mh1903
