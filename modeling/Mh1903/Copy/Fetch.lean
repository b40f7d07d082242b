/-
  File:      Mh1903/Copy/Fetch.lean
  Subject:   FETCHING A BLOCK. The main loop takes a block out of the chunks in four ways; on the
             chunk at hand and the next one all of them do one thing: read the size at the cursor,
             put that many bytes into the clean buffer, move the cursor behind them. They do so as
             long as the block fits the seam it crosses (`FitsAt`).
-/
import Mh1903.Copy.Chunk

namespace Mh1903

open Library

/-! ## 1. Buffers inside their bounds -/

theorem rtMemcpy_eq (env : Env) {dst src : List Byte} {dstOff srcOff n : Nat}
    (hs : srcOff + n ≤ src.length) (hd : dstOff + n ≤ dst.length) (w : World) :
    rtMemcpy env dst dstOff src srcOff n w =
      .ok (overwrite dst dstOff ((src.drop srcOff).take n)) w := by
  have hlen : ((src.drop srcOff).take n).length = n := by
    rw [List.length_take, List.length_drop]; omega
  unfold rtMemcpy
  rw [bind_ok (load_eq env hs w), store_eq (by rw [hlen]; exact hd)]

/-- A block in front of zeros. -/
theorem overwrite_replicate {n : Nat} {bs : List Byte} (h : bs.length ≤ n) :
    overwrite (List.replicate n 0) 0 bs = padTo n bs := by
  rw [overwrite_zero (by rw [List.length_replicate]; exact h), List.drop_replicate]
  unfold padTo
  rw [List.take_append, List.take_of_length_le h, List.take_replicate, Nat.min_eq_left (Nat.sub_le _ _)]

/-- A block is copied into the clean buffer. -/
theorem rtMemcpy_clean (env : Env) {src : List Byte} {m off n : Nat} (hs : off + n ≤ src.length)
    (hn : n ≤ m) (w : World) :
    rtMemcpy env (List.replicate m 0) 0 src off n w = .ok (padTo m ((src.drop off).take n)) w := by
  rw [rtMemcpy_eq env hs (by rw [List.length_replicate]; omega), overwrite_replicate (by
    rw [List.length_take]; omega)]

theorem clearCmprs_eq {c : CopyCtx} {st : CopyState}
    (h : st.cmprsBuff.length = rtFotaCmprsBufferSize + c.paddingSize) (w : World) :
    clearCmprs c st w =
      .ok { st with cmprsBuff := List.replicate (rtFotaCmprsBufferSize + c.paddingSize) 0 } w := by
  unfold clearCmprs
  rw [bind_ok (rtMemset_full h w)]
  rfl

/-! ## 2. Header bytes -/

section Header

variable {env : Env} {c : CopyCtx} {w : World}

theorem takeHdrByte_eq {i : Nat} {st : CopyState} (hbuf : st.blockHdrPos + 1 ≤ st.cryptBuf.length)
    (hi : i + 1 ≤ st.blockHdrBuf.length) :
    takeHdrByte env i st w = .ok { st with
      blockHdrBuf := overwrite st.blockHdrBuf i ((st.cryptBuf.drop st.blockHdrPos).take 1)
      blockHdrPos := st.blockHdrPos + 1 } w := by
  have hlen : ((st.cryptBuf.drop st.blockHdrPos).take 1).length = 1 := by
    rw [List.length_take, List.length_drop]; omega
  unfold takeHdrByte
  rw [bind_ok (load_eq env hbuf w), bind_ok (store_eq (by rw [hlen]; exact hi) w)]
  rfl

/-- Two puts one behind the other. -/
theorem overwrite_overwrite {α : Type} (buf a b : List α) (i : Nat) :
    overwrite (overwrite buf i a) (i + a.length) b = overwrite buf i (a ++ b) := by
  refine List.ext_getElem? fun j => ?_
  simp only [getElem?_overwrite, length_overwrite, List.length_append]
  by_cases hb : i + a.length ≤ j ∧ j < i + a.length + b.length ∧ j < buf.length
  · rw [if_pos hb, if_pos (by omega), List.getElem?_append_right (by omega)]
    congr 1
    omega
  · rw [if_neg hb]
    by_cases ha : i ≤ j ∧ j < i + a.length ∧ j < buf.length
    · rw [if_pos ha, if_pos (by omega), List.getElem?_append_left (by omega)]
    · rw [if_neg ha, if_neg (by omega)]

theorem take_one_append {α : Type} (l : List α) (p n : Nat) :
    (l.drop p).take 1 ++ (l.drop (p + 1)).take n = (l.drop p).take (n + 1) := by
  rw [Nat.add_comm n 1, List.take_add, List.drop_drop]

/-- `n` header bytes are taken out of the chunk. -/
theorem fetchInChunkLoop_header (n fuel i : Nat) {st : CopyState} (hi : i + n ≤ 4)
    (hlen : st.cryptBuf.length = 4096) (hhdr : st.blockHdrBuf.length = 4)
    (hpos : st.blockHdrPos + n ≤ 4096) :
    fetchInChunkLoop env c (fuel + n) i st w = fetchInChunkLoop env c fuel (i + n) { st with
      blockHdrBuf := overwrite st.blockHdrBuf i ((st.cryptBuf.drop st.blockHdrPos).take n)
      blockHdrPos := st.blockHdrPos + n } w := by
  induction n generalizing i st with
  | zero =>
      have hnil : overwrite st.blockHdrBuf i [] = st.blockHdrBuf := by
        simp [overwrite]
      simp only [Nat.add_zero, List.take_zero, hnil]
  | succ n ih =>
      rw [← Nat.add_assoc]
      show fetchInChunkLoop env c (fuel + n + 1) i st w = _
      rw [fetchInChunkLoop, if_pos (by simp only [rtFotaAlgoBuffSize]; omega),
        if_pos (by simp only [rtFotaBlockHeaderSize]; omega),
        bind_ok (takeHdrByte_eq (by omega) (by omega)), ih (i + 1) (by omega)]
      rotate_left
      · exact hlen
      · simp only [length_overwrite]; exact hhdr
      · simp only; omega
      have hone : ((st.cryptBuf.drop st.blockHdrPos).take 1).length = 1 := by
        rw [List.length_take, List.length_drop]; omega
      have hput := overwrite_overwrite st.blockHdrBuf
        ((st.cryptBuf.drop st.blockHdrPos).take 1)
        ((st.cryptBuf.drop (st.blockHdrPos + 1)).take n) i
      rw [hone, take_one_append] at hput
      simp only [hput, Nat.add_assoc, Nat.add_comm 1 n]

/-- A complete header inside the chunk: the payload follows, and the loop is left. -/
theorem fetchInChunkLoop_payload (fuel : Nat) (st : CopyState) (hpos : st.blockHdrPos < 4096) :
    fetchInChunkLoop env c (fuel + 1) 4 st = fetchPayload env c st >>= fun st => pure (4, st) := by
  rw [fetchInChunkLoop, if_pos (by simp only [rtFotaAlgoBuffSize]; exact hpos), if_neg (by decide)]

/-- The end of the chunk leaves the loop. -/
theorem fetchInChunkLoop_end {fuel i : Nat} {st : CopyState} (hpos : st.blockHdrPos = 4096) :
    fetchInChunkLoop env c (fuel + 1) i st w = .ok (i, st) w := by
  rw [fetchInChunkLoop, if_neg (by rw [hpos]; decide)]
  rfl

/-- The loop that fills up a split header. -/
theorem fillHdrLoop_eq {n : Nat} {st : CopyState} (hn : n ≤ 4)
    (hlen : st.cryptBuf.length = 4096) (hhdr : st.blockHdrBuf.length = 4)
    (hpos : st.blockHdrPos + n ≤ 4096) :
    fillHdrLoop env n st w = .ok { st with
      blockHdrBuf := overwrite st.blockHdrBuf (4 - n) ((st.cryptBuf.drop st.blockHdrPos).take n)
      blockHdrPos := st.blockHdrPos + n } w := by
  induction n generalizing st with
  | zero =>
      have hnil : overwrite st.blockHdrBuf 4 [] = st.blockHdrBuf := by
        simp [overwrite]
      simp only [Nat.add_zero, List.take_zero, Nat.sub_zero, hnil]
      rfl
  | succ n ih =>
      have hfour : rtFotaBlockHeaderSize - (n + 1) = 4 - (n + 1) := rfl
      rw [fillHdrLoop, hfour, bind_ok (takeHdrByte_eq (by omega) (by omega)), ih (by omega)]
      rotate_left
      · exact hlen
      · simp only [length_overwrite]; exact hhdr
      · simp only; omega
      have hone : ((st.cryptBuf.drop st.blockHdrPos).take 1).length = 1 := by
        rw [List.length_take, List.length_drop]; omega
      have hput := overwrite_overwrite st.blockHdrBuf
        ((st.cryptBuf.drop st.blockHdrPos).take 1)
        ((st.cryptBuf.drop (st.blockHdrPos + 1)).take n) (4 - (n + 1))
      have hnext : 4 - (n + 1) + 1 = 4 - n := by omega
      rw [hone, take_one_append, hnext] at hput
      simp only [hput, Nat.add_assoc, Nat.add_comm 1 n]

end Header

/-! ## 3. The block at the cursor -/

section Block

variable (env : Env) (flash : Flash) (part : FalPartition) (st : CopyState)

/-- The four bytes at the cursor. -/
def CopyState.headerBytes : List Byte := st.bytesAt env flash part st.blockHdrPos 4

/-- The size they give. -/
def CopyState.headerSize : Nat := blockSizeOf (st.headerBytes env flash part)

/-- The bytes behind them. -/
def CopyState.payload : List Byte :=
  st.bytesAt env flash part (st.blockHdrPos + 4) (st.headerSize env flash part)

end Block

/-- The state with a block fetched, `n` the size of its buffer, and the cursor moved to `pos`. -/
def CopyState.withBlock (st : CopyState) (n : Nat) (hdr payload : List Byte) (pos : Nat) :
    CopyState :=
  { st with
    blockHdrBuf := hdr, blockSize := blockSizeOf hdr, cmprsBuff := padTo n payload
    blockHdrPos := pos }

theorem blockSizeOf_lt (hdr : List Byte) : blockSizeOf hdr < 4294967296 := u32_lt _

/-- A block of `s` bytes, its header at offset `p` of the chunk, fits what its branch copies at
    once: behind the header at a chunk's start the rest of the chunk, behind a header inside a chunk
    that chunk and the next, behind a split header the rest of the next one. A header that ends with
    the chunk is not looked at. -/
def FitsAt (p s : Nat) : Prop :=
  if 4096 ≤ p then 4 + s ≤ 4096
  else if p ≤ 4091 then p + 4 + s ≤ 8192
  else p ≠ 4092 ∧ p + s ≤ 8188

instance (p s : Nat) : Decidable (FitsAt p s) :=
  inferInstanceAs (Decidable (if 4096 ≤ p then 4 + s ≤ 4096
    else if p ≤ 4091 then p + 4 + s ≤ 8192 else p ≠ 4092 ∧ p + s ≤ 8188))

/-- Where the cursor stands afterwards; a block behind a split header that ends with its chunk
    wraps it around. -/
def nextPos (p s : Nat) : Nat :=
  if p + 4 + s ≤ 4096 then p + 4 + s
  else if 4093 ≤ p ∧ p < 4096 then (p + 4 + s - 4096) % 4096
  else p + 4 + s - 4096

theorem FitsAt.span {p s : Nat} (h : FitsAt p s) (hp : p ≤ 4096) : p + 4 + s ≤ 8192 := by
  unfold FitsAt at h
  split at h
  · omega
  · split at h <;> omega

theorem nextPos_le {p s : Nat} (h : FitsAt p s) (hp : p ≤ 4096) : nextPos p s ≤ 4096 := by
  have hspan := h.span hp
  unfold nextPos
  split
  · assumption
  · split <;> omega

/-- The buffers as the loops find them. -/
structure FetchReady (c : CopyCtx) (st : CopyState) : Prop extends ReadReady c.part st where
  hdr : st.blockHdrBuf.length = 4
  cmprs : st.cmprsBuff.length = 4096 + c.paddingSize
  cursor : st.blockHdrPos ≤ 4096

section Fetch

variable {env : Env} {c : CopyCtx} {st : CopyState} {w : World}

/-- Both header and payload lie in the two chunks. -/
theorem FetchReady.length_header (h : FetchReady c st) {flash : Flash} :
    (st.headerBytes env flash c.part).length = 4 :=
  h.length_bytesAt (by have := h.cursor; omega)

/-- A header inside the chunk is read, then its payload. -/
theorem fetchInChunk_complete (h : FetchReady c st) (hpos : st.blockHdrPos ≤ 4091) :
    fetchInChunk env c st w = fetchPayload env c { st with
      blockHdrBuf := st.headerBytes env w.flash c.part
      blockHdrPos := st.blockHdrPos + 4 } w := by
  have hhdr : overwrite st.blockHdrBuf 0 ((st.cryptBuf.drop st.blockHdrPos).take 4) =
      st.headerBytes env w.flash c.part := by
    rw [← h.bytesAt_front env w.flash (by omega)]
    exact overwrite_full (by rw [h.length_bytesAt (by omega), h.hdr])
  have hloop : fetchInChunkLoop env c 6 0 st w = fetchInChunkLoop env c 2 4 { st with
      blockHdrBuf := st.headerBytes env w.flash c.part
      blockHdrPos := st.blockHdrPos + 4 } w := by
    rw [← hhdr]
    exact fetchInChunkLoop_header 4 2 0 (by omega) h.len h.hdr (by omega)
  generalize st.headerBytes env w.flash c.part = hdr at hloop
  rw [fetchInChunkLoop_payload 1 { st with
    blockHdrBuf := hdr, blockHdrPos := st.blockHdrPos + 4 } (by simp only; omega)] at hloop
  unfold fetchInChunk
  cases hpay : fetchPayload env c { st with
      blockHdrBuf := hdr, blockHdrPos := st.blockHdrPos + 4 } w with
  | ok st' w' =>
      rw [bind_ok hpay] at hloop
      exact bind_ok hloop
  | error e w' =>
      rw [bind_error hpay] at hloop
      exact bind_error hloop

/-- A header that ends with the chunk is read, and nothing else happens: what is decompressed next
    is the block before. -/
theorem fetchInChunk_end (h : FetchReady c st) (hpos : st.blockHdrPos = 4092) :
    fetchInChunk env c st w = .ok { st with
      blockHdrBuf := st.headerBytes env w.flash c.part, blockHdrPos := 4096 } w := by
  have hhdr : overwrite st.blockHdrBuf 0 ((st.cryptBuf.drop st.blockHdrPos).take 4) =
      st.headerBytes env w.flash c.part := by
    rw [← h.bytesAt_front env w.flash (by omega)]
    exact overwrite_full (by rw [h.length_bytesAt (by omega), h.hdr])
  have hloop := @fetchInChunkLoop_header env c w 4 2 0 st (by omega) h.len h.hdr (by omega)
  rw [hhdr] at hloop
  replace hloop := hloop.trans (fetchInChunkLoop_end (by simp only [hpos]))
  simp only [hpos] at hloop
  exact bind_ok hloop

/-- Of a split header the first bytes are read, then the rest. -/
theorem fetchInChunk_split (h : FetchReady c st) (hlow : 4093 ≤ st.blockHdrPos)
    (hhigh : st.blockHdrPos < 4096) :
    fetchInChunk env c st w = fetchSplitHdr env c (4096 - st.blockHdrPos) { st with
      blockHdrBuf := overwrite st.blockHdrBuf 0
        ((st.cryptBuf.drop st.blockHdrPos).take (4096 - st.blockHdrPos))
      blockHdrPos := 4096 } w := by
  obtain ⟨n, hn⟩ : ∃ n, 4096 = st.blockHdrPos + n := ⟨4096 - st.blockHdrPos, by omega⟩
  have hsub : 4096 - st.blockHdrPos = n := by omega
  have hsix : 6 = 6 - n - 1 + 1 + n := by omega
  have hloop := @fetchInChunkLoop_header env c w n (6 - n - 1 + 1) 0 st (by omega) h.len h.hdr
    (by omega)
  rw [← hsix, Nat.zero_add, ← hn] at hloop
  replace hloop := hloop.trans (fetchInChunkLoop_end rfl)
  rw [hsub]
  unfold fetchInChunk
  rw [bind_ok hloop]
  exact congrFun (if_pos (by simp only [rtFotaBlockHeaderSize]; omega)) w

section Start

variable (h : FetchReady c st) {s : Nat} (hs : st.headerSize env w.flash c.part = s)
include h hs

/-- A new chunk read, its header taken, the buffer cleared: the block is copied next. -/
theorem fetchNewChunk_start (hp : c.part.Ok) (hpos : st.blockHdrPos = 4096)
    (hread : Readable env c.part st.fwRawPos st.aesIv w) :
    fetchNewChunk env c st w = (do
      let cmprsBuff ← rtMemcpy env (List.replicate (4096 + c.paddingSize) 0) 0
        (st.next env w.flash c.part).2 4 s
      pure { st.advance env w.flash c.part with
        blockHdrBuf := st.headerBytes env w.flash c.part, blockSize := s, cmprsBuff := cmprsBuff
        blockHdrPos := u32 (rtFotaBlockHeaderSize + s) }) (w.read env c.part st.fwRawPos st.aesIv) := by
  have hlen := h.length_next env w.flash
  have hnext := (readChunk_eq env hp h.toReadReady w).1 hread
  generalize w.read env c.part st.fwRawPos st.aesIv = w' at hnext
  have hbytes : st.headerBytes env w.flash c.part =
      ((st.next env w.flash c.part).2.drop 0).take 4 := by
    rw [CopyState.headerBytes, hpos]
    exact h.bytesAt_next 0 4
  have hhdr : rtMemcpy env st.blockHdrBuf 0 (st.next env w.flash c.part).2 0 4 w' =
      .ok (st.headerBytes env w.flash c.part) w' := by
    rw [rtMemcpy_eq env (by omega) (by rw [h.hdr]), ← hbytes,
      overwrite_full (by rw [h.length_header, h.hdr])]
  have hsize : blockSizeOf (st.headerBytes env w.flash c.part) = s := hs
  unfold fetchNewChunk
  rw [bind_ok hnext]
  refine (bind_ok hhdr).trans ?_
  refine (bind_ok (clearCmprs_eq ?_ _)).trans ?_
  · exact h.cmprs
  · simp only [hsize]
    rfl

/-- A block that goes on in the next chunk: its front is copied, that chunk is read, and the rest is
    copied next. -/
theorem fetchPayload_start (hp : c.part.Ok) (hpos : st.blockHdrPos + 4 ≤ 4096)
    (hover : 4096 < st.blockHdrPos + 4 + s) :
    (Readable env c.part st.fwRawPos st.aesIv w →
      fetchPayload env c { st with
          blockHdrBuf := st.headerBytes env w.flash c.part
          blockHdrPos := st.blockHdrPos + 4 } w = (do
        let cmprsBuff ← rtMemcpy env (padTo (4096 + c.paddingSize)
            (st.bytesAt env w.flash c.part (st.blockHdrPos + 4) (4096 - (st.blockHdrPos + 4))))
          (4096 - (st.blockHdrPos + 4)) (st.next env w.flash c.part).2 0
          (st.blockHdrPos + 4 + s - 4096)
        pure { st.advance env w.flash c.part with
          blockHdrBuf := st.headerBytes env w.flash c.part, blockSize := s, cmprsBuff := cmprsBuff
          blockHdrPos := st.blockHdrPos + 4 + s - 4096 }) (w.read env c.part st.fwRawPos st.aesIv)) ∧
    (¬ Readable env c.part st.fwRawPos st.aesIv w →
      fetchPayload env c { st with
          blockHdrBuf := st.headerBytes env w.flash c.part
          blockHdrPos := st.blockHdrPos + 4 } w =
        .error (.exit rtFotaPartReadErr) (w.read env c.part st.fwRawPos st.aesIv)) := by
  have hsize : blockSizeOf (st.headerBytes env w.flash c.part) = s := hs
  have hlt := blockSizeOf_lt (st.headerBytes env w.flash c.part)
  obtain ⟨room, hroom⟩ : ∃ room, st.blockHdrPos + 4 + room = 4096 :=
    ⟨4096 - (st.blockHdrPos + 4), by omega⟩
  have hsub : 4096 - (st.blockHdrPos + 4) = room := by omega
  have hsub' : rtFotaAlgoBuffSize - (st.blockHdrPos + 4) = room := hsub
  have hfront : rtMemcpy env (List.replicate (4096 + c.paddingSize) 0) 0 st.cryptBuf
      (st.blockHdrPos + 4) room w = .ok (padTo (4096 + c.paddingSize)
        (st.bytesAt env w.flash c.part (st.blockHdrPos + 4) room)) w := by
    rw [rtMemcpy_clean env (by rw [h.len]; omega) (by omega),
      ← h.bytesAt_front env w.flash (by omega)]
  -- the sum may exceed 32 bits, what is left of it does not
  have hrest : sub32 (u32 (s + (st.blockHdrPos + 4))) rtFotaAlgoBuffSize =
      st.blockHdrPos + 4 + s - 4096 := by
    unfold sub32 u32
    simp only [rtFotaAlgoBuffSize]
    omega
  have hcond : s > rtFotaAlgoBuffSize - (st.blockHdrPos + 4) := by rw [hsub']; omega
  have hnext := readChunk_eq env hp (show ReadReady c.part { st with
      blockHdrBuf := st.headerBytes env w.flash c.part
      blockHdrPos := st.blockHdrPos + 4, blockSize := s
      cmprsBuff := padTo (4096 + c.paddingSize)
        (st.bytesAt env w.flash c.part (st.blockHdrPos + 4) room) } from ⟨h.pos, h.iv, h.len⟩) w
  have hstart : fetchPayload env c { st with
        blockHdrBuf := st.headerBytes env w.flash c.part
        blockHdrPos := st.blockHdrPos + 4 } w =
      (readChunk env c { st with
        blockHdrBuf := st.headerBytes env w.flash c.part
        blockHdrPos := st.blockHdrPos + 4, blockSize := s
        cmprsBuff := padTo (4096 + c.paddingSize)
          (st.bytesAt env w.flash c.part (st.blockHdrPos + 4) room) } >>=
        fun st => do
          let rest := sub32 (u32 (st.blockSize + st.blockHdrPos)) rtFotaAlgoBuffSize
          let cmprsBuff ← rtMemcpy env st.cmprsBuff room st.cryptBuf 0 rest
          pure { st with cmprsBuff := cmprsBuff, blockHdrPos := rest }) w := by
    unfold fetchPayload
    refine (bind_ok (clearCmprs_eq ?_ _)).trans ?_
    · exact h.cmprs
    simp only [hsize]
    refine (congrFun (if_pos hcond) w).trans ?_
    rw [hsub']
    exact bind_ok hfront
  rw [hstart, hsub]
  refine ⟨fun hread => ?_, fun hread => bind_error (hnext.2 hread)⟩
  refine (bind_ok (hnext.1 hread)).trans ?_
  simp only [CopyState.advance]
  rw [hrest]
  rfl

/-- A split header: the next chunk is read, the header filled up, the buffer cleared, and the block is
    copied next. -/
theorem fetchSplitHdr_start (hp : c.part.Ok) (hlow : 4093 ≤ st.blockHdrPos)
    (hhigh : st.blockHdrPos < 4096) :
    (Readable env c.part st.fwRawPos st.aesIv w →
      fetchSplitHdr env c (4096 - st.blockHdrPos) { st with
          blockHdrBuf := overwrite st.blockHdrBuf 0
            ((st.cryptBuf.drop st.blockHdrPos).take (4096 - st.blockHdrPos))
          blockHdrPos := 4096 } w = (do
        let cmprsBuff ← rtMemcpy env (List.replicate (4096 + c.paddingSize) 0) 0
          (st.next env w.flash c.part).2 (st.blockHdrPos + 4 - 4096) s
        pure { st.advance env w.flash c.part with
          blockHdrBuf := st.headerBytes env w.flash c.part, blockSize := s, cmprsBuff := cmprsBuff
          blockHdrPos := u32 (st.blockHdrPos + 4 - 4096 + s) % rtFotaAlgoBuffSize })
        (w.read env c.part st.fwRawPos st.aesIv)) ∧
    (¬ Readable env c.part st.fwRawPos st.aesIv w →
      fetchSplitHdr env c (4096 - st.blockHdrPos) { st with
          blockHdrBuf := overwrite st.blockHdrBuf 0
            ((st.cryptBuf.drop st.blockHdrPos).take (4096 - st.blockHdrPos))
          blockHdrPos := 4096 } w =
        .error (.exit rtFotaPartReadErr) (w.read env c.part st.fwRawPos st.aesIv)) := by
  obtain ⟨n, hn⟩ : ∃ n, st.blockHdrPos + 4 = 4096 + n := ⟨st.blockHdrPos - 4092, by omega⟩
  obtain ⟨m, hm⟩ : ∃ m, st.blockHdrPos + m = 4096 := ⟨4096 - st.blockHdrPos, by omega⟩
  have hm' : 4096 - st.blockHdrPos = m := by omega
  have hn' : rtFotaBlockHeaderSize - m = n := by simp only [rtFotaBlockHeaderSize]; omega
  have hn₂ : st.blockHdrPos + 4 - 4096 = n := by omega
  have hmn : m + n = 4 := by omega
  have hsize : blockSizeOf (st.headerBytes env w.flash c.part) = s := hs
  have hlen := h.length_next env w.flash
  have hnext := readChunk_eq env hp (show ReadReady c.part { st with
      blockHdrBuf := overwrite st.blockHdrBuf 0
        ((st.cryptBuf.drop st.blockHdrPos).take m)
      blockHdrPos := 4096 } from ⟨h.pos, h.iv, h.len⟩) w
  rw [hm']
  unfold fetchSplitHdr
  refine ⟨fun hread => ?_, fun hread => bind_error (hnext.2 hread)⟩
  refine (bind_ok (hnext.1 hread)).trans ?_
  generalize w.read env c.part st.fwRawPos st.aesIv = w'
  -- the two parts of the header
  have hjoin : overwrite (overwrite st.blockHdrBuf 0 ((st.cryptBuf.drop st.blockHdrPos).take m))
      (4 - n) (((st.next env w.flash c.part).2.drop 0).take n) =
      st.headerBytes env w.flash c.part := by
    have happend := @overwrite_append _ st.blockHdrBuf
      (st.bytesAt env w.flash c.part st.blockHdrPos m)
      (st.bytesAt env w.flash c.part (4096 + 0) n)
      (by rw [h.length_bytesAt (by omega), h.length_bytesAt (by omega), h.hdr]; omega)
    have hfour : 4 - n = m := by omega
    have hheader : st.bytesAt env w.flash c.part st.blockHdrPos m ++
        st.bytesAt env w.flash c.part (4096 + 0) n = st.headerBytes env w.flash c.part := by
      have hmid : 4096 + 0 = st.blockHdrPos + m := hm.symm
      rw [hmid, bytesAt_append, hmn]
      rfl
    have hfull : overwrite st.blockHdrBuf 0 (st.headerBytes env w.flash c.part) =
        st.headerBytes env w.flash c.part :=
      overwrite_full (by rw [h.length_header, h.hdr])
    rw [h.length_bytesAt (by omega), hheader, hfull, h.bytesAt_front env w.flash (by omega),
      h.bytesAt_next] at happend
    rw [hfour]
    exact happend
  have hfill := @fillHdrLoop_eq env w' n
    { st.advance env w.flash c.part with
      blockHdrBuf := overwrite st.blockHdrBuf 0 ((st.cryptBuf.drop st.blockHdrPos).take m)
      blockHdrPos := 0 } (by omega) hlen
    (by simp only [length_overwrite]; exact h.hdr) (by simp only; omega)
  simp only [CopyState.advance, hjoin, Nat.zero_add] at hfill
  simp only [hn', CopyState.advance]
  refine (bind_ok hfill).trans ?_
  simp only [hsize]
  refine (bind_ok (clearCmprs_eq ?_ _)).trans ?_
  · exact h.cmprs
  · rw [hn₂]
    rfl

end Start

variable (h : FetchReady c st) {s : Nat} (hs : st.headerSize env w.flash c.part = s)
  (hroom : s ≤ 4096 + c.paddingSize)
include h hs hroom

/-- The header is complete and its block ends inside the chunk. -/
theorem fetchPayload_inside (hfit : st.blockHdrPos + 4 + s ≤ 4096) :
    fetchPayload env c { st with
        blockHdrBuf := st.headerBytes env w.flash c.part
        blockHdrPos := st.blockHdrPos + 4 } w =
      .ok (st.withBlock (4096 + c.paddingSize) (st.headerBytes env w.flash c.part)
        (st.payload env w.flash c.part) (st.blockHdrPos + 4 + s)) w := by
  have hpay : rtMemcpy env (List.replicate (4096 + c.paddingSize) 0) 0 st.cryptBuf
      (st.blockHdrPos + 4) s w =
      .ok (padTo (4096 + c.paddingSize) (st.payload env w.flash c.part)) w := by
    rw [rtMemcpy_clean env (by rw [h.len]; exact hfit) hroom,
      ← h.bytesAt_front env w.flash hfit, CopyState.payload, hs]
  have hpos : u32 (st.blockHdrPos + 4 + s) = st.blockHdrPos + 4 + s := u32_eq (by omega)
  have hcond : ¬ s > rtFotaAlgoBuffSize - (st.blockHdrPos + 4) := by
    simp only [rtFotaAlgoBuffSize]; omega
  unfold fetchPayload
  refine (bind_ok (clearCmprs_eq ?_ _)).trans ?_
  · exact h.cmprs
  have hsize : blockSizeOf (st.headerBytes env w.flash c.part) = s := hs
  simp only [hsize]
  refine (congrFun (if_neg hcond) w).trans ?_
  refine (bind_ok hpay).trans ?_
  simp only [hpos]
  subst hs
  rfl

variable (hp : c.part.Ok)
include hp

/-- The block starts a new chunk. -/
theorem fetchNewChunk_eq (hpos : st.blockHdrPos = 4096) (hfit : 4 + s ≤ 4096)
    (hread : Readable env c.part st.fwRawPos st.aesIv w) :
    fetchNewChunk env c st w =
      .ok ((st.advance env w.flash c.part).withBlock (4096 + c.paddingSize)
        (st.headerBytes env w.flash c.part) (st.payload env w.flash c.part) (4 + s))
        (w.read env c.part st.fwRawPos st.aesIv) := by
  have hlen := h.length_next env w.flash
  have hpay : rtMemcpy env (List.replicate (4096 + c.paddingSize) 0) 0
      (st.next env w.flash c.part).2 4 s (w.read env c.part st.fwRawPos st.aesIv) =
      .ok (padTo (4096 + c.paddingSize) (st.payload env w.flash c.part)) (w.read env c.part st.fwRawPos st.aesIv) := by
    rw [rtMemcpy_clean env (by omega) hroom, ← h.bytesAt_next, CopyState.payload, hpos, hs]
  have hpos' : u32 (rtFotaBlockHeaderSize + s) = 4 + s :=
    u32_eq (by simp only [rtFotaBlockHeaderSize]; omega)
  rw [fetchNewChunk_start h hs hp hpos hread]
  refine (bind_ok hpay).trans ?_
  simp only [hpos']
  subst hs
  rfl

/-- The header is complete and its block goes on in the next chunk. -/
theorem fetchPayload_across (hpos : st.blockHdrPos + 4 ≤ 4096)
    (hover : 4096 < st.blockHdrPos + 4 + s) (hfit : st.blockHdrPos + 4 + s ≤ 8192) :
    (Readable env c.part st.fwRawPos st.aesIv w →
      fetchPayload env c { st with
          blockHdrBuf := st.headerBytes env w.flash c.part
          blockHdrPos := st.blockHdrPos + 4 } w =
        .ok ((st.advance env w.flash c.part).withBlock (4096 + c.paddingSize)
          (st.headerBytes env w.flash c.part) (st.payload env w.flash c.part)
          (st.blockHdrPos + 4 + s - 4096)) (w.read env c.part st.fwRawPos st.aesIv)) ∧
    (¬ Readable env c.part st.fwRawPos st.aesIv w →
      fetchPayload env c { st with
          blockHdrBuf := st.headerBytes env w.flash c.part
          blockHdrPos := st.blockHdrPos + 4 } w =
        .error (.exit rtFotaPartReadErr) (w.read env c.part st.fwRawPos st.aesIv)) := by
  obtain ⟨hyes, hno⟩ := fetchPayload_start h hs hp hpos hover
  refine ⟨fun hread => ?_, hno⟩
  rw [hyes hread]
  have hlen := h.length_next env w.flash
  obtain ⟨room, hroom'⟩ : ∃ room, st.blockHdrPos + 4 + room = 4096 :=
    ⟨4096 - (st.blockHdrPos + 4), by omega⟩
  have hsub : 4096 - (st.blockHdrPos + 4) = room := by omega
  have hrest : st.blockHdrPos + 4 + s - 4096 = s - room := by omega
  have hfl : (st.bytesAt env w.flash c.part (st.blockHdrPos + 4) room).length = room :=
    h.length_bytesAt (by omega)
  have hrl : (st.bytesAt env w.flash c.part (4096 + 0) (s - room)).length = s - room :=
    h.length_bytesAt (by omega)
  have hpl : (st.payload env w.flash c.part).length = s := by
    rw [CopyState.payload, hs]; exact h.length_bytesAt (by omega)
  have hpay : ∀ w' : World, rtMemcpy env (padTo (4096 + c.paddingSize)
        (st.bytesAt env w.flash c.part (st.blockHdrPos + 4) room)) room
      (st.next env w.flash c.part).2 0 (s - room) w' =
      .ok (padTo (4096 + c.paddingSize) (st.payload env w.flash c.part)) w' := by
    intro w'
    have hjoin : st.bytesAt env w.flash c.part (st.blockHdrPos + 4) room ++
        st.bytesAt env w.flash c.part (4096 + 0) (s - room) = st.payload env w.flash c.part := by
      have htotal : room + (s - room) = s := by omega
      have hmid : 4096 + 0 = st.blockHdrPos + 4 + room := hroom'.symm
      rw [hmid, bytesAt_append, htotal, CopyState.payload, hs]
    have happend := @overwrite_append _ (List.replicate (4096 + c.paddingSize) (0 : Byte))
      (st.bytesAt env w.flash c.part (st.blockHdrPos + 4) room)
      (st.bytesAt env w.flash c.part (4096 + 0) (s - room))
      (by rw [hfl, hrl, List.length_replicate]; omega)
    rw [hfl, hjoin, overwrite_replicate (by omega), overwrite_replicate (by omega)] at happend
    rw [rtMemcpy_eq env (by omega) (by rw [length_padTo]; omega), ← h.bytesAt_next, happend]
  rw [hsub, hrest]
  refine (bind_ok (hpay _)).trans ?_
  subst hs
  rfl

/-- The chunk ends inside the header: the rest of it starts the next chunk. -/
theorem fetchSplitHdr_eq (hlow : 4093 ≤ st.blockHdrPos) (hhigh : st.blockHdrPos < 4096)
    (hfit : st.blockHdrPos + s ≤ 8188) :
    (Readable env c.part st.fwRawPos st.aesIv w →
      fetchSplitHdr env c (4096 - st.blockHdrPos) { st with
          blockHdrBuf := overwrite st.blockHdrBuf 0
            ((st.cryptBuf.drop st.blockHdrPos).take (4096 - st.blockHdrPos))
          blockHdrPos := 4096 } w =
        .ok ((st.advance env w.flash c.part).withBlock (4096 + c.paddingSize)
          (st.headerBytes env w.flash c.part) (st.payload env w.flash c.part)
          ((st.blockHdrPos + 4 + s - 4096) % 4096)) (w.read env c.part st.fwRawPos st.aesIv)) ∧
    (¬ Readable env c.part st.fwRawPos st.aesIv w →
      fetchSplitHdr env c (4096 - st.blockHdrPos) { st with
          blockHdrBuf := overwrite st.blockHdrBuf 0
            ((st.cryptBuf.drop st.blockHdrPos).take (4096 - st.blockHdrPos))
          blockHdrPos := 4096 } w =
        .error (.exit rtFotaPartReadErr) (w.read env c.part st.fwRawPos st.aesIv)) := by
  obtain ⟨hyes, hno⟩ := fetchSplitHdr_start h hs hp hlow hhigh
  refine ⟨fun hread => ?_, hno⟩
  rw [hyes hread]
  generalize w.read env c.part st.fwRawPos st.aesIv = w'
  have hlen := h.length_next env w.flash
  obtain ⟨n, hn⟩ : ∃ n, st.blockHdrPos + 4 = 4096 + n := ⟨st.blockHdrPos - 4092, by omega⟩
  have hn₂ : st.blockHdrPos + 4 - 4096 = n := by omega
  have hpay : rtMemcpy env (List.replicate (4096 + c.paddingSize) 0) 0
      (st.next env w.flash c.part).2 n s w' =
      .ok (padTo (4096 + c.paddingSize) (st.payload env w.flash c.part)) w' := by
    rw [rtMemcpy_clean env (by omega) hroom, ← h.bytesAt_next, ← hn, CopyState.payload, hs]
  have hpos : u32 (n + s) % rtFotaAlgoBuffSize = (st.blockHdrPos + 4 + s - 4096) % 4096 := by
    have hsum : n + s = st.blockHdrPos + 4 + s - 4096 := by omega
    rw [u32_eq (by omega), hsum]
    rfl
  rw [hn₂]
  refine (bind_ok hpay).trans ?_
  simp only [hpos]
  subst hs
  rfl

/-- **Fetching the block at the cursor**, for a block that fits: the state with the block, one chunk
    further on where the block does not end in the chunk at hand. -/
theorem fetchBlock_fits (hfit : FitsAt st.blockHdrPos s) :
    (st.blockHdrPos + 4 + s ≤ 4096 →
      fetchBlock env c st w = .ok (st.withBlock (4096 + c.paddingSize)
        (st.headerBytes env w.flash c.part) (st.payload env w.flash c.part)
        (nextPos st.blockHdrPos s)) w) ∧
    (4096 < st.blockHdrPos + 4 + s →
      (Readable env c.part st.fwRawPos st.aesIv w →
        fetchBlock env c st w = .ok ((st.advance env w.flash c.part).withBlock
          (4096 + c.paddingSize) (st.headerBytes env w.flash c.part)
          (st.payload env w.flash c.part) (nextPos st.blockHdrPos s)) (w.read env c.part st.fwRawPos st.aesIv)) ∧
      (¬ Readable env c.part st.fwRawPos st.aesIv w →
        fetchBlock env c st w = .error (.exit rtFotaPartReadErr) (w.read env c.part st.fwRawPos st.aesIv))) := by
  have hle := h.cursor
  by_cases hnew : 4096 ≤ st.blockHdrPos
  · have hpos : st.blockHdrPos = 4096 := by omega
    have hfit' : 4 + s ≤ 4096 := by
      unfold FitsAt at hfit
      rwa [if_pos hnew] at hfit
    have hnext : nextPos st.blockHdrPos s = 4 + s := by
      unfold nextPos
      rw [hpos, if_neg (by omega), if_neg (by omega)]
      omega
    have hbranch : fetchBlock env c st w = fetchNewChunk env c st w :=
      congrFun (if_pos hnew) w
    refine ⟨fun h => by omega, fun _ => ⟨fun hyes => ?_, fun hno => ?_⟩⟩
    · rw [hbranch, hnext]
      exact fetchNewChunk_eq h hs hroom hp hpos hfit' hyes
    · rw [hbranch]
      exact bind_error ((readChunk_eq env hp h.toReadReady w).2 hno)
  · have hbranch : fetchBlock env c st w = fetchInChunk env c st w := congrFun (if_neg hnew) w
    unfold FitsAt at hfit
    rw [if_neg hnew] at hfit
    by_cases hin : st.blockHdrPos ≤ 4091
    · rw [if_pos hin] at hfit
      rw [hbranch, fetchInChunk_complete h hin]
      refine ⟨fun hend => ?_, fun hover => ?_⟩
      · rw [nextPos, if_pos hend]
        exact fetchPayload_inside h hs hroom hend
      · rw [nextPos, if_neg (by omega), if_neg (by omega)]
        exact fetchPayload_across h hs hroom hp (by omega) hover hfit
    · rw [if_neg hin] at hfit
      rw [hbranch, fetchInChunk_split h (by omega) (by omega)]
      refine ⟨fun h => by omega, fun hover => ?_⟩
      rw [nextPos, if_neg (by omega), if_pos (by omega)]
      exact fetchSplitHdr_eq h hs hroom hp (by omega) (by omega) hfit.2

end Fetch

end Mh1903
