/-
  File:      Mh1903/Copy/Cursor.lean
  Subject:   THE CURSOR IN THE BODY. What the loops hold of a compressed image is a place in the
             decrypted body: the chunks read, the offset in the last one, the block fetched last and
             what was delivered so far. `CursorAt` says that the locals of `rt_fota_upgrade` and the
             flash are at such a place; fetching a block moves them to the next.
-/
import Mh1903.Copy.Fetch
import Mh1903.Copy.Plain

namespace Mh1903

open Library

/-! ## 1. The decrypted body -/

theorem chunks_mod (k : Nat) : 4096 * k % 16 = 0 := by omega

/-- An image in a partition, as an upgrade in `env` reads it. -/
structure StoredImage where
  env : Env
  flash : Flash
  part : FalPartition
  head : RtFotaPartHead

namespace StoredImage

variable (m : StoredImage)

/-- The first `k` chunks decrypted, and the vector behind them. -/
def chunks (k : Nat) : Option (List Byte) × List Byte :=
  decodedBody m.env m.flash m.part m.head.startIv (4096 * k)

/-- `n` bytes of the decrypted body from position `i`. -/
def bytes (i n : Nat) : List Byte := ((m.chunks ((i + n + 4095) / 4096)).2.drop i).take n

/-- What the chunk behind the first `k` ones decrypts to. -/
def nextChunk (k : Nat) : Option (List Byte) × List Byte :=
  decodeChunk m.env (m.chunks k).1 (readFlash m.flash (m.part.bodyAddr (4096 * k)) 4096)

theorem chunks_zero : m.chunks 0 = (m.head.startIv, []) := decodedBody_zero

theorem chunks_succ (k : Nat) :
    m.chunks (k + 1) = ((m.nextChunk k).1, (m.chunks k).2 ++ (m.nextChunk k).2) :=
  decodedBody_add (chunks_mod k) 4096

theorem chunks_length (k : Nat) : IvOk (m.chunks k).1 ∧ (m.chunks k).2.length = 4096 * k :=
  decodedBody_length (startIv_ok m.head) (.inr (chunks_mod k))

theorem nextChunk_length (k : Nat) : (m.nextChunk k).2.length = 4096 :=
  (decodeChunk_length m.env (m.chunks_length k).1 (length_readFlash _ _ _)).2

theorem chunks_take {j k : Nat} (h : j ≤ k) : (m.chunks k).2.take (4096 * j) = (m.chunks j).2 :=
  decodedBody_take (startIv_ok m.head) (.inr (chunks_mod j))
    (Nat.mul_le_mul_left _ h)

/-- Any number of chunks that covers the bytes gives them. -/
theorem bytes_eq {i n k : Nat} (h : i + n ≤ 4096 * k) :
    m.bytes i n = ((m.chunks k).2.drop i).take n := by
  have hle : (i + n + 4095) / 4096 ≤ k := by omega
  have htake : ((m.chunks k).2.take (i + n)).drop i =
      ((m.chunks ((i + n + 4095) / 4096)).2.take (i + n)).drop i := by
    rw [← m.chunks_take hle, List.take_take, Nat.min_eq_left (by omega)]
  rw [List.drop_take, List.drop_take, Nat.add_sub_cancel_left] at htake
  exact htake.symm

@[simp] theorem length_bytes (i n : Nat) : (m.bytes i n).length = n := by
  have hlen := (m.chunks_length ((i + n + 4095) / 4096)).2
  rw [bytes, List.length_take, List.length_drop, hlen]
  omega

/-- Without AES the bytes are what the flash holds. -/
theorem bytes_plain (h : m.head.startIv = none) (i n : Nat) :
    m.bytes i n = readFlash m.flash (m.part.bodyAddr i) n := by
  have hchunks : (m.chunks (i + n)).2 = readFlash m.flash (m.part.bodyAddr 0) (4096 * (i + n)) := by
    unfold chunks decodedBody
    rw [h]
    rfl
  rw [m.bytes_eq (k := i + n) (by omega), hchunks, drop_readFlash (by omega),
    take_readFlash (by omega), ← m.part.bodyAddr_add, Nat.zero_add]

/-- In a packed image they are those of the body it was packed with. -/
theorem bytes_imageAt (h : m.head.startIv = none) (hp : m.part.Ok) {f : HeadFields}
    {body : List Byte} {flash : Flash} (hflash : m.flash = imageAt m.part f body flash)
    (hfit : sizeofPartHead + body.length ≤ m.part.len) {i n : Nat} (hin : i + n ≤ body.length) :
    m.bytes i n = (body.drop i).take n := by
  have hbody := @readFlash_body_imageAt m.part f body flash hp hfit
  rw [← hflash] at hbody
  rw [m.bytes_plain h, ← hbody, drop_readFlash (by omega), take_readFlash (by omega),
    ← m.part.bodyAddr_add, Nat.zero_add]

/-- The body to its end: what a verified checksum covers, decrypted in one piece. -/
def body : List Byte := (decodedBody m.env m.flash m.part m.head.startIv m.head.comSize).2

end StoredImage

-- A comparison with other bytes would otherwise evaluate the decryption.
attribute [irreducible] StoredImage.bytes

/-! ## 2. Compression -/

/-- `padding_size`, by the compression chosen. -/
def RtFotaPartHead.paddingSize (h : RtFotaPartHead) : Nat :=
  if h.cmprs = rtFotaCmprsAlgoFastlz then rtFotaFastlzBufferPadding
  else if h.cmprs = rtFotaCmprsAlgoQuicklz then rtFotaQuicklzBufferPadding
  else 0

/-- The context of the loops. -/
def StoredImage.ctx (m : StoredImage) : CopyCtx := ⟨m.part, m.head, m.head.paddingSize⟩

/-- One of the two compressions the bootloader has. -/
def RtFotaPartHead.Compressed (h : RtFotaPartHead) : Prop :=
  h.cmprs = rtFotaCmprsAlgoFastlz ∨ h.cmprs = rtFotaCmprsAlgoQuicklz

instance (h : RtFotaPartHead) : Decidable h.Compressed :=
  inferInstanceAs (Decidable (_ ∨ _))

theorem RtFotaPartHead.Compressed.ne_none {h : RtFotaPartHead} (hc : h.Compressed) :
    h.cmprs ≠ rtFotaCryptAlgoNone := by
  rcases hc with hc | hc
  · rw [hc]
    decide
  · rw [hc]
    decide

/-! ## 3. Cursors -/

/-- A place in the body and what was made of it so far. -/
structure Cursor where
  /-- chunks read -/
  chunks : Nat
  /-- offset in the last one, its size where nothing is left of it -/
  pos : Nat
  /-- the block fetched last, behind it zeros -/
  block : List Byte
  /-- its size -/
  size : Nat
  /-- what was delivered -/
  out : List Byte

/-- The place in front of the first chunk. -/
def Cursor.start : Cursor := ⟨0, 4096, [], 0, []⟩

/-- The place as a position in the body. -/
def Cursor.at (x : Cursor) : Nat := 4096 * x.chunks + x.pos - 4096

namespace StoredImage

variable (m : StoredImage)

/-- The buffer for compressed blocks. -/
def room : Nat := 4096 + m.head.paddingSize

/-- The size the header at position `q` gives. -/
def sizeAt (q : Nat) : Nat := blockSizeOf (m.bytes q 4)

/-- The block whose header is at position `q`, in its buffer. -/
def blockAt (q : Nat) : List Byte := padTo m.room (m.bytes (q + 4) (m.sizeAt q))

/-- The next block, as the main loop fetches it. A header that ends with its chunk is skipped. -/
def fetch (x : Cursor) : Cursor :=
  if x.pos = 4092 then { x with pos := 4096 }
  else
    { x with
      chunks := if x.pos + 4 + m.sizeAt x.at ≤ 4096 then x.chunks else x.chunks + 1
      pos := nextPos x.pos (m.sizeAt x.at)
      block := m.blockAt x.at
      size := m.sizeAt x.at }

/-- The next block, as the tail loop takes it. -/
def take (x : Cursor) : Cursor :=
  { x with
    pos := x.pos + 4 + m.sizeAt x.at
    block := m.blockAt x.at
    size := m.sizeAt x.at }

/-- The main loop can fetch the next block: it is skipped, or fits its place and the buffer. -/
def Fetchable (x : Cursor) : Prop :=
  x.pos = 4092 ∨ (FitsAt x.pos (m.sizeAt x.at) ∧ m.sizeAt x.at ≤ m.room)

/-- The tail loop takes the next block: it lies in the last chunk whole. -/
def Takeable (x : Cursor) : Prop := x.pos + 4 < 4096 ∧ x.pos + 4 + m.sizeAt x.at ≤ 4096

end StoredImage

/-- The locals of `rt_fota_upgrade` and the flash are at the place `x` of the image `m`. -/
structure CursorAt (m : StoredImage) (x : Cursor) (st : CopyState) (w : World) : Prop
    extends FetchReady m.ctx st where
  rawPos : st.fwRawPos = 4096 * x.chunks
  rawLen : st.fwRawLen = if x.chunks = 0 then 0 else 4096
  vector : st.aesIv = (m.chunks x.chunks).1
  last : ∀ k, x.chunks = k + 1 → (m.chunks x.chunks).2 = (m.chunks k).2 ++ st.cryptBuf
  first : x.chunks = 0 → x.pos = 4096
  place : st.blockHdrPos = x.pos
  block : 1 ≤ x.chunks → st.cmprsBuff = x.block
  size : 1 ≤ x.chunks → st.blockSize = x.size
  dcprs : st.dcprsBuff.length = 4096
  total : st.totalCopySize = x.out.length
  source : ∀ a, m.part.Covers a → w.flash a = m.flash a
  head : w.fotaPartHead = m.head

/-! ## 4. Fetching -/

section Fetch

variable {m : StoredImage} {x : Cursor} {st : CopyState} {w : World}

/-- The next chunk lies inside the partition. -/
def StoredImage.InPart (m : StoredImage) (k : Nat) : Prop :=
  sizeofPartHead + 4096 * k + 4096 ≤ m.part.len

theorem CursorAt.next (h : CursorAt m x st w) (hp : m.part.Ok) (hin : m.InPart x.chunks) :
    st.next m.env w.flash m.part = m.nextChunk x.chunks := by
  unfold CopyState.next StoredImage.nextChunk
  rw [h.vector, h.rawPos, readFlash_body_congr hp h.source hin]

/-- What the loops see at an offset of the chunk at hand and the next one is the body there. -/
theorem CursorAt.bytesAt (h : CursorAt m x st w) (hp : m.part.Ok) {i n : Nat}
    (hfirst : x.chunks = 0 → 4096 ≤ i) (hin : i + n ≤ 8192)
    (hnext : i + n ≤ 4096 ∨ m.InPart x.chunks) :
    st.bytesAt m.env w.flash m.part i n = m.bytes (4096 * x.chunks + i - 4096) n := by
  have hr : ReadReady m.part st := h.toReadReady
  have hlen := hr.len
  by_cases h0 : x.chunks = 0
  · -- nothing is read yet, all of it lies in the first chunk
    have hi := hfirst h0
    have hreach : m.InPart x.chunks ∨ n = 0 := by
      rcases hnext with hle | hnext
      · exact .inr (by omega)
      · exact .inl hnext
    rcases hreach with hreach | rfl
    · obtain ⟨j, rfl⟩ := Nat.exists_eq_add_of_le hi
      have hpos : 4096 * x.chunks + (4096 + j) - 4096 = j := by omega
      have hchunk : (m.chunks 1).2 = (m.nextChunk 0).2 := by
        rw [m.chunks_succ 0, m.chunks_zero, List.nil_append]
      rw [hr.bytesAt_next, h.next hp hreach, hpos, m.bytes_eq (k := 1) (by omega), hchunk, h0]
    · unfold CopyState.bytesAt StoredImage.bytes
      rw [List.take_zero, List.take_zero]
  · obtain ⟨k, hk⟩ := Nat.exists_eq_succ_of_ne_zero h0
    have hk : x.chunks = k + 1 := hk
    have hlast := h.last k hk
    have hfront := (m.chunks_length k).2
    have hpos : 4096 * x.chunks + i - 4096 = (m.chunks k).2.length + i := by omega
    by_cases hle : i + n ≤ 4096
    · rw [hr.bytesAt_front m.env w.flash hle, hpos, m.bytes_eq (k := x.chunks) (by omega), hlast,
        ← List.drop_drop, List.drop_left]
    · have hreach := hnext.resolve_left hle
      have hboth : (m.chunks (x.chunks + 1)).2 =
          (m.chunks k).2 ++ (st.cryptBuf ++ (m.nextChunk x.chunks).2) := by
        rw [m.chunks_succ, hlast, List.append_assoc]
      unfold CopyState.bytesAt
      rw [h.next hp hreach, hpos, m.bytes_eq (k := x.chunks + 1) (by omega), hboth,
        ← List.drop_drop, List.drop_left]

/-- The header at the cursor. -/
theorem CursorAt.header (h : CursorAt m x st w) (hp : m.part.Ok) (hin : m.InPart x.chunks) :
    st.headerBytes m.env w.flash m.ctx.part = m.bytes x.at 4 ∧
      st.headerSize m.env w.flash m.ctx.part = m.sizeAt x.at := by
  have hcursor := h.cursor
  have hplace := h.place
  have hhdr : st.headerBytes m.env w.flash m.ctx.part = m.bytes x.at 4 := by
    unfold CopyState.headerBytes
    rw [hplace]
    exact h.bytesAt hp (fun hz => (h.first hz).ge) (by omega) (.inr hin)
  refine ⟨hhdr, ?_⟩
  unfold CopyState.headerSize StoredImage.sizeAt
  rw [hhdr]

/-- A block put into its buffer, from the chunk at hand. -/
theorem CursorAt.inside (h : CursorAt m x st w) (h1 : 1 ≤ x.chunks) {hdr payload : List Byte}
    (hhdr : hdr.length = 4) {pos size : Nat} (hpos : pos ≤ 4096) (hsize : blockSizeOf hdr = size) :
    CursorAt m { x with pos := pos, block := padTo m.room payload, size := size }
      (st.withBlock m.room hdr payload pos) w where
  toReadReady := ⟨h.pos, h.iv, h.len⟩
  hdr := hhdr
  cmprs := length_padTo _ _
  cursor := hpos
  rawPos := h.rawPos
  rawLen := h.rawLen
  vector := h.vector
  last := h.last
  first h0 := absurd (show x.chunks = 0 from h0) (by omega)
  place := rfl
  block _ := rfl
  size _ := hsize
  dcprs := h.dcprs
  total := h.total
  source := h.source
  head := h.head

/-- A block put into its buffer when the next chunk has been read. -/
theorem CursorAt.across (h : CursorAt m x st w) (hp : m.part.Ok) (hin : m.InPart x.chunks)
    {hdr payload : List Byte} (hhdr : hdr.length = 4) {pos size : Nat} (hpos : pos ≤ 4096)
    (hsize : blockSizeOf hdr = size) :
    CursorAt m
      { x with
        chunks := x.chunks + 1, pos := pos, block := padTo m.room payload, size := size }
      ((st.advance m.env w.flash m.part).withBlock m.room hdr payload pos) (w.read m.env m.part st.fwRawPos st.aesIv) := by
  have hr : ReadReady m.part st := h.toReadReady
  have hnext := h.next hp hin
  have hraw := h.rawPos
  have hready : ReadReady m.part (st.advance m.env w.flash m.part) := by
    refine hr.advance ?_
    unfold StoredImage.InPart at hin
    omega
  have hcalm := w.read_calm m.env m.part st.fwRawPos st.aesIv
  refine ⟨⟨⟨hready.pos, hready.iv, hready.len⟩, hhdr, length_padTo _ _, hpos⟩, ?_, ?_, ?_, ?_, ?_,
    rfl, fun _ => rfl, fun _ => hsize, h.dcprs, h.total, ?_, ?_⟩
  · show st.fwRawPos + 4096 = 4096 * (x.chunks + 1)
    omega
  · exact (if_neg (Nat.succ_ne_zero _)).symm
  · show (st.next m.env w.flash m.part).1 = (m.chunks (x.chunks + 1)).1
    rw [hnext, m.chunks_succ]
  · intro k hk
    obtain rfl : x.chunks = k := Nat.succ.inj hk
    show (m.chunks (x.chunks + 1)).2 = (m.chunks x.chunks).2 ++ (st.next m.env w.flash m.part).2
    rw [hnext, m.chunks_succ]
  · intro h0
    exact absurd h0 (Nat.succ_ne_zero _)
  · intro a ha
    rw [hcalm.flash]
    exact h.source a ha
  · exact hcalm.head.trans h.head

/-- **Fetching a block** leads to the next place, unless the chunk it needs cannot be read. -/
theorem CursorAt.fetch (h : CursorAt m x st w) (hp : m.part.Ok) (hin : m.InPart x.chunks)
    (hf : m.Fetchable x) :
    Leads (fetchBlock m.env m.ctx st) w
      (fun st' w' => CursorAt m (m.fetch x) st' w' ∧ Calm w w')
      (fun e w' => e = .exit rtFotaPartReadErr ∧ Calm w w' ∧
        ¬ Readable m.env m.part st.fwRawPos st.aesIv w) := by
  have hplace := h.place
  have hcursor := h.cursor
  have h0 : x.chunks = 0 → x.pos = 4096 := h.first
  unfold StoredImage.fetch
  by_cases hskip : x.pos = 4092
  · -- the header is read and forgotten
    have h1 : 1 ≤ x.chunks := by
      by_contra hlt
      have := h0 (by omega)
      omega
    rw [if_pos hskip]
    have hrun : fetchBlock m.env m.ctx st w = .ok { st with
        blockHdrBuf := st.headerBytes m.env w.flash m.ctx.part, blockHdrPos := 4096 } w := by
      unfold fetchBlock
      rw [if_neg (by rw [hplace, hskip]; decide)]
      exact fetchInChunk_end h.toFetchReady (hplace.trans hskip)
    refine leads_of_ok hrun ⟨?_, Std.Refl.refl w⟩
    exact ⟨⟨⟨h.pos, h.iv, h.len⟩, h.toFetchReady.length_header, h.cmprs, Nat.le_refl _⟩, h.rawPos,
      h.rawLen, h.vector, h.last, fun _ => rfl, rfl, h.block, h.size, h.dcprs, h.total, h.source,
      h.head⟩
  · obtain ⟨hfit, hroom⟩ := hf.resolve_left hskip
    rw [if_neg hskip]
    have hspan := hfit.span (hplace ▸ hcursor)
    have hnextle := nextPos_le hfit (hplace ▸ hcursor)
    have hbase : 4096 ≤ 4096 * x.chunks + x.pos := by
      rcases Nat.eq_zero_or_pos x.chunks with hz | hz
      · have := h0 hz
        omega
      · omega
    obtain ⟨hhdr, hs⟩ := h.header hp hin
    have hpay : st.payload m.env w.flash m.ctx.part = m.bytes (x.at + 4) (m.sizeAt x.at) := by
      have hat : 4096 * x.chunks + (x.pos + 4) - 4096 = x.at + 4 := by
        unfold Cursor.at
        omega
      unfold CopyState.payload
      rw [hs, hplace, ← hat]
      exact h.bytesAt hp (fun hz => by have := h0 hz; omega) (by omega) (.inr hin)
    rw [← hplace] at hfit
    obtain ⟨hinside, hacross⟩ := fetchBlock_fits h.toFetchReady hs hroom hp hfit
    have hbuf : 4096 + m.ctx.paddingSize = m.room := rfl
    rw [hplace, hhdr, hpay, hbuf] at hinside hacross
    by_cases hend : x.pos + 4 + m.sizeAt x.at ≤ 4096
    · have h1 : 1 ≤ x.chunks := by
        by_contra hlt
        have := h0 (by omega)
        omega
      rw [if_pos hend]
      refine leads_of_ok (hinside hend) ⟨?_, Std.Refl.refl w⟩
      exact h.inside h1 (m.length_bytes _ _) hnextle rfl
    · rw [if_neg hend]
      obtain ⟨hyes, hno⟩ := hacross (Nat.lt_of_not_le hend)
      by_cases hread : Readable m.env m.part st.fwRawPos st.aesIv w
      · refine leads_of_ok (hyes hread) ⟨?_, w.read_calm _ _ _ _⟩
        exact h.across hp hin (m.length_bytes _ _) hnextle rfl
      · exact leads_of_error (hno hread) ⟨rfl, w.read_calm _ _ _ _, hread⟩

end Fetch

end Mh1903
