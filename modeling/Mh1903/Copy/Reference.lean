/-
  File:      Mh1903/Copy/Reference.lean
  Subject:   WHAT AN IMAGE STANDS FOR. The reference decoding knows neither chunks nor buffers: the
             body to its end, decrypted in one piece; if it is compressed, one whole frame after the
             other, each decompressed. `Decodable` says where the loops of `rt_fota_upgrade` can
             follow it.
-/
import Mh1903.Library.Frames
import Mh1903.Copy.Passes

namespace Mh1903

open Library

/-! ## 1. The body -/

/-- Of the last cipher block only a whole one counts. -/
theorem decodedBody_whole {env : Env} {flash : Flash} {part : FalPartition}
    (aesIv : Option (List Byte)) (n : Nat) :
    ∃ k ≤ n, (aesIv = none ∨ k % 16 = 0) ∧
      (decodedBody env flash part aesIv n).2 = (decodedBody env flash part aesIv k).2 := by
  cases aesIv with
  | none => exact ⟨n, Nat.le_refl n, .inl rfl, rfl⟩
  | some iv =>
      refine ⟨16 * (n / 16), by omega, .inr (by omega), ?_⟩
      obtain ⟨r, hr⟩ := Nat.exists_eq_add_of_le (show 16 * (n / 16) ≤ n by omega)
      have hsplit : readFlash flash (part.bodyAddr 0) n =
          readFlash flash (part.bodyAddr 0) (16 * (n / 16)) ++
            readFlash flash (part.bodyAddr 0 + 16 * (n / 16)) r := by
        rw [readFlash_append, ← hr]
      have hblocks : 16 * (n / 16) / 16 = n / 16 := by omega
      simp only [decodedBody, decodeChunk, length_readFlash]
      rw [hsplit, hblocks]
      exact congrArg Prod.snd (tinyAesCryptCbc_take _ _ _ _ _ (by rw [length_readFlash]))

namespace StoredImage

variable (m : StoredImage)

theorem length_body_le : m.body.length ≤ m.head.comSize := by
  obtain ⟨k, hk, hmod, hbody⟩ :=
    @decodedBody_whole m.env m.flash m.part m.head.startIv m.head.comSize
  rw [body, hbody, (decodedBody_length (startIv_ok m.head) hmod).2]
  exact hk

/-- The chunks that cover the body begin with it. -/
theorem chunks_body {k : Nat} (h : m.head.comSize ≤ 4096 * k) :
    (m.chunks k).2.take m.body.length = m.body := by
  obtain ⟨n, hn, hmod, hbody⟩ :=
    @decodedBody_whole m.env m.flash m.part m.head.startIv m.head.comSize
  have hlen := (@decodedBody_length m.env m.flash m.part _ (startIv_ok m.head) n hmod).2
  rw [body, hbody, hlen]
  exact decodedBody_take (startIv_ok m.head) hmod (hn.trans h)

/-- Inside the body the loops read what the body holds. -/
theorem bytes_body {i n : Nat} (h : i + n ≤ m.body.length) :
    m.bytes i n = (m.body.drop i).take n := by
  have hle := m.length_body_le
  have hcom : m.head.comSize ≤ 4096 * m.head.comSize := by omega
  have hbody : (m.body.drop i).take n =
      (((m.chunks m.head.comSize).2.take m.body.length).drop i).take n := by
    rw [m.chunks_body hcom]
  rw [m.bytes_eq (k := m.head.comSize) (by omega), hbody, List.drop_take, List.take_take,
    Nat.min_eq_left (by omega)]

end StoredImage

/-! ## 2. The reference decoding -/

/-- Frames as the body holds them: four bytes of size, big-endian, and the payload. -/
def blockFraming : Framing Byte := ⟨rtFotaBlockHeaderSize, blockSizeOf, by decide⟩

theorem blockFraming_header : blockFraming.header = 4 := rfl
theorem blockFraming_size : blockFraming.size = blockSizeOf := rfl

theorem blockFraming_front (bs : List Byte) :
    blockFraming.front bs = blockSizeOf (bs.take 4) := by
  rw [Framing.front, blockFraming_size, blockFraming_header]

namespace StoredImage

variable (m : StoredImage)

/-- What the decompressor makes of a payload, with zeros behind it as in the cleared buffer; nothing
    where it fails. -/
def inflate (payload : List Byte) : List Byte :=
  (m.decompressed (padTo m.room payload) payload.length).written.take
    (m.decompressed (padTo m.room payload) payload.length).size

/-- **The reference decoding** of the image. -/
def reference : List Byte :=
  if m.head.Compressed then (blockFraming.payloads m.body).flatMap m.inflate else m.body

/-- A whole frame of the body is at position `q`. -/
def WholeAt (q : Nat) : Prop := blockFraming.Whole (m.body.drop q)

/-- Its payload. -/
def payloadAt (q : Nat) : List Byte := blockFraming.payload (m.body.drop q)

/-- The reference decoding comes to position `q` of the body and has `out` then. Counted are frames
    that a copy to a target of `len` bytes could install: their payload decompresses, into no more
    than its buffer, and lands behind a whole number of words, inside the target. -/
inductive Decoded (len : Nat) : Nat → List Byte → Prop
  | start : Decoded len 0 []
  | next {q : Nat} {out : List Byte} : Decoded len q out → m.WholeAt q →
      m.inflate (m.payloadAt q) ≠ [] → (m.inflate (m.payloadAt q)).length ≤ 4096 →
      out.length % 4 = 0 → out.length + (m.inflate (m.payloadAt q)).length ≤ len →
      Decoded len (q + 4 + m.sizeAt q) (out ++ m.inflate (m.payloadAt q))

variable {m} {q : Nat} {out : List Byte}

theorem WholeAt.le (h : m.WholeAt q) : q + 4 ≤ m.body.length := by
  unfold WholeAt Framing.Whole at h
  rw [List.length_drop] at h
  simp only [blockFraming, rtFotaBlockHeaderSize] at h
  omega

/-- The loops read the size that the frame has. -/
theorem WholeAt.front (h : m.WholeAt q) : blockFraming.front (m.body.drop q) = m.sizeAt q := by
  rw [blockFraming_front, ← m.bytes_body h.le, sizeAt]

theorem WholeAt.end_le (h : m.WholeAt q) : q + 4 + m.sizeAt q ≤ m.body.length := by
  have hle := h.le
  have hfront := h.front
  unfold WholeAt Framing.Whole at h
  rw [List.length_drop, hfront] at h
  simp only [blockFraming, rtFotaBlockHeaderSize] at h
  omega

/-- And the payload. -/
theorem WholeAt.bytes (h : m.WholeAt q) : m.bytes (q + 4) (m.sizeAt q) = m.payloadAt q := by
  have hend := h.end_le
  rw [m.bytes_body (by omega), payloadAt, Framing.payload, h.front, List.drop_drop]
  rfl

theorem WholeAt.rest (h : m.WholeAt q) :
    blockFraming.rest (m.body.drop q) = m.body.drop (q + 4 + m.sizeAt q) := by
  rw [Framing.rest, h.front, List.drop_drop, Nat.add_assoc]
  rfl

theorem WholeAt.length (h : m.WholeAt q) : (m.payloadAt q).length = m.sizeAt q := by
  rw [← h.bytes, m.length_bytes]

/-- **What was decoded is the front of the reference**, the rest comes out of the rest of the
    body. -/
theorem Decoded.reference {len : Nat} (hc : m.head.Compressed) (h : m.Decoded len q out) :
    m.reference = out ++ (blockFraming.payloads (m.body.drop q)).flatMap m.inflate := by
  induction h with
  | start => rw [StoredImage.reference, if_pos hc, List.drop_zero, List.nil_append]
  | next _ hwhole _ _ _ _ ih =>
      rw [ih, blockFraming.payloads_whole hwhole, List.flatMap_cons, hwhole.rest, List.append_assoc]
      rfl

end StoredImage

/-! ## 3. Where the loops follow it -/

/-- Chunks read where the loops come to position `q`. -/
def chunksTo (q : Nat) : Nat := (q + 4095) / 4096

/-- The offset in the last of them. -/
def offsetIn (q : Nat) : Nat := q + 4096 - 4096 * chunksTo q

/-- What the loops take at position `q`, behind `out`, is a whole frame of the body. The main loop
    finds it where its branch looks for it, and is not thrown back to the start of the chunk as long
    as bytes are missing; the tail loop takes only what ends in the last chunk. -/
def StoredImage.TakenRight (m : StoredImage) (q : Nat) (out : List Byte) : Prop :=
  if 4096 * chunksTo q < m.head.comSize then
    m.WholeAt q ∧ FitsAt (offsetIn q) (m.sizeAt q) ∧ m.sizeAt q ≤ m.room ∧
      (nextPos (offsetIn q) (m.sizeAt q) = 0 →
        m.head.rawSize ≤ out.length + (m.inflate (m.payloadAt q)).length)
  else
    offsetIn q + 4 < 4096 → offsetIn q + 4 + m.sizeAt q ≤ 4096 → m.WholeAt q

/-- **The loops follow the reference decoding** until `raw_size` bytes are there. An uncompressed
    body has that many, or not even the chunks that cover it do. -/
structure StoredImage.Decodable (m : StoredImage) (len : Nat) : Prop where
  plain : m.head.cmprs = rtFotaCryptAlgoNone →
    m.head.rawSize ≤ m.body.length ∨ chunksSize m.head.comSize < m.head.rawSize
  compressed : m.head.Compressed → ∀ q out, m.Decoded len q out → out.length % 4 = 0 →
    out.length < m.head.rawSize → m.TakenRight q out

/-! ## 4. Places in the body -/

/-- A header that ends with its chunk is skipped, and fits nowhere. -/
theorem FitsAt.not_skipped {p s : Nat} (h : FitsAt p s) : p ≠ 4092 := by
  rintro rfl
  unfold FitsAt at h
  rw [if_neg (by decide), if_neg (by decide)] at h
  exact h.1 rfl

/-- The cursor lies in the last chunk read, or behind it. -/
structure Cursor.Upright (x : Cursor) : Prop where
  pos : 1 ≤ x.pos
  le : x.pos ≤ 4096
  first : x.chunks = 0 → x.pos = 4096

theorem Cursor.Upright.start : Cursor.start.Upright := ⟨by decide, Nat.le_refl _, fun _ => rfl⟩

section Upright

variable {x : Cursor} (h : x.Upright)
include h

theorem Cursor.Upright.chunksTo : chunksTo x.at = x.chunks := by
  obtain ⟨hpos, hle, hfirst⟩ := h
  unfold Mh1903.chunksTo Cursor.at
  omega

theorem Cursor.Upright.offsetIn : offsetIn x.at = x.pos := by
  have hchunks := h.chunksTo
  obtain ⟨hpos, hle, hfirst⟩ := h
  unfold Mh1903.offsetIn
  rw [hchunks]
  unfold Cursor.at
  omega

end Upright

namespace StoredImage

variable {m : StoredImage} {x : Cursor}

/-- A block that fits is fetched as it lies. -/
theorem fetch_fits (hfit : FitsAt x.pos (m.sizeAt x.at)) :
    (m.fetch x).block = m.blockAt x.at ∧ (m.fetch x).size = m.sizeAt x.at := by
  unfold StoredImage.fetch
  rw [if_neg hfit.not_skipped]
  generalize m.blockAt x.at = b
  generalize m.sizeAt x.at = s
  exact ⟨rfl, rfl⟩

/-- A header that ends with its chunk is skipped, the block fetched before stays. -/
theorem fetch_skipped (hpos : x.pos = 4092) : m.fetch x = { x with pos := 4096 } := by
  unfold StoredImage.fetch
  rw [if_pos hpos]

/-- **A fetch moves behind the block**, unless it is thrown back. -/
theorem fetch_upright (h : x.Upright) (hfit : FitsAt x.pos (m.sizeAt x.at))
    (hback : nextPos x.pos (m.sizeAt x.at) ≠ 0) :
    (m.fetch x).Upright ∧ (m.fetch x).at = x.at + 4 + m.sizeAt x.at := by
  obtain ⟨hpos, hle, hfirst⟩ := h
  have hspan := hfit.span hle
  have hnext := nextPos_le hfit hle
  unfold StoredImage.fetch
  rw [if_neg hfit.not_skipped]
  have hat : x.at = 4096 * x.chunks + x.pos - 4096 := rfl
  generalize m.blockAt x.at = b
  generalize m.sizeAt x.at = s at *
  by_cases hin : x.pos + 4 + s ≤ 4096
  · have hmove : nextPos x.pos s = x.pos + 4 + s := if_pos hin
    rw [if_pos hin]
    refine ⟨⟨Nat.one_le_iff_ne_zero.mpr hback, hnext, fun h0 => ?_⟩, ?_⟩
    · have := hfirst h0
      omega
    · show 4096 * x.chunks + nextPos x.pos s - 4096 = _
      rcases Nat.eq_zero_or_pos x.chunks with h0 | h0
      · have := hfirst h0
        omega
      · omega
  · rw [if_neg hin]
    refine ⟨⟨Nat.one_le_iff_ne_zero.mpr hback, hnext, fun h0 => absurd h0 (Nat.succ_ne_zero _)⟩, ?_⟩
    show 4096 * (x.chunks + 1) + nextPos x.pos s - 4096 = _
    have hmove : nextPos x.pos s = x.pos + 4 + s - 4096 := by
      have hback' := hback
      unfold nextPos at hback' ⊢
      rw [if_neg hin] at hback' ⊢
      split
      · rename_i hsplit
        rw [if_pos hsplit] at hback'
        omega
      · rfl
    rcases Nat.eq_zero_or_pos x.chunks with h0 | h0
    · have := hfirst h0
      omega
    · omega

/-- The chunks read cover the block that was fetched. -/
theorem fetch_covers (h : x.Upright) (hfit : FitsAt x.pos (m.sizeAt x.at)) :
    x.at + 4 + m.sizeAt x.at ≤ 4096 * (m.fetch x).chunks := by
  obtain ⟨hpos, hle, hfirst⟩ := h
  have hspan := hfit.span hle
  unfold StoredImage.fetch
  rw [if_neg hfit.not_skipped]
  have hat : x.at = 4096 * x.chunks + x.pos - 4096 := rfl
  generalize m.blockAt x.at = b
  generalize m.sizeAt x.at = s at *
  show x.at + 4 + s ≤ 4096 * if x.pos + 4 + s ≤ 4096 then x.chunks else x.chunks + 1
  rcases Nat.eq_zero_or_pos x.chunks with h0 | h0
  · have := hfirst h0
    rw [if_neg (by omega)]
    omega
  · split <;> omega

/-- A block in the last chunk is taken as it lies, and left behind. -/
theorem take_upright (h : x.Upright) (h1 : 1 ≤ x.chunks) (hin : x.pos + 4 + m.sizeAt x.at ≤ 4096) :
    (m.take x).Upright ∧ (m.take x).at = x.at + 4 + m.sizeAt x.at := by
  have hpos := h.pos
  unfold StoredImage.take
  have hat : x.at = 4096 * x.chunks + x.pos - 4096 := rfl
  generalize m.blockAt x.at = b
  generalize m.sizeAt x.at = s at *
  refine ⟨⟨?_, hin, fun h0 => absurd (show x.chunks = 0 from h0) (by omega)⟩, ?_⟩
  · show 1 ≤ x.pos + 4 + s
    omega
  · show 4096 * x.chunks + (x.pos + 4 + s) - 4096 = _
    omega

-- Stated of any cursor: of one that was fetched the kernel would compare the sizes.
@[simp] theorem deliver_chunks (m : StoredImage) (y : Cursor) :
    (m.deliver y).chunks = y.chunks := rfl

@[simp] theorem deliver_at (m : StoredImage) (y : Cursor) : (m.deliver y).at = y.at := rfl

@[simp] theorem deliver_output (m : StoredImage) (y : Cursor) :
    m.output (m.deliver y) = m.output y := rfl

theorem deliver_upright (h : x.Upright) : (m.deliver x).Upright := ⟨h.pos, h.le, h.first⟩

theorem take_block (m : StoredImage) (x : Cursor) :
    (m.take x).block = m.blockAt x.at ∧ (m.take x).size = m.sizeAt x.at := by
  unfold StoredImage.take
  exact ⟨rfl, rfl⟩

end StoredImage

end Mh1903
