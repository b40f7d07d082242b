/-
  File:      Mh1903/Copy/Reassembly.lean
  Subject:   BLOCKS PUT TOGETHER AGAIN. A packer cuts the firmware into blocks of 4096 bytes,
             compresses each of them and puts its size in front. Where every block fits the seam it
             lies at, `rt_fota_upgrade` undoes this; a header that ends with its chunk is a seam
             where it does not.
-/
import Mh1903.Copy.Ends
import Mh1903.Copy.Faults
import Mh1903.Copy.Follow

namespace Mh1903

open Library

/-! ## 1. Packing -/

/-- Four bytes, big-endian. -/
def bytesBe32 (n : Nat) : List Byte :=
  [.ofNat 8 (n / 16777216), .ofNat 8 (n / 65536), .ofNat 8 (n / 256), .ofNat 8 n]

theorem blockSizeOf_bytesBe32 {n : Nat} (h : n < 4294967296) : blockSizeOf (bytesBe32 n) = n := by
  simp only [blockSizeOf, bytesBe32, List.getD_cons_zero, List.getD_cons_succ, BitVec.toNat_ofNat]
  rw [u32_eq (by omega)]
  omega

/-- A header is written for every size it has room for. -/
theorem bytesBe32_writes : blockFraming.WrittenBy bytesBe32 4294967295 := by
  intro s hs
  refine ⟨rfl, ?_⟩
  rw [blockFraming_size, blockSizeOf_bytesBe32 (by omega)]

/-- The body that holds `payloads`, each behind its size. -/
def framedBody (payloads : List (List Byte)) : List Byte := Framing.encode bytesBe32 payloads

/-- The blocks of a firmware: 4096 bytes each, the last one up to that. -/
def FirmwareBlocks : List (List Byte) → Prop
  | [] => False
  | [b] => 1 ≤ b.length ∧ b.length ≤ 4096
  | b :: c :: bs => b.length = 4096 ∧ FirmwareBlocks (c :: bs)

theorem FirmwareBlocks.head {b : List Byte} {bs : List (List Byte)}
    (h : FirmwareBlocks (b :: bs)) :
    1 ≤ b.length ∧ b.length ≤ 4096 ∧ (bs ≠ [] → b.length = 4096 ∧ FirmwareBlocks bs) := by
  cases bs with
  | nil => exact ⟨h.1, h.2, fun hne => absurd rfl hne⟩
  | cons c bs =>
      have hlen := h.1
      exact ⟨by omega, by omega, fun _ => h⟩

/-- **The seams of a body** of `comSize` bytes, for blocks of these sizes from position `q` on. Up to
    the last chunk each block has to fit where it lies, and only the last one may end with the chunk
    behind a header that is split. -/
def SeamsFit (comSize : Nat) : Nat → List Nat → Prop
  | _, [] => True
  | q, s :: sizes =>
      (4096 * chunksTo q < comSize →
        FitsAt (offsetIn q) s ∧ (sizes ≠ [] → nextPos (offsetIn q) s ≠ 0)) ∧
      SeamsFit comSize (q + 4 + s) sizes

theorem RtFotaPartHead.Compressed.ne_gzip {h : RtFotaPartHead} (hc : h.Compressed) :
    h.cmprs ≠ rtFotaCmprsAlgoGzip := by
  rcases hc with hc | hc
  · rw [hc]
    decide
  · rw [hc]
    decide

/-! ## 2. The job -/

/-- An image of framed blocks, a target beside its source, a decompressor that undoes the
    compression of each block, and nothing that fails. -/
structure BlockJob (m : StoredImage) (t : FalPartition) (compress : List Byte → List Byte)
    (blocks : List (List Byte)) : Prop extends CopyJob m t where
  good : m.env.Good
  mem : ∀ n, m.env.mallocOk n = true
  compressed : m.head.Compressed
  encryption : m.head.crypt ≠ rtFotaCryptAlgoXor
  shape : FirmwareBlocks blocks
  body : m.body = framedBody (blocks.map compress)
  comSize : m.head.comSize = m.body.length
  rawSize : m.head.rawSize = blocks.flatten.length
  fits : m.head.rawSize ≤ t.len
  sizes : ∀ b ∈ blocks, 1 ≤ (compress b).length ∧ (compress b).length ≤ m.room
  undone : ∀ b ∈ blocks,
    (m.decompressed (padTo m.room (compress b)) (compress b).length).written = b ∧
      (m.decompressed (padTo m.room (compress b)) (compress b).length).size = b.length

/-- `rest` is what is left to install at the place `x`. -/
structure Remaining (m : StoredImage) (t : FalPartition) (compress : List Byte → List Byte)
    (blocks rest : List (List Byte)) (x : Cursor) (w : World) : Prop where
  sub : ∀ b ∈ rest, b ∈ blocks
  out : x.out ++ rest.flatten = blocks.flatten
  shape : rest ≠ [] → FirmwareBlocks rest
  aligned : rest ≠ [] → x.out.length % 4096 = 0
  upright : rest ≠ [] → x.Upright
  here : rest ≠ [] → m.body.drop x.at = framedBody (rest.map compress)
  done : rest = [] → m.head.comSize ≤ 4096 * x.chunks
  flash : w.flash = flashWith t.base x.out (eraseRange t.base (sectors m.head.rawSize) m.flash)

section Job

variable {m : StoredImage} {t : FalPartition} {compress : List Byte → List Byte}
variable {blocks rest : List (List Byte)} {b : List Byte} {x : Cursor} {st : CopyState} {w : World}

/-- The compressed block has a header it fits. -/
theorem BlockJob.framed (j : BlockJob m t compress blocks) (hb : b ∈ blocks) :
    (compress b).length ≤ 4294967295 := by
  have hle := (j.sizes b hb).2
  have hroom : m.room ≤ 4096 + 400 := by
    unfold StoredImage.room RtFotaPartHead.paddingSize
    split
    · decide
    · split <;> decide
  omega

/-- What lies at a place of the body: the frame of a block, and the frames of the others. -/
theorem BlockJob.frame (j : BlockJob m t compress blocks) (hb : b ∈ blocks) {q : Nat}
    (hhere : m.body.drop q = framedBody ((b :: rest).map compress)) :
    m.WholeAt q ∧ m.sizeAt q = (compress b).length ∧ m.payloadAt q = compress b ∧
      m.body.drop (q + 4 + m.sizeAt q) = framedBody (rest.map compress) := by
  have hsize := j.framed hb
  rw [List.map_cons, framedBody, Framing.encode_cons] at hhere
  have hwhole : m.WholeAt q := by
    unfold StoredImage.WholeAt
    rw [hhere]
    exact Framing.whole_frame bytesBe32_writes hsize _
  refine ⟨hwhole, ?_, ?_, ?_⟩
  · rw [← hwhole.front, hhere, Framing.front_frame bytesBe32_writes hsize]
  · unfold StoredImage.payloadAt
    rw [hhere, Framing.payload_frame bytesBe32_writes hsize]
  · rw [← hwhole.rest, hhere, Framing.rest_frame bytesBe32_writes hsize]
    rfl

theorem Remaining.frame (j : BlockJob m t compress blocks)
    (h : Remaining m t compress blocks (b :: rest) x w) :
    m.WholeAt x.at ∧ m.sizeAt x.at = (compress b).length ∧ m.payloadAt x.at = compress b ∧
      m.body.drop (x.at + 4 + m.sizeAt x.at) = framedBody (rest.map compress) :=
  j.frame (h.sub b (List.mem_cons_self ..)) (h.here (List.cons_ne_nil _ _))

/-! ## 3. What the image stands for -/

theorem BlockJob.inflate (j : BlockJob m t compress blocks) (hb : b ∈ blocks) :
    m.inflate (compress b) = b := by
  obtain ⟨hwritten, hsize⟩ := j.undone b hb
  rw [StoredImage.inflate, hwritten, hsize, List.take_length]

/-- **The firmware is the reference decoding** of its image. -/
theorem BlockJob.reference (j : BlockJob m t compress blocks) : m.reference = blocks.flatten := by
  have hpayloads : blockFraming.payloads m.body = blocks.map compress := by
    rw [j.body]
    refine Framing.payloads_encode bytesBe32_writes fun p hp => ?_
    obtain ⟨b, hb, rfl⟩ := List.mem_map.mp hp
    exact j.framed hb
  rw [StoredImage.reference, if_pos j.compressed, hpayloads, List.flatMap_map, List.flatten_eq_flatMap]
  exact List.flatMap_congr fun b hb => j.inflate hb

/-- The reference decoding goes from block to block. -/
theorem BlockJob.decoded (j : BlockJob m t compress blocks)
    (hseams : SeamsFit m.head.comSize 0 (blocks.map fun b => (compress b).length)) {len q : Nat}
    {out : List Byte} (h : m.Decoded len q out) :
    ∃ rest : List (List Byte), (∀ b ∈ rest, b ∈ blocks) ∧ out ++ rest.flatten = blocks.flatten ∧
      m.body.drop q = framedBody (rest.map compress) ∧
      SeamsFit m.head.comSize q (rest.map fun b => (compress b).length) := by
  induction h with
  | start => exact ⟨blocks, fun _ hb => hb, rfl, j.body, hseams⟩
  | next _ hwhole _ _ _ _ ih =>
      obtain ⟨rest, hsub, hout, hhere, hseams⟩ := ih
      cases rest with
      | nil =>
          unfold StoredImage.WholeAt at hwhole
          rw [hhere] at hwhole
          exact absurd hwhole Framing.not_whole_nil
      | cons b rest =>
          have hb : b ∈ blocks := hsub b (List.mem_cons_self ..)
          obtain ⟨-, hsize, hpayload, hnext⟩ := j.frame hb hhere
          refine ⟨rest, fun c hc => hsub c (List.mem_cons_of_mem _ hc), ?_, hnext, ?_⟩
          · rw [hpayload, j.inflate hb, List.append_assoc, ← List.flatten_cons, hout]
          · rw [hsize]
            exact hseams.2

/-- **Where the blocks fit their seams the loops can follow** the reference decoding. -/
theorem BlockJob.decodable (j : BlockJob m t compress blocks)
    (hseams : SeamsFit m.head.comSize 0 (blocks.map fun b => (compress b).length)) (len : Nat) :
    m.Decodable len := by
  refine ⟨fun hnone => absurd hnone j.compressed.ne_none, fun _ q out hdec _ hlt => ?_⟩
  obtain ⟨rest, hsub, hout, hhere, hseams⟩ := j.decoded hseams hdec
  have hlength := congrArg List.length hout
  rw [← j.rawSize, List.length_append] at hlength
  cases rest with
  | nil =>
      rw [List.flatten_nil, List.length_nil] at hlength
      omega
  | cons b rest =>
      have hb : b ∈ blocks := hsub b (List.mem_cons_self ..)
      obtain ⟨hwhole, hsize, hpayload, -⟩ := j.frame hb hhere
      unfold StoredImage.TakenRight
      split
      · rename_i hmore
        obtain ⟨hfit, hback⟩ := hseams.1 hmore
        rw [hsize, hpayload, j.inflate hb]
        refine ⟨hwhole, hfit, (j.sizes b hb).2, fun hzero => ?_⟩
        have hlast : rest = [] := by
          by_contra hne
          exact hback (fun hnil => hne (List.map_eq_nil_iff.mp hnil)) hzero
        rw [← hlength, hlast, List.flatten_singleton]
      · exact fun _ _ => hwhole

/-! ## 4. One block -/

/-- A write of the exact flash wrote. -/
theorem Writes.wrote {env : Env} {t : FalPartition} {pos : Nat} {data : List Byte} {w w' : World}
    (h : Writes w w' (flashWith (t.base + pos) data w.flash)) (hin : pos + data.length ≤ t.len)
    (hal : pos % 4 = 0) : Wrote env t pos data w w' where
  inside := hin
  aligned := hal
  head := h.head
  data i hi := by rw [h.flash, flashWith_at hi]
  other a ha := by
    unfold FalPartition.Covers at ha
    rw [h.flash, flashWith_outside (by omega)]
  front _ a ha := by rw [h.flash, flashWith_outside (by omega)]

/-- **A block that decompresses to `b`** is installed. -/
theorem CursorAt.deliver_good (j : BlockJob m t compress blocks) (h : CursorAt m x st w)
    (h1 : 1 ≤ x.chunks) (hout : m.output x = b)
    (hsize : (m.decompressed x.block x.size).size = b.length) (hb : 1 ≤ b.length)
    (hb' : b.length ≤ 4096) (hal : x.out.length % 4096 = 0)
    (hin : x.out.length + b.length ≤ m.head.rawSize)
    (hflash : w.flash = flashWith t.base x.out
      (eraseRange t.base (sectors m.head.rawSize) m.flash)) :
    ∃ st' w', deliverBlock m.env m.ctx st w = .ok st' w' ∧ CursorAt m (m.deliver x) st' w' ∧
      w'.flash = flashWith t.base (x.out ++ b)
        (eraseRange t.base (sectors m.head.rawSize) m.flash) := by
  have htotal : st.totalCopySize = x.out.length := h.total
  have hfits := j.fits
  obtain ⟨buf, w₁, hbuf, htake, hstep, hq, -⟩ :=
    h.decompresses j.compressed h1 (by rw [hout]; exact hb')
  rw [hout] at htake
  replace h := h.quiet hq
  rw [← hq.flash] at hflash
  have hfind : falPartitionFind m.env w₁.fotaPartHead.appPartName = some t := by
    rw [h.head]
    exact j.find
  have herased : ∀ i < b.length, w₁.flash (t.base + st.totalCopySize + i) = 0xff := by
    intro i hi
    rw [hflash, htotal, flashWith_outside (by omega), eraseRange, if_pos (by unfold sectors; omega)]
  obtain ⟨w', hwrite, hw'⟩ := @writeOut_good m.env j.good t j.target w₁ hfind buf b.length
    { st with dcprsBuff := buf, dcprsSize := b.length } (show st.totalCopySize % 256 = 0 by omega) hb
    (show st.totalCopySize + b.length ≤ t.len by omega) (by omega) herased
  have hw' : Writes w₁ w' (flashWith (t.base + x.out.length) b w₁.flash) := by
    rw [htake] at hw'
    rw [← htotal]
    exact hw'
  refine ⟨{ st with
    dcprsBuff := buf, dcprsSize := b.length, totalCopySize := st.totalCopySize + b.length }, w',
    ?_, ?_, ?_⟩
  · unfold deliverBlock
    rw [hsize] at hstep
    refine (bind_ok hstep).trans ?_
    exact (congrFun (if_neg (show ¬ b.length = 0 by omega)) w₁).trans hwrite
  · refine h.delivered j.toCopyJob hbuf (by rw [hout]) ?_
    rw [hout]
    exact hw'.wrote (by omega) (by omega)
  · rw [hw'.flash, hflash, flashWith_append]

/-- What is left behind the first block. -/
theorem Remaining.next (j : BlockJob m t compress blocks)
    (h : Remaining m t compress blocks (b :: rest) x w) {y : Cursor} {w' : World}
    (hout : y.out = x.out ++ b)
    (hmoved : rest ≠ [] → y.Upright ∧ y.at = x.at + 4 + m.sizeAt x.at)
    (hcovers : x.at + 4 + m.sizeAt x.at ≤ 4096 * y.chunks)
    (hflash : w'.flash = flashWith t.base y.out
      (eraseRange t.base (sectors m.head.rawSize) m.flash)) :
    Remaining m t compress blocks rest y w' := by
  obtain ⟨-, -, -, hrest⟩ := h.frame j
  have hshape := (h.shape (List.cons_ne_nil _ _)).head
  have hal := h.aligned (List.cons_ne_nil _ _)
  refine ⟨fun c hc => h.sub c (List.mem_cons_of_mem _ hc), ?_, fun hne => (hshape.2.2 hne).2,
    fun hne => ?_, fun hne => (hmoved hne).1, fun hne => ?_, fun hnil => ?_, hflash⟩
  · rw [hout, List.append_assoc, ← h.out, List.flatten_cons]
  · have hlen := (hshape.2.2 hne).1
    rw [hout, List.length_append]
    omega
  · rw [(hmoved hne).2]
    exact hrest
  · -- nothing is left of the body
    subst hnil
    have hend : m.body.length ≤ x.at + 4 + m.sizeAt x.at := List.drop_eq_nil_iff.mp hrest
    rw [j.comSize]
    omega

/-- The block that was taken as it lies decompresses to `b`. -/
theorem Remaining.undone (j : BlockJob m t compress blocks)
    (h : Remaining m t compress blocks (b :: rest) x w) {y : Cursor}
    (hblock : y.block = m.blockAt x.at) (hsize : y.size = m.sizeAt x.at) :
    m.output y = b ∧ (m.decompressed y.block y.size).size = b.length := by
  obtain ⟨hwhole, hlen, hpay, -⟩ := h.frame j
  have hdec : m.decompressed y.block y.size =
      m.decompressed (padTo m.room (compress b)) (compress b).length := by
    rw [hblock, hsize, hlen, StoredImage.blockAt, hwhole.bytes, hpay]
  rw [StoredImage.output, hdec]
  exact j.undone b (h.sub b (List.mem_cons_self ..))

/-- There is room for the block. -/
theorem Remaining.room (j : BlockJob m t compress blocks)
    (h : Remaining m t compress blocks (b :: rest) x w) :
    x.out.length + b.length ≤ m.head.rawSize := by
  rw [j.rawSize, ← h.out, List.length_append, List.flatten_cons, List.length_append]
  omega

/-- **A pass of the main loop** installs the next block, if that fits its seam. -/
theorem Remaining.main (j : BlockJob m t compress blocks)
    (h : Remaining m t compress blocks (b :: rest) x w) (hat : CursorAt m x st w)
    (hmain : m.InMain x) (hfit : FitsAt x.pos (compress b).length)
    (hback : rest ≠ [] → nextPos x.pos (compress b).length ≠ 0) :
    (rest ≠ [] → (m.deliver (m.fetch x)).at = x.at + 4 + (compress b).length) ∧
    ∃ st' w', copyStep m.env m.ctx st w = .ok st' w' ∧
      CursorAt m (m.deliver (m.fetch x)) st' w' ∧
      Remaining m t compress blocks rest (m.deliver (m.fetch x)) w' := by
  have hne : m.ctx.partHead.cmprs ≠ rtFotaCryptAlgoNone := j.compressed.ne_none
  have hup := h.upright (List.cons_ne_nil _ _)
  have hal := h.aligned (List.cons_ne_nil _ _)
  obtain ⟨hb, hb', -⟩ := (h.shape (List.cons_ne_nil _ _)).head
  obtain ⟨-, hlen, -, -⟩ := h.frame j
  have hroom := (j.sizes b (h.sub b (List.mem_cons_self ..))).2
  rw [← hlen] at hfit hback hroom ⊢
  have hread : Readable m.env m.part st.fwRawPos st.aesIv w := by
    have hin := j.inPart hmain
    have hpos := hat.rawPos
    unfold StoredImage.InPart at hin
    exact ⟨by omega, fun _ => j.mem _⟩
  obtain ⟨st₁, w₁, hfetch, hat₁, hcalm⟩ :=
    hat.fetch_ok j.source (j.inPart hmain) hread (.inr ⟨hfit, hroom⟩)
  obtain ⟨hblock, hsize⟩ := StoredImage.fetch_fits hfit
  obtain ⟨hout, hundone⟩ := h.undone j hblock hsize
  obtain ⟨st', w', hdeliver, hat', hflash⟩ := hat₁.deliver_good j
    (m.one_le_fetch_chunks hat.first) hout hundone hb hb' (by rw [m.fetch_out]; exact hal)
    (by rw [m.fetch_out]; exact h.room j) (by rw [hcalm.flash, m.fetch_out]; exact h.flash)
  have hall : (m.deliver (m.fetch x)).out = x.out ++ b := by
    rw [StoredImage.deliver, hout, m.fetch_out]
  have hmoved : rest ≠ [] → (m.deliver (m.fetch x)).Upright ∧
      (m.deliver (m.fetch x)).at = x.at + 4 + m.sizeAt x.at := by
    intro hrest
    obtain ⟨hup', hplace⟩ := StoredImage.fetch_upright hup hfit (hback hrest)
    exact ⟨StoredImage.deliver_upright hup', (m.deliver_at _).trans hplace⟩
  refine ⟨fun hrest => (hmoved hrest).2, st', w', ?_, hat',
    h.next j hall hmoved (StoredImage.fetch_covers hup hfit) ?_⟩
  · unfold copyStep
    rw [if_pos hne, bind_ok hfetch]
    exact hdeliver
  · rw [hall, hflash, m.fetch_out]

/-- **A pass of the tail loop** does so in the last chunk. -/
theorem Remaining.tail (j : BlockJob m t compress blocks)
    (h : Remaining m t compress blocks (b :: rest) x w) (hat : CursorAt m x st w)
    (hdone : ¬ m.InMain x) :
    ∃ y st' w', tailStep m.env m.ctx st w = .ok (some st') w' ∧ CursorAt m y st' w' ∧
      ¬ m.InMain y ∧ Remaining m t compress blocks rest y w' := by
  have hup := h.upright (List.cons_ne_nil _ _)
  have hal := h.aligned (List.cons_ne_nil _ _)
  obtain ⟨hb, hb', -⟩ := (h.shape (List.cons_ne_nil _ _)).head
  obtain ⟨hwhole, hlen, -, -⟩ := h.frame j
  have hroom := h.room j
  have hpos := (j.sizes b (h.sub b (List.mem_cons_self ..))).1
  have hend := hwhole.end_le
  have hcovered : m.body.length ≤ 4096 * x.chunks := by
    rw [← j.comSize]
    exact not_lt.mp hdone
  have h1 : 1 ≤ x.chunks := by omega
  have hin : x.pos + 4 + m.sizeAt x.at ≤ 4096 := by
    unfold Cursor.at at hend
    unfold Cursor.at
    omega
  have htail : m.InTail x := ⟨not_lt.mp hdone, by omega, h1, by omega, hin⟩
  obtain ⟨st₁, hat₁, hstep⟩ := hat.tailStep_take j.source htail
  obtain ⟨hblock, hsize⟩ := m.take_block x
  obtain ⟨hout, hundone⟩ := h.undone j hblock hsize
  obtain ⟨st', w', hdeliver, hat', hflash⟩ := hat₁.deliver_good j
    (by rw [m.take_chunks]; exact h1) hout hundone hb hb' (by rw [m.take_out]; exact hal)
    (by rw [m.take_out]; exact hroom) (by rw [m.take_out]; exact h.flash)
  have hall : (m.deliver (m.take x)).out = x.out ++ b := by
    rw [StoredImage.deliver, hout, m.take_out]
  have hchunks : (m.deliver (m.take x)).chunks = x.chunks := by
    rw [m.deliver_chunks, m.take_chunks]
  obtain ⟨hup', hplace⟩ := StoredImage.take_upright hup h1 hin
  refine ⟨m.deliver (m.take x), st', w', ?_, hat', ?_, h.next j hall (fun _ => ?_) ?_ ?_⟩
  · rw [hstep, bind_ok hdeliver]
    rfl
  · unfold StoredImage.InMain
    rw [hchunks]
    exact hdone
  · exact ⟨StoredImage.deliver_upright hup', (m.deliver_at _).trans hplace⟩
  · rw [hchunks]
    omega
  · rw [hall, hflash, m.take_out]

/-! ## 5. All blocks -/

/-- The main loop installs block after block until the body is read. -/
theorem Remaining.mainLoop (j : BlockJob m t compress blocks) (fuel : Nat)
    (h : Remaining m t compress blocks rest x w) (hat : CursorAt m x st w)
    (hseams : SeamsFit m.head.comSize x.at (rest.map fun b => (compress b).length)) :
    Leads (copyLoop m.env m.ctx fuel st) w
      (fun st' w' => ∃ y rest', CursorAt m y st' w' ∧ ¬ m.InMain y ∧
        Remaining m t compress blocks rest' y w')
      fun e _ => e = .outOfFuel := by
  induction fuel generalizing rest x st w with
  | zero => exact leads_throw.mpr rfl
  | succ fuel ih =>
      unfold copyLoop
      rw [leads_ite]
      refine ⟨fun hlt => ?_, fun hge => ?_⟩
      · have hmain := hat.inMain_iff.mp hlt
        cases rest with
        | nil => exact absurd hmain (not_lt.mpr (h.done rfl))
        | cons b rest =>
            have hup := h.upright (List.cons_ne_nil _ _)
            have hhead := hseams.1 (by rw [hup.chunksTo]; exact hmain)
            simp only [hup.offsetIn] at hhead
            have hback : rest ≠ [] → nextPos x.pos (compress b).length ≠ 0 := fun hrest =>
              hhead.2 fun hnil => hrest (List.map_eq_nil_iff.mp hnil)
            obtain ⟨hplace, st', w', hstep, hat', h'⟩ := h.main j hat hmain hhead.1 hback
            rw [leads_bind]
            refine leads_of_ok hstep (ih h' hat' ?_)
            by_cases hnil : rest = []
            · subst hnil
              exact trivial
            · rw [hplace hnil]
              exact hseams.2
      · exact leads_pure.mpr ⟨x, rest, hat, fun hmain => hge (hat.inMain_iff.mpr hmain), h⟩

/-- The tail loop installs what is left. -/
theorem Remaining.tailLoop (j : BlockJob m t compress blocks) (fuel : Nat)
    (h : Remaining m t compress blocks rest x w) (hat : CursorAt m x st w)
    (hdone : ¬ m.InMain x) :
    Leads (tailLoop m.env m.ctx fuel st) w
      (fun total w' => total = m.head.rawSize ∧ w'.flash = flashWith t.base blocks.flatten
        (eraseRange t.base (sectors m.head.rawSize) m.flash))
      fun e _ => e = .outOfFuel := by
  induction fuel generalizing rest x st w with
  | zero => exact leads_throw.mpr rfl
  | succ fuel ih =>
      have htotal : st.totalCopySize = x.out.length := hat.total
      unfold Mh1903.tailLoop
      cases rest with
      | nil =>
          have hout : x.out = blocks.flatten := by
            have hout := h.out
            rwa [List.flatten_nil, List.append_nil] at hout
          have hall : st.totalCopySize = m.head.rawSize := by rw [htotal, hout, j.rawSize]
          have hge : ¬ st.totalCopySize < m.ctx.partHead.rawSize := not_lt.mpr hall.ge
          rw [if_neg hge]
          exact leads_pure.mpr ⟨hall, hout ▸ h.flash⟩
      | cons b rest =>
          have hroom := h.room j
          have hb := ((h.shape (List.cons_ne_nil _ _)).head).1
          have hlt : st.totalCopySize < m.ctx.partHead.rawSize := by
            show st.totalCopySize < m.head.rawSize
            omega
          obtain ⟨y, st', w', hstep, hat', hdone', h'⟩ := h.tail j hat hdone
          rw [if_pos hlt, leads_bind]
          exact leads_of_ok hstep (ih h' hat' hdone')

/-- **The copy** installs all blocks. -/
theorem Remaining.copy (j : BlockJob m t compress blocks)
    (h : Remaining m t compress blocks rest x w) (hat : CursorAt m x st w)
    (hseams : SeamsFit m.head.comSize x.at (rest.map fun b => (compress b).length)) :
    Leads (upgradeCopy m.env m.ctx st) w
      (fun r w' => r = rtFotaNoErr ∧ w'.flash = flashWith t.base blocks.flatten
        (eraseRange t.base (sectors m.head.rawSize) m.flash))
      fun e _ => e = .outOfFuel := by
  have hne : m.ctx.partHead.cmprs ≠ rtFotaCryptAlgoNone := j.compressed.ne_none
  unfold upgradeCopy
  rw [leads_bind]
  refine (h.mainLoop j _ hat hseams).mono (fun st₁ w₁ hw₁ => ?_) fun _ _ h => h
  obtain ⟨y, rest, hat₁, hdone, h₁⟩ := hw₁
  rw [if_pos hne, leads_bind]
  refine (h₁.tailLoop j _ hat₁ hdone).mono (fun total w' hw' => ?_) fun _ _ h => h
  obtain ⟨htotal, hflash'⟩ := hw'
  rw [leads_ite]
  refine ⟨fun hlt => absurd hlt (not_lt.mpr htotal.ge), fun _ => leads_pure.mpr ⟨rfl, hflash'⟩⟩

/-- The setup leaves the loops at the start of the body, with the target erased. -/
theorem BlockJob.setup (j : BlockJob m t compress blocks) {name : List Byte}
    (hname : falPartitionFind m.env name = some m.part) (hhead : w.fotaPartHead = m.head)
    (hflash : w.flash = m.flash) :
    ∃ st w₁, upgradeSetup m.env (some name) w = .ok (m.ctx, st) w₁ ∧ CursorAt m .start st w₁ ∧
      CopyInv t.len st ∧ w₁.flash = eraseRange t.base (sectors m.head.rawSize) m.flash := by
  have hraw : 1 ≤ w.fotaPartHead.rawSize := by
    have hshape := j.shape
    rw [hhead, j.rawSize]
    cases blocks with
    | nil => exact hshape.elim
    | cons b bs =>
        have hb := hshape.head.1
        rw [List.flatten_cons, List.length_append]
        omega
  have hsize : w.fotaPartHead.rawSize ≤ t.len := by
    rw [hhead]
    exact j.fits
  have hfind : falPartitionFind m.env w.fotaPartHead.appPartName = some t := by
    rw [hhead]
    exact j.find
  have herase := rtFotaEraseAppPart_good j.good.erases j.target hfind hraw hsize
  have hhead₁ : (w.erased t w.fotaPartHead.rawSize).fotaPartHead = m.head := hhead
  have hbind : (some name).bind (falPartitionFind m.env) = some m.part := hname
  obtain ⟨⟨c, st⟩, w₁, hsetup⟩ := upgradeSetup_ok j.mem hbind herase
    (by rw [hhead₁]; exact j.encryption) (by rw [hhead₁]; exact j.compressed.ne_gzip)
  obtain ⟨hdone, hcalm⟩ := (upgradeSetup_leads hbind herase).ok hsetup
  rw [hhead₁] at hdone
  have hflash₁ : w₁.flash = eraseRange t.base (sectors m.head.rawSize) m.flash := by
    rw [hcalm.flash, World.erased, hhead, hflash]
  obtain ⟨rfl, hat⟩ := SetupDone.cursorAt j.compressed hdone (hcalm.head.trans hhead₁)
    fun a ha => by rw [hflash₁, j.erase_apart j.fits ha]
  have hinv := ((upgradeSetup_keepsAt j.target hfind (some name)).ok hsetup).2
  exact ⟨st, w₁, hsetup, hat, hinv, hflash₁⟩

/-- Nothing is installed yet. -/
theorem BlockJob.remaining (j : BlockJob m t compress blocks)
    (hflash : w.flash = eraseRange t.base (sectors m.head.rawSize) m.flash) :
    Remaining m t compress blocks blocks .start w := by
  refine ⟨fun _ hb => hb, rfl, fun _ => j.shape, fun _ => rfl, fun _ => Cursor.Upright.start,
    fun _ => j.body, fun hnil => ?_, ?_⟩
  · have hshape := j.shape
    rw [hnil] at hshape
    exact hshape.elim
  · rw [hflash]
    exact (flashWith_nil _ _).symm

/-- **The whole upgrade** of framed blocks that fit their seams. -/
theorem BlockJob.upgrade (j : BlockJob m t compress blocks) {name : List Byte}
    (hname : falPartitionFind m.env name = some m.part) (hhead : w.fotaPartHead = m.head)
    (hflash : w.flash = m.flash)
    (hseams : SeamsFit m.head.comSize 0 (blocks.map fun b => (compress b).length)) :
    ∃ w', rtFotaUpgrade m.env (some name) w = .ok rtFotaNoErr w' ∧
      w'.flash = flashWith t.base blocks.flatten
        (eraseRange t.base (sectors m.head.rawSize) m.flash) := by
  obtain ⟨st, w₁, hsetup, hat, -, hflash₁⟩ := j.setup hname hhead hflash
  have hcopy := (j.remaining hflash₁).copy j hat hseams
  cases hrun : upgradeCopy m.env m.ctx st w₁ with
  | ok ret w' =>
      obtain ⟨rfl, hflash'⟩ := hcopy.ok hrun
      exact ⟨w', withExit_ok ((bind_ok hsetup).trans hrun), hflash'⟩
  | error e w' =>
      -- the loops make as many passes as they need
      have he := hcopy.error hrun
      subst he
      have hstop : rtFotaUpgrade m.env (some name) w = .error .outOfFuel w' := by
        unfold rtFotaUpgrade withExit
        rw [bind_ok hsetup]
        simp only [hrun]
      exact absurd hstop (upgrade_terminates m.env (some name) w w')

/-! ## 6. A header that ends with its chunk -/

/-- **A pass at such a header** installs the block once more that was fetched before. -/
theorem CursorAt.skips (hc : m.head.Compressed) (hrom : m.env.rom.Precise) (j : CopyJob m t)
    (hat : CursorAt m x st w) (hinv : CopyInv t.len st) (hmain : m.InMain x) (hpos : x.pos = 4092)
    (hlen : (m.output x).length ≤ 4096) :
    Leads (copyStep m.env m.ctx st) w
      (fun st' w' => CopyInv t.len st' ∧ w'.fotaPartHead = m.head ∧
        st'.totalCopySize = x.out.length + (m.output x).length ∧
        ∀ i < (m.output x).length, w'.flash (t.base + x.out.length + i) = (m.output x).getD i 0)
      fun _ _ => True := by
  have hfind : falPartitionFind m.env w.fotaPartHead.appPartName = some t := by
    rw [hat.head]
    exact j.find
  have hagain : m.output (m.fetch x) = m.output x := by
    rw [StoredImage.fetch_skipped hpos]
    rfl
  have hout : x.out.length ≤ t.len := hat.total ▸ hinv.total
  have hpass := hat.mainPass j hc hmain (.inl hpos) (by rw [hagain]; exact hlen) hout
  refine ((copyStep_onward hrom j.target hinv hfind).and hpass).mono (fun st' w' hw' => ?_)
    fun _ _ _ => trivial
  obtain ⟨hinv', -, hat', -, w₁, -, hwrote⟩ := hw'
  have hdata := hwrote.data
  rw [hagain] at hdata
  refine ⟨hinv'.inv, hat'.head, ?_, hdata⟩
  rw [hat'.total, StoredImage.deliver, m.fetch_out, hagain, List.length_append]

/-- The first pass leads there, if the first block fills its chunk up to a header. -/
theorem Remaining.first {c : List Byte} (j : BlockJob m t compress [b, c])
    (h : Remaining m t compress [b, c] [b, c] x w) (hat : CursorAt m x st w) (hmain : m.InMain x)
    (hpos : x.pos = 4096) (hstart : x.at = 0) (hlen : (compress b).length = 4088) :
    ∃ y st' w', copyStep m.env m.ctx st w = .ok st' w' ∧ CursorAt m y st' w' ∧ y.pos = 4092 ∧
      y.chunks = 1 ∧ y.out = b ∧ m.output y = b := by
  obtain ⟨-, hsize, -, -⟩ := h.frame j
  have hfit : FitsAt x.pos (compress b).length := by
    rw [hpos, hlen]
    decide
  have hback : nextPos x.pos (compress b).length ≠ 0 := by
    rw [hpos, hlen]
    decide
  obtain ⟨hplace, st', w', hstep, hat', h'⟩ := h.main j hat hmain hfit fun _ => hback
  have hplace := hplace (List.cons_ne_nil _ _)
  have hup' := h'.upright (List.cons_ne_nil _ _)
  rw [hstart, hlen] at hplace
  obtain ⟨hblock, hsize'⟩ := StoredImage.fetch_fits (m := m) (x := x) (hsize ▸ hfit)
  have hstale : m.output (m.deliver (m.fetch x)) = b :=
    (m.deliver_output _).trans (h.undone j hblock hsize').1
  have hout : (m.deliver (m.fetch x)).out = b := by
    have hout := h'.out
    rw [List.flatten_cons, List.flatten_cons] at hout
    exact List.append_cancel_right hout
  generalize m.deliver (m.fetch x) = y at *
  refine ⟨y, st', w', hstep, hat', ?_, ?_, hout, hstale⟩
  · rw [← hup'.offsetIn, hplace]
    rfl
  · rw [← hup'.chunksTo, hplace]
    rfl

/-- The main loop over a body whose second header ends with the first chunk. -/
theorem Remaining.skipped {c : List Byte} (j : BlockJob m t compress [b, c])
    (h : Remaining m t compress [b, c] [b, c] x w) (hat : CursorAt m x st w)
    (hinv : CopyInv t.len st) (hpos : x.pos = 4096) (hstart : x.at = 0) (hchunks : x.chunks = 0)
    (hlen : (compress b).length = 4088) (fuel : Nat) :
    Leads (copyLoop m.env m.ctx fuel st) w
      (fun st' w' => m.head.rawSize ≤ st'.totalCopySize ∧
        ∀ i < 4096, w'.flash (t.base + 4096 + i) = b.getD i 0)
      fun _ _ => True := by
  have hrom : m.env.rom.Precise := by
    rw [j.good.rom]
    exact norRom_precise
  have hfind : ∀ {w₁ : World}, w₁.fotaPartHead = m.head →
      falPartitionFind m.env w₁.fotaPartHead.appPartName = some t := by
    intro w₁ hhead
    rw [hhead]
    exact j.find
  obtain ⟨hb, hc⟩ := (h.shape (List.cons_ne_nil _ _)).head.2.2 (List.cons_ne_nil _ _)
  have hc' := hc.head.2.1
  have hraw : m.head.rawSize = 4096 + c.length := by
    rw [j.rawSize]
    simp only [List.flatten_cons, List.flatten_nil, List.append_nil, List.length_append, hb]
  -- both passes are made: the second frame begins in front of the end of the first chunk
  have hcom : 4096 < m.head.comSize := by
    have hpos := (j.sizes c (List.mem_cons_of_mem _ (List.mem_singleton_self c))).1
    have hheader : ∀ n, (bytesBe32 n).length = 4 := fun _ => rfl
    rw [j.comSize, j.body, List.map_cons, framedBody, Framing.encode_cons, List.length_append,
      List.length_append, hheader, hlen, List.map_cons, Framing.encode_cons, List.length_append,
      List.length_append, hheader]
    omega
  have hmain : m.InMain x := by
    unfold StoredImage.InMain
    omega
  obtain ⟨y, st₁, w₁, hstep, hat₁, hpos₁, hchunks₁, hout₁, hstale⟩ :=
    h.first j hat hmain hpos hstart hlen
  have hinv₁ := ((copyStep_onward hrom j.target hinv (hfind hat.head)).ok hstep).inv
  have hmain₁ : m.InMain y := by
    unfold StoredImage.InMain
    omega
  match fuel with
  | 0 => exact leads_throw.mpr trivial
  | 1 => exact leads_of_eq (copyLoop_pass 0 (hat.inMain_iff.mpr hmain) hstep) (leads_throw.mpr trivial)
  | fuel + 2 =>
      refine leads_of_eq (copyLoop_pass (fuel + 1) (hat.inMain_iff.mpr hmain) hstep) ?_
      unfold copyLoop
      rw [if_pos (hat₁.inMain_iff.mpr hmain₁), leads_bind]
      refine (hat₁.skips j.compressed hrom j.toCopyJob hinv₁ hmain₁ hpos₁
        (by rw [hstale, hb])).mono (fun st₂ w₂ hw₂ => ?_) fun _ _ h => h
      rw [hstale, hout₁, hb] at hw₂
      obtain ⟨hinv₂, hhead₂, htotal, hdata⟩ := hw₂
      refine (copyLoop_onward hrom j.target fuel hinv₂ (hfind hhead₂)).mono
        (fun st' w' hw' => ?_) fun _ _ h => h
      have hgrown := hw'.grown
      refine ⟨by omega, fun i hi => ?_⟩
      rw [hw'.front _ (by omega), hdata i hi]

/-- **The block behind such a header is not installed**: at its place lies the block before it. -/
theorem BlockJob.skipped {c : List Byte} (j : BlockJob m t compress [b, c])
    {name : List Byte} (hname : falPartitionFind m.env name = some m.part)
    (hhead : w.fotaPartHead = m.head) (hflash : w.flash = m.flash)
    (hlen : (compress b).length = 4088) {w' : World}
    (hrun : rtFotaUpgrade m.env (some name) w = .ok rtFotaNoErr w') {i : Nat} (hi : i < 4096) :
    w'.flash (t.base + 4096 + i) = b.getD i 0 := by
  have hne : m.ctx.partHead.cmprs ≠ rtFotaCryptAlgoNone := j.compressed.ne_none
  obtain ⟨st, w₁, hsetup, hat, hinv, hflash₁⟩ := j.setup hname hhead hflash
  have hloop := (j.remaining hflash₁).skipped j hat hinv rfl rfl rfl hlen (copyFuel m.head.comSize)
  obtain ⟨r, w₂, hsetup₂, hcopy⟩ := rtFotaUpgrade_ok hrun
  rw [hsetup] at hsetup₂
  cases hsetup₂
  have hlead : Leads (upgradeCopy m.env m.ctx st) w₁
      (fun _ w' => ∀ i < 4096, w'.flash (t.base + 4096 + i) = b.getD i 0) fun _ _ => True := by
    unfold upgradeCopy
    rw [leads_bind]
    refine hloop.mono (fun st' w₃ hw₃ => ?_) fun _ _ h => h
    obtain ⟨hcounted, hthere⟩ := hw₃
    rw [if_pos hne, leads_bind]
    have htail : tailLoop m.env m.ctx (1025 + 1) st' w₃ = .ok st'.totalCopySize w₃ :=
      congrFun (if_neg (not_lt.mpr hcounted)) w₃
    refine leads_of_ok htail ?_
    rw [leads_ite]
    exact ⟨fun hlt => absurd hlt (not_lt.mpr hcounted), fun _ => leads_pure.mpr hthere⟩
  exact hlead.ok hcopy i hi

end Job

/-! ## 7. The whole upgrade -/

section Verified

variable {env : Env} (henv : env.OnBoard) (hgood : env.Good) (hmem : ∀ n, env.mallocOk n = true)
variable {part t : FalPartition} (hpart : part ∈ falPartTable) {w₀ w : World}
variable (hverify : rtFotaPartFwVerify env (some part.name) w₀ = .ok rtFotaNoErr w)
variable (ht : falPartitionFind env w.fotaPartHead.appPartName = some t) (hne : t ≠ part)
variable (hcmprs : w.fotaPartHead.Compressed) (hcrypt : w.fotaPartHead.crypt = rtFotaCryptAlgoNone)
variable {compress : List Byte → List Byte} {blocks : List (List Byte)}
variable (hshape : FirmwareBlocks blocks)
variable (hbody : readFlash w.flash (part.bodyAddr 0) w.fotaPartHead.comSize =
  framedBody (blocks.map compress))
variable (hraw : w.fotaPartHead.rawSize = blocks.flatten.length)
variable (hfits : w.fotaPartHead.rawSize ≤ t.len)
variable (hsizes : ∀ b ∈ blocks, 1 ≤ (compress b).length ∧
  (compress b).length ≤ rtFotaCmprsBufferSize + w.fotaPartHead.paddingSize)
variable (hundone : ∀ b ∈ blocks, ∃ d, decompress env w.fotaPartHead
    (padTo (rtFotaCmprsBufferSize + w.fotaPartHead.paddingSize) (compress b))
    (compress b).length = some d ∧ d.written = b ∧ d.size = b.length)
include henv hgood hmem hpart hverify ht hne hcmprs hcrypt hshape hbody hraw hfits hsizes hundone

/-- A verified image of framed blocks is a job. -/
theorem blockJob_of_verified :
    BlockJob ⟨env, w.flash, part, w.fotaPartHead⟩ t compress blocks := by
  have hmt := falPartitionFind_mem henv ht
  obtain ⟨-, hhead₀, -, hfit⟩ :=
    rtFotaPartFwVerify_accepts (falPartTable_ok part hpart) (henv.find_name hpart) hverify
  rw [← hhead₀] at hfit
  have hrom : env.rom.Confined := by
    rw [hgood.rom]
    exact norRom_confined
  have hplain : w.fotaPartHead.startIv = none := by
    refine if_neg ?_
    rw [hcrypt]
    decide
  have hdecoded : (StoredImage.mk env w.flash part w.fotaPartHead).body =
      readFlash w.flash (part.bodyAddr 0) w.fotaPartHead.comSize := by
    unfold StoredImage.body decodedBody
    rw [hplain]
    rfl
  refine ⟨⟨hrom, falPartTable_ok part hpart, falPartTable_ok t hmt, ht,
    fun a ha => falPartTable_disjoint hpart hmt hne.symm ha, hfit⟩, hgood, hmem, hcmprs, ?_, hshape,
    hdecoded.trans hbody, ?_, hraw, hfits, hsizes, fun b hb => ?_⟩
  · rw [hcrypt]
    decide
  · rw [hdecoded, length_readFlash]
  · obtain ⟨d, hd, hwritten, hsize⟩ := hundone b hb
    have heq := (StoredImage.decompress_eq (m := ⟨env, w.flash, part, w.fotaPartHead⟩) hcmprs
      (padTo (rtFotaCmprsBufferSize + w.fotaPartHead.paddingSize) (compress b))
      (compress b).length).symm.trans hd
    obtain rfl := Option.some.inj heq
    exact ⟨hwritten, hsize⟩

/-- **Reassembly undoes framing**, for every firmware whose blocks fit the seams of their body. -/
theorem reassembly_installs
    (hseams : SeamsFit w.fotaPartHead.comSize 0 (blocks.map fun b => (compress b).length)) :
    ∃ w', rtFotaUpgrade env (some part.name) w = .ok rtFotaNoErr w' ∧
      readFlash w'.flash t.base w.fotaPartHead.rawSize = blocks.flatten := by
  have j := blockJob_of_verified henv hgood hmem hpart hverify ht hne hcmprs hcrypt hshape hbody
    hraw hfits hsizes hundone
  obtain ⟨w', hrun, hflash⟩ := j.upgrade (henv.find_name hpart) rfl rfl hseams
  refine ⟨w', hrun, ?_⟩
  have hbase := j.target.base_lt
  rw [hflash, hraw]
  exact readFlash_flashWith (by omega)

end Verified

/-- A block of 4096 bytes. -/
def firstBlock : List Byte := List.replicate 4096 0x11

/-- A firmware of two blocks. -/
def twoBlocks : List (List Byte) := [firstBlock, [0x22]]

/-- A compression that cuts a block to `k` bytes. -/
def cutBlock (k : Nat) (b : List Byte) : List Byte := b.take k

/-- The body with the first block cut to `k` bytes. -/
def cutBody (k : Nat) : List Byte := framedBody (twoBlocks.map (cutBlock k))

/-- The board with a decompressor that knows the two blocks by their sizes. -/
def Env.twoBlocks : Env :=
  { Env.board with
    fastlzDecompress := fun input length maxout =>
      if length = 1 then ⟨[0x22], 1, 1, .inr rfl⟩
      else if length = 4088 ∨ length = 4089 then
        ⟨firstBlock, 4096, length, .inr List.length_replicate.symm⟩
      else Env.board.fastlzDecompress input length maxout }

theorem Env.twoBlocks_onBoard : Env.twoBlocks.OnBoard := rfl

theorem Env.twoBlocks_good : Env.twoBlocks.Good := ⟨rfl, fun _ => rfl⟩

/-- The image of that body. -/
def cutImage (k : Nat) : HeadFields where
  fotaAlgo := 0x300
  appPartName := appPart.name
  downloadVersion := cStr ['2']
  currentVersion := cStr ['1']
  codeCrc := rtFotaCrc (cutBody k)
  rawSize := 4097
  comSize := .ofNat 32 (k + 9)

theorem twoBlocks_shape : FirmwareBlocks twoBlocks :=
  ⟨List.length_replicate, by decide, by decide⟩

theorem length_twoBlocks : twoBlocks.flatten.length = 4097 := by
  rw [twoBlocks, List.flatten_cons, List.length_append, firstBlock, List.length_replicate]
  rfl

section Cut

-- The header of the second block ends with the first chunk, or one byte of it is in the second one.
variable {k : Nat} (hk : k = 4088 ∨ k = 4089)
include hk

theorem length_cutBlock : (cutBlock k firstBlock).length = k ∧ cutBlock k [0x22] = [0x22] := by
  refine ⟨?_, List.take_of_length_le (by rcases hk with rfl | rfl <;> decide)⟩
  rw [cutBlock, List.length_take, firstBlock, List.length_replicate]
  omega

theorem length_cutBody : (cutBody k).length = k + 9 := by
  obtain ⟨hfirst, hsecond⟩ := length_cutBlock hk
  rw [cutBody, twoBlocks, List.map_cons, framedBody, Framing.encode_cons, List.length_append,
    List.length_append, hfirst, List.map_singleton, hsecond]
  show 4 + k + 5 = k + 9
  omega

/-- The decompressor undoes the cut. -/
theorem cutBlock_undone {h : RtFotaPartHead} (hfastlz : h.cmprs = rtFotaCmprsAlgoFastlz) (n : Nat) :
    ∀ b ∈ twoBlocks, ∃ d, decompress Env.twoBlocks h (padTo n (cutBlock k b))
      (cutBlock k b).length = some d ∧ d.written = b ∧ d.size = b.length := by
  intro b hmem
  obtain ⟨hfirst, hsecond⟩ := length_cutBlock hk
  refine ⟨_, if_pos hfastlz, ?_⟩
  rcases List.mem_cons.mp hmem with rfl | hmem
  · rw [hfirst]
    simp only [Env.twoBlocks]
    rw [if_neg (by omega), if_pos hk]
    exact ⟨rfl, List.length_replicate.symm⟩
  · obtain rfl := List.mem_singleton.mp hmem
    rw [hsecond]
    exact ⟨rfl, rfl⟩

theorem cutBlock_sizes (n : Nat) : ∀ b ∈ twoBlocks, 1 ≤ (cutBlock k b).length ∧
    (cutBlock k b).length ≤ rtFotaCmprsBufferSize + n := by
  intro b hmem
  obtain ⟨hfirst, hsecond⟩ := length_cutBlock hk
  simp only [rtFotaCmprsBufferSize]
  rcases List.mem_cons.mp hmem with rfl | hmem
  · omega
  · obtain rfl := List.mem_singleton.mp hmem
    rw [hsecond]
    exact ⟨Nat.le_refl _, by rw [List.length_singleton]; omega⟩

/-- The board verifies the image. -/
theorem cutImage_verified :
    ∃ w, rtFotaPartFwVerify Env.twoBlocks (some downloadPart.name)
        (.powerOn (imageAt downloadPart (cutImage k) (cutBody k) fun _ => 0xff)) =
          .ok rtFotaNoErr w ∧
      falPartitionFind Env.twoBlocks w.fotaPartHead.appPartName = some appPart ∧
      w.fotaPartHead.cmprs = rtFotaCmprsAlgoFastlz ∧ w.fotaPartHead.crypt = rtFotaCryptAlgoNone ∧
      w.fotaPartHead.rawSize = twoBlocks.flatten.length ∧ w.fotaPartHead.comSize = k + 9 ∧
      readFlash w.flash (downloadPart.bodyAddr 0) w.fotaPartHead.comSize = cutBody k := by
  have hlen := length_cutBody hk
  have hsize : (cutImage k).comSize.toNat = (cutBody k).length := by
    rw [hlen]
    show (BitVec.ofNat 32 _).toNat = _
    rw [BitVec.toNat_ofNat, Nat.mod_eq_of_lt (by omega)]
  have hpart : 8288 ≤ downloadPart.len := by decide
  have hfit : ChunksFit downloadPart (cutBody k).length := by
    unfold ChunksFit
    simp only [sizeofPartHead, chunksSize, rtFotaCrcBuffSize]
    omega
  have hfind : falPartitionFind Env.twoBlocks (packHead (cutImage k)).appPartName =
      some appPart := by
    rcases hk with rfl | rfl <;> decide
  have hfastlz : (packHead (cutImage k)).cmprs = rtFotaCmprsAlgoFastlz := by
    rcases hk with rfl | rfl <;> decide +kernel
  have hplain : (packHead (cutImage k)).crypt = rtFotaCryptAlgoNone := by
    rcases hk with rfl | rfl <;> decide +kernel
  obtain ⟨w, hverify, hflash, hhead, -⟩ := @verify_imageAt Env.twoBlocks Env.twoBlocks_onBoard rfl
    downloadPart (by decide) (cutImage k) (cutBody k) (fun _ => 0xff) hfit hsize rfl
    (by rw [hfind]; exact Option.some_ne_none _)
  have hcom : (packHead (cutImage k)).comSize = (cutBody k).length :=
    (packHead_comSize _).trans hsize
  refine ⟨w, hverify, ?_⟩
  rw [hhead, hcom]
  refine ⟨hfind, hfastlz, hplain, (packHead_rawSize _).trans length_twoBlocks.symm, hlen, ?_⟩
  rw [hflash]
  exact readFlash_body_imageAt (falPartTable_ok _ (by decide)) (by
    simp only [sizeofPartHead]
    omega)

end Cut

/-- The blocks fit their seams: one byte of the second header is in the second chunk. -/
theorem cutImage_seams : SeamsFit 4098 0 (twoBlocks.map fun b => (cutBlock 4089 b).length) := by
  obtain ⟨hfirst, hsecond⟩ := length_cutBlock (k := 4089) (.inr rfl)
  rw [twoBlocks, List.map_cons, hfirst, List.map_singleton, hsecond]
  exact ⟨fun _ => ⟨by decide, fun _ => by decide⟩, fun _ => ⟨by decide, fun hne => absurd rfl hne⟩,
    trivial⟩

/-- The board verifies and upgrades them. -/
theorem cutImage_upgrades :
    ∃ w w', rtFotaPartFwVerify Env.twoBlocks (some downloadPart.name)
        (.powerOn (imageAt downloadPart (cutImage 4089) (cutBody 4089) fun _ => 0xff)) =
          .ok rtFotaNoErr w ∧
      falPartitionFind Env.twoBlocks w.fotaPartHead.appPartName = some appPart ∧
      BlockJob ⟨Env.twoBlocks, w.flash, downloadPart, w.fotaPartHead⟩ appPart (cutBlock 4089)
        twoBlocks ∧
      w.fotaPartHead.comSize = 4098 ∧
      readFlash w.flash (downloadPart.bodyAddr 0) 4098 = cutBody 4089 ∧
      rtFotaUpgrade Env.twoBlocks (some downloadPart.name) w = .ok rtFotaNoErr w' := by
  have hk : 4089 = 4088 ∨ 4089 = 4089 := .inr rfl
  obtain ⟨w, hverify, hfind, hfastlz, hcrypt, hraw, hcom, hbody⟩ := cutImage_verified hk
  have hfits : w.fotaPartHead.rawSize ≤ appPart.len := by
    rw [hraw, length_twoBlocks]
    decide
  have j := blockJob_of_verified Env.twoBlocks_onBoard Env.twoBlocks_good (fun _ => rfl) (by decide)
    hverify hfind (by decide) (.inl hfastlz) hcrypt twoBlocks_shape hbody hraw hfits
    (cutBlock_sizes hk _) (cutBlock_undone hk hfastlz _)
  have hmem : downloadPart ∈ falPartTable := by decide
  obtain ⟨w', hrun, -⟩ := j.upgrade (Env.twoBlocks_onBoard.find_name hmem) rfl rfl
    (by rw [hcom]; exact cutImage_seams)
  exact ⟨w, w', hverify, hfind, j, hcom, by rw [hcom] at hbody; exact hbody, hrun⟩

/-- Two blocks, from the download to the application partition. -/
theorem reassembly_installs_board :
    ∃ w w', rtFotaPartFwVerify Env.twoBlocks (some downloadPart.name)
        (.powerOn (imageAt downloadPart (cutImage 4089) (cutBody 4089) fun _ => 0xff)) =
          .ok rtFotaNoErr w ∧
      rtFotaUpgrade Env.twoBlocks (some downloadPart.name) w = .ok rtFotaNoErr w' ∧
      readFlash w'.flash appPart.base 4097 = firstBlock ++ [0x22] := by
  have hk : 4089 = 4088 ∨ 4089 = 4089 := .inr rfl
  obtain ⟨w, hverify, hfind, hfastlz, hcrypt, hraw, hcom, hbody⟩ := cutImage_verified hk
  have hfits : w.fotaPartHead.rawSize ≤ appPart.len := by
    rw [hraw, length_twoBlocks]
    decide
  obtain ⟨w', hrun, hthere⟩ := reassembly_installs Env.twoBlocks_onBoard Env.twoBlocks_good
    (fun _ => rfl) (by decide) hverify hfind (by decide) (.inl hfastlz) hcrypt twoBlocks_shape hbody
    hraw hfits (cutBlock_sizes hk _) (cutBlock_undone hk hfastlz _) (by rw [hcom]; exact cutImage_seams)
  rw [hraw, length_twoBlocks] at hthere
  exact ⟨w, w', hverify, hrun, hthere⟩

/-- Behind a header that ends with its chunk the small block is lost. -/
theorem reassembly_loses_block :
    ¬ ∀ (env : Env) (part t : FalPartition) (w₀ w : World) (compress : List Byte → List Byte)
      (blocks : List (List Byte)), env.OnBoard → env.Good → (∀ n, env.mallocOk n = true) →
      part ∈ falPartTable → rtFotaPartFwVerify env (some part.name) w₀ = .ok rtFotaNoErr w →
      falPartitionFind env w.fotaPartHead.appPartName = some t → t ≠ part →
      w.fotaPartHead.Compressed → w.fotaPartHead.crypt = rtFotaCryptAlgoNone →
      FirmwareBlocks blocks →
      readFlash w.flash (part.bodyAddr 0) w.fotaPartHead.comSize =
        framedBody (blocks.map compress) →
      w.fotaPartHead.rawSize = blocks.flatten.length → w.fotaPartHead.rawSize ≤ t.len →
      (∀ b ∈ blocks, 1 ≤ (compress b).length ∧
        (compress b).length ≤ rtFotaCmprsBufferSize + w.fotaPartHead.paddingSize) →
      (∀ b ∈ blocks, ∃ d, decompress env w.fotaPartHead
          (padTo (rtFotaCmprsBufferSize + w.fotaPartHead.paddingSize) (compress b))
          (compress b).length = some d ∧ d.written = b ∧ d.size = b.length) →
      ∃ w', rtFotaUpgrade env (some part.name) w = .ok rtFotaNoErr w' ∧
        readFlash w'.flash t.base w.fotaPartHead.rawSize = blocks.flatten := by
  intro h
  have hk : 4088 = 4088 ∨ 4088 = 4089 := .inl rfl
  obtain ⟨w, hverify, hfind, hfastlz, hcrypt, hraw, hcom, hbody⟩ := cutImage_verified hk
  have hfits : w.fotaPartHead.rawSize ≤ appPart.len := by
    rw [hraw, length_twoBlocks]
    decide
  obtain ⟨w', hrun, hthere⟩ := h Env.twoBlocks downloadPart appPart _ w (cutBlock 4088) _
    Env.twoBlocks_onBoard Env.twoBlocks_good (fun _ => rfl) (by decide) hverify hfind (by decide)
    (.inl hfastlz) hcrypt twoBlocks_shape hbody hraw hfits (cutBlock_sizes hk _)
    (cutBlock_undone hk hfastlz _)
  have j := blockJob_of_verified Env.twoBlocks_onBoard Env.twoBlocks_good (fun _ => rfl) (by decide)
    hverify hfind (by decide) (.inl hfastlz) hcrypt twoBlocks_shape hbody hraw hfits
    (cutBlock_sizes hk _) (cutBlock_undone hk hfastlz _)
  have hskip := j.skipped (Env.twoBlocks_onBoard.find_name (show downloadPart ∈ falPartTable by
    decide)) rfl rfl (length_cutBlock hk).1 hrun (i := 0) (by decide)
  -- the byte behind the first block would have to be both
  have hsize : w.fotaPartHead.rawSize = 4097 := hraw.trans length_twoBlocks
  have hbyte : readFlash w'.flash (appPart.base + 4096) 1 = [0x22] := by
    have hdrop := congrArg (List.drop 4096) hthere
    rwa [hsize, drop_readFlash (by decide), twoBlocks, List.flatten_cons,
      List.drop_left' (show firstBlock.length = 4096 from List.length_replicate)] at hdrop
  have haddr : u32 (appPart.base + 4096 + 0) = appPart.base + 4096 + 0 := u32_eq (by decide)
  have hbyte : w'.flash (u32 (appPart.base + 4096 + 0)) = 0x22 := List.head_eq_of_cons_eq hbyte
  rw [haddr, hskip] at hbyte
  exact absurd hbyte (by decide)

end Mh1903
