/-
  File:      Mh1903/Copy/Chunk.lean
  Subject:   CHUNKS OF THE BODY. `rt_fota_read_part` reads 4096 bytes at a time and decrypts them
             with the vector the chunk before left; the loops look at the chunk at hand and the
             next one only.
-/
import Mh1903.Frame.Quiet
import Mh1903.Verify.Image

namespace Mh1903

open Library

/-! ## 1. Decrypting one chunk -/

/-- Vector and bytes that a chunk of ciphertext gives; without AES the bytes are the chunk. -/
def decodeChunk (env : Env) (aesIv : Option (List Byte)) (bs : List Byte) :
    Option (List Byte) × List Byte :=
  match aesIv with
  | none => (none, bs)
  | some iv =>
      let r := tinyAesCryptCbc env.tinyAesCryptEcb (bs.length / 16) iv bs
      (some r.1, r.2)

/-- A vector of the cipher, where there is one. -/
def IvOk (aesIv : Option (List Byte)) : Prop := ∀ iv, aesIv = some iv → iv.length = 16

theorem tinyAesCryptCbc_length (ecb : List Byte → Fin 16 → Byte) {n : Nat} {iv input : List Byte}
    (hiv : iv.length = 16) (hin : 16 * n ≤ input.length) :
    (tinyAesCryptCbc ecb n iv input).1.length = 16 ∧
      (tinyAesCryptCbc ecb n iv input).2.length = 16 * n := by
  induction n generalizing iv input with
  | zero => exact ⟨hiv, rfl⟩
  | succ n ih =>
      have htake : (input.take 16).length = 16 := by rw [List.length_take]; omega
      obtain ⟨h₁, h₂⟩ := @ih _ (input.drop 16) htake (by rw [List.length_drop]; omega)
      refine ⟨h₁, ?_⟩
      simp only [tinyAesCryptCbc, List.length_append, List.length_zipWith, List.length_ofFn, hiv,
        h₂]
      omega

theorem decodeChunk_length (env : Env) {aesIv : Option (List Byte)} {bs : List Byte}
    (hiv : IvOk aesIv) (hbs : bs.length = 4096) :
    IvOk (decodeChunk env aesIv bs).1 ∧ (decodeChunk env aesIv bs).2.length = 4096 := by
  cases aesIv with
  | none => exact ⟨(fun _ h => by cases h), hbs⟩
  | some iv =>
      obtain ⟨h₁, h₂⟩ := tinyAesCryptCbc_length env.tinyAesCryptEcb (n := bs.length / 16)
        (hiv iv rfl) (show 16 * (bs.length / 16) ≤ bs.length by omega)
      refine ⟨fun iv' h => ?_, ?_⟩
      · cases h; exact h₁
      · show (tinyAesCryptCbc env.tinyAesCryptEcb (bs.length / 16) iv bs).2.length = 4096
        rw [h₂, hbs]

/-! ## 2. Reading one chunk -/

/-- Flash, header, executed operations and faults are the same. -/
structure Calm (w w' : World) : Prop extends Quiet w w' where
  faults : w'.faults = w.faults

instance : Std.Refl Calm := ⟨fun _ => ⟨⟨rfl, rfl, rfl⟩, rfl⟩⟩

instance : IsTrans World Calm :=
  ⟨fun _ _ _ h₁ h₂ => ⟨IsTrans.trans _ _ _ h₁.toQuiet h₂.toQuiet, h₂.faults.trans h₁.faults⟩⟩

theorem store_eq {buf data : List Byte} {off : Nat} (h : off + data.length ≤ buf.length)
    (w : World) : store buf off data w = .ok (overwrite buf off data) w := by
  unfold store
  rw [if_neg (by omega)]
  rfl

theorem load_eq (env : Env) {buf : List Byte} {off n : Nat} (h : off + n ≤ buf.length)
    (w : World) : load env buf off n w = .ok ((buf.drop off).take n) w := by
  unfold load
  rw [if_neg (by omega), slice_eq _ h]
  rfl

theorem rtMalloc_calm (env : Env) (size : Nat) (w : World) :
    ∃ w', rtMalloc env size w = .ok (if env.mallocOk w.allocs then
      some ((List.range size).map env.memory) else none) w' ∧ Calm w w' := by
  refine ⟨{ w with allocs := w.allocs + 1 }, ?_, ⟨rfl, rfl, rfl⟩, rfl⟩
  unfold rtMalloc
  rw [get_bind, modify_bind]
  split <;> rfl

/-- Putting as much as the buffer holds. -/
theorem store_full {buf data : List Byte} {n : Nat} (hbuf : buf.length = n)
    (hdata : data.length = n) (w : World) : store buf 0 data w = .ok data w := by
  rw [store_eq (by omega), overwrite_full (by omega)]

theorem rtMemset_full {buf : List Byte} {n : Nat} (hbuf : buf.length = n) {c : Byte} (w : World) :
    rtMemset buf c n w = .ok (List.replicate n c) w :=
  store_full hbuf List.length_replicate w

/-- The chunk lies inside the partition, and there is memory where it has to be decrypted. -/
def Readable (env : Env) (part : FalPartition) (pos : Nat) (aesIv : Option (List Byte))
    (w : World) : Prop :=
  sizeofPartHead + pos + 4096 ≤ part.len ∧ (aesIv ≠ none → env.mallocOk w.allocs = true)

instance (env : Env) (part : FalPartition) (pos : Nat) (aesIv : Option (List Byte)) (w : World) :
    Decidable (Readable env part pos aesIv w) := inferInstanceAs (Decidable (_ ∧ _))

/-- What a readable chunk adds to the record. -/
def chunkRead (env : Env) (flash : Flash) (part : FalPartition) (pos : Nat)
    (aesIv : Option (List Byte)) : PartRead :=
  let bs := readFlash flash (part.bodyAddr pos) 4096
  ⟨pos, bs, (decodeChunk env aesIv bs).2⟩

/-- `w` after one chunk was asked for: decryption takes a buffer for the ciphertext. -/
def World.read (w : World) (env : Env) (part : FalPartition) (pos : Nat)
    (aesIv : Option (List Byte)) : World :=
  { w with
    allocs := if aesIv = none then w.allocs else w.allocs + 1
    reads :=
      if Readable env part pos aesIv w then chunkRead env w.flash part pos aesIv :: w.reads
      else w.reads }

theorem World.read_calm (w : World) (env : Env) (part : FalPartition) (pos : Nat)
    (aesIv : Option (List Byte)) : Calm w (w.read env part pos aesIv) := ⟨⟨rfl, rfl, rfl⟩, rfl⟩

@[simp] theorem World.read_flash (w : World) (env : Env) (part : FalPartition) (pos : Nat)
    (aesIv : Option (List Byte)) : (w.read env part pos aesIv).flash = w.flash := rfl

theorem World.read_of_readable {env : Env} {part : FalPartition} {pos : Nat}
    {aesIv : Option (List Byte)} {w : World} (h : Readable env part pos aesIv w) :
    w.read env part pos aesIv =
      { w with
        allocs := if aesIv = none then w.allocs else w.allocs + 1
        reads := chunkRead env w.flash part pos aesIv :: w.reads } := by
  unfold World.read
  rw [if_pos h]

theorem World.read_of_not {env : Env} {part : FalPartition} {pos : Nat}
    {aesIv : Option (List Byte)} {w : World} (h : ¬ Readable env part pos aesIv w) :
    w.read env part pos aesIv =
      { w with allocs := if aesIv = none then w.allocs else w.allocs + 1 } := by
  unfold World.read
  rw [if_neg h]

/-- **A chunk read**: the call returns; it leaves the decryption of the whole chunk if that is
    readable, and a negative result otherwise. -/
theorem rtFotaReadPart_cases (env : Env) {part : FalPartition} (hp : part.Ok) {pos : Nat}
    (hpos : pos ≤ part.len) {aesIv : Option (List Byte)} (hiv : IvOk aesIv) {buf : List Byte}
    (hbuf : buf.length = 4096) (w : World) :
    ∃ r iv' buf',
      rtFotaReadPart env part pos aesIv buf rtFotaAlgoBuffSize w =
        .ok (r, iv', buf') (w.read env part pos aesIv) ∧
      (Readable env part pos aesIv w → r = 4096 ∧
        (iv', buf') = decodeChunk env aesIv (readFlash w.flash (part.bodyAddr pos) 4096)) ∧
      (¬ Readable env part pos aesIv w → r < 0) := by
  have hlen := hp.len_le
  have hu : u32 (sizeofPartHead + pos) = sizeofPartHead + pos :=
    u32_eq (by simp only [sizeofPartHead]; omega)
  have hread : falPartitionRead w.flash part (sizeofPartHead + pos) rtFotaAlgoBuffSize =
      if sizeofPartHead + pos + 4096 ≤ part.len then
        some (readFlash w.flash (part.bodyAddr pos) 4096) else none := by
    split
    · rename_i hin
      rw [FalPartition.bodyAddr, Nat.add_assoc]
      exact falPartitionRead_ok hp hin
    · rename_i hout
      exact falPartitionRead_beyond (by simp only [sizeofPartHead, rtFotaAlgoBuffSize]; omega)
        (Nat.lt_of_not_le hout)
  have hset : rtMemset buf 0 rtFotaAlgoBuffSize w = .ok (List.replicate 4096 0) w :=
    rtMemset_full hbuf w
  have hlen₁ := length_readFlash w.flash (part.bodyAddr pos) 4096
  unfold rtFotaReadPart
  rw [if_neg (by decide), bind_ok hset]
  cases aesIv with
  | none =>
      simp only
      rw [get_bind, hu, hread]
      by_cases hin : sizeofPartHead + pos + 4096 ≤ part.len
      · have hyes : Readable env part pos none w := ⟨hin, fun h => absurd rfl h⟩
        rw [World.read_of_readable hyes, if_pos rfl]
        unfold chunkRead decodeChunk
        generalize readFlash w.flash (part.bodyAddr pos) 4096 = bs at hlen₁
        simp only [if_pos hin, hlen₁]
        rw [if_neg (by decide), bind_ok (store_full List.length_replicate hlen₁ w)]
        exact ⟨_, _, _, rfl, fun _ => ⟨rfl, rfl⟩, fun hno => absurd hyes hno⟩
      · have hno : ¬ Readable env part pos none w := fun h => hin h.1
        rw [World.read_of_not hno]
        simp only [if_neg hin]
        exact ⟨_, _, _, rfl, fun h => absurd h hno, fun _ => rtFotaPartReadErr_neg⟩
  | some iv =>
      have hmalloc : rtMalloc env rtFotaAlgoBuffSize w = .ok (if env.mallocOk w.allocs then
          some ((List.range rtFotaAlgoBuffSize).map env.memory) else none)
          { w with allocs := w.allocs + 1 } := by
        unfold rtMalloc
        rw [get_bind, modify_bind]
        split <;> rfl
      simp only
      rw [bind_ok hmalloc]
      by_cases hmem : env.mallocOk w.allocs = true
      · have hset₁ : rtMemset ((List.range rtFotaAlgoBuffSize).map env.memory) 0
            rtFotaAlgoBuffSize { w with allocs := w.allocs + 1 } =
              .ok (List.replicate 4096 0) { w with allocs := w.allocs + 1 } :=
          rtMemset_full (by simp) _
        rw [if_pos hmem]
        simp only
        rw [bind_ok hset₁, get_bind, hu, hread]
        by_cases hin : sizeofPartHead + pos + 4096 ≤ part.len
        · have hyes : Readable env part pos (some iv) w := ⟨hin, fun _ => hmem⟩
          rw [World.read_of_readable hyes]
          unfold chunkRead decodeChunk
          generalize hbs : readFlash w.flash (part.bodyAddr pos) 4096 = bs at hlen₁
          have hout := (tinyAesCryptCbc_length env.tinyAesCryptEcb (n := bs.length / 16)
            (hiv iv rfl) (show 16 * (bs.length / 16) ≤ bs.length by omega)).2
          have hlen₂ : (tinyAesCryptCbc env.tinyAesCryptEcb (bs.length / 16) iv bs).2.length =
              4096 := by rw [hout, hlen₁]
          simp only [if_pos hin]
          rw [if_neg (by rw [hlen₁]; decide), bind_ok (store_full List.length_replicate hlen₁ _),
            bind_ok (store_full List.length_replicate hlen₂ _)]
          exact ⟨_, _, _, rfl, fun _ => ⟨by rw [hlen₁]; rfl, rfl⟩, fun hno => absurd hyes hno⟩
        · have hno : ¬ Readable env part pos (some iv) w := fun h => hin h.1
          rw [World.read_of_not hno]
          simp only [if_neg hin]
          exact ⟨_, _, _, rfl, fun h => absurd h hno, fun _ => rtFotaPartReadErr_neg⟩
      · have hno : ¬ Readable env part pos (some iv) w := fun h => hmem (h.2 (by simp))
        rw [World.read_of_not hno, if_neg hmem]
        exact ⟨_, _, _, rfl, fun h => absurd h hno, fun _ => rtFotaGeneralErr_neg⟩

/-! ## 3. Reading on -/

section ReadOn

variable (env : Env) (flash : Flash) (part : FalPartition) (st : CopyState)

/-- What the next chunk gives: the vector behind it and its bytes. -/
def CopyState.next : Option (List Byte) × List Byte :=
  decodeChunk env st.aesIv (readFlash flash (part.bodyAddr st.fwRawPos) 4096)

/-- The state with the next chunk read. -/
def CopyState.advance : CopyState :=
  { st with
    fwRawLen := 4096, fwRawPos := st.fwRawPos + 4096
    aesIv := (st.next env flash part).1, cryptBuf := (st.next env flash part).2 }

/-- `n` bytes from offset `i` of the chunk at hand and the next one. -/
def CopyState.bytesAt (i n : Nat) : List Byte :=
  ((st.cryptBuf ++ (st.next env flash part).2).drop i).take n

end ReadOn

/-- The reader as the loops find it. -/
structure ReadReady (part : FalPartition) (st : CopyState) : Prop where
  pos : st.fwRawPos ≤ part.len
  iv : IvOk st.aesIv
  len : st.cryptBuf.length = 4096

section ReadReady

variable {env : Env} {flash : Flash} {part : FalPartition} {st : CopyState}

theorem ReadReady.length_next (h : ReadReady part st) (env : Env) (flash : Flash) :
    (st.next env flash part).2.length = 4096 :=
  (decodeChunk_length env h.iv (length_readFlash _ _ _)).2

theorem ReadReady.advance (h : ReadReady part st) (hin : st.fwRawPos + 4096 ≤ part.len) :
    ReadReady part (st.advance env flash part) where
  pos := hin
  iv := (decodeChunk_length env h.iv (length_readFlash _ _ _)).1
  len := h.length_next env flash

theorem ReadReady.length_bytesAt (h : ReadReady part st) {i n : Nat} (hin : i + n ≤ 8192) :
    (st.bytesAt env flash part i n).length = n := by
  have hnext := h.length_next env flash
  have hlen := h.len
  rw [CopyState.bytesAt, List.length_take, List.length_drop, List.length_append]
  omega

/-- In the chunk at hand. -/
theorem ReadReady.bytesAt_front (h : ReadReady part st) (env : Env) (flash : Flash) {i n : Nat}
    (hin : i + n ≤ 4096) :
    st.bytesAt env flash part i n = (st.cryptBuf.drop i).take n := by
  rw [CopyState.bytesAt, List.drop_append_of_le_length (by rw [h.len]; omega),
    List.take_append_of_le_length (by rw [List.length_drop, h.len]; omega)]

/-- In the next chunk. -/
theorem ReadReady.bytesAt_next (h : ReadReady part st) (i n : Nat) :
    st.bytesAt env flash part (4096 + i) n = ((st.next env flash part).2.drop i).take n := by
  rw [CopyState.bytesAt, ← List.drop_drop, List.drop_left' h.len]

theorem bytesAt_append (i n m : Nat) :
    st.bytesAt env flash part i n ++ st.bytesAt env flash part (i + n) m =
      st.bytesAt env flash part i (n + m) := by
  unfold CopyState.bytesAt
  rw [← List.drop_drop, ← List.take_add]

/-- **`readChunk` reads the next chunk**, or stops with an error where that cannot be read. -/
theorem readChunk_eq (env : Env) {c : CopyCtx} (hp : c.part.Ok) (h : ReadReady c.part st) (w : World) :
    (Readable env c.part st.fwRawPos st.aesIv w →
      readChunk env c st w = .ok (st.advance env w.flash c.part) (w.read env c.part st.fwRawPos st.aesIv)) ∧
    (¬ Readable env c.part st.fwRawPos st.aesIv w →
      readChunk env c st w = .error (.exit rtFotaPartReadErr) (w.read env c.part st.fwRawPos st.aesIv)) := by
  obtain ⟨r, iv', buf', hrun, hyes, hno⟩ := rtFotaReadPart_cases env hp h.pos h.iv h.len w
  unfold readChunk
  rw [bind_ok hrun]
  refine ⟨fun hread => ?_, fun hread => ?_⟩
  · obtain ⟨rfl, hdec⟩ := hyes hread
    have h₁ : iv' = (st.next env w.flash c.part).1 := congrArg Prod.fst hdec
    have h₂ : buf' = (st.next env w.flash c.part).2 := congrArg Prod.snd hdec
    subst h₁ h₂
    simp only [if_neg (show ¬ (4096 : Int) < 0 by decide)]
    rfl
  · simp only [if_pos (hno hread)]
    rfl

end ReadReady

end Mh1903
