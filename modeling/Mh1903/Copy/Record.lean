/-
  File:      Mh1903/Copy/Record.lean
  Subject:   WHAT AN UPGRADE READS OF THE BODY. From whichever place the loops ask for a chunk, they
             get the one behind the last, decrypted with the vector that one left; over a whole run
             the chunks are the body from its start on and their bytes its decryption at one go.

  * `cbcDecrypt`, `aesCbcDecrypt` -- CBC decryption as it is defined, block by block;
  * `BodyRead` -- chunks that are the body from its start on;
  * `Reading` -- a run and the record it adds to.
-/
import Mh1903.Copy.Reassembly
import Mathlib.Data.List.Induction

namespace Mh1903

open Library

/-! ## 1. CBC decryption -/

/-- Each block is decrypted and added to the one in front of it, the first to the vector. -/
def cbcDecrypt {α : Type} (dec : α → α) (add : α → α → α) (iv : α) (blocks : List α) : List α :=
  List.zipWith (fun block before => add (dec block) before) blocks (iv :: blocks)

/-- The first `n` blocks of 16 bytes. -/
def blocks16 : Nat → List Byte → List (List Byte)
  | 0, _ => []
  | n + 1, bs => bs.take 16 :: blocks16 n (bs.drop 16)

/-- AES-CBC decryption of whole blocks, at one go. -/
def aesCbcDecrypt (ecb : List Byte → Fin 16 → Byte) (iv bs : List Byte) : List Byte :=
  (cbcDecrypt (fun block => List.ofFn (ecb block)) (List.zipWith (· ^^^ ·)) iv
    (blocks16 (bs.length / 16) bs)).flatten

/-- The loop of `tiny_aes_crypt_cbc` computes it. -/
theorem tinyAesCryptCbc_eq (ecb : List Byte → Fin 16 → Byte) (n : Nat) (iv input : List Byte) :
    (tinyAesCryptCbc ecb n iv input).2 =
      (cbcDecrypt (fun block => List.ofFn (ecb block)) (List.zipWith (· ^^^ ·)) iv
        (blocks16 n input)).flatten := by
  induction n generalizing iv input with
  | zero => rfl
  | succ n ih =>
      simp only [tinyAesCryptCbc, blocks16]
      rw [ih]
      rfl

theorem decodeChunk_eq_cbc (env : Env) (iv bs : List Byte) :
    (decodeChunk env (some iv) bs).2 = aesCbcDecrypt env.tinyAesCryptEcb iv bs :=
  tinyAesCryptCbc_eq _ _ _ _

/-! ## 2. Chunks of a body -/

/-- The chunks `rs` were read from `part` in this order, one behind the other from the start of the
    body on, each from a flash that meets `K`. -/
structure InOrder (part : FalPartition) (K : Flash → Prop) (rs : List PartRead) : Prop where
  pos : rs.map PartRead.readPos = (List.range rs.length).map (4096 * ·)
  read : ∀ r ∈ rs, ∃ flash, K flash ∧
    falPartitionRead flash part (u32 (sizeofPartHead + r.readPos)) 4096 = some r.encrypted

/-- And `aesIv` is the vector they leave. -/
structure BodyRead (env : Env) (part : FalPartition) (K : Flash → Prop)
    (startIv : Option (List Byte)) (rs : List PartRead) (aesIv : Option (List Byte)) : Prop
    extends InOrder part K rs where
  decrypted : decodeChunk env startIv (rs.flatMap PartRead.encrypted) =
    (aesIv, rs.flatMap PartRead.decrypted)

section BodyRead

variable {env : Env} {part : FalPartition} {K : Flash → Prop} {startIv aesIv : Option (List Byte)}
variable {rs : List PartRead}

theorem InOrder.length_encrypted (h : InOrder part K rs) :
    (rs.flatMap PartRead.encrypted).length = 4096 * rs.length := by
  have hlen : ∀ r ∈ rs, r.encrypted.length = 4096 := by
    intro r hr
    obtain ⟨f, -, hread⟩ := h.read r hr
    exact falPartitionRead_length hread
  clear h
  induction rs with
  | nil => rfl
  | cons r rs ih =>
      rw [List.flatMap_cons, List.length_append, hlen r List.mem_cons_self,
        ih fun r' hr' => hlen r' (List.mem_cons_of_mem _ hr'), List.length_cons]
      omega

theorem InOrder.snoc (h : InOrder part K rs) {flash : Flash} (hK : K flash) {r : PartRead}
    (hpos : r.readPos = 4096 * rs.length)
    (hread : falPartitionRead flash part (u32 (sizeofPartHead + r.readPos)) 4096 =
      some r.encrypted) : InOrder part K (rs ++ [r]) := by
  refine ⟨?_, fun r' hr' => ?_⟩
  · rw [List.map_append, h.pos, List.length_append, List.length_singleton, List.range_succ,
      List.map_append, List.map_singleton, List.map_singleton, hpos]
  · rcases List.mem_append.mp hr' with hr' | hr'
    · exact h.read r' hr'
    · rw [List.mem_singleton.mp hr']
      exact ⟨flash, hK, hread⟩

/-- All but the last chunk, and the last. -/
theorem InOrder.init {r : PartRead} (h : InOrder part K (rs ++ [r])) :
    InOrder part K rs ∧ r.readPos = 4096 * rs.length ∧ ∃ flash, K flash ∧
      falPartitionRead flash part (u32 (sizeofPartHead + 4096 * rs.length)) 4096 =
        some r.encrypted := by
  have hpos := h.pos
  rw [List.length_append, List.length_singleton, List.map_append, List.range_succ,
    List.map_append] at hpos
  obtain ⟨hpos, hr⟩ := List.append_inj hpos (by simp)
  have hat : r.readPos = 4096 * rs.length := List.singleton_inj.mp hr
  have hread := h.read r (by simp)
  rw [hat] at hread
  exact ⟨⟨hpos, fun r' hr' => h.read r' (List.mem_append_left _ hr')⟩, hat, hread⟩

/-- **In a partition shorter than 2^31 the chunks lie inside it**: no position wraps around, neither
    as an `int` nor in the sums of the FAL. -/
theorem InOrder.inside (hlen : part.len < 2147483648) (h : InOrder part K rs) :
    rs = [] ∨ sizeofPartHead + 4096 * rs.length ≤ part.len := by
  induction rs using List.reverseRecOn with
  | nil => exact .inl rfl
  | append_singleton rs r ih =>
      obtain ⟨hrs, -, f, -, hread⟩ := h.init
      have hsmall : sizeofPartHead + 4096 * rs.length < 2147483648 := by
        rcases ih hrs with rfl | hin
        · decide
        · omega
      refine .inr ?_
      by_contra hout
      rw [List.length_append, List.length_singleton, Nat.mul_succ, ← Nat.add_assoc] at hout
      rw [u32_eq (by omega), falPartitionRead_beyond (by omega) (Nat.lt_of_not_le hout)] at hread
      cases hread

theorem BodyRead.nil : BodyRead env part K startIv [] startIv := by
  refine ⟨⟨rfl, fun r hr => (by cases hr)⟩, ?_⟩
  cases startIv with
  | none => rfl
  | some iv => simp [decodeChunk, tinyAesCryptCbc]

/-- **The next chunk.** -/
theorem BodyRead.snoc (h : BodyRead env part K startIv rs aesIv) {flash : Flash} (hK : K flash)
    {bs : List Byte}
    (hbs : falPartitionRead flash part (u32 (sizeofPartHead + 4096 * rs.length)) 4096 = some bs) :
    BodyRead env part K startIv
      (rs ++ [⟨4096 * rs.length, bs, (decodeChunk env aesIv bs).2⟩]) (decodeChunk env aesIv bs).1 := by
  refine ⟨h.toInOrder.snoc hK rfl hbs, ?_⟩
  have hwhole : (rs.flatMap PartRead.encrypted).length % 16 = 0 := by
    rw [h.length_encrypted]
    omega
  rw [List.flatMap_append, List.flatMap_append, List.flatMap_singleton, List.flatMap_singleton,
    decodeChunk_append env startIv hwhole, h.decrypted]

/-- With AES the bytes delivered are the decryption of the bytes read. -/
theorem BodyRead.cbc {iv : List Byte} (h : BodyRead env part K (some iv) rs aesIv) :
    rs.flatMap PartRead.decrypted =
      aesCbcDecrypt env.tinyAesCryptEcb iv (rs.flatMap PartRead.encrypted) := by
  rw [← decodeChunk_eq_cbc, h.decrypted]

end BodyRead

/-! ## 3. What reads nothing -/

/-- Header and record are the same. -/
structure Unread (w w' : World) : Prop where
  head : w'.fotaPartHead = w.fotaPartHead
  reads : w'.reads = w.reads

instance : Std.Refl Unread := ⟨fun _ => ⟨rfl, rfl⟩⟩

instance : IsTrans World Unread :=
  ⟨fun _ _ _ h₁ h₂ => ⟨h₂.head.trans h₁.head, h₂.reads.trans h₁.reads⟩⟩

/-- The flash is, too. -/
structure Idle (w w' : World) : Prop extends Unread w w' where
  flash : w'.flash = w.flash

instance : Std.Refl Idle := ⟨fun _ => ⟨⟨rfl, rfl⟩, rfl⟩⟩

instance : IsTrans World Idle :=
  ⟨fun _ _ _ h₁ h₂ => ⟨IsTrans.trans _ _ _ h₁.toUnread h₂.toUnread, h₂.flash.trans h₁.flash⟩⟩

theorem fault_idle (f : MemFault) : Keeps Idle (fault f) := fun _ => ⟨⟨rfl, rfl⟩, rfl⟩

theorem rtMalloc_idle (env : Env) (size : Nat) : Keeps Idle (rtMalloc env size) := by
  refine keeps_bind keeps_get fun w => keeps_bind (fun _ => ⟨⟨rfl, rfl⟩, rfl⟩) fun _ => ?_
  exact keeps_ite (keeps_pure _) (keeps_pure _)

theorem keeps_unread_of_idle {α : Type} {x : M α} (h : Keeps Idle x) : Keeps Unread x :=
  fun w => (h w).toUnread

theorem flashOp_unread (env : Env) (op : FlashOp) (run : Nat → Flash → Bool × Flash) :
    Keeps Unread (flashOp env op run) := by
  refine keeps_bind keeps_get fun w => keeps_ite ?_ (keeps_throw _)
  exact keeps_bind (fun _ => ⟨rfl, rfl⟩) fun _ => keeps_pure _

/-! ## 4. One chunk -/

/-- **A chunk read**, in any partition: the call adds to the record what it delivers, or fails and
    leaves the record alone. -/
theorem rtFotaReadPart_record (env : Env) (part : FalPartition) (pos : Nat)
    (aesIv : Option (List Byte)) (buf : List Byte) (w : World) :
    Leads (rtFotaReadPart env part pos aesIv buf rtFotaAlgoBuffSize) w
      (fun r w' => w'.flash = w.flash ∧ w'.fotaPartHead = w.fotaPartHead ∧
        (r.1 < 0 ∧ w'.reads = w.reads ∨
          ∃ bs, falPartitionRead w.flash part (u32 (sizeofPartHead + pos)) 4096 = some bs ∧
            r.1 = 4096 ∧ r.2.1 = (decodeChunk env aesIv bs).1 ∧
            w'.reads = ⟨pos, bs, (decodeChunk env aesIv bs).2⟩ :: w.reads))
      (fun _ w' => w'.reads = w.reads) := by
  have hfail : ∀ {r : Int × Option (List Byte) × List Byte} {w' : World}, r.1 < 0 → Idle w w' →
      w'.flash = w.flash ∧ w'.fotaPartHead = w.fotaPartHead ∧
        (r.1 < 0 ∧ w'.reads = w.reads ∨
          ∃ bs, falPartitionRead w.flash part (u32 (sizeofPartHead + pos)) 4096 = some bs ∧
            r.1 = 4096 ∧ r.2.1 = (decodeChunk env aesIv bs).1 ∧
            w'.reads = ⟨pos, bs, (decodeChunk env aesIv bs).2⟩ :: w.reads) :=
    fun hneg hw => ⟨hw.flash, hw.head, .inl ⟨hneg, hw.reads⟩⟩
  unfold rtFotaReadPart
  rw [if_neg (by decide), leads_bind]
  refine ((rtMemset_keeps fault_idle _ _ _).at (returns_any _) w).leads.mono
    (fun dbuf w₁ h₁ => ?_) fun _ _ h => h.reads
  cases aesIv with
  | none =>
      simp only
      rw [leads_bind, leads_get, h₁.1.flash]
      cases hread : falPartitionRead w.flash part (u32 (sizeofPartHead + pos))
        rtFotaAlgoBuffSize with
      | none => exact leads_pure.mpr (hfail rtFotaPartReadErr_neg h₁.1)
      | some bs =>
          have hlen : bs.length = 4096 := falPartitionRead_length hread
          simp only
          rw [if_neg (by omega), leads_bind]
          refine ((store_keeps fault_idle _ _ _).at (returns_any _) w₁).leads.mono
            (fun dbuf w₂ h₂ => ?_) fun _ _ h => h.reads.trans h₁.1.reads
          have h₂ := IsTrans.trans _ _ _ h₁.1 h₂.1
          rw [leads_bind]
          refine leads_modify.mpr (leads_pure.mpr ⟨h₂.flash, h₂.head, .inr ⟨bs, hread, ?_, rfl, ?_⟩⟩)
          · show (bs.length : Int) = 4096
            rw [hlen]
            rfl
          · exact congrArg _ h₂.reads
  | some iv =>
      simp only
      rw [leads_bind]
      refine ((rtMalloc_idle env _).at (rtMalloc_returns _) w₁).leads.mono
        (fun enc w₂ h₂ => ?_) fun _ _ h => h.reads.trans h₁.1.reads
      have hw₂ := IsTrans.trans _ _ _ h₁.1 h₂.1
      cases enc with
      | none => exact leads_pure.mpr (hfail rtFotaGeneralErr_neg hw₂)
      | some enc =>
          have henc : enc.length = rtFotaAlgoBuffSize := h₂.2 enc rfl
          simp only
          rw [leads_bind]
          refine leads_of_ok (rtMemset_full henc w₂) ?_
          rw [leads_bind, leads_get, hw₂.flash]
          cases hread : falPartitionRead w.flash part (u32 (sizeofPartHead + pos))
            rtFotaAlgoBuffSize with
          | none => exact leads_pure.mpr (hfail rtFotaPartReadErr_neg hw₂)
          | some bs =>
              have hlen : bs.length = rtFotaAlgoBuffSize := falPartitionRead_length hread
              have hlen' : bs.length = 4096 := hlen
              simp only
              rw [if_neg (by omega), leads_bind]
              refine leads_of_ok (store_full List.length_replicate hlen w₂) ?_
              rw [leads_bind]
              refine ((store_keeps fault_idle _ _ _).at (returns_any _) w₂).leads.mono
                (fun dbuf w₃ h₃ => ?_) fun _ _ h => h.reads.trans hw₂.reads
              have hw₃ := IsTrans.trans _ _ _ hw₂ h₃.1
              rw [leads_bind]
              refine leads_modify.mpr
                (leads_pure.mpr ⟨hw₃.flash, hw₃.head, .inr ⟨bs, hread, ?_, rfl, ?_⟩⟩)
              · show (bs.length : Int) = 4096
                rw [hlen']
                rfl
              · exact congrArg _ hw₃.reads

/-! ## 5. The reader in the loops -/

/-- A run that reads `part` from a flash meeting `K`; `before` is the record it started with. -/
structure Reading where
  env : Env
  part : FalPartition
  K : Flash → Prop
  startIv : Option (List Byte)
  before : List PartRead

namespace Reading

variable (b : Reading)

/-- What was recorded since the start is the body from its start on. -/
def Recorded (w : World) : Prop :=
  ∃ rs aesIv, w.reads = rs.reverse ++ b.before ∧
    BodyRead b.env b.part b.K b.startIv rs aesIv

/-- And it covers `n` bytes of it. -/
def RecordedTo (n : Nat) (w : World) : Prop :=
  ∃ rs aesIv, w.reads = rs.reverse ++ b.before ∧
    BodyRead b.env b.part b.K b.startIv rs aesIv ∧ n ≤ 4096 * rs.length

/-- Position and vector of the reader are those behind the last chunk recorded. -/
def At (st : CopyState) (w : World) : Prop :=
  ∃ rs, w.reads = rs.reverse ++ b.before ∧
    BodyRead b.env b.part b.K b.startIv rs st.aesIv ∧ st.fwRawPos = 4096 * rs.length

/-- The next chunk can be read. -/
def Ready (st : CopyState) (w : World) : Prop := b.At st w ∧ b.K w.flash

variable {b : Reading} {c : CopyCtx} {st st' : CopyState} {w w' : World}

theorem At.recorded (h : b.At st w) : b.Recorded w := by
  obtain ⟨rs, hreads, hbody, -⟩ := h
  exact ⟨rs, _, hreads, hbody⟩

theorem At.unread (h : b.At st w) (hw : w'.reads = w.reads) (hpos : st'.fwRawPos = st.fwRawPos)
    (hiv : st'.aesIv = st.aesIv) : b.At st' w' := by
  obtain ⟨rs, hreads, hbody, hraw⟩ := h
  exact ⟨rs, hw.trans hreads, hiv ▸ hbody, hpos.trans hraw⟩

theorem Ready.idle (h : b.Ready st w) (hw : Idle w w') (hpos : st'.fwRawPos = st.fwRawPos)
    (hiv : st'.aesIv = st.aesIv) : b.Ready st' w' :=
  ⟨h.1.unread hw.reads hpos hiv, by rw [hw.flash]; exact h.2⟩

/-- The other locals do not matter. -/
theorem Ready.set (h : b.Ready st w) (hpos : st'.fwRawPos = st.fwRawPos)
    (hiv : st'.aesIv = st.aesIv) : b.Ready st' w := h.idle (Std.Refl.refl w) hpos hiv

/-- In front of an idle part the reader stands still. -/
theorem Ready.bind {α β : Type} {x : M α} {f : α → M β} {Q : β → World → Prop} (h : b.Ready st w)
    (hx : Keeps Idle x) (hf : ∀ a w', b.Ready st w' → Leads (f a) w' Q fun _ => b.Recorded) :
    Leads (x >>= f) w Q fun _ => b.Recorded := by
  rw [leads_bind]
  refine (hx.at (returns_any x) w).leads.mono (fun a w' hw => ?_) fun _ w' hw => ?_
  · exact hf a w' (h.idle hw.1 rfl rfl)
  · exact (At.unread h.1 hw.reads (Eq.refl st.fwRawPos) rfl).recorded

/-- Each of the places that read calls this. -/
theorem Ready.readChunk (h : b.Ready st w) (hc : c.part = b.part) :
    Leads (readChunk b.env c st) w b.Ready fun _ => b.Recorded := by
  obtain ⟨rs, hreads, hbody, hpos⟩ := h.1
  unfold Mh1903.readChunk
  rw [leads_bind]
  refine (rtFotaReadPart_record b.env c.part st.fwRawPos st.aesIv st.cryptBuf w).mono
    (fun r w' hr => ?_) fun _ w' hw => ⟨rs, _, hw.trans hreads, hbody⟩
  obtain ⟨hflash, -, hr⟩ := hr
  rw [leads_ite]
  refine ⟨fun hneg => ?_, fun hpos' => ?_⟩
  · obtain ⟨-, hw⟩ := hr.resolve_right fun ⟨_, _, h₄, _⟩ => by omega
    rw [leads_bind]
    exact leads_throw.mpr ⟨rs, _, hw.trans hreads, hbody⟩
  · obtain ⟨bs, hbs, hlen, hiv, hw⟩ := hr.resolve_left fun h => hpos' h.1
    rw [hpos, hc] at hbs
    refine leads_pure.mpr ⟨⟨rs ++ [⟨4096 * rs.length, bs, (decodeChunk b.env st.aesIv bs).2⟩],
      ?_, ?_, ?_⟩, by rw [hflash]; exact h.2⟩
    · rw [hw, hreads, hpos, List.reverse_append, List.reverse_singleton]
      rfl
    · rw [hiv]
      exact hbody.snoc h.2 hbs
    · show st.fwRawPos + r.1.toNat = _
      rw [hlen, hpos, List.length_append, List.length_singleton]
      rfl

/-! ## 6. Fetching a block -/

theorem Ready.clearCmprs (h : b.Ready st w) :
    Leads (clearCmprs c st) w b.Ready fun _ => b.Recorded :=
  h.bind (rtMemset_keeps fault_idle _ _ _) fun _ _ h =>
    leads_pure.mpr (h.set rfl rfl)

theorem Ready.takeHdrByte (h : b.Ready st w) (i : Nat) :
    Leads (takeHdrByte b.env i st) w b.Ready fun _ => b.Recorded :=
  h.bind (load_keeps fault_idle _ _ _ _) fun _ _ h =>
    h.bind (store_keeps fault_idle _ _ _) fun _ _ h =>
    leads_pure.mpr (h.set rfl rfl)

theorem Ready.fillHdrLoop (h : b.Ready st w) (n : Nat) :
    Leads (fillHdrLoop b.env n st) w b.Ready fun _ => b.Recorded := by
  induction n generalizing st w with
  | zero => exact leads_pure.mpr h
  | succ n ih =>
      unfold Mh1903.fillHdrLoop
      rw [leads_bind]
      exact (h.takeHdrByte _).mono (fun _ _ h => ih h) fun _ _ h => h

theorem Ready.fetchNewChunk (h : b.Ready st w) (hc : c.part = b.part) :
    Leads (fetchNewChunk b.env c st) w b.Ready fun _ => b.Recorded := by
  unfold Mh1903.fetchNewChunk
  rw [leads_bind]
  refine (h.readChunk hc).mono (fun st w h => ?_) fun _ _ h => h
  refine h.bind (rtMemcpy_keeps fault_idle _ _ _ _ _ _) fun hdr w h => ?_
  rw [leads_bind]
  have h : b.Ready { st with blockHdrBuf := hdr, blockSize := blockSizeOf hdr } w := h.set rfl rfl
  refine h.clearCmprs.mono (fun st w h => ?_) fun _ _ h => h
  exact h.bind (rtMemcpy_keeps fault_idle _ _ _ _ _ _) fun _ _ h =>
    leads_pure.mpr (h.set rfl rfl)

theorem Ready.fetchPayload (h : b.Ready st w) (hc : c.part = b.part) :
    Leads (fetchPayload b.env c st) w b.Ready fun _ => b.Recorded := by
  unfold Mh1903.fetchPayload
  simp only
  rw [leads_bind]
  have h : b.Ready { st with blockSize := blockSizeOf st.blockHdrBuf } w := h.set rfl rfl
  refine h.clearCmprs.mono
    (fun st w h => ?_) fun _ _ h => h
  rw [leads_ite]
  refine ⟨fun _ => ?_, fun _ => ?_⟩
  · refine h.bind (rtMemcpy_keeps fault_idle _ _ _ _ _ _) fun buf w h => ?_
    rw [leads_bind]
    have h : b.Ready { st with cmprsBuff := buf } w := h.set rfl rfl
    refine (h.readChunk hc).mono (fun st w h => ?_)
      fun _ _ h => h
    exact h.bind (rtMemcpy_keeps fault_idle _ _ _ _ _ _) fun _ _ h =>
    leads_pure.mpr (h.set rfl rfl)
  · exact h.bind (rtMemcpy_keeps fault_idle _ _ _ _ _ _) fun _ _ h =>
    leads_pure.mpr (h.set rfl rfl)

theorem Ready.fetchInChunkLoop (h : b.Ready st w) (hc : c.part = b.part) (fuel i : Nat) :
    Leads (fetchInChunkLoop b.env c fuel i st) w (fun r => b.Ready r.2) fun _ => b.Recorded := by
  induction fuel generalizing i st w with
  | zero => exact leads_throw.mpr h.1.recorded
  | succ fuel ih =>
      unfold Mh1903.fetchInChunkLoop
      rw [leads_ite, leads_ite]
      refine ⟨fun _ => ⟨fun _ => ?_, fun _ => ?_⟩, fun _ => leads_pure.mpr h⟩
      · rw [leads_bind]
        exact (h.takeHdrByte i).mono (fun _ _ h => ih h _) fun _ _ h => h
      · rw [leads_bind]
        exact (h.fetchPayload hc).mono (fun _ _ h => leads_pure.mpr h) fun _ _ h => h

theorem Ready.fetchSplitHdr (h : b.Ready st w) (hc : c.part = b.part) (i : Nat) :
    Leads (fetchSplitHdr b.env c i st) w b.Ready fun _ => b.Recorded := by
  unfold Mh1903.fetchSplitHdr
  rw [leads_bind]
  refine (h.readChunk hc).mono (fun st w h => ?_) fun _ _ h => h
  rw [leads_bind]
  have h : b.Ready { st with blockHdrPos := 0 } w := h.set rfl rfl
  refine (h.fillHdrLoop _).mono (fun st w h => ?_)
    fun _ _ h => h
  simp only
  rw [leads_bind]
  have h : b.Ready { st with blockSize := blockSizeOf st.blockHdrBuf } w := h.set rfl rfl
  refine h.clearCmprs.mono
    (fun st w h => ?_) fun _ _ h => h
  exact h.bind (rtMemcpy_keeps fault_idle _ _ _ _ _ _) fun _ _ h =>
    leads_pure.mpr (h.set rfl rfl)

/-- **Fetching a block** reads on in the body, whichever way it takes. -/
theorem Ready.fetchBlock (h : b.Ready st w) (hc : c.part = b.part) :
    Leads (fetchBlock b.env c st) w b.Ready fun _ => b.Recorded := by
  unfold Mh1903.fetchBlock Mh1903.fetchInChunk
  rw [leads_ite, leads_bind]
  refine ⟨fun _ => h.fetchNewChunk hc, fun _ => ?_⟩
  refine (h.fetchInChunkLoop hc 6 0).mono (fun r w h => ?_) fun _ _ h => h
  show Leads (if r.1 < rtFotaBlockHeaderSize then _ else _) w _ _
  rw [leads_ite]
  exact ⟨fun _ => h.fetchSplitHdr hc _, fun _ => leads_pure.mpr h⟩

/-! ## 7. The loops -/

theorem Recorded.unread (h : b.Recorded w) (hw : Unread w w') : b.Recorded w' := by
  obtain ⟨rs, aesIv, hreads, hbody⟩ := h
  exact ⟨rs, aesIv, hw.reads.trans hreads, hbody⟩

theorem RecordedTo.recorded {n : Nat} (h : b.RecordedTo n w) : b.Recorded w := by
  obtain ⟨rs, aesIv, hreads, hbody, -⟩ := h
  exact ⟨rs, aesIv, hreads, hbody⟩

theorem RecordedTo.le {n k : Nat} (h : b.RecordedTo n w) (hk : k ≤ n) : b.RecordedTo k w := by
  obtain ⟨rs, aesIv, hreads, hbody, hn⟩ := h
  exact ⟨rs, aesIv, hreads, hbody, hk.trans hn⟩

theorem At.recordedTo (h : b.At st w) : b.RecordedTo st.fwRawPos w := by
  obtain ⟨rs, hreads, hbody, hraw⟩ := h
  exact ⟨rs, _, hreads, hbody, hraw.le⟩

theorem RecordedTo.keeps {α : Type} {x : M α} {n : Nat} (h : b.RecordedTo n w)
    (hx : Keeps Unread x) : Leads x w (fun _ => b.RecordedTo n) fun _ => b.Recorded := by
  obtain ⟨rs, aesIv, hreads, hbody, hn⟩ := h
  exact (hx.at (returns_any x) w).leads.mono
    (fun _ _ hw => ⟨rs, aesIv, hw.1.reads.trans hreads, hbody, hn⟩)
    fun _ _ hw => ⟨rs, aesIv, hw.reads.trans hreads, hbody⟩

/-- Position and vector of the reader are the same. -/
def SameReader (st st' : CopyState) : Prop := st'.fwRawPos = st.fwRawPos ∧ st'.aesIv = st.aesIv

theorem At.keeps {x : M CopyState} (h : b.At st w) (hx : Keeps Unread x)
    (hr : Returns x (SameReader st)) : Leads x w b.At fun _ => b.Recorded :=
  (hx.at hr w).leads.mono (fun _ _ hw => h.unread hw.1.reads hw.2.1 hw.2.2)
    fun _ _ hw => h.recorded.unread hw

theorem writeOut_reader (env : Env) (buf : List Byte) (len : Nat) (st : CopyState) :
    Returns (writeOut env buf len st) (SameReader st) :=
  returns_bind (returns_any _) fun _ _ =>
    returns_ite (fun _ => returns_throw_bind _) fun _ => returns_pure ⟨rfl, rfl⟩

theorem deliverBlock_reader (env : Env) (c : CopyCtx) (st : CopyState) :
    Returns (deliverBlock env c st) (SameReader st) := by
  have hdec : Returns (decompressBlock env c st) (SameReader st) := by
    refine returns_bind (returns_any _) fun buf _ => ?_
    split
    · exact returns_pure ⟨rfl, rfl⟩
    · exact returns_bind (returns_any _) fun _ _ => returns_bind (returns_any _) fun _ _ =>
        returns_pure ⟨rfl, rfl⟩
  refine returns_bind hdec fun st' h => returns_ite (fun _ => returns_throw_bind _) fun _ => ?_
  exact (writeOut_reader env _ _ st').mono fun _ h' => ⟨h'.1.trans h.1, h'.2.trans h.2⟩

theorem fault_unread (f : MemFault) : Keeps Unread (fault f) :=
  keeps_unread_of_idle (fault_idle f)

theorem flashProgramPage_unread (env : Env) (addr size : Nat) (buffer : List Byte) :
    Keeps Unread (flashProgramPage env addr size buffer) := flashOp_unread _ _ _

/-- **One pass of the main loop.** -/
theorem Ready.copyStep (h : b.Ready st w) (hc : c.part = b.part) :
    Leads (copyStep b.env c st) w b.At fun _ => b.Recorded := by
  have hp := flashProgramPage_unread b.env
  unfold Mh1903.copyStep
  rw [leads_ite]
  refine ⟨fun _ => ?_, fun _ => ?_⟩
  · rw [leads_bind]
    refine (h.fetchBlock hc).mono (fun st w h => ?_) fun _ _ h => h
    exact h.1.keeps (deliverBlock_keeps fault_unread hp _ _) (deliverBlock_reader _ _ _)
  · rw [leads_bind]
    refine (h.readChunk hc).mono (fun st w h => ?_) fun _ _ h => h
    exact h.1.keeps (writeOut_keeps fault_unread hp _ _ _) (writeOut_reader _ _ _ _)

section Loops

-- An invariant of the loop that gives `K`: a pass reads before it writes.
variable {I : CopyState → World → Prop} (hK : ∀ st w, I st w → b.K w.flash)
variable (hI : ∀ c st w, I st w → Leads (Mh1903.copyStep b.env c st) w I fun _ _ => True)
include hK hI

theorem At.copyLoop (h : b.At st w) (hi : I st w) (hc : c.part = b.part) (fuel : Nat) :
    Leads (copyLoop b.env c fuel st) w (fun _ => b.RecordedTo c.partHead.comSize)
      fun _ => b.Recorded := by
  induction fuel generalizing st w with
  | zero => exact leads_throw.mpr h.recorded
  | succ fuel ih =>
      unfold Mh1903.copyLoop
      rw [leads_ite, leads_bind]
      refine ⟨fun _ => ?_, fun hge => leads_pure.mpr (h.recordedTo.le (not_lt.mp hge))⟩
      have hready : b.Ready st w := ⟨h, hK st w hi⟩
      exact ((hready.copyStep hc).and (hI c st w hi)).mono (fun _ _ h => ih h.1 h.2)
        fun _ _ h => h.1

theorem At.upgradeCopy (h : b.At st w) (hi : I st w) (hc : c.part = b.part) :
    Leads (upgradeCopy b.env c st) w (fun _ => b.RecordedTo c.partHead.comSize)
      fun _ => b.Recorded := by
  unfold Mh1903.upgradeCopy
  rw [leads_bind]
  refine (h.copyLoop hK hI hi hc _).mono (fun st w h => h.keeps ?_) fun _ _ h => h
  refine keeps_ite (keeps_bind (tailLoop_keeps fault_unread (flashProgramPage_unread b.env) _ _ _)
    fun _ => ?_) (keeps_bind (keeps_pure _) fun _ => ?_)
  all_goals exact keeps_ite (keeps_throw_bind _) (keeps_pure _)

end Loops

end Reading

/-! ## 8. The whole upgrade -/

section Upgrade

variable {env : Env} {partName : Option (List Byte)} {part : FalPartition} {w : World}

theorem rtMalloc_unread (size : Nat) : Keeps Unread (rtMalloc env size) :=
  keeps_unread_of_idle (rtMalloc_idle env size)

/-- The setup leaves the reader at the start of the body, with the configured vector. -/
theorem upgradeSetup_reader (hpart : partName.bind (falPartitionFind env) = some part) (w : World) :
    KeepsAt Unread (upgradeSetup env partName) w fun r => r.1.part = part ∧
      r.1.partHead = w.fotaPartHead ∧ r.2.fwRawPos = 0 ∧ r.2.aesIv = w.fotaPartHead.startIv := by
  unfold upgradeSetup
  simp only [hpart]
  refine keepsAt_bind ((rtFotaEraseAppPart_keeps fun _ => flashOp_unread _ _ _).at
    (returns_any _) w) fun fotaErr w₁ hw₁ _ => ?_
  refine keepsAt_ite (fun _ => keepsAt_throw_bind _ _ _) fun _ => ?_
  refine keepsAt_bind (P := (· = w₁)) (leads_get.mpr ⟨Std.Refl.refl w₁, rfl⟩) fun w₂ _ _ h₂ => ?_
  subst h₂
  refine keepsAt_bind ((rtMalloc_unread _).at (returns_any _) _) fun cryptBuf w₃ _ _ => ?_
  cases cryptBuf with
  | none => exact keepsAt_throw _ _ _
  | some cryptBuf =>
      refine keepsAt_bind ((setupCrypt_keeps rtMalloc_unread _).at (setupCrypt_returns _) w₃)
        fun aesIv w₄ _ hiv => ?_
      refine keepsAt_bind ((setupCmprs_keeps rtMalloc_unread _).at (returns_any _) w₄)
        fun bufs w₅ _ _ => ?_
      exact keepsAt_pure ⟨rfl, hw₁.head, rfl, by rw [hiv.1, hw₁.head]⟩

/-- **The record of an upgrade**, for a flash that an invariant of the loop describes. -/
theorem rtFotaUpgrade_recorded {K : Flash → Prop} {I : CopyState → World → Prop}
    (hpart : partName.bind (falPartitionFind env) = some part) (hK : ∀ st w, I st w → K w.flash)
    (hI : ∀ c st w, I st w → Leads (copyStep env c st) w I fun _ _ => True)
    (hstart : Leads (upgradeSetup env partName) w (fun r => I r.2) fun _ _ => True) :
    ∃ rs aesIv, (final (rtFotaUpgrade env partName) w).reads = rs.reverse ++ w.reads ∧
      BodyRead env part K w.fotaPartHead.startIv rs aesIv := by
  let b : Reading := ⟨env, part, K, w.fotaPartHead.startIv, w.reads⟩
  have hnil : ∀ w' : World, w'.reads = w.reads → b.Recorded w' :=
    fun w' hw => ⟨[], _, hw, BodyRead.nil⟩
  have hrun : Leads (rtFotaUpgrade env partName) w (fun _ => b.Recorded) fun _ => b.Recorded := by
    refine leads_withExit ?_
    rw [leads_bind]
    refine ((upgradeSetup_reader hpart w).leads.and hstart).mono (fun r w₁ h => ?_)
      fun _ w₁ h => ⟨fun _ _ => hnil w₁ h.1.reads, hnil w₁ h.1.reads⟩
    obtain ⟨⟨hw₁, hc, -, hpos, hiv⟩, hi⟩ := h
    have hat : b.At r.2 w₁ := ⟨[], hw₁.reads, hiv ▸ BodyRead.nil, hpos⟩
    have hcopy := @Reading.At.upgradeCopy b r.1 r.2 w₁ I hK hI hat hi hc
    exact hcopy.mono (fun _ _ h => h.recorded) fun _ _ h => ⟨fun _ _ => h, h⟩
  exact hrun.final

/-- A successful one has read all of the body. -/
theorem rtFotaUpgrade_reads_all {w' : World}
    (hpart : partName.bind (falPartitionFind env) = some part)
    (h : rtFotaUpgrade env partName w = .ok rtFotaNoErr w') :
    ∃ rs : List PartRead, w'.reads = rs.reverse ++ w.reads ∧
      w.fotaPartHead.comSize ≤ 4096 * rs.length := by
  obtain ⟨r, w₁, hsetup, hcopy⟩ := rtFotaUpgrade_ok h
  obtain ⟨hw₁, hc, hhead, hpos, hiv⟩ := (upgradeSetup_reader hpart w).leads.ok hsetup
  let b : Reading := ⟨env, part, fun _ => True, w.fotaPartHead.startIv, w.reads⟩
  have hat : b.At r.2 w₁ := ⟨[], hw₁.reads, hiv ▸ BodyRead.nil, hpos⟩
  have hread := @Reading.At.upgradeCopy b r.1 r.2 w₁ (fun _ _ => True) (fun _ _ _ => trivial)
    (fun _ _ _ _ => leads_any _ _) hat trivial hc
  obtain ⟨rs, aesIv, hreads, -, hall⟩ := hread.ok hcopy
  exact ⟨rs, hreads, hhead ▸ hall⟩

end Upgrade

/-! ## 9. The source stays -/

/-- The target lies apart from the source, and every operation in the target. -/
structure SourceApart (env : Env) (part : FalPartition) (h : RtFotaPartHead) : Prop where
  table : TableOk env
  rom : env.rom.Confined
  apart : ∀ a, part.Covers a → ¬ Target env h a

section Apart

variable {env : Env} {part : FalPartition} {flash : Flash} {K : Flash → Prop}
variable {rs : List PartRead}

/-- Chunks from a partition that keeps its content are a prefix of the body it holds. -/
theorem InOrder.eq_prefix (hp : part.Ok) (hK : ∀ f, K f → ∀ a, part.Covers a → f a = flash a)
    (h : InOrder part K rs) :
    rs.flatMap PartRead.encrypted = readFlash flash (part.bodyAddr 0) (4096 * rs.length) := by
  have hlen := hp.len_le
  have hin := h.inside (by omega)
  induction rs using List.reverseRecOn with
  | nil => rfl
  | append_singleton rs r ih =>
      obtain ⟨hrs, -, f, hf, hbs⟩ := h.init
      have hfit : sizeofPartHead + 4096 * rs.length + 4096 ≤ part.len := by
        have := hin.resolve_left (by simp)
        rwa [List.length_append, List.length_singleton, Nat.mul_succ, ← Nat.add_assoc] at this
      rw [u32_eq (by omega), falPartitionRead_ok hp hfit] at hbs
      have henc : r.encrypted = readFlash flash (part.bodyAddr (4096 * rs.length)) 4096 := by
        rw [← Option.some.inj hbs]
        refine (congrArg (readFlash f · 4096) ?_).trans (readFlash_body_congr hp (hK f hf) hfit)
        rw [FalPartition.bodyAddr, Nat.add_assoc]
      rw [List.flatMap_append, List.flatMap_singleton, ih hrs (hrs.inside (by omega)), henc,
        List.length_append, List.length_singleton, Nat.mul_succ, ← readFlash_append,
        ← part.bodyAddr_add, Nat.zero_add]

/-- What the copy writes lies in the target, so every chunk comes from the source as it was. -/
theorem SourceApart.recorded {partName : Option (List Byte)} {w : World}
    (hap : SourceApart env part w.fotaPartHead)
    (hpart : partName.bind (falPartitionFind env) = some part) :
    ∃ rs aesIv, (final (rtFotaUpgrade env partName) w).reads = rs.reverse ++ w.reads ∧
      BodyRead env part (fun f => ∀ a, part.Covers a → f a = w.flash a) w.fotaPartHead.startIv
        rs aesIv := by
  cases hfind : falPartitionFind env w.fotaPartHead.appPartName with
  | none =>
      obtain ⟨err, -, hrun⟩ := rtFotaUpgrade_none hfind partName
      refine ⟨[], _, ?_, BodyRead.nil⟩
      unfold final
      rw [hrun]
      rfl
  | some t =>
      have ht := hap.table.find hfind
      let I : CopyState → World → Prop := fun st w' =>
        CopyInv t.len st ∧ Within env t.Covers w w'
      have hsource : ∀ st w', I st w' → ∀ a, part.Covers a → w'.flash a = w.flash a :=
        fun _ _ h a ha => h.2.flash hap.rom a fun hta => hap.apart a ha ⟨t, hfind, hta⟩
      have hstep : ∀ c st w', I st w' → Leads (copyStep env c st) w' I fun _ _ => True := by
        intro c st w' h
        have hfind' : falPartitionFind env w'.fotaPartHead.appPartName = some t := by
          rw [h.2.head]
          exact hfind
        exact (copyStep_keepsAt ht h.1 hfind').leads.mono
          (fun _ _ h' => ⟨h'.2, IsTrans.trans _ _ _ h.2 h'.1⟩) fun _ _ _ => trivial
      exact rtFotaUpgrade_recorded hpart hsource hstep
        ((upgradeSetup_keepsAt ht hfind partName).leads.mono
          (fun _ _ h => ⟨h.2, h.1⟩) fun _ _ _ => trivial)

end Apart

/-- On the board: a header that names another partition than the source. -/
theorem Env.OnBoard.sourceApart {env : Env} (henv : env.OnBoard) (hrom : env.rom.Confined)
    {part : FalPartition} (hpart : part ∈ falPartTable) {h : RtFotaPartHead}
    (hne : falPartitionFind env h.appPartName ≠ some part) : SourceApart env part h where
  table := henv.tableOk
  rom := hrom
  apart := by
    rintro a ha ⟨t, hfind, hta⟩
    refine falPartTable_disjoint (falPartitionFind_mem henv hfind) hpart (fun he => hne ?_) hta ha
    rw [hfind, he]

/-- **The body is read in order, each chunk once**, in every run of `rt_fota_upgrade`, and with AES256
    the chunks together are delivered as the decryption at one go of what was read; with a source
    that keeps its content that is the start of the body. -/
theorem body_read_in_order (env : Env) (partName : Option (List Byte)) (w : World) :
    ∃ rs : List PartRead,
      (final (rtFotaUpgrade env partName) w).reads = rs.reverse ++ w.reads ∧
      rs.map PartRead.readPos = (List.range rs.length).map (4096 * ·) ∧
      (∀ r ∈ rs, r.encrypted.length = 4096) ∧
      (w.fotaPartHead.crypt = rtFotaCryptAlgoAes256 →
        rs.flatMap PartRead.decrypted =
          aesCbcDecrypt env.tinyAesCryptEcb rtFotaAlgoAesIv (rs.flatMap PartRead.encrypted)) ∧
      ∀ part, partName.bind (falPartitionFind env) = some part →
        SourceApart env part w.fotaPartHead →
        rs.flatMap PartRead.encrypted =
          readFlash w.flash (part.bodyAddr 0) (4096 * rs.length) := by
  cases hpart : partName.bind (falPartitionFind env) with
  | none =>
      refine ⟨[], ?_, rfl, (fun r hr => by cases hr), fun _ => rfl, fun part h => by cases h⟩
      unfold rtFotaUpgrade upgradeSetup final withExit
      rw [hpart]
      rfl
  | some part =>
      obtain ⟨K, hK, rs, aesIv, hreads, hbody⟩ : ∃ K : Flash → Prop,
          (SourceApart env part w.fotaPartHead → ∀ f, K f → ∀ a, part.Covers a → f a = w.flash a) ∧
          ∃ rs aesIv, (final (rtFotaUpgrade env partName) w).reads = rs.reverse ++ w.reads ∧
            BodyRead env part K w.fotaPartHead.startIv rs aesIv := by
        by_cases hap : SourceApart env part w.fotaPartHead
        · exact ⟨_, fun _ f hf => hf, hap.recorded hpart⟩
        · exact ⟨fun _ => True, fun h => absurd h hap, rtFotaUpgrade_recorded
            (I := fun _ _ => True) hpart (fun _ _ _ => trivial)
            (fun _ _ _ _ => leads_any _ _) (leads_any _ w)⟩
      refine ⟨rs, hreads, hbody.pos, fun r hr => ?_, fun haes => ?_, fun part' h hap => ?_⟩
      · obtain ⟨f, -, hread⟩ := hbody.read r hr
        exact falPartitionRead_length hread
      · rw [RtFotaPartHead.startIv, if_pos haes] at hbody
        exact hbody.cbc
      · cases h
        have hp : part.Ok := by
          obtain ⟨name, -, hfind⟩ := Option.bind_eq_some_iff.mp hpart
          exact hap.table.find hfind
        exact hbody.eq_prefix hp (hK hap)

/-- Two compressed blocks in two chunks: both are read, and together they begin with the body. -/
theorem body_read_in_order_board :
    ∃ (w w' : World) (rs : List PartRead), rtFotaPartFwVerify Env.twoBlocks (some downloadPart.name)
        (.powerOn (imageAt downloadPart (cutImage 4089) (cutBody 4089) fun _ => 0xff)) =
          .ok rtFotaNoErr w ∧
      rtFotaUpgrade Env.twoBlocks (some downloadPart.name) w = .ok rtFotaNoErr w' ∧
      w'.reads = rs.reverse ++ w.reads ∧ 2 ≤ rs.length ∧
      rs.map PartRead.readPos = (List.range rs.length).map (4096 * ·) ∧
      (rs.flatMap PartRead.encrypted).take 4098 = cutBody 4089 := by
  obtain ⟨w, w', hverify, hfind, -, hcom, hbody, hrun⟩ := cutImage_upgrades
  have hmem : downloadPart ∈ falPartTable := by decide
  have hpart : (some downloadPart.name).bind (falPartitionFind Env.twoBlocks) = some downloadPart :=
    Env.twoBlocks_onBoard.find_name hmem
  have hapart : SourceApart Env.twoBlocks downloadPart w.fotaPartHead :=
    Env.twoBlocks_onBoard.sourceApart norRom_confined hmem (by rw [hfind]; decide)
  obtain ⟨rs, hreads, hpos, -, -, hsource⟩ :=
    body_read_in_order Env.twoBlocks (some downloadPart.name) w
  rw [final_of_ok hrun] at hreads
  obtain ⟨rs', hreads', hall⟩ := rtFotaUpgrade_reads_all hpart hrun
  have hrs : rs' = rs := List.reverse_injective (List.append_cancel_right (hreads'.symm.trans hreads))
  rw [hrs, hcom] at hall
  refine ⟨w, w', rs, hverify, hrun, hreads, by omega, hpos, ?_⟩
  rw [hsource _ hpart hapart, take_readFlash hall]
  exact hbody

end Mh1903
