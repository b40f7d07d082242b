/-
  File:      Mh1903/Verify/Image.lean
  Subject:   IMAGES AS A PACKER MAKES THEM. The fields of a header in front of a body, sealed with
             the header checksum, and a flash that holds such bytes in a partition.
-/
import Mh1903.Frame.Nor
import Mh1903.Verify.Accept

namespace Mh1903

open Library RtFotaPartHead

/-! ## 1. Words in bytes -/

theorem getD_drop (bs : List Byte) (off i : Nat) : (bs.drop off).getD i 0 = bs.getD (off + i) 0 := by
  simp [List.getD_eq_getElem?_getD]

theorem le32_drop (bs : List Byte) (off : Nat) : le32 bs off = le32 (bs.drop off) 0 := by
  simp only [le32, le16, getD_drop, Nat.zero_add, Nat.add_zero, Nat.add_assoc]

/-- Four bytes written as a word read back as it. -/
theorem le32_bytesLe32 (v : BitVec 32) (rest : List Byte) :
    le32 (bytesLe32 v ++ rest) 0 = v.toNat := by
  have hv := v.isLt
  simp only [le32, le16, bytesLe32, List.cons_append, List.nil_append, List.getD_cons_zero,
    List.getD_cons_succ, Nat.zero_add, BitVec.toNat_setWidth, BitVec.toNat_ushiftRight,
    Nat.shiftRight_eq_div_pow]
  omega

theorem length_bytesLe32 (v : BitVec 32) : (bytesLe32 v).length = 4 := rfl

theorem le32_at {bs rest : List Byte} {off : Nat} {v : BitVec 32}
    (h : bs.drop off = bytesLe32 v ++ rest) : le32 bs off = v.toNat := by
  rw [le32_drop, h, le32_bytesLe32]

/-! ## 2. Headers -/

/-- `n` bytes: those of `bs`, then zeros. -/
def padTo (n : Nat) (bs : List Byte) : List Byte := (bs ++ List.replicate n 0).take n

@[simp] theorem length_padTo (n : Nat) (bs : List Byte) : (padTo n bs).length = n := by
  simp [padTo]

/-- What a packer fills in. -/
structure HeadFields where
  fotaAlgo : BitVec 16
  appPartName : List Byte
  downloadVersion : List Byte
  currentVersion : List Byte
  codeCrc : BitVec 32
  rawSize : BitVec 32
  comSize : BitVec 32

/-- Type, algorithm, time, target and versions. -/
def HeadFields.front (f : HeadFields) : List Byte :=
  cStr ['R', 'B', 'L', '\x00'] ++ [f.fotaAlgo.setWidth 8, (f.fotaAlgo >>> 8).setWidth 8] ++
    List.replicate 6 (0 : Byte) ++ padTo 16 f.appPartName ++ padTo 24 f.downloadVersion ++
    padTo 24 f.currentVersion

theorem HeadFields.length_front (f : HeadFields) : f.front.length = 76 := by
  simp [HeadFields.front, cStr]

/-- The words behind them: code checksum, hash, sizes. -/
def HeadFields.words (f : HeadFields) : List Byte :=
  bytesLe32 f.codeCrc ++ (bytesLe32 0 ++ (bytesLe32 f.rawSize ++ bytesLe32 f.comSize))

/-- The first 92 bytes of a header. -/
def HeadFields.bytes (f : HeadFields) : List Byte := f.front ++ f.words

theorem HeadFields.length_bytes (f : HeadFields) : f.bytes.length = 92 := by
  rw [HeadFields.bytes, List.length_append, f.length_front]
  rfl

/-- The header with its checksum. -/
def packHead (f : HeadFields) : RtFotaPartHead :=
  ⟨f.bytes ++ bytesLe32 (rtFotaCrc f.bytes), by
    rw [List.length_append, f.length_bytes, length_bytesLe32]⟩

section Pack

variable (f : HeadFields)

/-- A packed header passes its checksum. -/
theorem packHead_headCrc :
    (rtFotaCrc ((packHead f).bytes.take (sizeofPartHead - 4))).toNat = (packHead f).headCrc := by
  have hlen : sizeofPartHead - 4 = f.bytes.length := by rw [f.length_bytes]; rfl
  have hdrop : (packHead f).bytes.drop 92 = bytesLe32 (rtFotaCrc f.bytes) ++ [] := by
    rw [← f.length_bytes, List.append_nil]
    exact List.drop_left
  rw [hlen]
  unfold headCrc
  rw [le32_at hdrop]
  simp only [packHead, List.take_left]

theorem packHead_type :
    rtStrcmp (packHead f).type (cStr ['R', 'B', 'L'] ++ [0]) = 0 := by
  simp [packHead, HeadFields.bytes, HeadFields.front, RtFotaPartHead.type, cStr, rtStrcmp]

/-- The header from its words on. -/
theorem packHead_words (k : Nat) :
    (packHead f).bytes.drop (76 + k) = (f.words ++ bytesLe32 (rtFotaCrc f.bytes)).drop k := by
  show ((f.front ++ f.words) ++ bytesLe32 (rtFotaCrc f.bytes)).drop (76 + k) = _
  rw [List.append_assoc, ← f.length_front, ← List.drop_drop, List.drop_left]

theorem packHead_codeCrc : (packHead f).codeCrc = f.codeCrc.toNat := le32_at (packHead_words f 0)

theorem packHead_rawSize : (packHead f).rawSize = f.rawSize.toNat := le32_at (packHead_words f 8)

theorem packHead_comSize : (packHead f).comSize = f.comSize.toNat := le32_at (packHead_words f 12)

end Pack

/-! ## 3. An image in a partition -/

theorem length_head (h : RtFotaPartHead) : h.bytes.length = sizeofPartHead := h.length_bytes

/-- The header in front of a partition. -/
def headAt (flash : Flash) (part : FalPartition) : RtFotaPartHead :=
  ofBytes (readFlash flash part.base sizeofPartHead)

theorem headAt_bytes (flash : Flash) (part : FalPartition) :
    (headAt flash part).bytes = readFlash flash part.base sizeofPartHead :=
  bytes_ofBytes (length_readFlash _ _ _)

/-- The flash address of byte `i` of the body. -/
def FalPartition.bodyAddr (part : FalPartition) (i : Nat) : Nat := part.base + sizeofPartHead + i

/-- `flash` with a packed image in `part`. -/
def imageAt (part : FalPartition) (f : HeadFields) (body : List Byte) (flash : Flash) : Flash :=
  flashWith part.base ((packHead f).bytes ++ body) flash

section ImageAt

variable {part : FalPartition} {f : HeadFields} {body : List Byte} {flash : Flash}

theorem readFlash_imageAt (hp : part.Ok) (hfit : sizeofPartHead + body.length ≤ part.len) :
    readFlash (imageAt part f body flash) part.base (sizeofPartHead + body.length) =
      (packHead f).bytes ++ body := by
  have hb := hp.base_lt
  have hlen : sizeofPartHead + body.length = ((packHead f).bytes ++ body).length := by
    rw [List.length_append, (packHead f).length_bytes]; rfl
  rw [hlen]
  exact readFlash_flashWith (by rw [← hlen]; omega)

/-- The header in front of the partition is the packed one. -/
theorem headAt_imageAt (hp : part.Ok) (hfit : sizeofPartHead + body.length ≤ part.len) :
    headAt (imageAt part f body flash) part = packHead f := by
  have h := @readFlash_imageAt part f body flash hp hfit
  have htake := congrArg (List.take sizeofPartHead) h
  rw [take_readFlash (Nat.le_add_right _ _),
    List.take_left' (length_head _)] at htake
  have hbytes := headAt_bytes (imageAt part f body flash) part
  rw [htake] at hbytes
  cases hh : headAt (imageAt part f body flash) part
  cases hk : packHead f
  rw [hh, hk] at hbytes
  simpa using hbytes

/-- The bytes behind it are the body. -/
theorem readFlash_body_imageAt (hp : part.Ok) (hfit : sizeofPartHead + body.length ≤ part.len) :
    readFlash (imageAt part f body flash) (part.bodyAddr 0) body.length = body := by
  have h := @readFlash_imageAt part f body flash hp hfit
  have hdrop := congrArg (List.drop sizeofPartHead) h
  rw [drop_readFlash (Nat.le_add_right _ _), List.drop_left' (length_head _),
    Nat.add_sub_cancel_left] at hdrop
  exact hdrop

theorem imageAt_body {i : Nat} (hi : i < body.length) :
    imageAt part f body flash (part.bodyAddr i) = body.getD i 0 := by
  have hlen := length_head (packHead f)
  unfold imageAt FalPartition.bodyAddr
  rw [Nat.add_assoc, flashWith_at (by rw [List.length_append]; omega), List.getD_eq_getElem?_getD,
    List.getElem?_append_right (by omega), hlen, Nat.add_sub_cancel_left, List.getD_eq_getElem?_getD]

/-- Outside the partition nothing is different. -/
theorem imageAt_outside (hfit : sizeofPartHead + body.length ≤ part.len) {a : Nat}
    (ha : a < part.base ∨ part.base + part.len ≤ a) : imageAt part f body flash a = flash a := by
  have hlen : ((packHead f).bytes ++ body).length = sizeofPartHead + body.length := by
    rw [List.length_append, length_head]
  exact flashWith_outside (by omega)

end ImageAt

end Mh1903
