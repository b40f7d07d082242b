/-
  File:      Mh1903/Verify/CopyVersion.lean
  Subject:   `rt_fota_copy_version` REWRITES TWO FIELDS. On success the partition holds the old
             content with `current_version` set and the header checksum recomputed; nothing else
             changes, so the image stays valid.
-/
import Mh1903.Frame.ReadBack
import Mh1903.Verify.Exact
import Mh1903.Verify.Strcmp
import Mathlib.Data.List.Find

namespace Mh1903

open Library RtFotaPartHead

/-! ## 1. The edit -/

theorem length_copyVersionEdit (bs : List Byte) : (copyVersionEdit bs).length = bs.length := by
  simp [copyVersionEdit]

/-- The version field of a header or sector. -/
def versionField (bs : List Byte) : List Byte := (bs.drop 28).take 24

/-- `current_version` set, the checksum not yet. -/
def withVersion (bs : List Byte) : List Byte := overwrite bs 52 (versionField bs)

theorem copyVersionEdit_eq (bs : List Byte) :
    copyVersionEdit bs = overwrite (withVersion bs) 92
      (bytesLe32 (rtFotaCrc ((withVersion bs).take (sizeofPartHead - 4)))) := rfl

/-- Outside the two fields the edit changes nothing. -/
theorem copyVersionEdit_other {bs : List Byte} {i : Nat} (h₁ : i < 52 ∨ 76 ≤ i)
    (h₂ : i < 92 ∨ 96 ≤ i) : (copyVersionEdit bs)[i]? = bs[i]? := by
  have hlen : (versionField bs).length ≤ 24 := by simp [versionField]
  rw [copyVersionEdit_eq, getElem?_overwrite, if_neg (by rw [length_bytesLe32]; omega), withVersion,
    getElem?_overwrite, if_neg (by omega)]

theorem take_versionField {bs : List Byte} {n : Nat} (hn : 52 ≤ n) :
    versionField (bs.take n) = versionField bs := by
  unfold versionField
  rw [List.drop_take, List.take_take, Nat.min_eq_left (by omega)]

/-- The edit of a sector is the edit of its header. -/
theorem take_copyVersionEdit (bs : List Byte) :
    (copyVersionEdit bs).take 96 = copyVersionEdit (bs.take 96) := by
  have hv : (withVersion bs).take (sizeofPartHead - 4) =
      (withVersion (bs.take 96)).take (sizeofPartHead - 4) := by
    rw [withVersion, withVersion, take_overwrite, take_overwrite, List.take_take,
      take_versionField (by omega)]
    rfl
  rw [copyVersionEdit_eq, copyVersionEdit_eq, take_overwrite, hv, withVersion, take_overwrite,
    withVersion, take_versionField (by omega)]

/-! ## 2. The edited header -/

/-- The header a successful copy leaves. -/
def RtFotaPartHead.copied (h : RtFotaPartHead) : RtFotaPartHead :=
  ⟨copyVersionEdit h.bytes, by rw [length_copyVersionEdit, h.length_bytes]⟩

section Copied

variable (h : RtFotaPartHead)

theorem le32_congr {bs cs : List Byte} {off : Nat}
    (hb : ∀ i, off ≤ i → i < off + 4 → bs[i]? = cs[i]?) : le32 bs off = le32 cs off := by
  simp only [le32, le16, List.getD_eq_getElem?_getD, hb off (by omega) (by omega),
    hb (off + 1) (by omega) (by omega), hb (off + 2) (by omega) (by omega),
    hb (off + 2 + 1) (by omega) (by omega)]

theorem copied_fotaAlgo : h.copied.fotaAlgo = h.fotaAlgo := by
  have hbyte : ∀ i < 6, h.copied.bytes[i]? = h.bytes[i]? :=
    fun i hi => copyVersionEdit_other (.inl (by omega)) (.inl (by omega))
  simp only [fotaAlgo, le16, List.getD_eq_getElem?_getD, hbyte 4 (by decide), hbyte 5 (by decide)]

theorem copied_codeCrc : h.copied.codeCrc = h.codeCrc :=
  le32_congr fun _ _ _ => copyVersionEdit_other (by omega) (by omega)

theorem copied_rawSize : h.copied.rawSize = h.rawSize :=
  le32_congr fun _ _ _ => copyVersionEdit_other (by omega) (by omega)

theorem copied_comSize : h.copied.comSize = h.comSize :=
  le32_congr fun _ _ _ => copyVersionEdit_other (by omega) (by omega)

/-- The first 52 bytes stay: type, algorithm, target and download version. -/
theorem take_copied : h.copied.bytes.take 52 = h.bytes.take 52 := by
  refine List.ext_getElem? fun i => ?_
  by_cases hi : i < 52
  · rw [List.getElem?_take_of_lt hi, List.getElem?_take_of_lt hi]
    exact copyVersionEdit_other (.inl hi) (by omega)
  · rw [List.getElem?_eq_none (by rw [List.length_take]; omega),
      List.getElem?_eq_none (by rw [List.length_take]; omega)]

theorem copied_type : rtStrcmp h.copied.type (cStr ['R', 'B', 'L'] ++ [0]) =
    rtStrcmp h.type (cStr ['R', 'B', 'L'] ++ [0]) := by
  have htake := congrArg (List.take 4) (take_copied h)
  rw [List.take_take, List.take_take] at htake
  exact rtStrcmp_congr htake (by decide)

/-- On the board a lookup ends inside a field of 16 bytes. -/
theorem Env.OnBoard.find_congr {env : Env} (henv : env.OnBoard) {a b : List Byte}
    (hab : a.take 16 = b.take 16) : falPartitionFind env a = falPartitionFind env b := by
  have hnames : ∀ p ∈ falPartTable, 0 ∈ (p.name ++ [0]).take 16 := by decide
  rw [henv.find, henv.find]
  refine List.find?_congr fun p hp => ?_
  rw [rtStrcmp_congr hab (hnames p hp)]

theorem copied_target {env : Env} (henv : env.OnBoard) :
    falPartitionFind env h.copied.appPartName = falPartitionFind env h.appPartName := by
  have hdrop := congrArg (List.drop 12) (take_copied h)
  rw [List.drop_take, List.drop_take] at hdrop
  have htake := congrArg (List.take 16) hdrop
  rw [List.take_take, List.take_take] at htake
  exact henv.find_congr htake

/-- The checksum is right again. -/
theorem copied_headCrc :
    (rtFotaCrc (h.copied.bytes.take (sizeofPartHead - 4))).toNat = h.copied.headCrc := by
  have hlen : (withVersion h.bytes).length = 96 := by simp [withVersion, h.length_bytes]
  have hbytes : h.copied.bytes = (withVersion h.bytes).take 92 ++
      bytesLe32 (rtFotaCrc ((withVersion h.bytes).take (sizeofPartHead - 4))) :=
    overwrite_end (by show 92 + 4 = (withVersion h.bytes).length; rw [hlen])
  have hfront : ((withVersion h.bytes).take 92).length = 92 := by
    rw [List.length_take, hlen]; rfl
  have hdrop : h.copied.bytes.drop 92 =
      bytesLe32 (rtFotaCrc ((withVersion h.bytes).take (sizeofPartHead - 4))) ++ [] := by
    rw [hbytes, List.drop_left' hfront, List.append_nil]
  unfold headCrc
  rw [le32_at hdrop, hbytes]
  simp only [sizeofPartHead]
  rw [List.take_left' hfront]

theorem length_versionField : (versionField h.bytes).length = 24 := by
  simp [versionField, h.length_bytes]

/-- Both version fields hold the download version. -/
theorem copied_downloadVersion :
    h.copied.downloadVersion = versionField h.bytes ++ h.copied.currentVersion := by
  have htake := congrArg (List.drop 28) (take_copied h)
  rw [List.drop_take, List.drop_take] at htake
  have hfield : (h.copied.bytes.drop 28).take 24 = versionField h.bytes := htake
  unfold downloadVersion currentVersion
  rw [← List.take_append_drop 24 (h.copied.bytes.drop 28), hfield, List.drop_drop]

theorem copied_currentVersion :
    h.copied.currentVersion = versionField h.bytes ++ h.copied.bytes.drop 76 := by
  have hlen := length_versionField h
  refine List.ext_getElem? fun i => ?_
  unfold currentVersion
  rw [List.getElem?_drop]
  by_cases hi : i < 24
  · rw [List.getElem?_append_left (by rw [hlen]; exact hi)]
    show (copyVersionEdit h.bytes)[52 + i]? = _
    rw [copyVersionEdit_eq, getElem?_overwrite, if_neg (by omega), withVersion,
      getElem?_overwrite, if_pos (by rw [h.length_bytes, hlen]; omega), Nat.add_sub_cancel_left]
  · rw [List.getElem?_append_right (by rw [hlen]; omega), hlen, List.getElem?_drop]
    congr 1
    omega

/-- A size below 2^24 has a zero as its last byte. -/
theorem comSize_last {k : RtFotaPartHead} (hk : k.comSize < 16777216) : k.bytes.getD 91 0 = 0 := by
  have h0 := (k.bytes.getD 91 0).isLt
  refine BitVec.eq_of_toNat_eq ?_
  have hle : k.comSize = (k.bytes.getD 88 0).toNat + 256 * (k.bytes.getD 89 0).toNat +
      65536 * ((k.bytes.getD 90 0).toNat + 256 * (k.bytes.getD 91 0).toNat) := rfl
  show (k.bytes.getD 91 0).toNat = 0
  omega

/-- **After the copy the version check finds nothing new, whatever lies behind the header, if and
    only if the download version is terminated.** -/
theorem copied_strcmp_iff (hcom : h.comSize < 16777216) (after : List Byte) :
    rtStrcmp (h.copied.downloadVersion ++ after) (h.copied.currentVersion ++ after) = 0 ↔
      0 ∈ versionField h.bytes := by
  have hlen := length_versionField h
  rw [copied_downloadVersion]
  nth_rewrite 2 [copied_currentVersion]
  rw [List.append_assoc, List.append_assoc]
  constructor
  · intro heq
    by_contra hno
    rw [rtStrcmp_unterminated hno] at heq
    -- compared are now the current version and the words behind it: the size among them ends
    have hfield : ∀ j < 24, (h.copied.currentVersion ++ after).getD j 0 ≠ 0 := by
      intro j hj h0
      rw [copied_currentVersion, List.append_assoc, List.getD_eq_getElem?_getD,
        List.getElem?_append_left (by rw [hlen]; exact hj)] at h0
      have hj' : j < (versionField h.bytes).length := by rw [hlen]; exact hj
      rw [List.getElem?_eq_getElem hj', Option.getD_some] at h0
      exact hno (h0 ▸ List.getElem_mem hj')
    have h15 := getD_of_rtStrcmp_eq heq (i := 15) fun j hj => hfield j (by omega)
    refine hfield 15 (by omega) (h15.trans ?_)
    have hlt : 15 < (h.copied.bytes.drop 76).length := by
      rw [List.length_drop, h.copied.length_bytes]; omega
    rw [List.getD_eq_getElem?_getD, List.getElem?_append_left hlt, ← List.getD_eq_getElem?_getD,
      getD_drop]
    exact comSize_last (by rw [copied_comSize]; exact hcom)
  · intro hterm
    exact rtStrcmp_terminated hterm _ _

end Copied

/-! ## 3. The call -/

/-- The first sector of a partition. -/
def FalPartition.FirstSector (p : FalPartition) (a : Nat) : Prop :=
  p.base ≤ a ∧ a < p.base + 4096

/-- **A successful copy** leaves the edited first sector and changes nothing else. -/
theorem rtFotaCopyVersion_sound {env : Env} (hT : TableOk env) (hrom : env.rom.Confined)
    {name : List Byte} {p : FalPartition} (hfind : falPartitionFind env name = some p)
    {w w' : World} (h : rtFotaCopyVersion env name w = .ok rtFotaNoErr w') :
    4096 ≤ p.len ∧
    (∀ i < 4096, w'.flash (p.base + i) =
      (copyVersionEdit (readFlash w.flash p.base 4096)).getD i 0) ∧
    ∀ a, ¬ p.FirstSector a → w'.flash a = w.flash a := by
  have hp := hT.find hfind
  have hbase := hp.base_lt
  have hmod := hp.base_mod
  unfold rtFotaCopyVersion at h
  simp only [hfind] at h
  replace h := withExit_eq_ok h (by
    refine stops_bind (rtMalloc_stops _ _) fun buf => ?_
    cases buf with
    | none => exact stops_throw (by decide)
    | some buf =>
        refine stops_bind stops_get fun w => ?_
        cases falPartitionRead w.flash p 0 theNorFlashGranularity with
        | none => exact stops_throw (by decide)
        | some bs =>
            refine stops_bind (falPartitionErase_stops (by decide) _ _ _) fun ret =>
              stops_ite (stops_throw_bind (by decide)) ?_
            refine stops_bind ((falPartitionWrite_stops _ _ _ _).mono fun _ h => h _) fun ret =>
              stops_ite (stops_throw_bind (by decide)) (stops_pure _))
  obtain ⟨buf, w₁, hmalloc, h⟩ := bind_eq_ok h
  have hq := (rtMalloc_quiet env _).ok hmalloc
  cases buf with
  | none => cases h
  | some buf =>
      simp only at h
      rw [get_bind] at h
      cases hread : falPartitionRead w₁.flash p 0 theNorFlashGranularity with
      | none => rw [hread] at h; cases h
      | some bs =>
          simp only [hread] at h
          have hlen : 4096 ≤ p.len := by
            by_contra hlt
            rw [falPartitionRead_beyond (by decide) (by rw [Nat.zero_add]; exact not_le.mp hlt)]
              at hread
            cases hread
          rw [falPartitionRead_ok hp (by rw [Nat.zero_add]; exact hlen), hq.flash,
            Nat.add_zero] at hread
          obtain rfl := Option.some.inj hread
          obtain ⟨ret₂, w₂, herase, h⟩ := bind_eq_ok h
          have h₂ : Within env p.FirstSector w₁ w₂ :=
            (falPartitionErase_sectors hp (by decide) rfl fun _ a h₁ h₂ => ⟨h₁, h₂⟩).ok herase
          by_cases hneg : ret₂ < 0
          · rw [if_pos hneg] at h; cases h
          rw [if_neg hneg] at h
          obtain ⟨ret₃, w₃, hwrite, h⟩ := bind_eq_ok h
          have h₃ : Within env p.FirstSector w₂ w₃ := by
            refine (falPartitionWrite_pages hp (by decide) _ fun _ a h₁ h₂ => ?_).ok hwrite
            unfold FalPartition.FirstSector
            simp only [theNorFlashGranularity] at h₂
            omega
          by_cases hneg₃ : ret₃ < 0
          · rw [if_pos hneg₃] at h; cases h
          rw [if_neg hneg₃] at h
          cases h
          refine ⟨hlen, fun i hi => ?_, fun a ha => ?_⟩
          · have hsrc := (falPartitionWrite_sound hrom hp (by decide) hwrite (by omega)).2 i hi
            rw [Nat.add_zero] at hsrc
            rw [hsrc]
            exact srcByte_of_lt (by rw [length_copyVersionEdit, length_readFlash]; exact hi)
          · rw [h₃.flash hrom a ha, h₂.flash hrom a ha, hq.flash]

end Mh1903
