/-
  File:      Mh1903/Copy/Clone.lean
  Subject:   `fota clone` COPIES. The loop copies what the source holds while it runs, piece by piece
             and read back; the destination is erased before. So a clone onto another partition is a
             copy, and one of a partition onto itself an erase that reports success.
-/
import Mh1903.Driver.Erase
import Mh1903.Frame.Board
import Mh1903.Model.Shell

namespace Mh1903

open Library

variable {env : Env} {dst src : FalPartition}

/-! ## 1. One piece -/

/-- The piece of `p` that starts at `pos`. -/
def FalPartition.Piece (p : FalPartition) (pos a : Nat) : Prop :=
  p.base + pos ≤ a ∧ a < p.base + pos + 4096

theorem cloneLoop_done {tol fuel pos : Nat} (h : ¬ pos < tol) :
    cloneLoop env dst src tol (fuel + 1) pos = pure pos := if_neg h

/-- One pass: what the source holds at `pos` is written there. -/
theorem cloneLoop_piece (hsrc : src.Ok) {tol fuel pos : Nat} {w : World} (hpos : pos < tol)
    (hin : pos + 4096 ≤ src.len) :
    cloneLoop env dst src tol (fuel + 1) pos w =
      (do
        let ret ← falPartitionWrite env dst pos (readFlash w.flash (src.base + pos) 4096) 4096
        if ret < 0 then pure pos else cloneLoop env dst src tol fuel (pos + 4096) : M Nat) w := by
  conv_lhs => rw [cloneLoop, if_pos hpos, get_bind]
  simp only [falPartitionRead_ok hsrc hin, length_readFlash]

/-- A piece written is the piece read, and nothing else changed. -/
theorem piece_written (hrom : env.rom.Confined) (hdst : dst.Ok) (hsrc : src.Ok) {pos : Nat}
    (hal : pos % 4096 = 0) (hin : pos + 4096 ≤ src.len) (h32 : pos + 4096 < 4294967296)
    {w w₁ : World} {ret : Int}
    (hwrite : falPartitionWrite env dst pos (readFlash w.flash (src.base + pos) 4096) 4096 w =
      .ok ret w₁) (hret : 0 ≤ ret) :
    (∀ i < 4096, w₁.flash (dst.base + pos + i) = w.flash (src.base + pos + i)) ∧
    ∀ a, ¬ dst.Piece pos a → w₁.flash a = w.flash a := by
  have hbase := hsrc.base_lt
  have hmod := hdst.base_mod
  constructor
  · intro i hi
    rw [(falPartitionWrite_sound hrom hdst h32 hwrite hret).2 i hi,
      srcByte_of_lt (by rw [length_readFlash]; exact hi), readFlash_getD (by omega) hi]
  · have hpages := @falPartitionWrite_pages env (dst.Piece pos) dst hdst pos 4096 h32
      (readFlash w.flash (src.base + pos) 4096) fun _ a h₁ h₂ => ⟨by omega, by omega⟩
    exact (hpages.ok hwrite).flash hrom

/-! ## 2. The loop -/

/-- The two partitions are one, or share no address. -/
def Apart (dst src : FalPartition) : Prop := dst = src ∨ ∀ a, dst.Covers a → ¬ src.Covers a

/-- **A loop that gets to the end has copied** what the source held from `pos` on when it came there,
    behind a front that was copied before. -/
theorem cloneLoop_copied (hrom : env.rom.Confined) (hdst : dst.Ok) (hsrc : src.Ok)
    (hapart : Apart dst src) {tol : Nat} (htol : tol % 4096 = 0) (hd : tol ≤ dst.len)
    (hs : tol ≤ src.len) {want : Nat → Byte} {fuel pos pos' : Nat} {w w' : World}
    (hal : pos % 4096 = 0) (hfront : ∀ i < pos, w.flash (dst.base + i) = want i)
    (hrest : ∀ i, pos ≤ i → i < tol → w.flash (src.base + i) = want i)
    (h : cloneLoop env dst src tol fuel pos w = .ok pos' w') (hend : tol ≤ pos') :
    ∀ i < tol, w'.flash (dst.base + i) = want i := by
  have hlen := hdst.len_le
  induction fuel generalizing pos w with
  | zero => cases h
  | succ fuel ih =>
      by_cases hpos : pos < tol
      · have hin : pos + 4096 ≤ src.len := by
          have := hsrc.len
          omega
        rw [cloneLoop_piece hsrc hpos hin] at h
        obtain ⟨ret, w₁, hwrite, h⟩ := bind_eq_ok h
        by_cases hret : ret < 0
        · rw [if_pos hret] at h
          cases h
          omega
        · rw [if_neg hret] at h
          obtain ⟨hpiece, hkept⟩ :=
            piece_written hrom hdst hsrc hal hin (by omega) hwrite (by omega)
          refine ih (by omega) (fun i hi => ?_) (fun i hlow hi => ?_) h
          · by_cases hold : i < pos
            · rw [hkept _ fun hp => by have := hp.1; omega]
              exact hfront i hold
            · obtain ⟨j, rfl⟩ := Nat.exists_eq_add_of_le (Nat.le_of_not_lt hold)
              rw [← Nat.add_assoc, hpiece j (by omega), Nat.add_assoc]
              exact hrest _ (by omega) (by omega)
          · -- a piece ahead of the loop: of the same partition behind it, or of another one
            rw [hkept _ fun hp => ?_]
            · exact hrest i (by omega) hi
            · obtain ⟨hp₁, hp₂⟩ := hp
              rcases hapart with rfl | hother
              · omega
              · exact hother (src.base + i) ⟨by omega, by omega⟩ ⟨by omega, by omega⟩
      · rw [cloneLoop_done hpos] at h
        cases h
        exact fun i hi => hfront i (by omega)

theorem cloneLoop_within (hdst : dst.Ok) {tol : Nat} (hd : tol ≤ dst.len) (fuel pos : Nat) :
    Keeps (Within env dst.Covers) (cloneLoop env dst src tol fuel pos) := by
  have hlen := hdst.len_le
  induction fuel generalizing pos with
  | zero => exact keeps_throw _
  | succ fuel ih =>
      by_cases hpos : pos < tol
      · unfold cloneLoop
        rw [if_pos hpos]
        refine keeps_bind keeps_get fun w => ?_
        cases hread : falPartitionRead w.flash src pos 4096 with
        | none => exact keeps_pure _
        | some buf =>
            have hbuf := falPartitionRead_length hread
            refine keeps_bind (falPartitionWrite_within hdst (by omega) buf) fun ret => ?_
            exact keeps_ite (keeps_pure _) (ih _)
      · rw [cloneLoop_done hpos]
        exact keeps_pure _

/-- On an erased partition and a good flash the loop gets to the end. -/
theorem cloneLoop_good (h : env.Good) (hrom : env.rom.Confined) (hp : dst.Ok) {fuel pos : Nat}
    {w : World} (hal : pos % 4096 = 0) (hle : pos ≤ dst.len) (hfuel : dst.len < pos + fuel)
    (herased : ∀ a, dst.Covers a → w.flash a = 0xff) :
    ∃ w', cloneLoop env dst dst dst.len fuel pos w = .ok dst.len w' := by
  have hlen := hp.len_le
  have hlenmod := hp.len
  induction fuel generalizing pos w with
  | zero => omega
  | succ fuel ih =>
      by_cases hpos : pos < dst.len
      · have hin : pos + 4096 ≤ dst.len := by omega
        obtain ⟨w₁, hwrite⟩ : ∃ w₁, falPartitionWrite env dst pos
            (readFlash w.flash (dst.base + pos) 4096) 4096 w = .ok (4096 : Nat) w₁ := by
          obtain ⟨w₁, hwrite, -⟩ := @falPartitionWrite_good env w h dst hp pos 4096
            (readFlash w.flash (dst.base + pos) 4096) (by omega) (by decide) hin
            (by rw [length_readFlash]) fun i hi => herased _ ⟨by omega, by omega⟩
          exact ⟨w₁, hwrite⟩
        obtain ⟨hpiece, hkept⟩ :=
          piece_written hrom hp hp hal hin (by omega) hwrite (by decide)
        obtain ⟨w', hrun⟩ := ih (by omega : (pos + 4096) % 4096 = 0) hin (by omega)
          (w := w₁) fun a ha => by
            by_cases hmem : dst.Piece pos a
            · obtain ⟨j, rfl⟩ := Nat.exists_eq_add_of_le hmem.1
              have := hmem.2
              rw [hpiece j (by omega)]
              exact herased _ ha
            · rw [hkept a hmem]
              exact herased a ha
        refine ⟨w', ?_⟩
        rw [cloneLoop_piece hp hpos hin, bind_ok hwrite, if_neg (by decide)]
        exact hrun
      · have heq : pos = dst.len := by omega
        rw [cloneLoop_done hpos, heq]
        exact ⟨w, rfl⟩

/-! ## 3. The command on two partitions -/

theorem cloneTolLen_eq (dst src : FalPartition) : cloneTolLen dst src = min dst.len src.len := by
  unfold cloneTolLen
  split <;> omega

theorem cloneReport_success {tol pos total : Nat} (h : cloneReport tol pos = .success total) :
    tol ≤ pos := by
  unfold cloneReport at h
  by_cases hend : pos ≥ tol
  · exact hend
  · rw [if_neg hend] at h
    cases h

theorem cloneParts_within (hdst : dst.Ok) :
    Keeps (Within env dst.Covers) (cloneParts env dst src) := by
  have hlen := hdst.len_le
  have hd : cloneTolLen dst src ≤ dst.len := by
    rw [cloneTolLen_eq]
    exact Nat.min_le_left _ _
  refine keeps_bind (falPartitionErase_within hdst (by omega) rfl) fun erased => ?_
  refine keeps_ite ?_ (keeps_pure _)
  refine keeps_bind (keeps_within_of_quiet (rtMalloc_quiet env 4096)) fun buf => ?_
  exact keeps_bind (keeps_ite (cloneLoop_within hdst hd _ _) (keeps_pure _)) fun _ => keeps_pure _

/-- A copy that gets to the end, with or without a buffer. -/
theorem cloneCopy_copied (hrom : env.rom.Confined) (hdst : dst.Ok) (hsrc : src.Ok)
    (hapart : Apart dst src) {buf : Option (List Byte)} {w w' : World} {pos : Nat}
    (h : cloneCopy env dst src buf w = .ok pos w') (hend : cloneTolLen dst src ≤ pos) :
    ∀ i < cloneTolLen dst src, w'.flash (dst.base + i) = w.flash (src.base + i) := by
  have hdmod := hdst.len
  have hsmod := hsrc.len
  have htol := cloneTolLen_eq dst src
  unfold cloneCopy at h
  by_cases hbuf : buf.isSome
  · rw [if_pos hbuf] at h
    exact cloneLoop_copied hrom hdst hsrc hapart (by omega) (by omega) (by omega)
      (Nat.zero_mod _) (fun i hi => absurd hi (Nat.not_lt_zero i)) (fun i _ _ => rfl) h hend
  · rw [if_neg hbuf] at h
    cases h
    intro i hi
    omega

/-- **A clone that reports success** has copied what the source held behind the erase. -/
theorem cloneParts_success (hrom : env.rom.Confined) (hdst : dst.Ok) (hsrc : src.Ok)
    (hapart : Apart dst src) {w w' : World} {total : Nat}
    (h : cloneParts env dst src w = .ok (.success total) w') :
    ∀ i < min dst.len src.len,
      w'.flash (dst.base + i) = eraseRange dst.base (sectors dst.len) w.flash (src.base + i) := by
  have hlen := hdst.len_le
  unfold cloneParts at h
  obtain ⟨erased, w₁, herase, h⟩ := bind_eq_ok h
  by_cases hok : erased ≥ 0
  · rw [if_pos hok] at h
    obtain ⟨-, -, hflash⟩ := falPartitionErase_sound hrom hdst (by omega) herase hok
    obtain ⟨buf, w₂, hmalloc, h⟩ := bind_eq_ok h
    have hquiet := (rtMalloc_quiet env 4096).ok hmalloc
    obtain ⟨pos, w₃, hcopy, h⟩ := bind_eq_ok h
    injection h with hreport hw
    have hcopied := cloneCopy_copied hrom hdst hsrc hapart hcopy (cloneReport_success hreport)
    rw [hquiet.flash, hflash, hw, cloneTolLen_eq] at hcopied
    exact hcopied
  · rw [if_neg hok] at h
    cases h

/-- A partition cloned onto itself on a good flash: the command reports success. -/
theorem cloneParts_self (h : env.Good) (hrom : env.rom.Confined)
    (hmem : ∀ n, env.mallocOk n = true) (hp : dst.Ok) (hpos : 1 ≤ dst.len) (w : World) :
    ∃ total w', cloneParts env dst dst w = .ok (.success total) w' := by
  have hmod := hp.len
  have htol : cloneTolLen dst dst = dst.len := if_neg (Nat.lt_irrefl _)
  have herase := @falPartitionErase_good env w h.erases dst hp dst.len hpos (Nat.le_refl _)
  obtain ⟨buf, w₂, hmalloc⟩ : ∃ buf w₂, rtMalloc env 4096 (w.erased dst dst.len) =
      .ok (some buf) w₂ := by
    unfold rtMalloc
    rw [get_bind, modify_bind, if_pos (hmem _)]
    exact ⟨_, _, rfl⟩
  have hflash := ((rtMalloc_quiet env 4096).ok hmalloc).flash
  obtain ⟨w', hloop⟩ := @cloneLoop_good env dst h hrom hp (dst.len + 1) 0 w₂ (Nat.zero_mod _)
    (Nat.zero_le _) (by omega) fun a ha => by
      rw [hflash]
      refine if_pos ⟨ha.1, ?_⟩
      have := ha.2
      unfold sectors
      omega
  have hcopy : cloneCopy env dst dst (some buf) w₂ = .ok dst.len w' := by
    have hsome : cloneCopy env dst dst (some buf) = cloneLoop env dst dst (cloneTolLen dst dst)
        (cloneTolLen dst dst + 1) 0 := if_pos rfl
    rw [hsome, htol]
    exact hloop
  refine ⟨dst.len, w', ?_⟩
  unfold cloneParts
  rw [bind_ok herase, if_pos (Int.natCast_nonneg _)]
  refine (bind_ok hmalloc).trans ((bind_ok hcopy).trans ?_)
  have hreport : cloneReport (cloneTolLen dst dst) dst.len = .success dst.len := by
    rw [htol]
    exact if_pos (Nat.le_refl _)
  rw [hreport]
  rfl

/-! ## 4. The command -/

/-- What the command is for, of a partition and of what is not to change. -/
structure Clones (env : Env) (dst src : FalPartition) (w : World) : Prop where
  copied : ∀ total w', rtFotaClone env dst.name src.name w = .ok (.success total) w' →
    ∀ i < min dst.len src.len, w'.flash (dst.base + i) = w.flash (src.base + i)
  source : dst ≠ src → ∀ a, src.Covers a →
    (final (rtFotaClone env dst.name src.name) w).flash a = w.flash a
  others : ∀ a, ¬ dst.Covers a →
    (final (rtFotaClone env dst.name src.name) w).flash a = w.flash a

theorem Env.OnBoard.clone_eq (h : env.OnBoard) (hdst : dst ∈ falPartTable)
    (hsrc : src ∈ falPartTable) :
    rtFotaClone env dst.name src.name = cloneParts env dst src := by
  unfold rtFotaClone
  rw [h.find_name hdst, h.find_name hsrc]

theorem falPartTable_apart (hdst : dst ∈ falPartTable) (hsrc : src ∈ falPartTable) :
    Apart dst src := by
  by_cases heq : dst = src
  · exact .inl heq
  · exact .inr fun a ha => falPartTable_disjoint hdst hsrc heq ha

theorem clones (henv : env.OnBoard) (hrom : env.rom.Confined) (hdst : dst ∈ falPartTable)
    (hsrc : src ∈ falPartTable) {w : World}
    (hkept : dst ≠ src ∨ ∀ a, dst.Covers a → w.flash a = 0xff) : Clones env dst src w := by
  have hd := falPartTable_ok dst hdst
  have hs := falPartTable_ok src hsrc
  have hwithin := (@cloneParts_within env dst src hd w).flash hrom
  have hrun := henv.clone_eq hdst hsrc
  refine ⟨fun total w' h i hi => ?_, fun hne a ha => ?_, fun a ha => ?_⟩
  · rw [hrun] at h
    rw [cloneParts_success hrom hd hs (falPartTable_apart hdst hsrc) h i hi]
    by_cases heq : dst = src
    · subst heq
      have hblank := hkept.resolve_left fun hne => hne rfl
      rw [hblank (dst.base + i) ⟨by omega, by omega⟩]
      unfold eraseRange
      split
      · rfl
      · exact hblank _ ⟨by omega, by omega⟩
    · have hout : ¬ dst.Covers (src.base + i) := fun hmem =>
        falPartTable_disjoint hdst hsrc heq hmem ⟨by omega, by omega⟩
      refine if_neg fun hin => hout ⟨hin.1, ?_⟩
      have hlen := hd.len
      have := hin.2
      unfold sectors at this
      omega
  · rw [hrun]
    exact hwithin a fun hmem => falPartTable_disjoint hdst hsrc hne hmem ha
  · rw [hrun]
    exact hwithin a ha

/-- **A partition cloned onto itself is erased**, and the command reports success. -/
theorem clone_self_erases (hdst : dst ∈ falPartTable) (flash : Flash) {a : Nat}
    (ha : dst.Covers a) (hbyte : flash a ≠ 0xff) : ¬ Clones Env.board dst dst (.powerOn flash) := by
  intro h
  have hd := falPartTable_ok dst hdst
  obtain ⟨i, rfl⟩ := Nat.exists_eq_add_of_le ha.1
  have hi : i < dst.len := by
    have := ha.2
    omega
  have hi' : i < min dst.len dst.len := by
    rw [Nat.min_self]
    exact hi
  obtain ⟨total, w', hrun⟩ := cloneParts_self Env.board_good norRom_confined (fun _ => rfl) hd (by omega)
    (.powerOn flash)
  have hcopied := h.copied total w' (by rw [Env.board_onBoard.clone_eq hdst hdst]; exact hrun) i hi'
  rw [cloneParts_success norRom_confined hd hd (.inl rfl) hrun i hi'] at hcopied
  have herased : eraseRange dst.base (sectors dst.len) flash (dst.base + i) = 0xff := by
    refine if_pos ⟨Nat.le_add_right _ _, ?_⟩
    unfold sectors
    omega
  exact hbyte (hcopied.symm.trans herased)

/-- **`fota clone` copies, whatever the flash does, exactly where it is given two partitions, or one
    that is blank.** -/
theorem clone_copies_iff (hdst : dst ∈ falPartTable) (hsrc : src ∈ falPartTable) (flash : Flash) :
    (∀ env w, env.OnBoard → env.rom.Confined → w.flash = flash → Clones env dst src w) ↔
      dst ≠ src ∨ ∀ a, dst.Covers a → flash a = 0xff := by
  constructor
  · intro h
    by_cases heq : dst = src
    · subst heq
      refine .inr fun a ha => ?_
      by_contra hbyte
      exact clone_self_erases hdst flash ha hbyte
        (h Env.board (.powerOn flash) Env.board_onBoard norRom_confined rfl)
    · exact .inl heq
  · rintro hkept env w henv hrom rfl
    exact clones henv hrom hdst hsrc hkept

/-- Another content in the download partition and behind it. -/
def twoContents : Flash := fun a => if a < downloadPart.base then 0x11 else 0x22

/-- The download partition onto the application partition. -/
theorem clone_copies_board :
    twoContents appPart.base = 0x11 ∧ twoContents downloadPart.base = 0x22 ∧
      Clones Env.board appPart downloadPart (.powerOn twoContents) :=
  ⟨by decide, by decide, (clone_copies_iff (by decide) (by decide) twoContents).mpr
    (.inl (by decide)) Env.board (.powerOn twoContents) Env.board_onBoard norRom_confined rfl⟩

/-- `fota clone app app` loses the application. -/
theorem clone_app_app :
    ¬ ∀ dst ∈ falPartTable, ∀ src ∈ falPartTable, ∀ (env : Env) (w : World), env.OnBoard →
      env.rom.Confined → Clones env dst src w := by
  intro h
  have hmem : appPart ∈ falPartTable := by decide
  exact clone_self_erases hmem (fun _ => 0) (a := appPart.base) ⟨Nat.le_refl _, by decide⟩
    (by decide) (h appPart hmem appPart hmem Env.board _ Env.board_onBoard norRom_confined)

end Mh1903
