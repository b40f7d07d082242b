/-
  File:      Mh1903/Copy/Torn.lean
  Subject:   TORN COPIES OF THE VERSION. `rt_fota_copy_version` erases the first sector of a
             partition and programs it again page by page. Cut in between it leaves the sector
             erased, or its first pages: without a header, or with the one a whole copy leaves.
-/
import Mh1903.Copy.Stream
import Mh1903.Frame.Cut
import Mh1903.Verify.Copied

namespace Mh1903

open Library RtFotaPartHead

/-! ## 1. Operations under failing power -/

section Driver

variable {env : Env} {p : Nat → Bool} {w : World}

theorem flashOp_live (hpow : ∀ n, env.powered n = true) (hlive : p w.ops.length = true)
    (op : FlashOp) (run : Nat → Flash → Bool × Flash) :
    flashOp (env.cut p) op run w = flashOp env op run w := by
  unfold flashOp
  rw [get_bind, get_bind, if_pos (show (env.cut p).powered w.ops.length = true from hlive),
    if_pos (hpow _)]

theorem flashOp_dead (hdead : ¬ p w.ops.length = true) (op : FlashOp)
    (run : Nat → Flash → Bool × Flash) : flashOp (env.cut p) op run w = .error .powerLoss w := by
  unfold flashOp
  rw [get_bind, if_neg (show ¬ (env.cut p).powered w.ops.length = true from hdead)]
  rfl

/-- The power lasts for `n` operations from number `lo` on. -/
def Lasts (p : Nat → Bool) (lo n : Nat) : Prop := ∀ i < n, p (lo + i) = true

/-- And then it fails. -/
def FailsAfter (p : Nat → Bool) (lo n : Nat) : Prop := Lasts p lo n ∧ ¬ p (lo + n) = true

theorem lasts_succ {lo n : Nat} : Lasts p lo (n + 1) ↔ p lo = true ∧ Lasts p (lo + 1) n := by
  constructor
  · intro h
    refine ⟨h 0 (Nat.succ_pos n), fun i hi => ?_⟩
    rw [Nat.add_assoc, Nat.add_comm 1]
    exact h (i + 1) (Nat.succ_lt_succ hi)
  · rintro ⟨h₀, h⟩ i hi
    cases i with
    | zero => exact h₀
    | succ i =>
        rw [Nat.add_comm i, ← Nat.add_assoc]
        exact h i (Nat.lt_of_succ_lt_succ hi)

theorem failsAfter_succ {lo n : Nat} :
    FailsAfter p lo (n + 1) ↔ p lo = true ∧ FailsAfter p (lo + 1) n := by
  unfold FailsAfter
  rw [lasts_succ, and_assoc, Nat.add_assoc lo 1, Nat.add_comm 1]

/-- The first sector is erased, or the power failed before. -/
theorem falPartitionErase_torn (h : env.Good) {part : FalPartition} (hp : part.Ok)
    (hlen : 4096 ≤ part.len) :
    Leads (falPartitionErase (env.cut p) part 0 4096) w
      (fun ret w' => ret = 4096 ∧ w'.flash = eraseRange part.base 1 w.flash ∧
        p w.ops.length = true ∧ w'.ops.length = w.ops.length + 1)
      fun e w' => PowerFailed p e w' ∧ w'.flash = w.flash ∧ FailsAfter p w.ops.length 0 := by
  by_cases hlive : p w.ops.length = true
  · have hrun := @falPartitionErase_good env w h.erases part hp 4096 (by decide) hlen
    have hone : sectors 4096 = 1 := rfl
    rw [hone] at hrun
    have hsame : falPartitionErase (env.cut p) part 0 4096 w = falPartitionErase env part 0 4096 w := by
      refine (falPartitionErase_cuts h.powered part 0 4096).lasts fun n h₁ h₂ => ?_
      rw [final_of_ok hrun] at h₂
      have hn : n = w.ops.length := Nat.le_antisymm (Nat.lt_succ_iff.mp h₂) h₁
      rw [hn]
      exact hlive
    exact leads_of_ok (hsame.trans hrun) ⟨rfl, rfl, hlive, rfl⟩
  · rw [falPartitionErase_eq _ hp (by decide) hlen]
    exact leads_of_error (bind_error (flashOp_dead hlive _ _))
      ⟨⟨rfl, hlive⟩, rfl, fun i hi => absurd hi (Nat.not_lt_zero i), hlive⟩

theorem mhFlashWriteStep_live (hpow : ∀ n, env.powered n = true) {addr written len : Nat}
    {buf : List Byte} (hbuf : written + len ≤ buf.length) (hlive : p w.ops.length = true) :
    mhFlashWriteStep (env.cut p) addr buf written len w = mhFlashWriteStep env addr buf written len w := by
  have hprog : flashProgramPage (env.cut p) (u32 (addr + written)) len ((buf.drop written).take len) w =
      flashProgramPage env (u32 (addr + written)) len ((buf.drop written).take len) w :=
    flashOp_live hpow hlive _ _
  unfold mhFlashWriteStep
  rw [bind_ok (load_eq env hbuf w)]
  refine (bind_ok (load_eq (env.cut p) hbuf w)).trans ?_
  cases hrun : flashProgramPage env (u32 (addr + written)) len ((buf.drop written).take len) w with
  | ok done w₁ => rw [bind_ok (hprog.trans hrun), bind_ok hrun]
  | error e w₁ => rw [bind_error (hprog.trans hrun), bind_error hrun]

theorem mhFlashWriteStep_dead {addr written len : Nat} {buf : List Byte}
    (hbuf : written + len ≤ buf.length) (hdead : ¬ p w.ops.length = true) :
    mhFlashWriteStep (env.cut p) addr buf written len w = .error .powerLoss w := by
  unfold mhFlashWriteStep
  rw [bind_ok (load_eq (env.cut p) hbuf w)]
  exact bind_error (flashOp_dead hdead _ _)

/-- A piece of `buf` behind the piece before it. -/
theorem flashWith_pieces {addr a n m : Nat} {buf : List Byte} {f : Flash}
    (h : a + n ≤ buf.length) :
    flashWith (addr + (a + n)) ((buf.drop (a + n)).take m)
      (flashWith (addr + a) ((buf.drop a).take n) f) =
      flashWith (addr + a) ((buf.drop a).take (n + m)) f := by
  have hlen : ((buf.drop a).take n).length = n := by
    rw [List.length_take, List.length_drop]
    omega
  have happ := @flashWith_append (addr + a) ((buf.drop a).take n) ((buf.drop (a + n)).take m) f
  rw [hlen, ← List.drop_drop, ← List.take_add, Nat.add_assoc] at happ
  rw [← happ, List.drop_drop]

/-- **Whole pages on an erased range**: all of them are programmed, or the first ones. -/
theorem mhFlashWriteLoop_torn (h : env.Good) {addr n j fuel : Nat} {buf : List Byte}
    (haddr : addr % 256 = 0) (h32 : addr + 256 * n < 4294967296) (hbuf : 256 * n ≤ buf.length)
    (hj : j ≤ n) (hfuel : n + 1 ≤ j + fuel)
    (herased : ∀ i, 256 * j ≤ i → i < 256 * n → w.flash (addr + i) = 0xff) :
    Leads (mhFlashWriteLoop (env.cut p) addr buf (256 * n) fuel (256 * j)) w
      (fun ret w' => ret = i32 (256 * n) ∧ Lasts p w.ops.length (n - j) ∧
        w'.flash = flashWith (addr + 256 * j) ((buf.drop (256 * j)).take (256 * (n - j))) w.flash)
      fun e w' => PowerFailed p e w' ∧ ∃ k, j ≤ k ∧ k < n ∧ FailsAfter p w.ops.length (k - j) ∧
        w'.flash = flashWith (addr + 256 * j) ((buf.drop (256 * j)).take (256 * (k - j))) w.flash := by
  induction fuel generalizing j w with
  | zero => omega
  | succ fuel ih =>
      unfold mhFlashWriteLoop
      rw [leads_ite]
      refine ⟨fun hlt => ?_, fun hge => ?_⟩
      · have hlen : mhFlashWriteLen addr (256 * n) (256 * j) = 256 := by
          rw [mhFlashWriteLen_eq, u32_eq (by omega), if_pos (by omega), if_pos (by omega)]
        rw [hlen, leads_bind]
        by_cases hlive : p w.ops.length = true
        · obtain ⟨w₁, hstep, hw₁, hops⟩ := @mhFlashWriteStep_good env w h addr (256 * j) 256 buf (by omega)
            (by omega) (by omega) fun i hi => by
              rw [Nat.add_assoc]; exact herased _ (by omega) (by omega)
          have hpiece : ((buf.drop (256 * j)).take 256).length = 256 := by
            rw [List.length_take, List.length_drop]; omega
          have hnext : 256 * j + 256 = 256 * (j + 1) := by omega
          refine leads_of_ok ((mhFlashWriteStep_live h.powered (by omega) hlive).trans hstep) ?_
          rw [if_pos rfl, hnext]
          have hflash : ∀ m, flashWith (addr + 256 * (j + 1))
              ((buf.drop (256 * (j + 1))).take (256 * m)) w₁.flash =
              flashWith (addr + 256 * j) ((buf.drop (256 * j)).take (256 * (m + 1))) w.flash := by
            intro m
            rw [hw₁.flash, ← hnext, flashWith_pieces (by omega), Nat.mul_succ, Nat.add_comm 256]
          refine (ih (w := w₁) (j := j + 1) (by omega) (by omega) fun i h₁ h₂ => ?_).mono
            (fun ret w' hdone => ?_) fun e w' htorn => ?_
          · rw [hw₁.flash, flashWith_outside (by rw [hpiece]; omega)]
            exact herased i (by omega) h₂
          · obtain ⟨hret, hlasts, hw'⟩ := hdone
            have hn : n - j = n - (j + 1) + 1 := by omega
            refine ⟨hret, ?_, ?_⟩
            · rw [hn, lasts_succ, ← hops]
              exact ⟨hlive, hlasts⟩
            · rw [hw', hflash, hn]
          · obtain ⟨he, k, hk₁, hk₂, hfails, hw'⟩ := htorn
            have hk : k - j = k - (j + 1) + 1 := by omega
            refine ⟨he, k, by omega, hk₂, ?_, ?_⟩
            · rw [hk, failsAfter_succ, ← hops]
              exact ⟨hlive, hfails⟩
            · rw [hw', hflash, hk]
        · refine leads_of_error (mhFlashWriteStep_dead (by omega) hlive) ⟨⟨rfl, hlive⟩, j,
            Nat.le_refl _, by omega, ?_, ?_⟩
          · rw [Nat.sub_self]
            exact ⟨fun i hi => absurd hi (Nat.not_lt_zero i), hlive⟩
          · rw [Nat.sub_self, Nat.mul_zero, List.take_zero, flashWith_nil]
      · have hzero : n - j = 0 := by omega
        rw [leads_pure, hzero, Nat.mul_zero, List.take_zero, flashWith_nil]
        exact ⟨rfl, fun i hi => absurd hi (Nat.not_lt_zero i), rfl⟩

/-- A sector on an erased one: all of its pages are programmed, or the first ones. -/
theorem falPartitionWrite_torn (h : env.Good) {part : FalPartition} (hp : part.Ok)
    (hlen : 4096 ≤ part.len) {buf : List Byte} (hbuf : 4096 ≤ buf.length)
    (herased : ∀ i < 4096, w.flash (part.base + i) = 0xff) :
    Leads (falPartitionWrite (env.cut p) part 0 buf 4096) w
      (fun ret w' => ret = 4096 ∧ Lasts p w.ops.length 16 ∧
        w'.flash = flashWith part.base (buf.take 4096) w.flash)
      fun e w' => PowerFailed p e w' ∧ ∃ k < 16, FailsAfter p w.ops.length k ∧
        w'.flash = flashWith part.base (buf.take (256 * k)) w.flash := by
  have hbase := hp.base_lt
  rw [falPartitionWrite_eq hp rfl (by decide) (by rw [Nat.zero_add]; exact hlen)]
  refine (mhFlashWriteLoop_torn (j := 0) (n := 16) h ?_ (by omega) hbuf (by decide) (by decide)
    fun i _ hi => herased i hi).mono (fun ret w' hdone => ⟨hdone.1.trans (i32_eq (by decide)), hdone.2⟩)
      fun e w' ⟨he, k, _, hk, hw'⟩ => ⟨he, k, hk, hw'⟩
  have hmod := hp.base_mod
  show part.base % 256 = 0
  omega

end Driver

/-! ## 2. A copy under failing power -/

/-- `f` with the first sector of `part` erased and the first `k` pages of its edit in it. -/
def tornCopy (part : FalPartition) (f : Flash) (k : Nat) : Flash :=
  flashWith part.base ((copyVersionEdit (readFlash f part.base 4096)).take (256 * k))
    (eraseRange part.base 1 f)

/-- What a copy may leave of `f`. -/
def Torn (part : FalPartition) (f g : Flash) : Prop :=
  g = f ∨ ∃ k ≤ 16, g = tornCopy part f k

/-- A body that exits is behind its label, another stop passes it. -/
theorem leads_withExit_or {body : M Int} {w : World} {Q : Int → World → Prop}
    {E : Stop → World → Prop}
    (h : Leads body w Q fun e w' => (∃ err, e = .exit err ∧ Q err w') ∨
      (∀ err, e ≠ .exit err) ∧ E e w') :
    Leads (withExit body) w Q E := by
  cases hb : body w with
  | ok r w' => exact leads_of_ok (withExit_ok hb) (h.ok hb)
  | error e w' =>
      rcases h.error hb with ⟨err, rfl, hq⟩ | ⟨hne, he⟩
      · exact leads_of_ok (withExit_exit hb) hq
      · refine leads_of_error ?_ he
        unfold withExit
        rw [hb]
        cases e with
        | exit err => exact absurd rfl (hne err)
        | crash => rfl
        | powerLoss => rfl
        | outOfFuel => rfl

/-- **A copy under failing power**: it leaves the flash as it was, or one page less than the operations
    the power lasted for; with its buffer and lasting power it is finished. -/
theorem rtFotaCopyVersion_pages {env : Env} {p : Nat → Bool} (h : env.Good) {name : List Byte}
    {part : FalPartition} (hp : part.Ok) (hfind : falPartitionFind env name = some part)
    (hlen : 4096 ≤ part.len) (w : World) :
    Leads (rtFotaCopyVersion (env.cut p) name) w
      (fun _ w' => (env.mallocOk w.allocs = false ∧ w'.flash = w.flash) ∨
        (Lasts p w.ops.length 17 ∧ w'.flash = tornCopy part w.flash 16))
      fun e w' => PowerFailed p e w' ∧
        ((FailsAfter p w.ops.length 0 ∧ w'.flash = w.flash) ∨
          ∃ k < 16, FailsAfter p w.ops.length (k + 1) ∧ w'.flash = tornCopy part w.flash k) := by
  have hbase := hp.base_lt
  have hmod := hp.base_mod
  have hfind' : falPartitionFind (env.cut p) name = some part := hfind
  have hedit : (copyVersionEdit (readFlash w.flash part.base 4096)).length = 4096 := by
    rw [length_copyVersionEdit, length_readFlash]
  unfold rtFotaCopyVersion
  refine leads_withExit_or ?_
  simp only [hfind']
  rw [leads_bind]
  unfold rtMalloc
  rw [leads_bind, leads_get, leads_bind, leads_modify, leads_ite]
  refine ⟨fun hmem => leads_pure.mpr ?_, fun hmem => leads_pure.mpr ?_⟩
  · have hread : falPartitionRead w.flash part 0 theNorFlashGranularity =
        some (readFlash w.flash part.base 4096) := by
      rw [falPartitionRead_ok hp (by rw [Nat.zero_add]; exact hlen)]
      rfl
    simp only
    rw [leads_bind, leads_get, hread]
    simp only
    rw [leads_bind]
    refine (falPartitionErase_torn h hp hlen).mono (fun ret w₂ ⟨hret, hw₂, hlive, hops⟩ => ?_)
      fun e w₂ ⟨he, hw₂, hfails⟩ => .inr ⟨fun _ => by rw [he.1]; exact nofun, he, .inl ⟨hfails, hw₂⟩⟩
    rw [hret, if_neg (by decide), leads_bind]
    refine (falPartitionWrite_torn h hp hlen hedit.ge fun i hi => ?_).mono
      (fun ret w₃ ⟨hret, hlasts, hw₃⟩ => ?_) fun e w₃ ⟨he, k, hk, hfails, hw₃⟩ => .inr
        ⟨fun _ => by rw [he.1]; exact nofun, he, .inr ⟨k, hk, ?_, ?_⟩⟩
    · rw [hw₂, eraseRange, if_pos (by omega)]
    · rw [hret, if_neg (by decide)]
      refine leads_pure.mpr (.inr ⟨?_, ?_⟩)
      · rw [lasts_succ]
        exact ⟨hlive, hops ▸ hlasts⟩
      · rw [hw₃, hw₂]
        rfl
    · rw [failsAfter_succ]
      exact ⟨hlive, hops ▸ hfails⟩
    · rw [hw₃, hw₂]
      rfl
  · exact leads_throw.mpr (.inl ⟨_, rfl, .inl ⟨Bool.eq_false_iff.mpr hmem, rfl⟩⟩)

theorem rtFotaCopyVersion_torn {env : Env} {p : Nat → Bool} (h : env.Good) {name : List Byte}
    {part : FalPartition} (hp : part.Ok) (hfind : falPartitionFind env name = some part)
    (hlen : 4096 ≤ part.len) (w : World) :
    Leads (rtFotaCopyVersion (env.cut p) name) w (fun _ w' => Torn part w.flash w'.flash)
      fun e w' => PowerFailed p e w' ∧ Torn part w.flash w'.flash := by
  refine (rtFotaCopyVersion_pages h hp hfind hlen w).mono (fun ret w' hdone => ?_)
    fun e w' htorn => ⟨htorn.1, ?_⟩
  · rcases hdone with ⟨-, hsame⟩ | ⟨-, hdone⟩
    · exact .inl hsame
    · exact .inr ⟨16, Nat.le_refl _, hdone⟩
  · rcases htorn.2 with ⟨-, hsame⟩ | ⟨k, hk, -, htorn⟩
    · exact .inl hsame
    · exact .inr ⟨k, Nat.le_of_lt hk, htorn⟩

/-! ## 3. What a torn copy holds -/

/-- What is put twice is put once. -/
theorem overwrite_twice (bs data : List Byte) (off : Nat) :
    overwrite (overwrite bs off data) off data = overwrite bs off data := by
  refine List.ext_getElem? fun i => ?_
  simp only [getElem?_overwrite, length_overwrite]
  split
  · rfl
  · rfl

theorem versionField_copyVersionEdit (bs : List Byte) :
    versionField (copyVersionEdit bs) = versionField bs := by
  refine List.ext_getElem? fun i => ?_
  unfold versionField
  by_cases hi : i < 24
  · rw [List.getElem?_take_of_lt hi, List.getElem?_take_of_lt hi, List.getElem?_drop,
      List.getElem?_drop]
    exact copyVersionEdit_other (by omega) (by omega)
  · rw [List.getElem?_eq_none (by rw [List.length_take]; omega),
      List.getElem?_eq_none (by rw [List.length_take]; omega)]

/-- The field a second edit would set is set. -/
theorem withVersion_copyVersionEdit (bs : List Byte) :
    withVersion (copyVersionEdit bs) = copyVersionEdit bs := by
  have hlen : (versionField bs).length ≤ 24 := by simp [versionField]
  refine List.ext_getElem? fun i => ?_
  rw [withVersion, versionField_copyVersionEdit, getElem?_overwrite]
  split
  · rename_i h
    rw [length_copyVersionEdit] at h
    rw [copyVersionEdit_eq, getElem?_overwrite, if_neg (by omega), withVersion, getElem?_overwrite,
      if_pos h]
  · rfl

/-- **A second edit changes nothing.** -/
theorem copyVersionEdit_twice (bs : List Byte) :
    copyVersionEdit (copyVersionEdit bs) = copyVersionEdit bs := by
  have hcrc : (copyVersionEdit bs).take 92 = (withVersion bs).take 92 := by
    refine List.ext_getElem? fun i => ?_
    by_cases hi : i < 92
    · rw [List.getElem?_take_of_lt hi, List.getElem?_take_of_lt hi, copyVersionEdit_eq,
        getElem?_overwrite, if_neg (by omega)]
    · rw [List.getElem?_eq_none (by rw [List.length_take]; omega),
        List.getElem?_eq_none (by rw [List.length_take]; omega)]
  rw [copyVersionEdit_eq (copyVersionEdit bs), withVersion_copyVersionEdit]
  show overwrite _ 92 (bytesLe32 (rtFotaCrc ((copyVersionEdit bs).take 92))) = _
  rw [hcrc, copyVersionEdit_eq]
  exact overwrite_twice _ _ _

/-- Where the header is an edited one, an edit changes nothing. -/
theorem copyVersionEdit_fixed {bs cs : List Byte} (h : bs.take 96 = copyVersionEdit cs) :
    copyVersionEdit bs = bs := by
  have hfront : (copyVersionEdit bs).take 96 = bs.take 96 := by
    rw [take_copyVersionEdit, h, copyVersionEdit_twice]
  refine List.ext_getElem? fun i => ?_
  by_cases hi : i < 96
  · rw [← List.getElem?_take_of_lt hi, hfront, List.getElem?_take_of_lt hi]
  · exact copyVersionEdit_other (by omega) (by omega)

section Torn

variable {part : FalPartition} {f g : Flash} {k : Nat}

theorem length_take_edit (hk : k ≤ 16) :
    ((copyVersionEdit (readFlash f part.base 4096)).take (256 * k)).length = 256 * k := by
  rw [List.length_take, length_copyVersionEdit, length_readFlash]
  omega

/-- Only the first sector is touched. -/
theorem tornCopy_other (hk : k ≤ 16) {a : Nat} (ha : ¬ part.FirstSector a) :
    tornCopy part f k a = f a := by
  have hlen := @length_take_edit part f k hk
  unfold FalPartition.FirstSector at ha
  unfold tornCopy
  rw [flashWith_outside (by rw [hlen]; omega), eraseRange, if_neg (by omega)]

/-- In it lie the programmed pages, and erased ones behind them. -/
theorem tornCopy_at (hk : k ≤ 16) {i : Nat} (hi : i < 4096) :
    tornCopy part f k (part.base + i) =
      if i < 256 * k then (copyVersionEdit (readFlash f part.base 4096)).getD i 0 else 0xff := by
  have hlen := @length_take_edit part f k hk
  unfold tornCopy
  split
  · rw [flashWith_at (by rw [hlen]; assumption), List.getD_eq_getElem?_getD,
      List.getElem?_take_of_lt ‹_›, List.getD_eq_getElem?_getD]
  · rw [flashWith_outside (by rw [hlen]; omega), eraseRange, if_pos (by omega)]

/-- All pages programmed: the copy of the version. -/
theorem tornCopy_copied (hlen : 4096 ≤ part.len) : CopiedFrom part f (tornCopy part f 16) :=
  ⟨hlen, fun i hi => by rw [tornCopy_at (Nat.le_refl _) hi, if_pos hi], fun _ _ hs =>
    tornCopy_other (Nat.le_refl _) hs⟩

/-- **One page is enough for the header.** -/
theorem tornCopy_header (hp : part.Ok) (h1 : 1 ≤ k) (hk : k ≤ 16) :
    headAt (tornCopy part f k) part = (headAt f part).copied := by
  have hbase := hp.base_lt
  have hedit : (copyVersionEdit (readFlash f part.base 4096)).take 96 =
      copyVersionEdit (headAt f part).bytes := by
    rw [take_copyVersionEdit, take_readFlash (by omega), headAt_bytes]
    rfl
  have hread : readFlash (tornCopy part f k) part.base 96 =
      copyVersionEdit (headAt f part).bytes := by
    have hlen : (copyVersionEdit (headAt f part).bytes).length = 96 := by
      rw [length_copyVersionEdit, (headAt f part).length_bytes]
    rw [← hlen]
    refine readFlash_eq (by rw [hlen]; omega) fun i hi => ?_
    rw [hlen] at hi
    rw [tornCopy_at hk (by omega), if_pos (by omega), ← hedit, List.getD_eq_getElem?_getD,
      List.getD_eq_getElem?_getD, List.getElem?_take_of_lt hi]
  have hbytes : (headAt (tornCopy part f k) part).bytes = (headAt f part).copied.bytes :=
    (headAt_bytes _ _).trans hread
  cases hh : headAt (tornCopy part f k) part with
  | mk bytes len =>
      rw [hh] at hbytes
      subst hbytes
      rfl

/-- **Without a page there is no header.** -/
theorem tornCopy_refused (hp : part.Ok) {env : Env} {name : List Byte} {h : RtFotaPartHead} :
    ¬ Accepted env (tornCopy part f 0) name part h := by
  intro hacc
  have hbase := hp.base_lt
  have htype := hacc.type
  rw [hacc.headAt_eq hp] at htype
  have hfirst : (headAt (tornCopy part f 0) part).type =
      0xff :: readFlash (tornCopy part f 0) (part.base + 1) 95 := by
    have hzero := @tornCopy_at part f 0 (Nat.zero_le _) 0 (by decide)
    rw [if_neg (by decide), Nat.add_zero] at hzero
    unfold type
    rw [headAt_bytes, sizeofPartHead, ← @readFlash_append _ _ 1 95]
    show tornCopy part f 0 (u32 (part.base + 0)) :: _ = _
    rw [Nat.add_zero, u32_eq (by omega), hzero]
    rfl
  rw [hfirst] at htype
  exact absurd htype (by simp [rtStrcmp, cStr])

/-- **A torn copy of a torn copy is a torn copy**, if the first one has a header. -/
theorem tornCopy_tornCopy (hp : part.Ok) {j : Nat} (h1 : 1 ≤ j) (hj : j ≤ 16) (hk : k ≤ 16) :
    tornCopy part (tornCopy part f j) k = tornCopy part f (min j k) := by
  have hbase := hp.base_lt
  have hfixed : copyVersionEdit (readFlash (tornCopy part f j) part.base 4096) =
      readFlash (tornCopy part f j) part.base 4096 := by
    refine @copyVersionEdit_fixed _ (headAt f part).bytes ?_
    rw [take_readFlash (by omega)]
    exact (headAt_bytes _ _).symm.trans (congrArg bytes (tornCopy_header hp h1 hj))
  have hmin : min j k ≤ 16 := Nat.le_trans (Nat.min_le_left _ _) hj
  funext a
  by_cases ha : part.FirstSector a
  · obtain ⟨i, rfl⟩ := Nat.exists_eq_add_of_le ha.1
    have hi : i < 4096 := by have := ha.2; omega
    rw [tornCopy_at hk hi, tornCopy_at hmin hi, hfixed]
    by_cases hik : i < 256 * k
    · rw [if_pos hik, readFlash_getD (by omega) hi, tornCopy_at hj hi]
      by_cases hij : i < 256 * j
      · rw [if_pos hij, if_pos (by omega)]
      · rw [if_neg hij, if_neg (by omega)]
    · rw [if_neg hik, if_neg (by omega)]
  · rw [tornCopy_other hk ha, tornCopy_other hj ha, tornCopy_other hmin ha]

/-! ## 4. What the partition decides -/

/-- The two flashes hold the same in the partition. -/
def FalPartition.SameIn (part : FalPartition) (f g : Flash) : Prop :=
  ∀ a, part.Covers a → g a = f a

theorem FalPartition.SameIn.tornCopy (hp : part.Ok) (hlen : 4096 ≤ part.len)
    (h : part.SameIn f g) (hk : k ≤ 16) :
    part.SameIn (tornCopy part f k) (tornCopy part g k) := by
  have hbase := hp.base_lt
  have hread : readFlash g part.base 4096 = readFlash f part.base 4096 :=
    readFlash_congr (by omega) fun a h₁ h₂ => h a ⟨h₁, by omega⟩
  intro a ha
  by_cases hs : part.FirstSector a
  · obtain ⟨i, rfl⟩ := Nat.exists_eq_add_of_le hs.1
    have hi : i < 4096 := by have := hs.2; omega
    rw [tornCopy_at hk hi, tornCopy_at hk hi, hread]
  · rw [tornCopy_other hk hs, tornCopy_other hk hs]
    exact h a ha

theorem FalPartition.SameIn.headAt (hp : part.Ok) (hlen : 96 ≤ part.len) (h : part.SameIn f g) :
    headAt g part = headAt f part := by
  have hbase := hp.base_lt
  unfold Mh1903.headAt
  refine congrArg ofBytes (readFlash_congr ?_ fun a h₁ h₂ => h a ⟨h₁, ?_⟩)
  · simp only [sizeofPartHead]
    omega
  · simp only [sizeofPartHead] at h₂
    omega

/-- An image that is accepted in one of them is accepted in the other. -/
theorem FalPartition.SameIn.accepted (hp : part.Ok) (h : part.SameIn f g) {env : Env}
    {name : List Byte} {k : RtFotaPartHead} (hacc : Accepted env f name part k) :
    Accepted env g name part k := by
  have hbase := hp.base_lt
  have hlen : 96 ≤ part.len := hacc.head_fits
  have hfind := hacc.find
  have hhead := h.headAt hp hlen
  obtain rfl := hacc.headAt_eq hp
  obtain ⟨⟨hcrc, htype, htarget, hfits, hcode⟩, hfit⟩ := (accepted_iff hp hfind).mp hacc
  rw [← hhead] at htype htarget hfits hcode hfit ⊢
  refine (accepted_iff hp hfind).mpr ⟨⟨?_, htype, htarget, hfits, ?_⟩, hfit⟩
  · rw [hhead, ← hcrc]
    refine congrArg (fun bs => (rtFotaCrc bs).toNat) (readFlash_congr ?_ fun a h₁ h₂ => h a ⟨h₁, ?_⟩)
    · simp only [sizeofPartHead]
      omega
    · simp only [sizeofPartHead] at h₂
      omega
  · rw [readFlash_body_congr hp h (by rw [Nat.add_zero]; exact hfits)]
    exact hcode

end Torn

end Mh1903
