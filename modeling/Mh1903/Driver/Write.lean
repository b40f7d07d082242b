/-
  File:      Mh1903/Driver/Write.lean
  Subject:   WHAT `mh_flash_write` WRITES. Each piece ends with a page or with the buffer, unless a
             write that starts inside a page ends in front of the next one: its only piece is the
             rest of the page, beyond the buffer.
-/
import Mh1903.Driver.Range
import Mh1903.Frame.ReadBack

namespace Mh1903

open Library

/-! ## 1. Programming clears bits -/

/-- Every byte of `data` combined with what is there. -/
def andWith (addr : Nat) (data : List Byte) (f : Flash) : Flash := fun a =>
  if addr ≤ a ∧ a < addr + data.length then f a &&& data.getD (a - addr) 0 else f a

/-- `FLASH_ProgramPage` succeeds and combines, inside one page. -/
def Rom.ProgramsPages (rom : Rom) : Prop :=
  ∀ n addr data f, addr % x25qPageSize + data.length ≤ x25qPageSize →
    rom.programPage n addr data f = (true, andWith addr data f)

theorem norRom_programsPages : norRom.ProgramsPages := by
  intro n addr data f hpage
  refine Prod.ext rfl (funext fun a => ?_)
  show norProgram addr data f a = andWith addr data f a
  unfold andWith
  by_cases ha : addr ≤ a ∧ a < addr + data.length
  · obtain ⟨i, rfl⟩ := Nat.exists_eq_add_of_le ha.1
    have hi : i < data.length := by omega
    rw [if_pos ha, norProgram_at hi hpage, Nat.add_sub_cancel_left, List.getD_eq_getElem?_getD,
      List.getElem?_eq_getElem hi, Option.getD_some]
  · rw [if_neg ha, norProgram_outside hpage (by omega)]

/-- Programming the bytes of `buf` from `lo` to `hi` yields them: no cleared bit has to be set. -/
def Yields (f : Flash) (addr : Nat) (buf : List Byte) (lo hi : Nat) : Prop :=
  ∀ i, lo ≤ i → i < hi → f (addr + i) &&& buf.getD i 0 = buf.getD i 0

theorem yields_split {f : Flash} {addr lo mid hi : Nat} {buf : List Byte} (h₁ : lo ≤ mid)
    (h₂ : mid ≤ hi) :
    Yields f addr buf lo hi ↔ Yields f addr buf lo mid ∧ Yields f addr buf mid hi := by
  constructor
  · intro h
    exact ⟨fun i hlo hhi => h i hlo (by omega), fun i hlo hhi => h i (by omega) hhi⟩
  · rintro ⟨hfront, hback⟩ i hlo hhi
    by_cases hi : i < mid
    · exact hfront i hlo hi
    · exact hback i (by omega) hhi

theorem yields_congr {f g : Flash} {addr lo hi : Nat} {buf : List Byte}
    (h : ∀ i, lo ≤ i → i < hi → g (addr + i) = f (addr + i)) :
    Yields g addr buf lo hi ↔ Yields f addr buf lo hi := by
  constructor
  · intro hg i h₁ h₂
    rw [← h i h₁ h₂]
    exact hg i h₁ h₂
  · intro hf i h₁ h₂
    rw [h i h₁ h₂]
    exact hf i h₁ h₂

/-! ## 2. What a write has to do -/

/-- No read beyond the buffer, no change beyond the range; the size comes back exactly if the bytes
    can be programmed, and then they are there; otherwise the result is negative. -/
def WritesExactly (env : Env) (addr : Nat) (buf : List Byte) (w : World) : Prop :=
  ∃ ret w', mhFlashWrite env addr buf buf.length w = .ok ret w' ∧ w'.faults = w.faults ∧
    (∀ a, a < addr ∨ addr + buf.length ≤ a → w'.flash a = w.flash a) ∧
    (ret = (buf.length : Int) ↔ Yields w.flash addr buf 0 buf.length) ∧
    (Yields w.flash addr buf 0 buf.length → ∀ i < buf.length, w'.flash (addr + i) = buf.getD i 0) ∧
    (¬ Yields w.flash addr buf 0 buf.length → ret < 0)

/-! ## 3. One piece -/

section Write

variable {env : Env} {addr : Nat} {buf : List Byte}

theorem flashProgramPage_and (hrom : env.rom.ProgramsPages) (hpow : ∀ n, env.powered n = true)
    {a len : Nat} {data : List Byte} (hlen : data.length = len) (hpage : a % 256 + len ≤ 256)
    (w : World) :
    ∃ w', flashProgramPage env a len data w = .ok true w' ∧ w'.faults = w.faults ∧
      w'.flash = andWith a data w.flash := by
  have hprog := hrom w.ops.length a (data.take len) w.flash
    (by rw [List.length_take_of_le hlen.ge]; exact hpage)
  rw [List.take_of_length_le hlen.le] at hprog
  refine ⟨{ w with flash := andWith a data w.flash, ops := .programPage a len :: w.ops }, ?_, rfl,
    rfl⟩
  unfold flashProgramPage flashOp
  rw [get_bind, if_pos (hpow _), List.take_of_length_le hlen.le]
  simp only [hprog]
  rfl

/-- A piece inside the buffer and a page: programmed, and true exactly if it is there then. -/
theorem mhFlashWriteStep_and (hrom : env.rom.ProgramsPages) (hpow : ∀ n, env.powered n = true)
    {written len : Nat} (h32 : addr + written + len < 4294967296)
    (hbuf : written + len ≤ buf.length) (hpage : (addr + written) % 256 + len ≤ 256) (w : World) :
    ∃ ok w', mhFlashWriteStep env addr buf written len w = .ok ok w' ∧ w'.faults = w.faults ∧
      w'.flash = andWith (addr + written) ((buf.drop written).take len) w.flash ∧
      (ok = true ↔ Yields w.flash addr buf written (written + len)) := by
  have hlen : ((buf.drop written).take len).length = len := by
    rw [List.length_take, List.length_drop]; omega
  have hload : load env buf written len w = .ok ((buf.drop written).take len) w := by
    unfold load
    rw [if_neg (by omega), slice_eq _ hbuf]
    rfl
  have hu : u32 (addr + written) = addr + written := u32_eq (by omega)
  obtain ⟨w', hprog, hfaults, hflash⟩ := flashProgramPage_and hrom hpow hlen hpage w
  refine ⟨dataCheck ((buf.drop written).take len) (readFlash w'.flash (addr + written) len), w', ?_,
    hfaults, hflash, ?_⟩
  · unfold mhFlashWriteStep
    rw [bind_ok hload, hu, bind_ok hprog, if_pos rfl, get_bind]
    rfl
  · unfold dataCheck
    rw [beq_iff_eq, hflash]
    have hget : ∀ j < len, ((buf.drop written).take len)[j]? = some (buf.getD (written + j) 0) := by
      intro j hj
      have hin : written + j < buf.length := by omega
      rw [List.getElem?_take_of_lt hj, List.getElem?_drop, List.getD_eq_getElem?_getD,
        List.getElem?_eq_getElem hin, Option.getD_some]
    have hback : ∀ j < len, (readFlash (andWith (addr + written) ((buf.drop written).take len)
        w.flash) (addr + written) len)[j]? =
        some (w.flash (addr + (written + j)) &&& buf.getD (written + j) 0) := by
      intro j hj
      simp only [readFlash, List.getElem?_map, List.getElem?_range hj, Option.map_some, andWith]
      rw [u32_eq (by omega), if_pos (by rw [hlen]; omega), Nat.add_sub_cancel_left,
        List.getD_eq_getElem?_getD, hget j hj, Option.getD_some, Nat.add_assoc]
    constructor
    · intro heq i hlo hhi
      obtain ⟨j, rfl⟩ := Nat.exists_eq_add_of_le hlo
      have hj := congrArg (fun l => l[j]?) heq
      simp only [hget j (by omega), hback j (by omega)] at hj
      exact (Option.some.inj hj).symm
    · intro hy
      refine List.ext_getElem? fun j => ?_
      by_cases hj : j < len
      · rw [hget j hj, hback j hj, hy (written + j) (by omega) (by omega)]
      · rw [List.getElem?_eq_none (by omega), List.getElem?_eq_none (by
          rw [length_readFlash]; omega)]

/-- The next piece of a write that is clear of the short first piece: inside buffer and page, up to
    the end of one of them. -/
theorem mhFlashWriteLen_clear {size written : Nat} (h32 : addr + written < 4294967296)
    (hlt : written < size)
    (hal : (addr + written) % 256 = 0 ∨ 256 ≤ (addr + written) % 256 + (size - written)) :
    0 < mhFlashWriteLen addr size written ∧
    (addr + written) % 256 + mhFlashWriteLen addr size written ≤ 256 ∧
    written + mhFlashWriteLen addr size written ≤ size ∧
    ((addr + (written + mhFlashWriteLen addr size written)) % 256 = 0 ∨
      written + mhFlashWriteLen addr size written = size) := by
  obtain ⟨hpos, hpage, hend⟩ := @mhFlashWriteLen_spec addr size written hlt
  have hle : written + mhFlashWriteLen addr size written ≤ size := by
    rw [mhFlashWriteLen_eq, u32_eq h32]
    by_cases hmod : (addr + written) % 256 = 0
    · rw [if_pos hmod]
      split <;> omega
    · rw [if_neg hmod]
      omega
  exact ⟨hpos, hpage, hle, by omega⟩

/-! ## 4. The loop -/

/-- **The loop**: no fault, no change outside the rest of the range, and either the rest can be
    programmed and is there, or the result is the error. -/
theorem mhFlashWriteLoop_and (hrom : env.rom.ProgramsPages) (hpow : ∀ n, env.powered n = true)
    (h32 : addr + buf.length < 4294967296) (fuel : Nat) {written : Nat} {w : World}
    (hal : (addr + written) % 256 = 0 ∨ 256 ≤ (addr + written) % 256 + (buf.length - written) ∨
      written = buf.length)
    (hle : written ≤ buf.length) (hfuel : buf.length + 1 ≤ written + fuel) :
    ∃ ret w', mhFlashWriteLoop env addr buf buf.length fuel written w = .ok ret w' ∧
      w'.faults = w.faults ∧
      (∀ a, a < addr + written ∨ addr + buf.length ≤ a → w'.flash a = w.flash a) ∧
      ((ret = i32 buf.length ∧ Yields w.flash addr buf written buf.length ∧
          ∀ i, written ≤ i → i < buf.length → w'.flash (addr + i) = buf.getD i 0) ∨
        (ret = -rtError ∧ ¬ Yields w.flash addr buf written buf.length)) := by
  induction fuel generalizing written w with
  | zero => omega
  | succ fuel ih =>
      unfold mhFlashWriteLoop
      by_cases hlt : written < buf.length
      · rw [if_pos hlt]
        obtain ⟨hpos, hpage, hin, hnext⟩ :=
          @mhFlashWriteLen_clear addr buf.length written (by omega) hlt (by omega)
        generalize mhFlashWriteLen addr buf.length written = len at hpos hpage hin hnext ⊢
        obtain ⟨ok, w₁, hstep, hfaults, hflash, hok⟩ :=
          mhFlashWriteStep_and hrom hpow (by omega) hin hpage w
        have hlen : ((buf.drop written).take len).length = len := by
          rw [List.length_take, List.length_drop]; omega
        have hother : ∀ a, a < addr + written ∨ addr + written + len ≤ a →
            w₁.flash a = w.flash a := by
          intro a ha
          rw [hflash, andWith, if_neg (by rw [hlen]; omega)]
        have hsplit := @yields_split w.flash addr written (written + len) buf.length buf
          (Nat.le_add_right _ _) hin
        rw [bind_ok hstep]
        cases ok with
        | false =>
            refine ⟨-rtError, w₁, rfl, hfaults, fun a ha => hother a (by omega), .inr ⟨rfl, ?_⟩⟩
            exact fun hy => absurd (hok.mpr (hsplit.mp hy).1) (by decide)
        | true =>
            rw [if_pos rfl]
            have hpiece := hok.mp rfl
            obtain ⟨ret, w', hrun, hf', hout', hres⟩ := @ih (written + len) w₁ (by omega) hin
              (by omega)
            have hrest : Yields w₁.flash addr buf (written + len) buf.length ↔
                Yields w.flash addr buf (written + len) buf.length :=
              yields_congr fun i hi _ => hother _ (by omega)
            refine ⟨ret, w', hrun, hf'.trans hfaults, fun a ha => ?_, ?_⟩
            · exact (hout' a (by omega)).trans (hother a (by omega))
            · rcases hres with ⟨hret, hy, hthere⟩ | ⟨hret, hy⟩
              · refine .inl ⟨hret, hsplit.mpr ⟨hpiece, hrest.mp hy⟩, fun i hi hs => ?_⟩
                by_cases hmid : i < written + len
                · -- the piece itself: later pieces do not touch it
                  rw [hout' _ (by omega), hflash, andWith, if_pos (by rw [hlen]; omega)]
                  have hidx : addr + i - (addr + written) = i - written := by omega
                  have hbyte : ((buf.drop written).take len).getD (i - written) 0 =
                      buf.getD i 0 := by
                    rw [List.getD_eq_getElem?_getD, List.getElem?_take_of_lt (by omega),
                      List.getElem?_drop, Nat.add_sub_cancel' hi, ← List.getD_eq_getElem?_getD]
                  rw [hidx, hbyte]
                  exact hpiece i hi hmid
                · exact hthere i (by omega) hs
              · exact .inr ⟨hret, fun hy' => hy (hrest.mpr (hsplit.mp hy').2)⟩
      · have hend : written = buf.length := by omega
        subst hend
        rw [if_neg hlt]
        exact ⟨_, w, rfl, rfl, fun _ _ => rfl, .inl ⟨rfl, fun i h₁ h₂ => absurd h₂ (by omega),
          fun i h₁ h₂ => absurd h₂ (by omega)⟩⟩

/-- The short first piece: a read beyond the buffer. -/
theorem mhFlashWriteLoop_short (h32 : addr + 256 < 4294967296) (h1 : 1 ≤ buf.length)
    (hmod : addr % 256 ≠ 0) (hshort : addr % 256 + buf.length < 256) (fuel : Nat) (w : World) :
    Leads (mhFlashWriteLoop env addr buf buf.length (fuel + 2) 0) w
      (fun _ w' => w'.faults = .outOfBounds :: w.faults) (fun _ _ => True) := by
  have hlen : mhFlashWriteLen addr buf.length 0 = 256 - addr % 256 := by
    rw [mhFlashWriteLen_eq, Nat.add_zero, u32_eq (by omega), if_neg hmod]
  unfold mhFlashWriteLoop
  rw [if_pos (by omega), hlen, leads_bind]
  have hload : load env buf 0 (256 - addr % 256) w =
      .ok (slice env.memory buf 0 (256 - addr % 256))
        { w with faults := .outOfBounds :: w.faults } := by
    unfold load
    rw [if_pos (by omega)]
    rfl
  have hstep : Leads (mhFlashWriteStep env addr buf 0 (256 - addr % 256)) w
      (fun _ w' => w'.faults = .outOfBounds :: w.faults) (fun _ _ => True) := by
    unfold mhFlashWriteStep
    rw [leads_bind]
    refine leads_of_ok hload ?_
    rw [leads_bind]
    have hprog := (flashOp_noFault env (.programPage (u32 (addr + 0)) (256 - addr % 256)) fun n f =>
      env.rom.programPage n (u32 (addr + 0))
        ((slice env.memory buf 0 (256 - addr % 256)).take (256 - addr % 256)) f).at
      (returns_any _) { w with faults := .outOfBounds :: w.faults }
    refine hprog.leads.mono (fun ok w₁ h => ?_) fun _ _ _ => trivial
    rw [leads_ite]
    refine ⟨fun _ => ?_, fun _ => leads_pure.mpr h.1⟩
    rw [leads_bind, leads_get]
    exact leads_pure.mpr h.1
  refine hstep.mono (fun ok w₁ hw₁ => ?_) fun _ _ _ => trivial
  rw [leads_ite]
  refine ⟨fun _ => ?_, fun _ => leads_pure.mpr hw₁⟩
  unfold mhFlashWriteLoop
  rw [if_neg (by omega)]
  exact leads_pure.mpr hw₁

/-! ## 5. The call -/

/-- The call inside the flash is its loop. -/
theorem mhFlashWrite_eq (hal : addr % 4 = 0) (h1 : 1 ≤ buf.length)
    (hin : InFlash addr buf.length) :
    mhFlashWrite env addr buf buf.length =
      mhFlashWriteLoop env addr buf buf.length (buf.length + 1) 0 := by
  have hend : addr + buf.length ≤ 0x01400000 := hin.2
  have hsum : u32 (addr + buf.length) = addr + buf.length := u32_eq (by omega)
  unfold mhFlashWrite
  rw [if_neg (not_not.mpr hal), hsum, if_neg (not_lt.mpr hin.2), if_neg (by omega)]

/-- **A write does exactly what it was given to if and only if it starts with a page or reaches the
    end of the page it starts in.** -/
theorem write_exact_iff (hrom : env.rom.ProgramsPages) (hpow : ∀ n, env.powered n = true)
    (hal : addr % 4 = 0) (h1 : 1 ≤ buf.length) (hin : InFlash addr buf.length) (w : World) :
    WritesExactly env addr buf w ↔ addr % 256 = 0 ∨ 256 ≤ addr % 256 + buf.length := by
  have hend : addr + buf.length ≤ 0x01400000 := hin.2
  unfold WritesExactly
  rw [mhFlashWrite_eq hal h1 hin]
  constructor
  · rintro ⟨ret, w', hrun, hfaults, -⟩
    by_contra hno
    obtain ⟨n, hn⟩ : ∃ n, buf.length + 1 = n + 2 := ⟨buf.length - 1, by omega⟩
    have hfuel := @mhFlashWriteLoop_short env addr buf (by omega) h1 (by omega) (by omega) n w
    rw [← hn] at hfuel
    have hbad := hfuel.ok hrun
    rw [hfaults] at hbad
    exact List.cons_ne_self _ _ hbad.symm
  · intro hclear
    obtain ⟨ret, w', hrun, hfaults, hout, hres⟩ :=
      @mhFlashWriteLoop_and env addr buf hrom hpow (by omega) (buf.length + 1) 0 w (by
        rw [Nat.add_zero, Nat.sub_zero]
        exact hclear.imp_right .inl) (Nat.zero_le _) (by omega)
    have hi32 : i32 buf.length = (buf.length : Int) := i32_eq (by omega)
    refine ⟨ret, w', hrun, hfaults, hout, ?_⟩
    rcases hres with ⟨hret, hy, hthere⟩ | ⟨hret, hy⟩
    · refine ⟨⟨fun _ => hy, fun _ => hret.trans hi32⟩, fun _ i hi => hthere i (Nat.zero_le _) hi,
        fun hno => absurd hy hno⟩
    · have hneg : ret < 0 := by rw [hret]; decide
      exact ⟨⟨fun h => absurd hneg (by omega), fun h => absurd h hy⟩, fun h => absurd h hy,
        fun _ => hneg⟩

end Write

/-- Four bytes that end with their page. -/
theorem write_exact_iff_page_end :
    WritesExactly Env.board 0x010180fc [0x12, 0x34, 0x56, 0x78] (.powerOn fun _ => 0xff) :=
  (write_exact_iff norRom_programsPages (fun _ => rfl) (by decide) (by decide)
    ⟨by decide, by decide⟩ _).mpr (by decide)

/-- Four bytes inside a page: the driver programs the rest of the page. -/
theorem write_reads_past_buffer :
    ¬ WritesExactly Env.board 0x01018004 [0x12, 0x34, 0x56, 0x78] (.powerOn fun _ => 0xff) := by
  rintro ⟨ret, w', hrun, hfaults, -⟩
  rw [mhFlashWrite_eq (by decide) (by decide) ⟨by decide, by decide⟩] at hrun
  have hbad := (mhFlashWriteLoop_short (by decide) (by decide) (by decide) (by decide) 3 _).ok hrun
  rw [hfaults] at hbad
  exact List.cons_ne_self _ _ hbad.symm

/-! ## 6. A faulty flash -/

/-- What a caller can pass: its buffer and the 256 bytes of `write_buf` lie side by side in the
    address space. -/
structure SourceBuffer where
  bytes : List Byte
  fits : bytes.length + x25qPageSize ≤ 4294967296

/-- A size that is returned is no error code. -/
theorem SourceBuffer.i32_ne (buf : SourceBuffer) :
    i32 buf.bytes.length ≠ -rtError ∧ i32 buf.bytes.length ≠ -rtEinval := by
  have hfits := buf.fits
  simp only [x25qPageSize] at hfits
  unfold i32
  rw [u32_eq (by omega)]
  simp only [rtError, rtEinval]
  split <;> omega

/-- **A write that returns the size is there**, whatever the ROM does to the pages it is called for
    and whatever it answers. -/
theorem write_verified {env : Env} (hrom : env.rom.Confined) (addr : BitVec 32) (buf : SourceBuffer)
    {w w' : World}
    (h : mhFlashWrite env addr.toNat buf.bytes buf.bytes.length w = .ok (i32 buf.bytes.length) w') :
    ∀ i < buf.bytes.length, w'.flash (u32 (addr.toNat + i)) = buf.bytes.getD i 0 := by
  obtain ⟨herror, heinval⟩ := buf.i32_ne
  have hfits := buf.fits
  simp only [x25qPageSize] at hfits
  intro i hi
  unfold mhFlashWrite at h
  have hreturns : ∀ ret w₁, (pure (-rtEinval) : M Int) w = .ok ret w₁ → ret = -rtEinval := by
    intro ret w₁ hret
    cases hret
    rfl
  split at h
  · exact absurd (hreturns _ _ h) heinval
  split at h
  · exact absurd (hreturns _ _ h) heinval
  split at h
  · exact absurd (hreturns _ _ h) heinval
  rw [mhFlashWriteLoop_verified hrom (by omega) _ (.inl rfl) h herror i (Nat.zero_le _) hi,
    srcByte_of_lt hi]

/-- Six bytes that begin with the last word of a page and end in the next one. -/
theorem write_verified_across :
    ∃ w', mhFlashWrite Env.board 0x010180fc [0x12, 0x34, 0x56, 0x78, 0x9a, 0xbc] 6
        (.powerOn fun _ => 0xff) = .ok 6 w' ∧
      ∀ i < 6, w'.flash (u32 (0x010180fc + i)) =
        ([0x12, 0x34, 0x56, 0x78, 0x9a, 0xbc] : List Byte).getD i 0 := by
  have hal : (0x010180fc : Nat) % 4 = 0 := by decide
  have hin : InFlash 0x010180fc [0x12, 0x34, 0x56, 0x78, 0x9a, 0xbc].length :=
    ⟨by decide, by decide⟩
  obtain ⟨ret, w', hrun, -, -, hres⟩ := @mhFlashWriteLoop_and Env.board 0x010180fc
    [0x12, 0x34, 0x56, 0x78, 0x9a, 0xbc] norRom_programsPages (fun _ => rfl) (by decide) 7 0
    (.powerOn fun _ => 0xff) (.inr (.inl (by decide))) (by decide) (by decide)
  have hy : Yields (World.powerOn fun _ => 0xff).flash 0x010180fc
      [0x12, 0x34, 0x56, 0x78, 0x9a, 0xbc] 0 6 := fun i _ _ => BitVec.allOnes_and
  rcases hres with ⟨rfl, -⟩ | ⟨-, hno⟩
  · have hwrite : mhFlashWrite Env.board 0x010180fc [0x12, 0x34, 0x56, 0x78, 0x9a, 0xbc] 6
        (.powerOn fun _ => 0xff) = .ok (i32 6) w' :=
      (congrFun (mhFlashWrite_eq hal (by decide) hin) _).trans hrun
    have hsize : i32 6 = 6 := i32_eq (by decide)
    exact ⟨w', hwrite.trans (by rw [hsize]), write_verified norRom_confined 0x010180fc
      ⟨[0x12, 0x34, 0x56, 0x78, 0x9a, 0xbc], by decide⟩ hwrite⟩
  · exact absurd hy hno

end Mh1903
