/-
  File:      Mh1903/Copy/Willing.lean
  Subject:   WHERE EVERYTHING SUCCEEDS. With memory, power and a flash that takes every write, also
             over bits once cleared, an aligned write inside the target succeeds; so the loops reach
             every place that the blocks of the body lead to.
-/
import Mh1903.Copy.Faults

namespace Mh1903

open Library

/-! ## 1. A flash that takes every write -/

/-- A page program that also sets bits. -/
def ramProgram (addr : Nat) (data : List Byte) (f : Flash) : Flash := fun a =>
  if a / x25qPageSize = addr / x25qPageSize then flashWith addr data f a else f a

def ramRom : Rom where
  eraseSector _ s f := (true, norErase s f)
  programPage _ addr data f := (true, ramProgram addr data f)

theorem ramRom_confined : ramRom.Confined where
  eraseSector _ _ _ _ ha := if_neg ha
  programPage _ _ _ _ _ ha := if_neg ha

theorem ramProgram_page {addr : Nat} {data : List Byte} {f : Flash}
    (hpage : addr % 256 + data.length ≤ 256) : ramProgram addr data f = flashWith addr data f := by
  funext a
  unfold ramProgram
  by_cases ha : a / x25qPageSize = addr / x25qPageSize
  · rw [if_pos ha]
  · rw [if_neg ha, flashWith_outside]
    simp only [x25qPageSize] at ha
    omega

/-- Nothing fails. -/
structure Env.Willing (env : Env) : Prop where
  rom : env.rom = ramRom
  powered : ∀ n, env.powered n = true
  mem : ∀ n, env.mallocOk n = true

/-- `env` on a board where nothing fails. -/
def Env.willing (env : Env) : Env :=
  { env with rom := ramRom, powered := fun _ => true, mallocOk := fun _ => true }

theorem Env.willing_willing (env : Env) : env.willing.Willing := ⟨rfl, fun _ => rfl, fun _ => rfl⟩

theorem Env.Willing.erases {env : Env} (h : env.Willing) : env.Erases where
  rom _ _ _ := by rw [h.rom]; rfl
  powered := h.powered

/-! ## 2. Writes succeed -/

section Write

variable {env : Env} {addr size written : Nat} {buf : List Byte}

theorem mhFlashWriteStep_willing (h : env.Willing) {len : Nat}
    (h32 : addr + written + len < 4294967296) (hbuf : written + len ≤ buf.length)
    (hpage : (addr + written) % 256 + len ≤ 256) (w : World) :
    ∃ w', mhFlashWriteStep env addr buf written len w = .ok true w' := by
  have hlen : ((buf.drop written).take len).length = len := by
    rw [List.length_take, List.length_drop]
    omega
  have hu : u32 (addr + written) = addr + written := u32_eq (by omega)
  have hprog : flashProgramPage env (addr + written) len ((buf.drop written).take len) w =
      .ok true (w.did (.programPage (addr + written) len)
        (flashWith (addr + written) ((buf.drop written).take len) w.flash)) := by
    unfold flashProgramPage flashOp
    rw [get_bind, if_pos (h.powered _), h.rom]
    simp only [ramRom]
    rw [List.take_of_length_le hlen.le, ramProgram_page (by rw [hlen]; exact hpage)]
    rfl
  refine ⟨w.did (.programPage (addr + written) len)
    (flashWith (addr + written) ((buf.drop written).take len) w.flash), ?_⟩
  unfold mhFlashWriteStep
  rw [bind_ok (load_eq env hbuf w), hu, bind_ok hprog, if_pos rfl, get_bind]
  have hback := @readFlash_flashWith (addr + written) ((buf.drop written).take len) w.flash
    (by rw [hlen]; omega)
  rw [hlen] at hback
  simp only [World.did, hback, dataCheck, beq_self_eq_true]
  rfl

/-- The write loop, from its start or from a page border on. -/
theorem mhFlashWriteLoop_willing (h : env.Willing) (h32 : addr + size + 256 < 4294967296)
    (hbuf : size ≤ buf.length) (hpage : 256 ≤ buf.length) (fuel : Nat)
    (hal : written = 0 ∨ (addr + written) % 256 = 0 ∨ size ≤ written)
    (hfuel : size + 1 ≤ written + fuel) (hpos : 1 ≤ fuel) (w : World) :
    ∃ w', mhFlashWriteLoop env addr buf size fuel written w = .ok (i32 size) w' := by
  induction fuel generalizing written w with
  | zero => omega
  | succ fuel ih =>
      unfold mhFlashWriteLoop
      by_cases hw : written < size
      · obtain ⟨hlen1, hlen, hend⟩ := @mhFlashWriteLen_spec addr size written hw
        have hin : written + mhFlashWriteLen addr size written ≤ buf.length := by
          rcases hal with h0 | h0 | h0
          · omega
          · rw [mhFlashWriteLen_eq, u32_eq (by omega), if_pos h0]
            split <;> omega
          · omega
        generalize mhFlashWriteLen addr size written = len at hlen1 hlen hend hin ⊢
        obtain ⟨w₁, hstep⟩ := mhFlashWriteStep_willing h (by omega) hin hlen w
        rw [if_pos hw, bind_ok hstep, if_pos rfl]
        exact ih (by omega) (by omega) (by omega) w₁
      · rw [if_neg hw]
        exact ⟨w, rfl⟩

end Write

section WriteOut

variable {env : Env} {t : FalPartition} {buf : List Byte} {n : Nat} {w : World}

/-- **An aligned write inside the target** succeeds. -/
theorem writeOut_willing (h : env.Willing) (ht : t.Ok) {st : CopyState}
    (hal : st.totalCopySize % 4 = 0) (h1 : 1 ≤ n) (hin : st.totalCopySize + n ≤ t.len)
    (hn : n ≤ buf.length) (hbuf : buf.length = 4096)
    (hfind : falPartitionFind env w.fotaPartHead.appPartName = some t) :
    ∃ st' w', writeOut env buf n st w = .ok st' w' := by
  have hbase := ht.base_lt
  have hmod := ht.base_mod
  obtain ⟨w', hrun⟩ := @mhFlashWriteLoop_willing env (t.base + st.totalCopySize) n 0 buf h
    (by omega) hn (by omega) (n + 1) (.inl rfl) (by omega) (by omega) w
  have hwrite : falPartitionWrite env t st.totalCopySize buf n w = .ok (n : Int) w' := by
    unfold falPartitionWrite falPartitionAccess mhFlashWrite
    rw [u32_eq (by omega), if_neg (by omega), if_pos ht.device, ht.address_eq (by omega),
      if_neg (by omega), u32_eq (by omega), if_neg, if_neg (by omega), hrun, i32_eq (by omega)]
    simp only [mhFlashEndAddress, mhFlashStartAdress, mhFlashSize]
    omega
  have happ : rtFotaWriteAppPart env st.totalCopySize buf n w = .ok rtFotaNoErr w' := by
    refine withExit_ok ?_
    rw [get_bind]
    simp only [hfind]
    rw [bind_ok hwrite, if_neg (by omega)]
    rfl
  refine ⟨{ st with totalCopySize := u32 (st.totalCopySize + n) }, w', ?_⟩
  unfold writeOut
  rw [bind_ok happ, if_neg (by decide)]
  rfl

end WriteOut

/-! ## 3. Passes succeed -/

section Pass

variable {m : StoredImage} {t : FalPartition} {x : Cursor} {st : CopyState} {w : World}

/-- A block that can be delivered is. -/
theorem CursorAt.deliver_willing (hwill : m.env.Willing) (j : CopyJob m t)
    (hc : m.head.Compressed) (h : CursorAt m x st w) (h1 : 1 ≤ x.chunks)
    (hd : m.Delivers t.len x) :
    ∃ st' w', deliverBlock m.env m.ctx st w = .ok st' w' ∧ CursorAt m (m.deliver x) st' w' ∧
      FaultsKept w w' := by
  obtain ⟨buf, w₁, hbuf, htake, hstep, hq, -⟩ := h.decompresses hc h1 hd.fits
  have hsize : (m.decompressed x.block x.size).size = (m.output x).length :=
    (m.decompressed x.block x.size).size_eq.resolve_left hd.size
  have hpos : 1 ≤ (m.decompressed x.block x.size).size := Nat.one_le_iff_ne_zero.mpr hd.size
  have hfits := hd.fits
  have hal := hd.aligned
  have hin := hd.inside
  have htotal := h.total
  have hhead : falPartitionFind m.env w₁.fotaPartHead.appPartName = some t := by
    rw [(h.quiet hq).head]
    exact j.find
  obtain ⟨st', w', hwrite⟩ := @writeOut_willing m.env t buf
    (m.decompressed x.block x.size).size w₁ hwill j.target { st with
      dcprsBuff := buf, dcprsSize := (m.decompressed x.block x.size).size }
    (by simp only [htotal]; exact hal) hpos (by simp only [htotal]; omega) (by omega) hbuf hhead
  have hrun : deliverBlock m.env m.ctx st w = .ok st' w' := by
    unfold deliverBlock
    rw [bind_ok hstep, if_neg hd.size]
    exact hwrite
  obtain ⟨-, hat, -⟩ := (h.deliver j hc h1 hd.fits (by omega)).ok hrun
  have hkeeps : Keeps FaultsKept (deliverBlock m.env m.ctx st) :=
    deliverBlock_keeps fault_kept (flashProgramPage_kept _) _ _
  exact ⟨st', w', hrun, hat, hkeeps.ok hrun⟩

/-- With memory a chunk that starts inside the body can be read. -/
theorem CursorAt.readable_willing (hwill : m.env.Willing) (j : CopyJob m t) (h : CursorAt m x st w)
    (hmain : m.InMain x) : Readable m.env m.part st.fwRawPos st.aesIv w := by
  refine ⟨?_, fun _ => hwill.mem _⟩
  rw [h.rawPos]
  exact j.inPart hmain

/-- A pass of the main loop succeeds. -/
theorem CursorAt.mainPass_willing (hwill : m.env.Willing) (j : CopyJob m t)
    (hc : m.head.Compressed) (h : CursorAt m x st w) (hmain : m.InMain x) (hf : m.Fetchable x)
    (hd : m.Delivers t.len (m.fetch x)) :
    ∃ st' w', copyStep m.env m.ctx st w = .ok st' w' ∧
      CursorAt m (m.deliver (m.fetch x)) st' w' ∧ FaultsKept w w' := by
  have hne : m.ctx.partHead.cmprs ≠ rtFotaCryptAlgoNone := hc.ne_none
  obtain ⟨st₁, w₁, hrun, hat, hcalm⟩ := h.fetch_ok j.source (j.inPart hmain)
    (h.readable_willing hwill j hmain) hf
  obtain ⟨st', w', hdel, hat', hno⟩ :=
    hat.deliver_willing hwill j hc (m.one_le_fetch_chunks h.first) hd
  refine ⟨st', w', ?_, hat', IsTrans.trans _ _ _ (NoFault.kept hcalm.faults) hno⟩
  unfold copyStep
  rw [if_pos hne, bind_ok hrun]
  exact hdel

/-- A pass of the tail loop succeeds. -/
theorem CursorAt.tailPass_willing (hwill : m.env.Willing) (j : CopyJob m t)
    (hc : m.head.Compressed) (h : CursorAt m x st w) (htail : m.InTail x)
    (hd : m.Delivers t.len (m.take x)) :
    ∃ st' w', tailStep m.env m.ctx st w = .ok (some st') w' ∧
      CursorAt m (m.deliver (m.take x)) st' w' ∧ FaultsKept w w' := by
  obtain ⟨st₁, hat, hstep⟩ := h.tailStep_take j.source htail
  have h1 := htail.2.2.1
  rw [← m.take_chunks] at h1
  obtain ⟨st', w', hdel, hat', hno⟩ := hat.deliver_willing hwill j hc h1 hd
  exact ⟨st', w', hstep.trans (bind_ok hdel), hat', hno⟩

end Pass

end Mh1903
