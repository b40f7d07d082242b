/-
  File:      Mh1903/Copy/Safety.lean
  Subject:   THE COPY STAYS INSIDE ITS BUFFERS EXACTLY IF EVERY BLOCK FITS. One direction is
             `StoredImage.InBounds.upgrade`; for the other the run up to the first block that does
             not fit is followed on a board where nothing fails.
-/
import Mh1903.Copy.Willing

namespace Mh1903

open Library

/-! ## 1. The run to a place -/

section Reach

variable {m : StoredImage} {t : FalPartition} {x : Cursor}

/-- A fetch moves on by four bytes at least, or into the next chunk; no chunk takes more than 1026 of
    them. -/
theorem StoredImage.fetch_passes (hpos : x.pos ≤ 4096) :
    1026 * x.chunks + x.pos / 4 + 1 ≤ 1026 * (m.fetch x).chunks + (m.fetch x).pos / 4 ∧
      (m.fetch x).chunks ≤ x.chunks + 1 := by
  unfold StoredImage.fetch
  by_cases hskip : x.pos = 4092
  · rw [if_pos hskip]
    constructor
    · show 1026 * x.chunks + x.pos / 4 + 1 ≤ 1026 * x.chunks + 4096 / 4
      omega
    · exact Nat.le_succ _
  · rw [if_neg hskip]
    generalize m.sizeAt x.at = s
    show 1026 * x.chunks + x.pos / 4 + 1 ≤
      1026 * (if x.pos + 4 + s ≤ 4096 then x.chunks else x.chunks + 1) + nextPos x.pos s / 4 ∧
      (if x.pos + 4 + s ≤ 4096 then x.chunks else x.chunks + 1) ≤ x.chunks + 1
    by_cases hin : x.pos + 4 + s ≤ 4096
    · rw [if_pos hin, nextPos, if_pos hin]
      omega
    · rw [if_neg hin]
      omega

variable (m : StoredImage) (st₀ : CopyState) (w₀ : World)

/-- `n` passes of the main loop lead to `x`. -/
structure MainRun (x : Cursor) (n : Nat) (st : CopyState) (w : World) : Prop where
  place : CursorAt m x st w
  kept : FaultsKept w₀ w
  run : ∀ fuel, copyLoop m.env m.ctx (n + fuel) st₀ w₀ = copyLoop m.env m.ctx fuel st w
  passes : n + 1024 ≤ 1026 * x.chunks + x.pos / 4
  chunks : 4096 * x.chunks < m.head.comSize + 4096

/-- The main loop and then `n` passes of the tail loop lead to `x`. -/
structure TailRun (x : Cursor) (n : Nat) (st : CopyState) (w : World) : Prop where
  place : CursorAt m x st w
  done : ¬ m.InMain x
  run : ∃ st₁ w₁, FaultsKept w₀ w₁ ∧ FaultsKept w₁ w ∧
    copyLoop m.env m.ctx (copyFuel m.head.comSize) st₀ w₀ = .ok st₁ w₁ ∧
    ∀ fuel, tailLoop m.env m.ctx (n + fuel) st₁ w₁ = tailLoop m.env m.ctx fuel st w
  passes : n ≤ x.pos / 4

variable {m st₀ w₀} {n : Nat} {st : CopyState} {w : World}

/-- The passes made are fewer than the loop may make. -/
theorem MainRun.fuel (h : MainRun m st₀ w₀ x n st w) :
    ∃ fuel, copyFuel m.head.comSize = n + (fuel + 1) := by
  have hpasses := h.passes
  have hchunks := h.chunks
  have hpos := h.place.place ▸ h.place.cursor
  refine ⟨copyFuel m.head.comSize - (n + 1), ?_⟩
  unfold copyFuel
  simp only [rtFotaAlgoBuffSize]
  omega

theorem MainRun.start (h : CursorAt m .start st₀ w₀) : MainRun m st₀ w₀ .start 0 st₀ w₀ where
  place := h
  kept := Std.Refl.refl _
  run fuel := by rw [Nat.zero_add]
  passes := Nat.le_refl _
  chunks := Nat.succ_pos _

/-- One pass more. -/
theorem MainRun.step (hwill : m.env.Willing) (j : CopyJob m t) (hc : m.head.Compressed)
    (h : MainRun m st₀ w₀ x n st w) (hmain : m.InMain x) (hf : m.Fetchable x)
    (hd : m.Delivers t.len (m.fetch x)) :
    ∃ st' w', MainRun m st₀ w₀ (m.deliver (m.fetch x)) (n + 1) st' w' := by
  obtain ⟨st', w', hstep, hat, hno⟩ := h.place.mainPass_willing hwill j hc hmain hf hd
  obtain ⟨hpasses, hchunks⟩ :=
    @StoredImage.fetch_passes m x (h.place.place ▸ h.place.cursor)
  have hbefore := h.passes
  refine ⟨st', w', hat, IsTrans.trans _ _ _ h.kept hno, fun fuel => ?_, ?_, ?_⟩
  · rw [Nat.add_assoc, Nat.add_comm 1 fuel, h.run]
    exact copyLoop_pass fuel (h.place.inMain_iff.mpr hmain) hstep
  · show n + 1 + 1024 ≤ 1026 * (m.fetch x).chunks + (m.fetch x).pos / 4
    omega
  · show 4096 * (m.fetch x).chunks < m.head.comSize + 4096
    unfold StoredImage.InMain at hmain
    omega

/-- Where the body is read the tail loop begins. -/
theorem MainRun.tail (h : MainRun m st₀ w₀ x n st w) (hdone : ¬ m.InMain x) :
    TailRun m st₀ w₀ x 0 st w where
  place := h.place
  done := hdone
  run := by
    obtain ⟨fuel, hfuel⟩ := h.fuel
    refine ⟨st, w, h.kept, Std.Refl.refl w, ?_, fun fuel => by rw [Nat.zero_add]⟩
    rw [hfuel, h.run]
    exact copyLoop_done fuel fun hlt => hdone (h.place.inMain_iff.mp hlt)
  passes := Nat.zero_le _

/-- One pass of the tail loop more. -/
theorem TailRun.step (hwill : m.env.Willing) (j : CopyJob m t) (hc : m.head.Compressed)
    (h : TailRun m st₀ w₀ x n st w) (htail : m.InTail x) (hd : m.Delivers t.len (m.take x)) :
    ∃ st' w', TailRun m st₀ w₀ (m.deliver (m.take x)) (n + 1) st' w' := by
  obtain ⟨st', w', hstep, hat, hno⟩ := h.place.tailPass_willing hwill j hc htail hd
  obtain ⟨st₁, w₁, hkept, hkept₁, hmain, hrun⟩ := h.run
  have hpasses := h.passes
  refine ⟨st', w', hat, ?_, ⟨st₁, w₁, hkept, IsTrans.trans _ _ _ hkept₁ hno, hmain,
    fun fuel => ?_⟩, ?_⟩
  · unfold StoredImage.InMain StoredImage.deliver
    rw [m.take_chunks]
    exact h.done
  · rw [Nat.add_assoc, Nat.add_comm 1 fuel, hrun]
    exact tailLoop_pass fuel (h.place.inTail_raw htail) hstep
  · have hpos : (m.deliver (m.take x)).pos = x.pos + 4 + m.sizeAt x.at := by
      unfold StoredImage.deliver StoredImage.take
      rfl
    rw [hpos]
    omega

/-- **Every place the blocks lead to is reached**, where nothing fails. -/
theorem Reached.run (hwill : m.env.Willing) (j : CopyJob m t) (hc : m.head.Compressed)
    (h₀ : CursorAt m .start st₀ w₀) (hr : Reached m t.len x) :
    (∃ n st w, MainRun m st₀ w₀ x n st w) ∨ ∃ n st w, TailRun m st₀ w₀ x n st w := by
  induction hr with
  | start => exact .inl ⟨0, st₀, w₀, .start h₀⟩
  | main _ hmain hf hd ih =>
      rcases ih with ⟨n, st, w, h⟩ | ⟨n, st, w, h⟩
      · obtain ⟨st', w', h'⟩ := h.step hwill j hc hmain hf hd
        exact .inl ⟨n + 1, st', w', h'⟩
      · exact absurd hmain h.done
  | tail _ htail hd ih =>
      have hdone := not_lt.mpr htail.1
      rcases ih with ⟨n, st, w, h⟩ | ⟨n, st, w, h⟩
      · obtain ⟨st', w', h'⟩ := (h.tail hdone).step hwill j hc htail hd
        exact .inr ⟨1, st', w', h'⟩
      · obtain ⟨st', w', h'⟩ := h.step hwill j hc htail hd
        exact .inr ⟨n + 1, st', w', h'⟩

/-! ## 2. The run into a block that does not fit -/

/-- A fault in the main loop. -/
theorem upgradeCopy_faulted {env : Env} {c : CopyCtx} {st : CopyState} {w : World}
    (h : Faulted w (final (copyLoop env c (copyFuel c.partHead.comSize) st) w)) :
    Faulted w (final (upgradeCopy env c st) w) := by
  refine faulted_bind h fun st => ?_
  refine keeps_ite (keeps_bind (tailLoop_keeps fault_kept (flashProgramPage_kept _) _ _ _)
    fun _ => ?_) (keeps_bind (keeps_pure _) fun _ => ?_)
  all_goals exact keeps_ite (keeps_throw_bind _) (keeps_pure _)

/-- A fault in the first pass of the main loop. -/
theorem upgradeCopy_faulted_first {env : Env} {c : CopyCtx} {st : CopyState} {w : World}
    (hlt : st.fwRawPos < c.partHead.comSize) (h : Faulted w (final (copyStep env c st) w)) :
    Faulted w (final (upgradeCopy env c st) w) := by
  have hfuel : copyFuel c.partHead.comSize = copyFuel c.partHead.comSize - 1 + 1 := by
    simp only [copyFuel, rtFotaAlgoBuffSize]
    omega
  refine upgradeCopy_faulted ?_
  rw [hfuel]
  refine faulted_of_eq (congrFun (if_pos hlt) w) (Nat.le_refl _) (faulted_bind h fun st => ?_)
  exact copyLoop_keeps fault_kept (rtMalloc_kept _) (flashProgramPage_kept _) logRead_kept _ _ _

/-- **A copy without faults** has come to blocks that fit only. -/
theorem CursorAt.blocksFit (hwill : m.env.Willing) (j : CopyJob m t) (hc : m.head.Compressed)
    (hsizes : m.env.KeepsSizes) (h₀ : CursorAt m .start st₀ w₀)
    (hno : ¬ Faulted w₀ (final (upgradeCopy m.env m.ctx st₀) w₀)) : m.BlocksFit t.len := by
  intro x hr
  have hrun := hr.run hwill j hc h₀
  rw [StoredImage.fits_iff hsizes hc, StoredImage.fits_iff hsizes hc]
  constructor
  · intro hmain
    by_contra hbad
    refine hno ?_
    rcases hrun with ⟨n, st, w, h⟩ | ⟨n, st, w, h⟩
    · obtain ⟨fuel, hfuel⟩ := h.fuel
      have hstep := h.place.mainFaulted hc j.source (j.inPart hmain)
        (h.place.readable_willing hwill j hmain) hbad
      have hpass : copyLoop m.env m.ctx (fuel + 1) st w =
          (copyStep m.env m.ctx st >>= fun st' => copyLoop m.env m.ctx fuel st') w :=
        congrFun (if_pos (h.place.inMain_iff.mpr hmain)) w
      refine upgradeCopy_faulted (faulted_of_eq ((?_ : _ = _).trans hpass) h.kept
        (faulted_bind hstep fun st => ?_))
      · show copyLoop m.env m.ctx (copyFuel m.head.comSize) st₀ w₀ = _
        rw [hfuel, h.run]
      · exact copyLoop_keeps fault_kept (rtMalloc_kept _) (flashProgramPage_kept _) logRead_kept _ _ _
    · exact absurd hmain h.done
  · intro htail
    by_contra hbad
    refine hno ?_
    obtain ⟨n, st, w, h⟩ : ∃ n st w, TailRun m st₀ w₀ x n st w := by
      rcases hrun with ⟨n, st, w, h⟩ | h
      · exact ⟨0, st, w, h.tail (not_lt.mpr htail.1)⟩
      · exact h
    obtain ⟨st₁, w₁, hkept, hkept₁, hloop, hrun⟩ := h.run
    have hpasses := h.passes
    have hpos := h.place.place ▸ h.place.cursor
    have hne : m.ctx.partHead.cmprs ≠ rtFotaCryptAlgoNone := hc.ne_none
    have hfuel : tailFuel = n + (tailFuel - n - 1 + 1) := by
      unfold tailFuel
      omega
    have hstep := h.place.tailFaulted hc j.source htail hbad
    have hloop' : Faulted w (final (tailLoop m.env m.ctx (tailFuel - n - 1 + 1) st) w) := by
      unfold tailLoop
      rw [if_pos (h.place.inTail_raw htail)]
      refine faulted_bind hstep fun next => ?_
      cases next with
      | none => exact keeps_pure _
      | some st' => exact tailLoop_keeps fault_kept (flashProgramPage_kept _) _ _ _
    unfold upgradeCopy
    refine faulted_bind_ok hloop hkept ?_
    rw [if_pos hne]
    refine faulted_bind ?_ fun total => ?_
    · rw [hfuel]
      exact faulted_of_eq (hrun _) hkept₁ hloop'
    · exact keeps_ite (keeps_throw_bind _) (keeps_pure _)

end Reach

end Mh1903
