/-
  File:      Mh1903/Copy/Refusal.lean
  Subject:   A REFUSED IMAGE COSTS THE TARGET. Only the size of an image is checked in front of the
             first sector; its algorithm and the memory for it are looked at when the target has
             been erased. So a refusal leaves the flash alone exactly if the size is the reason or
             there was nothing to erase.
-/
import Mh1903.Boot.Launch
import Mh1903.Copy.Setup
import Mh1903.Driver.Erase
import Mh1903.Frame.Steps

namespace Mh1903

open Library RtFotaPartHead

/-! ## 1. Refusals -/

/-- Not a block was copied between `w` and `w'`: every flash operation was an erase. -/
def NothingCopied (w w' : World) : Prop :=
  ∃ new, w'.ops = new ++ w.ops ∧ ∀ op ∈ new, ∃ s, op = .eraseSector s

/-- An allocation failed between `w` and `w'`. -/
def AllocFailed (env : Env) (w w' : World) : Prop :=
  ∃ n, w.allocs ≤ n ∧ n < w'.allocs ∧ env.mallocOk n = false

/-- An encryption or compression the bootloader does not have. -/
def RtFotaPartHead.Unsupported (h : RtFotaPartHead) : Prop :=
  (h.crypt ≠ rtFotaCryptAlgoNone ∧ h.crypt ≠ rtFotaCryptAlgoAes256) ∨
  (h.cmprs ≠ rtFotaCryptAlgoNone ∧ h.cmprs ≠ rtFotaCmprsAlgoQuicklz ∧
    h.cmprs ≠ rtFotaCmprsAlgoFastlz)

/-- The run from `w` to `w'` that returned `err` refused an image for the target `t`: for its size,
    for its algorithm, or for want of memory before a block was copied. (That the erase itself
    fails is another error.) -/
def ImageRefused (env : Env) (t : FalPartition) (w : World) (err : Int) (w' : World) : Prop :=
  err ≠ rtFotaNoErr ∧
  (t.len < w.fotaPartHead.rawSize ∨
    (err ≠ rtFotaPartEraseErr ∧
      (w.fotaPartHead.crypt = rtFotaCryptAlgoXor ∨ w.fotaPartHead.cmprs = rtFotaCmprsAlgoGzip ∨
        (NothingCopied w w' ∧ (w.fotaPartHead.Unsupported ∨ AllocFailed env w w')))))

/-! ## 2. Behind the erase -/

/-- From `w` to `w'` flash was changed by page programs only. -/
def ProgramsOnly (w w' : World) : Prop :=
  ∃ new, w'.ops = new ++ w.ops ∧ (∀ op ∈ new, ∃ addr size, op = .programPage addr size) ∧
    (new = [] → w'.flash = w.flash)

instance : Std.Refl ProgramsOnly := ⟨fun _ => ⟨[], rfl, by simp, fun _ => rfl⟩⟩

instance : IsTrans World ProgramsOnly := by
  refine ⟨fun w₁ w₂ w₃ h₁ h₂ => ?_⟩
  obtain ⟨n₁, e₁, p₁, f₁⟩ := h₁
  obtain ⟨n₂, e₂, p₂, f₂⟩ := h₂
  refine ⟨n₂ ++ n₁, by rw [e₂, e₁, List.append_assoc], fun op hop => ?_, fun hnil => ?_⟩
  · rcases List.mem_append.mp hop with h | h
    · exact p₂ op h
    · exact p₁ op h
  · obtain ⟨h₂, h₁⟩ := List.append_eq_nil_iff.mp hnil
    exact (f₂ h₂).trans (f₁ h₁)

theorem Quiet.programsOnly {w w' : World} (h : Quiet w w') : ProgramsOnly w w' :=
  ⟨[], h.ops, by simp, fun _ => h.flash⟩

theorem flashProgramPage_programsOnly (env : Env) (addr size : Nat) (buffer : List Byte) :
    Keeps ProgramsOnly (flashProgramPage env addr size buffer) := by
  refine keeps_of_leads fun w => ?_
  unfold flashProgramPage flashOp
  rw [leads_bind, leads_get, leads_ite]
  refine ⟨fun _ => ?_, fun _ => leads_throw.mpr (Std.Refl.refl w)⟩
  rw [leads_bind, leads_modify, leads_pure]
  refine ⟨[.programPage addr size], rfl, fun op hop => ?_, fun h => by cases h⟩
  exact ⟨addr, size, List.mem_singleton.mp hop⟩

section Setup

variable {env : Env} {w w₁ : World} {t : FalPartition}

/-- An upgrade that returned, and not for the erase, has erased the target. -/
theorem rtFotaUpgrade_erase_ok {partName : Option (List Byte)} {part : FalPartition}
    (hpart : partName.bind (falPartitionFind env) = some part)
    (hfind : falPartitionFind env w.fotaPartHead.appPartName = some t) {err : Int} {w' : World}
    (hrun : rtFotaUpgrade env partName w = .ok err w') (herr : err ≠ rtFotaPartEraseErr) :
    ∃ w₁, rtFotaEraseAppPart env w = .ok rtFotaNoErr w₁ := by
  cases happ : rtFotaEraseAppPart env w with
  | error e w₁ =>
      have hno := withExit_stops _ w e w₁ happ
      have hsetup : upgradeSetup env partName w = .error e w₁ := by
        unfold upgradeSetup
        simp only [hpart]
        exact bind_error happ
      unfold rtFotaUpgrade withExit at hrun
      rw [bind_error hsetup] at hrun
      cases e with
      | exit r => exact absurd rfl (hno r)
      | crash => cases hrun
      | powerLoss => cases hrun
      | outOfFuel => cases hrun
  | ok r w₁ =>
      rcases rtFotaEraseAppPart_cases hfind happ with ⟨rfl, -⟩ | ⟨rfl, -⟩
      · exact ⟨w₁, rfl⟩
      · have hsetup : upgradeSetup env partName w = .error (.exit rtFotaPartEraseErr) w₁ := by
          unfold upgradeSetup
          simp only [hpart]
          rw [bind_ok happ, if_pos (by decide)]
          rfl
        unfold rtFotaUpgrade withExit at hrun
        rw [bind_error hsetup] at hrun
        cases hrun
        exact absurd rfl herr

/-- **Behind the erase** the upgrade changes flash by page programs only, and not at all for XOR and
    GZIP. -/
theorem rtFotaUpgrade_erased {partName : Option (List Byte)} {part : FalPartition}
    (hpart : partName.bind (falPartitionFind env) = some part)
    (herase : rtFotaEraseAppPart env w = .ok rtFotaNoErr w₁) {err : Int} {w' : World}
    (hrun : rtFotaUpgrade env partName w = .ok err w') :
    ProgramsOnly w₁ w' ∧
      (w₁.fotaPartHead.crypt = rtFotaCryptAlgoXor ∨
        w₁.fotaPartHead.cmprs = rtFotaCmprsAlgoGzip → w'.flash = w₁.flash) := by
  have hsetup := upgradeSetup_leads hpart herase
  have hlead : Leads (rtFotaUpgrade env partName) w
      (fun _ w' => ProgramsOnly w₁ w' ∧
        (w₁.fotaPartHead.crypt = rtFotaCryptAlgoXor ∨
          w₁.fotaPartHead.cmprs = rtFotaCmprsAlgoGzip → w'.flash = w₁.flash))
      (fun _ _ => True) := by
    refine leads_withExit ?_
    rw [leads_bind]
    refine hsetup.mono (fun r w₂ h => ?_) fun e w₂ h => ?_
    · obtain ⟨⟨_, _, _, -, -, hxor, hbufs⟩, hcalm⟩ := h
      have hq := hcalm.toQuiet
      have hcopy := upgradeCopy_keeps (fun f w => (fault_quiet f w).programsOnly)
        (fun size w => (rtMalloc_quiet env size w).programsOnly)
        (flashProgramPage_programsOnly env)
        (fun read w => (logRead_quiet read w).programsOnly) r.1 r.2 w₂
      have hboth : ∀ w₃, ProgramsOnly w₂ w₃ → ProgramsOnly w₁ w₃ ∧
          (w₁.fotaPartHead.crypt = rtFotaCryptAlgoXor ∨
            w₁.fotaPartHead.cmprs = rtFotaCmprsAlgoGzip → w₃.flash = w₁.flash) := by
        intro w₃ h₃
        refine ⟨IsTrans.trans _ _ _ hq.programsOnly h₃, fun h => ?_⟩
        rcases h with h | h
        · exact absurd h hxor
        · exact absurd h hbufs.supported
      show Leads (upgradeCopy env r.1 r.2) w₂ _ _
      cases hc : upgradeCopy env r.1 r.2 w₂ with
      | ok a w₃ =>
          unfold final at hcopy
          rw [hc] at hcopy
          exact leads_of_ok hc (hboth w₃ hcopy)
      | error e w₃ =>
          unfold final at hcopy
          rw [hc] at hcopy
          exact leads_of_error hc ⟨fun _ _ => hboth w₃ hcopy, trivial⟩
    · exact ⟨fun _ _ => ⟨h.toQuiet.programsOnly, fun _ => h.flash⟩, trivial⟩
  exact hlead.ok hrun

end Setup

/-! ## 3. What a refusal leaves -/

/-- The sectors an upgrade erases read 0xff already. -/
def ErasedBefore (t : FalPartition) (w : World) : Prop :=
  ∀ a, t.base ≤ a → a < t.base + sectors w.fotaPartHead.rawSize * 4096 → w.flash a = 0xff

theorem eraseRange_eq_self {sector n : Nat} {f : Flash} :
    eraseRange sector n f = f ↔ ∀ a, sector ≤ a → a < sector + n * 4096 → f a = 0xff := by
  constructor
  · intro h a h₁ h₂
    rw [← h]
    exact if_pos ⟨h₁, h₂⟩
  · intro h
    funext a
    unfold eraseRange
    split
    · rename_i ha
      exact (h a ha.1 ha.2).symm
    · rfl

/-- A refusal for another reason than the size: the target was erased, and nothing else was done. -/
theorem refusal_erases {env : Env} (hrom : env.rom.Confined) {partName : Option (List Byte)}
    {part t : FalPartition} (hpart : partName.bind (falPartitionFind env) = some part) (htok : t.Ok)
    {w w' : World} {err : Int} (ht : falPartitionFind env w.fotaPartHead.appPartName = some t)
    (hrun : rtFotaUpgrade env partName w = .ok err w') (herr : err ≠ rtFotaPartEraseErr)
    (hreason : w.fotaPartHead.crypt = rtFotaCryptAlgoXor ∨
      w.fotaPartHead.cmprs = rtFotaCmprsAlgoGzip ∨ NothingCopied w w') :
    w'.flash = eraseRange t.base (sectors w.fotaPartHead.rawSize) w.flash := by
  obtain ⟨w₁, happ⟩ := rtFotaUpgrade_erase_ok hpart ht hrun herr
  obtain ⟨-, -, -, hflash⟩ := rtFotaEraseAppPart_sound hrom htok ht happ
  have hw₁ := ((rtFotaEraseAppPart_keepsAt htok ht).ok happ).1
  obtain ⟨hprog, hsame⟩ := rtFotaUpgrade_erased hpart happ hrun
  rw [hw₁.head] at hsame
  rw [← hflash]
  rcases hreason with h | h | ⟨new, hnew, herases⟩
  · exact hsame (.inl h)
  · exact hsame (.inr h)
  · -- an operation behind the erase would be a page program, and there is none
    obtain ⟨newE, hE, -⟩ := hw₁.ops
    obtain ⟨newP, hP, hpages, hnil⟩ := hprog
    refine hnil (List.eq_nil_iff_forall_not_mem.mpr fun op hop => ?_)
    have hsplit : new = newP ++ newE := by
      refine @List.append_cancel_right _ new w.ops _ ?_
      rw [← hnew, hP, hE, List.append_assoc]
    obtain ⟨s, hs⟩ := herases op (by rw [hsplit]; exact List.mem_append_left _ hop)
    obtain ⟨addr, size, hpage⟩ := hpages op hop
    rw [hs] at hpage
    cases hpage

/-- **A refused image leaves the flash alone if and only if its size was the reason or the sectors
    it asks for were erased before.** -/
theorem refusal_spares_flash_iff {env : Env} (henv : env.OnBoard) (hrom : env.rom.Confined)
    {partName : Option (List Byte)} {t : FalPartition} {w₀ w w' : World} {err : Int}
    (hverify : rtFotaPartFwVerify env partName w₀ = .ok rtFotaNoErr w)
    (ht : falPartitionFind env w.fotaPartHead.appPartName = some t)
    (hrun : rtFotaUpgrade env partName w = .ok err w') (hrefused : ImageRefused env t w err w') :
    w'.flash = w.flash ↔ t.len < w.fotaPartHead.rawSize ∨ ErasedBefore t w := by
  have htok := henv.tableOk.find ht
  by_cases hsize : t.len < w.fotaPartHead.rawSize
  · have hend : w' = w := by
      have h := rtFotaUpgrade_badSize htok ht (.inr hsize) partName
      unfold final at h
      rw [hrun] at h
      exact h
    rw [hend]
    exact ⟨fun _ => .inl hsize, fun _ => rfl⟩
  · obtain ⟨herr, hreason⟩ := hrefused.2.resolve_left hsize
    obtain ⟨res, w₁, hver, -, -, hout, -⟩ := rtFotaPartFwVerify_spec env partName w₀
    rw [hverify] at hver
    cases hver
    obtain ⟨-, -, name, part, rfl, hacc⟩ := hout.resolve_right fun h => h.1 rfl
    have hfind : (some name).bind (falPartitionFind env) = some part := hacc.find
    have hw' := refusal_erases hrom hfind htok ht hrun herr
      (hreason.imp_right fun h => h.imp_right fun h => h.1)
    rw [hw', eraseRange_eq_self]
    exact ⟨.inr, fun h => h.resolve_left hsize⟩

/-- A one-byte image under XOR, which the bootloader does not have. -/
def xorImage : HeadFields where
  fotaAlgo := 1
  appPartName := appPart.name
  downloadVersion := cStr ['2']
  currentVersion := cStr ['1']
  codeCrc := rtFotaCrc []
  rawSize := 1
  comSize := 0

/-- Its upgrade erases the first sector of the application partition and refuses. -/
theorem rtFotaUpgrade_xorImage {w : World} (hw : w.fotaPartHead = packHead xorImage) :
    ∃ w', rtFotaUpgrade Env.board (some downloadPart.name) w = .ok rtFotaGeneralErr w' ∧
      w'.flash = eraseRange appPart.base 1 w.flash := by
  have hfind : falPartitionFind Env.board w.fotaPartHead.appPartName = some appPart := by
    rw [hw]
    decide
  have hraw : w.fotaPartHead.rawSize = 1 := by
    rw [hw, packHead_rawSize]
    rfl
  have hcrypt : w.fotaPartHead.crypt = rtFotaCryptAlgoXor := by
    rw [hw]
    decide +kernel
  have herase := rtFotaEraseAppPart_good Env.board_good.erases (falPartTable_ok appPart (by decide)) hfind
    (by rw [hraw]) (by rw [hraw]; decide)
  obtain ⟨w₁, hbuf, hcalm⟩ := @rtMalloc_ok Env.board (fun _ => rfl) rtFotaAlgoBuffSize
    (w.erased appPart w.fotaPartHead.rawSize)
  refine ⟨w₁, withExit_exit (bind_error ?_), by rw [hcalm.flash, World.erased, hraw]; rfl⟩
  have hname : (some downloadPart.name).bind (falPartitionFind Env.board) = some downloadPart :=
    Env.board_onBoard.find_name (by decide)
  unfold upgradeSetup
  simp only [hname]
  rw [bind_ok herase, if_neg (not_not.mpr rfl), get_bind, bind_ok hbuf]
  refine bind_error ?_
  unfold setupCrypt
  rw [if_neg, if_pos]
  · rfl
  · exact hcrypt
  · show w.fotaPartHead.crypt ≠ rtFotaCryptAlgoAes256
    rw [hcrypt]
    decide

theorem refusal_spares_flash_iff_erased :
    ∃ w w', rtFotaPartFwVerify Env.board (some downloadPart.name)
        (.powerOn (imageAt downloadPart xorImage [] fun _ => 0xff)) = .ok rtFotaNoErr w ∧
      rtFotaUpgrade Env.board (some downloadPart.name) w = .ok rtFotaGeneralErr w' ∧
      w'.flash = w.flash := by
  obtain ⟨w, hverify, hflash, hw, -⟩ := @verify_imageAt Env.board Env.board_onBoard rfl downloadPart
    (by decide) xorImage [] (fun _ => 0xff) (by decide) rfl rfl (by decide)
  obtain ⟨w', hrun, -⟩ := rtFotaUpgrade_xorImage hw
  have hcrypt : w.fotaPartHead.crypt = rtFotaCryptAlgoXor := by
    rw [hw]
    decide +kernel
  have hraw : w.fotaPartHead.rawSize = 1 := by
    rw [hw, packHead_rawSize]
    rfl
  refine ⟨w, w', hverify, hrun, ?_⟩
  refine (refusal_spares_flash_iff (t := appPart) Env.board_onBoard norRom_confined hverify
    (by rw [hw]; decide) hrun ⟨by decide, .inr ⟨by decide, .inl hcrypt⟩⟩).mpr (.inr ?_)
  intro a _ h₂
  rw [hraw] at h₂
  rw [hflash]
  exact imageAt_outside (by decide) (.inl (Nat.lt_of_lt_of_le h₂ (by decide)))

theorem refusal_erases_target :
    ¬ ∀ (env : Env) (partName : Option (List Byte)) (t : FalPartition) (w₀ w w' : World)
      (err : Int), env.OnBoard → env.rom.Confined →
      rtFotaPartFwVerify env partName w₀ = .ok rtFotaNoErr w →
      falPartitionFind env w.fotaPartHead.appPartName = some t →
      rtFotaUpgrade env partName w = .ok err w' → ImageRefused env t w err w' →
      w'.flash = w.flash := by
  intro h
  obtain ⟨w, hverify, hflash, hw, -⟩ := @verify_imageAt Env.board Env.board_onBoard rfl downloadPart
    (by decide) xorImage [] (fun _ => 0) (by decide) rfl rfl (by decide)
  obtain ⟨w', hrun, hw'⟩ := rtFotaUpgrade_xorImage hw
  have hcrypt : w.fotaPartHead.crypt = rtFotaCryptAlgoXor := by
    rw [hw]
    decide +kernel
  have hkeep := h Env.board (some downloadPart.name) appPart _ w w' _ rfl norRom_confined hverify
    (by rw [hw]; decide) hrun ⟨by decide, .inr ⟨by decide, .inl hcrypt⟩⟩
  -- the first byte of the application partition, a zero, reads 0xff afterwards
  have hfirst := congrFun hkeep appPart.base
  rw [hw', hflash] at hfirst
  revert hfirst
  decide +kernel

end Mh1903
