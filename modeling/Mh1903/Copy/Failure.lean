/-
  File:      Mh1903/Copy/Failure.lean
  Subject:   WHY AN UPGRADE FAILS. `rt_fota_upgrade` returns an error exactly where one of its steps
             fails: a sector erase, an allocation, the read of a chunk, the decompression of a block,
             a write; or where it knows no such algorithm, or the body holds too little.

  * `Exits x w` -- the run leaves by a `goto __exit_…`;
  * `SetupFault`, `DeliverFault`, `PassFault`, `TailFault`, `CopyFault` -- what fails, from the
    allocations to the end of the loops;
  * `UpgradeFault` -- all of it, from the first sector on;
  * `OpsKept w w'` -- what was executed before `w` is still recorded in `w'`.
-/
import Mh1903.Copy.Ends
import Mh1903.Copy.Setup
import Mh1903.Frame.Steps

namespace Mh1903

open Library

/-! ## 1. Leaving by a `goto` -/

def Exits {α : Type} (x : M α) (w : World) : Prop := Fails x w fun e => ∃ err, e = .exit err

theorem exits_exit {α β : Type} (err : Int) (f : α → M β) (w : World) :
    Exits ((exit err : M α) >>= f) w := fails_throw_bind ⟨err, rfl⟩

/-- Nothing stops with an error code that only has other reasons to. -/
theorem not_exits {α : Type} {x : M α} (h : Stops x NoExit) (w : World) : ¬ Exits x w :=
  not_fails_of_stops (h.mono fun _ hno ⟨err, he⟩ => hno err he)

/-- Allocations for the cipher. -/
def RtFotaPartHead.cryptBuffers (h : RtFotaPartHead) : Nat :=
  if h.crypt = rtFotaCryptAlgoAes256 then 2 else 0

/-- Allocations for the decompressor. -/
def RtFotaPartHead.cmprsBuffers (h : RtFotaPartHead) : Nat :=
  if h.cmprs = rtFotaCmprsAlgoFastlz then 2
  else if h.cmprs = rtFotaCmprsAlgoQuicklz then 3
  else 0

/-- The setup behind the erase fails, where `allocs` allocations were made before. -/
inductive SetupFault (env : Env) (h : RtFotaPartHead) (allocs : Nat) : Prop
  | memory {n : Nat} : n < 1 + h.cryptBuffers + h.cmprsBuffers →
      env.mallocOk (allocs + n) = false → SetupFault env h allocs
  | xor : h.crypt = rtFotaCryptAlgoXor → SetupFault env h allocs
  | gzip : h.cmprs = rtFotaCmprsAlgoGzip → SetupFault env h allocs

/-- The next `n` allocations return memory. -/
def Allocates (env : Env) (allocs n : Nat) : Prop := ∀ i < n, env.mallocOk (allocs + i) = true

theorem not_allocates {env : Env} {allocs n i : Nat} (hi : i < n)
    (h : env.mallocOk (allocs + i) = false) : ¬ Allocates env allocs n := by
  intro hmem
  rw [hmem i hi] at h
  cases h

theorem allocates_add {env : Env} {allocs m n : Nat} :
    Allocates env allocs (m + n) ↔ Allocates env allocs m ∧ Allocates env (allocs + m) n := by
  constructor
  · intro h
    refine ⟨fun i hi => h i (by omega), fun i hi => ?_⟩
    rw [Nat.add_assoc]
    exact h (m + i) (by omega)
  · rintro ⟨hm, hn⟩ i hi
    by_cases him : i < m
    · exact hm i him
    · obtain ⟨k, rfl⟩ := Nat.exists_eq_add_of_le (not_lt.mp him)
      rw [← Nat.add_assoc]
      exact hn k (by omega)

theorem setupFault_iff {env : Env} {h : RtFotaPartHead} {allocs : Nat} :
    SetupFault env h allocs ↔
      ¬ (Allocates env allocs (1 + h.cryptBuffers + h.cmprsBuffers) ∧
        h.crypt ≠ rtFotaCryptAlgoXor ∧ h.cmprs ≠ rtFotaCmprsAlgoGzip) := by
  constructor
  · rintro hfault ⟨hmem, hxor, hgzip⟩
    cases hfault with
    | memory hn hno =>
        rw [hmem _ hn] at hno
        cases hno
    | xor hx => exact hxor hx
    | gzip hg => exact hgzip hg
  · intro hno
    by_cases hxor : h.crypt = rtFotaCryptAlgoXor
    · exact .xor hxor
    by_cases hgzip : h.cmprs = rtFotaCmprsAlgoGzip
    · exact .gzip hgzip
    obtain ⟨n, hn⟩ := not_forall.mp fun hmem => hno ⟨hmem, hxor, hgzip⟩
    rw [Classical.not_imp, Bool.not_eq_true] at hn
    exact .memory hn.1 hn.2

section Setup

variable {env : Env} {w : World}

/-- One allocation, and the rest of a block of them. -/
theorem leads_rtMalloc {α : Type} {size : Nat} {f : Option (List Byte) → M α}
    {Q : α → World → Prop} {E : Stop → World → Prop}
    (hyes : env.mallocOk w.allocs = true → Leads (f (some ((List.range size).map env.memory)))
      { w with allocs := w.allocs + 1 } Q E)
    (hno : env.mallocOk w.allocs = false → Leads (f none) { w with allocs := w.allocs + 1 } Q E) :
    Leads (rtMalloc env size >>= f) w Q E := by
  rw [leads_bind]
  unfold rtMalloc
  rw [leads_bind, leads_get, leads_bind, leads_modify, leads_ite]
  refine ⟨fun hok => leads_pure.mpr (hyes hok), fun hok => leads_pure.mpr (hno ?_)⟩
  exact Bool.eq_false_iff.mpr hok

/-- The cipher is set up, with its allocations made, or they or the algorithm failed. -/
theorem setupCrypt_leads (h : RtFotaPartHead) (w : World) :
    Leads (setupCrypt env h) w
      (fun _ w' => w'.allocs = w.allocs + h.cryptBuffers ∧
        Allocates env w.allocs h.cryptBuffers ∧ h.crypt ≠ rtFotaCryptAlgoXor)
      (fun e _ => (∃ err, e = .exit err) ∧
        ¬ (Allocates env w.allocs h.cryptBuffers ∧ h.crypt ≠ rtFotaCryptAlgoXor)) := by
  unfold setupCrypt RtFotaPartHead.cryptBuffers
  by_cases haes : h.crypt = rtFotaCryptAlgoAes256
  · rw [if_pos haes, if_pos haes]
    have hxor : h.crypt ≠ rtFotaCryptAlgoXor := by
      rw [haes]
      decide
    refine leads_rtMalloc (fun h₁ => ?_) fun h₁ => ?_
    · refine leads_rtMalloc (fun h₂ => ?_) fun h₂ => ?_
      · have hsome : ∀ bs cs : List Byte,
            ¬ ((some bs : Option (List Byte)) = none ∨ some cs = none) :=
          fun _ _ h => h.elim (Option.some_ne_none _) (Option.some_ne_none _)
        rw [if_neg (hsome _ _)]
        refine leads_pure.mpr ⟨rfl, fun i hi => ?_, hxor⟩
        rcases (show i = 0 ∨ i = 1 by omega) with rfl | rfl
        · exact h₁
        · exact h₂
      · rw [if_pos (.inr rfl), leads_bind]
        exact leads_throw.mpr ⟨⟨_, rfl⟩, fun hmem => not_allocates (i := 1) (by decide) h₂ hmem.1⟩
    · refine leads_rtMalloc (fun h₂ => ?_) fun h₂ => ?_
      all_goals
        rw [if_pos (.inl rfl), leads_bind]
        exact leads_throw.mpr ⟨⟨_, rfl⟩, fun hmem => not_allocates (i := 0) (by decide) h₁ hmem.1⟩
  · rw [if_neg haes, if_neg haes, leads_ite]
    refine ⟨fun hxor => leads_throw.mpr ⟨⟨_, rfl⟩, fun hno => hno.2 hxor⟩, fun hxor => ?_⟩
    exact leads_pure.mpr ⟨rfl, fun i hi => absurd hi (Nat.not_lt_zero i), hxor⟩

/-- Likewise the buffers of the decompressor. -/
theorem setupCmprs_leads (h : RtFotaPartHead) (w : World) :
    Leads (setupCmprs env h) w
      (fun _ _ => Allocates env w.allocs h.cmprsBuffers ∧ h.cmprs ≠ rtFotaCmprsAlgoGzip)
      (fun e _ => (∃ err, e = .exit err) ∧
        ¬ (Allocates env w.allocs h.cmprsBuffers ∧ h.cmprs ≠ rtFotaCmprsAlgoGzip)) := by
  unfold setupCmprs RtFotaPartHead.cmprsBuffers
  by_cases hf : h.cmprs = rtFotaCmprsAlgoFastlz
  · rw [if_pos hf, if_pos hf]
    have hgzip : h.cmprs ≠ rtFotaCmprsAlgoGzip := by
      rw [hf]
      decide
    refine leads_rtMalloc (fun h₁ => ?_) fun h₁ => ?_
    · refine leads_rtMalloc (fun h₂ => ?_) fun h₂ => ?_
      · refine leads_pure.mpr ⟨fun i hi => ?_, hgzip⟩
        rcases (show i = 0 ∨ i = 1 by omega) with rfl | rfl
        · exact h₁
        · exact h₂
      · exact leads_throw.mpr ⟨⟨_, rfl⟩, fun hmem => not_allocates (i := 1) (by decide) h₂ hmem.1⟩
    · refine leads_rtMalloc (fun h₂ => ?_) fun h₂ => ?_
      all_goals
        exact leads_throw.mpr ⟨⟨_, rfl⟩, fun hmem => not_allocates (i := 0) (by decide) h₁ hmem.1⟩
  rw [if_neg hf, if_neg hf]
  by_cases hq : h.cmprs = rtFotaCmprsAlgoQuicklz
  · rw [if_pos hq, if_pos hq]
    have hgzip : h.cmprs ≠ rtFotaCmprsAlgoGzip := by
      rw [hq]
      decide
    refine leads_rtMalloc (fun h₁ => ?_) fun h₁ => ?_
    · refine leads_rtMalloc (fun h₂ => ?_) fun h₂ => ?_
      · refine leads_rtMalloc (fun h₃ => ?_) fun h₃ => ?_
        · refine leads_pure.mpr ⟨fun i hi => ?_, hgzip⟩
          rcases (show i = 0 ∨ i = 1 ∨ i = 2 by omega) with rfl | rfl | rfl
          · exact h₁
          · exact h₂
          · exact h₃
        · exact leads_throw.mpr
            ⟨⟨_, rfl⟩, fun hmem => not_allocates (i := 2) (by decide) h₃ hmem.1⟩
      · refine leads_rtMalloc (fun h₃ => ?_) fun h₃ => ?_
        all_goals
          exact leads_throw.mpr
            ⟨⟨_, rfl⟩, fun hmem => not_allocates (i := 1) (by decide) h₂ hmem.1⟩
    · refine leads_rtMalloc (fun h₂ => ?_) fun h₂ => ?_
      all_goals
        refine leads_rtMalloc (fun h₃ => ?_) fun h₃ => ?_
        all_goals
          exact leads_throw.mpr
            ⟨⟨_, rfl⟩, fun hmem => not_allocates (i := 0) (by decide) h₁ hmem.1⟩
  · rw [if_neg hq, if_neg hq, leads_ite]
    refine ⟨fun hgzip => leads_throw.mpr ⟨⟨_, rfl⟩, fun hno => hno.2 hgzip⟩, fun hgzip => ?_⟩
    exact leads_pure.mpr ⟨fun i hi => absurd hi (Nat.not_lt_zero i), hgzip⟩

variable {w₁ : World} {partName : Option (List Byte)} {part : FalPartition}

/-- **Behind the erase the setup fails exactly so.** -/
theorem upgradeSetup_exits_iff (hpart : partName.bind (falPartitionFind env) = some part)
    (herase : rtFotaEraseAppPart env w = .ok rtFotaNoErr w₁) :
    Exits (upgradeSetup env partName) w ↔ SetupFault env w₁.fotaPartHead w₁.allocs := by
  have hleads : Leads (upgradeSetup env partName) w
      (fun _ _ => ¬ SetupFault env w₁.fotaPartHead w₁.allocs)
      (fun e _ => (∃ err, e = .exit err) ∧ SetupFault env w₁.fotaPartHead w₁.allocs) := by
    unfold upgradeSetup
    simp only [hpart]
    rw [leads_bind]
    refine leads_of_ok herase ?_
    rw [if_neg (not_not.mpr rfl), leads_bind, leads_get]
    simp only [setupFault_iff, not_not, allocates_add, ← Nat.add_assoc]
    refine leads_rtMalloc (fun hbuf => ?_) fun hbuf => ?_
    · have hone : Allocates env w₁.allocs 1 := by
        intro i hi
        rw [show i = 0 by omega]
        exact hbuf
      simp only
      rw [leads_bind]
      refine (setupCrypt_leads _ _).mono (fun aesIv w₂ hcrypt => ?_) fun e w₂ hcrypt =>
        ⟨hcrypt.1, fun hno => hcrypt.2 ⟨hno.1.1.2, hno.2.1⟩⟩
      obtain ⟨hallocs, hmem, hxor⟩ := hcrypt
      rw [leads_bind]
      refine (setupCmprs_leads _ _).mono (fun bufs w₃ hcmprs => ?_) fun e w₃ hcmprs =>
        ⟨hcmprs.1, fun hno => hcmprs.2 ⟨?_, hno.2.2⟩⟩
      · obtain ⟨hmem', hgzip⟩ := hcmprs
        rw [hallocs] at hmem'
        exact leads_pure.mpr ⟨⟨⟨hone, hmem⟩, hmem'⟩, hxor, hgzip⟩
      · rw [hallocs]
        exact hno.1.2
    · exact leads_throw.mpr ⟨⟨_, rfl⟩, fun hno => not_allocates (i := 0) Nat.one_pos hbuf hno.1.1.1⟩
  cases hrun : upgradeSetup env partName w with
  | ok r w₂ => exact ⟨fun hx => absurd hx (not_fails_of_ok hrun), fun hf => absurd hf (hleads.ok hrun)⟩
  | error e w₂ =>
      obtain ⟨he, hf⟩ := hleads.error hrun
      exact ⟨fun _ => hf, fun _ => ⟨e, w₂, hrun, he⟩⟩

end Setup

/-! ## 3. Passes -/

/-- The write of `len` bytes of `buf` at the running total fails. -/
def WriteFault (env : Env) (buf : List Byte) (len : Nat) (st : CopyState) (w : World) : Prop :=
  ∃ ret w', rtFotaWriteAppPart env st.totalCopySize buf len w = .ok ret w' ∧ ret < 0

/-- The block at hand is not delivered: it decompresses to nothing, or its write fails. -/
inductive DeliverFault (env : Env) (c : CopyCtx) (st : CopyState) (w : World) : Prop
  | decompress {st₁ : CopyState} {w₁ : World} : decompressBlock env c st w = .ok st₁ w₁ →
      st₁.dcprsSize = 0 → DeliverFault env c st w
  | write {st₁ : CopyState} {w₁ : World} : decompressBlock env c st w = .ok st₁ w₁ →
      st₁.dcprsSize ≠ 0 → WriteFault env st₁.dcprsBuff st₁.dcprsSize st₁ w₁ →
      DeliverFault env c st w

/-- A pass of the main loop fails: a chunk cannot be read, or what was read not be delivered. -/
inductive PassFault (env : Env) (c : CopyCtx) (st : CopyState) (w : World) : Prop
  | fetch : c.partHead.cmprs ≠ rtFotaCryptAlgoNone → Exits (fetchBlock env c st) w →
      PassFault env c st w
  | deliver {st₁ : CopyState} {w₁ : World} : c.partHead.cmprs ≠ rtFotaCryptAlgoNone →
      fetchBlock env c st w = .ok st₁ w₁ → DeliverFault env c st₁ w₁ → PassFault env c st w
  | read : c.partHead.cmprs = rtFotaCryptAlgoNone → Exits (readChunk env c st) w →
      PassFault env c st w
  | write {st₁ : CopyState} {w₁ : World} : c.partHead.cmprs = rtFotaCryptAlgoNone →
      readChunk env c st w = .ok st₁ w₁ → WriteFault env st₁.cryptBuf st₁.fwRawLen st₁ w₁ →
      PassFault env c st w

section Passes

variable {env : Env} {c : CopyCtx} {st : CopyState} {w : World}

theorem writeOut_exits_iff (buf : List Byte) (len : Nat) :
    Exits (writeOut env buf len st) w ↔ WriteFault env buf len st w := by
  have hcall : ¬ Exits (rtFotaWriteAppPart env st.totalCopySize buf len) w :=
    not_exits (withExit_stops _) w
  constructor
  · intro h
    obtain ⟨ret, w', hret, h⟩ := (fails_bind.mp h).resolve_left hcall
    rcases fails_ite.mp h with ⟨hneg, -⟩ | ⟨-, h⟩
    · exact ⟨ret, w', hret, hneg⟩
    · exact absurd h not_fails_pure
  · rintro ⟨ret, w', hret, hneg⟩
    refine (fails_bind_ok hret).mpr ?_
    rw [if_pos hneg]
    exact exits_exit _ _ _

theorem decompressBlock_stops : Stops (decompressBlock env c st) NoExit := by
  have hstore : ∀ buf off data, Stops (store buf off data) NoExit := fun _ _ _ =>
    stops_ite (stops_bind (stops_modify _) fun _ => stops_throw_bind fun _ => Stop.noConfusion)
      (stops_pure _)
  refine stops_bind (hstore _ _ _) fun buf => ?_
  split
  · exact stops_pure _
  · exact stops_bind (load_stops _ _ _) fun _ => stops_bind (hstore _ _ _) fun _ => stops_pure _

theorem deliverBlock_exits_iff :
    Exits (deliverBlock env c st) w ↔ DeliverFault env c st w := by
  constructor
  · intro h
    obtain ⟨st₁, w₁, hdec, h⟩ := (fails_bind.mp h).resolve_left (not_exits decompressBlock_stops w)
    by_cases hzero : st₁.dcprsSize = 0
    · exact .decompress hdec hzero
    · rw [if_neg hzero] at h
      exact .write hdec hzero ((writeOut_exits_iff _ _).mp h)
  · intro h
    cases h with
    | decompress hdec hzero =>
        refine (fails_bind_ok hdec).mpr ?_
        rw [if_pos hzero]
        exact exits_exit _ _ _
    | write hdec hne hwrite =>
        refine (fails_bind_ok hdec).mpr ?_
        rw [if_neg hne]
        exact (writeOut_exits_iff _ _).mpr hwrite

/-- **A pass of the main loop** leaves by a `goto` exactly so. -/
theorem copyStep_exits_iff : Exits (copyStep env c st) w ↔ PassFault env c st w := by
  unfold copyStep
  constructor
  · intro h
    rcases fails_ite.mp h with ⟨hne, h⟩ | ⟨hnone, h⟩
    · rcases fails_bind.mp h with h | ⟨st₁, w₁, hfetch, h⟩
      · exact .fetch hne h
      · exact .deliver hne hfetch (deliverBlock_exits_iff.mp h)
    · rcases fails_bind.mp h with h | ⟨st₁, w₁, hread, h⟩
      · exact .read (not_not.mp hnone) h
      · exact .write (not_not.mp hnone) hread ((writeOut_exits_iff _ _).mp h)
  · intro h
    cases h with
    | fetch hne h => exact fails_ite.mpr (.inl ⟨hne, fails_bind.mpr (.inl h)⟩)
    | deliver hne hfetch h =>
        exact fails_ite.mpr (.inl ⟨hne, (fails_bind_ok hfetch).mpr (deliverBlock_exits_iff.mpr h)⟩)
    | read hnone h =>
        exact fails_ite.mpr (.inr ⟨not_not.mpr hnone, fails_bind.mpr (.inl h)⟩)
    | write hnone hread h =>
        exact fails_ite.mpr
          (.inr ⟨not_not.mpr hnone, (fails_bind_ok hread).mpr ((writeOut_exits_iff _ _).mpr h)⟩)

end Passes

/-! ## 4. The loops -/

/-- The tail loop fails: a block of the last chunk is not delivered, or none is left and the total is
    too small. -/
inductive TailFault (env : Env) (c : CopyCtx) : CopyState → World → Prop
  | block {st : CopyState} {w : World} : st.totalCopySize < c.partHead.rawSize →
      Exits (tailStep env c st) w → TailFault env c st w
  | short {st : CopyState} {w w₁ : World} : st.totalCopySize < c.partHead.rawSize →
      tailStep env c st w = .ok none w₁ → TailFault env c st w
  | later {st st₁ : CopyState} {w w₁ : World} : st.totalCopySize < c.partHead.rawSize →
      tailStep env c st w = .ok (some st₁) w₁ → TailFault env c st₁ w₁ → TailFault env c st w

/-- The copy fails: in a pass of the main loop, or behind it. -/
inductive CopyFault (env : Env) (c : CopyCtx) : CopyState → World → Prop
  | pass {st : CopyState} {w : World} : st.fwRawPos < c.partHead.comSize →
      PassFault env c st w → CopyFault env c st w
  | later {st st₁ : CopyState} {w w₁ : World} : st.fwRawPos < c.partHead.comSize →
      copyStep env c st w = .ok st₁ w₁ → CopyFault env c st₁ w₁ → CopyFault env c st w
  | short {st : CopyState} {w : World} : c.partHead.comSize ≤ st.fwRawPos →
      c.partHead.cmprs = rtFotaCryptAlgoNone → st.totalCopySize < c.partHead.rawSize →
      CopyFault env c st w
  | tail {st : CopyState} {w : World} : c.partHead.comSize ≤ st.fwRawPos →
      c.partHead.cmprs ≠ rtFotaCryptAlgoNone → TailFault env c st w → CopyFault env c st w

section Loops

variable {env : Env} {c : CopyCtx} {st : CopyState} {w : World}

/-- The last check of `rt_fota_upgrade`. -/
def checkTotal (c : CopyCtx) (totalCopySize : Nat) : M Int := do
  if totalCopySize < c.partHead.rawSize then
    exit rtFotaGeneralErr
  pure rtFotaNoErr

/-- What comes behind the main loop. -/
def behindLoop (env : Env) (c : CopyCtx) (st : CopyState) : M Int :=
  if c.partHead.cmprs ≠ rtFotaCryptAlgoNone then tailLoop env c tailFuel st >>= checkTotal c
  else checkTotal c st.totalCopySize

theorem upgradeCopy_behind : upgradeCopy env c st =
    copyLoop env c (copyFuel c.partHead.comSize) st >>= behindLoop env c := by
  unfold upgradeCopy
  refine bind_congr fun st => ?_
  unfold behindLoop checkTotal
  split
  · rfl
  · exact pure_bind _ _

theorem checkTotal_exits_iff {total : Nat} :
    Exits (checkTotal c total) w ↔ total < c.partHead.rawSize := by
  unfold checkTotal
  constructor
  · intro h
    rcases fails_ite.mp h with ⟨hlt, -⟩ | ⟨-, h⟩
    · exact hlt
    · exact absurd h not_fails_pure
  · intro hlt
    rw [if_pos hlt]
    exact exits_exit _ _ _

theorem TailFault.not_ok (h : TailFault env c st w) (fuel : Nat) (r : Int) (w' : World) :
    (tailLoop env c fuel st >>= checkTotal c) w ≠ .ok r w' := by
  induction h generalizing fuel with
  | @block st w hlt hexit =>
      cases fuel with
      | zero => exact fun hrun => by cases hrun
      | succ fuel =>
          unfold tailLoop
          rw [if_pos hlt, bind_assoc]
          exact fun hrun => not_fails_of_ok hrun (fails_bind.mpr (.inl hexit))
  | @short st w w₁ hlt hstep =>
      cases fuel with
      | zero => exact fun hrun => by cases hrun
      | succ fuel =>
          unfold tailLoop
          rw [if_pos hlt, bind_assoc, bind_ok hstep]
          exact fun hrun => not_fails_of_ok hrun (checkTotal_exits_iff.mpr hlt)
  | @later st st₁ w w₁ hlt hstep _ ih =>
      cases fuel with
      | zero => exact fun hrun => by cases hrun
      | succ fuel =>
          unfold tailLoop
          rw [if_pos hlt, bind_assoc, bind_ok hstep]
          exact ih fuel

theorem CopyFault.not_ok (h : CopyFault env c st w) (fuel : Nat) (r : Int) (w' : World) :
    (copyLoop env c fuel st >>= behindLoop env c) w ≠ .ok r w' := by
  induction h generalizing fuel with
  | @pass st w hlt hpass =>
      cases fuel with
      | zero => exact fun hrun => by cases hrun
      | succ fuel =>
          unfold copyLoop
          rw [if_pos hlt, bind_assoc]
          exact fun hrun => not_fails_of_ok hrun (fails_bind.mpr (.inl (copyStep_exits_iff.mpr hpass)))
  | @later st st₁ w w₁ hlt hstep _ ih =>
      cases fuel with
      | zero => exact fun hrun => by cases hrun
      | succ fuel =>
          unfold copyLoop
          rw [if_pos hlt, bind_assoc, bind_ok hstep]
          exact ih fuel
  | @short st w hge hnone hshort =>
      cases fuel with
      | zero => exact fun hrun => by cases hrun
      | succ fuel =>
          unfold copyLoop behindLoop
          rw [if_neg (not_lt.mpr hge), pure_bind, if_neg (not_not.mpr hnone)]
          exact fun hrun => not_fails_of_ok hrun (checkTotal_exits_iff.mpr hshort)
  | @tail st w hge hne htail =>
      cases fuel with
      | zero => exact fun hrun => by cases hrun
      | succ fuel =>
          unfold copyLoop behindLoop
          rw [if_neg (not_lt.mpr hge), pure_bind, if_pos hne]
          exact htail.not_ok _ _ _

end Loops

/-! ## 5. The whole upgrade -/

/-- A step of the upgrade fails, from the first sector of the target `t` on. -/
inductive UpgradeFault (env : Env) (partName : Option (List Byte)) (t : FalPartition) (w : World) :
    Prop
  | erase {ret : Int} {w₁ : World} : falPartitionErase env t 0 w.fotaPartHead.rawSize w = .ok ret w₁ →
      ret < 0 → UpgradeFault env partName t w
  | setup {w₁ : World} : rtFotaEraseAppPart env w = .ok rtFotaNoErr w₁ →
      SetupFault env w₁.fotaPartHead w₁.allocs → UpgradeFault env partName t w
  | copy {r : CopyCtx × CopyState} {w₁ : World} : upgradeSetup env partName w = .ok r w₁ →
      CopyFault env r.1 r.2 w₁ → UpgradeFault env partName t w

section Upgrade

variable {env : Env} {partName : Option (List Byte)} {part t : FalPartition} {w w' : World}

/-- The erase of the target fails with its partition. -/
theorem rtFotaEraseAppPart_failed {w₁ : World} {ret : Int}
    (hfind : falPartitionFind env w.fotaPartHead.appPartName = some t)
    (herase : falPartitionErase env t 0 w.fotaPartHead.rawSize w = .ok ret w₁) (hneg : ret < 0) :
    rtFotaEraseAppPart env w = .ok rtFotaPartEraseErr w₁ := by
  refine withExit_exit ?_
  rw [get_bind]
  simp only [hfind]
  rw [bind_ok herase, if_pos hneg]
  rfl

/-- Behind a failing step the setup or the copy does not return. -/
theorem UpgradeFault.not_ok (hpart : partName.bind (falPartitionFind env) = some part)
    (hfind : falPartitionFind env w.fotaPartHead.appPartName = some t)
    (h : UpgradeFault env partName t w) {r : CopyCtx × CopyState} {w₁ : World} {res : Int}
    (hsetup : upgradeSetup env partName w = .ok r w₁) :
    upgradeCopy env r.1 r.2 w₁ ≠ .ok res w' := by
  cases h with
  | erase herase hneg =>
      have happ := rtFotaEraseAppPart_failed hfind herase hneg
      unfold upgradeSetup at hsetup
      simp only [hpart] at hsetup
      rw [bind_ok happ, if_pos (by decide)] at hsetup
      cases hsetup
  | setup herase hfault =>
      exact absurd ((upgradeSetup_exits_iff hpart herase).mpr hfault) (not_fails_of_ok hsetup)
  | copy hsetup' hfault =>
      rw [hsetup] at hsetup'
      cases hsetup'
      rw [upgradeCopy_behind]
      exact hfault.not_ok _ _ _

end Upgrade

/-! ## 6. The first sector -/

def OpsKept (w w' : World) : Prop := ∀ op ∈ w.ops, op ∈ w'.ops

instance : Std.Refl OpsKept := ⟨fun _ _ h => h⟩

instance : IsTrans World OpsKept := ⟨fun _ _ _ h₁ h₂ op h => h₂ op (h₁ op h)⟩

/-- The run leads to a state in which `op` was executed, unless the power fails. -/
def Executes {α : Type} (op : FlashOp) (x : M α) (w : World) : Prop :=
  Leads x w (fun _ w' => op ∈ w'.ops) fun e w' => e = .powerLoss ∨ op ∈ w'.ops

section Executes

variable {α β : Type} {op : FlashOp} {x : M α} {f : α → M β} {w : World}

theorem Executes.bind (h : Executes op x w) (hf : ∀ a, Keeps OpsKept (f a)) :
    Executes op (x >>= f) w := by
  unfold Executes
  rw [leads_bind]
  refine h.mono (fun a w' hop => ?_) fun _ _ h => h
  have hkept := hf a w'
  unfold final at hkept
  cases hrun : f a w' with
  | ok b w₁ =>
      rw [hrun] at hkept
      exact leads_of_ok hrun (hkept op hop)
  | error e w₁ =>
      rw [hrun] at hkept
      exact leads_of_error hrun (.inr (hkept op hop))

theorem Executes.withExit {body : M Int} (h : Executes op body w) : Executes op (withExit body) w :=
  leads_withExit (Leads.mono h (fun _ _ hop => hop) fun e w' he => ⟨fun err hexit => by
    rw [hexit] at he
    exact he.resolve_left Stop.noConfusion, he⟩)

end Executes

section First

variable {env : Env} {partName : Option (List Byte)} {part t : FalPartition} {w w' : World}

end First

end Mh1903
