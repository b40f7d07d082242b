/-
  File:      Mh1903/Boot/Once.lean
  Subject:   INSTALLED ONCE. After an upgrade and a copy of the version every later boot accepts the
             image and finds nothing new, provided the download version ends in its field; without
             an end the comparison runs into the next field and never finds the two equal.
-/
import Mh1903.Boot.Launch

namespace Mh1903

open Library RtFotaPartHead

/-! ## 1. Later boots -/

/-- What the flash may hold some time after `f`, if nobody but the bootloader writes the download
    partition: others wrote elsewhere, and boots ran with whatever faults. -/
inductive Later (f : Flash) : Flash → Prop
  | now : Later f f
  | others {g g' : Flash} : Later f g → (∀ a, downloadPart.Covers a → g' a = g a) → Later f g'
  | boot {g : Flash} (env : Env) : Later f g → env.OnBoard →
      Later f (final (rtFotaThreadEntry env) (.powerOn g)).flash

/-- In every later boot the image is accepted and not due, and no flash operation is executed. -/
def InstalledOnce (f : Flash) : Prop :=
  ∀ g, Later f g → ∀ env : Env, env.OnBoard →
    (∀ w : World, w.flash = g → env.mallocOk w.allocs = true →
      ∃ w', rtFotaPartFwVerify env (some rtFotaFmPartName) w = .ok rtFotaNoErr w' ∧
        rtFotaCheckUpgrade env w' = .ok 0 w') ∧
    (final (rtFotaThreadEntry env) (.powerOn g)).ops = []

/-- A valid image in the download partition that is not new, whatever lies behind its header. -/
structure Settled (f : Flash) : Prop where
  valid : ValidImage Env.board f downloadPart
  fit : ChunksFit downloadPart (headAt f downloadPart).comSize
  same : ∀ after, rtStrcmp ((headAt f downloadPart).downloadVersion ++ after)
    ((headAt f downloadPart).currentVersion ++ after) = 0

section Settled

variable {f g : Flash} {env : Env} {w : World}

/-- Only the download partition counts. -/
theorem Settled.congr (h : Settled f) (hfg : ∀ a, downloadPart.Covers a → g a = f a) :
    Settled g := by
  have hp := downloadPart_ok
  have hbase := hp.base_lt
  have hlen : 96 ≤ downloadPart.len := by decide
  have hfront : ∀ n ≤ 96, readFlash g downloadPart.base n = readFlash f downloadPart.base n :=
    fun n hn => readFlash_congr (by omega) fun a h₁ h₂ => hfg a ⟨h₁, by omega⟩
  have hhead : headAt g downloadPart = headAt f downloadPart := by
    unfold headAt
    congr 1
    exact hfront _ (Nat.le_refl _)
  obtain ⟨hcrc, htype, htarget, hfits, hcode⟩ := h.valid
  refine ⟨⟨?_, ?_, ?_, ?_, ?_⟩, ?_, ?_⟩
  · rw [hhead, hfront _ (by decide)]
    exact hcrc
  · rw [hhead]
    exact htype
  · rw [hhead]
    exact htarget
  · rw [hhead]
    exact hfits
  · rw [hhead, readFlash_body_congr hp hfg (by rw [Nat.add_zero]; exact hfits)]
    exact hcode
  · rw [hhead]
    exact h.fit
  · rw [hhead]
    exact h.same

theorem Settled.accepted (h : Settled f) (henv : env.OnBoard) :
    Accepted env f rtFotaFmPartName downloadPart (headAt f downloadPart) :=
  (accepted_iff downloadPart_ok henv.find_download).mpr
    ⟨h.valid.congr Env.board_onBoard henv, h.fit⟩

/-- The version check behind a successful verification finds nothing new. -/
theorem Settled.check (h : Settled w.flash) (henv : env.OnBoard) {w₁ : World}
    (hverify : rtFotaPartFwVerify env (some rtFotaFmPartName) w = .ok rtFotaNoErr w₁) :
    rtFotaCheckUpgrade env w₁ = .ok 0 w₁ := by
  obtain ⟨-, hhead, -, -⟩ :=
    rtFotaPartFwVerify_accepts downloadPart_ok henv.find_download hverify
  rw [rtFotaCheckUpgrade_eq, if_pos]
  rw [hhead]
  exact h.same _

/-- The download branch leaves flash and operations alone. -/
theorem Settled.downloadEntry (h : Settled w.flash) (henv : env.OnBoard) :
    ∃ run w', downloadEntry env w = .ok run w' ∧ w'.flash = w.flash ∧ w'.ops = w.ops := by
  obtain ⟨res, w₁, hverify, hflash, hops, -, -⟩ :=
    rtFotaPartFwVerify_spec env (some rtFotaFmPartName) w
  unfold Mh1903.downloadEntry
  rw [bind_ok hverify]
  by_cases hres : res = rtFotaNoErr
  · subst hres
    rw [if_neg (not_not.mpr rfl), bind_ok (h.check henv hverify), if_pos (Int.le_refl 0)]
    exact ⟨_, w₁, rfl, hflash, hops⟩
  · rw [if_pos hres]
    exact ⟨_, w₁, rfl, hflash, hops⟩

/-- On the board there is no default partition, so its branch is a failed verification. -/
theorem defaultEntry_board (henv : env.OnBoard) (w : World) :
    ∃ w', defaultEntry env w = .ok none w' ∧ w'.flash = w.flash ∧ w'.ops = w.ops := by
  obtain ⟨res, w', hverify, hflash, hops, hout, -⟩ :=
    rtFotaPartFwVerify_spec env (some rtFotaDfPartName) w
  have hres : res ≠ rtFotaNoErr := by
    rcases hout with ⟨-, -, name, part, hname, hacc⟩ | ⟨hne, -⟩
    · cases hname
      have hnone : falPartitionFind Env.board rtFotaDfPartName = none := by decide
      have hfind := hacc.find
      rw [henv.find_eq Env.board_onBoard, hnone] at hfind
      cases hfind
    · exact hne
  refine ⟨w', ?_, hflash, hops⟩
  unfold defaultEntry
  rw [bind_ok hverify, if_neg hres]
  rfl

theorem rtFotaStartApplication_quiet (env : Env) : Keeps Quiet (rtFotaStartApplication env) := by
  unfold rtFotaStartApplication
  split
  · exact keeps_pure _
  · refine keeps_bind keeps_get fun w => ?_
    exact keeps_ite (keeps_pure _) (keeps_ite (keeps_pure _) (keeps_pure _))

/-- **A boot on a settled flash** executes no flash operation. -/
theorem Settled.boot (h : Settled f) (henv : env.OnBoard) :
    (final (rtFotaThreadEntry env) (.powerOn f)).flash = f ∧
      (final (rtFotaThreadEntry env) (.powerOn f)).ops = [] := by
  have hw : Settled (World.powerOn f).flash := h
  obtain ⟨run, w₁, hboot, hflash, hops⟩ := hw.downloadEntry henv
  rw [← bootToLaunch_powerOn] at hboot
  have hstart := rtFotaStartApplication_quiet env
  have hlead : Leads (rtFotaThreadEntry env) (.powerOn f) (fun _ w' => w'.flash = f ∧ w'.ops = [])
      (fun _ w' => w'.flash = f ∧ w'.ops = []) := by
    unfold rtFotaThreadEntry
    rw [leads_bind]
    refine leads_of_ok hboot ?_
    rw [leads_bind]
    refine (hstart.at (returns_any _) w₁).leads.mono (fun l w₂ h₂ => ?_) fun _ w₂ h₂ => ?_
    · have h₂f : w₂.flash = f := h₂.1.flash.trans hflash
      have h₂o : w₂.ops = [] := h₂.1.ops.trans hops
      cases l with
      | jumped stack entry => exact leads_pure.mpr ⟨h₂f, h₂o⟩
      | returned err =>
          obtain ⟨w₃, hrun, h₃f, h₃o⟩ := defaultEntry_board henv w₂
          exact leads_of_ok hrun ⟨h₃f.trans h₂f, h₃o.trans h₂o⟩
    · exact ⟨h₂.flash.trans hflash, h₂.ops.trans hops⟩
  exact hlead.final

/-- Nothing that happens later unsettles the flash. -/
theorem Settled.later (h : Settled f) (hg : Later f g) : Settled g := by
  induction hg with
  | now => exact h
  | others _ hsame ih => exact ih.congr hsame
  | boot env _ henv ih =>
      rw [(ih.boot henv).1]
      exact ih

theorem Settled.installedOnce (h : Settled f) : InstalledOnce f := by
  intro g hg env henv
  have hset := h.later hg
  refine ⟨fun w hw hmem => ?_, (hset.boot henv).2⟩
  subst hw
  obtain ⟨w', hverify, -⟩ := (hset.accepted henv).verify hmem
  exact ⟨w', hverify, hset.check henv hverify⟩

end Settled

/-! ## 2. What the boot that installs leaves -/

/-- An upgrade of another partition leaves the download partition as it is. -/
theorem upgrade_keeps_download {env : Env} (henv : env.OnBoard) (hrom : env.rom.Confined)
    {w w' : World} {ret : Int}
    (hne : falPartitionFind env w.fotaPartHead.appPartName ≠ some downloadPart)
    (hupgrade : rtFotaUpgrade env (some rtFotaFmPartName) w = .ok ret w') (a : Nat)
    (ha : downloadPart.Covers a) : w'.flash a = w.flash a := by
  have hwithin := rtFotaUpgrade_within henv.tableOk (some rtFotaFmPartName) w
  unfold final at hwithin
  rw [hupgrade] at hwithin
  refine hwithin.flash hrom a ?_
  rintro ⟨t, hfind, hcov⟩
  refine falPartTable_disjoint (falPartitionFind_mem henv hfind) (by decide) (fun ht => hne ?_)
    hcov ha
  rw [hfind, ht]

/-- The download partition after the installation holds the image with its version copied. -/
theorem copiedFrom_installed {env : Env} (henv : env.OnBoard) (hrom : env.rom.Confined)
    {w₀ w₁ w₂ w₃ : World}
    (hverify : rtFotaPartFwVerify env (some rtFotaFmPartName) w₀ = .ok rtFotaNoErr w₁)
    (hne : falPartitionFind env w₁.fotaPartHead.appPartName ≠ some downloadPart)
    (hupgrade : rtFotaUpgrade env (some rtFotaFmPartName) w₁ = .ok rtFotaNoErr w₂)
    (hcopy : rtFotaCopyVersion env rtFotaFmPartName w₂ = .ok rtFotaNoErr w₃) :
    CopiedFrom downloadPart w₀.flash w₃.flash := by
  obtain ⟨hflash, -, -, -⟩ :=
    rtFotaPartFwVerify_accepts downloadPart_ok henv.find_download hverify
  obtain ⟨hlen, hfirst, hrest⟩ :=
    rtFotaCopyVersion_sound henv.tableOk hrom henv.find_download hcopy
  have h32 : downloadPart.base + 4096 ≤ 4294967296 := by decide
  have hsame : ∀ a, downloadPart.Covers a → w₂.flash a = w₀.flash a := fun a ha =>
    hflash ▸ upgrade_keeps_download henv hrom hne hupgrade a ha
  refine ⟨hlen, fun i hi => ?_, fun a ha hs => (hrest a hs).trans (hsame a ha)⟩
  rw [hfirst i hi, readFlash_congr h32 fun a h₁ h₂ =>
    hsame a ⟨h₁, Nat.lt_of_lt_of_le h₂ (Nat.add_le_add_left hlen _)⟩]

/-! ## 3. Exactly which images -/

/-- The download version ends inside its field. -/
def RtFotaPartHead.Terminated (h : RtFotaPartHead) : Prop := 0 ∈ versionField h.bytes

instance (h : RtFotaPartHead) : Decidable h.Terminated :=
  inferInstanceAs (Decidable (0 ∈ versionField h.bytes))

/-- A flash with the version of a valid image copied is settled if and only if that version
    ends. -/
theorem installedOnce_iff {f g : Flash} (hvalid : ValidImage Env.board f downloadPart)
    (hfit : ChunksFit downloadPart (headAt f downloadPart).comSize)
    (hcopied : CopiedFrom downloadPart f g) :
    InstalledOnce g ↔ (headAt f downloadPart).Terminated := by
  have hp := downloadPart_ok
  have hfind := Env.board_onBoard.find_download
  have hhead := hcopied.headAt_eq hp
  have hcom : (headAt f downloadPart).comSize < 16777216 := by
    have hle := comSize_le_chunksSize (headAt f downloadPart).comSize
    have hlen : downloadPart.len < 16777216 := by decide
    unfold ChunksFit at hfit
    omega
  obtain ⟨hvalid', hfit'⟩ := (accepted_iff hp hfind).mp
    ((hcopied.accepted_iff Env.board_onBoard hp hfind).mpr (hvalid.unsealed hfit))
  constructor
  · intro honce
    obtain ⟨w', hrun, hcheck⟩ := (honce _ .now Env.board Env.board_onBoard).1 (.powerOn g) rfl rfl
    obtain ⟨-, hhead', -, -⟩ := rtFotaPartFwVerify_accepts hp hfind hrun
    rw [rtFotaCheckUpgrade_eq, hhead', World.powerOn_flash, hhead] at hcheck
    by_cases hsame : rtStrcmp
        ((headAt f downloadPart).copied.downloadVersion ++ Env.board.afterHead)
        ((headAt f downloadPart).copied.currentVersion ++ Env.board.afterHead) = 0
    · exact (copied_strcmp_iff _ hcom _).mp hsame
    · rw [if_neg hsame] at hcheck
      cases hcheck
  · intro hterm
    refine Settled.installedOnce ⟨hvalid', hfit', fun after => ?_⟩
    rw [hhead]
    exact (copied_strcmp_iff _ hcom after).mpr hterm

/-- **An image for another partition is installed once if and only if its download version ends
    inside its field.** -/
theorem installed_once_iff {env : Env} (henv : env.OnBoard) (hrom : env.rom.Confined)
    {w₀ w₁ w₂ w₃ : World}
    (hverify : rtFotaPartFwVerify env (some rtFotaFmPartName) w₀ = .ok rtFotaNoErr w₁)
    (hne : falPartitionFind env w₁.fotaPartHead.appPartName ≠ some downloadPart)
    (hupgrade : rtFotaUpgrade env (some rtFotaFmPartName) w₁ = .ok rtFotaNoErr w₂)
    (hcopy : rtFotaCopyVersion env rtFotaFmPartName w₂ = .ok rtFotaNoErr w₃) :
    InstalledOnce w₃.flash ↔ w₁.fotaPartHead.Terminated := by
  obtain ⟨-, hhead, hvalid, hfit⟩ :=
    rtFotaPartFwVerify_accepts downloadPart_ok henv.find_download hverify
  rw [hhead]
  exact installedOnce_iff (hvalid.congr henv Env.board_onBoard) hfit
    (copiedFrom_installed henv hrom hverify hne hupgrade hcopy)

/-- The one-byte image with another download version. -/
def versionImage (version : List Byte) : HeadFields :=
  { oneByteImage with downloadVersion := version }

theorem installed_once_iff_board :
    ∃ w₁ w₂ w₃, rtFotaPartFwVerify Env.board (some rtFotaFmPartName)
        (.powerOn (imageAt downloadPart oneByteImage [0] fun _ => 0xff)) = .ok rtFotaNoErr w₁ ∧
      rtFotaUpgrade Env.board (some rtFotaFmPartName) w₁ = .ok rtFotaNoErr w₂ ∧
      rtFotaCopyVersion Env.board rtFotaFmPartName w₂ = .ok rtFotaNoErr w₃ ∧
      InstalledOnce w₃.flash := by
  obtain ⟨w₁, w₂, w₃, hverify, hhead, hupgrade, hcopy⟩ := @board_installs oneByteImage rfl rfl rfl
    (by decide) (by decide +kernel) (by decide +kernel)
  refine ⟨w₁, w₂, w₃, hverify, hupgrade, hcopy, ?_⟩
  refine (installed_once_iff Env.board_onBoard Env.board_confined hverify ?_ hupgrade hcopy).mpr ?_
  · rw [hhead]
    decide
  · rw [hhead]
    decide

/-- Twenty-four characters and no end. -/
def endlessVersion : List Byte := List.replicate 24 0x61

theorem installed_again_unterminated :
    ¬ ∀ (env : Env) (w₀ w₁ w₂ w₃ : World), env.OnBoard → env.rom.Confined →
      rtFotaPartFwVerify env (some rtFotaFmPartName) w₀ = .ok rtFotaNoErr w₁ →
      rtFotaUpgrade env (some rtFotaFmPartName) w₁ = .ok rtFotaNoErr w₂ →
      rtFotaCopyVersion env rtFotaFmPartName w₂ = .ok rtFotaNoErr w₃ → InstalledOnce w₃.flash := by
  intro h
  obtain ⟨w₁, w₂, w₃, hverify, hhead, hupgrade, hcopy⟩ :=
    @board_installs (versionImage endlessVersion) rfl rfl rfl (by decide) (by decide +kernel)
      (by decide +kernel)
  have honce := h Env.board _ w₁ w₂ w₃ Env.board_onBoard Env.board_confined hverify hupgrade hcopy
  obtain ⟨-, hhead', hvalid, hfit⟩ :=
    rtFotaPartFwVerify_accepts downloadPart_ok Env.board_onBoard.find_download hverify
  have hne : falPartitionFind Env.board w₁.fotaPartHead.appPartName ≠ some downloadPart := by
    rw [hhead]
    decide
  have hterm := (installedOnce_iff hvalid hfit (copiedFrom_installed Env.board_onBoard
    Env.board_confined hverify hne hupgrade hcopy)).mp honce
  rw [← hhead', hhead] at hterm
  revert hterm
  decide

end Mh1903
