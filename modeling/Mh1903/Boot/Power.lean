/-
  File:      Mh1903/Boot/Power.lean
  Subject:   AN INSTALLATION SURVIVES POWER LOSS. Boots that end in front of any flash operation
             leave the image whole, or copied, or a torn copy behind a finished installation; so
             the first boot that comes to the launch has the application an uncut boot installs,
             unless torn pages of an image whose version never ends collide with its checksum.
-/
import Mh1903.Boot.Once
import Mh1903.Copy.Again
import Mh1903.Copy.Torn
import Mathlib.Logic.Relation

namespace Mh1903

open Library RtFotaPartHead

/-! ## 1. Boots -/

/-- A boot from `f`, with power as long as it lasts, comes to its launch or its end with `g`. -/
def BootedTo (env : Env) (f g : Flash) : Prop :=
  ∃ p, g = (final (bootToLaunch (env.cut p)) (.powerOn f)).flash

/-- Any number of boots, each cut or not. Only the power differs between them: allocations succeed
    or fail in each as in `env`, and memory holds the same. -/
def Boots (env : Env) : Flash → Flash → Prop := Relation.ReflTransGen (BootedTo env)

/-- The download version ends in its field, or what a cut copy leaves behind the header of the
    image is refused or whole. -/
def Mendable (env : Env) (f : Flash) : Prop :=
  (headAt f downloadPart).Terminated ∨
    ∀ k, 1 ≤ k → k ≤ 16 →
      (∀ h, ¬ Accepted env (tornCopy downloadPart f k) rtFotaFmPartName downloadPart h) ∨
      downloadPart.SameIn (tornCopy downloadPart f 16) (tornCopy downloadPart f k)

/-- An uncut boot of `env` installs the image in `f`: into `t`, which then holds `done`. -/
structure Installs (env : Env) (f : Flash) (t : FalPartition) (done : Flash) : Prop where
  onBoard : env.OnBoard
  good : env.Good
  accepted : Accepted env f rtFotaFmPartName downloadPart (headAt f downloadPart)
  mem : env.mallocOk 0 = true
  due : rtStrcmp ((headAt f downloadPart).downloadVersion ++ env.afterHead)
    ((headAt f downloadPart).currentVersion ++ env.afterHead) ≠ 0
  target : falPartitionFind env (headAt f downloadPart).appPartName = some t
  apart : t ≠ downloadPart
  mendable : Mendable env f
  upgrade : ∃ w w', w.flash = f ∧ w.fotaPartHead = headAt f downloadPart ∧ w.allocs = 1 ∧
    rtFotaUpgrade env (some rtFotaFmPartName) w = .ok rtFotaNoErr w' ∧ w'.flash = done

/-- The front of the target holds the application. -/
def AppDone (f : Flash) (t : FalPartition) (done g : Flash) : Prop :=
  ∀ a, t.base ≤ a → a < t.base + (headAt f downloadPart).rawSize → g a = done a

/-- What boots may make of `f`. -/
inductive Recoverable (f : Flash) (t : FalPartition) (done g : Flash) : Prop
  | whole : downloadPart.SameIn f g → Recoverable f t done g
  | copied : ¬ (headAt f downloadPart).Terminated →
      downloadPart.SameIn (tornCopy downloadPart f 16) g → Recoverable f t done g
  | torn (k : Nat) : k ≤ 16 → downloadPart.SameIn (tornCopy downloadPart f k) g →
      AppDone f t done g → Recoverable f t done g

/-! ## 2. A boot that installs -/

theorem accepted_cut {env : Env} {p : Nat → Bool} {f : Flash} {name : List Byte}
    {part : FalPartition} {h : RtFotaPartHead} :
    Accepted (env.cut p) f name part h ↔ Accepted env f name part h :=
  ⟨fun h => ⟨h.find, h.read, h.headCrc, h.type, h.target, h.body⟩,
    fun h => ⟨h.find, h.read, h.headCrc, h.type, h.target, h.body⟩⟩

section Power

variable {env : Env} {f g done : Flash} {t : FalPartition} (h : Installs env f t done)
include h

theorem Installs.target_mem : t ∈ falPartTable := falPartitionFind_mem h.onBoard h.target

/-- No byte of the target is one of the image. -/
theorem Installs.disjoint {a : Nat} (ha : t.Covers a) : ¬ downloadPart.Covers a :=
  falPartTable_disjoint h.target_mem (by decide) h.apart ha

theorem Installs.rawSize_le : (headAt f downloadPart).rawSize ≤ t.len := by
  obtain ⟨w, w', rfl, hhead, -, hrun, -⟩ := h.upgrade
  have hfind : falPartitionFind env w.fotaPartHead.appPartName = some t := by
    rw [hhead]
    exact h.target
  have hrom : env.rom.Confined := by
    rw [h.good.rom]
    exact norRom_confined
  obtain ⟨w₁, herase⟩ :=
    @rtFotaUpgrade_erase_ok _ _ _ (some rtFotaFmPartName) _ h.onBoard.find_download hfind _ _ hrun
      (by decide)
  obtain ⟨-, hlen, -, -⟩ :=
    rtFotaEraseAppPart_sound hrom (falPartTable_ok t h.target_mem) hfind herase
  rw [← hhead]
  exact hlen

/-- What lies outside the target does not count for it. -/
theorem Installs.appDone_congr {g' : Flash} (hg : AppDone f t done g)
    (hsame : ∀ a, ¬ downloadPart.Covers a → g' a = g a) : AppDone f t done g' := by
  have hraw := h.rawSize_le
  intro a h₁ h₂
  rw [hsame a (h.disjoint ⟨h₁, by omega⟩)]
  exact hg a h₁ h₂

/-- The copied header says of the image what the old one says. -/
theorem Installs.sameImage :
    SameImage env (headAt f downloadPart) (headAt f downloadPart).copied :=
  ⟨copied_fotaAlgo _, copied_target _ h.onBoard, copied_rawSize _, copied_comSize _⟩

/-- What a boot that installs starts from: the image whole, or copied and still due. -/
inductive Source (f F : Flash) : Prop
  | whole : F = f → Source f F
  | copied : ¬ (headAt f downloadPart).Terminated → F = tornCopy downloadPart f 16 → Source f F

omit h in
theorem Source.recoverable {F : Flash} (hF : Source f F) (hg : downloadPart.SameIn F g) :
    Recoverable f t done g := by
  cases hF with
  | whole heq =>
      subst heq
      exact .whole hg
  | copied hterm heq =>
      subst heq
      exact .copied hterm hg

omit h in
/-- A torn copy of a source is one of the image. -/
theorem Source.torn {F : Flash} (hF : Source f F) {k : Nat} (hk : k ≤ 16) :
    tornCopy downloadPart F k = tornCopy downloadPart f k := by
  cases hF with
  | whole heq => rw [heq]
  | copied _ heq =>
      rw [heq, tornCopy_tornCopy downloadPart_ok (by decide) (Nat.le_refl _) hk,
        Nat.min_eq_right hk]

/-- Its header says of the image what the header in `f` says. -/
theorem Installs.source_head {F : Flash} (hF : Source f F) :
    SameImage env (headAt f downloadPart) (headAt F downloadPart) := by
  cases hF with
  | whole heq =>
      rw [heq]
      exact ⟨rfl, rfl, rfl, rfl⟩
  | copied _ heq =>
      rw [heq, tornCopy_header downloadPart_ok (by decide) (Nat.le_refl _)]
      exact h.sameImage

omit h in
/-- Its body is the body of the image. -/
theorem Source.body {F : Flash} (hF : Source f F) {a : Nat} (ha : downloadPart.BodyArea a) :
    F a = f a := by
  cases hF with
  | whole heq => rw [heq]
  | copied _ heq =>
      rw [heq]
      refine (tornCopy_copied (by decide)).other downloadPart_ok ⟨?_, ha.2⟩ ?_
      · exact Nat.le_trans (Nat.le_add_right _ _) ha.1
      · have := ha.1
        unfold FalPartition.VersionOrCrc
        omega

/-- **The upgrade of such a boot** leaves the image and puts the application, or the power
    fails. -/
theorem Installs.upgrade_again (p : Nat → Bool) {F : Flash} (hF : Source f F) {v : World}
    (hflash : downloadPart.SameIn F v.flash) (hhead : v.fotaPartHead = headAt F downloadPart)
    (hallocs : v.allocs = 1) :
    Leads (rtFotaUpgrade (env.cut p) (some rtFotaFmPartName)) v
      (fun _ v' => downloadPart.SameIn F v'.flash ∧ AppDone f t done v'.flash)
      fun e v' => PowerFailed p e v' ∧ downloadPart.SameIn F v'.flash := by
  have hrom : env.rom.Confined := by
    rw [h.good.rom]
    exact norRom_confined
  have hsame := h.source_head hF
  -- whatever the run does, the image stays
  have hkept : downloadPart.SameIn F (final (rtFotaUpgrade (env.cut p) (some rtFotaFmPartName)) v).flash := by
    have hT : TableOk (env.cut p) := h.onBoard.tableOk
    have hwithin := rtFotaUpgrade_within hT (some rtFotaFmPartName) v
    intro a ha
    rw [← hflash a ha]
    refine hwithin.flash hrom a ?_
    rintro ⟨q, hfind, hcov⟩
    have hfind : falPartitionFind env v.fotaPartHead.appPartName = some q := hfind
    rw [hhead, hsame.target, h.target] at hfind
    cases hfind
    exact h.disjoint hcov ha
  obtain ⟨w, w', rfl, hw, hwallocs, hrun, rfl⟩ := h.upgrade
  rw [← hw] at hsame
  have hcom : w.fotaPartHead.comSize ≤ downloadPart.len := by
    have hfits := ((accepted_iff downloadPart_ok h.onBoard.find_download).mp h.accepted).1.fits
    rw [hw]
    omega
  have hpart : (some rtFotaFmPartName).bind (falPartitionFind env) = some downloadPart :=
    h.onBoard.find_download
  obtain ⟨r, v', hrun', happ⟩ := Mh1903.upgrade_again h.good downloadPart_ok
    (falPartTable_ok t h.target_mem) hpart (by rw [hw]; exact h.target) hcom hrun
    (by rw [hhead]; exact hsame) (fun a ha => by
      rw [hflash a ⟨Nat.le_trans (Nat.le_add_right _ _) ha.1, ha.2⟩, hF.body ha])
    (hallocs.trans hwallocs.symm)
  rcases (rtFotaUpgrade_cuts h.good.powered (some rtFotaFmPartName)).run v with heq | ⟨v'', hstop, hcut⟩
  · have hok := heq.trans hrun'
    rw [final_of_ok hok] at hkept
    refine leads_of_ok hok ⟨hkept, fun a h₁ h₂ => happ a h₁ ?_⟩
    rw [hw]
    exact h₂
  · rw [final_of_error hstop] at hkept
    exact leads_of_error hstop ⟨⟨rfl, hcut.dead⟩, hkept⟩

/-- What a copy behind a finished upgrade leaves. -/
theorem Installs.copied {F : Flash} (hF : Source f F) {v g' : Flash}
    (hv : downloadPart.SameIn F v) (happ : AppDone f t done v)
    (htorn : Torn downloadPart v g') : AppDone f t done g' ∧ Recoverable f t done g' := by
  rcases htorn with rfl | ⟨k, hk, rfl⟩
  · exact ⟨happ, hF.recoverable hv⟩
  · have happ' : AppDone f t done (tornCopy downloadPart v k) := by
      refine h.appDone_congr happ fun a ha => tornCopy_other hk fun hs => ha ⟨hs.1, ?_⟩
      exact Nat.lt_of_lt_of_le hs.2 (Nat.add_le_add_left (by decide) _)
    have hsame := hv.tornCopy downloadPart_ok (by decide) hk
    rw [hF.torn hk] at hsame
    exact ⟨happ', .torn k hk hsame happ'⟩

theorem Installs.comSize_lt : (headAt f downloadPart).comSize < 16777216 := by
  have hfits := ((accepted_iff downloadPart_ok h.onBoard.find_download).mp h.accepted).1.fits
  have hlen : downloadPart.len < 16777216 := by decide
  omega

/-- Such an image is accepted. -/
theorem Installs.source_accepted {F : Flash} (hF : Source f F) :
    Accepted env F rtFotaFmPartName downloadPart (headAt F downloadPart) := by
  cases hF with
  | whole heq =>
      rw [heq]
      exact h.accepted
  | copied _ heq =>
      obtain ⟨hvalid, hfit⟩ := (accepted_iff downloadPart_ok h.onBoard.find_download).mp h.accepted
      rw [heq]
      exact ((tornCopy_copied (by decide)).accepted_iff h.onBoard downloadPart_ok
        h.onBoard.find_download).mpr (hvalid.unsealed hfit)

/-- It is due. -/
theorem Installs.source_due {F : Flash} (hF : Source f F) :
    rtStrcmp ((headAt F downloadPart).downloadVersion ++ env.afterHead)
      ((headAt F downloadPart).currentVersion ++ env.afterHead) ≠ 0 := by
  cases hF with
  | whole heq =>
      rw [heq]
      exact h.due
  | copied hterm heq =>
      rw [heq, tornCopy_header downloadPart_ok (by decide) (Nat.le_refl _)]
      exact fun heq => hterm ((copied_strcmp_iff _ h.comSize_lt _).mp heq)

/-- **A boot that finds the image due** installs it, or the power fails. -/
theorem Installs.installing (p : Nat → Bool) {F : Flash} (hF : Source f F) {w : World}
    (hflash : downloadPart.SameIn F w.flash) (hallocs : w.allocs = 0) :
    Leads (downloadEntry (env.cut p)) w
      (fun _ w' => AppDone f t done w'.flash ∧ Recoverable f t done w'.flash)
      fun e w' => PowerFailed p e w' ∧ Recoverable f t done w'.flash := by
  have hacc : Accepted (env.cut p) w.flash rtFotaFmPartName downloadPart (headAt F downloadPart) :=
    accepted_cut.mpr (hflash.accepted downloadPart_ok (h.source_accepted hF))
  have hmem : (env.cut p).mallocOk w.allocs = true := by
    rw [hallocs]
    exact h.mem
  obtain ⟨w₁, hverify, hw₁, -, hhead, hallocs₁⟩ := hacc.verify hmem
  have hcheck : rtFotaCheckUpgrade (env.cut p) w₁ = .ok 1 w₁ := by
    rw [rtFotaCheckUpgrade_eq, hhead]
    exact congrArg (EStateM.Result.ok · w₁) (if_neg (h.source_due hF))
  rw [← hw₁] at hflash
  rw [hallocs, Nat.zero_add] at hallocs₁
  unfold downloadEntry
  rw [leads_bind]
  refine leads_of_ok hverify ?_
  rw [if_neg (not_not.mpr rfl), leads_bind]
  refine leads_of_ok hcheck ?_
  rw [if_neg (by decide), leads_bind]
  refine (h.upgrade_again p hF hflash hhead hallocs₁).mono (fun r w₂ ⟨hkept, happ⟩ => ?_)
    fun e w₂ ⟨he, hkept⟩ => ⟨he, hF.recoverable hkept⟩
  rw [leads_ite]
  refine ⟨fun _ => leads_pure.mpr ⟨happ, hF.recoverable hkept⟩, fun _ => ?_⟩
  rw [leads_bind]
  refine (rtFotaCopyVersion_torn h.good downloadPart_ok h.onBoard.find_download (by decide)
    w₂).mono (fun r w₃ htorn => ?_) fun e w₃ ⟨he, htorn⟩ => ⟨he, (h.copied hF hkept happ htorn).2⟩
  exact leads_pure.mpr (h.copied hF hkept happ htorn)

/-! ## 3. All boots -/

omit h in
/-- A boot that finds nothing due leaves the flash. -/
theorem downloadEntry_idle (henv : env.OnBoard) {w : World}
    (hidle : ∀ k, Accepted env w.flash rtFotaFmPartName downloadPart k →
      rtStrcmp (k.downloadVersion ++ env.afterHead) (k.currentVersion ++ env.afterHead) = 0) :
    ∃ run w', downloadEntry env w = .ok run w' ∧ w'.flash = w.flash := by
  obtain ⟨res, w₁, hverify, hflash, -, hout, -⟩ :=
    rtFotaPartFwVerify_spec env (some rtFotaFmPartName) w
  unfold downloadEntry
  rw [bind_ok hverify]
  rcases hout with ⟨rfl, -, name, part, hname, hacc⟩ | ⟨hne, -⟩
  · cases hname
    have hpart := Option.some.inj (hacc.find.symm.trans henv.find_download)
    subst hpart
    rw [if_neg (not_not.mpr rfl), bind_ok (rtFotaCheckUpgrade_eq env w₁), if_pos (hidle _ hacc),
      if_pos (Int.le_refl 0)]
    exact ⟨_, w₁, rfl, hflash⟩
  · rw [if_pos hne]
    exact ⟨_, w₁, rfl, hflash⟩

/-- Where a torn copy is not the whole one of an image that stays due, the boot finds nothing
    due in it. -/
theorem Installs.torn_idle {p : Nat → Bool} {k : Nat} (hk : k ≤ 16)
    (hno : ¬ (¬ (headAt f downloadPart).Terminated ∧
      downloadPart.SameIn (tornCopy downloadPart f 16) (tornCopy downloadPart f k)))
    (hsame : downloadPart.SameIn (tornCopy downloadPart f k) g) (k' : RtFotaPartHead)
    (hacc : Accepted (env.cut p) g rtFotaFmPartName downloadPart k') :
    rtStrcmp (k'.downloadVersion ++ env.afterHead) (k'.currentVersion ++ env.afterHead) = 0 := by
  have hback : downloadPart.SameIn g (tornCopy downloadPart f k) := fun a ha => (hsame a ha).symm
  have hacc := hback.accepted downloadPart_ok (accepted_cut.mp hacc)
  have h1 : 1 ≤ k := by
    by_contra h0
    obtain rfl : k = 0 := by omega
    exact tornCopy_refused downloadPart_ok hacc
  by_cases hterm : (headAt f downloadPart).Terminated
  · rw [hacc.headAt_eq downloadPart_ok, tornCopy_header downloadPart_ok h1 hk]
    exact (copied_strcmp_iff _ h.comSize_lt _).mpr hterm
  · rcases h.mendable.resolve_left hterm k h1 hk with hrefused | hwhole
    · exact absurd hacc (hrefused k')
    · exact absurd ⟨hterm, hwhole⟩ hno

/-- **One boot** from whatever boots made of the flash. -/
theorem Installs.boot (p : Nat → Bool) (hg : Recoverable f t done g) :
    Leads (bootToLaunch (env.cut p)) (.powerOn g)
      (fun _ w' => AppDone f t done w'.flash ∧ Recoverable f t done w'.flash)
      fun e w' => PowerFailed p e w' ∧ Recoverable f t done w'.flash := by
  refine leads_of_eq (bootToLaunch_powerOn (env.cut p) g) ?_
  cases hg with
  | whole hsame => exact h.installing p (.whole rfl) hsame rfl
  | copied hterm hsame => exact h.installing p (.copied hterm rfl) hsame rfl
  | torn k hk hsame happ =>
      by_cases hinst : ¬ (headAt f downloadPart).Terminated ∧
          downloadPart.SameIn (tornCopy downloadPart f 16) (tornCopy downloadPart f k)
      · refine h.installing p (.copied hinst.1 rfl) (fun a ha => ?_) rfl
        exact (hsame a ha).trans (hinst.2 a ha)
      · have henv : (env.cut p).OnBoard := h.onBoard
        obtain ⟨run, w', hrun, hflash⟩ :=
          downloadEntry_idle henv (w := .powerOn g) (h.torn_idle hk hinst hsame)
        refine leads_of_ok hrun ?_
        rw [hflash]
        exact ⟨happ, .torn k hk hsame happ⟩

theorem Installs.boots (hg : Boots env f g) : Recoverable f t done g := by
  induction hg with
  | refl => exact .whole fun _ _ => rfl
  | tail _ hstep ih =>
      obtain ⟨p, rfl⟩ := hstep
      exact ((h.boot p ih).mono (fun _ _ h => h.2) fun _ _ h => h.2).final

/-- After any boots a boot comes to the launch with the application, or it is cut. -/
theorem Installs.delivers (hboots : Boots env f g) (p : Nat → Bool) :
    Leads (bootToLaunch (env.cut p)) (.powerOn g)
      (fun _ w' => readFlash w'.flash t.base (headAt f downloadPart).rawSize =
        readFlash done t.base (headAt f downloadPart).rawSize)
      (PowerFailed p) := by
  have hbase := (falPartTable_ok t h.target_mem).base_lt
  have hraw := h.rawSize_le
  refine (h.boot p (h.boots hboots)).mono (fun _ w' ⟨happ, _⟩ => ?_) fun _ _ h => h.1
  exact readFlash_congr (by omega) happ

end Power

/-- An uncut run that verifies, finds the image due and upgrades installs it. -/
theorem installs_of_run {env : Env} (henv : env.OnBoard) (hgood : env.Good) {f : Flash}
    {w₁ w₂ : World} {t : FalPartition}
    (hverify : rtFotaPartFwVerify env (some rtFotaFmPartName) (.powerOn f) = .ok rtFotaNoErr w₁)
    (hcheck : rtFotaCheckUpgrade env w₁ = .ok 1 w₁)
    (hfind : falPartitionFind env w₁.fotaPartHead.appPartName = some t) (hne : t ≠ downloadPart)
    (hupgrade : rtFotaUpgrade env (some rtFotaFmPartName) w₁ = .ok rtFotaNoErr w₂)
    (hmend : Mendable env f) :
    w₁.fotaPartHead = headAt f downloadPart ∧ Installs env f t w₂.flash := by
  obtain ⟨res, w', hrun, hflash, -, hout, -⟩ :=
    rtFotaPartFwVerify_spec env (some rtFotaFmPartName) (.powerOn f)
  rw [hverify] at hrun
  cases hrun
  rcases hout with ⟨-, ⟨hmem, hallocs⟩, name, part, hname, hacc⟩ | ⟨hno, -⟩
  · cases hname
    have hpart := Option.some.inj (hacc.find.symm.trans henv.find_download)
    subst hpart
    have hhead : w₁.fotaPartHead = headAt f downloadPart := hacc.headAt_eq downloadPart_ok
    have hdue : rtStrcmp (w₁.fotaPartHead.downloadVersion ++ env.afterHead)
        (w₁.fotaPartHead.currentVersion ++ env.afterHead) ≠ 0 := by
      intro h0
      rw [rtFotaCheckUpgrade_eq, if_pos h0] at hcheck
      cases hcheck
    refine ⟨hhead, henv, hgood, ?_, hmem, ?_, ?_, hne, hmend, w₁, w₂, hflash, hhead, hallocs,
      hupgrade, rfl⟩
    · rw [← hhead]
      exact hacc
    · rw [← hhead]
      exact hdue
    · rw [← hhead]
      exact hfind
  · exact absurd rfl hno

/-- The board installs the one-byte image so. -/
theorem oneByteImage_due :
    ∃ w₁ w₂, rtFotaPartFwVerify Env.board (some rtFotaFmPartName)
        (.powerOn (imageAt downloadPart oneByteImage [0] fun _ => 0xff)) = .ok rtFotaNoErr w₁ ∧
      rtFotaCheckUpgrade Env.board w₁ = .ok 1 w₁ ∧
      falPartitionFind Env.board w₁.fotaPartHead.appPartName = some appPart ∧
      rtFotaUpgrade Env.board (some rtFotaFmPartName) w₁ = .ok rtFotaNoErr w₂ ∧
      Mendable Env.board (imageAt downloadPart oneByteImage [0] fun _ => 0xff) := by
  obtain ⟨w₁, w₂, -, hverify, hhead, hupgrade, -⟩ := @board_installs oneByteImage rfl rfl rfl
    (by decide) (by decide +kernel) (by decide +kernel)
  refine ⟨w₁, w₂, hverify, ?_, ?_, hupgrade, .inl ?_⟩
  · rw [rtFotaCheckUpgrade_eq, hhead, if_neg (by decide)]
  · rw [hhead]
    decide
  · rw [headAt_imageAt downloadPart_ok (by decide)]
    decide

/-- **An installation survives power loss**, on a flash that does what it is told and with the same
    allocation outcomes and memory in every boot. Let an uncut boot accept the image in the download
    partition, find it due, and upgrade another partition with it without error. Then after any
    boots, each cut in front of any flash operation or not, a boot comes to the launch with what the
    uncut upgrade puts into the front of that partition, or it is cut itself. -/
theorem installation_survives_power_loss {env : Env} (henv : env.OnBoard) (hgood : env.Good)
    {f g : Flash} {w₁ w₂ : World} {t : FalPartition}
    (hverify : rtFotaPartFwVerify env (some rtFotaFmPartName) (.powerOn f) = .ok rtFotaNoErr w₁)
    (hcheck : rtFotaCheckUpgrade env w₁ = .ok 1 w₁)
    (hfind : falPartitionFind env w₁.fotaPartHead.appPartName = some t) (hne : t ≠ downloadPart)
    (hupgrade : rtFotaUpgrade env (some rtFotaFmPartName) w₁ = .ok rtFotaNoErr w₂)
    (hmend : Mendable env f) (hboots : Boots env f g) (p : Nat → Bool) :
    Leads (bootToLaunch (env.cut p)) (.powerOn g)
      (fun _ w' => readFlash w'.flash t.base w₁.fotaPartHead.rawSize =
        readFlash w₂.flash t.base w₁.fotaPartHead.rawSize)
      (PowerFailed p) := by
  obtain ⟨hhead, hinst⟩ := installs_of_run henv hgood hverify hcheck hfind hne hupgrade hmend
  rw [hhead]
  exact hinst.delivers hboots p

theorem installation_survives_power_loss_board :
    ∃ w₁ w₂, rtFotaPartFwVerify Env.board (some rtFotaFmPartName)
        (.powerOn (imageAt downloadPart oneByteImage [0] fun _ => 0xff)) = .ok rtFotaNoErr w₁ ∧
      rtFotaUpgrade Env.board (some rtFotaFmPartName) w₁ = .ok rtFotaNoErr w₂ ∧
      ∀ p q : Nat → Bool, Leads (bootToLaunch (Env.board.cut q)) (.powerOn (final
          (bootToLaunch (Env.board.cut p))
          (.powerOn (imageAt downloadPart oneByteImage [0] fun _ => 0xff))).flash)
        (fun _ w' => readFlash w'.flash appPart.base w₁.fotaPartHead.rawSize =
          readFlash w₂.flash appPart.base w₁.fotaPartHead.rawSize)
        (PowerFailed q) := by
  obtain ⟨w₁, w₂, hverify, hcheck, hfind, hupgrade, hmend⟩ := oneByteImage_due
  refine ⟨w₁, w₂, hverify, hupgrade, fun p q => ?_⟩
  exact installation_survives_power_loss Env.board_onBoard Env.board_good hverify hcheck hfind
    (by decide) hupgrade hmend (.single ⟨p, rfl⟩) q

end Mh1903
