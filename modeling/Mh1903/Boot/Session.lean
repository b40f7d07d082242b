/-
  File:      Mh1903/Boot/Session.lean
  Subject:   THE GLOBAL HEADER FOLLOWS THE LAST VERIFICATION. Over every sequence of calls after
             `rt_fota_boot_verify`, `fota_part_head` is the header last accepted or zero; a zero
             header names no partition and shows no new version.
-/
import Mh1903.Copy.Plain
import Mh1903.Frame.Steps
import Mh1903.Verify.Strcmp

namespace Mh1903

open Library RtFotaPartHead

/-! ## 1. Sequences of calls -/

/-- The header a verification of `partName` reads. -/
def headerRead (env : Env) (flash : Flash) (partName : Option (List Byte)) :
    Option RtFotaPartHead :=
  (partName.bind (falPartitionFind env)).bind fun part =>
    (falPartitionRead flash part 0 sizeofPartHead).map ofBytes

/-- What a verification returned, and the header it read. -/
structure LastVerify where
  res : Int
  head : Option RtFotaPartHead

/-- The worlds at the call boundaries, with the most recent verification. Each call meets its own
    environment; between two calls the flash may become anything. -/
inductive Session (table : List FalPartition) : World → Option LastVerify → Prop where
  | boot (env : Env) (w : World) (ht : env.partitionTableDef = table) :
      Session table (final (rtFotaBootVerify env) w) none
  | flash {w : World} {last : Option LastVerify} (f : Flash) (h : Session table w last) :
      Session table { w with flash := f } last
  | verify {w w' : World} {last : Option LastVerify} {res : Int} (env : Env)
      (partName : Option (List Byte)) (h : Session table w last)
      (ht : env.partitionTableDef = table) (hrun : rtFotaPartFwVerify env partName w = .ok res w') :
      Session table w' (some ⟨res, headerRead env w.flash partName⟩)
  | check {w : World} {last : Option LastVerify} (env : Env) (h : Session table w last)
      (ht : env.partitionTableDef = table) : Session table (final (rtFotaCheckUpgrade env) w) last
  | upgrade {w : World} {last : Option LastVerify} (env : Env) (partName : Option (List Byte))
      (h : Session table w last) (ht : env.partitionTableDef = table) :
      Session table (final (rtFotaUpgrade env partName) w) last

/-- The most recent verification accepted. -/
def AcceptedLast (last : Option LastVerify) : Prop := ∃ l, last = some l ∧ l.res = rtFotaNoErr

/-! ## 2. A zero header -/

/-- No line of the table has an empty name. -/
def NoEmptyName (table : List FalPartition) : Prop := ∀ p ∈ table, p.name.headD 0 ≠ 0

instance (table : List FalPartition) : Decidable (NoEmptyName table) :=
  inferInstanceAs (Decidable (∀ p ∈ table, p.name.headD 0 ≠ 0))

theorem appPartName_zero : ∃ cs, zero.appPartName = 0 :: cs :=
  ⟨List.replicate 83 0, by simp [zero, appPartName, List.replicate_succ]⟩

theorem falPartitionInit_mem {table : List FalPartition} {p : FalPartition}
    (hp : p ∈ falPartitionInit table) : p ∈ table := by
  unfold falPartitionInit at hp
  split at hp
  · exact hp
  · cases hp

/-- **A zero header names no partition.** -/
theorem falPartitionFind_zero {env : Env} (hT : NoEmptyName env.partitionTableDef) :
    falPartitionFind env zero.appPartName = none := by
  obtain ⟨cs, hcs⟩ := appPartName_zero
  refine List.find?_eq_none.mpr fun p hp => ?_
  have hne := hT p (falPartitionInit_mem hp)
  cases hname : p.name with
  | nil => rw [hname] at hne; exact absurd rfl hne
  | cons d ds =>
      rw [hname] at hne
      have hd : d.toNat ≠ 0 := fun h => hne (BitVec.eq_of_toNat_eq h)
      rw [hcs, List.cons_append, rtStrcmp_zero_cons]
      simp only [beq_iff_eq]
      omega

/-- **A zero header shows no new version.** -/
theorem rtFotaCheckUpgrade_zero {env : Env} {w : World} (h : w.fotaPartHead = zero) :
    rtFotaCheckUpgrade env w = .ok 0 w := by
  have hd : ∃ cs, zero.downloadVersion ++ env.afterHead = 0 :: cs :=
    ⟨List.replicate 67 0 ++ env.afterHead, by
      simp [zero, downloadVersion, List.replicate_succ]⟩
  have hc : ∃ cs, zero.currentVersion ++ env.afterHead = 0 :: cs :=
    ⟨List.replicate 43 0 ++ env.afterHead, by
      simp [zero, currentVersion, List.replicate_succ]⟩
  obtain ⟨cs, hcs⟩ := hd
  obtain ⟨ds, hds⟩ := hc
  rw [rtFotaCheckUpgrade_eq, h, hcs, hds, rtStrcmp_zero_cons]
  rfl

/-! ## 3. The invariant -/

/-- The header is the one the most recent verification read and accepted; without one it is
    zero. -/
def HeadInv (w : World) (last : Option LastVerify) : Prop :=
  (∃ l, last = some l ∧ l.res = rtFotaNoErr ∧ l.head = some w.fotaPartHead) ∨
  (¬ AcceptedLast last ∧ w.fotaPartHead = zero)

theorem HeadInv.congr {w w' : World} {last : Option LastVerify} (h : HeadInv w last)
    (hw : w'.fotaPartHead = w.fotaPartHead) : HeadInv w' last := by
  unfold HeadInv at *
  rw [hw]
  exact h

theorem Accepted.headerRead {env : Env} {flash : Flash} {name : List Byte} {part : FalPartition}
    {h : RtFotaPartHead} (hacc : Accepted env flash name part h) :
    Mh1903.headerRead env flash (some name) = some h := by
  unfold Mh1903.headerRead
  simp only [Option.bind_some, hacc.find, hacc.read, Option.map_some]
  cases h with
  | mk bytes hlen => simp only [ofBytes, ← hlen, List.take_left]

theorem headInv_verify {w w' : World} {res : Int} {env : Env} {partName : Option (List Byte)}
    (hrun : rtFotaPartFwVerify env partName w = .ok res w') :
    HeadInv w' (some ⟨res, headerRead env w.flash partName⟩) := by
  obtain ⟨r, w₁, hr, -, -, ho, hz⟩ := rtFotaPartFwVerify_spec env partName w
  rw [hr] at hrun
  cases hrun
  rcases ho with ⟨h0, -, name, part, rfl, hacc⟩ | ⟨hne, -⟩
  · exact .inl ⟨_, rfl, h0, hacc.headerRead⟩
  · refine .inr ⟨fun ⟨l, hl, h0⟩ => ?_, hz hne⟩
    cases hl
    exact hne h0

/-! ## 4. An upgrade keeps the header -/

/-- The global header is the same. -/
def SameHead (w w' : World) : Prop := w'.fotaPartHead = w.fotaPartHead

instance : Std.Refl SameHead := ⟨fun _ => rfl⟩

instance : IsTrans World SameHead := ⟨fun _ _ _ h₁ h₂ => Eq.trans h₂ h₁⟩

theorem keeps_sameHead_of_quiet {α : Type} {x : M α} (h : Keeps Quiet x) : Keeps SameHead x :=
  fun w => (h w).head

theorem flashOp_sameHead (env : Env) (op : FlashOp) (run : Nat → Flash → Bool × Flash) :
    Keeps SameHead (flashOp env op run) := by
  refine keeps_bind keeps_get fun w => keeps_ite ?_ (keeps_throw _)
  exact keeps_bind (fun _ => rfl) fun _ => keeps_pure _

/-- **`rt_fota_upgrade` leaves the global header alone.** -/
theorem rtFotaUpgrade_sameHead (env : Env) (partName : Option (List Byte)) :
    Keeps SameHead (rtFotaUpgrade env partName) :=
  rtFotaUpgrade_keeps (fun _ => flashOp_sameHead _ _ _)
    (fun size => keeps_sameHead_of_quiet (rtMalloc_quiet _ size))
    (fun f => keeps_sameHead_of_quiet (fault_quiet f))
    (fun r => keeps_sameHead_of_quiet (logRead_quiet r))
    (fun _ _ _ => flashOp_sameHead _ _ _) partName

/-! ## 5. Every call boundary -/

theorem rtFotaBootVerify_head (env : Env) (w : World) :
    (final (rtFotaBootVerify env) w).fotaPartHead = zero := by
  unfold final rtFotaBootVerify setFotaPartHead
  rw [modify_bind]
  split <;> rename_i heq <;> split at heq <;> cases heq <;> rfl

/-- **The invariant at every call boundary.** -/
theorem session_headInv {table : List FalPartition} {w : World} {last : Option LastVerify}
    (h : Session table w last) : HeadInv w last := by
  induction h with
  | boot env w ht =>
      exact .inr ⟨(fun ⟨_, hl, _⟩ => by cases hl), rtFotaBootVerify_head env w⟩
  | flash f h ih => exact ih.congr rfl
  | verify env partName h ht hrun ih => exact headInv_verify hrun
  | check env h ht ih =>
      refine ih.congr ?_
      unfold final
      rw [rtFotaCheckUpgrade_eq]
  | upgrade env partName h ht ih => exact ih.congr (rtFotaUpgrade_sameHead env partName _)

/-- Without an accepted verification an upgrade touches no flash. -/
theorem rtFotaUpgrade_zero {env : Env} (hT : NoEmptyName env.partitionTableDef) {w : World}
    (hw : w.fotaPartHead = zero) (partName : Option (List Byte)) :
    final (rtFotaUpgrade env partName) w = w := by
  have hnone : falPartitionFind env w.fotaPartHead.appPartName = none := by
    rw [hw]; exact falPartitionFind_zero hT
  obtain ⟨err, -, hrun⟩ := rtFotaUpgrade_none hnone partName
  unfold final
  rw [hrun]

/-- **The header is zero or the one last accepted; without an accepted verification the version
    check finds nothing new and an upgrade executes no flash operation.** -/
theorem header_follows_last_verification {table : List FalPartition} (hT : NoEmptyName table)
    {w : World} {last : Option LastVerify} (h : Session table w last) :
    (w.fotaPartHead = zero ∨
      ∃ l, last = some l ∧ l.res = rtFotaNoErr ∧ l.head = some w.fotaPartHead) ∧
    ∀ env : Env, env.partitionTableDef = table →
      (∀ w', rtFotaCheckUpgrade env w = .ok 1 w' → AcceptedLast last) ∧
      ∀ partName, (final (rtFotaUpgrade env partName) w).ops ≠ w.ops ∨
        (final (rtFotaUpgrade env partName) w).flash ≠ w.flash → AcceptedLast last := by
  rcases session_headInv h with ⟨l, hl, h0, hhead⟩ | ⟨hno, hzero⟩
  · exact ⟨.inr ⟨l, hl, h0, hhead⟩, fun _ _ => ⟨fun _ _ => ⟨l, hl, h0⟩, fun _ _ => ⟨l, hl, h0⟩⟩⟩
  · refine ⟨.inl hzero, fun env henv => ⟨fun w' hrun => ?_, fun partName hdo => ?_⟩⟩
    · rw [rtFotaCheckUpgrade_zero hzero] at hrun
      cases hrun
    · rw [rtFotaUpgrade_zero (henv ▸ hT) hzero] at hdo
      exact absurd rfl (hdo.elim id fun h => absurd rfl h)

/-- The image of one byte: verified, found new and installed. The header is the one the verification
    read, and the version check needed it. -/
theorem header_follows_last_verification_board :
    ∃ w₁ w₂, rtFotaPartFwVerify Env.board (some downloadPart.name)
        (.powerOn (imageAt downloadPart oneByteImage [0] fun _ => 0xff)) = .ok rtFotaNoErr w₁ ∧
      rtFotaCheckUpgrade Env.board w₁ = .ok 1 w₁ ∧
      rtFotaUpgrade Env.board (some downloadPart.name) w₁ = .ok rtFotaNoErr w₂ ∧
      w₂.flash appPart.base = 0 ∧
      headerRead Env.board (imageAt downloadPart oneByteImage [0] fun _ => 0xff)
        (some downloadPart.name) = some w₂.fotaPartHead ∧
      AcceptedLast (some ⟨rtFotaNoErr, headerRead Env.board
        (imageAt downloadPart oneByteImage [0] fun _ => 0xff) (some downloadPart.name)⟩) := by
  obtain ⟨w₁, w₂, hverify, -, hhead, hrun, hfirst⟩ := @oneByte_upgrades oneByteImage rfl rfl
    (by decide) (by decide) (by decide) (by decide +kernel) (by decide +kernel)
  have hcheck : rtFotaCheckUpgrade Env.board w₁ = .ok 1 w₁ := by
    rw [rtFotaCheckUpgrade_eq, hhead, if_neg (by decide)]
  -- the boot, the verification, the version check and the upgrade
  have hboot : Session falPartTable
      (.powerOn (imageAt downloadPart oneByteImage [0] fun _ => 0xff)) none :=
    .boot Env.board (.powerOn (imageAt downloadPart oneByteImage [0] fun _ => 0xff)) rfl
  have hverified := hboot.verify Env.board (some downloadPart.name) rfl hverify
  have hchecked := hverified.check Env.board rfl
  rw [final_of_ok hcheck] at hchecked
  have hupgraded := hchecked.upgrade Env.board (some downloadPart.name) rfl
  rw [final_of_ok hrun] at hupgraded
  have hnames : NoEmptyName falPartTable := by decide
  refine ⟨w₁, w₂, hverify, hcheck, hrun, hfirst, ?_, ?_⟩
  · rcases (header_follows_last_verification hnames hupgraded).1 with hzero | ⟨l, hl, -, hread⟩
    · have hsame := rtFotaUpgrade_sameHead Env.board (some downloadPart.name) w₁
      rw [final_of_ok hrun] at hsame
      have hbytes := congrArg bytes (hhead.symm.trans (hsame.symm.trans hzero))
      exact absurd hbytes (by decide)
    · cases hl
      exact hread
  · exact ((header_follows_last_verification hnames hverified).2 Env.board rfl).1 w₁ hcheck

end Mh1903
