/-
  File:      Mh1903/Boot/Fallback.lean
  Subject:   MISSING PARTITIONS. The last log line of `rt_fota_part_fw_verify` reads the name of the
             partition on every path, also where the pointer to it is null or was never set. On the
             board the default partition is not in the table, so the fallback of the boot thread
             goes through such a pointer.
-/
import Mh1903.Boot.Launch
import Mh1903.Boot.Vectors

namespace Mh1903

open Library RtFotaPartHead

/-! ## 1. The verification -/

/-- Up to its label the verification makes no forbidden access ... -/
theorem rtFotaPartFwVerifyBody_noFault (env : Env) (partName : Option (List Byte)) :
    Keeps NoFault (rtFotaPartFwVerifyBody env partName) := by
  unfold rtFotaPartFwVerifyBody
  cases partName with
  | none => exact keeps_pure _
  | some name =>
      cases hfind : falPartitionFind env name with
      | none =>
          simp only [hfind]
          exact keeps_pure _
      | some part =>
          simp only [hfind]
          refine keeps_bind keeps_get fun w => ?_
          cases falPartitionRead w.flash part 0 sizeofPartHead with
          | none => exact keeps_pure _
          | some bs =>
              refine keeps_ite (keeps_pure _) (keeps_ite (keeps_pure _) (keeps_ite (keeps_pure _) ?_))
              refine keeps_bind (rtMalloc_noFault env _) fun buf => ?_
              cases buf with
              | none => exact keeps_pure _
              | some buf =>
                  cases verifyBodyCrc w.flash part (ofBytes bs).comSize
                      ((ofBytes bs).comSize / rtFotaCrcBuffSize + 2) 0 rtFotaCrcInitVal with
                  | none => exact keeps_pure _
                  | some crc => exact keeps_ite (keeps_pure _) (keeps_pure _)

/-- ... and the pointer it leaves is the partition asked for, null where there is none. -/
theorem rtFotaPartFwVerifyBody_part (env : Env) (partName : Option (List Byte)) :
    Returns (rtFotaPartFwVerifyBody env partName) fun r =>
      r.2.1 = partName.bind (falPartitionFind env) := by
  unfold rtFotaPartFwVerifyBody
  cases partName with
  | none => exact returns_pure rfl
  | some name =>
      cases hfind : falPartitionFind env name with
      | none =>
          simp only [hfind]
          exact returns_pure hfind.symm
      | some part =>
          simp only [hfind]
          have hpart : ∀ res ph, Returns (pure (res, some part, ph) : M _)
              fun r : Int × Option FalPartition × RtFotaPartHead =>
                r.2.1 = (some name).bind (falPartitionFind env) := fun res ph =>
            returns_pure hfind.symm
          refine returns_bind (returns_any _) fun w _ => ?_
          cases falPartitionRead w.flash part 0 sizeofPartHead with
          | none => exact hpart _ _
          | some bs =>
              refine returns_ite (fun _ => hpart _ _) fun _ => returns_ite (fun _ => hpart _ _)
                fun _ => returns_ite (fun _ => hpart _ _) fun _ => ?_
              refine returns_bind (returns_any _) fun buf _ => ?_
              cases buf with
              | none => exact hpart _ _
              | some buf =>
                  cases verifyBodyCrc w.flash part (ofBytes bs).comSize
                      ((ofBytes bs).comSize / rtFotaCrcBuffSize + 2) 0 rtFotaCrcInitVal with
                  | none => exact hpart _ _
                  | some crc => exact returns_ite (fun _ => hpart _ _) fun _ => hpart _ _

/-- The call returns, with a forbidden access exactly where the partition is missing. -/
theorem rtFotaPartFwVerify_faults (env : Env) (partName : Option (List Byte)) (w : World) :
    ∃ res w', rtFotaPartFwVerify env partName w = .ok res w' ∧
      (NoFault w w' ↔ ∃ part, partName.bind (falPartitionFind env) = some part) := by
  cases hbody : rtFotaPartFwVerifyBody env partName w with
  | error e w₁ => exact ((rtFotaPartFwVerifyBody_leads partName).error hbody).elim
  | ok r w₁ =>
      have hno := (rtFotaPartFwVerifyBody_noFault env partName).ok hbody
      have hpart := rtFotaPartFwVerifyBody_part env partName w _ _ hbody
      obtain ⟨res, part, ph⟩ := r
      simp only at hpart
      -- the label stores a header and then reads the name through the pointer
      have hlabel : ∃ h, rtFotaPartFwVerify env partName w =
          (do readThrough part; pure res : M Int) { w₁ with fotaPartHead := h } := by
        unfold rtFotaPartFwVerify
        rw [bind_ok hbody]
        by_cases hres : res = rtFotaNoErr
        · exact ⟨ph, by simp only [if_pos hres]; rfl⟩
        · exact ⟨zero, by simp only [if_neg hres]; rfl⟩
      obtain ⟨h, hlabel⟩ := hlabel
      rw [hlabel, ← hpart]
      cases part with
      | none =>
          refine ⟨res, _, rfl, fun hw => absurd (Eq.trans hw hno.symm) ?_, fun ⟨_, h⟩ => by cases h⟩
          exact List.cons_ne_self _ _
      | some part => exact ⟨res, _, rfl, fun _ => ⟨part, rfl⟩, fun _ => hno⟩

/-! ## 2. The fallback of the thread -/

/-- No valid image in the default partition. -/
def NoDefaultImage (env : Env) (w : World) : Prop :=
  ∀ part h, ¬ Accepted env w.flash rtFotaDfPartName part h

/-- The verification of `partName` returns without a forbidden access. -/
def VerifyClean (env : Env) (partName : Option (List Byte)) (w : World) : Prop :=
  ∃ res w', rtFotaPartFwVerify env partName w = .ok res w' ∧ NoFault w w'

/-- From `w`, where the first launch was refused, the thread gets to its last line without a
    forbidden access. -/
def FallbackClean (env : Env) (w : World) : Prop :=
  ∃ w', defaultEntry env w = .ok none w' ∧ NoFault w w'

theorem verifyClean_iff (env : Env) (partName : Option (List Byte)) (w : World) :
    VerifyClean env partName w ↔ ∃ part, partName.bind (falPartitionFind env) = some part := by
  obtain ⟨res, w', hrun, hiff⟩ := rtFotaPartFwVerify_faults env partName w
  rw [← hiff]
  constructor
  · rintro ⟨res₁, w₁, hrun₁, h⟩
    rw [hrun] at hrun₁
    cases hrun₁
    exact h
  · exact fun h => ⟨res, w', hrun, h⟩

/-- The default branch without a valid image is its verification. -/
theorem fallbackClean_iff {env : Env} {w : World} (hno : NoDefaultImage env w) :
    FallbackClean env w ↔ VerifyClean env (some rtFotaDfPartName) w := by
  obtain ⟨res, w', hrun, -, -, hout, -⟩ := rtFotaPartFwVerify_spec env (some rtFotaDfPartName) w
  have hres : res ≠ rtFotaNoErr := by
    rcases hout with ⟨-, -, n, q, hn, hacc⟩ | ⟨hne, -⟩
    · cases hn
      exact absurd hacc (hno _ _)
    · exact hne
  have hentry : defaultEntry env w = .ok none w' := by
    unfold defaultEntry
    rw [bind_ok hrun, if_neg hres]
    rfl
  unfold FallbackClean VerifyClean
  rw [hentry, hrun]
  constructor
  · rintro ⟨w₁, h, hclean⟩
    cases h
    exact ⟨res, w', rfl, hclean⟩
  · rintro ⟨res₁, w₁, h, hclean⟩
    cases h
    exact ⟨w', rfl, hclean⟩

/-- A refused first launch leaves the thread to the default branch. -/
theorem rtFotaThreadEntry_refused {env : Env} {w w₁ : World} {run : DownloadRun} {err : Int}
    (hboot : bootToLaunch env w = .ok run w₁)
    (hlaunch : rtFotaStartApplication env w₁ = .ok (.returned err) w₁) :
    rtFotaThreadEntry env w = defaultEntry env w₁ := by
  unfold rtFotaThreadEntry
  rw [bind_ok hboot, bind_ok hlaunch]

/-- An erased partition holds no image. -/
theorem not_accepted_erased {env : Env} {name : List Byte} {part : FalPartition}
    {h : RtFotaPartHead} : ¬ Accepted env (fun _ => 0xff) name part h := by
  intro hacc
  have hbytes : h.bytes = List.replicate 96 0xff := by
    have hread := hacc.read
    unfold falPartitionRead mhFlashRead at hread
    split at hread
    · cases hread
    split at hread
    · split at hread
      · cases hread
      rw [← Option.some.inj hread]
      exact List.map_const ..
    · cases hread
  have htype := hacc.type
  rw [type, hbytes] at htype
  exact absurd htype (by decide)

/-- The boot of an erased flash: no image is found, no application launched. -/
theorem bootToLaunch_erased {env : Env}
    (hfind : falPartitionFind env rtFotaAppPartName = some appPart) :
    ∃ run w₁, bootToLaunch env (.powerOn fun _ => 0xff) = .ok run w₁ ∧
      rtFotaStartApplication env w₁ = .ok (.returned rtFotaGeneralErr) w₁ ∧
      NoDefaultImage env w₁ := by
  obtain ⟨res, w₁, hverify, hflash, -, hout, -⟩ :=
    rtFotaPartFwVerify_spec env (some rtFotaFmPartName) (.powerOn fun _ => 0xff)
  rw [World.powerOn_flash] at hflash
  have hres : res ≠ rtFotaNoErr := by
    rcases hout with ⟨-, -, name, part, hname, hacc⟩ | ⟨hne, -⟩
    · exact absurd hacc not_accepted_erased
    · exact hne
  refine ⟨⟨res, none, none⟩, w₁, ?_, rtFotaStartApplication_refused hfind ?_, fun part h => ?_⟩
  · rw [bootToLaunch_powerOn]
    unfold downloadEntry
    rw [bind_ok hverify, if_pos hres]
    rfl
  · rw [hflash]
    decide
  · rw [hflash]
    exact not_accepted_erased

/-- **A verification follows no missing partition if and only if the one it is given is in the
    table**; so the thread gets to its last line, where no launch succeeds and there is no default
    image, if and only if the default partition is in the table. -/
theorem no_missing_partition_iff (env : Env) (partName : Option (List Byte)) (w : World) :
    (VerifyClean env partName w ↔
      ∃ name part, partName = some name ∧ falPartitionFind env name = some part) ∧
    ∀ run w₁ err, bootToLaunch env w = .ok run w₁ →
      rtFotaStartApplication env w₁ = .ok (.returned err) w₁ → NoDefaultImage env w₁ →
      ((∃ w', rtFotaThreadEntry env w = .ok none w' ∧ NoFault w₁ w') ↔
        ∃ part, falPartitionFind env rtFotaDfPartName = some part) := by
  refine ⟨?_, fun run w₁ err hboot hlaunch hno => ?_⟩
  · rw [verifyClean_iff]
    simp only [Option.bind_eq_some_iff]
    exact ⟨fun ⟨part, name, h⟩ => ⟨name, part, h⟩, fun ⟨name, part, h⟩ => ⟨part, name, h⟩⟩
  · rw [rtFotaThreadEntry_refused hboot hlaunch]
    exact (fallbackClean_iff hno).trans (verifyClean_iff env _ w₁)

/-- A board whose table has the default partition, in place of the file system. -/
def Env.defaultBoard : Env :=
  { Env.board with
    partitionTableDef := [headerPart, bootPart, paramPart, appPart, fontPart, downloadPart,
      { fsPart with name := rtFotaDfPartName }] }

/-- Without an image and without an application the thread comes to its last line: through a null
    pointer on the board, cleanly with a default partition. -/
theorem no_missing_partition_boards :
    (∃ run w₁, bootToLaunch Env.board (.powerOn fun _ => 0xff) = .ok run w₁ ∧
      ¬ ∃ w', rtFotaThreadEntry Env.board (.powerOn fun _ => 0xff) = .ok none w' ∧
        NoFault w₁ w') ∧
    ∃ run w₁, bootToLaunch Env.defaultBoard (.powerOn fun _ => 0xff) = .ok run w₁ ∧
      ∃ w', rtFotaThreadEntry Env.defaultBoard (.powerOn fun _ => 0xff) = .ok none w' ∧
        NoFault w₁ w' := by
  constructor
  · obtain ⟨run, w₁, hboot, hlaunch, hno⟩ := bootToLaunch_erased Env.board_onBoard.find_app
    refine ⟨run, w₁, hboot, fun hclean => ?_⟩
    obtain ⟨part, hfind⟩ := ((no_missing_partition_iff Env.board none _).2 run w₁ _ hboot hlaunch
      hno).mp hclean
    have hnone : falPartitionFind Env.board rtFotaDfPartName = none := by decide
    rw [hnone] at hfind
    cases hfind
  · obtain ⟨run, w₁, hboot, hlaunch, hno⟩ := @bootToLaunch_erased Env.defaultBoard (by decide)
    refine ⟨run, w₁, hboot, ?_⟩
    exact ((no_missing_partition_iff Env.defaultBoard none _).2 run w₁ _ hboot hlaunch hno).mpr
      ⟨{ fsPart with name := rtFotaDfPartName }, by decide⟩

/-- On the board the default partition is missing. -/
theorem board_verify_follows_null :
    ¬ VerifyClean Env.board (some rtFotaDfPartName) (.powerOn fun _ => 0xff) := by
  rw [verifyClean_iff]
  rintro ⟨part, h⟩
  have hnone : (some rtFotaDfPartName).bind (falPartitionFind Env.board) = none := by decide
  rw [hnone] at h
  cases h

end Mh1903
