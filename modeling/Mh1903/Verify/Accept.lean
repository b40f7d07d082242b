/-
  File:      Mh1903/Verify/Accept.lean
  Subject:   WHAT `rt_fota_part_fw_verify` DOES. `Accepted` is its chain of checks as one
             statement about the flash; the specification says that the call always returns, that
             it returns no error where the image is accepted and memory is left, and what it
             leaves in the global header.
-/
import Mh1903.Frame.Upgrade

namespace Mh1903

open Library RtFotaPartHead

/-- The checks passed for the image in partition `part`, found under `name`, with header `h`. -/
structure Accepted (env : Env) (flash : Flash) (name : List Byte) (part : FalPartition)
    (h : RtFotaPartHead) : Prop where
  find : falPartitionFind env name = some part
  read : falPartitionRead flash part 0 sizeofPartHead = some h.bytes
  headCrc : (rtFotaCrc (h.bytes.take (sizeofPartHead - 4))).toNat = h.headCrc
  type : rtStrcmp h.type (cStr ['R', 'B', 'L'] ++ [0]) = 0
  target : falPartitionFind env h.appPartName ≠ none
  body : ∃ crc, verifyBodyCrc flash part h.comSize (h.comSize / rtFotaCrcBuffSize + 2) 0
    rtFotaCrcInitVal = some crc ∧ (crc ^^^ rtFotaCrcInitVal).toNat = h.codeCrc

/-- The flash decides: one name has at most one accepted header. -/
theorem Accepted.unique {env : Env} {flash : Flash} {name : List Byte} {p q : FalPartition}
    {h k : RtFotaPartHead} (hp : Accepted env flash name p h) (hq : Accepted env flash name q k) :
    p = q ∧ h = k := by
  have hpq : p = q := Option.some.inj (hp.find.symm.trans hq.find)
  subst hpq
  have hb : h.bytes = k.bytes := Option.some.inj (hp.read.symm.trans hq.read)
  cases h; cases k
  exact ⟨rfl, by simpa using hb⟩

/-- The version check as a value. -/
theorem rtFotaCheckUpgrade_eq (env : Env) (w : World) :
    rtFotaCheckUpgrade env w =
      .ok (if rtStrcmp (w.fotaPartHead.downloadVersion ++ env.afterHead)
        (w.fotaPartHead.currentVersion ++ env.afterHead) = 0 then 0 else 1) w := by
  unfold rtFotaCheckUpgrade
  rw [get_bind]
  by_cases h : rtStrcmp (w.fotaPartHead.downloadVersion ++ env.afterHead)
      (w.fotaPartHead.currentVersion ++ env.afterHead) = 0
  · rw [if_pos h, if_neg (not_not.mpr h)]; rfl
  · rw [if_neg h, if_pos h]; rfl

/-- How a verification ends: without error for an accepted image, with one otherwise or where its
    one allocation fails. -/
def VerifyOutcome (env : Env) (partName : Option (List Byte)) (w : World) (res : Int)
    (h : RtFotaPartHead) (allocs : Nat) : Prop :=
  (res = rtFotaNoErr ∧ (env.mallocOk w.allocs = true ∧ allocs = w.allocs + 1) ∧
    ∃ name part, partName = some name ∧ Accepted env w.flash name part h) ∨
  (res ≠ rtFotaNoErr ∧ ∀ name part k, partName = some name → Accepted env w.flash name part k →
    env.mallocOk w.allocs = false)

/-- What an allocation returns, and that nothing else happens. -/
theorem rtMalloc_leads (env : Env) (size : Nat) (w : World) :
    Leads (rtMalloc env size) w (fun r w' => Quiet w w' ∧ r.isSome = env.mallocOk w.allocs ∧
      w'.allocs = w.allocs + 1) fun _ _ => False := by
  unfold rtMalloc
  rw [leads_bind, leads_get, leads_bind, leads_modify, leads_ite]
  refine ⟨fun h => leads_pure.mpr ⟨⟨rfl, rfl, rfl⟩, h.symm, rfl⟩, fun h => leads_pure.mpr ?_⟩
  exact ⟨⟨rfl, rfl, rfl⟩, by simpa using h, rfl⟩

section Body

variable {env : Env} {w : World} {name : List Byte} {part : FalPartition} {bs : List Byte}

/-- An accepted header is the one read. -/
theorem Accepted.eq_ofBytes {q : FalPartition} {k : RtFotaPartHead}
    (h : Accepted env w.flash name q k) (hfind : falPartitionFind env name = some part)
    (hread : falPartitionRead w.flash part 0 sizeofPartHead = some bs) :
    q = part ∧ k = ofBytes bs := by
  have hq : q = part := Option.some.inj (h.find.symm.trans hfind)
  subst hq
  have hk : k.bytes = bs := Option.some.inj (h.read.symm.trans hread)
  refine ⟨rfl, ?_⟩
  cases k
  subst hk
  simp only [ofBytes, RtFotaPartHead.mk.injEq] at *
  rename_i hlen
  rw [← hlen, List.take_left]

/-- A refused image: some check fails for the header read. -/
theorem verifyOutcome_refused (res : Int) {ph : RtFotaPartHead} {n : Nat}
    (hres : res ≠ rtFotaNoErr)
    (hfind : falPartitionFind env name = some part)
    (hread : falPartitionRead w.flash part 0 sizeofPartHead = some bs)
    (hno : Accepted env w.flash name part (ofBytes bs) → env.mallocOk w.allocs = false) :
    VerifyOutcome env (some name) w res ph n := by
  refine .inr ⟨hres, fun n q k hn hk => ?_⟩
  cases hn
  obtain ⟨rfl, rfl⟩ := hk.eq_ofBytes hfind hread
  exact hno hk

/-- The body of the verification returns, changes nothing and ends as specified. -/
theorem rtFotaPartFwVerifyBody_leads (partName : Option (List Byte)) :
    Leads (rtFotaPartFwVerifyBody env partName) w
      (fun r w' => Quiet w w' ∧ VerifyOutcome env partName w r.1 r.2.2 w'.allocs) (fun _ _ => False) := by
  have hq : Quiet w w := Std.Refl.refl w
  unfold rtFotaPartFwVerifyBody
  cases partName with
  | none =>
      refine leads_pure.mpr ⟨hq, .inr ⟨by decide, fun n q k hn => ?_⟩⟩
      cases hn
  | some name =>
    cases hfind : falPartitionFind env name with
    | none =>
        simp only [hfind]
        refine leads_pure.mpr ⟨hq, .inr ⟨by decide, fun n q k hn hk => ?_⟩⟩
        cases hn
        exact absurd (hk.find.symm.trans hfind) (by simp)
    | some part =>
      simp only [hfind]
      rw [leads_bind, leads_get]
      cases hread : falPartitionRead w.flash part 0 sizeofPartHead with
      | none =>
          have hne : rtFotaPartReadErr ≠ rtFotaNoErr := by decide
          refine leads_pure.mpr ⟨hq, .inr ⟨hne, fun n q k hn hk => ?_⟩⟩
          cases hn
          have := Option.some.inj (hk.find.symm.trans hfind)
          subst this
          exact absurd (hk.read.symm.trans hread) (by simp)
      | some bs =>
        have hbs : bs.length = 96 := falPartitionRead_length hread
        simp only
        rw [leads_ite]
        refine ⟨fun hc => leads_pure.mpr ⟨hq, ?_⟩, fun hc => ?_⟩
        · exact verifyOutcome_refused rtFotaFwVerifyFailed (by decide) hfind hread
            fun h => absurd h.headCrc hc
        rw [leads_ite]
        refine ⟨fun ht => leads_pure.mpr ⟨hq, ?_⟩, fun ht => ?_⟩
        · exact verifyOutcome_refused rtFotaCheckFailed (by decide) hfind hread
            fun h => absurd h.type ht
        rw [leads_ite]
        refine ⟨fun hn => leads_pure.mpr ⟨hq, ?_⟩, fun hn => ?_⟩
        · exact verifyOutcome_refused rtFotaFwVerifyFailed (by decide) hfind hread
            fun h => absurd hn h.target
        rw [leads_bind]
        refine (rtMalloc_leads env _ w).mono (fun buf w₁ ⟨hq₁, hbuf, hallocs⟩ => ?_) fun _ _ h => h
        cases buf with
        | none =>
            refine leads_pure.mpr ⟨hq₁, ?_⟩
            exact verifyOutcome_refused rtFotaNoMemErr (by decide) hfind hread
              fun _ => by simpa using hbuf
        | some buf =>
          simp only
          cases hcrc : verifyBodyCrc w.flash part (ofBytes bs).comSize
              ((ofBytes bs).comSize / rtFotaCrcBuffSize + 2) 0 rtFotaCrcInitVal with
          | none =>
              refine leads_pure.mpr ⟨hq₁, ?_⟩
              refine verifyOutcome_refused rtFotaPartReadErr (by decide) hfind hread fun h => ?_
              obtain ⟨crc, hsome, -⟩ := h.body
              exact absurd (hsome.symm.trans hcrc) (by simp)
          | some crc =>
              simp only
              rw [leads_ite]
              refine ⟨fun hne => leads_pure.mpr ⟨hq₁, ?_⟩, fun heq => leads_pure.mpr ⟨hq₁, ?_⟩⟩
              · refine verifyOutcome_refused rtFotaFwVerifyFailed (by decide) hfind hread fun h => ?_
                obtain ⟨crc', hsome, hc'⟩ := h.body
                have := Option.some.inj (hsome.symm.trans hcrc)
                subst this
                exact absurd hc' hne
              · refine .inl ⟨rfl, ⟨by simpa using hbuf, hallocs⟩, name, part, rfl, ?_⟩
                exact ⟨hfind, by rw [bytes_ofBytes hbs]; exact hread, not_not.mp hc, not_not.mp ht,
                  hn, crc, hcrc, not_not.mp heq⟩

end Body

/-- **The specification of `rt_fota_part_fw_verify`.** The call returns; flash and executed
    operations stay; the header is the accepted one, or zero. -/
theorem rtFotaPartFwVerify_spec (env : Env) (partName : Option (List Byte)) (w : World) :
    ∃ res w', rtFotaPartFwVerify env partName w = .ok res w' ∧ w'.flash = w.flash ∧
      w'.ops = w.ops ∧ VerifyOutcome env partName w res w'.fotaPartHead w'.allocs ∧
      (res ≠ rtFotaNoErr → w'.fotaPartHead = zero) := by
  unfold rtFotaPartFwVerify
  have hbody := @rtFotaPartFwVerifyBody_leads env w partName
  cases hb : rtFotaPartFwVerifyBody env partName w with
  | error e w₁ => exact (hbody.error hb).elim
  | ok r w₁ =>
      obtain ⟨hq, ho⟩ := hbody.ok hb
      obtain ⟨res, part, ph⟩ := r
      rw [bind_ok hb]
      by_cases hres : res = rtFotaNoErr
      · simp only [if_pos hres]
        cases part with
        | none => exact ⟨res, _, rfl, hq.flash, hq.ops, ho, fun h => absurd hres h⟩
        | some part => exact ⟨res, _, rfl, hq.flash, hq.ops, ho, fun h => absurd hres h⟩
      · simp only [if_neg hres]
        have ho' : VerifyOutcome env partName w res zero w₁.allocs :=
          .inr (ho.resolve_left fun h => hres h.1)
        cases part with
        | none => exact ⟨res, _, rfl, hq.flash, hq.ops, ho', fun _ => rfl⟩
        | some part => exact ⟨res, _, rfl, hq.flash, hq.ops, ho', fun _ => rfl⟩

/-- The verification of an accepted image. -/
theorem Accepted.verify {env : Env} {w : World} {name : List Byte} {part : FalPartition}
    {h : RtFotaPartHead} (hacc : Accepted env w.flash name part h)
    (hmem : env.mallocOk w.allocs = true) :
    ∃ w', rtFotaPartFwVerify env (some name) w = .ok rtFotaNoErr w' ∧ w'.flash = w.flash ∧
      w'.ops = w.ops ∧ w'.fotaPartHead = h ∧ w'.allocs = w.allocs + 1 := by
  obtain ⟨res, w', hrun, hf, ho, hout, -⟩ := rtFotaPartFwVerify_spec env (some name) w
  rcases hout with ⟨h0, ⟨-, ha⟩, n, q, hn, hq⟩ | ⟨-, hno⟩
  · cases hn
    exact ⟨w', by rw [hrun, h0], hf, ho, (hq.unique hacc).2, ha⟩
  · rw [hno _ _ _ rfl hacc] at hmem
    cases hmem

end Mh1903
