/-
  File:      Mh1903/Frame/ReadBack.lean
  Subject:   WHAT A SUCCESSFUL WRITE PROVES. `mh_flash_write` checks each piece right after it was
             programmed. The pieces tile the range and later ones lie in later pages, so on a
             confined ROM, however it programs, success means that the whole range is there.
-/
import Mh1903.Frame.Within

namespace Mh1903

open Library

/-- Byte `i` of a buffer as the driver reads it. -/
def srcByte (env : Env) (buf : List Byte) (i : Nat) : Byte := buf.getD i (env.memory i)

theorem srcByte_of_lt {env : Env} {buf : List Byte} {i : Nat} (hi : i < buf.length) :
    srcByte env buf i = buf.getD i 0 := by
  rw [srcByte, List.getD_eq_getElem?_getD, List.getD_eq_getElem?_getD,
    List.getElem?_eq_getElem hi, Option.getD_some, Option.getD_some]

theorem load_ok (env : Env) (buf : List Byte) (off n : Nat) (w : World) :
    ∃ w', load env buf off n w = .ok (slice env.memory buf off n) w' ∧ Quiet w w' := by
  unfold load
  by_cases h : buf.length < off + n
  · rw [if_pos h]
    exact ⟨_, rfl, rfl, rfl, rfl⟩
  · rw [if_neg h]
    exact ⟨_, rfl, rfl, rfl, rfl⟩

section Write

variable {env : Env} {addr size written : Nat} {buf : List Byte}

theorem mhFlashWriteLen_eq (addr size written : Nat) :
    mhFlashWriteLen addr size written =
      if u32 (addr + written) % 256 = 0 then
        if (size - written) / 256 > 0 then 256 else (size - written) % 256
      else 256 - u32 (addr + written) % 256 := rfl

/-- Pages are the same of an address and of its 32 bits. -/
theorem u32_page (n : Nat) : u32 n % 256 = n % 256 := by
  unfold u32
  omega

/-- The next piece: not empty, inside a page, and up to the end of the page unless it is the
    last. -/
theorem mhFlashWriteLen_spec (hlt : written < size) :
    0 < mhFlashWriteLen addr size written ∧
    (addr + written) % 256 + mhFlashWriteLen addr size written ≤ 256 ∧
    (size ≤ written + mhFlashWriteLen addr size written ∨
      (addr + (written + mhFlashWriteLen addr size written)) % 256 = 0) := by
  rw [mhFlashWriteLen_eq, u32_page]
  by_cases hmod : (addr + written) % 256 = 0
  · by_cases hpages : (size - written) / 256 > 0
    · rw [if_pos hmod, if_pos hpages]
      omega
    · rw [if_pos hmod, if_neg hpages]
      omega
  · rw [if_neg hmod]
    omega

/-- A piece that was checked is there. -/
theorem mhFlashWriteStep_sound {len : Nat} {w w' : World}
    (h : mhFlashWriteStep env addr buf written len w = .ok true w') :
    ∀ j < len, w'.flash (u32 (addr + (written + j))) = srcByte env buf (written + j) := by
  unfold mhFlashWriteStep at h
  obtain ⟨w₁, hload, -⟩ := load_ok env buf written len w
  rw [bind_ok hload] at h
  obtain ⟨ok, w₂, -, h⟩ := bind_eq_ok h
  cases ok with
  | false => cases h
  | true =>
      rw [if_pos rfl, get_bind] at h
      have hcheck : dataCheck (slice env.memory buf written len)
          (readFlash w₂.flash (u32 (addr + written)) len) = true ∧ w₂ = w' := by
        cases hc : dataCheck (slice env.memory buf written len)
            (readFlash w₂.flash (u32 (addr + written)) len) with
        | false => rw [hc] at h; cases h
        | true => rw [hc] at h; cases h; exact ⟨rfl, rfl⟩
      obtain ⟨hcheck, rfl⟩ := hcheck
      have heq : slice env.memory buf written len =
          readFlash w₂.flash (u32 (addr + written)) len := eq_of_beq hcheck
      intro j hj
      have hget := congrArg (fun l => l[j]?) heq
      simp only [getElem?_slice _ _ _ _ _ hj, readFlash, List.getElem?_map,
        List.getElem?_range hj, Option.map_some] at hget
      have hval := Option.some.inj hget
      have haddr : u32 (u32 (addr + written) + j) = u32 (addr + (written + j)) := by
        unfold u32
        omega
      rw [haddr] at hval
      exact hval.symm

/-- **Success of the write loop**, also where the addresses wrap around: the pages are all
    different as long as the range and the front of its first page fill the address space once. -/
theorem mhFlashWriteLoop_verified (hrom : env.rom.Confined) (hspan : addr % 256 + size ≤ 4294967296)
    (fuel : Nat) {w w' : World} {ret : Int}
    (hal : written = 0 ∨ (addr + written) % 256 = 0 ∨ size ≤ written)
    (h : mhFlashWriteLoop env addr buf size fuel written w = .ok ret w') (hret : ret ≠ -rtError) :
    ∀ i, written ≤ i → i < size → w'.flash (u32 (addr + i)) = srcByte env buf i := by
  induction fuel generalizing written w with
  | zero => cases h
  | succ fuel ih =>
      intro i hi hsize
      unfold mhFlashWriteLoop at h
      rw [if_pos (by omega)] at h
      obtain ⟨hpos, hpage, hend⟩ := @mhFlashWriteLen_spec addr size written (by omega)
      generalize hlen : mhFlashWriteLen addr size written = len at h hpos hpage hend
      obtain ⟨ok, w₁, hstep, h⟩ := bind_eq_ok h
      cases ok with
      | false => cases h; exact absurd rfl hret
      | true =>
          rw [if_pos rfl] at h
          have hpiece := mhFlashWriteStep_sound hstep
          by_cases hin : i < written + len
          · -- the piece itself: the rest of the loop works in other pages
            have hrest : Within env (fun a => a / 256 ≠ u32 (addr + i) / 256) w₁ w' := by
              refine (mhFlashWriteLoop_within (fun k hk hks a ha => ?_) fuel).ok h
              simp only [x25qPageSize] at ha
              unfold u32 at ha ⊢
              omega
            rw [hrest.flash hrom _ (fun h => h rfl)]
            have hbyte := hpiece (i - written) (by omega)
            rw [Nat.add_sub_cancel' hi] at hbyte
            exact hbyte
          · exact ih (by omega) h i (by omega) hsize

end Write

/-- **Success of a write to a partition**: it lay inside and is there. -/
theorem falPartitionWrite_sound {env : Env} (hrom : env.rom.Confined) {p : FalPartition}
    (hp : p.Ok) {addr size : Nat} {buf : List Byte} {w w' : World} {ret : Int}
    (h32 : addr + size < 4294967296)
    (h : falPartitionWrite env p addr buf size w = .ok ret w') (hret : 0 ≤ ret) :
    addr + size ≤ p.len ∧ ∀ i < size, w'.flash (p.base + addr + i) = srcByte env buf i := by
  have hbase := hp.base_lt
  obtain ⟨hin, hw⟩ := falPartitionAccess_ok h32 h hret
  refine ⟨hin, fun i hi => ?_⟩
  rw [hp.address_eq (by omega)] at hw
  unfold mhFlashWrite at hw
  split at hw
  · cases hw; exact absurd hret (by decide)
  split at hw
  · cases hw; exact absurd hret (by decide)
  split at hw
  · cases hw; exact absurd hret (by decide)
  have hbyte := mhFlashWriteLoop_verified hrom (by omega) _ (.inl rfl) hw
    (fun h => absurd (h ▸ hret) (by decide)) i (Nat.zero_le _) hi
  rw [u32_eq (by omega)] at hbyte
  exact hbyte

end Mh1903
