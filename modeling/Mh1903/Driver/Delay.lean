/-
  File:      Mh1903/Driver/Delay.lean
  Subject:   THE DELAY IN MICROSECONDS. `rt_hw_us_delay` never counts more than has passed: a turn of
             the counter is taken for one count less than it is, and whole turns between two samples
             are missed. So it returns early only if the number of counts to wait for was cut to
             32 bits.
-/
import Mh1903.Model.Drivers

namespace Mh1903

/-! ## 1. The counter and its samples -/

/-- `SysTick->VAL` at time `t`: it runs `reload`, `reload - 1`, …, 0 and over again. -/
def sysTickVal (reload : Word) (t : Nat) : Word :=
  BitVec.ofNat 32 (reload.toNat - t % (reload.toNat + 1))

/-- However the counter is sampled, first at `t₀`, a delay that ends has lasted. -/
def DelaysEnough (reload us : Word) : Prop :=
  ∀ (t₀ : Nat) (times : List Nat) (n : Nat), (t₀ :: times).Pairwise (· < ·) →
    rtHwUsDelay reload us (sysTickVal reload t₀) (times.map (sysTickVal reload)) = some n →
    ∃ t, times[n]? = some t ∧ us.toNat * reload.toNat / 1000 ≤ t - t₀

section Delay

variable {reload us ticks : Word}

theorem sysTickVal_toNat (reload : Word) (t : Nat) :
    (sysTickVal reload t).toNat = reload.toNat - t % (reload.toNat + 1) := by
  have hlt := reload.isLt
  rw [sysTickVal, BitVec.toNat_ofNat, Nat.mod_eq_of_lt (by omega)]

theorem sysTickVal_le (reload : Word) (t : Nat) : (sysTickVal reload t).toNat ≤ reload.toNat := by
  rw [sysTickVal_toNat]
  exact Nat.sub_le _ _

/-- Between two samples the counter has run as far as they say, up to whole turns. -/
theorem sysTickVal_elapsed {t t' : Nat} (h : t < t') :
    ((sysTickVal reload t').toNat < (sysTickVal reload t).toNat →
      (sysTickVal reload t).toNat - (sysTickVal reload t').toNat ≤ t' - t) ∧
    ((sysTickVal reload t).toNat < (sysTickVal reload t').toNat →
      reload.toNat - (sysTickVal reload t').toNat + (sysTickVal reload t).toNat < t' - t) := by
  rw [sysTickVal_toNat, sysTickVal_toNat]
  have hr : t % (reload.toNat + 1) < reload.toNat + 1 := Nat.mod_lt _ (Nat.succ_pos _)
  have hr' : t' % (reload.toNat + 1) < reload.toNat + 1 := Nat.mod_lt _ (Nat.succ_pos _)
  have hd := Nat.div_add_mod t (reload.toNat + 1)
  have hd' := Nat.div_add_mod t' (reload.toNat + 1)
  have hq : t / (reload.toNat + 1) ≤ t' / (reload.toNat + 1) := Nat.div_le_div_right h.le
  generalize t / (reload.toNat + 1) = q at *
  generalize t' / (reload.toNat + 1) = q' at *
  constructor
  · intro hval
    have hturns := Nat.mul_le_mul_left (reload.toNat + 1) hq
    omega
  · intro hval
    have hne : q ≠ q' := by
      rintro rfl
      omega
    have hturns := Nat.mul_le_mul_left (reload.toNat + 1) (show q + 1 ≤ q' by omega)
    rw [Nat.mul_add, Nat.mul_one] at hturns
    omega

/-! ## 2. Never more than has passed -/

/-- **One sample** never counts more than has passed. -/
theorem usDelayCount_le {t t' : Nat} (h : t < t')
    (hne : sysTickVal reload t' ≠ sysTickVal reload t) (tcnt : Word) :
    (usDelayCount reload (sysTickVal reload t) (sysTickVal reload t') tcnt).toNat ≤
      tcnt.toNat + (t' - t) := by
  obtain ⟨hdown, hup⟩ := @sysTickVal_elapsed reload t t' h
  have hle := sysTickVal_le reload t'
  have hle₀ := sysTickVal_le reload t
  have hlt := reload.isLt
  have hne' : (sysTickVal reload t').toNat ≠ (sysTickVal reload t).toNat :=
    fun heq => hne (BitVec.eq_of_toNat_eq heq)
  generalize sysTickVal reload t = told at *
  generalize sysTickVal reload t' = tnow at *
  unfold usDelayCount
  split
  · rename_i hval
    have hval' : tnow.toNat < told.toNat := hval
    have hd := hdown hval'
    rw [BitVec.toNat_add, BitVec.toNat_sub_of_le (BitVec.le_of_lt hval)]
    exact Nat.le_trans (Nat.mod_le _ _) (by omega)
  · rename_i hval
    have hval' : ¬ tnow.toNat < told.toNat := hval
    have hu := hup (by omega)
    rw [BitVec.toNat_add, BitVec.toNat_add, BitVec.toNat_sub_of_le hle]
    exact Nat.le_trans (Nat.mod_le _ _) (Nat.add_le_add_left
      (Nat.le_trans (Nat.mod_le _ _) hu.le) _)

/-- **The loop** ends when as many counts as `ticks` have passed. -/
theorem usDelayLoop_sound {t₀ : Nat} (times : List Nat) {t n : Nat} {tcnt : Word} (ht₀ : t₀ ≤ t)
    (hcnt : tcnt.toNat ≤ t - t₀) (hsorted : (t :: times).Pairwise (· < ·))
    (h : usDelayLoop reload ticks (sysTickVal reload t) tcnt (times.map (sysTickVal reload)) =
      some n) :
    ∃ t', times[n]? = some t' ∧ ticks.toNat ≤ t' - t₀ := by
  induction times generalizing t n tcnt with
  | nil => cases h
  | cons t₁ times ih =>
      have hlt : t < t₁ := List.rel_of_pairwise_cons hsorted List.mem_cons_self
      have hsorted₁ := hsorted.of_cons
      simp only [List.map_cons, usDelayLoop] at h
      split at h
      · rename_i hne
        have hcnt₁ := usDelayCount_le hlt hne tcnt
        split at h
        · rename_i hge
          cases h
          have hge' : ticks.toNat ≤ (usDelayCount reload (sysTickVal reload t)
            (sysTickVal reload t₁) tcnt).toNat := hge
          exact ⟨t₁, rfl, by omega⟩
        · obtain ⟨n', hn', rfl⟩ := Option.map_eq_some_iff.mp h
          exact ih (by omega) (by omega) hsorted₁ hn'
      · rename_i heq
        obtain ⟨n', hn', rfl⟩ := Option.map_eq_some_iff.mp h
        rw [← not_not.mp heq] at hn'
        exact ih (by omega) (by omega) hsorted₁ hn'

/-! ## 3. Sampled at every count -/

/-- One count between two samples: it is counted unless the counter turns over. -/
theorem usDelayCount_unit (h1 : 1 ≤ reload.toNat) {a : Nat} (ha : a + 1 < 4294967296) {tcnt : Word}
    (hcnt : tcnt.toNat = a - a / (reload.toNat + 1)) :
    sysTickVal reload (a + 1) ≠ sysTickVal reload a ∧
    (usDelayCount reload (sysTickVal reload a) (sysTickVal reload (a + 1)) tcnt).toNat =
      a + 1 - (a + 1) / (reload.toNat + 1) := by
  have hval := sysTickVal_toNat reload a
  have hval₁ := sysTickVal_toNat reload (a + 1)
  have hr : a % (reload.toNat + 1) < reload.toNat + 1 := Nat.mod_lt _ (Nat.succ_pos _)
  have hd := Nat.div_add_mod a (reload.toNat + 1)
  have hd₁ := Nat.div_add_mod (a + 1) (reload.toNat + 1)
  have hle := sysTickVal_le reload (a + 1)
  have hq : a / (reload.toNat + 1) ≤ a := Nat.div_le_self _ _
  have hlt := reload.isLt
  generalize sysTickVal reload a = told at *
  generalize sysTickVal reload (a + 1) = tnow at *
  by_cases hdvd : reload.toNat + 1 ∣ a + 1
  · -- the counter turns over: from 0 to `reload`
    have hr₁ := Nat.mod_eq_zero_of_dvd hdvd
    rw [Nat.succ_div_of_dvd hdvd] at hd₁ ⊢
    rw [Nat.mul_add, Nat.mul_one] at hd₁
    have hnow : tnow.toNat = reload.toNat := by omega
    have hold : told.toNat = 0 := by omega
    refine ⟨fun heq => by rw [heq] at hnow; omega, ?_⟩
    unfold usDelayCount
    rw [if_neg (show ¬ tnow < told from fun h : tnow.toNat < told.toNat => by omega),
      BitVec.toNat_add, BitVec.toNat_add,
      BitVec.toNat_sub_of_le hle, hnow, hold, Nat.sub_self, Nat.add_zero, Nat.add_zero,
      Nat.mod_eq_of_lt tcnt.isLt, hcnt]
    omega
  · have hr₁ : (a + 1) % (reload.toNat + 1) ≠ 0 := fun h => hdvd (Nat.dvd_of_mod_eq_zero h)
    rw [Nat.succ_div_of_not_dvd hdvd] at hd₁ ⊢
    have hr₂ : (a + 1) % (reload.toNat + 1) < reload.toNat + 1 := Nat.mod_lt _ (Nat.succ_pos _)
    have hdiff : tnow.toNat + 1 = told.toNat := by omega
    have hdown : tnow < told := show tnow.toNat < told.toNat by omega
    have hsum : a - a / (reload.toNat + 1) + (told.toNat - tnow.toNat) < 2 ^ 32 :=
      Nat.lt_of_le_of_lt (Nat.add_le_add_right (Nat.sub_le _ _) _) (by omega)
    refine ⟨fun heq => by rw [heq] at hdiff; omega, ?_⟩
    unfold usDelayCount
    rw [if_pos hdown, BitVec.toNat_add, BitVec.toNat_sub_of_le (BitVec.le_of_lt hdown), hcnt,
      Nat.mod_eq_of_lt hsum]
    omega

/-- Sampled at every count the loop has ended after `m` of them, if `ticks` are counted by then. -/
theorem usDelayLoop_unit (h1 : 1 ≤ reload.toNat) {m a : Nat} (hm : 1 ≤ m)
    (ha : a + m < 4294967296) {tcnt : Word} (hcnt : tcnt.toNat = a - a / (reload.toNat + 1))
    (hticks : ticks.toNat ≤ a + m - (a + m) / (reload.toNat + 1)) :
    ∃ n < m, usDelayLoop reload ticks (sysTickVal reload a) tcnt
      ((List.range' (a + 1) m).map (sysTickVal reload)) = some n := by
  induction m generalizing a tcnt with
  | zero => omega
  | succ m ih =>
      obtain ⟨hne, hcnt₁⟩ := usDelayCount_unit h1 (by omega) hcnt
      rw [List.range'_succ, List.map_cons, usDelayLoop, if_pos hne]
      by_cases hge : usDelayCount reload (sysTickVal reload a) (sysTickVal reload (a + 1)) tcnt ≥ ticks
      · exact ⟨0, Nat.succ_pos m, if_pos hge⟩
      · have hlt : ¬ ticks.toNat ≤ a + 1 - (a + 1) / (reload.toNat + 1) := hcnt₁ ▸ hge
        have hm₁ : 1 ≤ m := by
          by_contra h0
          obtain rfl : m = 0 := by omega
          exact hlt hticks
        have hsum : a + 1 + m = a + (m + 1) := by omega
        obtain ⟨n, hn, hloop⟩ := @ih (a + 1) hm₁ (by omega) _ hcnt₁ (by rw [hsum]; exact hticks)
        exact ⟨n + 1, Nat.succ_lt_succ hn, by simp only [if_neg hge, hloop, Option.map_some]⟩

/-! ## 4. The delay -/

/-- The number of counts the loop waits for. -/
theorem usDelayTicks_toNat (reload us : Word) :
    (us * reload / (1000000 / rtTickPerSecond)).toNat =
      us.toNat * reload.toNat % 4294967296 / 1000 := by
  rw [BitVec.toNat_udiv, BitVec.toNat_mul]
  rfl

/-- A product that is cut is at least 4294967 counts too small, and that many are enough for the
    loop to end. -/
theorem DelaysEnough.fits (h : DelaysEnough reload us) :
    us.toNat * reload.toNat < 4294967296 := by
  by_contra hcut
  have hus := us.isLt
  have hreload : 2 ≤ reload.toNat := by
    by_contra hsmall
    have := Nat.mul_le_mul_left us.toNat (show reload.toNat ≤ 1 by omega)
    omega
  have hticks := usDelayTicks_toNat reload us
  generalize hprod : us.toNat * reload.toNat = prod at hcut hticks
  generalize hloop : us * reload / (1000000 / rtTickPerSecond) = ticks at hticks
  have hthird : (ticks.toNat + ticks.toNat / 2 + 1) / (reload.toNat + 1) ≤
      (ticks.toNat + ticks.toNat / 2 + 1) / 3 := Nat.div_le_div_left (by omega) (by decide)
  obtain ⟨n, hn, hrun⟩ := @usDelayLoop_unit reload ticks (by omega)
    (ticks.toNat + ticks.toNat / 2 + 1) 0 (by omega) (by omega) 0 (by simp) (by
      rw [Nat.zero_add]
      omega)
  have hsorted : (0 :: List.range' (0 + 1) (ticks.toNat + ticks.toNat / 2 + 1)).Pairwise (· < ·) := by
    rw [← List.range'_succ]
    exact List.pairwise_lt_range' 1
  obtain ⟨t, ht, hlasted⟩ := h 0 _ n hsorted (by
    unfold rtHwUsDelay
    rw [hloop]
    exact hrun)
  rw [Nat.zero_add, List.getElem?_range' hn, Option.some.injEq] at ht
  rw [hprod] at hlasted
  omega

end Delay

/-- **A delay never returns early exactly if its product of 32 bits is not cut.** -/
theorem delays_enough_iff (reload us : Word) :
    DelaysEnough reload us ↔ us.toNat * reload.toNat < 4294967296 := by
  refine ⟨DelaysEnough.fits, fun hfits t₀ times n hsorted h => ?_⟩
  obtain ⟨t, ht, hlasted⟩ := usDelayLoop_sound times (Nat.le_refl t₀) (Nat.zero_le _) hsorted h
  rw [usDelayTicks_toNat, Nat.mod_eq_of_lt hfits] at hlasted
  exact ⟨t, ht, hlasted⟩

/-- 50 ms at 96 MHz. -/
theorem delay_returns_early : ¬ DelaysEnough 95999 50000 := fun h => absurd h.fits (by decide)

end Mh1903
