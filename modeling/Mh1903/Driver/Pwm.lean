/-
  File:      Mh1903/Driver/Pwm.lean
  Subject:   THE PERIODS OF THE PWM. `drv_pwm_set` subtracts one from each half of the period, so a
             pulse as long as the period leaves a low half of -1; `drv_pwm_get` adds only one of the
             two back, so what is set again from what was read is a tick shorter.
-/
import Mh1903.Model.Drivers

namespace Mh1903

/-! ## 1. Waveforms -/

/-- `PCLK_Frequency` of `c` MHz. -/
def mhz (c : Nat) : Word := BitVec.ofNat 32 (c * 1000000)

/-- The period in ticks of the timer, at least `MIN_PERIOD`. -/
def periodTicks (c period : Nat) : Nat := max (period * c / 1000) 3

/-- The pulse in ticks, between `MIN_PULSE` and the largest that a period of `total` ticks
    realises. -/
def pulseTicks (c pulse total : Nat) : Nat := min (max (pulse * c / 1000) 2) (total - 1)

/-- A call of `drv_pwm_set` that does not divide by zero, and either refuses and changes nothing or
    programs a waveform with the period and the pulse asked for. -/
def SetsWaveform (c : Nat) (s : PwmState) (conf : PwmConfiguration) : Prop :=
  ∃ ret s', drvPwmSet (mhz c) s conf = some (ret, s') ∧
    let total := periodTicks c conf.period.toNat
    let high := pulseTicks c conf.pulse.toNat total
    (ret = rtEinval ∧ s' = s ∨
      ret = rtEok ∧ s'.timHighLevelPeriod.toNat + 1 = high ∧
        s'.timLowLevelPeriod.toNat + 1 = total - high ∧ 1 ≤ high ∧ high < total ∧
        s'.loadCount = s'.timLowLevelPeriod ∧ s'.timReloadCount = s'.timHighLevelPeriod)

/-! ## 2. `drv_pwm_set` -/

section Set

variable {c : Nat} {s : PwmState} {conf : PwmConfiguration}

theorem mhz_toNat (hc : c ≤ 200) : (mhz c).toNat = c * 1000000 := by
  rw [mhz, BitVec.toNat_ofNat, Nat.mod_eq_of_lt (by omega)]

theorem mhz_width (hc : c ≤ 200) : ((mhz c).setWidth 64).toNat = c * 1000000 := by
  rw [BitVec.toNat_setWidth, mhz_toNat hc, Nat.mod_eq_of_lt (by omega)]

/-- `tim_clock` in MHz. -/
theorem mhz_timClock (hc : c ≤ 200) : ((mhz c).setWidth 64 / 1000000).toNat = c := by
  rw [BitVec.toNat_udiv, mhz_width hc]
  exact Nat.mul_div_cancel _ (by decide)

theorem word_width (a : Word) : (a.setWidth 64).toNat = a.toNat := by
  have ha := a.isLt
  rw [BitVec.toNat_setWidth, Nat.mod_eq_of_lt (by omega)]

theorem pwmTicks_toNat (hc : c ≤ 200) (ns : Word) :
    (pwmTicks ns ((mhz c).setWidth 64 / 1000000)).toNat = ns.toNat * c / 1000 := by
  have hns := ns.isLt
  have hmul : ns.toNat * c ≤ ns.toNat * 200 := Nat.mul_le_mul_left _ hc
  have hdiv : (ns.setWidth 64 * ((mhz c).setWidth 64 / 1000000) / 1000).toNat =
      ns.toNat * c / 1000 := by
    rw [BitVec.toNat_udiv, BitVec.toNat_mul, word_width, mhz_timClock hc]
    show ns.toNat * c % 18446744073709551616 / 1000 = _
    rw [Nat.mod_eq_of_lt (by omega)]
  rw [pwmTicks, BitVec.toNat_setWidth, hdiv]
  exact Nat.mod_eq_of_lt (by omega)

theorem periodTicks_lt (hc : c ≤ 200) (period : Word) : periodTicks c period.toNat < 4294967295 := by
  have hmul : period.toNat * c ≤ period.toNat * 200 := Nat.mul_le_mul_left _ hc
  have hlt := period.isLt
  unfold periodTicks
  omega

/-- The request is refused: the clock is slower than the period. -/
theorem drvPwmSet_refused (h1 : 1 ≤ c) (hc : c ≤ 200) (h0 : conf.period ≠ 0)
    (href : c * 1000000 < 1000000000 / conf.period.toNat) :
    drvPwmSet (mhz c) s conf = some (rtEinval, s) := by
  have hclock := mhz_width hc
  have hlt : (mhz c).setWidth 64 < 1000000000 / conf.period.setWidth 64 := by
    show ((mhz c).setWidth 64).toNat < (1000000000 / conf.period.setWidth 64).toNat
    rw [hclock, BitVec.toNat_udiv, word_width]
    exact href
  have hne : (mhz c).setWidth 64 ≠ 0 := by
    intro h
    rw [h] at hclock
    have hzero : 0 = c * 1000000 := hclock
    omega
  unfold drvPwmSet
  rw [if_neg h0]
  simp only [if_pos hlt, if_neg hne]

/-- **An accepted request**: the pulse is limited by the whole period. -/
theorem drvPwmSet_accepted (hc : c ≤ 200) (h0 : conf.period ≠ 0)
    (hacc : ¬ c * 1000000 < 1000000000 / conf.period.toNat) :
    ∃ s', drvPwmSet (mhz c) s conf = some (rtEok, s') ∧
      s'.timHighLevelPeriod.toNat + 1 =
        min (max (conf.pulse.toNat * c / 1000) 2) (periodTicks c conf.period.toNat) ∧
      s'.timLowLevelPeriod.toNat = (4294967295 + periodTicks c conf.period.toNat -
        min (max (conf.pulse.toNat * c / 1000) 2) (periodTicks c conf.period.toNat)) % 4294967296 ∧
      s'.loadCount = s'.timLowLevelPeriod ∧ s'.timReloadCount = s'.timHighLevelPeriod := by
  have hnlt : ¬ (mhz c).setWidth 64 < 1000000000 / conf.period.setWidth 64 := by
    show ¬ ((mhz c).setWidth 64).toNat < (1000000000 / conf.period.setWidth 64).toNat
    rw [mhz_width hc, BitVec.toNat_udiv, word_width]
    exact hacc
  have hperiod := pwmTicks_toNat hc conf.period
  have hpulse := pwmTicks_toNat hc conf.pulse
  unfold drvPwmSet
  rw [if_neg h0]
  simp only [if_neg hnlt]
  generalize pwmTicks conf.period ((mhz c).setWidth 64 / 1000000) = period at *
  generalize pwmTicks conf.pulse ((mhz c).setWidth 64 / 1000000) = pulse at *
  have hmax : ∀ p : Word, ¬ p > maxPeriod := fun p h => by
    have hgt : 4294967295 < p.toNat := h
    have hp := p.isLt
    omega
  rw [if_neg (hmax _)]
  have htotal : (if period < minPeriod then minPeriod else period).toNat =
      periodTicks c conf.period.toNat := by
    unfold periodTicks
    rw [← hperiod]
    split
    · rename_i h
      have hlt : period.toNat < 3 := h
      show 3 = _
      omega
    · rename_i h
      have hge : ¬ period.toNat < 3 := h
      omega
  generalize (if period < minPeriod then minPeriod else period) = total at htotal ⊢
  have hthree : 3 ≤ periodTicks c conf.period.toNat := le_max_right _ _
  have hhigh : (if pulse < minPulse then minPulse else if pulse > total then total else pulse).toNat =
      min (max (conf.pulse.toNat * c / 1000) 2) (periodTicks c conf.period.toNat) := by
    rw [← hpulse, ← htotal]
    rw [← htotal] at hthree
    split
    · rename_i h
      have hlt : pulse.toNat < 2 := h
      show 2 = _
      omega
    · rename_i h
      have hge : ¬ pulse.toNat < 2 := h
      split
      · rename_i h
        have hgt : total.toNat < pulse.toNat := h
        omega
      · rename_i h
        have hle : ¬ total.toNat < pulse.toNat := h
        omega
  generalize (if pulse < minPulse then minPulse else if pulse > total then total else pulse) = high
    at hhigh ⊢
  refine ⟨_, rfl, ?_, ?_, rfl, rfl⟩
  · show (high - 1).toNat + 1 = _
    rw [BitVec.toNat_sub_of_le (show 1 ≤ high.toNat by omega), hhigh]
    show _ - 1 + 1 = _
    omega
  · show (total - high - 1).toNat = _
    have hlt := total.isLt
    rw [BitVec.toNat_sub, BitVec.toNat_sub_of_le (show high.toNat ≤ total.toNat by omega), hhigh,
      htotal]
    show (4294967296 - 1 + _) % 4294967296 = _
    omega

end Set

/-- **A call sets the waveform exactly if it is given a period and the pulse is shorter than it, or
    the call is refused.** -/
theorem sets_waveform_iff {c : Nat} (h1 : 1 ≤ c) (hc : c ≤ 200) (s : PwmState)
    (conf : PwmConfiguration) :
    SetsWaveform c s conf ↔ conf.period ≠ 0 ∧
      (c * 1000000 < 1000000000 / conf.period.toNat ∨
        conf.pulse.toNat * c / 1000 < max (conf.period.toNat * c / 1000) 3) := by
  unfold SetsWaveform
  by_cases h0 : conf.period = 0
  · refine iff_of_false ?_ fun h => h.1 h0
    rintro ⟨ret, s', h, -⟩
    unfold drvPwmSet at h
    rw [if_pos h0] at h
    cases h
  by_cases href : c * 1000000 < 1000000000 / conf.period.toNat
  · exact iff_of_true ⟨_, _, drvPwmSet_refused h1 hc h0 href, .inl ⟨rfl, rfl⟩⟩ ⟨h0, .inl href⟩
  obtain ⟨s', hset, hhigh, hlow, hload, hreload⟩ := drvPwmSet_accepted (s := s) hc h0 href
  have hthree : 3 ≤ periodTicks c conf.period.toNat := le_max_right _ _
  have hlt := periodTicks_lt hc conf.period
  constructor
  · rintro ⟨ret, s'', h, hret⟩
    cases hset.symm.trans h
    refine ⟨h0, .inr ?_⟩
    rcases hret with ⟨hret, -⟩ | ⟨-, -, hlow', -, -, -⟩
    · cases hret
    · show _ < periodTicks c conf.period.toNat
      unfold pulseTicks at hlow'
      omega
  · rintro ⟨-, hpulse⟩
    have hpulse' : conf.pulse.toNat * c / 1000 < periodTicks c conf.period.toNat :=
      hpulse.resolve_left href
    refine ⟨_, _, hset, .inr ⟨rfl, ?_, ?_, ?_, ?_, hload, hreload⟩⟩ <;> unfold pulseTicks <;> omega

theorem sets_waveform_iff_servo : SetsWaveform 100 ⟨100, 100, 100, 100⟩ ⟨20000000, 1500000⟩ :=
  (sets_waveform_iff (by decide) (by decide) _ _).mpr ⟨by decide, .inr (by decide)⟩

/-- At 100 MHz, 10 µs of a period of 10 µs. -/
theorem full_pulse_wraps : ¬ ∀ (c : Nat) (s : PwmState) (conf : PwmConfiguration),
    1 ≤ c → c ≤ 200 → SetsWaveform c s conf := by
  intro h
  obtain ⟨ret, s', hset, hret⟩ :=
    h 100 ⟨100, 100, 100, 100⟩ ⟨10000, 10000⟩ (by decide) (by decide)
  have hrun : drvPwmSet (mhz 100) ⟨100, 100, 100, 100⟩ ⟨10000, 10000⟩ =
      some (rtEok, ⟨999, 0xFFFFFFFF, 0xFFFFFFFF, 999⟩) := by decide
  cases hrun.symm.trans hset
  rcases hret with ⟨hret, -⟩ | ⟨-, hhigh, -⟩
  · exact absurd hret (by decide)
  · exact absurd hhigh (by decide)

/-! ## 3. Reading back -/

/-- A period of three ticks at least, a pulse of two at least and one shorter than the period. -/
structure PwmSettable (c : Nat) (conf : PwmConfiguration) : Prop where
  period : 3000 ≤ conf.period.toNat * c
  pulse : 2000 ≤ conf.pulse.toNat * c
  shorter : conf.pulse.toNat * c + 1000 ≤ conf.period.toNat * c

/-- Two times in ns at most a tick of `1000 / c` ns apart. -/
def WithinTick (c a b : Nat) : Prop := a * c ≤ b * c + 1000 ∧ b * c ≤ a * c + 1000

/-- `_pwm_write` once for each of `pulses`. -/
def pwmWrites (pclkFrequency : Word) (s : PwmState) (pulses : List Word) : Option PwmState :=
  pulses.foldlM (fun s pulse => (pwmWrite pclkFrequency s pulse 4).map Prod.snd) s

/-- What was set is read back within a tick, setting what was read changes nothing, and writes of
    pulses alone leave the sum of the two halves. -/
def ReadsBack (c : Nat) (s : PwmState) (conf : PwmConfiguration) : Prop :=
  ∃ s₁ got, drvPwmSet (mhz c) s conf = some (rtEok, s₁) ∧
    drvPwmGet (mhz c) s₁ = some (rtEok, got) ∧
    WithinTick c conf.period.toNat got.period.toNat ∧
    WithinTick c conf.pulse.toNat got.pulse.toNat ∧
    (∃ ret s₂, drvPwmSet (mhz c) s₁ got = some (ret, s₂) ∧
      s₂.timHighLevelPeriod = s₁.timHighLevelPeriod ∧
      s₂.timLowLevelPeriod = s₁.timLowLevelPeriod) ∧
    ∀ pulses : List Word, (∀ pulse ∈ pulses, PwmSettable c { conf with pulse := pulse }) →
      ∃ s₃, pwmWrites (mhz c) s₁ pulses = some s₃ ∧
        s₃.timHighLevelPeriod.toNat + s₃.timLowLevelPeriod.toNat =
          s₁.timHighLevelPeriod.toNat + s₁.timLowLevelPeriod.toNat

section ReadBack

variable {c : Nat} {s : PwmState} {conf : PwmConfiguration}

theorem drvPwmGet_eq (h1 : 1 ≤ c) (hc : c ≤ 200)
    (hsum : s.timHighLevelPeriod.toNat + s.timLowLevelPeriod.toNat + 1 < 4294967296) :
    ∃ got, drvPwmGet (mhz c) s = some (rtEok, got) ∧
      got.period.toNat = (s.timHighLevelPeriod.toNat + s.timLowLevelPeriod.toNat + 1) * 1000 %
        4294967296 / c ∧
      got.pulse.toNat = (s.timHighLevelPeriod.toNat + 1) * 1000 % 4294967296 / c := by
  have hclock := mhz_timClock hc
  have hne : (mhz c).setWidth 64 / 1000000 ≠ 0 := by
    intro h
    rw [h] at hclock
    have hzero : 0 = c := hclock
    omega
  have hquot : ∀ a : Word, ((a.setWidth 64 / ((mhz c).setWidth 64 / 1000000)).setWidth 32).toNat =
      a.toNat / c := by
    intro a
    have ha := a.isLt
    have hle : a.toNat / c ≤ a.toNat := Nat.div_le_self _ _
    rw [BitVec.toNat_setWidth, BitVec.toNat_udiv, word_width, hclock, Nat.mod_eq_of_lt (by omega)]
  have hsum₁ : (s.timHighLevelPeriod + s.timLowLevelPeriod + 1).toNat =
      s.timHighLevelPeriod.toNat + s.timLowLevelPeriod.toNat + 1 := by
    rw [BitVec.toNat_add, BitVec.toNat_add]
    show ((_ + _) % 4294967296 + 1) % 4294967296 = _
    omega
  have hhigh₁ : (s.timHighLevelPeriod + 1).toNat = s.timHighLevelPeriod.toNat + 1 := by
    rw [BitVec.toNat_add]
    show (_ + 1) % 4294967296 = _
    omega
  unfold drvPwmGet
  simp only [if_neg hne]
  refine ⟨_, rfl, ?_, ?_⟩
  · simp only [hquot]
    rw [BitVec.toNat_mul, hsum₁]
    rfl
  · simp only [hquot]
    rw [BitVec.toNat_mul, hhigh₁]
    rfl

/-- A period of at least a tick is not refused. -/
theorem not_refused {period : Nat} (h : 1000 ≤ period * c) :
    ¬ c * 1000000 < 1000000000 / period := by
  refine Nat.not_lt.mpr (Nat.div_le_of_le_mul ?_)
  have hmul : 1000 * 1000000 ≤ period * c * 1000000 := Nat.mul_le_mul_right _ h
  rw [← Nat.mul_assoc]
  exact hmul

/-- **A settable request** is programmed as it is. -/
theorem PwmSettable.set (h : PwmSettable c conf) (hc : c ≤ 200) (s : PwmState) :
    ∃ s₁, drvPwmSet (mhz c) s conf = some (rtEok, s₁) ∧
      s₁.timHighLevelPeriod.toNat + 1 = conf.pulse.toNat * c / 1000 ∧
      s₁.timLowLevelPeriod.toNat + 1 = conf.period.toNat * c / 1000 - conf.pulse.toNat * c / 1000 ∧
      conf.pulse.toNat * c / 1000 < conf.period.toNat * c / 1000 := by
  obtain ⟨hperiod, hpulse, hshorter⟩ := h
  have h0 : conf.period ≠ 0 := by
    intro h
    rw [h] at hperiod
    have hzero : 3000 ≤ 0 * c := hperiod
    omega
  obtain ⟨s₁, hset, hhigh, hlow, -⟩ := drvPwmSet_accepted (s := s) hc h0 (not_refused (by omega))
  have hlt := periodTicks_lt hc conf.period
  unfold periodTicks at hhigh hlow hlt
  refine ⟨s₁, hset, ?_, ?_, ?_⟩ <;> omega

/-- The shortest waveform of all is written over itself. -/
theorem pwmWrite_shortest (h1 : 1 ≤ c) (hc : c ≤ 200) (hdvd : c ∣ 1000) {pulse : Word}
    (hpulse : pulse.toNat * c = 2000) (hhigh : s.timHighLevelPeriod.toNat = 1)
    (hlow : s.timLowLevelPeriod.toNat = 0) :
    ∃ got s', drvPwmGet (mhz c) s = some (rtEok, got) ∧ got.period.toNat * c = 2000 ∧
      got.pulse.toNat * c = 2000 ∧
      drvPwmSet (mhz c) s { got with pulse := pulse } = some (rtEok, s') ∧
      s'.timHighLevelPeriod.toNat = 1 ∧ s'.timLowLevelPeriod.toNat = 0 := by
  obtain ⟨got, hget, hperiod, hgot⟩ := drvPwmGet_eq h1 hc (s := s) (by omega)
  have hdvd₂ : c ∣ 2000 := Dvd.dvd.trans hdvd (by decide)
  rw [hhigh, hlow] at hperiod
  rw [hhigh] at hgot
  have hticks : got.period.toNat * c = 2000 := by
    rw [hperiod]
    exact Nat.div_mul_cancel hdvd₂
  have h0 : got.period ≠ 0 := by
    intro h
    rw [h] at hticks
    have hzero : 0 * c = 2000 := hticks
    omega
  have hacc : ¬ c * 1000000 < 1000000000 / got.period.toNat := not_refused (by rw [hticks]; decide)
  obtain ⟨s', hset, hhigh', hlow', -⟩ :=
    @drvPwmSet_accepted c s { got with pulse := pulse } hc h0 hacc
  have htotal : periodTicks c got.period.toNat = 3 := by
    unfold periodTicks
    rw [hticks]
    rfl
  rw [htotal, hpulse] at hhigh' hlow'
  refine ⟨got, s', hget, hticks, ?_, hset, Nat.succ.inj hhigh', hlow'⟩
  rw [hgot]
  exact Nat.div_mul_cancel hdvd₂

theorem pwmWrites_shortest (h1 : 1 ≤ c) (hc : c ≤ 200) (hdvd : c ∣ 1000) (pulses : List Word)
    (hpulses : ∀ pulse ∈ pulses, pulse.toNat * c = 2000) {s : PwmState}
    (hhigh : s.timHighLevelPeriod.toNat = 1) (hlow : s.timLowLevelPeriod.toNat = 0) :
    ∃ s', pwmWrites (mhz c) s pulses = some s' ∧ s'.timHighLevelPeriod.toNat = 1 ∧
      s'.timLowLevelPeriod.toNat = 0 := by
  induction pulses generalizing s with
  | nil => exact ⟨s, rfl, hhigh, hlow⟩
  | cons pulse pulses ih =>
      obtain ⟨hpulse, hrest⟩ := List.forall_mem_cons.mp hpulses
      obtain ⟨got, s₁, hget, -, -, hset, hhigh₁, hlow₁⟩ :=
        pwmWrite_shortest h1 hc hdvd hpulse hhigh hlow
      obtain ⟨s', hwrites, hs'⟩ := ih hrest hhigh₁ hlow₁
      have hwrite : pwmWrite (mhz c) s pulse 4 = some (4, s₁) := by
        unfold pwmWrite
        simp only [hget, hset, Option.bind_eq_bind, Option.bind_some, ne_eq, not_true, if_false]
        rfl
      refine ⟨s', ?_, hs'⟩
      unfold pwmWrites at hwrites ⊢
      rw [List.foldlM_cons, hwrite]
      exact hwrites

/-- The period that is read back is a tick too short. -/
theorem ReadsBack.shortest (hsettable : PwmSettable c conf) (h1 : 1 ≤ c) (hc : c ≤ 200)
    (h : ReadsBack c s conf) : c ∣ 1000 ∧ conf.period.toNat * c = 3000 := by
  obtain ⟨s₁, hset, hhigh, hlow, hlt⟩ := hsettable.set hc s
  obtain ⟨s₁', got, hset', hget', hperiod, -, ⟨ret, s₂, hset₂, hhigh₂, hlow₂⟩, -⟩ := h
  cases hset.symm.trans hset'
  have htotal := periodTicks_lt hc conf.period
  unfold periodTicks at htotal
  obtain ⟨got', hget, hgot, -⟩ := drvPwmGet_eq h1 hc (s := s₁) (by omega)
  cases hget.symm.trans hget'
  have hsum : s₁.timHighLevelPeriod.toNat + s₁.timLowLevelPeriod.toNat + 1 =
      conf.period.toNat * c / 1000 - 1 := by omega
  rw [hsum] at hgot
  have hcut : (conf.period.toNat * c / 1000 - 1) * 1000 % 4294967296 ≤
      (conf.period.toNat * c / 1000 - 1) * 1000 := Nat.mod_le _ _
  have hdown : got.period.toNat * c ≤ (conf.period.toNat * c / 1000 - 1) * 1000 % 4294967296 := by
    rw [hgot]
    exact Nat.div_mul_le_self _ _
  -- at most a tick apart: nothing was cut and nothing was lost in a division
  obtain ⟨hnear, -⟩ := hperiod
  have hexact : conf.period.toNat * c = got.period.toNat * c + 1000 := by omega
  have hticks : got.period.toNat * c = (conf.period.toNat * c / 1000 - 1) * 1000 := by omega
  have hdvd : c ∣ 1000 := by
    have hsub := Nat.dvd_sub (Dvd.intro_left conf.period.toNat rfl)
      (Dvd.intro_left got.period.toNat (rfl : got.period.toNat * c = got.period.toNat * c))
    rw [hexact, Nat.add_sub_cancel_left] at hsub
    exact hsub
  refine ⟨hdvd, ?_⟩
  have hthree := hsettable.period
  have h0 : got.period ≠ 0 := by
    intro h
    rw [h] at hexact
    have hzero : conf.period.toNat * c = 0 * c + 1000 := hexact
    omega
  obtain ⟨s₂', hset₃, hhigh₃, hlow₃, -⟩ := drvPwmSet_accepted (s := s₁) hc h0
    (not_refused (by omega))
  cases hset₃.symm.trans hset₂
  rw [hhigh₂] at hhigh₃
  rw [hlow₂] at hlow₃
  have htotal₂ := periodTicks_lt hc got.period
  unfold periodTicks at hhigh₃ hlow₃ htotal₂
  omega

end ReadBack

/-- **What was set is read back exactly for a period of three ticks of a whole number of ns.** -/
theorem reads_back_iff {c : Nat} (h1 : 1 ≤ c) (hc : c ≤ 200) (s : PwmState)
    {conf : PwmConfiguration} (hsettable : PwmSettable c conf) :
    ReadsBack c s conf ↔ c ∣ 1000 ∧ conf.period.toNat * c = 3000 := by
  refine ⟨ReadsBack.shortest hsettable h1 hc, ?_⟩
  rintro ⟨hdvd, hperiod⟩
  have hpulse : conf.pulse.toNat * c = 2000 := by
    have hmin := hsettable.pulse
    have hmax := hsettable.shorter
    omega
  obtain ⟨s₁, hset, hhigh, hlow, -⟩ := hsettable.set hc s
  rw [hpulse] at hhigh hlow
  rw [hperiod] at hlow
  have hhigh₁ : s₁.timHighLevelPeriod.toNat = 1 := Nat.succ.inj hhigh
  have hlow₁ : s₁.timLowLevelPeriod.toNat = 0 := Nat.succ.inj hlow
  obtain ⟨got, s₂, hget, hgot, hgot₂, hset₂, hhigh₂, hlow₂⟩ :=
    pwmWrite_shortest h1 hc hdvd hpulse hhigh₁ hlow₁
  have hsame : got.pulse = conf.pulse := by
    refine BitVec.eq_of_toNat_eq (Nat.eq_of_mul_eq_mul_right h1 ?_)
    rw [hgot₂, hpulse]
  refine ⟨s₁, got, hset, hget, ?_, ?_, ⟨rtEok, s₂, ?_, ?_, ?_⟩, fun pulses hpulses => ?_⟩
  · unfold WithinTick
    omega
  · unfold WithinTick
    omega
  · rw [← hset₂, ← hsame]
  · exact BitVec.eq_of_toNat_eq (hhigh₂.trans hhigh₁.symm)
  · exact BitVec.eq_of_toNat_eq (hlow₂.trans hlow₁.symm)
  · obtain ⟨s₃, hwrites, hhigh₃, hlow₃⟩ := pwmWrites_shortest h1 hc hdvd pulses (fun pulse hp => by
      have hmin := (hpulses pulse hp).pulse
      have hmax := (hpulses pulse hp).shorter
      simp only at hmin hmax
      omega) hhigh₁ hlow₁
    exact ⟨s₃, hwrites, by rw [hhigh₃, hlow₃, hhigh₁, hlow₁]⟩

theorem reads_back_iff_shortest : ReadsBack 100 ⟨100, 100, 100, 100⟩ ⟨30, 20⟩ :=
  (reads_back_iff (by decide) (by decide) _ ⟨by decide, by decide, by decide⟩).mpr
    ⟨by decide, by decide⟩

/-- At 100 MHz half of a period of 1 µs: the second `SET` programs 99 ticks for 100. -/
theorem read_back_shortens : ¬ ∀ (c : Nat) (s : PwmState) (conf : PwmConfiguration),
    1 ≤ c → c ≤ 200 → PwmSettable c conf → ReadsBack c s conf := by
  intro h
  have hsettable : PwmSettable 100 ⟨1000, 500⟩ := ⟨by decide, by decide, by decide⟩
  have hback := h 100 ⟨100, 100, 100, 100⟩ ⟨1000, 500⟩ (by decide) (by decide) hsettable
  exact absurd (hback.shortest hsettable (by decide) (by decide)).2 (by decide)

end Mh1903
