/-
  File:      Mh1903/Device/Clock.lean
  Subject:   THE CLOCK AND ITS FIRST OPEN. The time is `time_sec` and what the RTC has counted since.
             A call of the driver needs no open; the first open initialises the device, and that
             sets the counter back without moving what it had counted to `time_sec`.
-/
import Mh1903.Library.Calls
import Mh1903.Model.Devices

namespace Mh1903

open Library

/-! ## 1. Runs -/

/-- The calls on the clock, and the tick of the RTC. -/
inductive RtcCall where
  | openDevice (oflag : BitVec 16)
  | closeDevice
  | setTime (args : Word)
  | getTime
  | tick
  deriving DecidableEq

/-- The clock, and beside it the time it owes: what it was set to, or first gave, and the ticks
    since. -/
structure Clock where
  dev : RtDevice Rtc
  due : Option Word

/-- A clock no call was made on. -/
def Clock.start (counter : Word) : Clock := ⟨rtHwRtcInit counter, none⟩

/-- What `RT_DEVICE_CTRL_RTC_GET_TIME` returns. -/
def Clock.time (c : Clock) : Word := mhRtcGetSecs c.dev.driver

def Clock.call (c : Clock) : RtcCall → Option Clock
  | .openDevice oflag => (rtDeviceOpen rtcCoreOps oflag c.dev).map fun r => { c with dev := r.2 }
  | .closeDevice => (rtDeviceClose rtcCoreOps c.dev).map fun r => { c with dev := r.2 }
  | .setTime args =>
      some ⟨{ c.dev with driver := mhRtcSetSecs args c.dev.driver }, some args⟩
  | .getTime => some { c with due := some (c.due.getD c.time) }
  | .tick =>
      let driver := { c.dev.driver with counter := c.dev.driver.counter + 1 }
      some ⟨{ c.dev with driver }, c.due.map (· + 1)⟩

/-- A halted system takes no call. -/
def Clock.step (s : Option Clock) (call : RtcCall) : Option Clock := s.bind (·.call call)

/-- The time given is the time owed. -/
def Clock.Right (c : Clock) : Prop := ∀ d ∈ c.due, c.time = d

/-- The first open comes before the time is set or asked for, or finds the counter at zero. -/
def Clock.OpensInTime (s : Option Clock) (call : RtcCall) : Prop :=
  ∀ c ∈ s, ∀ oflag, call = .openDevice oflag → ¬ c.dev.Has rtDeviceFlagActivated →
    c.due = none ∨ c.dev.driver.counter = 0

/-! ## 2. Opening and closing -/

/-- A device that nobody opened, or one that was opened before. -/
def Clock.Registered (c : Clock) : Prop :=
  (c.dev.flag = rtDeviceFlagRdwr ∧ c.dev.refCount = 0) ∨
    c.dev.flag = rtDeviceFlagRdwr ||| rtDeviceFlagActivated

section Open

variable {dev : RtDevice Rtc} {oflag : BitVec 16}

theorem rtcOpen_first (hflag : dev.flag = rtDeviceFlagRdwr) (href : dev.refCount = 0) :
    rtDeviceOpen rtcCoreOps oflag dev = some (rtEok,
      { flag := rtDeviceFlagRdwr ||| rtDeviceFlagActivated
        openFlag := dev.openFlag ||| rtDeviceOflagOpen
        refCount := 1
        driver := dev.driver.resetCounter }) := by
  have hnot : ¬ dev.Has rtDeviceFlagActivated := by
    unfold RtDevice.Has
    rw [hflag]
    decide
  have hactive : rtDeviceActivate rtcCoreOps dev =
      (rtEok, ⟨rtDeviceFlagRdwr ||| rtDeviceFlagActivated, dev.openFlag, 0,
        dev.driver.resetCounter⟩) := by
    unfold rtDeviceActivate
    rw [if_pos hnot, ← href, ← hflag]
    rfl
  have hshared : (rtDeviceFlagRdwr ||| rtDeviceFlagActivated) &&& rtDeviceFlagStandalone = 0 := by
    decide
  rw [rtDeviceOpen_eq (by rw [hactive]) (by rw [hactive]; exact not_not.mpr hshared), hactive]
  exact rtDeviceCount_ok

theorem rtcOpen_again (hflag : dev.flag = rtDeviceFlagRdwr ||| rtDeviceFlagActivated) :
    rtDeviceOpen rtcCoreOps oflag dev = rtDeviceCount rtEok dev := by
  have hactivated : dev.Has rtDeviceFlagActivated := by
    unfold RtDevice.Has
    rw [hflag]
    decide
  have hshared : ¬ dev.Has rtDeviceFlagStandalone := by
    unfold RtDevice.Has
    rw [hflag]
    decide
  have hactive : rtDeviceActivate rtcCoreOps dev = (rtEok, dev) := if_neg (not_not.mpr hactivated)
  rw [rtDeviceOpen_eq (by rw [hactive]) (by rw [hactive]; exact hshared), hactive]
  rfl

/-- Closing the clock counts, and nothing else. -/
theorem rtcClose_ok {r : Int × RtDevice Rtc} (h : rtDeviceClose rtcCoreOps dev = some r) :
    r.2.driver = dev.driver ∧ r.2.flag = dev.flag ∧ (dev.refCount = 0 → r.2.refCount = 0) := by
  unfold rtDeviceClose at h
  by_cases href : dev.refCount = 0
  · rw [if_pos href] at h
    cases h
    exact ⟨rfl, rfl, id⟩
  · rw [if_neg href] at h
    by_cases hlast : dev.refCount - 1 ≠ 0
    · rw [if_pos hlast] at h
      cases h
      exact ⟨rfl, rfl, fun hzero => absurd hzero href⟩
    · rw [if_neg hlast] at h
      cases h
      exact ⟨rfl, rfl, fun hzero => absurd hzero href⟩

end Open

/-! ## 3. One call -/

section Call

variable {c c' : Clock} {call : RtcCall} {oflag : BitVec 16}

/-- A first open takes what was counted away from the time. -/
theorem open_right_iff (hright : c.Right) (hflag : c.dev.flag = rtDeviceFlagRdwr)
    (href : c.dev.refCount = 0) :
    (∀ c' ∈ c.call (.openDevice oflag), c'.Right) ↔ c.due = none ∨ c.dev.driver.counter = 0 := by
  have hcall : c.call (.openDevice oflag) =
      some ⟨⟨rtDeviceFlagRdwr ||| rtDeviceFlagActivated, c.dev.openFlag ||| rtDeviceOflagOpen, 1,
        c.dev.driver.resetCounter⟩, c.due⟩ := by
    have hcall : c.call (.openDevice oflag) =
        (rtDeviceOpen rtcCoreOps oflag c.dev).map fun r => { c with dev := r.2 } := rfl
    rw [hcall, rtcOpen_first hflag href]
    rfl
  rw [hcall]
  simp only [Option.mem_some_iff, forall_eq']
  cases hdue : c.due with
  | none =>
      refine iff_of_true (fun d hd => ?_) (.inl rfl)
      cases hd
  | some d =>
      have htime : c.dev.driver.counter + c.dev.driver.timeSec = d := hright d hdue
      constructor
      · intro h
        have hreset : 0 + c.dev.driver.timeSec = d := h d rfl
        refine .inr ?_
        rw [← hreset] at htime
        bv_omega
      · rintro (hnone | hzero) d' hd'
        · cases hnone
        · cases hd'
          rw [hzero] at htime
          exact htime

/-- Whatever leaves the driver alone and owes the same is as right as before. -/
theorem Clock.Right.of_driver (hright : c.Right) (hdriver : c'.dev.driver = c.dev.driver)
    (hdue : c'.due = c.due) : c'.Right := by
  intro d hd
  have htime : c'.time = c.time := by
    unfold Clock.time
    rw [hdriver]
  rw [htime]
  exact hright d (by rw [← hdue]; exact hd)

/-- **One call**: the time given stays the time owed, but for a first open that comes late. -/
theorem call_right_iff (hreg : c.Registered) (hright : c.Right) :
    (∀ c' ∈ c.call call, c'.Right) ↔ Clock.OpensInTime (some c) call := by
  cases call with
  | openDevice oflag =>
      have hintime : Clock.OpensInTime (some c) (.openDevice oflag) ↔
          (¬ c.dev.Has rtDeviceFlagActivated → c.due = none ∨ c.dev.driver.counter = 0) := by
        constructor
        · exact fun h => h c rfl oflag rfl
        · intro h c' hc' _ _ hnot
          cases hc'
          exact h hnot
      rw [hintime]
      rcases hreg with ⟨hflag, href⟩ | hflag
      · rw [open_right_iff hright hflag href]
        have hnot : ¬ c.dev.Has rtDeviceFlagActivated := by
          unfold RtDevice.Has
          rw [hflag]
          decide
        exact ⟨fun h _ => h, fun h => h hnot⟩
      · have hactivated : c.dev.Has rtDeviceFlagActivated := by
          unfold RtDevice.Has
          rw [hflag]
          decide
        refine iff_of_true (fun c' hc' => ?_) fun hnot => absurd hactivated hnot
        obtain ⟨r, hopen, rfl⟩ := Option.map_eq_some_iff.mp hc'
        rw [rtcOpen_again hflag, rtDeviceCount_ok] at hopen
        split at hopen
        · cases hopen
        · cases hopen
          exact hright.of_driver rfl rfl
  | closeDevice =>
      refine iff_of_true (fun c' hc' => ?_) fun _ _ _ h => RtcCall.noConfusion h
      obtain ⟨r, hclose, rfl⟩ := Option.map_eq_some_iff.mp hc'
      exact hright.of_driver (rtcClose_ok hclose).1 rfl
  | setTime args =>
      refine iff_of_true (fun c' hc' => ?_) fun _ _ _ h => RtcCall.noConfusion h
      cases hc'
      intro d hd
      cases hd
      exact BitVec.zero_add _
  | getTime =>
      refine iff_of_true (fun c' hc' => ?_) fun _ _ _ h => RtcCall.noConfusion h
      cases hc'
      intro d hd
      cases hd
      cases hdue : c.due with
      | none => rfl
      | some d => exact hright d hdue
  | tick =>
      refine iff_of_true (fun c' hc' => ?_) fun _ _ _ h => RtcCall.noConfusion h
      cases hc'
      intro d hd
      obtain ⟨d₀, hdue, rfl⟩ := Option.map_eq_some_iff.mp hd
      have htime : c.dev.driver.counter + c.dev.driver.timeSec = d₀ := hright d₀ hdue
      have hnext : c.dev.driver.counter + 1 + c.dev.driver.timeSec = d₀ + 1 := by
        rw [← htime]
        bv_omega
      exact hnext

theorem call_registered (hreg : c.Registered) (hcall : c' ∈ c.call call) : c'.Registered := by
  cases call with
  | openDevice oflag =>
      obtain ⟨r, hopen, rfl⟩ := Option.map_eq_some_iff.mp hcall
      refine .inr ?_
      rcases hreg with ⟨hflag, href⟩ | hflag
      · rw [rtcOpen_first hflag href] at hopen
        cases hopen
        rfl
      · rw [rtcOpen_again hflag, rtDeviceCount_ok] at hopen
        split at hopen
        · cases hopen
        · cases hopen
          exact hflag
  | closeDevice =>
      obtain ⟨r, hclose, rfl⟩ := Option.map_eq_some_iff.mp hcall
      obtain ⟨-, hflag, href⟩ := rtcClose_ok hclose
      unfold Clock.Registered at *
      rw [hflag]
      exact hreg.imp_left fun h => ⟨h.1, href h.2⟩
  | setTime args => cases hcall; exact hreg
  | getTime => cases hcall; exact hreg
  | tick => cases hcall; exact hreg

end Call

/-! ## 4. Every run -/

/-- **The clock keeps what it was set to exactly in the runs whose first open comes in time.** -/
theorem rtc_keeps_time_iff (counter : Word) (calls : List RtcCall) :
    Along Clock.step (fun s call => ∀ c ∈ Clock.step s call, c.Right) (some (.start counter)) calls ↔
      Along Clock.step Clock.OpensInTime (some (.start counter)) calls := by
  refine along_congr (I := fun s => ∀ c ∈ s, c.Registered ∧ c.Right) ?_ ?_ ?_
  · rintro c hc
    cases hc
    refine ⟨.inl ⟨rfl, rfl⟩, fun d hd => ?_⟩
    cases hd
  · rintro (_ | c) call h
    · exact iff_of_true (fun c hc => by cases hc) fun c hc => by cases hc
    · obtain ⟨hreg, hright⟩ := h c rfl
      exact call_right_iff hreg hright
  · rintro (_ | c) call h hright c' hc'
    · cases hc'
    · exact ⟨call_registered (h c rfl).1 hc', hright c' hc'⟩

/-- Set to 5, one tick, and opened for the first time: the time is 5 again. -/
theorem rtc_forgets_tick :
    ¬ ∀ (counter : Word) (calls : List RtcCall),
      Along Clock.step (fun s call => ∀ c ∈ Clock.step s call, c.Right) (some (.start counter))
        calls := by
  intro h
  obtain ⟨-, -, hopen, -⟩ := h 0 [.setTime 5, .tick, .openDevice 0]
  have hright := hopen _ rfl 6 rfl
  exact absurd hright (by decide)

end Mh1903
