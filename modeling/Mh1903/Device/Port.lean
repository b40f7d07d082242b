/-
  File:      Mh1903/Device/Port.lean
  Subject:   A SERIAL PORT AND ITS INTERRUPTS. What the port was opened for stands in the open flags,
             whether it is heard of in the uart. `mh_configure` resets the uart, also under an open
             port, and an open that finds the structure of a direction there enables nothing.
-/
import Mh1903.Library.Calls
import Mh1903.Model.Devices

namespace Mh1903

open Library

/-! ## 1. Interrupts and directions -/

/-- The uart raises the interrupt of the direction. -/
def Serial.Interrupts (serial : Serial) (side : Side) : Prop := serial.uart.ier &&& side.it ≠ 0

/-- Every direction an open port was opened for has its interrupt. -/
def RtDevice.Hears (dev : RtDevice Serial) : Prop :=
  dev.refCount ≠ 0 → ∀ side : Side, dev.OpenedFor side.flag → dev.driver.Interrupts side

theorem or_and_ne_zero {w : Nat} (x y m : BitVec w) :
    (x ||| y) &&& m ≠ 0 ↔ x &&& m ≠ 0 ∨ y &&& m ≠ 0 := by
  rw [BitVec.and_or_distrib_right]
  exact (not_congr BitVec.or_eq_zero_iff).trans not_and_or

theorem Side.flag_and {side s : Side} : side.flag &&& s.flag ≠ 0 ↔ s = side := by
  cases side <;> cases s <;> decide

theorem Side.it_and {side s : Side} : side.it &&& s.it ≠ 0 ↔ s = side := by
  cases side <;> cases s <;> decide

theorem Serial.allocated_allocate (serial : Serial) (side s : Side) (mem : Bool) :
    (serial.allocate side mem).allocated s = if s = side then mem else serial.allocated s := by
  cases side <;> cases s <;> rfl

/-- `mh_control` enables the interrupt of the direction and no other. -/
theorem interrupts_setInt (serial : Serial) (side s : Side) :
    (mhControl .setInt side.flag serial).Interrupts s ↔ serial.Interrupts s ∨ s = side := by
  have hier : (mhControl .setInt side.flag serial).uart.ier = serial.uart.ier ||| side.it := by
    cases side <;> rfl
  unfold Serial.Interrupts
  rw [hier, or_and_ne_zero, Side.it_and]

theorem interrupts_allocate (serial : Serial) (side s : Side) (mem : Bool) :
    (serial.allocate side mem).Interrupts s ↔ serial.Interrupts s := by
  cases side <;> exact Iff.rfl

/-- A configured uart raises no interrupt. -/
theorem not_interrupts_mhConfigure (cfg : SerialConfigure) (serial : Serial) (side : Side) :
    ¬ (mhConfigure cfg serial).Interrupts side := by
  have hier : (mhConfigure cfg serial).uart.ier = 0 := rfl
  unfold Serial.Interrupts
  rw [hier, not_not]
  exact BitVec.zero_and

/-! ## 2. `rt_serial_open` -/

section Open

variable {side : Side} {mem : Bool} {mems : Side → Bool} {oflag : BitVec 16}
variable {dev dev' : RtDevice Serial}

/-- What one block of the open does: the direction asked for is marked, and its interrupt is enabled
    where its structure is new. -/
structure SideOpened (side : Side) (oflag : BitVec 16) (dev dev' : RtDevice Serial) : Prop where
  flag : dev'.flag = dev.flag
  refCount : dev'.refCount = dev.refCount
  opened : ∀ s : Side, dev'.OpenedFor s.flag ↔
    dev.OpenedFor s.flag ∨ (s = side ∧ oflag &&& side.flag ≠ 0)
  interrupts : ∀ s, dev'.driver.Interrupts s ↔
    dev.driver.Interrupts s ∨
      (s = side ∧ oflag &&& side.flag ≠ 0 ∧ dev.driver.allocated side = false)
  allocated : ∀ s ≠ side, dev'.driver.allocated s = dev.driver.allocated s

theorem openedFor_or {f : BitVec 16} (s : Side) (h : dev'.openFlag = f ||| side.flag) :
    dev'.OpenedFor s.flag ↔ f &&& s.flag ≠ 0 ∨ s = side := by
  unfold RtDevice.OpenedFor
  rw [h, or_and_ne_zero, Side.flag_and]

theorem rtSerialOpenSide_opened (h : rtSerialOpenSide side mem oflag dev = some dev') :
    SideOpened side oflag dev dev' := by
  unfold rtSerialOpenSide at h
  by_cases hask : oflag &&& side.flag = 0
  · rw [if_pos hask] at h
    cases h
    exact ⟨rfl, rfl, fun s => (or_iff_left fun h => h.2 hask).symm,
      fun s => (or_iff_left fun h => h.2.1 hask).symm, fun _ _ => rfl⟩
  · rw [if_neg hask] at h
    cases hall : dev.driver.allocated side with
    | true =>
        rw [hall, if_pos rfl] at h
        cases h
        refine ⟨rfl, rfl, fun s => ?_, fun s => (or_iff_left fun h => ?_).symm, fun _ _ => rfl⟩
        · rw [openedFor_or s rfl, and_iff_left hask]
          exact Iff.rfl
        · rw [hall] at h
          exact Bool.noConfusion h.2.2
    | false =>
        rw [hall, if_neg Bool.false_ne_true] at h
        split at h
        · cases h
          refine ⟨rfl, rfl, fun s => ?_, fun s => ?_, fun s hs => ?_⟩
          · rw [openedFor_or s rfl, and_iff_left hask]
            exact Iff.rfl
          · rw [interrupts_setInt, interrupts_allocate, hall]
            exact or_congr_right ⟨fun h => ⟨h, hask, rfl⟩, fun h => h.1⟩
          · have hkept : (mhControl .setInt side.flag (dev.driver.allocate side true)).allocated s =
                (dev.driver.allocate side true).allocated s := by cases s <;> rfl
            rw [hkept, Serial.allocated_allocate, if_neg hs]
        · cases h

/-- A block halts for want of memory, and for nothing else. -/
theorem rtSerialOpenSide_isSome : (∃ dev', rtSerialOpenSide side mem oflag dev = some dev') ↔
    (oflag &&& side.flag ≠ 0 → dev.driver.allocated side = true ∨ mem = true) := by
  unfold rtSerialOpenSide
  by_cases hask : oflag &&& side.flag = 0
  · rw [if_pos hask]
    exact iff_of_true ⟨dev, rfl⟩ fun h => absurd hask h
  · rw [if_neg hask]
    have hask' : oflag &&& side.flag ≠ 0 := hask
    rw [imp_iff_right hask']
    cases dev.driver.allocated side <;> cases mem <;> simp

/-- What an accepted open does. -/
structure Opened (oflag : BitVec 16) (dev dev' : RtDevice Serial) : Prop where
  flag : dev'.flag = dev.flag
  refCount : dev'.refCount = dev.refCount
  opened : ∀ s : Side, dev'.OpenedFor s.flag ↔ oflag &&& s.flag ≠ 0
  interrupts : ∀ s : Side, dev'.driver.Interrupts s ↔
    dev.driver.Interrupts s ∨ (oflag &&& s.flag ≠ 0 ∧ dev.driver.allocated s = false)

/-- The device as the first block finds it: only the low byte of `oflag` is in the open flags. -/
theorem not_openedFor_low (s : Side) :
    ¬ RtDevice.OpenedFor { dev with openFlag := oflag &&& 0xff } s.flag := by
  have hlow : (0xff : BitVec 16) &&& s.flag = 0 := by cases s <;> rfl
  unfold RtDevice.OpenedFor
  rw [not_not, BitVec.and_assoc, hlow]
  exact BitVec.and_zero

/-- The stream flag is no flag of a direction. -/
theorem openedFor_stream {f stream : BitVec 16} (hstream : stream = rtDeviceFlagStream ∨ stream = 0)
    (s : Side) : (f ||| stream) &&& s.flag ≠ 0 ↔ f &&& s.flag ≠ 0 := by
  rw [or_and_ne_zero]
  refine or_iff_left (not_not.mpr ?_)
  rcases hstream with rfl | rfl <;> cases s <;> rfl

theorem rtSerialOpen_opened (hacc : rtSerialAccepts oflag dev = true) {r : Int × RtDevice Serial}
    (h : rtSerialOpen mems oflag dev = some r) : r.1 = rtEok ∧ Opened oflag dev r.2 := by
  unfold rtSerialOpen at h
  rw [if_neg (not_not.mpr hacc)] at h
  obtain ⟨dev₁, hrx, h⟩ := Option.bind_eq_some_iff.mp h
  obtain ⟨dev₂, htx, h⟩ := Option.bind_eq_some_iff.mp h
  cases h
  have h₁ := rtSerialOpenSide_opened hrx
  have h₂ := rtSerialOpenSide_opened htx
  refine ⟨rfl, h₂.flag.trans h₁.flag, h₂.refCount.trans h₁.refCount, fun s => ?_, fun s => ?_⟩
  · refine (openedFor_stream (by split <;> simp) s).trans ((h₂.opened s).trans ?_)
    rw [h₁.opened s, or_iff_right (not_openedFor_low s)]
    cases s <;> simp
  · refine (h₂.interrupts s).trans ?_
    rw [h₁.interrupts s, h₁.allocated .tx (by decide)]
    cases s <;> simp [Serial.allocated]

/-- The open of the port returns exactly where there is memory for what it allocates. -/
theorem rtSerialOpen_isSome (hacc : rtSerialAccepts oflag dev = true) :
    (∃ r, rtSerialOpen mems oflag dev = some r) ↔
      ∀ s : Side, oflag &&& s.flag ≠ 0 → dev.driver.allocated s = true ∨ mems s = true := by
  unfold rtSerialOpen
  rw [if_neg (not_not.mpr hacc)]
  constructor
  · rintro ⟨r, h⟩ s hask
    obtain ⟨dev₁, hrx, h⟩ := Option.bind_eq_some_iff.mp h
    obtain ⟨dev₂, htx, -⟩ := Option.bind_eq_some_iff.mp h
    cases s with
    | rx =>
        have hmem := rtSerialOpenSide_isSome.mp ⟨_, hrx⟩ hask
        exact hmem
    | tx =>
        have hmem := rtSerialOpenSide_isSome.mp ⟨_, htx⟩ hask
        rw [(rtSerialOpenSide_opened hrx).allocated .tx (by decide)] at hmem
        exact hmem
  · intro hmem
    obtain ⟨dev₁, hrx⟩ : ∃ dev₁, rtSerialOpenSide .rx (mems .rx) oflag
        { dev with openFlag := oflag &&& 0xff } = some dev₁ :=
      rtSerialOpenSide_isSome.mpr (hmem .rx)
    obtain ⟨dev₂, htx⟩ : ∃ dev₂, rtSerialOpenSide .tx (mems .tx) oflag dev₁ = some dev₂ := by
      refine rtSerialOpenSide_isSome.mpr fun hask => ?_
      rw [(rtSerialOpenSide_opened hrx).allocated .tx (by decide)]
      exact hmem .tx hask
    exact ⟨_, Option.bind_eq_some_iff.mpr
      ⟨dev₁, hrx, Option.bind_eq_some_iff.mpr ⟨dev₂, htx, rfl⟩⟩⟩

end Open

/-! ## 3. Runs -/

/-- The calls on the port. `mems` says which allocations of an open succeed. -/
inductive SerialCall where
  | openDevice (oflag : BitVec 16) (mems : Side → Bool)
  | closeDevice
  | config (cfg : SerialConfigure)

def RtDevice.serialCall (dev : RtDevice Serial) : SerialCall → Option (RtDevice Serial)
  | .openDevice oflag mems => (rtDeviceOpen (serialOps mems) oflag dev).map Prod.snd
  | .closeDevice => (rtDeviceClose (serialOps fun _ => true) dev).map Prod.snd
  | .config cfg => some (rtSerialConfig cfg dev).2

/-- A halted system takes no call. -/
def serialStep (s : Option (RtDevice Serial)) (call : SerialCall) : Option (RtDevice Serial) :=
  s.bind (·.serialCall call)

/-- The call opens the port once more: the flags are accepted, there is memory for the structures
    that are missing, and the count has room. -/
structure OpensAgain (oflag : BitVec 16) (mems : Side → Bool) (dev : RtDevice Serial) : Prop where
  accepts : rtSerialAccepts oflag dev = true
  memory : ∀ s : Side, oflag &&& s.flag ≠ 0 → dev.driver.allocated s = true ∨ mems s = true
  count : dev.refCount ≠ 255

/-- An open of an open port asks for no direction whose structure is there without its interrupt, and
    an open port is configured only while it is open for no direction. -/
def Heeds (s : Option (RtDevice Serial)) (call : SerialCall) : Prop :=
  ∀ dev ∈ s,
    (∀ oflag mems, call = .openDevice oflag mems → dev.Has rtDeviceFlagActivated →
      OpensAgain oflag mems dev →
      ∀ side : Side, oflag &&& side.flag ≠ 0 → dev.driver.allocated side = true →
        dev.driver.Interrupts side) ∧
    (∀ cfg, call = .config cfg → dev.refCount ≠ 0 → cfg.bufsz = dev.driver.config.bufsz →
      ∀ side : Side, ¬ dev.OpenedFor side.flag)

/-- The flags a uart is registered with. -/
def uartFlags : BitVec 16 := rtDeviceFlagRdwr ||| rtDeviceFlagIntRx ||| rtDeviceFlagIntTx

/-- A port that nobody has open, or an activated one. -/
def RtDevice.UartReady (dev : RtDevice Serial) : Prop :=
  (dev.flag = uartFlags ∧ dev.refCount = 0) ∨ dev.flag = uartFlags ||| rtDeviceFlagActivated

section Step

variable {dev dev' : RtDevice Serial} {oflag : BitVec 16} {mems : Side → Bool}

/-- The port behind the first statement of `rt_device_open`. -/
def RtDevice.activated (dev : RtDevice Serial) : RtDevice Serial :=
  (rtDeviceActivate (serialOps fun _ => true) dev).2

theorem activated_of_has (h : dev.Has rtDeviceFlagActivated) : dev.activated = dev := by
  unfold RtDevice.activated rtDeviceActivate
  rw [if_neg (not_not.mpr h)]

theorem activated_of_not (h : ¬ dev.Has rtDeviceFlagActivated) :
    dev.activated =
      { (rtSerialInit dev).2 with flag := dev.flag ||| rtDeviceFlagActivated } := by
  unfold RtDevice.activated rtDeviceActivate
  rw [if_pos h]
  rfl

theorem UartReady.has_iff (h : dev.UartReady) :
    dev.Has rtDeviceFlagActivated ↔ dev.flag = uartFlags ||| rtDeviceFlagActivated := by
  unfold RtDevice.Has
  rcases h with ⟨hflag, -⟩ | hflag <;> rw [hflag] <;> decide

theorem UartReady.activated_flag (h : dev.UartReady) :
    dev.activated.flag = uartFlags ||| rtDeviceFlagActivated := by
  by_cases hact : dev.Has rtDeviceFlagActivated
  · rw [activated_of_has hact]
    exact (UartReady.has_iff h).mp hact
  · rw [activated_of_not hact]
    rcases h with ⟨hflag, -⟩ | hflag
    · exact congrArg (· ||| rtDeviceFlagActivated) hflag
    · exact absurd ((UartReady.has_iff (.inr hflag)).mpr hflag) hact

/-- The open of a port: the block of `serial.c` on the activated port, and the count. -/
theorem uartOpen_eq (h : dev.UartReady) :
    rtDeviceOpen (serialOps mems) oflag dev =
      (rtSerialOpen mems oflag dev.activated).bind fun r => rtDeviceCount r.1 r.2 := by
  have hinit : (rtDeviceActivate (serialOps mems) dev).1 = rtEok := by
    unfold rtDeviceActivate
    split <;> rfl
  refine rtDeviceOpen_eq hinit fun hshared => hshared ?_
  have hflag : (rtDeviceActivate (serialOps mems) dev).2.flag = _ := UartReady.activated_flag h
  rw [hflag]
  decide

/-- The port as an open of `serial.c` finds it hears of what it hears of, unless the open
    initialises it; then no structure is there. -/
theorem activated_cases (h : dev.UartReady) :
    (dev.Has rtDeviceFlagActivated ∧ dev.activated = dev) ∨
    (¬ dev.Has rtDeviceFlagActivated ∧ dev.activated.refCount = 0 ∧ dev.refCount = 0 ∧
      ∀ s, dev.activated.driver.allocated s = false) := by
  by_cases hact : dev.Has rtDeviceFlagActivated
  · exact .inl ⟨hact, activated_of_has hact⟩
  · have href : dev.refCount = 0 := by
      rcases h with ⟨-, href⟩ | hflag
      · exact href
      · exact absurd ((UartReady.has_iff (.inr hflag)).mpr hflag) hact
    rw [activated_of_not hact]
    exact .inr ⟨hact, href, href, fun s => by cases s <;> rfl⟩

/-- The open flag is no flag of a direction. -/
theorem openedFor_counted (s : Side) {f : BitVec 16} :
    (f ||| rtDeviceOflagOpen) &&& s.flag ≠ 0 ↔ f &&& s.flag ≠ 0 := by
  rw [or_and_ne_zero]
  exact or_iff_left (not_not.mpr (by cases s <;> rfl))

/-- An opened port hears of what was asked for where its interrupt was enabled before or its
    structure is new. -/
theorem counted_hears_iff {opened : RtDevice Serial} (h : Opened oflag dev opened)
    (hfull : opened.refCount ≠ 255) :
    RtDevice.Hears { opened with
      openFlag := opened.openFlag ||| rtDeviceOflagOpen, refCount := opened.refCount + 1 } ↔
    ∀ side : Side, oflag &&& side.flag ≠ 0 →
      dev.driver.Interrupts side ∨ dev.driver.allocated side = false := by
  constructor
  · intro hhears side hask
    have hcount : opened.refCount + 1 ≠ 0 := by bv_omega
    have hfor := (openedFor_counted side).mpr ((h.opened side).mpr hask)
    exact ((h.interrupts side).mp (hhears hcount side hfor)).imp_right fun hnew => hnew.2
  · intro hsides _ side hfor
    have hask := (h.opened side).mp ((openedFor_counted side).mp hfor)
    exact (h.interrupts side).mpr ((hsides side hask).imp_right fun hnew => ⟨hask, hnew⟩)

/-- A port where an accepted open returned is open, and once more, if the count has room. -/
theorem uartOpen_accepted (hready : dev.UartReady)
    (hacc : rtSerialAccepts oflag dev.activated = true) {r : Int × RtDevice Serial}
    (hopen : rtSerialOpen mems oflag dev.activated = some r) :
    (rtDeviceOpen (serialOps mems) oflag dev).map Prod.snd =
      if r.2.refCount = 255 then none
      else some { r.2 with
        openFlag := r.2.openFlag ||| rtDeviceOflagOpen, refCount := r.2.refCount + 1 } := by
  obtain ⟨result, opened⟩ := r
  obtain ⟨rfl, -⟩ := rtSerialOpen_opened hacc hopen
  rw [uartOpen_eq hready, hopen, Option.bind_some, rtDeviceCount_ok]
  split <;> rfl

/-- A refused open activates the port, and nothing else. -/
theorem uartOpen_refused (hready : dev.UartReady)
    (hacc : ¬ rtSerialAccepts oflag dev.activated = true) :
    (rtDeviceOpen (serialOps mems) oflag dev).map Prod.snd = some dev.activated := by
  have hrefused : rtSerialOpen mems oflag dev.activated = some (-rtEio, dev.activated) := if_pos hacc
  have hcount : rtDeviceCount (-rtEio) dev.activated = some (-rtEio, dev.activated) :=
    if_neg (by decide)
  rw [uartOpen_eq hready, hrefused, Option.bind_some, hcount]
  rfl

/-- **An open** leaves a port that hears, unless it asks for a direction whose structure is there
    without its interrupt. -/
theorem open_hears_iff (hready : dev.UartReady) (hhears : dev.Hears) :
    (∀ dev' ∈ (rtDeviceOpen (serialOps mems) oflag dev).map Prod.snd, dev'.Hears) ↔
      (dev.Has rtDeviceFlagActivated → OpensAgain oflag mems dev →
        ∀ side : Side, oflag &&& side.flag ≠ 0 → dev.driver.allocated side = true →
          dev.driver.Interrupts side) := by
  by_cases hacc : rtSerialAccepts oflag dev.activated = true
  · cases hopen : rtSerialOpen mems oflag dev.activated with
    | none =>
        rw [uartOpen_eq hready, hopen]
        refine iff_of_true (fun dev' hdev' => by cases hdev') fun hact hagain => ?_
        rw [activated_of_has hact] at hopen
        obtain ⟨r, hr⟩ := (rtSerialOpen_isSome hagain.accepts).mpr hagain.memory
        rw [hr] at hopen
        cases hopen
    | some r =>
        have hopened := (rtSerialOpen_opened hacc hopen).2
        rw [uartOpen_accepted hready hacc hopen]
        by_cases hfull : r.2.refCount = 255
        · rw [if_pos hfull]
          refine iff_of_true (fun dev' hdev' => by cases hdev') fun hact hagain => ?_
          rw [hopened.refCount, activated_of_has hact] at hfull
          exact absurd hfull hagain.count
        · rw [if_neg hfull]
          simp only [Option.mem_some_iff, forall_eq']
          rw [counted_hears_iff hopened hfull]
          rcases activated_cases hready with ⟨hact, heq⟩ | ⟨hnot, -, -, hnew⟩
          · rw [hopened.refCount] at hfull
            rw [heq] at hacc hopen hfull ⊢
            have hagain : OpensAgain oflag mems dev :=
              ⟨hacc, (rtSerialOpen_isSome hacc).mp ⟨r, hopen⟩, hfull⟩
            constructor
            · intro h _ _ side hask hall
              refine (h side hask).resolve_right fun hnone => ?_
              rw [hall] at hnone
              exact Bool.noConfusion hnone
            · intro h side hask
              cases hall : dev.driver.allocated side with
              | true => exact .inl (h hact hagain side hask hall)
              | false => exact .inr rfl
          · exact iff_of_true (fun side _ => .inr (hnew side)) fun hact => absurd hact hnot
  · rw [uartOpen_refused hready hacc]
    simp only [Option.mem_some_iff, forall_eq']
    rcases activated_cases hready with ⟨hact, heq⟩ | ⟨hnot, href, -, -⟩
    · rw [heq] at hacc ⊢
      exact iff_of_true hhears fun _ hagain => absurd hagain.accepts hacc
    · exact iff_of_true (fun h => absurd href h) fun hact => absurd hact hnot

/-- **A configuration** under an open port takes the interrupts of every direction. -/
theorem config_hears_iff (hhears : dev.Hears) (cfg : SerialConfigure) :
    (rtSerialConfig cfg dev).2.Hears ↔
      (dev.refCount ≠ 0 → cfg.bufsz = dev.driver.config.bufsz →
        ∀ side : Side, ¬ dev.OpenedFor side.flag) := by
  unfold rtSerialConfig
  by_cases hopen : dev.refCount = 0
  · rw [if_neg fun h => h.2 hopen]
    exact iff_of_true (fun h => absurd hopen h) fun h => absurd hopen h
  · by_cases hbufsz : cfg.bufsz = dev.driver.config.bufsz
    · rw [if_neg fun h => h.1 hbufsz]
      constructor
      · intro h _ _ side hfor
        refine not_interrupts_mhConfigure cfg { dev.driver with config := cfg } side ?_
        have hdeaf := h hopen side hfor
        simp only [if_pos hopen] at hdeaf
        exact hdeaf
      · intro h _ side hfor
        exact absurd hfor (h hopen hbufsz side)
    · rw [if_pos ⟨hbufsz, hopen⟩]
      exact iff_of_true hhears fun _ h => absurd h hbufsz

theorem rtSerialCloseSide_ok {side : Side} (h : rtSerialCloseSide side dev = some dev') :
    dev'.flag = dev.flag ∧ dev'.refCount = dev.refCount := by
  unfold rtSerialCloseSide at h
  split at h
  · cases h
    exact ⟨rfl, rfl⟩
  · split at h
    · cases h
      exact ⟨rfl, rfl⟩
    · cases h

/-- The last close of a port deactivates it. -/
theorem rtSerialClose_ok {r : Int × RtDevice Serial} (href : dev.refCount = 0)
    (h : rtSerialClose dev = some r) :
    r.1 = rtEok ∧ r.2.refCount = 0 ∧ r.2.flag = dev.flag &&& ~~~rtDeviceFlagActivated := by
  unfold rtSerialClose at h
  rw [if_neg (by rw [href]; decide)] at h
  obtain ⟨dev₁, hrx, h⟩ := Option.bind_eq_some_iff.mp h
  obtain ⟨dev₂, htx, h⟩ := Option.bind_eq_some_iff.mp h
  cases h
  obtain ⟨hflag₁, href₁⟩ := rtSerialCloseSide_ok hrx
  obtain ⟨hflag₂, href₂⟩ := rtSerialCloseSide_ok htx
  exact ⟨rfl, href₂.trans (href₁.trans href),
    congrArg (· &&& ~~~rtDeviceFlagActivated) (hflag₂.trans hflag₁)⟩

/-- A close counts, or leaves a port that is not open. -/
theorem uartClose_cases {r : Int × RtDevice Serial}
    (h : rtDeviceClose (serialOps mems) dev = some r) :
    r.2 = dev ∨ (dev.refCount ≠ 0 ∧ r.2 = { dev with refCount := dev.refCount - 1 }) ∨
    (r.2.refCount = 0 ∧ r.2.flag = dev.flag &&& ~~~rtDeviceFlagActivated) := by
  by_cases href : dev.refCount = 0
  · have hclosed : rtDeviceClose (serialOps mems) dev = some (-rtError, dev) := if_pos href
    rw [hclosed] at h
    cases h
    exact .inl rfl
  · by_cases hmore : dev.refCount - 1 = 0
    · unfold rtDeviceClose at h
      rw [if_neg href, if_neg (not_not.mpr hmore)] at h
      obtain ⟨closed, hclose, h⟩ := Option.bind_eq_some_iff.mp h
      obtain ⟨hok, hzero, hflag⟩ := rtSerialClose_ok hmore hclose
      rw [if_pos (.inl hok)] at h
      cases h
      exact .inr (.inr ⟨hzero, hflag⟩)
    · rw [rtDeviceClose_count href hmore] at h
      cases h
      exact .inr (.inl ⟨href, rfl⟩)

theorem uartClose_hears {r : Int × RtDevice Serial} (hhears : dev.Hears)
    (h : rtDeviceClose (serialOps mems) dev = some r) : r.2.Hears := by
  rcases uartClose_cases h with heq | ⟨href, heq⟩ | ⟨hzero, -⟩
  · rw [heq]
    exact hhears
  · rw [heq]
    exact fun _ => hhears href
  · exact fun h => absurd hzero h

/-- **Every call keeps a port ready.** -/
theorem serialCall_ready {call : SerialCall} (hready : dev.UartReady)
    (h : dev.serialCall call = some dev') : dev'.UartReady := by
  have hflag : dev.flag &&& ~~~rtDeviceFlagActivated = uartFlags := by
    rcases hready with ⟨hflag, -⟩ | hflag <;> rw [hflag] <;> decide
  cases call with
  | openDevice oflag mems =>
      refine .inr ?_
      have hopen : (rtDeviceOpen (serialOps mems) oflag dev).map Prod.snd = some dev' := h
      by_cases hacc : rtSerialAccepts oflag dev.activated = true
      · cases hr : rtSerialOpen mems oflag dev.activated with
        | none =>
            rw [uartOpen_eq hready, hr] at hopen
            cases hopen
        | some r =>
            rw [uartOpen_accepted hready hacc hr] at hopen
            split at hopen
            · cases hopen
            · cases hopen
              exact (rtSerialOpen_opened hacc hr).2.flag.trans (UartReady.activated_flag hready)
      · rw [uartOpen_refused hready hacc] at hopen
        cases hopen
        exact UartReady.activated_flag hready
  | closeDevice =>
      obtain ⟨r, hclose, rfl⟩ := Option.map_eq_some_iff.mp h
      rcases uartClose_cases hclose with heq | ⟨href, heq⟩ | ⟨hzero, hoff⟩
      · rw [heq]
        exact hready
      · rw [heq]
        exact hready.imp (fun hclosed => absurd hclosed.2 href) id
      · exact .inl ⟨hoff.trans hflag, hzero⟩
  | config cfg =>
      cases h
      unfold rtSerialConfig
      split <;> exact hready

end Step

/-! ## 4. Every run -/

theorem serialCall_hears_iff {dev : RtDevice Serial} (hready : dev.UartReady) (hhears : dev.Hears)
    (call : SerialCall) :
    (∀ dev' ∈ dev.serialCall call, dev'.Hears) ↔ Heeds (some dev) call := by
  have hheeds : Heeds (some dev) call ↔
      (∀ oflag mems, call = .openDevice oflag mems → dev.Has rtDeviceFlagActivated →
        OpensAgain oflag mems dev →
        ∀ side : Side, oflag &&& side.flag ≠ 0 → dev.driver.allocated side = true →
          dev.driver.Interrupts side) ∧
      (∀ cfg, call = .config cfg → dev.refCount ≠ 0 → cfg.bufsz = dev.driver.config.bufsz →
        ∀ side : Side, ¬ dev.OpenedFor side.flag) :=
    ⟨fun h => h dev rfl, fun h dev' hdev' => by cases hdev'; exact h⟩
  rw [hheeds]
  cases call with
  | openDevice oflag mems =>
      refine (open_hears_iff hready hhears).trans ⟨fun h => ⟨?_, fun cfg hcfg => ?_⟩, fun h => ?_⟩
      · intro oflag' mems' heq
        cases heq
        exact h
      · cases hcfg
      · exact h.1 oflag mems rfl
  | closeDevice =>
      refine iff_of_true (fun dev' hdev' => ?_)
        ⟨fun _ _ h => SerialCall.noConfusion h, fun _ h => SerialCall.noConfusion h⟩
      obtain ⟨r, hclose, rfl⟩ := Option.map_eq_some_iff.mp hdev'
      exact uartClose_hears hhears hclose
  | config cfg =>
      have hconfig : (∀ dev' ∈ dev.serialCall (.config cfg), dev'.Hears) ↔
          (rtSerialConfig cfg dev).2.Hears :=
        ⟨fun h => h _ rfl, fun h dev' hdev' => by cases hdev'; exact h⟩
      refine (hconfig.trans (config_hears_iff hhears cfg)).trans
        ⟨fun h => ⟨fun _ _ h => SerialCall.noConfusion h, ?_⟩, fun h => h.2 cfg rfl⟩
      intro cfg' heq
      cases heq
      exact h

/-- **A port hears in exactly the runs that heed what an open and a configuration leave of the
    interrupts.** -/
theorem serial_hears_iff (pclk : Word) (uart : Uart) (calls : List SerialCall) :
    Along serialStep (fun s call => ∀ dev ∈ serialStep s call, dev.Hears)
        (some (rtHwUsartInit pclk uart)) calls ↔
      Along serialStep Heeds (some (rtHwUsartInit pclk uart)) calls := by
  refine along_congr (I := fun s => ∀ dev ∈ s, dev.UartReady ∧ dev.Hears) ?_ ?_ ?_
  · intro dev hdev
    cases hdev
    exact ⟨.inl ⟨rfl, rfl⟩, fun h => absurd rfl h⟩
  · rintro (_ | dev) call h
    · exact iff_of_true (fun dev hdev => by cases hdev) fun dev hdev => by cases hdev
    · obtain ⟨hready, hhears⟩ := h dev rfl
      exact serialCall_hears_iff hready hhears call
  · rintro (_ | dev) call h hhears dev' hdev'
    · cases hdev'
    · exact ⟨serialCall_ready (h dev rfl).1 hdev', hhears dev' hdev'⟩

/-- Opened for receiving and configured to another baud rate: nothing is heard any more. -/
theorem serial_deaf_after_config :
    ¬ ∀ (pclk : Word) (uart : Uart) (calls : List SerialCall),
      Along serialStep (fun s call => ∀ dev ∈ serialStep s call, dev.Hears)
        (some (rtHwUsartInit pclk uart)) calls := by
  intro h
  obtain ⟨-, hconfig, -⟩ := h 0 ⟨0, 0, 0, 0⟩
    [.openDevice rtDeviceFlagIntRx fun _ => true, .config ⟨9600, 8, 0, 0, .ofNat 16 rtSerialRbBufsz⟩]
  have hrx := hconfig _ rfl (by decide) .rx (by decide)
  exact absurd hrx (by unfold Serial.Interrupts; decide)

end Mh1903
