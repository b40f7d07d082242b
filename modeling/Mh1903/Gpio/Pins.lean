/-
  File:      Mh1903/Gpio/Pins.lean
  Subject:   WHAT A PIN REMEMBERS. A pin is six bits spread over three registers and the marks of
             `mhscpu_gpio.c`; every call changes those of its own pin only (`bits_mode`,
             `bits_write`). The input modes leave the open-drain mark of an earlier OUTPUT_OD behind,
             and all of them switch the pull-up on.
-/
import Mh1903.Library.Calls
import Mh1903.Model.Gpio

namespace Mh1903

open Library

/-! ## 1. Single bits -/

theorem pinNo_lt (pin : Word) : pinNo pin < 16 := by
  unfold pinNo
  rw [BitVec.toNat_and]
  exact Nat.and_lt_two_pow _ (by decide : 0xF < 2 ^ 4)

theorem getLsbD_one_shiftLeft {k : Nat} (hk : k < 16) (j : Nat) :
    ((1 : BitVec 16) <<< k).getLsbD j = decide (j = k) := by
  rw [show (1 : BitVec 16) = 1#16 from rfl, ← BitVec.twoPow_eq, BitVec.getLsbD_twoPow]
  by_cases h : j = k
  · simp [h, hk]
  · simp [h, Ne.symm h]

theorem getLsbD_pinStpin (pin : Word) (j : Nat) :
    (pinStpin pin).getLsbD j = decide (j = pinNo pin) := getLsbD_one_shiftLeft (pinNo_lt pin) j

/-- A mask of one bit finds that bit. -/
theorem and_shiftLeft_ne_zero (x : BitVec 16) {k : Nat} (hk : k < 16) :
    x &&& ((1 : BitVec 16) <<< k) ≠ 0 ↔ x.getLsbD k = true := by
  constructor
  · intro h
    by_contra hclear
    refine h (BitVec.eq_of_getLsbD_eq fun j hj => ?_)
    rw [BitVec.getLsbD_and, getLsbD_one_shiftLeft hk]
    by_cases hj' : j = k
    · subst hj'
      simpa using hclear
    · simp [hj']
  · intro h hzero
    have hbit := congrArg (BitVec.getLsbD · k) hzero
    simp only [BitVec.getLsbD_and, getLsbD_one_shiftLeft hk, h] at hbit
    simp at hbit

/-- A loop that acts at one index only. -/
theorem foldl_range_hit {α : Type} {P : Nat → Prop} [DecidablePred P] (f : α → Nat → α) (a : α)
    {k n : Nat} (hP : ∀ i < n, P i ↔ i = k) :
    (List.range n).foldl (fun a i => if P i then f a i else a) a = if k < n then f a k else a := by
  induction n with
  | zero => rfl
  | succ n ih =>
      rw [List.range_succ, List.foldl_append, ih fun i hi => hP i (by omega), List.foldl_cons,
        List.foldl_nil]
      by_cases hn : n = k
      · rw [if_pos ((hP n (by omega)).mpr hn), if_neg (by omega), if_pos (by omega), hn]
      · rw [if_neg fun h => hn ((hP n (by omega)).mp h)]
        by_cases hlt : k < n
        · rw [if_pos hlt, if_pos (by omega)]
        · rw [if_neg hlt, if_neg (by omega)]

/-- A field of two bits, moved to pin `k`, is read there only. -/
theorem getLsbD_field {c : Word} (hc : ∀ j < 32, 2 ≤ j → c.getLsbD j = false) {k m i : Nat}
    (hk : k < 16) (hm : m < 16) (hi : i < 2) :
    (c <<< (k * 2)).getLsbD (m * 2 + i) = (decide (m = k) && c.getLsbD i) := by
  have hin : m * 2 + i < 32 := by omega
  rw [BitVec.getLsbD_shiftLeft]
  by_cases h : m = k
  · subst h
    simp [hin]
  · rcases Nat.lt_or_gt_of_ne h with hlt | hgt
    · have hlow : m * 2 + i < k * 2 := by omega
      simp [h, hlow]
    · have hhigh := hc (m * 2 + i - k * 2) (by omega) (by omega)
      simp [h, hhigh]

/-- A field of two bits set to `c`; all other bits stay. -/
theorem getLsbD_setField (w : Word) {c : Word} (hc : ∀ j < 32, 2 ≤ j → c.getLsbD j = false)
    {k : Nat} (hk : k < 16) (m : Nat) {i : Nat} (hi : i < 2) :
    (w &&& ~~~((3 : Word) <<< (k * 2)) ||| c <<< (k * 2)).getLsbD (m * 2 + i) =
      if m = k then c.getLsbD i else w.getLsbD (m * 2 + i) := by
  by_cases hm : m < 16
  · have hin : m * 2 + i < 32 := by omega
    have hthree : ∀ i < 2, (3 : Word).getLsbD i = true := by decide
    have hmask : ((3 : Word) <<< (k * 2)).getLsbD (m * 2 + i) = decide (m = k) := by
      rw [getLsbD_field (by decide) hk hm hi, hthree i hi, Bool.and_true]
    rw [BitVec.getLsbD_or, BitVec.getLsbD_and, BitVec.getLsbD_not, hmask, getLsbD_field hc hk hm hi]
    by_cases h : m = k
    · simp [h]
    · simp [h, hin]
  · have hout : 32 ≤ m * 2 + i := by omega
    have hne : m ≠ k := by omega
    rw [if_neg hne, BitVec.getLsbD_of_ge _ _ hout, BitVec.getLsbD_of_ge _ _ hout]

/-- The loops over a pin mask act at the number of the pin. -/
theorem foldl_pinStpin {α : Type} (f : α → Nat → α) (a : α) (pin : Word) :
    (List.range 16).foldl
      (fun a i => if pinStpin pin &&& ((1 : BitVec 16) <<< i) ≠ 0 then f a i else a) a =
      f a (pinNo pin) := by
  have hbit : ∀ i < 16, (pinStpin pin &&& ((1 : BitVec 16) <<< i) ≠ 0) ↔ i = pinNo pin := by
    intro i hi
    rw [and_shiftLeft_ne_zero _ hi, getLsbD_pinStpin]
    exact decide_eq_true_iff
  rw [foldl_range_hit _ _ hbit, if_pos (pinNo_lt pin)]

/-! ## 2. Pins -/

/-- A pin of ports A to F, by its number. -/
structure Pin where
  num : Word
  onPort : pinPort num < pinStportMax

/-- Numbers of one and the same pin. -/
def Pin.Same (q p : Pin) : Prop := pinPort q.num = pinPort p.num ∧ pinNo q.num = pinNo p.num

instance (q p : Pin) : Decidable (q.Same p) := inferInstanceAs (Decidable (_ ∧ _))

/-- The one pin whose pull-up follows its level. -/
def Pin.isPa10 (p : Pin) : Bool := pinPort p.num = 0 ∧ pinNo p.num = 10

inductive PinMode where
  | output
  | input
  | inputPullup
  | inputPulldown
  | outputOd
  deriving DecidableEq

def PinMode.toWord : PinMode → Word
  | .output => pinModeOutput
  | .input => pinModeInput
  | .inputPullup => pinModeInputPullup
  | .inputPulldown => pinModeInputPulldown
  | .outputOd => pinModeOutputOd

inductive PinCall where
  | mode (pin : Pin) (mode : PinMode)
  | write (pin : Pin) (value : Word)

def Gpio.step (s : Gpio) : PinCall → Gpio
  | .mode pin mode => mhPinMode s pin.num mode.toWord
  | .write pin value => mhPinWrite s pin.num value

/-! ## 3. The bits of a pin -/

/-- What the registers of a port hold for one pin. -/
structure PortBits where
  oen : Bool
  pullUp : Bool
  latch : Bool
  deriving DecidableEq

def GpioPort.bits (r : GpioPort) (no : Nat) : PortBits :=
  ⟨r.oen.getLsbD no, r.pue.getLsbD no, r.iodr.getLsbD no⟩

/-- With the open-drain mark and the function of the pin. -/
structure PinBits extends PortBits where
  openDrain : Bool
  remap : Bool × Bool
  deriving DecidableEq

def Gpio.bits (s : Gpio) (pin : Pin) : PinBits where
  toPortBits := (s.port (pinPort pin.num)).bits (pinNo pin.num)
  openDrain := (s.odMark (pinPort pin.num)).getLsbD (pinNo pin.num)
  remap := ((s.alt (pinPort pin.num)).getLsbD (pinNo pin.num * 2),
    (s.alt (pinPort pin.num)).getLsbD (pinNo pin.num * 2 + 1))

/-- What `mh_pin_mode` makes of them: the input modes are one. -/
def PinBits.mode (b : PinBits) : PinMode → PinBits
  | .output => ⟨⟨false, false, true⟩, false, true, false⟩
  | .outputOd => ⟨⟨true, false, false⟩, true, true, false⟩
  | .input | .inputPullup | .inputPulldown =>
      { b with oen := true, pullUp := true, remap := (true, false) }

/-- The bits of a pin put on `value`: `OEN` of a marked pin, the latch of any other. -/
def PinBits.put (b : PinBits) (value : Bool) : PinBits :=
  if b.openDrain then { b with oen := value } else { b with latch := value }

/-- What `mh_pin_write` makes of them. -/
def PinBits.write (b : PinBits) (pa10 value : Bool) : PinBits :=
  (if pa10 then { b with pullUp := value } else b).put value

/-! ## 4. Registers of one port -/

/-- `f` does `g` to the bits of pin `k` and nothing to the others. -/
def ActsAt (k : Nat) (f : GpioPort → GpioPort) (g : PortBits → PortBits) : Prop :=
  ∀ r, ∀ j < 16, (f r).bits j = if j = k then g (r.bits j) else r.bits j

section Masks

variable (w : Word) (x : BitVec 16) {j : Nat} (hj : j < 16)
include hj

theorem getLsbD_or_mask : (w ||| x.setWidth 32).getLsbD j = (w.getLsbD j || x.getLsbD j) := by
  have hj' : j < 32 := by omega
  rw [BitVec.getLsbD_or, BitVec.getLsbD_setWidth, decide_eq_true hj', Bool.true_and]

theorem getLsbD_and_not_mask :
    (w &&& ~~~x.setWidth 32).getLsbD j = (w.getLsbD j && !x.getLsbD j) := by
  have hj' : j < 32 := by omega
  rw [BitVec.getLsbD_and, BitVec.getLsbD_not, BitVec.getLsbD_setWidth, decide_eq_true hj',
    Bool.true_and, Bool.true_and]

/-- The low half of `BSRR` sets bits of the latch. -/
theorem getLsbD_writeBsrr_set (r : GpioPort) :
    (r.writeBsrr (x.setWidth 32)).iodr.getLsbD j = (r.iodr.getLsbD j || x.getLsbD j) := by
  have hlow : ∀ j < 16, (0xFFFF#32).getLsbD j = true := by decide
  have hj' : j < 32 := by omega
  simp only [GpioPort.writeBsrr, BitVec.getLsbD_and, BitVec.getLsbD_or, BitVec.getLsbD_not,
    BitVec.getLsbD_ushiftRight, BitVec.getLsbD_setWidth, hj', decide_true, Bool.true_and]
  rw [BitVec.getLsbD_of_ge x (16 + j) (by omega)]
  have := hlow j hj
  simp [this]

/-- The high half clears them. -/
theorem getLsbD_writeBsrr_clear (r : GpioPort) :
    (r.writeBsrr (x.setWidth 32 <<< 16)).iodr.getLsbD j = (r.iodr.getLsbD j && !x.getLsbD j) := by
  have hj' : j < 32 := by omega
  have hj₁ : 16 + j < 32 := by omega
  have hj₂ : 16 + j - 16 = j := by omega
  simp [GpioPort.writeBsrr, hj, hj', hj₁, hj₂]

end Masks

section Registers

variable {x : BitVec 16} {k : Nat} (hx : ∀ j < 16, x.getLsbD j = decide (j = k))
include hx

theorem actsAt_oen_set :
    ActsAt k (fun r => { r with oen := r.oen ||| x.setWidth 32 }) fun b => { b with oen := true } := by
  intro r j hj
  simp only [GpioPort.bits, getLsbD_or_mask _ _ hj, hx j hj]
  by_cases h : j = k <;> simp [h]

theorem actsAt_oen_clear :
    ActsAt k (fun r => { r with oen := r.oen &&& ~~~x.setWidth 32 })
      fun b => { b with oen := false } := by
  intro r j hj
  simp only [GpioPort.bits, getLsbD_and_not_mask _ _ hj, hx j hj]
  by_cases h : j = k <;> simp [h]

theorem actsAt_bsrr_set :
    ActsAt k (fun r => r.writeBsrr (x.setWidth 32)) fun b => { b with latch := true } := by
  intro r j hj
  have hoen : (r.writeBsrr (x.setWidth 32)).oen = r.oen := rfl
  have hpue : (r.writeBsrr (x.setWidth 32)).pue = r.pue := rfl
  simp only [GpioPort.bits, getLsbD_writeBsrr_set _ hj, hx j hj, hoen, hpue]
  by_cases h : j = k <;> simp [h]

theorem actsAt_bsrr_clear :
    ActsAt k (fun r => r.writeBsrr (x.setWidth 32 <<< 16)) fun b => { b with latch := false } := by
  intro r j hj
  have hoen : (r.writeBsrr (x.setWidth 32 <<< 16)).oen = r.oen := rfl
  have hpue : (r.writeBsrr (x.setWidth 32 <<< 16)).pue = r.pue := rfl
  simp only [GpioPort.bits, getLsbD_writeBsrr_clear _ hj, hx j hj, hoen, hpue]
  by_cases h : j = k <;> simp [h]

theorem actsAt_pullUp (on : Bool) :
    ActsAt k (fun r => if on then { r with pue := r.pue ||| x.setWidth 32 }
      else { r with pue := r.pue &&& ~~~x.setWidth 32 }) fun b => { b with pullUp := on } := by
  intro r j hj
  cases on <;>
    simp only [GpioPort.bits, getLsbD_or_mask _ _ hj, getLsbD_and_not_mask _ _ hj, hx j hj,
      Bool.false_eq_true, if_false, if_true] <;>
    by_cases h : j = k <;> simp [h]

/-- The three modes `mh_pin_mode` uses. -/
theorem actsAt_ipu :
    ActsAt k (fun r => { r with oen := r.oen ||| x.setWidth 32, pue := r.pue ||| x.setWidth 32 })
      fun b => { b with oen := true, pullUp := true } := by
  intro r j hj
  simp only [GpioPort.bits, getLsbD_or_mask _ _ hj, hx j hj]
  by_cases h : j = k <;> simp [h]

theorem actsAt_outOd :
    ActsAt k (fun r =>
      { oen := r.oen ||| x.setWidth 32, pue := r.pue &&& ~~~x.setWidth 32
        iodr := r.iodr &&& ~~~x.setWidth 32 }) fun _ => ⟨true, false, false⟩ := by
  intro r j hj
  simp only [GpioPort.bits, getLsbD_or_mask _ _ hj, getLsbD_and_not_mask _ _ hj, hx j hj]
  by_cases h : j = k <;> simp [h]

theorem actsAt_outPp :
    ActsAt k (fun r =>
      { oen := r.oen &&& ~~~x.setWidth 32, pue := r.pue &&& ~~~x.setWidth 32
        iodr := r.iodr ||| x.setWidth 32 }) fun _ => ⟨false, false, true⟩ := by
  intro r j hj
  simp only [GpioPort.bits, getLsbD_or_mask _ _ hj, getLsbD_and_not_mask _ _ hj, hx j hj]
  by_cases h : j = k <;> simp [h]

end Registers

/-! ## 5. The bits of every pin -/

section Bits

variable (s : Gpio) (p q : Pin)

/-- Registers of the port of `p`. -/
theorem bits_modifyPort {f : GpioPort → GpioPort} {g : PortBits → PortBits}
    (h : ActsAt (pinNo p.num) f g) :
    (s.modifyPort (pinPort p.num) f).bits q =
      if q.Same p then { s.bits q with toPortBits := g (s.bits q).toPortBits } else s.bits q := by
  by_cases hport : pinPort q.num = pinPort p.num
  · have hbits := h (s.port (pinPort q.num)) (pinNo q.num) (pinNo_lt q.num)
    have hreg : (s.modifyPort (pinPort p.num) f).port (pinPort q.num) =
        f (s.port (pinPort q.num)) := if_pos hport
    unfold Gpio.bits
    rw [hreg, hbits]
    by_cases hno : pinNo q.num = pinNo p.num
    · rw [if_pos hno, if_pos ⟨hport, hno⟩]
      rfl
    · rw [if_neg hno, if_neg fun hs : q.Same p => hno hs.2]
      rfl
  · have hreg : (s.modifyPort (pinPort p.num) f).port (pinPort q.num) = s.port (pinPort q.num) :=
      if_neg hport
    rw [if_neg fun hs : q.Same p => hport hs.1]
    unfold Gpio.bits
    rw [hreg]
    rfl

/-- The mark of `p`. -/
theorem bits_modifyMark (on : Bool) :
    (s.modifyMark (pinPort p.num) fun m =>
      if on then m ||| pinStpin p.num else m &&& ~~~pinStpin p.num).bits q =
      if q.Same p then { s.bits q with openDrain := on } else s.bits q := by
  have hq := pinNo_lt q.num
  by_cases hport : pinPort q.num = pinPort p.num
  · have hmark : ((s.modifyMark (pinPort p.num) fun m =>
        if on then m ||| pinStpin p.num else m &&& ~~~pinStpin p.num).odMark
          (pinPort q.num)).getLsbD (pinNo q.num) =
        if pinNo q.num = pinNo p.num then on
        else (s.odMark (pinPort q.num)).getLsbD (pinNo q.num) := by
      refine (congrArg (BitVec.getLsbD · (pinNo q.num)) (if_pos hport)).trans ?_
      cases on <;>
        simp only [BitVec.getLsbD_or, BitVec.getLsbD_and, BitVec.getLsbD_not, getLsbD_pinStpin, hq,
          Bool.false_eq_true, if_false, if_true, decide_true, Bool.true_and] <;>
        by_cases hno : pinNo q.num = pinNo p.num <;> simp [hno]
    unfold Gpio.bits
    rw [hmark]
    by_cases hno : pinNo q.num = pinNo p.num
    · rw [if_pos hno, if_pos ⟨hport, hno⟩]
      rfl
    · rw [if_neg hno, if_neg fun hs : q.Same p => hno hs.2]
      rfl
  · have hmark : (s.modifyMark (pinPort p.num) fun m =>
        if on then m ||| pinStpin p.num else m &&& ~~~pinStpin p.num).odMark (pinPort q.num) =
        s.odMark (pinPort q.num) := if_neg hport
    rw [if_neg fun hs : q.Same p => hport hs.1]
    unfold Gpio.bits
    rw [hmark]
    rfl

/-- The loop of `GPIO_PinRemapConfig` acts at the one bit of the mask. -/
theorem alt_gpioPinRemapConfig (remap : Nat) :
    (gpioPinRemapConfig s (pinPort p.num) (pinStpin p.num) remap).alt (pinPort p.num) =
      s.alt (pinPort p.num) &&& ~~~((3 : Word) <<< (pinNo p.num * 2)) |||
        BitVec.ofNat 32 remap <<< (pinNo p.num * 2) := by
  refine (if_pos rfl).trans ?_
  rw [foldl_pinStpin]

theorem bits_gpioPinRemapConfig :
    (gpioPinRemapConfig s (pinPort p.num) (pinStpin p.num) 1).bits q =
      if q.Same p then { s.bits q with remap := (true, false) } else s.bits q := by
  by_cases hport : pinPort q.num = pinPort p.num
  · have halt := alt_gpioPinRemapConfig s p 1
    have hbit : ∀ i < 2, (s.alt (pinPort p.num) &&& ~~~((3 : Word) <<< (pinNo p.num * 2)) |||
        BitVec.ofNat 32 1 <<< (pinNo p.num * 2)).getLsbD (pinNo q.num * 2 + i) =
        if pinNo q.num = pinNo p.num then (1#32).getLsbD i
        else (s.alt (pinPort p.num)).getLsbD (pinNo q.num * 2 + i) := fun i hi =>
      getLsbD_setField _ (by decide) (pinNo_lt _) _ hi
    have hlow := hbit 0 (by decide)
    have hhigh := hbit 1 (by decide)
    rw [Nat.add_zero] at hlow
    unfold Gpio.bits
    rw [hport, halt, hlow, hhigh]
    simp only [Pin.Same, hport]
    by_cases hno : pinNo q.num = pinNo p.num
    · simp [hno, gpioPinRemapConfig]
    · simp [hno, gpioPinRemapConfig]
  · have hsame : ¬ q.Same p := fun h => hport h.1
    rw [if_neg hsame]
    simp [Gpio.bits, gpioPinRemapConfig, hport]

theorem bits_gpioPullUpCmd (on : Bool) :
    (gpioPullUpCmd s (pinPort p.num) (pinStpin p.num) on).bits q =
      if q.Same p then { s.bits q with pullUp := on } else s.bits q :=
  bits_modifyPort s p q (actsAt_pullUp (fun j _ => getLsbD_pinStpin p.num j) on)

/-- The three modes of `GPIO_Init` that `mh_pin_mode` asks for. -/
theorem bits_gpioInit :
    (gpioInit s (pinPort p.num) (pinStpin p.num) .outPp).bits q =
        (if q.Same p then (s.bits q).mode .output else s.bits q) ∧
      (gpioInit s (pinPort p.num) (pinStpin p.num) .ipu).bits q =
        (if q.Same p then (s.bits q).mode .input else s.bits q) ∧
      (gpioInit s (pinPort p.num) (pinStpin p.num) .outOd).bits q =
        (if q.Same p then (s.bits q).mode .outputOd else s.bits q) := by
  have hx : ∀ j < 16, (pinStpin p.num).getLsbD j = decide (j = pinNo p.num) :=
    fun j _ => getLsbD_pinStpin p.num j
  have hremap := bits_gpioPinRemapConfig s p q
  generalize hs₁ : gpioPinRemapConfig s (pinPort p.num) (pinStpin p.num) 1 = s₁ at hremap
  unfold gpioInit
  rw [hs₁]
  refine ⟨?_, ?_, ?_⟩
  · refine (bits_modifyMark _ p q false).trans ?_
    rw [bits_modifyPort s₁ p q (actsAt_outPp hx), hremap]
    by_cases h : q.Same p
    · simp only [if_pos h]
      rfl
    · simp only [if_neg h]
  · refine (bits_modifyPort s₁ p q (actsAt_ipu hx)).trans ?_
    rw [hremap]
    by_cases h : q.Same p
    · simp only [if_pos h]
      rfl
    · simp only [if_neg h]
  · refine (bits_modifyMark _ p q true).trans ?_
    rw [bits_modifyPort s₁ p q (actsAt_outOd hx), hremap]
    by_cases h : q.Same p
    · simp only [if_pos h]
      rfl
    · simp only [if_neg h]

/-- **`mh_pin_mode` changes the bits of its own pin only**, as `PinBits.mode` says. -/
theorem bits_mode (m : PinMode) :
    (s.step (.mode p m)).bits q = if q.Same p then (s.bits q).mode m else s.bits q := by
  unfold Gpio.step mhPinMode
  simp only
  rw [if_neg (Nat.not_le.mpr p.onPort)]
  -- the bit of `PHER_CTRL` belongs to no pin
  generalize hs₁ : (if pinPort p.num = 0 ∧ (pinNo p.num = 8 ∨ pinNo p.num = 9 ∨ pinNo p.num = 10) then
    { s with pherCtrl := s.pherCtrl &&& ~~~((1 : Word) <<< 20) } else s) = s₁
  have hbits : ∀ r, s₁.bits r = s.bits r := by
    intro r
    rw [← hs₁]
    split <;> rfl
  have hpull : ∀ on, (gpioInit (gpioPullUpCmd s₁ (pinPort p.num) (pinStpin p.num) on)
      (pinPort p.num) (pinStpin p.num) .ipu).bits q =
      if q.Same p then (s.bits q).mode .input else s.bits q := by
    intro on
    rw [(bits_gpioInit _ p q).2.1, bits_gpioPullUpCmd, hbits]
    by_cases h : q.Same p
    · simp only [if_pos h]
      rfl
    · simp only [if_neg h]
  cases m with
  | output =>
      rw [if_pos (by decide), (bits_gpioInit s₁ p q).1, hbits]
  | input =>
      rw [if_neg (by decide), if_pos (by decide), (bits_gpioInit s₁ p q).2.1, hbits]
  | inputPullup =>
      rw [if_neg (by decide), if_neg (by decide), if_pos (by decide)]
      exact hpull true
  | inputPulldown =>
      rw [if_neg (by decide), if_neg (by decide), if_neg (by decide), if_pos (by decide)]
      exact hpull false
  | outputOd =>
      rw [if_neg (by decide), if_neg (by decide), if_neg (by decide), if_neg (by decide),
        if_pos (by decide), (bits_gpioInit s₁ p q).2.2, hbits]

/-- The mask for `OEN`, of a marked pin. -/
theorem getLsbD_marked (h : (s.bits p).openDrain = true) :
    ∀ j < 16, (pinStpin p.num &&& s.odMark (pinPort p.num)).getLsbD j =
      decide (j = pinNo p.num) := by
  intro j _
  rw [BitVec.getLsbD_and, getLsbD_pinStpin]
  by_cases hj : j = pinNo p.num
  · rw [hj, decide_eq_true rfl, Bool.true_and]
    exact h
  · rw [decide_eq_false hj, Bool.false_and]

/-- The mask for `BSRR`, of any other. -/
theorem getLsbD_unmarked (h : (s.bits p).openDrain = false) :
    ∀ j < 16, (pinStpin p.num &&& ~~~s.odMark (pinPort p.num)).getLsbD j =
      decide (j = pinNo p.num) := by
  intro j hj₁
  rw [BitVec.getLsbD_and, BitVec.getLsbD_not, getLsbD_pinStpin, decide_eq_true hj₁, Bool.true_and]
  by_cases hj : j = pinNo p.num
  · have hmark : (s.odMark (pinPort p.num)).getLsbD (pinNo p.num) = false := h
    rw [hj, decide_eq_true rfl, Bool.true_and, hmark]
    rfl
  · rw [decide_eq_false hj, Bool.false_and]

theorem marked_iff : s.odMark (pinPort p.num) &&& pinStpin p.num ≠ 0 ↔
    (s.bits p).openDrain = true := and_shiftLeft_ne_zero _ (pinNo_lt p.num)

theorem bits_same {s : Gpio} {p q : Pin} (h : q.Same p) : s.bits q = s.bits p := by
  unfold Gpio.bits
  rw [h.1, h.2]

theorem put_marked {b : PinBits} (h : b.openDrain = true) (value : Bool) :
    b.put value = { b with oen := value } := if_pos h

theorem put_unmarked {b : PinBits} (h : b.openDrain = false) (value : Bool) :
    b.put value = { b with latch := value } := if_neg (by rw [h]; decide)

/-- An act on the registers of `p` that puts its bits on `value`. -/
theorem bits_put {f : GpioPort → GpioPort} {g : PortBits → PortBits} {value : Bool}
    (h : ActsAt (pinNo p.num) f g)
    (hg : (s.bits p).put value = { s.bits p with toPortBits := g (s.bits p).toPortBits }) :
    (s.modifyPort (pinPort p.num) f).bits q =
      if q.Same p then (s.bits q).put value else s.bits q := by
  rw [bits_modifyPort s p q h]
  by_cases h : q.Same p
  · rw [if_pos h, if_pos h, bits_same h, hg]
  · rw [if_neg h, if_neg h]

theorem bits_gpioSetBits :
    (gpioSetBits s (pinPort p.num) (pinStpin p.num)).bits q =
      if q.Same p then (s.bits q).put true else s.bits q := by
  have hmark := marked_iff s p
  unfold gpioSetBits
  simp only
  cases hod : (s.bits p).openDrain with
  | true =>
      rw [if_pos (hmark.mpr hod)]
      exact bits_put s p q (actsAt_oen_set (getLsbD_marked s p hod)) (put_marked hod true)
  | false =>
      rw [if_neg fun h => absurd (hmark.mp h) (by rw [hod]; decide)]
      exact bits_put s p q (actsAt_bsrr_set (getLsbD_unmarked s p hod)) (put_unmarked hod true)

theorem bits_gpioResetBits :
    (gpioResetBits s (pinPort p.num) (pinStpin p.num)).bits q =
      if q.Same p then (s.bits q).put false else s.bits q := by
  have hmark := marked_iff s p
  unfold gpioResetBits
  simp only
  cases hod : (s.bits p).openDrain with
  | true =>
      rw [if_pos (hmark.mpr hod)]
      exact bits_put s p q (actsAt_oen_clear (getLsbD_marked s p hod)) (put_marked hod false)
  | false =>
      rw [if_neg fun h => absurd (hmark.mp h) (by rw [hod]; decide)]
      exact bits_put s p q (actsAt_bsrr_clear (getLsbD_unmarked s p hod)) (put_unmarked hod false)

/-- **`mh_pin_write` changes the bits of its own pin only**, as `PinBits.write` says. -/
theorem bits_write (value : Word) :
    (s.step (.write p value)).bits q =
      if q.Same p then (s.bits q).write p.isPa10 (value ≠ 0) else s.bits q := by
  have hpa10 : p.isPa10 = true ↔ pinPort p.num = 0 ∧ pinNo p.num = 10 := decide_eq_true_iff
  -- the pull-up of PA10 first, whichever level
  have hpull : ∀ on, (if pinPort p.num = 0 ∧ pinNo p.num = 10 then
      gpioPullUpCmd s (pinPort p.num) (pinStpin p.num) on else s).bits q =
      if q.Same p then (if p.isPa10 then { s.bits q with pullUp := on } else s.bits q)
      else s.bits q := by
    intro on
    by_cases h : p.isPa10 = true
    · rw [if_pos (hpa10.mp h), if_pos h, bits_gpioPullUpCmd]
    · rw [if_neg fun h' => h (hpa10.mpr h'), if_neg h, ite_self]
  unfold Gpio.step mhPinWrite
  simp only
  rw [if_pos p.onPort]
  by_cases hv : value = 0
  · rw [if_neg (not_not.mpr hv), bits_gpioResetBits, hpull]
    by_cases h : q.Same p
    · simp only [if_pos h, hv]
      rfl
    · simp only [if_neg h]
  · rw [if_pos hv, bits_gpioSetBits, hpull, decide_eq_true hv]
    by_cases h : q.Same p
    · simp only [if_pos h]
      rfl
    · simp only [if_neg h]

end Bits

/-! ## 6. What the modes name -/

/-- What a pin does: the level it drives, if any, its pull-up, its open-drain mark. -/
structure PinView where
  drives : Option Bool
  pullUp : Bool
  openDrain : Bool
  deriving DecidableEq

def PinBits.view (b : PinBits) : PinView := ⟨if b.oen then none else some b.latch, b.pullUp, b.openDrain⟩

namespace PinMode

/-- Directly after `mh_pin_mode`. -/
def start : PinMode → PinView
  | .output => ⟨some true, false, false⟩
  | .input => ⟨none, false, false⟩
  | .inputPullup => ⟨none, true, false⟩
  | .inputPulldown => ⟨none, false, false⟩
  | .outputOd => ⟨none, false, true⟩

/-- The level driven after `mh_pin_write`. -/
def driven : PinMode → Bool → Option Bool
  | .output, value => some value
  | .outputOd, value => if value then none else some false
  | _, _ => none

def written (m : PinMode) (pa10 : Bool) (v : PinView) (value : Bool) : PinView :=
  { v with drives := m.driven value, pullUp := if pa10 then value else v.pullUp }

/-- A later call, seen from pin `p`. -/
def seen (m : PinMode) (p : Pin) (v : PinView) : PinCall → PinView
  | .write q value => if p.Same q then m.written p.isPa10 v (value ≠ 0) else v
  | .mode _ _ => v

theorem seen_write (m : PinMode) (p : Pin) (v : PinView) (q : Pin) (value : Word) :
    m.seen p v (.write q value) =
      if p.Same q then m.written p.isPa10 v (value ≠ 0) else v := rfl

/-- What pin `p` does in this mode, behind later calls: a matter of pin, mode and calls alone. -/
def named (m : PinMode) (p : Pin) (calls : List PinCall) : PinView := calls.foldl (m.seen p) m.start

end PinMode

def PinCall.Configures (p : Pin) : PinCall → Prop
  | .mode q _ => p.Same q
  | .write _ _ => False

/-- From the call on the pin does what its mode names, until it is configured anew. -/
def Gpio.HoldsMode (s : Gpio) (p : Pin) (m : PinMode) : Prop :=
  ∀ calls : List PinCall, (∀ call ∈ calls, ¬ call.Configures p) →
    ((calls.foldl Gpio.step (s.step (.mode p m))).bits p).view = m.named p calls

/-- What a call has to do: put its own pin into the mode, leave every other as it is. -/
def Gpio.Holds (s : Gpio) : PinCall → Prop
  | .mode p m => s.HoldsMode p m ∧ ∀ q : Pin, ¬ q.Same p → (s.step (.mode p m)).bits q = s.bits q
  | .write p value => ∀ q : Pin, ¬ q.Same p → (s.step (.write p value)).bits q = s.bits q

/-- A mode that the code sets as it is named: an output mode, or INPUT_PULLUP on a pin without an
    open-drain mark from before. -/
def Gpio.Meets (s : Gpio) : PinCall → Prop
  | .mode p m => m = .output ∨ m = .outputOd ∨ m = .inputPullup ∧ (s.bits p).openDrain = false
  | .write _ _ => True

/-! ## 7. Runs -/

/-- The bits of a pin in a mode that the code sets as it is named. -/
inductive InMode : PinMode → PinBits → Prop where
  | output (pullUp latch : Bool) (remap : Bool × Bool) :
      InMode .output ⟨⟨false, pullUp, latch⟩, false, remap⟩
  | outputOd (oen pullUp : Bool) (remap : Bool × Bool) :
      InMode .outputOd ⟨⟨oen, pullUp, false⟩, true, remap⟩
  | inputPullup (pullUp latch : Bool) (remap : Bool × Bool) :
      InMode .inputPullup ⟨⟨true, pullUp, latch⟩, false, remap⟩

/-- **A write keeps the mode**, and drives what the mode names. -/
theorem InMode.write {m : PinMode} {b : PinBits} (h : InMode m b) (pa10 value : Bool) :
    InMode m (b.write pa10 value) ∧ (b.write pa10 value).view = m.written pa10 b.view value := by
  cases h with
  | output pullUp latch remap => cases pa10 <;> exact ⟨.output _ _ _, rfl⟩
  | outputOd oen pullUp remap =>
      cases pa10 <;> cases value <;> exact ⟨.outputOd _ _ _, rfl⟩
  | inputPullup pullUp latch remap => cases pa10 <;> exact ⟨.inputPullup _ _ _, rfl⟩

theorem InMode.run {m : PinMode} {p : Pin} {calls : List PinCall} {s : Gpio}
    (h : InMode m (s.bits p)) (hno : ∀ call ∈ calls, ¬ call.Configures p) :
    ((calls.foldl Gpio.step s).bits p).view = calls.foldl (m.seen p) (s.bits p).view := by
  induction calls generalizing s with
  | nil => rfl
  | cons call calls ih =>
      have hrest : ∀ call ∈ calls, ¬ call.Configures p :=
        fun c hc => hno c (List.mem_cons_of_mem _ hc)
      have hone : InMode m ((s.step call).bits p) ∧
          ((s.step call).bits p).view = m.seen p (s.bits p).view call := by
        cases call with
        | mode q m' =>
            have hq : ¬ p.Same q := hno (.mode q m') List.mem_cons_self
            rw [bits_mode, if_neg hq]
            exact ⟨h, rfl⟩
        | write q value =>
            rw [PinMode.seen_write, bits_write]
            by_cases hq : p.Same q
            · have hpa10 : q.isPa10 = p.isPa10 := by
                unfold Pin.isPa10
                rw [hq.1, hq.2]
              rw [if_pos hq, if_pos hq, hpa10]
              exact h.write _ _
            · rw [if_neg hq, if_neg hq]
              exact ⟨h, rfl⟩
      rw [List.foldl_cons, List.foldl_cons, ← hone.2]
      exact ih hone.1 hrest

/-- **When a mode holds.** -/
theorem holdsMode_iff {s : Gpio} {p : Pin} {m : PinMode} :
    s.HoldsMode p m ↔
      m = .output ∨ m = .outputOd ∨ m = .inputPullup ∧ (s.bits p).openDrain = false := by
  have hbits : (s.step (.mode p m)).bits p = (s.bits p).mode m := by
    rw [bits_mode, if_pos ⟨rfl, rfl⟩]
  constructor
  · intro h
    have hstart := h [] fun call hcall => absurd hcall List.not_mem_nil
    simp only [List.foldl_nil, hbits, PinMode.named] at hstart
    cases m with
    | output => exact .inl rfl
    | outputOd => exact .inr (.inl rfl)
    | inputPullup => exact .inr (.inr ⟨rfl, congrArg PinView.openDrain hstart⟩)
    | input => exact absurd (congrArg PinView.pullUp hstart) Bool.noConfusion
    | inputPulldown => exact absurd (congrArg PinView.pullUp hstart) Bool.noConfusion
  · intro h calls hno
    have hin : InMode m ((s.bits p).mode m) ∧ ((s.bits p).mode m).view = m.start := by
      rcases h with rfl | rfl | ⟨rfl, hod⟩
      · exact ⟨.output _ _ _, rfl⟩
      · exact ⟨.outputOd _ _ _, rfl⟩
      · generalize s.bits p = b at hod
        obtain ⟨⟨oen, pullUp, latch⟩, od, remap⟩ := b
        cases hod
        exact ⟨.inputPullup _ _ _, rfl⟩
    have hstart : InMode m ((s.step (.mode p m)).bits p) := hbits ▸ hin.1
    rw [hstart.run hno, hbits, hin.2]
    rfl

/-- **Pin configuration has no memory in exactly the runs that use the modes which the code sets as
    they are named.** -/
theorem pins_keep_modes_iff (s : Gpio) (calls : List PinCall) :
    Along Gpio.step Gpio.Holds s calls ↔ Along Gpio.step Gpio.Meets s calls := by
  have hcall : ∀ s call, Gpio.Holds s call ↔ Gpio.Meets s call := by
    intro s call
    cases call with
    | mode p m =>
        refine (and_iff_left fun q hq => ?_).trans holdsMode_iff
        rw [bits_mode, if_neg hq]
    | write p value =>
        refine iff_of_true (fun q hq => ?_) trivial
        rw [bits_write, if_neg hq]
  exact ⟨fun h => h.mono fun s call _ hc => (hcall s call).mp hc,
    fun h => h.mono fun s call _ hc => (hcall s call).mpr hc⟩

/-- PB0 open-drain, then input with pull-up, then written low: the mark is still there and the pin
    drives. -/
theorem input_drives_after_open_drain :
    ¬ Along Gpio.step Gpio.Holds ⟨fun _ => ⟨0, 0, 0⟩, fun _ => 0, fun _ => 0, 0⟩
      [.mode ⟨16, by decide⟩ .outputOd, .mode ⟨16, by decide⟩ .inputPullup] := by
  rintro ⟨-, ⟨h, -⟩, -⟩
  have hlow := h [.write ⟨16, by decide⟩ 0] fun call hcall => by
    rw [List.mem_singleton.mp hcall]
    exact id
  revert hlow
  decide

end Mh1903
