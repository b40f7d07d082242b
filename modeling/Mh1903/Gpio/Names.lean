/-
  File:      Mh1903/Gpio/Names.lean
  Subject:   NAMES OF PINS. `mh_pin_get` looks at the length, the `P`, the letter and the dot of a
             name; what stands for the port and the number is cut to four bits each. A name of that
             shape which names no pin gets the pin of another one.
-/
import Mathlib.Tactic.IntervalCases
import Mh1903.Model.Gpio

namespace Mh1903

/-! ## 1. Which names there are -/

/-- `P`, the letter of the port, a dot, and the number of the pin in one or two decimal digits. -/
def NamesPin (name : List Byte) (port no : Nat) : Prop :=
  port < 6 ∧ no < 16 ∧
    ((no < 10 ∧ name = [0x50, 0x41 + BitVec.ofNat 8 port, 0x2E, 0x30 + BitVec.ofNat 8 no]) ∨
      name = [0x50, 0x41 + BitVec.ofNat 8 port, 0x2E, 0x30 + BitVec.ofNat 8 (no / 10),
        0x30 + BitVec.ofNat 8 (no % 10)])

/-- What `mh_pin_get` looks at: the length, `P`, a capital letter, the dot. -/
def PinShaped (name : List Byte) : Prop :=
  4 ≤ name.length ∧ name.length < 6 ∧ name.getD 0 0 = 0x50 ∧ name.getD 2 0 = 0x2E ∧
    name.getD 1 0 ≥ 0x41 ∧ name.getD 1 0 ≤ 0x5A

/-- The name of a pin gives the pin, any other name `-RT_EINVAL`. -/
def GetsPin (name : List Byte) : Prop :=
  (∀ port no, NamesPin name port no → mhPinGet name = 16 * port + no) ∧
    ((¬ ∃ port no, NamesPin name port no) → mhPinGet name = -rtEinval)

/-! ## 2. What is returned -/

section Get

variable {name : List Byte} {port no : Nat}

theorem mhPinGet_shaped (h : PinShaped name) : 0 ≤ mhPinGet name := by
  obtain ⟨h4, h6, hp, hdot, hlow, hhigh⟩ := h
  unfold mhPinGet
  rw [if_neg (by omega), if_neg (by rw [hp, hdot]; decide), if_pos ⟨hlow, hhigh⟩]
  exact Int.natCast_nonneg _

theorem mhPinGet_not_shaped (h : ¬ PinShaped name) : mhPinGet name = -rtEinval := by
  unfold mhPinGet
  by_cases hlen : name.length < 4 ∨ name.length ≥ 6
  · rw [if_pos hlen]
  · rw [if_neg hlen]
    by_cases hmark : name.getD 0 0 ≠ 0x50 ∨ name.getD 2 0 ≠ 0x2E
    · rw [if_pos hmark]
    · rw [if_neg hmark, if_neg fun hletter => h ?_]
      push Not at hlen hmark
      exact ⟨hlen.1, hlen.2, hmark.1, hmark.2, hletter.1, hletter.2⟩

/-- **The name of a pin gives the pin.** -/
theorem NamesPin.get (h : NamesPin name port no) : mhPinGet name = 16 * port + no := by
  obtain ⟨hport, hno, hname⟩ := h
  rcases hname with ⟨hone, rfl⟩ | rfl
  · interval_cases port <;> interval_cases no <;> decide
  · interval_cases port <;> interval_cases no <;> decide

/-- A pin has one port and one number. -/
theorem NamesPin.pin_inj {name' : List Byte} {port' no' : Nat} (h : NamesPin name port no)
    (h' : NamesPin name' port' no') (heq : mhPinGet name = mhPinGet name') :
    port = port' ∧ no = no' := by
  have hno := h.2.1
  have hno' := h'.2.1
  rw [h.get, h'.get] at heq
  omega

/-- The pin of a name has a port that the other operations act on. -/
theorem NamesPin.acts (h : NamesPin name port no) :
    pinPort (BitVec.ofInt 32 (mhPinGet name)) < pinStportMax := by
  have hget := h.get
  obtain ⟨hport, hno, -⟩ := h
  rw [hget]
  interval_cases port <;> interval_cases no <;> decide

/-- **A name is got right exactly if it names a pin, where it has the shape of such a name.** -/
theorem getsPin_iff : GetsPin name ↔ (PinShaped name → ∃ port no, NamesPin name port no) := by
  constructor
  · rintro ⟨-, hother⟩ hshaped
    by_contra hno
    have hget := hother hno
    have hpos := mhPinGet_shaped hshaped
    rw [hget] at hpos
    exact absurd hpos (by decide)
  · intro h
    refine ⟨fun port no hname => hname.get, fun hno => ?_⟩
    exact mhPinGet_not_shaped fun hshaped => hno (h hshaped)

end Get

/-! ## 3. Every name -/

/-- **`mh_pin_get` on every string**: right exactly where a string of the shape of a name is one. Among
    the names that it gets right two have the same pin only if they name the same, and every pin is
    one to act on. -/
theorem pin_get_exact_iff (name : List Byte) :
    (GetsPin name ↔ (PinShaped name → ∃ port no, NamesPin name port no)) ∧
    (GetsPin name → 0 ≤ mhPinGet name →
      (∀ name', GetsPin name' → mhPinGet name = mhPinGet name' →
        ∃ port no, NamesPin name port no ∧ NamesPin name' port no) ∧
      pinPort (BitVec.ofInt 32 (mhPinGet name)) < pinStportMax) := by
  have hnamed : ∀ {name}, GetsPin name → 0 ≤ mhPinGet name → ∃ port no, NamesPin name port no := by
    intro name h hpos
    by_contra hno
    rw [h.2 hno] at hpos
    exact absurd hpos (by decide)
  refine ⟨getsPin_iff, fun h hpos => ?_⟩
  obtain ⟨port, no, hname⟩ := hnamed h hpos
  refine ⟨fun name' h' heq => ?_, hname.acts⟩
  obtain ⟨port', no', hname'⟩ := hnamed h' (heq ▸ hpos)
  obtain ⟨rfl, rfl⟩ := hname.pin_inj hname' heq
  exact ⟨port, no, hname, hname'⟩

/-- `PQ.0` names no pin, and gets the one of `PA.0`. -/
theorem pin_get_aliases : ¬ ∀ name, GetsPin name := by
  intro h
  have hget : mhPinGet [0x50, 0x51, 0x2E, 0x30] = 0 := by decide
  have hother := (h [0x50, 0x51, 0x2E, 0x30]).2 ?_
  · rw [hget] at hother
    exact absurd hother (by decide)
  · rintro ⟨port, no, hport, -, ⟨-, hname⟩ | hname⟩
    · have hletter : (0x51 : Byte) = 0x41 + BitVec.ofNat 8 port := by
        injection hname with _ hname
        injection hname
      interval_cases port <;> exact absurd hletter (by decide)
    · have hlen := congrArg List.length hname
      simp at hlen

end Mh1903
