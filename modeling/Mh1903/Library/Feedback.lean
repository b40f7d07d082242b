/-
  File:      Mh1903/Library/Feedback.lean
  Subject:   SHIFT REGISTERS WITH FEEDBACK, the machine behind a CRC. Names nothing of the
             bootloader.

  The register takes one bit at a time and moves towards its lowest bit; `poly` is added where the
  bit that falls out and the bit that comes in differ. Feeding is linear (`feed_xor`); a register
  holding the next bits themselves is emptied by them (`feed_word`), and if `poly` has its highest
  bit no other register is (`toNat_of_feed_eq_zero`). So two strings that differ in a window of the
  register's width only leave different registers (`feed_ne_of_window`).
-/
import Mathlib.Data.List.Basic
import Mathlib.Tactic.Ring

namespace Mh1903.Library

variable {w : Nat}

/-! ## 1. Feeding bits -/

/-- One bit. -/
def feedBit (poly r : BitVec w) (b : Bool) : BitVec w :=
  if r.getLsbD 0 ^^ b then (r >>> 1) ^^^ poly else r >>> 1

/-- One bit after the other. -/
def feed (poly r : BitVec w) (bits : List Bool) : BitVec w := bits.foldl (feedBit poly) r

/-- `n` zero bits. -/
def shifts (poly : BitVec w) : Nat → BitVec w → BitVec w
  | 0, r => r
  | n + 1, r => shifts poly n (feedBit poly r false)

section Linear

variable (poly : BitVec w)

@[simp] theorem feed_nil (r : BitVec w) : feed poly r [] = r := rfl

@[simp] theorem feed_cons (r : BitVec w) (b : Bool) (bits : List Bool) :
    feed poly r (b :: bits) = feed poly (feedBit poly r b) bits := rfl

theorem feed_append (r : BitVec w) (xs ys : List Bool) :
    feed poly r (xs ++ ys) = feed poly (feed poly r xs) ys := List.foldl_append

theorem feed_replicate (n : Nat) (r : BitVec w) :
    feed poly r (List.replicate n false) = shifts poly n r := by
  induction n generalizing r with
  | zero => rfl
  | succ n ih => exact ih (feedBit poly r false)

theorem feedBit_xor (r s : BitVec w) (a b : Bool) :
    feedBit poly (r ^^^ s) (a ^^ b) = feedBit poly r a ^^^ feedBit poly s b := by
  have hself : ∀ x y : BitVec w, x ^^^ poly ^^^ (y ^^^ poly) = x ^^^ y := by
    intro x y
    rw [BitVec.xor_comm y poly, ← BitVec.xor_assoc, BitVec.xor_assoc x, BitVec.xor_self,
      BitVec.xor_zero]
  unfold feedBit
  rw [BitVec.getLsbD_xor, BitVec.ushiftRight_xor_distrib]
  cases r.getLsbD 0 <;> cases s.getLsbD 0 <;> cases a <;> cases b <;>
    simp [hself, BitVec.xor_assoc, BitVec.xor_comm poly]

/-- **Feeding is linear.** -/
theorem feed_xor {xs ys : List Bool} (h : xs.length = ys.length) (r s : BitVec w) :
    feed poly (r ^^^ s) (List.zipWith xor xs ys) = feed poly r xs ^^^ feed poly s ys := by
  induction xs generalizing ys r s with
  | nil =>
      cases ys with
      | nil => rfl
      | cons b ys => cases h
  | cons a xs ih =>
      cases ys with
      | nil => cases h
      | cons b ys =>
          simp only [List.zipWith_cons_cons, feed_cons, feedBit_xor]
          exact ih (by simpa using h) _ _

/-- Bits that leave the empty register empty can be flipped unnoticed. -/
theorem feed_flip {xs ds : List Bool} (h : xs.length = ds.length) (hds : feed poly 0#w ds = 0#w)
    (r : BitVec w) : feed poly r (List.zipWith xor xs ds) = feed poly r xs := by
  have hlinear := feed_xor poly h r 0#w
  rwa [BitVec.xor_zero, hds, BitVec.xor_zero] at hlinear

theorem shifts_xor (n : Nat) (r s : BitVec w) :
    shifts poly n (r ^^^ s) = shifts poly n r ^^^ shifts poly n s := by
  induction n generalizing r s with
  | zero => rfl
  | succ n ih =>
      have hstep := feedBit_xor poly r s false false
      rw [Bool.xor_false] at hstep
      rw [shifts, hstep, ih]
      rfl

/-- Cleared low bits only move out. -/
theorem shifts_of_low {n : Nat} {r : BitVec w} (h : ∀ i < n, r.getLsbD i = false) :
    shifts poly n r = r >>> n := by
  induction n generalizing r with
  | zero => rw [shifts, BitVec.ushiftRight_zero]
  | succ n ih =>
      have hstep : feedBit poly r false = r >>> 1 := by
        rw [feedBit, h 0 (Nat.succ_pos n)]
        rfl
      rw [shifts, hstep, ih, ← BitVec.shiftRight_add, Nat.add_comm]
      intro i hi
      rw [BitVec.getLsbD_ushiftRight]
      exact h (1 + i) (by omega)

end Linear

/-! ## 2. Words and bits -/

/-- The number whose bits these are, lowest first. -/
def valueOf : List Bool → Nat
  | [] => 0
  | b :: bits => b.toNat + 2 * valueOf bits

theorem valueOf_lt (bits : List Bool) : valueOf bits < 2 ^ bits.length := by
  induction bits with
  | nil => exact Nat.one_pos
  | cons b bits ih =>
      have hb := b.toNat_le
      rw [valueOf, List.length_cons, Nat.pow_succ]
      omega

theorem valueOf_pos {bits : List Bool} (h : true ∈ bits) : 0 < valueOf bits := by
  induction bits with
  | nil => cases h
  | cons b bits ih =>
      rw [valueOf]
      rcases List.mem_cons.mp h with rfl | h
      · exact Nat.add_pos_left Nat.one_pos _
      · have := ih h
        omega

/-- The low bit and the rest of a register. -/
theorem toNat_eq (r : BitVec w) : r.toNat = (r.getLsbD 0).toNat + 2 * (r >>> 1).toNat := by
  rw [BitVec.toNat_ushiftRight, Nat.shiftRight_eq_div_pow, Nat.pow_one, BitVec.getLsbD,
    Nat.testBit_zero]
  rcases Nat.mod_two_eq_zero_or_one r.toNat with h | h
  · rw [h]
    show r.toNat = 0 + 2 * (r.toNat / 2)
    omega
  · rw [h]
    show r.toNat = 1 + 2 * (r.toNat / 2)
    omega

section Value

variable {poly : BitVec w}

/-- **A register that holds the next bits is emptied by them.** -/
theorem feed_word {r : BitVec w} {bits : List Bool} (h : r.toNat = valueOf bits) :
    feed poly r bits = 0#w := by
  induction bits generalizing r with
  | nil => exact BitVec.eq_of_toNat_eq (by rw [feed_nil, h]; simp [valueOf])
  | cons b bits ih =>
      have hsplit := toNat_eq r
      rw [h, valueOf] at hsplit
      have hb := b.toNat_le
      have hr := (r.getLsbD 0).toNat_le
      have hbit : r.getLsbD 0 = b := by
        have hnat : (r.getLsbD 0).toNat = b.toNat := by omega
        cases hc : r.getLsbD 0 <;> cases b <;> rw [hc] at hnat <;> first | rfl | cases hnat
      have hstep : feedBit poly r b = r >>> 1 := by
        rw [feedBit, hbit, Bool.xor_self]
        rfl
      rw [feed_cons, hstep]
      exact ih (by rw [hbit] at hsplit; omega)

/-- A step whose result lacks the highest bit has added nothing. -/
theorem toNat_of_feedBit {r : BitVec w} {b : Bool} (hpoly : poly.msb = true)
    (h : (feedBit poly r b).msb = false) :
    r.toNat = b.toNat + 2 * (feedBit poly r b).toNat := by
  have hw : 0 < w := by
    rcases Nat.eq_zero_or_pos w with rfl | hw
    · rw [BitVec.msb_eq_getLsbD_last] at hpoly
      exact absurd hpoly (by simp)
    · exact hw
  have hshift : (r >>> 1).msb = false := by
    rw [BitVec.msb_eq_getLsbD_last, BitVec.getLsbD_ushiftRight]
    exact BitVec.getLsbD_of_ge r _ (by omega)
  have hfb : (r.getLsbD 0 ^^ b) = false := by
    by_contra hc
    rw [Bool.not_eq_false] at hc
    rw [feedBit, if_pos hc, BitVec.msb_xor, hshift, hpoly] at h
    cases h
  have hbit : r.getLsbD 0 = b := by
    cases hr : r.getLsbD 0 <;> cases b <;> rw [hr] at hfb <;> first | rfl | cases hfb
  rw [feedBit, hfb, ← hbit]
  exact toNat_eq r

/-- **Only that register is emptied.** -/
theorem toNat_of_feed_eq_zero (hpoly : poly.msb = true) {r : BitVec w} {bits : List Bool}
    (hlen : bits.length ≤ w) (h : feed poly r bits = 0#w) : r.toNat = valueOf bits := by
  induction bits generalizing r with
  | nil =>
      rw [feed_nil] at h
      rw [h]
      rfl
  | cons b bits ih =>
      rw [List.length_cons] at hlen
      have hrest := ih (by omega) h
      have hlt := valueOf_lt bits
      have hpow : 2 ^ bits.length ≤ 2 ^ (w - 1) := Nat.pow_le_pow_right Nat.two_pos (by omega)
      have hmsb : (feedBit poly r b).msb = false := by
        rw [BitVec.msb_eq_decide, decide_eq_false_iff_not, hrest]
        omega
      rw [toNat_of_feedBit hpoly hmsb, hrest]
      rfl

theorem feed_injective (hpoly : poly.msb = true) {bits : List Bool} {r s : BitVec w}
    (h : feed poly r bits = feed poly s bits) : r = s := by
  induction bits generalizing r s with
  | nil => exact h
  | cons b bits ih =>
      have hstep : feedBit poly r b = feedBit poly s b := ih h
      have hzero : feedBit poly (r ^^^ s) false = 0#w := by
        rw [← Bool.xor_self b, feedBit_xor, hstep, BitVec.xor_self]
      have hnat := toNat_of_feedBit hpoly (r := r ^^^ s) (b := false) (by rw [hzero]; simp)
      rw [hzero] at hnat
      have hxor : r ^^^ s = 0#w := BitVec.eq_of_toNat_eq (by rw [hnat]; simp)
      exact BitVec.xor_eq_zero_iff.mp hxor

/-- **A difference in a window of the register's width is never lost.** -/
theorem feed_window_ne (hpoly : poly.msb = true) (r : BitVec w) (front : List Bool)
    {u v : List Bool} (hlen : u.length = v.length) (hw : u.length ≤ w) (hne : u ≠ v)
    (back : List Bool) :
    feed poly r (front ++ (u ++ back)) ≠ feed poly r (front ++ (v ++ back)) := by
  rw [feed_append, feed_append, feed_append, feed_append]
  intro h
  have heq := feed_injective hpoly h
  generalize feed poly r front = q at heq
  -- by linearity the difference alone empties a cleared register
  have hzero : feed poly 0#w (List.zipWith xor u v) = 0#w := by
    have hxor := feed_xor poly hlen q q
    rw [heq, BitVec.xor_self, BitVec.xor_self] at hxor
    exact hxor
  have hval := toNat_of_feed_eq_zero hpoly (by rw [List.length_zipWith]; omega) hzero
  have hmem : true ∈ List.zipWith xor u v := by
    by_contra hno
    refine hne (List.ext_getElem hlen fun i h₁ h₂ => ?_)
    by_contra hi
    refine hno (List.mem_iff_getElem.mpr ⟨i, by rw [List.length_zipWith]; omega, ?_⟩)
    rw [List.getElem_zipWith]
    cases hu : u[i] <;> cases hv : v[i] <;> rw [hu, hv] at hi <;> first | rfl | exact absurd rfl hi
  have := valueOf_pos hmem
  rw [BitVec.toNat_zero] at hval
  omega

/-- Strings that differ in a window only, cut at its ends. -/
theorem window_split {xs ys : List Bool} {k n : Nat}
    (h : ∀ i, xs[i]? ≠ ys[i]? → k ≤ i ∧ i < k + n) :
    xs = ys.take k ++ ((xs.drop k).take n ++ ys.drop (k + n)) := by
  have hfront : xs.take k = ys.take k := by
    refine List.ext_getElem? fun i => ?_
    rw [List.getElem?_take, List.getElem?_take]
    split
    · by_contra hne
      have := (h i hne).1
      omega
    · rfl
  have hback : xs.drop (k + n) = ys.drop (k + n) := by
    refine List.ext_getElem? fun i => ?_
    rw [List.getElem?_drop, List.getElem?_drop]
    by_contra hne
    have := (h _ hne).2
    omega
  calc xs = xs.take k ++ xs.drop k := (List.take_append_drop k xs).symm
    _ = xs.take k ++ ((xs.drop k).take n ++ (xs.drop k).drop n) := by
        rw [List.take_append_drop n (xs.drop k)]
    _ = _ := by rw [List.drop_drop, hfront, hback]

/-- **Strings that differ in a window of the register's width leave different registers.** -/
theorem feed_ne_of_window (hpoly : poly.msb = true) (r : BitVec w) {xs ys : List Bool} {k : Nat}
    (hlen : xs.length = ys.length) (hne : xs ≠ ys)
    (h : ∀ i, xs[i]? ≠ ys[i]? → k ≤ i ∧ i < k + w) : feed poly r xs ≠ feed poly r ys := by
  have hx := window_split h
  have hy : ys = ys.take k ++ ((ys.drop k).take w ++ ys.drop (k + w)) :=
    window_split fun i hi => absurd rfl hi
  have huv : (xs.drop k).take w ≠ (ys.drop k).take w := by
    intro heq
    exact hne (by rw [hx, heq, ← hy])
  have hwin := feed_window_ne hpoly r (ys.take k) (by simp [hlen]) (List.length_take_le w _) huv
    (ys.drop (k + w))
  rwa [← hx, ← hy] at hwin

end Value

/-! ## 3. Bytes -/

/-- The bits of a word, lowest first. -/
def lsbFirst {n : Nat} (b : BitVec n) : List Bool := (List.range n).map b.getLsbD

@[simp] theorem length_lsbFirst {n : Nat} (b : BitVec n) : (lsbFirst b).length = n := by
  simp [lsbFirst]

theorem valueOf_testBit (n x : Nat) : valueOf ((List.range n).map x.testBit) = x % 2 ^ n := by
  induction n generalizing x with
  | zero => rw [Nat.pow_zero, Nat.mod_one]; rfl
  | succ n ih =>
      have htail : (List.range n).map (x.testBit ∘ Nat.succ) =
          (List.range n).map (x / 2).testBit :=
        List.map_congr_left fun i _ => Nat.testBit_succ x i
      have hbit : (x.testBit 0).toNat = x % 2 := by
        rw [Nat.testBit_zero]
        rcases Nat.mod_two_eq_zero_or_one x with h | h <;> rw [h] <;> rfl
      rw [List.range_succ_eq_map, List.map_cons, List.map_map, htail, valueOf, ih, hbit,
        Nat.pow_succ, Nat.mul_comm (2 ^ n), Nat.mod_mul]

theorem valueOf_lsbFirst {n : Nat} (b : BitVec n) : valueOf (lsbFirst b) = b.toNat :=
  (valueOf_testBit n b.toNat).trans (Nat.mod_eq_of_lt b.isLt)

/-- **Feeding a word is adding it and shifting.** -/
theorem feed_lsbFirst (poly r : BitVec w) {n : Nat} (hn : n ≤ w) (b : BitVec n) :
    feed poly r (lsbFirst b) = shifts poly n (r ^^^ b.setWidth w) := by
  have hword : feed poly (b.setWidth w) (lsbFirst b) = 0#w := by
    refine feed_word ?_
    rw [valueOf_lsbFirst, BitVec.toNat_setWidth]
    exact Nat.mod_eq_of_lt (Nat.lt_of_lt_of_le b.isLt (Nat.pow_le_pow_right Nat.two_pos hn))
  have hself : List.zipWith xor (lsbFirst b) (lsbFirst b) = List.replicate n false := by
    rw [List.zipWith_self, List.eq_replicate_iff]
    refine ⟨by simp, fun c hc => ?_⟩
    obtain ⟨a, -, rfl⟩ := List.mem_map.mp hc
    exact Bool.xor_self a
  have hsum := feed_xor poly (Eq.refl (lsbFirst b).length) r (b.setWidth w)
  rw [hself, hword, BitVec.xor_zero, feed_replicate] at hsum
  exact hsum.symm

/-- The bits of a string of bytes in the order they are fed. -/
def bitsOf (buf : List (BitVec 8)) : List Bool := buf.flatMap lsbFirst

theorem bitsOf_cons (b : BitVec 8) (buf : List (BitVec 8)) :
    bitsOf (b :: buf) = lsbFirst b ++ bitsOf buf := rfl

theorem bitsOf_append (a b : List (BitVec 8)) : bitsOf (a ++ b) = bitsOf a ++ bitsOf b :=
  List.flatMap_append

theorem length_bitsOf (buf : List (BitVec 8)) : (bitsOf buf).length = 8 * buf.length := by
  induction buf with
  | nil => rfl
  | cons b buf ih =>
      rw [bitsOf_cons, List.length_append, ih, length_lsbFirst, List.length_cons]
      omega

theorem lsbFirst_injective {n : Nat} {a b : BitVec n} (h : lsbFirst a = lsbFirst b) : a = b :=
  BitVec.eq_of_toNat_eq (by rw [← valueOf_lsbFirst, h, valueOf_lsbFirst])

theorem bitsOf_injective {a b : List (BitVec 8)} (hlen : a.length = b.length)
    (h : bitsOf a = bitsOf b) : a = b := by
  induction a generalizing b with
  | nil => exact (List.eq_nil_of_length_eq_zero hlen.symm).symm
  | cons x a ih =>
      cases b with
      | nil => cases hlen
      | cons y b =>
          rw [bitsOf_cons, bitsOf_cons] at h
          obtain ⟨hxy, hab⟩ := List.append_inj h (by simp)
          rw [lsbFirst_injective hxy, ih (by simpa using hlen) hab]

end Mh1903.Library
