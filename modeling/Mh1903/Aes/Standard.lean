/-
  File:      Mh1903/Aes/Standard.lean
  Subject:   THE CIPHER OF FIPS-197, as the standard defines it: bytes as polynomials over two
             elements, a state of four columns, its four transformations and their inverses, the
             schedule of round keys.
-/
import Mh1903.Model.Machine
import Mh1903.Library.Cipher

namespace Mh1903.Aes

open Library

/-! ## 1. Bytes as polynomials -/

/-- The product with `x`, modulo the polynomial of the standard. -/
def xtime (b : Byte) : Byte := (b <<< 1) ^^^ (if b.msb then 0x1b else 0)

/-- The product with the `n` low bits of `c`, from the highest of them down. -/
def mulBits (c b : Byte) : Nat → Byte → Byte
  | 0, acc => acc
  | n + 1, acc => mulBits c b n (xtime acc ^^^ (if c.getLsbD n then b else 0))

def mul (c b : Byte) : Byte := mulBits c b 8 0

theorem xtime_xor (a b : Byte) : xtime (a ^^^ b) = xtime a ^^^ xtime b := by
  have hshift : (a ^^^ b) <<< 1 = (a <<< 1) ^^^ (b <<< 1) := BitVec.shiftLeft_xor_distrib ..
  have hcarry : (if (a ^^^ b).msb then 0x1b else 0 : Byte) =
      (if a.msb then 0x1b else 0) ^^^ (if b.msb then 0x1b else 0) := by
    rw [BitVec.msb_xor]
    cases a.msb <;> cases b.msb <;> rfl
  unfold xtime
  rw [hshift, hcarry]
  ac_rfl

theorem mulBits_xor (c a b : Byte) (n : Nat) (x y : Byte) :
    mulBits c (a ^^^ b) n (x ^^^ y) = mulBits c a n x ^^^ mulBits c b n y := by
  induction n generalizing x y with
  | zero => rfl
  | succ n ih =>
      have hbit : (if c.getLsbD n then a ^^^ b else 0) =
          (if c.getLsbD n then a else 0) ^^^ (if c.getLsbD n then b else 0) := by
        cases c.getLsbD n with
        | false => exact BitVec.xor_self.symm
        | true => rfl
      unfold mulBits
      rw [← ih, xtime_xor, hbit]
      congr 1
      ac_rfl

/-- A product is linear in its second factor. -/
theorem mul_xor (c a b : Byte) : mul c (a ^^^ b) = mul c a ^^^ mul c b := mulBits_xor c a b 8 0 0

/-- The bit `i` of a byte, where it is. -/
def bitAt (b : Byte) (i : Fin 8) : Byte := if b.getLsbD i then 1 <<< i.val else 0

theorem sum_bitAt :
    ∀ b : Byte, ((List.finRange 8).map (bitAt b)).foldr (· ^^^ ·) 0 = b := by decide +kernel

/-- Maps that respect sums and agree on the single bits agree. -/
theorem eq_of_bits {f g : Byte → Byte} (hf : ∀ a b, f (a ^^^ b) = f a ^^^ f b)
    (hg : ∀ a b, g (a ^^^ b) = g a ^^^ g b)
    (h : ∀ i : Fin 8, f (1 <<< i.val) = g (1 <<< i.val)) (b : Byte) : f b = g b := by
  have hzero : ∀ k : Byte → Byte, (∀ a b, k (a ^^^ b) = k a ^^^ k b) → k 0 = 0 := by
    intro k hk
    have h0 := hk 0 0
    rw [BitVec.xor_self] at h0
    exact h0.trans BitVec.xor_self
  have hbit : ∀ i, f (bitAt b i) = g (bitAt b i) := by
    intro i
    unfold bitAt
    split
    · exact h i
    · rw [hzero f hf, hzero g hg]
  have hsum : ∀ is : List (Fin 8), f ((is.map (bitAt b)).foldr (· ^^^ ·) 0) =
      g ((is.map (bitAt b)).foldr (· ^^^ ·) 0) := by
    intro is
    induction is with
    | nil => exact (hzero f hf).trans (hzero g hg).symm
    | cons i is ih => rw [List.map_cons, List.foldr_cons, hf, hg, ih, hbit]
  rw [← sum_bitAt b]
  exact hsum _

/-! ## 2. The S-box -/

def affine (b : Byte) : Byte :=
  b ^^^ b.rotateLeft 1 ^^^ b.rotateLeft 2 ^^^ b.rotateLeft 3 ^^^ b.rotateLeft 4 ^^^ 0x63

/-- A byte goes to the image of its inverse, and 0 to that of 0. -/
structure SBox where
  sub : Byte → Byte
  unsub : Byte → Byte
  unsub_sub : ∀ b, unsub (sub b) = b
  sub_unsub : ∀ b, sub (unsub b) = b
  zero : sub 0 = affine 0
  inverse : ∀ b ≠ 0, ∃ c, mul b c = 1 ∧ sub b = affine c

/-! ## 3. Transformations of the state -/

abbrev Column := Fin 4 → Byte

/-- Column for column; `s j r` is the byte in row `r` of column `j`. -/
abbrev State := Fin 4 → Column

def subBytes (S : SBox) (s : State) : State := fun j r => S.sub (s j r)
def invSubBytes (S : SBox) (s : State) : State := fun j r => S.unsub (s j r)

/-- Row `r` moves left by `r` places. -/
def shiftRows (s : State) : State := fun j r => s (j + r) r
def invShiftRows (s : State) : State := fun j r => s (j - r) r

/-- The product of a column with the polynomial whose coefficients turn with the row. -/
def turning (c : Fin 4 → Byte) (col : Column) : Column := fun r =>
  mul (c 0) (col r) ^^^ mul (c 1) (col (r + 1)) ^^^ mul (c 2) (col (r + 2)) ^^^
    mul (c 3) (col (r + 3))

def mixColumn : Column → Column := turning fun k => [0x02, 0x03, 0x01, 0x01].getD k 0
def invMixColumn : Column → Column := turning fun k => [0x0e, 0x0b, 0x0d, 0x09].getD k 0

def mixColumns (s : State) : State := fun j => mixColumn (s j)
def invMixColumns (s : State) : State := fun j => invMixColumn (s j)

def addColumn (k c : Column) : Column := fun r => k r ^^^ c r
def addRoundKey (k s : State) : State := fun j => addColumn (k j) (s j)

/-- Encryption, as layers. -/
def forward (S : SBox) : Layers State :=
  ⟨addRoundKey, fun s => shiftRows (subBytes S s), mixColumns⟩

/-- The equivalent inverse cipher. -/
def backward (S : SBox) : Layers State :=
  ⟨addRoundKey, fun s => invShiftRows (invSubBytes S s), invMixColumns⟩

/-! ## 4. The schedule -/

def subColumn (S : SBox) (c : Column) : Column := fun r => S.sub (c r)
def rotColumn (c : Column) : Column := fun r => c (r + 1)

/-- `x ^ n` -/
def power : Nat → Byte
  | 0 => 1
  | n + 1 => xtime (power n)

/-- `x ^ (i - 1)` in the first row. -/
def roundConstant (i : Nat) : Column := fun r => if r = 0 then power (i - 1) else 0

/-- What is added to the column `nk` back. -/
def schedule (S : SBox) (nk i : Nat) (before : Column) : Column :=
  if i % nk = 0 then addColumn (subColumn S (rotColumn before)) (roundConstant (i / nk))
  else if nk > 6 ∧ i % nk = 4 then subColumn S before
  else before

/-- The first `n` columns of `w` are those of the schedule of a key of `nk` columns. -/
structure Expands (S : SBox) (nk : Nat) (key : Nat → Byte) (n : Nat) (w : Nat → Column) : Prop where
  key : ∀ i < nk, w i = fun r => key (4 * i + r.val)
  next : ∀ i, nk ≤ i → i < n → w i = addColumn (w (i - nk)) (schedule S nk i (w (i - 1)))

/-- The round key `i`. -/
def roundKey (w : Nat → Column) (i : Nat) : State := fun j => w (4 * i + j.val)

/-- The round keys between the first and the last. -/
def middleKeys (w : Nat → Column) (nr : Nat) : List State :=
  (List.range (nr - 1)).map fun i => roundKey w (i + 1)

/-- `Cipher` of the standard, for `nr` rounds. -/
def cipher (S : SBox) (nr : Nat) (w : Nat → Column) (s : State) : State :=
  (forward S).run (roundKey w 0) (middleKeys w nr) (roundKey w nr) s

/-- `EqInvCipher` of the standard: the keys between are mixed. -/
def invCipher (S : SBox) (nr : Nat) (w : Nat → Column) (s : State) : State :=
  (backward S).run (roundKey w nr) ((middleKeys w nr).reverse.map invMixColumns) (roundKey w 0) s

/-! ## 5. The inverse -/

theorem xor_cancel (a b : Byte) : a ^^^ (a ^^^ b) = b := by
  rw [← BitVec.xor_assoc, BitVec.xor_self, BitVec.zero_xor]

theorem addRoundKey_cancel (k s : State) : addRoundKey k (addRoundKey k s) = s := by
  funext j r
  exact xor_cancel _ _

theorem row_sub_add : ∀ j r : Fin 4, j - r + r = j := by decide

theorem row_add_sub : ∀ j r : Fin 4, j + r - r = j := by decide

/-- Substituting and moving rows are undone together. -/
theorem invShiftRows_shiftRows (S : SBox) (s : State) :
    invShiftRows (invSubBytes S (shiftRows (subBytes S s))) = s := by
  funext j r
  show S.unsub (S.sub (s (j - r + r) r)) = s j r
  rw [S.unsub_sub, row_sub_add]

theorem shiftRows_invShiftRows (S : SBox) (s : State) :
    shiftRows (subBytes S (invShiftRows (invSubBytes S s))) = s := by
  funext j r
  show S.sub (S.unsub (s (j + r - r) r)) = s j r
  rw [S.sub_unsub, row_add_sub]

/-- A coefficient of the product of `d` and `c`. -/
def coefficient (d c : Fin 4 → Byte) (k₀ k₁ k₂ k₃ : Fin 4) (b : Byte) : Byte :=
  mul (d 0) (mul (c k₀) b) ^^^ mul (d 1) (mul (c k₁) b) ^^^ mul (d 2) (mul (c k₂) b) ^^^
    mul (d 3) (mul (c k₃) b)

theorem coefficient_xor (d c : Fin 4 → Byte) (k₀ k₁ k₂ k₃ : Fin 4) (a b : Byte) :
    coefficient d c k₀ k₁ k₂ k₃ (a ^^^ b) =
      coefficient d c k₀ k₁ k₂ k₃ a ^^^ coefficient d c k₀ k₁ k₂ k₃ b := by
  simp only [coefficient, mul_xor]
  ac_rfl

/-- The product of `d` and `c` is 1, on the single bits. -/
structure UnitProduct (d c : Fin 4 → Byte) : Prop where
  zero : ∀ i : Fin 8, coefficient d c 0 3 2 1 (1 <<< i.val) = 1 <<< i.val
  one : ∀ i : Fin 8, coefficient d c 1 0 3 2 (1 <<< i.val) = 0
  two : ∀ i : Fin 8, coefficient d c 2 1 0 3 (1 <<< i.val) = 0
  three : ∀ i : Fin 8, coefficient d c 3 2 1 0 (1 <<< i.val) = 0

theorem row_turns : ∀ r : Fin 4, r + 1 + 1 = r + 2 ∧ r + 1 + 2 = r + 3 ∧ r + 1 + 3 = r ∧
    r + 2 + 1 = r + 3 ∧ r + 2 + 2 = r ∧ r + 2 + 3 = r + 1 ∧
    r + 3 + 1 = r ∧ r + 3 + 2 = r + 1 ∧ r + 3 + 3 = r + 2 := by decide

theorem turning_turning {d c : Fin 4 → Byte} (h : UnitProduct d c) (col : Column) :
    turning d (turning c col) = col := by
  have hnone : ∀ k₀ k₁ k₂ k₃, (∀ i : Fin 8, coefficient d c k₀ k₁ k₂ k₃ (1 <<< i.val) = 0) →
      ∀ b, coefficient d c k₀ k₁ k₂ k₃ b = 0 := fun k₀ k₁ k₂ k₃ hk =>
    eq_of_bits (coefficient_xor d c k₀ k₁ k₂ k₃) (g := fun _ => 0)
      (fun _ _ => BitVec.xor_self.symm) hk
  have hone : ∀ b, coefficient d c 0 3 2 1 b = b :=
    eq_of_bits (coefficient_xor d c 0 3 2 1) (g := id) (fun _ _ => rfl) h.zero
  funext r
  obtain ⟨e11, e12, e13, e21, e22, e23, e31, e32, e33⟩ := row_turns r
  -- the sixteen products, put together row for row
  have hrows := congrArg₂ (· ^^^ ·)
    (congrArg₂ (· ^^^ ·) (hone (col r)) (hnone _ _ _ _ h.one (col (r + 1))))
    (congrArg₂ (· ^^^ ·) (hnone _ _ _ _ h.two (col (r + 2))) (hnone _ _ _ _ h.three (col (r + 3))))
  simp only [coefficient] at hrows
  simp only [turning, mul_xor, e11, e12, e13, e21, e22, e23, e31, e32, e33]
  refine Eq.trans ?_ (hrows.trans ?_)
  · ac_rfl
  · exact (BitVec.xor_zero).trans BitVec.xor_zero

/-- The two polynomials of the standard. -/
theorem unitProduct_mix :
    UnitProduct (fun k => [0x0e, 0x0b, 0x0d, 0x09].getD k 0)
        (fun k => [0x02, 0x03, 0x01, 0x01].getD k 0) ∧
      UnitProduct (fun k => [0x02, 0x03, 0x01, 0x01].getD k 0)
        (fun k => [0x0e, 0x0b, 0x0d, 0x09].getD k 0) := by
  constructor <;> constructor <;> decide +kernel

theorem invMixColumns_mixColumns (s : State) : invMixColumns (mixColumns s) = s :=
  funext fun j => turning_turning unitProduct_mix.1 (s j)

theorem mixColumns_invMixColumns (s : State) : mixColumns (invMixColumns s) = s :=
  funext fun j => turning_turning unitProduct_mix.2 (s j)

theorem turning_addColumn (c : Fin 4 → Byte) (k col : Column) :
    turning c (addColumn k col) = addColumn (turning c k) (turning c col) := by
  funext r
  simp only [turning, addColumn, mul_xor]
  ac_rfl

theorem mixColumns_addRoundKey (k s : State) :
    mixColumns (addRoundKey k s) = addRoundKey (mixColumns k) (mixColumns s) := by
  funext j
  show mixColumn (addColumn (k j) (s j)) = addColumn (mixColumn (k j)) (mixColumn (s j))
  unfold mixColumn
  exact turning_addColumn _ _ _

theorem invMixColumns_addRoundKey (k s : State) :
    invMixColumns (addRoundKey k s) = addRoundKey (invMixColumns k) (invMixColumns s) := by
  funext j
  show invMixColumn (addColumn (k j) (s j)) = addColumn (invMixColumn (k j)) (invMixColumn (s j))
  unfold invMixColumn
  exact turning_addColumn _ _ _

section Inverse

variable (S : SBox)

theorem backward_undoes : (backward S).Undoes (forward S) where
  add := rfl
  cancel := addRoundKey_cancel
  unsubstitute := invShiftRows_shiftRows S
  unmix := invMixColumns_mixColumns
  linear := invMixColumns_addRoundKey

theorem forward_undoes : (forward S).Undoes (backward S) where
  add := rfl
  cancel := addRoundKey_cancel
  unsubstitute := shiftRows_invShiftRows S
  unmix := mixColumns_invMixColumns
  linear := mixColumns_addRoundKey

theorem invCipher_cipher (nr : Nat) (w : Nat → Column) (s : State) :
    invCipher S nr w (cipher S nr w s) = s := (backward_undoes S).run _ _ _ s

theorem cipher_invCipher (nr : Nat) (w : Nat → Column) (s : State) :
    cipher S nr w (invCipher S nr w s) = s := by
  have hkeys : ((middleKeys w nr).reverse.map invMixColumns).reverse.map mixColumns =
      middleKeys w nr := by
    rw [← List.map_reverse, List.reverse_reverse, List.map_map]
    exact (List.map_congr_left fun k _ => mixColumns_invMixColumns k).trans (List.map_id _)
  have hrun := (forward_undoes S).run (roundKey w nr) ((middleKeys w nr).reverse.map invMixColumns)
    (roundKey w 0) s
  rw [show (forward S).mix = mixColumns from rfl, hkeys] at hrun
  exact hrun

end Inverse

end Mh1903.Aes
