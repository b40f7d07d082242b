/-
  File:      Mh1903/Aes/Tables.lean
  Subject:   THE TABLES OF THE SOURCE. A word is a column of the state; `FSb` is the S-box of the
             standard, and four lookups in the forward or in the reverse tables are the
             substitution and the mixing of a column.
-/
import Mh1903.Aes.Standard
import Mh1903.Model.TinyAes
import Mathlib.Data.Fintype.EquivFin
import Mathlib.Data.List.GetD

namespace Mh1903.Aes

/-! ## 1. Words as columns -/

/-- The bytes of a word, from the low one up. -/
def column (w : Ulong) : Column := fun r => byteOf r w

theorem column_xor (a b : Ulong) : column (a ^^^ b) = addColumn (column a) (column b) := by
  funext r
  exact BitVec.extractLsb'_xor

theorem getLsbD_byteOf {w : Ulong} {k j : Nat} (hj : j < 8) :
    (byteOf k w).getLsbD j = w.getLsbD (8 * k + j) := by
  unfold byteOf
  rw [BitVec.getLsbD_extractLsb', decide_eq_true hj, Bool.true_and]

/-- A word is its column. -/


theorem byteOf_word (b0 b1 b2 b3 : Byte) :
    byteOf 0 (word b0 b1 b2 b3) = b0 ∧ byteOf 1 (word b0 b1 b2 b3) = b1 ∧
      byteOf 2 (word b0 b1 b2 b3) = b2 ∧ byteOf 3 (word b0 b1 b2 b3) = b3 := by
  refine ⟨?_, ?_, ?_, ?_⟩ <;>
  · refine BitVec.eq_of_getLsbD_eq fun j hj => ?_
    simp (disch := omega) only [getLsbD_byteOf hj, word, BitVec.getLsbD_append, if_pos, if_neg]
    exact congrArg _ (by omega)

theorem column_word (b0 b1 b2 b3 : Byte) (r : Fin 4) :
    column (word b0 b1 b2 b3) r = [b0, b1, b2, b3].getD r 0 := by
  obtain ⟨h0, h1, h2, h3⟩ := byteOf_word b0 b1 b2 b3
  match r with
  | 0 => exact h0
  | 1 => exact h1
  | 2 => exact h2
  | 3 => exact h3

/-- Turned by `k` bytes. -/
theorem column_rotateLeft (w : Ulong) (k : Fin 4) :
    column (w.rotateLeft (8 * k.val)) = fun r => column w (r - k) := by
  funext r
  refine BitVec.eq_of_getLsbD_eq fun j hj => ?_
  have hr := r.isLt
  have hk := k.isLt
  have hsub : (r - k).val = (4 - k.val + r.val) % 4 := rfl
  show (byteOf r (w.rotateLeft (8 * k.val))).getLsbD j = (byteOf (r - k).val w).getLsbD j
  rw [getLsbD_byteOf hj, getLsbD_byteOf hj, BitVec.getLsbD_rotateLeft, hsub]
  by_cases h : r.val < k.val
  · rw [decide_eq_true (by omega)]
    exact congrArg w.getLsbD (by omega)
  · rw [decide_eq_false (by omega), decide_eq_true (by omega)]
    exact congrArg w.getLsbD (by omega)

/-! ## 2. The S-box -/

/-- What holds of the entries of two tables, pair for pair, holds of each lookup. -/
theorem getD_of_pairs {α β : Type} {s : List α} {t : List β} {d : α} {e : β} {P : α → β → Prop}
    [∀ a b, Decidable (P a b)] (hs : s.length = 256) (ht : t.length = 256)
    (h : (s.zip t).all fun p => P p.1 p.2) (b : Byte) :
    P (s.getD b.toNat d) (t.getD b.toNat e) := by
  have hb : b.toNat < 256 := b.isLt
  have hb₁ : b.toNat < s.length := by rw [hs]; exact hb
  have hb₂ : b.toNat < t.length := by rw [ht]; exact hb
  have hmem : (s[b.toNat], t[b.toNat]) ∈ s.zip t := by
    rw [← List.getElem_zip (h := by rw [List.length_zip]; omega)]
    exact List.getElem_mem _
  rw [List.getD_eq_getElem s d hb₁, List.getD_eq_getElem t e hb₂]
  exact of_decide_eq_true (List.all_eq_true.mp h _ hmem)

/-- What holds of each entry and its index holds of each lookup. -/
theorem getD_of_entries {α : Type} {t : List α} {d : α} {P : Byte → α → Prop}
    [∀ b a, Decidable (P b a)] (ht : t.length = 256)
    (h : ((List.range 256).zip t).all fun p => P (.ofNat 8 p.1) p.2) (b : Byte) :
    P b (t.getD b.toNat d) := by
  have hb : b.toNat < 256 := b.isLt
  have hpair := getD_of_pairs (d := 0) (e := d) (P := fun i v => P (.ofNat 8 i) v)
    List.length_range ht h b
  rw [List.getD_eq_getElem _ _ (by rw [List.length_range]; exact hb), List.getElem_range,
    BitVec.ofNat_toNat, BitVec.setWidth_eq] at hpair
  exact hpair

def invAffine (b : Byte) : Byte := b.rotateLeft 1 ^^^ b.rotateLeft 3 ^^^ b.rotateLeft 6 ^^^ 0x05

theorem fSb_inverse (b : Byte) :
    b ≠ 0 → mul b (invAffine (fSb b)) = 1 ∧ fSb b = affine (invAffine (fSb b)) :=
  getD_of_entries (t := fSbTable)
    (P := fun b v => b ≠ 0 → mul b (invAffine v) = 1 ∧ v = affine (invAffine v))
    (by decide +kernel) (by decide +kernel) b

theorem rSb_fSb (b : Byte) : rSb (fSb b) = b :=
  getD_of_entries (t := fSbTable) (P := fun b v => rSb v = b) (by decide +kernel)
    (by decide +kernel) b

theorem fSb_rSb (b : Byte) : fSb (rSb b) = b := by
  have hfinite : Finite Byte := Finite.of_injective BitVec.toFin fun _ _ => BitVec.eq_of_toFin_eq
  have hbij : Function.Bijective fSb := Finite.injective_iff_bijective.mp
    (Function.LeftInverse.injective rSb_fSb)
  obtain ⟨a, rfl⟩ := hbij.surjective b
  rw [rSb_fSb]

/-- `FSb` and `RSb` -/
def tableSBox : SBox where
  sub := fSb
  unsub := rSb
  unsub_sub := rSb_fSb
  sub_unsub := fSb_rSb
  zero := by decide +kernel
  inverse b hb := ⟨_, fSb_inverse b hb⟩

/-! ## 3. Lookups -/

/-- A product with a constant, from its values on the single bits. -/
theorem mul_eq {c : Byte} {g : Byte → Byte} (hg : ∀ a b, g (a ^^^ b) = g a ^^^ g b)
    (h : ∀ i : Fin 8, mul c (1 <<< i.val) = g (1 <<< i.val)) (b : Byte) : mul c b = g b :=
  eq_of_bits (mul_xor c) hg h b

theorem mul_one (b : Byte) : mul 0x01 b = b :=
  mul_eq (g := id) (fun _ _ => rfl) (by decide +kernel) b

theorem mul_two (b : Byte) : mul 0x02 b = xtime b := mul_eq xtime_xor (by decide +kernel) b

theorem mul_three (b : Byte) : mul 0x03 b = xtime b ^^^ b :=
  mul_eq (g := fun b => xtime b ^^^ b) (fun x y => by simp only [xtime_xor]; ac_rfl)
    (by decide +kernel) b

theorem mul_nine (b : Byte) : mul 0x09 b = xtime (xtime (xtime b)) ^^^ b :=
  mul_eq (g := fun b => xtime (xtime (xtime b)) ^^^ b)
    (fun x y => by simp only [xtime_xor]; ac_rfl) (by decide +kernel) b

theorem mul_eleven (b : Byte) : mul 0x0b b = xtime (xtime (xtime b)) ^^^ xtime b ^^^ b :=
  mul_eq (g := fun b => xtime (xtime (xtime b)) ^^^ xtime b ^^^ b)
    (fun x y => by simp only [xtime_xor]; ac_rfl) (by decide +kernel) b

theorem mul_thirteen (b : Byte) :
    mul 0x0d b = xtime (xtime (xtime b)) ^^^ xtime (xtime b) ^^^ b :=
  mul_eq (g := fun b => xtime (xtime (xtime b)) ^^^ xtime (xtime b) ^^^ b)
    (fun x y => by simp only [xtime_xor]; ac_rfl) (by decide +kernel) b

theorem mul_fourteen (b : Byte) :
    mul 0x0e b = xtime (xtime (xtime b)) ^^^ xtime (xtime b) ^^^ xtime b :=
  mul_eq (g := fun b => xtime (xtime (xtime b)) ^^^ xtime (xtime b) ^^^ xtime b)
    (fun x y => by simp only [xtime_xor]; ac_rfl) (by decide +kernel) b

theorem fT0_eq (b : Byte) :
    fT0 b = word (mul 0x02 (fSb b)) (mul 0x01 (fSb b)) (mul 0x01 (fSb b)) (mul 0x03 (fSb b)) := by
  rw [mul_one, mul_two, mul_three]
  exact getD_of_pairs (P := fun v s => v = word (xtime s) s s (xtime s ^^^ s)) (by decide +kernel)
    (by decide +kernel) (by decide +kernel) b

theorem rT0_eq (b : Byte) :
    rT0 b = word (mul 0x0e (rSb b)) (mul 0x09 (rSb b)) (mul 0x0d (rSb b)) (mul 0x0b (rSb b)) := by
  rw [mul_nine, mul_eleven, mul_thirteen, mul_fourteen]
  exact getD_of_pairs
    (P := fun v s => v = word (xtime (xtime (xtime s)) ^^^ xtime (xtime s) ^^^ xtime s)
      (xtime (xtime (xtime s)) ^^^ s) (xtime (xtime (xtime s)) ^^^ xtime (xtime s) ^^^ s)
      (xtime (xtime (xtime s)) ^^^ xtime s ^^^ s))
    (by decide +kernel) (by decide +kernel) (by decide +kernel) b

/-- Four words, each turned to its row, are the product with the coefficients in the first. -/
theorem column_turned {c : Fin 4 → Byte} {x : Column} {t : Fin 4 → Ulong}
    (h : ∀ k, t k = word (mul (c 0) (x k)) (mul (c 3) (x k)) (mul (c 2) (x k)) (mul (c 1) (x k))) :
    column (t 0 ^^^ (t 1).rotateLeft 8 ^^^ (t 2).rotateLeft 16 ^^^ (t 3).rotateLeft 24) =
      turning c x := by
  have h1 : column ((t 1).rotateLeft 8) = fun r => column (t 1) (r - 1) := column_rotateLeft _ 1
  have h2 : column ((t 2).rotateLeft 16) = fun r => column (t 2) (r - 2) := column_rotateLeft _ 2
  have h3 : column ((t 3).rotateLeft 24) = fun r => column (t 3) (r - 3) := column_rotateLeft _ 3
  funext r
  simp only [column_xor, addColumn, h1, h2, h3]
  simp only [h, column_word, turning]
  revert r
  refine Fin.forall_fin_succ.mpr ⟨rfl, Fin.forall_fin_succ.mpr ⟨?_, Fin.forall_fin_two.mpr ⟨?_, ?_⟩⟩⟩
  · show mul (c 3) (x 0) ^^^ mul (c 0) (x 1) ^^^ mul (c 1) (x 2) ^^^ mul (c 2) (x 3) =
      mul (c 0) (x 1) ^^^ mul (c 1) (x 2) ^^^ mul (c 2) (x 3) ^^^ mul (c 3) (x 0)
    ac_rfl
  · show mul (c 2) (x 0) ^^^ mul (c 3) (x 1) ^^^ mul (c 0) (x 2) ^^^ mul (c 1) (x 3) =
      mul (c 0) (x 2) ^^^ mul (c 1) (x 3) ^^^ mul (c 2) (x 0) ^^^ mul (c 3) (x 1)
    ac_rfl
  · show mul (c 1) (x 0) ^^^ mul (c 2) (x 1) ^^^ mul (c 3) (x 2) ^^^ mul (c 0) (x 3) =
      mul (c 0) (x 3) ^^^ mul (c 1) (x 0) ^^^ mul (c 2) (x 1) ^^^ mul (c 3) (x 2)
    ac_rfl

/-- Four lookups in the forward tables: the bytes substituted, and the column mixed. -/
theorem column_fT (b0 b1 b2 b3 : Byte) :
    column (fT0 b0 ^^^ fT1 b1 ^^^ fT2 b2 ^^^ fT3 b3) =
      mixColumn fun r => fSb ([b0, b1, b2, b3].getD r.val 0) := by
  unfold mixColumn
  refine column_turned (t := fun k => fT0 ([b0, b1, b2, b3].getD k.val 0)) fun k => ?_
  exact fT0_eq _

/-- Four lookups in the reverse tables. -/
theorem column_rT (b0 b1 b2 b3 : Byte) :
    column (rT0 b0 ^^^ rT1 b1 ^^^ rT2 b2 ^^^ rT3 b3) =
      invMixColumn fun r => rSb ([b0, b1, b2, b3].getD r.val 0) := by
  unfold invMixColumn
  refine column_turned (t := fun k => rT0 ([b0, b1, b2, b3].getD k.val 0)) fun k => ?_
  exact rT0_eq _

end Mh1903.Aes
