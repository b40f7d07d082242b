/-
  File:      Mh1903/Library/Bytes.lean
  Subject:   BUFFERS AS LISTS OF BYTES: what lies in a range, putting a range. Names nothing of
             the bootloader.

  A buffer of `n` elements is a list of length `n`. `slice` reads a range that may run past the
  end: there the elements come from what the memory after the buffer holds. `overwrite` puts a
  range and keeps the length.
-/
import Mathlib.Data.List.Basic
import Mathlib.Tactic.Ring

namespace Mh1903.Library

variable {α : Type}

/-! ## 1. Reading a range -/

/-- The `n` elements of `buf` from `off`; past the end of `buf` they are `mem`'s. -/
def slice (mem : Nat → α) (buf : List α) (off n : Nat) : List α :=
  (buf.drop off).take n ++
    (List.range (n - (buf.length - off))).map fun i => mem (max off buf.length + i)

@[simp] theorem length_slice (mem : Nat → α) (buf : List α) (off n : Nat) :
    (slice mem buf off n).length = n := by
  simp only [slice, List.length_append, List.length_take, List.length_drop, List.length_map,
    List.length_range]
  omega

/-- Inside the buffer a range is the buffer's own. -/
theorem slice_eq (mem : Nat → α) {buf : List α} {off n : Nat} (h : off + n ≤ buf.length) :
    slice mem buf off n = (buf.drop off).take n := by
  have hn : n - (buf.length - off) = 0 := by omega
  simp [slice, hn]

/-- Byte by byte: the buffer where it reaches, the memory behind it. -/
theorem getElem?_slice (mem : Nat → α) (buf : List α) (off n j : Nat) (hj : j < n) :
    (slice mem buf off n)[j]? = some (buf.getD (off + j) (mem (off + j))) := by
  unfold slice
  by_cases h : off + j < buf.length
  · have h₁ : j < ((buf.drop off).take n).length := by
      simp only [List.length_take, List.length_drop]; omega
    rw [List.getElem?_append_left h₁, List.getElem?_take_of_lt hj, List.getElem?_drop,
      List.getD_eq_getElem?_getD, List.getElem?_eq_getElem h]
    rfl
  · have h₁ : ((buf.drop off).take n).length ≤ j := by
      simp only [List.length_take, List.length_drop]; omega
    have hlen : ((buf.drop off).take n).length = buf.length - off := by
      simp only [List.length_take, List.length_drop]; omega
    have hidx : j - (buf.length - off) < n - (buf.length - off) := by omega
    rw [List.getElem?_append_right h₁, hlen, List.getElem?_map, List.getElem?_range hidx,
      List.getD_eq_getElem?_getD, List.getElem?_eq_none (by omega)]
    show some (mem (max off buf.length + (j - (buf.length - off)))) = some (mem (off + j))
    congr 2
    omega

/-! ## 2. Putting a range -/

/-- `buf` with `data` put at `off`; what would fall past the end is dropped. -/
def overwrite (buf : List α) (off : Nat) (data : List α) : List α :=
  buf.take off ++ (data.take (buf.length - off) ++ buf.drop (off + data.length))

@[simp] theorem length_overwrite (buf : List α) (off : Nat) (data : List α) :
    (overwrite buf off data).length = buf.length := by
  simp only [overwrite, List.length_append, List.length_take, List.length_drop]
  omega

/-- Byte by byte: what was put, and what was there. -/
theorem getElem?_overwrite (buf : List α) (off : Nat) (data : List α) (i : Nat) :
    (overwrite buf off data)[i]? =
      if off ≤ i ∧ i < off + data.length ∧ i < buf.length then data[i - off]? else buf[i]? := by
  unfold overwrite
  by_cases h₀ : i < off
  · rw [if_neg (by omega)]
    by_cases hb : i < buf.length
    · rw [List.getElem?_append_left (by rw [List.length_take]; omega),
        List.getElem?_take_of_lt h₀]
    · rw [List.getElem?_eq_none (l := buf) (by omega), List.getElem?_eq_none]
      simp only [List.length_append, List.length_take, List.length_drop]
      omega
  by_cases hb : i < buf.length
  · have hoff : (buf.take off).length = off := by rw [List.length_take]; omega
    rw [List.getElem?_append_right (by omega), hoff]
    by_cases hd : i < off + data.length
    · rw [if_pos ⟨by omega, hd, hb⟩, List.getElem?_append_left (by rw [List.length_take]; omega),
        List.getElem?_take_of_lt (by omega)]
    · have hlen : (data.take (buf.length - off)).length = data.length := by
        rw [List.length_take]; omega
      rw [if_neg (by omega), List.getElem?_append_right (by omega), hlen, List.getElem?_drop]
      congr 1
      omega
  · rw [if_neg (by omega), List.getElem?_eq_none (l := buf) (by omega), List.getElem?_eq_none]
    simp only [List.length_append, List.length_take, List.length_drop]
    omega

theorem take_overwrite (buf : List α) (off : Nat) (data : List α) (n : Nat) :
    (overwrite buf off data).take n = overwrite (buf.take n) off data := by
  refine List.ext_getElem? fun i => ?_
  rw [getElem?_overwrite]
  by_cases hi : i < n
  · rw [List.getElem?_take_of_lt hi, List.getElem?_take_of_lt hi, getElem?_overwrite]
    by_cases hb : i < buf.length
    · simp only [hb, List.length_take, Nat.lt_min.mpr ⟨hi, hb⟩]
    · rw [if_neg (by omega), if_neg (by rw [List.length_take]; omega)]
  · rw [List.getElem?_eq_none (by rw [List.length_take]; omega), if_neg (by
      rw [List.length_take]; omega), List.getElem?_eq_none (by rw [List.length_take]; omega)]

/-- Putting at the front. -/
theorem overwrite_zero {buf data : List α} (h : data.length ≤ buf.length) :
    overwrite buf 0 data = data ++ buf.drop data.length := by
  simp only [overwrite, List.take_zero, List.nil_append, Nat.sub_zero, Nat.zero_add,
    List.take_of_length_le h]

/-- Putting as much as the buffer holds replaces it. -/
theorem overwrite_full {buf data : List α} (h : data.length = buf.length) :
    overwrite buf 0 data = data := by
  rw [overwrite_zero h.le, h, List.drop_length, List.append_nil]

/-- Putting the end of a buffer. -/
theorem overwrite_end {buf data : List α} {off : Nat} (h : off + data.length = buf.length) :
    overwrite buf off data = buf.take off ++ data := by
  have h₁ : buf.length - off = data.length := by omega
  rw [overwrite, h₁, List.take_length, h, List.drop_length, List.append_nil]

/-- Putting directly behind what was put at the front. -/
theorem overwrite_append {buf a b : List α} (h : a.length + b.length ≤ buf.length) :
    overwrite (overwrite buf 0 a) a.length b = overwrite buf 0 (a ++ b) := by
  have ha : a.length ≤ buf.length := by omega
  have hab : (a ++ b).length ≤ buf.length := by rw [List.length_append]; exact h
  rw [overwrite_zero ha, overwrite_zero hab]
  unfold overwrite
  have h₁ : b.length ≤ (a ++ buf.drop a.length).length - a.length := by
    simp only [List.length_append, List.length_drop]; omega
  rw [List.take_left, List.take_of_length_le h₁, List.drop_append,
    List.drop_of_length_le (Nat.le_add_right _ _), Nat.add_sub_cancel_left, List.drop_drop,
    List.length_append, List.nil_append, List.append_assoc]

end Mh1903.Library
