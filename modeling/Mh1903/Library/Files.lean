/-
  File:      Mh1903/Library/Files.lean
  Subject:   A FILE AND ITS POSITION. Names nothing of the bootloader.

  A file is what it holds and the position the next write starts at. A write puts its data there,
  makes the file longer where it has to, and fills a gap it leaves.
-/
import Mathlib.Data.List.Basic

namespace Mh1903.Library

/-- An open file: what it holds, and where the next write goes. -/
structure File (α : Type) where
  content : List α
  pos : Nat

namespace File

variable {α : Type}

/-- The file just created. -/
def empty : File α := ⟨[], 0⟩

def seek (f : File α) (pos : Nat) : File α := { f with pos := pos }

/-- `data` written at the position; a gap behind the end is filled with `fill`. -/
def write (fill : α) (f : File α) (data : List α) : File α where
  content := f.content.take f.pos ++ (List.replicate (f.pos - f.content.length) fill ++
    (data ++ f.content.drop (f.pos + data.length)))
  pos := f.pos + data.length

variable {fill : α} {f : File α} {data : List α}

theorem write_empty (data : List α) : (write fill empty data).content = data := by
  simp [write, empty]

/-- A write that starts inside the file leaves it as long as it was, or ends it. -/
theorem length_write (h : f.pos ≤ f.content.length) :
    (write fill f data).content.length = max f.content.length (f.pos + data.length) := by
  simp only [write, List.length_append, List.length_take, List.length_replicate, List.length_drop]
  omega

/-- **Element by element**: what was written, and what was there. -/
theorem getElem?_write (h : f.pos ≤ f.content.length) (i : Nat) :
    (write fill f data).content[i]? =
      if f.pos ≤ i ∧ i < f.pos + data.length then data[i - f.pos]? else f.content[i]? := by
  have hgap : f.pos - f.content.length = 0 := by omega
  have hfront : (f.content.take f.pos).length = f.pos := by
    rw [List.length_take]
    omega
  simp only [write, hgap, List.replicate_zero, List.nil_append]
  by_cases hi : i < f.pos
  · rw [if_neg (by omega), List.getElem?_append_left (by omega), List.getElem?_take_of_lt hi]
  · rw [List.getElem?_append_right (by omega), hfront]
    by_cases hdata : i < f.pos + data.length
    · rw [if_pos ⟨by omega, hdata⟩, List.getElem?_append_left (by omega)]
    · rw [if_neg (by omega), List.getElem?_append_right (by omega), List.getElem?_drop]
      congr 1
      omega

end File

end Mh1903.Library
